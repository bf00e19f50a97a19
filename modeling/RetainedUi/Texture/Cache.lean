import RetainedUi.Device.Recorder
import RetainedUi.Text.Quoted
import RetainedUi.Texture.Image

/-!
# Textures shared by name

A texture is loaded by the first request of its name. Every further request and every retain adds a
reference, every release drops one, and with the last reference the texture is destroyed on the
device. A request that fails leaves everything as it was.
-/

namespace RetainedUi

/-- A loaded texture with its size and the number of references to it. -/
structure CachedTexture where
  texture : Texture
  width : UInt32
  height : UInt32
  references : Nat
  deriving DecidableEq, Repr

/-- The loaded textures by name, in the order of loading. -/
structure TextureCache where
  entries : List (String × CachedTexture)
  deriving DecidableEq, Repr

/-- Pixels that can become a texture: a size, and the number of bytes that come with it. -/
structure Picture where
  width : UInt32
  height : UInt32
  bytes : Nat
  deriving DecidableEq, Repr

/-- The picture that a decoded image of a size has: four bytes for each point. -/
def Picture.ofSize (size : ImageSize) : Picture :=
  ⟨size.width, size.height, size.width.toNat * size.height.toNat * 4⟩

namespace TextureCache

def empty : TextureCache := ⟨[]⟩

def find? (c : TextureCache) (name : String) : Option CachedTexture := c.entries.lookup name

/-- The texture loaded under a name. -/
def texture? (c : TextureCache) (name : String) : Option Texture := (c.find? name).map (·.texture)

/-- The number of references to the texture of a name. -/
def references (c : TextureCache) (name : String) : Nat := ((c.find? name).map (·.references)).getD 0

def size (c : TextureCache) : Nat := c.entries.length

/-- Sets the number of references of a loaded texture. -/
def setReferences (c : TextureCache) (name : String) (references : Nat) : TextureCache :=
  ⟨c.entries.map fun entry ↦ if entry.1 = name then (entry.1, { entry.2 with references }) else entry⟩

/-- Adds a reference to a loaded texture. -/
def retain (c : TextureCache) (name : String) : Option Texture × TextureCache :=
  match c.find? name with
  | none => (none, c)
  | some cached => (some cached.texture, c.setReferences name (cached.references + 1))

/-- Adds a reference, or loads the picture if there is none of the name. The picture is looked at only
in the second case; it may be missing because the data is no image. -/
def request (c : TextureCache) (r : Recorder) (name : String) (picture : Option Picture) :
    Except Halt (Except Fault Texture × TextureCache × Recorder) := do
  match c.retain name with
  | (some texture, c) => return (.ok texture, c, r)
  | (none, c) =>
    match picture with
    | none => return (.error .image, c, r)
    | some picture =>
      match ← r.createTexture picture.width picture.height picture.bytes with
      | (.error fault, r) => return (.error fault, c, r)
      | (.ok texture, r) =>
        return (.ok texture, ⟨c.entries ++ [(name, ⟨texture, picture.width, picture.height, 1⟩)]⟩, r)

/-- The note that precedes the loading of a file, which is made only if the name is not loaded. -/
def loadingNotes (c : TextureCache) (name path : String) : List Note :=
  if (c.find? name).isSome then []
  else [⟨.debug, .textures, "Loading texture " ++ Quoted.quote name ++ " from " ++ path⟩]

/-- Drops a reference. The answer says whether it was the last one, with which the texture goes. -/
def release (c : TextureCache) (r : Recorder) (name : String) :
    Bool × TextureCache × Recorder × List Note :=
  match c.find? name with
  | none =>
    (false, c, r, [⟨.warning, .textures, "Releasing texture " ++ Quoted.quote name ++ ", which isn't loaded"⟩])
  | some cached =>
    if 1 < cached.references then (false, c.setReferences name (cached.references - 1), r, [])
    else
      (true, ⟨c.entries.filter (·.1 != name)⟩, r.releaseTexture cached.texture,
        [⟨.debug, .textures, "Released texture " ++ Quoted.quote name⟩])

/-- Destroys every texture, whatever refers to it. -/
def releaseAll (c : TextureCache) (r : Recorder) : TextureCache × Recorder :=
  (empty, c.entries.foldl (fun r entry ↦ r.releaseTexture entry.2.texture) r)

end TextureCache

end RetainedUi
