/-!
# Sizes of encoded images

An image is used here only by its size. Two formats are known: PNG, a signature followed by chunks,
of which the first holds the size and the last marks the end, and the portable pixmaps, a magic number
and a size in decimal digits followed by the samples. Bytes that break off before the end of the image
are no image.
-/

namespace RetainedUi

structure ImageSize where
  width : UInt32
  height : UInt32
  deriving DecidableEq, Repr

inductive ImageFormat where
  | png
  | pixmap
  deriving DecidableEq, Repr

namespace ImageSize

/-- A number in base 256, the highest digit first. -/
def bigEndian (bytes : List UInt8) : Nat := bytes.foldl (fun n b ↦ n * 256 + b.toNat) 0

/-- The beginning of every PNG. -/
def pngSignature : List UInt8 := [0x89, 0x50, 0x4e, 0x47, 0x0d, 0x0a, 0x1a, 0x0a]

/-- A chunk of a PNG: its type and its data. A checksum follows the data. -/
structure Chunk where
  type : String
  data : List UInt8

/-- Splits bytes into chunks up to the end mark. The number bounds the chunks. -/
def chunks? : Nat → List UInt8 → Option (List Chunk)
  | 0, _ => none
  | steps + 1, bytes =>
    let length := bigEndian (bytes.take 4)
    let type := String.ofList ((bytes.drop 4).take 4 |>.map fun b ↦ Char.ofNat b.toNat)
    let body := bytes.drop 8
    if body.length < length + 4 then none
    else
      let chunk : Chunk := ⟨type, body.take length⟩
      if type = "IEND" then some [chunk]
      else (chunks? steps (body.drop (length + 4))).map (chunk :: ·)

/-- The size in the header of a PNG that has picture data and an end mark. -/
def ofPng? (bytes : List UInt8) : Option ImageSize :=
  if bytes.take 8 ≠ pngSignature then none
  else
    match chunks? (bytes.length + 1) (bytes.drop 8) with
    | some (header :: rest) =>
      let width := bigEndian (header.data.take 4)
      let height := bigEndian ((header.data.drop 4).take 4)
      if header.type = "IHDR" ∧ header.data.length = 13 ∧ 0 < width ∧ 0 < height
          ∧ rest.any (·.type = "IDAT") then
        some ⟨width.toUInt32, height.toUInt32⟩
      else none
    | _ => none

def isBlank (b : UInt8) : Bool := b = 0x20 || (0x09 ≤ b && b ≤ 0x0d)

/-- Skips blanks and comments, which reach from a hash to the end of the line. -/
def skipBlanks : Nat → List UInt8 → List UInt8
  | 0, bytes => bytes
  | steps + 1, bytes =>
    match bytes with
    | [] => []
    | b :: rest =>
      if isBlank b then skipBlanks steps rest
      else if b = 0x23 then skipBlanks steps (rest.dropWhile (· ≠ 0x0a))
      else bytes

/-- Reads a decimal number after blanks. -/
def decimal? (bytes : List UInt8) : Option (Nat × List UInt8) :=
  let bytes := skipBlanks bytes.length bytes
  let digits := bytes.takeWhile fun b ↦ 0x30 ≤ b && b ≤ 0x39
  if digits.isEmpty then none
  else some (digits.foldl (fun n b ↦ n * 10 + (b.toNat - 0x30)) 0, bytes.drop digits.length)

/-- The size of a pixmap with binary samples, all of which have to be there. -/
def ofPixmap? (bytes : List UInt8) : Option ImageSize := do
  let channels ← match bytes.take 2 with
    | [0x50, 0x36] => some 3
    | [0x50, 0x35] => some 1
    | _ => none
  let (width, bytes) ← decimal? (bytes.drop 2)
  let (height, bytes) ← decimal? bytes
  let (greatest, bytes) ← decimal? bytes
  let sampleBytes := if greatest < 256 then 1 else 2
  if 0 < width ∧ 0 < height ∧ 0 < greatest ∧ greatest < 65536 ∧ isBlank (bytes.headD 0)
      ∧ width * height * channels * sampleBytes ≤ bytes.length - 1 then
    some ⟨width.toUInt32, height.toUInt32⟩
  else none

/-- The size of an image in a known format. -/
def ofFormat? : ImageFormat → List UInt8 → Option ImageSize
  | .png => ofPng?
  | .pixmap => ofPixmap?

/-- The size of an image whose format is to be told from its bytes. -/
def ofBytes? (bytes : List UInt8) : Option ImageSize :=
  (ofPng? bytes).orElse fun _ ↦ ofPixmap? bytes

/-- The part of a file name behind its last point, unless nothing stands before that point. -/
def extension? (name : String) : Option String :=
  let base := ((name.splitOn "/").getLastD "").splitOn "."
  match base.reverse with
  | last :: before :: rest => if before.isEmpty ∧ rest.isEmpty then none else some last
  | _ => none

/-- The format that a file name announces by its extension, in letters of either case. The formats of
pixmaps share one decoder, which goes by the magic number. -/
def formatOfName? (name : String) : Option ImageFormat :=
  match (extension? name).map String.toLower with
  | some "png" | some "apng" => some .png
  | some "ppm" | some "pgm" | some "pbm" | some "pam" | some "pnm" => some .pixmap
  | _ => none

/-- The size of an image file. A missing file has no bytes to read. -/
def ofFile? (name : String) (contents : Option (List UInt8)) : Option ImageSize := do
  let bytes ← contents
  let format ← formatOfName? name
  ofFormat? format bytes

end ImageSize

end RetainedUi
