import RetainedUi.Numeral.Single

/-!
# Colors

A color has four channels, red, green, blue and alpha, of which the values from zero to one are
meant to be seen. Nothing forces a channel into that range; packing and hue reading clamp first.
-/

namespace RetainedUi

/-- A color with normalized channels. -/
structure Color where
  red : Float32
  green : Float32
  blue : Float32
  alpha : Float32
  deriving DecidableEq, Repr, Inhabited

namespace Color

/-! ## Named colors -/

def pureRed : Color := ⟨1, 0, 0, 1⟩
def pureGreen : Color := ⟨0, 1, 0, 1⟩
def pureBlue : Color := ⟨0, 0, 1, 1⟩
def white : Color := ⟨1, 1, 1, 1⟩
def nearWhite : Color := ⟨0.95, 0.95, 0.95, 1⟩
def lightGrey : Color := ⟨0.8, 0.8, 0.8, 1⟩
def grey : Color := ⟨0.5, 0.5, 0.5, 1⟩
def darkGrey : Color := ⟨0.2, 0.2, 0.2, 1⟩
def nearBlack : Color := ⟨0.05, 0.05, 0.05, 1⟩
def black : Color := ⟨0, 0, 0, 1⟩
def transparent : Color := ⟨1, 1, 1, 0⟩

/-- The color of what was given none. -/
def standard : Color := white

/-- The colors that can be asked for by name. -/
def named : List (String × Color) :=
  [("RED", pureRed), ("GREEN", pureGreen), ("BLUE", pureBlue), ("WHITE", white),
   ("NEAR_WHITE", nearWhite), ("LIGHT_GREY", lightGrey), ("GREY", grey), ("DARK_GREY", darkGrey),
   ("NEAR_BLACK", nearBlack), ("BLACK", black), ("TRANSPARENT", transparent)]

/-! ## Channels -/

def withAlpha (c : Color) (alpha : Float32) : Color := { c with alpha }

/-- The same function on every channel. -/
def map (f : Float32 → Float32) (c : Color) : Color :=
  ⟨f c.red, f c.green, f c.blue, f c.alpha⟩

/-- Every channel moved into the range from zero to one. -/
def clamped (c : Color) : Color := c.map (Single.clamp 0 1)

/-- The mixture of two colors: none of the other at factor zero, all of it at factor one. -/
def blend (c other : Color) (factor : Float32) : Color :=
  let rest := 1 - factor
  ⟨c.red * rest + other.red * factor, c.green * rest + other.green * factor,
    c.blue * rest + other.blue * factor, c.alpha * rest + other.alpha * factor⟩

end Color

end RetainedUi
