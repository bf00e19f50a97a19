import RetainedUi.Color.Basic

/-!
# Hue, saturation and value

The color circle is cut into six faces of equal size. On each face one channel carries the value,
one the least share of it that the saturation leaves, and the third rises or falls along the face.
-/

namespace RetainedUi

/-- A color by hue, saturation and value, each from zero to one, and alpha. -/
structure HueColor where
  hue : Float32
  saturation : Float32
  value : Float32
  alpha : Float32
  deriving DecidableEq, Repr

namespace Color

/-- The channels for a hue. Below the gap after one a saturation counts as none. -/
def ofHue (h : HueColor) : Color :=
  if h.saturation < Single.epsilon then ⟨h.value, h.value, h.value, h.alpha⟩
  else
    let turns := h.hue * 6
    let face := turns.floor
    let along := turns - face
    let least := h.value * (1 - h.saturation)
    let falling := h.value * (1 - along * h.saturation)
    let rising := h.value * (1 - h.saturation * (1 - along))
    match face.toInt32.toInt % 6 with
    | 0 => ⟨h.value, rising, least, h.alpha⟩
    | 1 => ⟨falling, h.value, least, h.alpha⟩
    | 2 => ⟨least, h.value, rising, h.alpha⟩
    | 3 => ⟨least, falling, h.value, h.alpha⟩
    | 4 => ⟨rising, least, h.value, h.alpha⟩
    | _ => ⟨h.value, least, falling, h.alpha⟩

/-- The hue, saturation and value of the clamped color. Greys have hue and saturation zero. -/
def toHue (c : Color) : HueColor :=
  let c := c.clamped
  let upper := Single.larger (Single.larger c.red c.green) c.blue
  let lower := Single.smaller (Single.smaller c.red c.green) c.blue
  let chroma := upper - lower
  if chroma ≤ 0 then ⟨0, 0, upper, c.alpha⟩
  else
    let hue :=
      if upper == c.red then
        let turn := (c.green - c.blue) / chroma / 6
        if turn < 0 then turn + 1 else turn
      else if upper == c.green then (2 + (c.blue - c.red) / chroma) / 6
      else (4 + (c.red - c.green) / chroma) / 6
    ⟨hue, chroma / upper, upper, c.alpha⟩

end Color

end RetainedUi
