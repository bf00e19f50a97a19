import RetainedUi.Color.Basic

/-!
# Packed colors

A packed color is a 32-bit word with one byte for each channel: alpha in the highest byte, then
blue, green, and red in the lowest. A byte stands for its 255th part, and a channel is packed into
the byte nearest to it after clamping.
-/

namespace RetainedUi.Color

/-- The color whose channels are the 255th parts of four bytes. -/
def ofBytes (red green blue alpha : UInt8) : Color :=
  ⟨red.toFloat32 / 255, green.toFloat32 / 255, blue.toFloat32 / 255, alpha.toFloat32 / 255⟩

/-- The byte for a channel that is already clamped. A NaN packs as zero. -/
def channelByte (channel : Float32) : UInt32 := Single.nearestWord (channel * 255) &&& 0xff

/-- Packs the clamped color into one word. -/
def toPacked (c : Color) : UInt32 :=
  let c := c.clamped
  channelByte c.alpha <<< 24 ||| channelByte c.blue <<< 16 ||| channelByte c.green <<< 8
    ||| channelByte c.red

/-- Reads the four bytes of a word. -/
def ofPacked (word : UInt32) : Color :=
  ofBytes word.toUInt8 (word >>> 8).toUInt8 (word >>> 16).toUInt8 (word >>> 24).toUInt8

end RetainedUi.Color
