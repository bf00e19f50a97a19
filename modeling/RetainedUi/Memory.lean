import RetainedUi.Halt

/-!
# The limits of memory

Bytes of memory are counted by words of 64 bits, and one block of memory holds no more of them than the
positive signed words can tell. A size beyond these limits is a halt wherever it turns up, before anything
is done with it.
-/

namespace RetainedUi.Memory

/-- The largest number of bytes that a word can tell. -/
def largestCount : Nat := 18446744073709551615

/-- The largest number of bytes in one block. -/
def largestBlock : Nat := 9223372036854775807

/-- A number of bytes, if a word can tell it. -/
def counted (bytes : Nat) : Except Halt Nat :=
  if bytes ≤ largestCount then .ok bytes else .error (.oversized bytes)

/-- Sees to it that one block can hold so many bytes. -/
def claim (bytes : Nat) : Except Halt Unit :=
  if bytes ≤ largestBlock then .ok () else .error (.oversized bytes)

end RetainedUi.Memory
