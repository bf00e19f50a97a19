import RetainedUi.Numeral.Spelling

/-!
# Vectors of the plane

Points, sizes and offsets are pairs of scalars in logical pixels, x pointing right and y pointing
down. Two equalities live side by side: structural equality tells the two zeros apart and makes
every NaN equal to itself, while the program itself compares with `==`, which is the equality of
numbers.
-/

namespace RetainedUi

/-- A point, a size or an offset. -/
structure Vec where
  x : Float32
  y : Float32
  deriving DecidableEq, Repr, Inhabited

namespace Vec

/-- Equality of numbers in both components: the zeros agree, a NaN agrees with nothing. -/
instance : BEq Vec where
  beq a b := a.x == b.x && a.y == b.y

def zero : Vec := ⟨0, 0⟩
def one : Vec := ⟨1, 1⟩

def add (a b : Vec) : Vec := ⟨a.x + b.x, a.y + b.y⟩
def sub (a b : Vec) : Vec := ⟨a.x - b.x, a.y - b.y⟩
/-- The product component by component. -/
def mul (a b : Vec) : Vec := ⟨a.x * b.x, a.y * b.y⟩
def neg (a : Vec) : Vec := ⟨-a.x, -a.y⟩

instance : Add Vec := ⟨add⟩
instance : Sub Vec := ⟨sub⟩
instance : Mul Vec := ⟨mul⟩
instance : Neg Vec := ⟨neg⟩

def scale (a : Vec) (factor : Float32) : Vec := ⟨a.x * factor, a.y * factor⟩

/-- The larger scalar in each component. -/
def larger (a b : Vec) : Vec := ⟨Single.larger a.x b.x, Single.larger a.y b.y⟩

/-- The smaller scalar in each component. -/
def smaller (a b : Vec) : Vec := ⟨Single.smaller a.x b.x, Single.smaller a.y b.y⟩

/-- The text of a vector as a value. -/
def valueText (a : Vec) : String :=
  "Vec2(" ++ Spelling.marked.text a.x ++ ", " ++ Spelling.marked.text a.y ++ ")"

end Vec

end RetainedUi
