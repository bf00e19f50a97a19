import RetainedUi.Text.Shown

/-!
# Quoted text

A quoted text stands between double quotes. Quotes, backslashes and the most common control characters
are escaped by a letter, and every other character that does not show is escaped by its number.
-/

namespace RetainedUi.Quoted

/-- One character inside the quotes. -/
def escape (c : Char) : String :=
  match c with
  | '"' => "\\\""
  | '\\' => "\\\\"
  | '\n' => "\\n"
  | '\r' => "\\r"
  | '\t' => "\\t"
  | '\x00' => "\\0"
  | _ =>
    if shows c then c.toString
    else "\\u\x7b" ++ String.ofList (Nat.toDigits 16 c.toNat) ++ "\x7d"

/-- The whole text between quotes. -/
def quote (text : String) : String :=
  "\"" ++ String.join (text.toList.map escape) ++ "\""

end RetainedUi.Quoted
