import RetainedUi.Forest.Node
import RetainedUi.Text.Quoted

/-!
# The text of a node

The text names every field that the user of a view can ask for, in a fixed order, and whether there is
a widget.
-/

namespace RetainedUi

/-- The text of a value that may be missing. -/
def optionText {α : Type} (text : α → String) : Option α → String
  | some a => "Some(" ++ text a ++ ")"
  | none => "None"

/-- The text of a node as a value. -/
def Node.valueText {W : Type} (node : Node W) : String :=
  "ViewNode \x7b frame: " ++ node.frame.valueText
    ++ ", tag: " ++ optionText Quoted.quote node.tag
    ++ ", role: " ++ node.role.valueText
    ++ ", superview: " ++ optionText View.valueText node.superview
    ++ ", subviews: [" ++ String.intercalate ", " (node.subviews.map View.valueText)
    ++ "], invalidated: " ++ optionText Rect.valueText node.invalidated
    ++ ", needs_layout: " ++ toString node.needsLayout
    ++ ", has_widget: " ++ toString node.widget.isSome ++ " \x7d"

end RetainedUi
