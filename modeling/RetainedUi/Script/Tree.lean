import RetainedUi.Script.Notebook

/-!
# Forest steps

What each step on the views of a forest does, and what it is told. How widgets lay out and how deep a
layout may go is given from outside.
-/

namespace RetainedUi.Script

variable {W : Type}

/-- A computation on a forest that is accompanied by a notebook. -/
abbrev TreePass (W : Type) := Pass (Grove W Notebook)

/-- The view of a label. -/
def viewOf (label : Label) : TreePass W View := do return (← HasNotebook.notebook).view label

/-- Asks something about the view of a label. -/
def askView {α : Type} (label : Label) (question : Forest W → View → Except Halt α) : TreePass W α := do
  let v ← viewOf label
  Grove.ask fun f ↦ question f v

/-- Creates a view and binds its label. -/
def createView (label : Label) (create : Forest W → View × Forest W) : TreePass W View := do
  let v ← Grove.changeAsk fun f ↦ .ok (create f)
  HasNotebook.edit fun n ↦ n.bindView label v
  return v

/-- Attaches a view. -/
def attach (parent child : View) : TreePass W (Except Fault Unit) := fun s ↦
  match s.forest.addView parent child with
  | .error halt => .error halt s
  | .ok (.error fault) => .ok (.error fault) s
  | .ok (.ok forest) => .ok (.ok ()) { s with forest }

/-- Creates views and attaches each of them, to the same parent or each to the one before, up to the
first fault. The labels are numbered. -/
def grow (nested : Bool) (label : Label) (frame : Rect) : Nat → Nat → View → TreePass W (Except Fault Unit)
  | 0, _, _ => return .ok ()
  | left + 1, number, parent => do
    let v ← createView (label ++ toString number) fun f ↦ f.create frame
    match ← attach parent v with
    | .error fault => return .error fault
    | .ok () => grow nested label frame left (number + 1) (if nested then v else parent)

/-- What a question about a view is told. -/
def ViewQuestion.run (question : ViewQuestion) (label : Label) : TreePass W Reply := do
  let v ← viewOf label
  match question with
  | takeInvalidated => return .option .rect (← Grove.changeAsk fun f ↦ f.takeInvalidated v)
  | invalidated => return .option .rect (← Grove.ask fun f ↦ f.read v).invalidated
  | needsLayout => return .flag (← Grove.ask fun f ↦ f.read v).needsLayout
  | needsLayoutBelow => return .flag (← Grove.ask fun f ↦ f.needsLayoutBelow v)
  | contains => return .flag ((← get).forest.contains v)
  | leafViews => return .many .placed (← Grove.changeAsk fun f ↦ f.leafViews v)
  | leafViewsUncached => return .many .placed (← Grove.ask fun f ↦ f.leafViewsUncached v)
  | windowOf => return .view (← Grove.changeAsk fun f ↦ f.windowOf v)
  | rootOf => return .view (← Grove.changeAsk fun f ↦ f.rootOf v)
  | superviews => return .many .view (← Grove.ask fun f ↦ f.superviews v)
  | subviews => return .many .view (← Grove.ask fun f ↦ f.read v).subviews
  | frame => return .rect (← Grove.ask fun f ↦ f.read v).frame
  | bounds => return .rect (← Grove.ask fun f ↦ f.read v).bounds
  | superview => return .option .view (← Grove.ask fun f ↦ f.read v).superview
  | serial => return .option .count ((← get).forest.serial? v)
  | info => return .node (← Grove.ask fun f ↦ f.read v)
  | dump =>
    let family ← Grove.ask fun f ↦ f.family v
    let forest := (← get).forest
    return .many Row.reply (family.map fun p ↦ Row.ofForest forest p.view.index)

/-- What an operation on a view does. -/
def ViewAction.run (conduct : LayoutConduct W Notebook) (depth : Nat) (action : ViewAction) (label : Label) :
    TreePass W Unit := do
  let v ← viewOf label
  match action with
  | remove => Grove.change fun f ↦ f.removeFromSuperview v
  | destroy => Grove.change fun f ↦ f.destroy v
  | requestLayout => Grove.change fun f ↦ f.requestLayout v
  | performLayout => Forest.performLayout conduct depth v
  | layoutIfNeeded => Forest.layoutIfNeeded conduct depth v

/-- One step on a forest of scripted widgets. -/
def TreeStep.run (conduct : LayoutConduct Widget Notebook) (depth : Nat) (step : TreeStep) :
    TreePass Widget Reply := do
  match step with
  | create label frame window =>
    return .view (← createView label fun f ↦ if window then f.createWindow frame else f.create frame)
  | chain times parent label frame => return .done (← grow true label frame times 0 (← viewOf parent))
  | fan times parent label frame => return .done (← grow false label frame times 0 (← viewOf parent))
  | add parent child => return .done (← attach (← viewOf parent) (← viewOf child))
  | act action label =>
    action.run conduct depth label
    return .ok
  | ask question label => question.run label
  | setFrame label frame =>
    let v ← viewOf label
    Grove.change fun f ↦ f.setFrame v frame
    return .ok
  | setTag label tag =>
    let v ← viewOf label
    Grove.change fun f ↦ f.setTag v tag
    return .ok
  | setWidget label widget =>
    let v ← viewOf label
    Grove.change fun f ↦ f.setWidget v widget
    return .ok
  | invalidate label region =>
    let v ← viewOf label
    Grove.change fun f ↦ f.invalidate v region
    return .ok
  | containing label point => return .many .view (← askView label fun f v ↦ f.viewsContaining v point)
  | toRoot label point => return .vec (← askView label fun f v ↦ f.convertToRoot v point)
  | fromRoot label point => return .vec (← askView label fun f v ↦ f.convertFromRoot v point)
  | findTag label tag => return .option .view (← askView label fun f v ↦ f.viewWithTag v tag)
  | subview label position =>
    return .option .view (← askView label fun f v ↦ f.read v).subviews[position]?
  | size =>
    let size := (← get).forest.size
    return .list [.count size, .flag (size = 0)]
  | scaleFactor => return .scalar (← get).forest.scaleFactor

end RetainedUi.Script
