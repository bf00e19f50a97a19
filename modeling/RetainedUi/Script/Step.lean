import RetainedUi.Desktop.Basic

/-!
# Scripts

A script is a list of steps. Steps name views, textures and windows by labels, which earlier steps have
given them. A widget can be scripted too: for each of its capabilities it has rules, and a rule that
fires performs steps of its own, so steps and widgets are defined together.
-/

namespace RetainedUi.Script

abbrev Label := String

/-- An event whose views are named by labels. -/
structure EventDraft where
  sender : Option Label
  target : Option Label
  cancellable : Bool
  kind : EventKind
  info : EventInfo

/-- Something to be performed, with the word by which the log calls it. -/
structure Act (Step : Type) where
  word : String
  step : Step

/-- A rule fires at most a given number of times, and performs its acts when it does. -/
structure Rule (Condition Step : Type) where
  condition : Condition
  limit : Option Nat
  fired : Nat
  acts : List (Act Step)

/-- What the event of a rule has to be like. What is not given is not asked for. -/
structure EventCondition where
  kind : Option EventKind
  state : Option ButtonState
  /-- Whether the position of the event lies in the bounds of the view. -/
  inside : Option Bool
  /-- Whether the view is the one that events of the kind are redirected to. -/
  captured : Option Bool

/-- A scripted widget. A capability that is not given does not exist, unlike one without rules. -/
structure WidgetOf (Handling Drawing Layout : Type) where
  handle : Option (List (Rule EventCondition Handling))
  draw : Option (List (Rule Unit Drawing))
  layout : Option (List (Rule Unit Layout))

/-- Where a redirect made by a widget leads. -/
inductive RedirectTo where
  | nowhere
  | toSelf
  | toView (label : Label)

/-- A quad whose texture is named by a label. -/
structure QuadDraft where
  texture : Option Label
  quad : Quad

/-- Steps of the painter. -/
inductive PaintStep where
  | setScale (value : Vec)
  | setOrigin (value : Vec)
  | setHandle (value : Vec)
  | setRotation (value : Float32)
  | setColor (value : Color)
  | save (mask : PenMask)
  | pop
  | nested (mask : PenMask) (steps : List PaintStep)
  | transform
  | stageFor (texture : Option Label)
  | quad (draft : QuadDraft)
  | quads (draft : QuadDraft) (times : Nat)
  | clear
  | stages
  | vertices (first last : Option Nat)
  | faces (first last : Option Nat)
  | info

/-- Questions about one view that take nothing else. -/
inductive ViewQuestion where
  | takeInvalidated
  | invalidated
  | needsLayout
  | needsLayoutBelow
  | contains
  | leafViews
  | leafViewsUncached
  | windowOf
  | rootOf
  | superviews
  | subviews
  | frame
  | bounds
  | superview
  | serial
  | info
  | dump

/-- Operations on one view that take nothing else and tell nothing. -/
inductive ViewAction where
  | remove
  | destroy
  | requestLayout
  | performLayout
  | layoutIfNeeded

/-- Steps on one window that take the window alone or plain values. -/
inductive WindowAction where
  | close
  | closeAndRemove
  | clearCalls
  | calls
  | screen
  | info
  | reveal
  | hide
  | layout
  | present
  | setTitle (title : String)
  | setFrame (frame : Rect)
  | setClosePolicy (policy : ClosePolicy)
  | script (event : ScreenEvent)
  | receive (event : ScreenEvent)
  | requestFile (name file : String) (as : Option Label)
  | releaseFile (name : String)
  | requestPicture (name : String) (picture : Picture) (as : Option Label)
  | releaseTexture (name : String)
  | textureInfo (name : String)
  | post (draft : EventDraft)
  | redirect (kind : EventKind) (receiver : Option Label)
  | redirectTarget (kind : EventKind)

mutual

/-- Steps on the views of a forest. -/
inductive TreeStep where
  | create (as : Label) (frame : Rect) (window : Bool)
  | chain (times : Nat) (parent as : Label) (frame : Rect)
  | fan (times : Nat) (parent as : Label) (frame : Rect)
  | add (parent child : Label)
  | act (action : ViewAction) (view : Label)
  | ask (question : ViewQuestion) (view : Label)
  | setFrame (view : Label) (frame : Rect)
  | setTag (view : Label) (tag : Option String)
  | setWidget (view : Label) (widget : WidgetOf HandleStep DrawStep LayoutStep)
  | invalidate (view : Label) (region : Option Rect)
  | containing (view : Label) (point : Vec)
  | toRoot (view : Label) (point : Vec)
  | fromRoot (view : Label) (point : Vec)
  | findTag (view : Label) (tag : String)
  | subview (view : Label) (position : Nat)
  | size
  | scaleFactor

/-- Steps of a widget that receives an event. -/
inductive HandleStep where
  | stop
  | cancel
  | setTarget (target : Option Label)
  | eventInfo
  | post (draft : EventDraft)
  | redirect (kind : EventKind) (receiver : RedirectTo)
  | redirectTarget (kind : EventKind)
  | defer (acts : List (Act DesktopStep))
  | invalidateSelf
  | bounds
  | localPosition (point : Option Vec)
  | tree (step : TreeStep)

/-- Steps of a widget that draws. -/
inductive DrawStep where
  | requestRedraw
  | bounds
  | frame
  | quadBounds (texture : Option Label) (color : Option Color)
  | paint (step : PaintStep)

/-- Steps of a widget that lays out. -/
inductive LayoutStep where
  | fill
  | stack (step : Vec) (size : Option Vec)
  | ownSubviews
  | tree (step : TreeStep)

/-- Steps on the desktop. -/
inductive DesktopStep where
  | openWindow (as root : Label) (title : Option String) (frame : Option Rect) (visible : Option Bool)
  | tick
  | run
  | runWith (quitAfter : Nat) (ticks : List (List (Act DesktopStep)))
  | defer (acts : List (Act DesktopStep))
  | quit
  | enableRealtime
  | disableRealtime
  | windows
  | foreign (as : Label) (number : Nat)
  | counts
  | setPreservesContents (value : Bool)
  | setScaleFactor (value : Float32)
  | faults (names : List String)
  | onWindow (window : Label) (action : WindowAction)
  | onTree (window : Label) (step : TreeStep)

end

abbrev Widget := WidgetOf HandleStep DrawStep LayoutStep

/-- What a scripted widget schedules. -/
abbrev Callback := List (Act DesktopStep)

/-- Steps of a scene: a forest, a painter, a device and a texture cache without a window. -/
inductive SceneStep where
  | tree (step : TreeStep)
  | paint (step : PaintStep)
  | post (draft : EventDraft)
  | redirect (kind : EventKind) (receiver : Option Label)
  | redirectTarget (kind : EventKind)
  | pendingEvents
  | dispatch (root : Label)
  | draw (view : Label)
  | drawSubviews (view : Label)
  | flush (refused : Option BufferKind)
  | newPainter (config : Option PainterConfig)
  | newDevice
  | allocate (kind : BufferKind) (size : Nat)
  | upload (kind : BufferKind) (offset : Nat) (bytes : ByteArray)
  | buffer (kind : BufferKind)
  | bindTexture (texture : Option Label)
  | boundTexture
  | drawIndexed (first count : Nat) (base : Int)
  | createTexture (as : Option Label) (picture : Picture)
  | destroyTexture (texture : Option Label)
  | liveTextures
  | requestPicture (name : String) (picture : Picture) (as : Option Label)
  | requestEncoded (name : String) (bytes : List UInt8) (as : Option Label)
  | requestFile (name file : String) (bytes : Option (List UInt8)) (as : Option Label)
  | retain (name : String)
  | release (name : String)
  | releaseAll
  | textureInfo (name : String)
  | newCache

end RetainedUi.Script
