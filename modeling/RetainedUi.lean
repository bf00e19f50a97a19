import RetainedUi.Clicker.Report
import RetainedUi.Clicker.Run
import RetainedUi.Clicker.Widgets
import RetainedUi.Color.Basic
import RetainedUi.Color.Hue
import RetainedUi.Color.Packed
import RetainedUi.Desktop.Basic
import RetainedUi.Desktop.Present
import RetainedUi.Desktop.Screen
import RetainedUi.Desktop.Tick
import RetainedUi.Desktop.Window
import RetainedUi.Device.Recorder
import RetainedUi.Device.Surface
import RetainedUi.Event.Basic
import RetainedUi.Event.Info
import RetainedUi.Fault
import RetainedUi.Forest.Basic
import RetainedUi.Forest.Dirty
import RetainedUi.Forest.Layout
import RetainedUi.Forest.Links
import RetainedUi.Forest.Node
import RetainedUi.Forest.Text
import RetainedUi.Forest.Walks
import RetainedUi.Geometry.Matrix
import RetainedUi.Geometry.Rect
import RetainedUi.Geometry.Vec
import RetainedUi.Halt
import RetainedUi.Journal
import RetainedUi.Memory
import RetainedUi.Numeral.Reading
import RetainedUi.Numeral.Shortest
import RetainedUi.Numeral.Single
import RetainedUi.Numeral.Spelling
import RetainedUi.Paint.Batch
import RetainedUi.Paint.Draw
import RetainedUi.Paint.Flush
import RetainedUi.Paint.Painter
import RetainedUi.Paint.Pen
import RetainedUi.Proofs.Color.Packing
import RetainedUi.Proofs.Desktop.Drain
import RetainedUi.Proofs.Desktop.Refusals
import RetainedUi.Proofs.Desktop.Rounds
import RetainedUi.Proofs.Forest.Admission
import RetainedUi.Proofs.Forest.AncestorCaches
import RetainedUi.Proofs.Forest.HitTesting
import RetainedUi.Proofs.Forest.Invariant
import RetainedUi.Proofs.Forest.LeafCaches
import RetainedUi.Proofs.Forest.LeafOrder
import RetainedUi.Proofs.Forest.Marking
import RetainedUi.Proofs.Forest.Pending
import RetainedUi.Proofs.Forest.RequestOrder
import RetainedUi.Proofs.Paint.Corners
import RetainedUi.Proofs.Paint.FewestDraws
import RetainedUi.Proofs.Paint.FreshBuffers
import RetainedUi.Proofs.Paint.LazyMap
import RetainedUi.Proofs.Paint.Repainting
import RetainedUi.Proofs.Routing.LayoutCustody
import RetainedUi.Proofs.Routing.Queue
import RetainedUi.Proofs.Routing.Redirection
import RetainedUi.Proofs.Routing.Stopping
import RetainedUi.Proofs.Routing.Survival
import RetainedUi.Proofs.Routing.Termination
import RetainedUi.Proofs.Texture.References
import RetainedUi.Proofs.Texture.Sizes
import RetainedUi.Routing.Dispatch
import RetainedUi.Routing.Redirects
import RetainedUi.Script.Notebook
import RetainedUi.Script.Paint
import RetainedUi.Script.Reply
import RetainedUi.Script.Scene
import RetainedUi.Script.Session
import RetainedUi.Script.Step
import RetainedUi.Script.Tree
import RetainedUi.Script.Widget
import RetainedUi.Text.Quoted
import RetainedUi.Text.Shown
import RetainedUi.Texture.Cache
import RetainedUi.Texture.Image
