import LogSweep.Path
import LogSweep.Sweep.Component

/-!
# Sweeping a source file

How the text of a file is laid out follows from the file's name.
-/

namespace LogSweep

/-- How the text of a file is laid out. -/
inductive Layout where
  /-- The whole text is script. -/
  | script
  /-- Only the bodies of script elements are. -/
  | component
  deriving DecidableEq, Repr, Inhabited

/-- Files with the extension `vue`, in any case, are components. -/
def Layout.ofPath (path : String) : Layout :=
  match Path.extension? path with
  | some e => if e.toList.map Char.toLower == ['v', 'u', 'e'] then .component else .script
  | none => .script

/-- Sweeps a text of the given layout. -/
def sweepText (rules : Rules) (layout : Layout) (text : Bytes) : Outcome :=
  match layout with
  | .script => sweepScript rules text
  | .component => Component.sweep rules text

end LogSweep
