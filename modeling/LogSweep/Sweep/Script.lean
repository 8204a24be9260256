import LogSweep.Call.Site
import LogSweep.Edit
import LogSweep.Rules

/-!
# Sweeping a script

Every call statement of the target function is taken out of a text. Outside error handlers it is
deleted; inside one it is redirected to the replacement function, with its arguments untouched. All
other text is kept byte for byte.
-/

namespace LogSweep

open Block Call

/-- What happened to a call statement. -/
inductive Change.Action where
  | deleted
  | redirected
  deriving DecidableEq, Repr, Inhabited

structure Change where
  /-- The line of the call before the sweep. -/
  line : Nat
  action : Change.Action
  /-- The first parameter of the handler around a redirected call. -/
  parameter : Option Bytes
  deriving DecidableEq, Repr, Inhabited

/-- A call that was left alone. -/
structure Skip where
  line : Nat
  reason : Refusal
  deriving DecidableEq, Repr, Inhabited

/-- The outcome of sweeping a text. -/
structure Outcome where
  text : Bytes
  deleted : Nat := 0
  redirected : Nat := 0
  changes : List Change := []
  skipped : List Skip := []
  deriving DecidableEq, Repr, Inhabited

def Outcome.isModified (o : Outcome) : Bool :=
  0 < o.deleted + o.redirected

/-- A call of a function with the arguments of a site. -/
def callText (function : Bytes) (site : Site) : Bytes :=
  function ++ Byte.openParen :: site.arguments ++
    (if site.semicolon then [Byte.closeParen, Byte.semicolon] else [Byte.closeParen])

/-- The edit that sweeps a site. -/
def siteEdit (function : Bytes) (site : Site) : Edit :=
  match site.redirection with
  | some r => ⟨site.start, site.stop, r.lead ++ callText function site⟩
  | none => ⟨site.removal.start, site.removal.stop, []⟩

/-- What is reported of a site. -/
def siteChange (site : Site) : Change :=
  match site.redirection with
  | some r => ⟨site.line, .redirected, r.handler.parameter⟩
  | none => ⟨site.line, .deleted, none⟩

/-- Sweeps a script. Should the edits not fit together, the text is left as it is. -/
def sweepScript (rules : Rules) (text : Bytes) : Outcome :=
  let found := find (.ofString rules.target) (.ofString rules.keyword) text
  let skipped := found.refused.map fun r => ⟨r.line, r.reason⟩
  match Edit.apply text (found.sites.map (siteEdit (.ofString rules.replacement))) with
  | .error _ => { text, skipped }
  | .ok swept =>
    let changes := found.sites.map siteChange
    let redirected := changes.countP (·.action == .redirected)
    { text := swept, deleted := changes.length - redirected, redirected, changes, skipped }

end LogSweep
