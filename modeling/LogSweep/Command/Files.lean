import LogSweep.Files.Confined
import LogSweep.Json.Document
import LogSweep.Sweep.Source
import LogSweep.Text.LineIndex
import LogSweep.Text.Table

/-!
# The files command

Lists the files that a sweep would process, with the calls in them. A file that cannot be read
counts as empty, but has its size.
-/

namespace LogSweep.Command

open Files

/-- A listed file. -/
structure Listing where
  file : String
  lines : Nat
  calls : Nat
  skipped : Nat
  /-- The size in bytes. -/
  size : Nat
  deriving DecidableEq, Repr, Inhabited

/-- A file as it is listed. -/
def listFile (w : Workspace) (rules : Rules) (path : String) (refusal : Option Fault := none) :
    Listing :=
  let file := Path.display path
  let size := w.size path
  match w.readSource path refusal with
  | .error _ => { file, lines := 0, calls := 0, skipped := 0, size }
  | .ok text =>
    let outcome := sweepText rules (.ofPath path) text
    { file, lines := (LineIndex.ofText text).count, calls := outcome.changes.length,
      skipped := outcome.skipped.length, size }

/-- A number of bytes in units of 1024 bytes, as digits and decimal places: exact, with as few
places as that takes but at least one. -/
def kibibytes (size : Nat) : Nat × Nat :=
  let places := ((List.range 11).find? fun k => 0 < k && size * Nat.pow 10 k % 1024 == 0).getD 10
  (size * Nat.pow 10 places / 1024, places)

/-- A number of bytes in units of 1024 bytes, in hundredths; a tie goes to the even neighbour. -/
def hundredths (size : Nat) : Nat :=
  let scaled := size * 100
  let below := scaled / 1024
  let rest := scaled % 1024
  if rest < 512 || (rest == 512 && below % 2 == 0) then below else below + 1

def Listing.toJson (l : Listing) : Json :=
  let (digits, places) := kibibytes l.size
  .object [("file", .string l.file), ("lines", .nat l.lines), ("calls", .nat l.calls),
    ("skipped", .nat l.skipped), ("size_kb", .decimal digits places)]

def Listing.row (l : Listing) : List String :=
  [l.file, toString l.lines, toString l.calls, toString l.skipped,
    Json.decimalText (hundredths l.size) 2]

/-- Lists files. -/
def listFiles (w : Workspace) (rules : Rules) (refusals : Refusals) (paths : List String) :
    List Listing :=
  paths.map fun path => listFile w rules path (refusals.read path)

/-- The printed form of a list of files. -/
def printListings (json : Bool) (listings : List Listing) : String :=
  if json then (Json.array (listings.map Listing.toJson)).render ++ "\n"
  else if listings.isEmpty then "No matching files found.\n"
  else
    Text.TableStyle.plain.draw ["File", "Lines", "Calls", "Skipped", "Size (KB)"]
      (listings.map Listing.row) ++ s!"\n{listings.length} files\n"

end LogSweep.Command
