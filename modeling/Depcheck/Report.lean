import Depcheck.PackageSet
import Depcheck.Document.Json.Writer

/-!
# Reports

A report sums up the last verification of a prepared set in the texts that name its packages. It is
written as lines for reading or as a JSON document.
-/

namespace Depcheck

open Document (Value)

structure ConflictLine where
  package : String
  target : String
  obsoletes : Bool
deriving Repr, DecidableEq

/-- What there is to say about a verification. -/
structure Report where
  packages : Nat
  errorCount : Nat
  unmet : Nat
  diagnostics : Diagnostics
  tainted : List String
  obsoleted : List String
  installOrder : List String
  prereqLoops : List (List String)
  conflicts : List ConflictLine
  /-- Foreign `rpmlib(...)` providers and loops of prerequisites. -/
  problems : List String
  fileConflicts : List String
deriving Repr, DecidableEq

namespace Report

/-- The conflicts of a graph, package by package. -/
def conflictLines (s : PackageSet) (g : Graph) : List ConflictLine :=
  s.ids.flatMap fun id => (g.conflicts id).map fun e =>
    ⟨s.idText id, s.idText e.target, e.flags.obsolete⟩

def ofPackageSet (s : PackageSet) : Except Error Report :=
  s.run.map fun v =>
    { packages := s.size
      errorCount := v.errorCount
      unmet := v.unmet
      diagnostics := v.diagnostics
      tainted := s.tainted.map s.idText
      obsoleted := s.obsoleted.map s.idText
      installOrder := v.install.order.map s.idText
      prereqLoops := v.install.loops.map fun l => l.cycle.map s.idText
      conflicts := conflictLines s v.graph
      problems := (v.problems.filter fun p => p.isError && !p.isUnmet).map Problem.message
      fileConflicts := (v.problems.filter fun p => !p.isError).map Problem.message }

def textList (ts : List String) : Value := .list (ts.map .text)

def unmetTable (u : Unmet) : Value :=
  .table [("req", .text u.requirement), ("kind", .text u.kind.code)]

def conflictTable (c : ConflictLine) : Value :=
  .table [("package", .text c.package), ("conflicts_with", .text c.target),
    ("obsoletes", .bool c.obsoletes)]

def toValue (r : Report) : Value :=
  .table
    [("packages", .int r.packages),
     ("error_count", .int r.errorCount),
     ("unmet", .int r.unmet),
     ("diagnostics",
       .table (r.diagnostics.map fun (package, us) => (package, .list (us.map unmetTable)))),
     ("tainted", textList r.tainted),
     ("obsoleted", textList r.obsoleted),
     ("install_order", textList r.installOrder),
     ("prereq_loops", .list (r.prereqLoops.map textList)),
     ("conflicts", .list (r.conflicts.map conflictTable)),
     ("problems", textList r.problems),
     ("file_conflicts", textList r.fileConflicts)]

def toJson (r : Report) : String := Document.Json.pretty r.toValue

def commaList (ts : List String) : String := ", ".intercalate ts

def summary (r : Report) : String := s!"{r.packages} packages, {r.errorCount} errors"

def unmetLines (r : Report) : List String :=
  if r.diagnostics = [] then ["No unsatisfied dependencies detected -- OK"]
  else
    "Unsatisfied dependencies:" ::
      r.diagnostics.flatMap fun (package, us) => us.map fun u =>
        s!"  {package}: req {u.requirement} ({u.kind.text})"

def taintedLines (r : Report) : List String :=
  if r.tainted = [] then []
  else
    let names := commaList r.tainted
    [s!"{r.tainted.length} packages cannot be installed: {names}"]

def obsoletedLines (r : Report) : List String :=
  if r.obsoleted = [] then []
  else
    let names := commaList r.obsoleted
    [s!"Obsoleted: {names}"]

def conflictText (r : Report) : List String :=
  if r.conflicts = [] then []
  else
    "Conflicts:" :: r.conflicts.map fun c =>
      let verb := if c.obsoletes then "obsoletes" else "conflicts with"
      s!"  {c.package} {verb} {c.target}"

def fileLines (r : Report) : List String :=
  if r.fileConflicts = [] then []
  else "File conflicts:" :: r.fileConflicts.map fun c => "  " ++ c

def lines (r : Report) : List String :=
  r.unmetLines ++ r.taintedLines ++ r.problems ++ r.obsoletedLines ++ r.conflictText ++
    r.fileLines ++ [r.summary]

/-- The report for reading; every line ends in a line break. -/
def toText (r : Report) : String := String.join (r.lines.map fun line => line ++ "\n")

end Report

end Depcheck
