import Depcheck.Command.Request
import Depcheck.Document.Record
import Depcheck.Report

/-!
# Running requests

A request looks at files and answers with an exit status, a text, and perhaps an error. The files
are handed in as a function, so that a run is a function of its inputs. The status is 0 for a clean
answer, 1 for an error or for a set with errors, and 2 for arguments that no command takes.
-/

namespace Depcheck.Command

open Document (Format)

inductive FileContent where
  | missing
  /-- Something is there, and it is no readable text. -/
  | unreadable
  | text (content : String)
deriving Repr, DecidableEq

/-- The files that a run can see. -/
abbrev Files := String → FileContent

namespace FileContent

def read : FileContent → Except Error String
  | .text content => .ok content
  | _ => .error .unreadable

end FileContent

structure Answer where
  status : Nat
  output : String := ""
  error : Option String := none
deriving Repr, DecidableEq

/-- The name of the configuration that is used when none is named. -/
def defaultConfig : String := "rpmgraph.toml"

/-- The part of a file's name after its last dot; a dot at the start does not count. -/
def fileExtension? (path : String) : Option String :=
  match Text.splitLast '.' (Path.split path).2.toList with
  | some (_ :: _, extension) => some (String.ofList extension)
  | _ => none

/-- The format of a universe: TOML when the name of its file says so, otherwise JSON. -/
def formatOf (path : String) : Format :=
  match fileExtension? path with
  | some extension => if extension.toList.map Char.toLower = "toml".toList then .toml else .json
  | none => .json

def loadUniverse (files : Files) (path : String) : Except Error (List Package) := do
  let content ← (files path).read
  parseUniverse (formatOf path) content

/-- Loads the configuration that is named, or else the one of the default name, if there is one,
or else takes the defaults. -/
def loadConfig (files : Files) : Option String → Except Error Config
  | some path => do
    let content ← (files path).read
    Config.parse content
  | none =>
    match files defaultConfig with
    | .missing => .ok {}
    | file => do
      let content ← file.read
      Config.parse content

/-- Loads everything that a request needs and prepares the set; an error comes with the words that
tell what failed. -/
def openSet (files : Files) (r : Request) : Except String PackageSet := do
  let config ← (loadConfig files r.config).mapError fun _ => "Failed to load configuration"
  let packages ← (loadUniverse files r.packages).mapError fun _ =>
    s!"Failed to load universe: {r.packages}"
  let s ← (PackageSet.ofConfig config).mapError Error.message
  pure (s.addAll packages).prepare

def lines (ls : List String) : String := String.join (ls.map fun l => l ++ "\n")

def answer (ls : List String) : Answer := { status := 0, output := lines ls }

def runVerify (open? : Except String PackageSet) (format : String) (quiet : Bool) :
    Except String Answer :=
  if format ≠ "text" ∧ format ≠ "json" then
    .error s!"Unknown format '{format}' (expected text or json)"
  else do
    let s ← open?
    let r ← (Report.ofPackageSet s).mapError Error.message
    let output :=
      if quiet then lines [r.summary]
      else if format = "json" then lines [r.toJson]
      else r.toText
    pure { status := if r.errorCount = 0 then 0 else 1, output }

def runOrder (open? : Except String PackageSet) (uninstall : Bool) : Except String Answer := do
  let s ← open?
  let v ← s.run.mapError Error.message
  pure (answer ((if uninstall then v.removal else v.install).order.map s.idText))

/-- The providers of a capability; with a version, only those that match, the best one first. -/
def runProvides (open? : Except String PackageSet) (capability : String) :
    Except String Answer := do
  let req ← (Capability.parse capability).mapError fun _ => s!"Invalid capability: {capability}"
  let s ← open?
  let ids ← (if req.isVersioned then s.matchRequirement req else s.whatProvides req.name).mapError
    Error.message
  let remark := s!"{req.text} is provided by the platform or by no package"
  pure (answer ((if ids = [] then [remark] else []) ++ ids.map s.idText))

/-- The packages that a query finds, or a remark when there are none. -/
def runQuery (open? : Except String PackageSet)
    (query : PackageSet → Except Error (List Nat)) (remark : String) : Except String Answer := do
  let s ← open?
  let ids ← (query s).mapError Error.message
  pure (answer ((if ids = [] then [remark] else []) ++ ids.map s.idText))

def dependentLines (s : PackageSet) (id : Nat) : Except String (List String) := do
  let ids ← (s.dependents id).mapError Error.message
  pure (["", s!"Removing {s.idText id} breaks {ids.length} packages"] ++
    ids.map fun i => "  " ++ s.idText i)

/-- A selection with what it needs, in the order of installation. -/
def runMark (open? : Except String PackageSet) (texts : List String) (dependents : Bool) :
    Except String Answer := do
  let s ← open?
  let selection ← (texts.mapM s.lookupPackage).mapError Error.message
  let (m, s) ← (s.mark selection).mapError Error.message
  let v ← s.run.mapError Error.message
  let order := v.install.order.filter fun id => (s.state id).isMarked
  let head :=
    s!"Selected {m.byHand.length} packages, {m.asDependency.length} pulled in as dependencies"
  let tainted :=
    if m.tainted = [] then []
    else ["", "Cannot be installed (unsatisfied dependencies):"] ++
      m.tainted.map fun id => "  " ++ s.idText id
  let removals ← if dependents then selection.mapM (dependentLines s) else pure []
  pure
    { status := if m.tainted = [] then 0 else 1
      output := lines (head :: order.map s.idText ++ tainted ++ removals.flatten) }

def Request.run (files : Files) (r : Request) : Answer :=
  let open? := openSet files r
  let result := match r.action with
    | .verify format quiet => runVerify open? format quiet
    | .order uninstall => runOrder open? uninstall
    | .provides capability => runProvides open? capability
    | .requires name => runQuery open? (·.whatRequires name) s!"No package requires {name}"
    | .obsoletes name => runQuery open? (·.whatObsoletes name) s!"No package obsoletes {name}"
    | .mark packages dependents => runMark open? packages dependents
  match result with
  | .ok a => a
  | .error message => { status := 1, error := some message }

def programVersion : String := "0.1.0"

def greeting : List String :=
  [s!"rpmgraph v{programVersion}", "Run 'rpmgraph --help' for usage information"]

def usage : List String :=
  ["Usage: rpmgraph [COMMAND]",
   "",
   "Commands: verify, order, provides, requires, obsoletes, mark, help"]

def run (files : Files) (args : List String) : Answer :=
  match Request.read args with
  | .ok none => answer greeting
  | .ok (some r) => r.run files
  | .error .help => answer usage
  | .error .version => answer [s!"rpmgraph {programVersion}"]
  | .error .refused => { status := 2 }

def filesOf (args : List String) : List String :=
  match Request.read args with
  | .ok (some r) => [r.packages, r.config.getD defaultConfig]
  | _ => []

end Depcheck.Command
