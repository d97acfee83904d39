import Depcheck.Graph.Edge

/-!
# The dependency graph

The graph has one node per package. A node holds the package's requirement edges and conflict
edges, each in a row that ascends by target, and its dependents: the packages with an edge to it,
as primary or as alternate, in the order in which they were added. An id outside the graph has no
edges, and adding to it changes nothing.
-/

namespace Depcheck

structure Node where
  edges : List Edge := []
  dependents : List Nat := []
  conflicts : List ConflictEdge := []
deriving Repr, DecidableEq, Inhabited

/-- The dependency graph of a list of packages. -/
structure Graph where
  nodes : Array Node := #[]
deriving Repr, DecidableEq, Inhabited

structure GraphStats where
  packages : Nat
  edges : Nat
  multi : Nat
  conflicts : Nat
  maxDependencies : Nat
  maxDependents : Nat
deriving Repr, DecidableEq

/-- Notes a dependent, unless it was noted last. -/
def Node.addDependent (owner : Nat) (n : Node) : Node :=
  if n.dependents.getLast? = some owner then n
  else { n with dependents := n.dependents ++ [owner] }

namespace Graph

def ofSize (n : Nat) : Graph := ⟨Array.replicate n {}⟩

def size (g : Graph) : Nat := g.nodes.size

def node (g : Graph) (id : Nat) : Node := g.nodes.getD id {}

def edges (g : Graph) (id : Nat) : List Edge := (g.node id).edges

/-- The packages with an edge to a package. -/
def dependents (g : Graph) (id : Nat) : List Nat := (g.node id).dependents

def conflicts (g : Graph) (id : Nat) : List ConflictEdge := (g.node id).conflicts

/-- The requirement edge of `owner` whose primary is `target`. -/
def find? (g : Graph) (owner target : Nat) : Option Edge :=
  (g.edges owner).find? fun e => e.primary == target

def modify (g : Graph) (id : Nat) (f : Node → Node) : Graph := ⟨g.nodes.modify id f⟩

/-- Enters an edge into the row of its owner, or merges it into the edge with its primary. -/
def upsertEdge (g : Graph) (owner : Nat) (fresh : Edge) (merge : Edge → Edge) : Graph :=
  g.modify owner fun n => { n with edges := Row.upsert Edge.primary fresh merge n.edges }

def addDependents (g : Graph) (owner : Nat) (targets : List Nat) : Graph :=
  targets.foldl (fun g t => g.modify t (Node.addDependent owner)) g

/-- Adds a requirement that exactly one package meets. An edge to that package keeps its position
and its alternates and gains the flags. -/
def addSingle (g : Graph) (owner requirement : Nat) (flags : EdgeFlags) (target : Nat) : Graph :=
  (g.upsertEdge owner ⟨target, [], requirement, flags⟩ fun e =>
    { e with flags := e.flags.union flags }).addDependents owner [target]

/-- Adds a requirement that several packages meet. An edge to the primary keeps its position,
takes the new alternates and gains the flags. -/
def addMulti (g : Graph) (owner requirement : Nat) (flags : EdgeFlags) (primary : Nat)
    (alternates : List Nat) : Graph :=
  let flags := flags.union { multi := true }
  (g.upsertEdge owner ⟨primary, alternates, requirement, flags⟩ fun e =>
    { e with alternates, flags := e.flags.union flags }).addDependents owner (primary :: alternates)

/-- Adds a requirement met by `ids`, the preferred package first. -/
def addMatches (g : Graph) (owner requirement : Nat) (flags : EdgeFlags) : List Nat → Graph
  | [] => g
  | [target] => g.addSingle owner requirement flags target
  | primary :: alternates => g.addMulti owner requirement flags primary alternates

/-- Adds a conflict. An edge to the target keeps its record; an obsoletes record marks it. -/
def addConflict (g : Graph) (owner record : Nat) (obsolete : Bool) (target : Nat) : Graph :=
  g.modify owner fun n =>
    { n with
      conflicts :=
        Row.upsert ConflictEdge.target ⟨target, record, { conflict := true, obsolete }⟩
          (fun e => { e with flags := e.flags.union { obsolete } }) n.conflicts }

def allEdges (g : Graph) : List Edge := g.nodes.toList.flatMap Node.edges

def allConflicts (g : Graph) : List ConflictEdge := g.nodes.toList.flatMap Node.conflicts

def stats (g : Graph) : GraphStats where
  packages := g.size
  edges := g.allEdges.length
  multi := g.allEdges.countP (·.flags.multi)
  conflicts := g.allConflicts.length
  maxDependencies := (g.nodes.toList.map fun n => n.edges.length).foldl max 0
  maxDependents := (g.nodes.toList.map fun n => n.dependents.length).foldl max 0

@[simp] theorem size_ofSize (n : Nat) : (ofSize n).size = n := by simp [ofSize, size]

@[simp] theorem size_modify (g : Graph) (id : Nat) (f : Node → Node) :
    (g.modify id f).size = g.size := by simp [modify, size]

theorem node_modify (g : Graph) (id other : Nat) (f : Node → Node) (h : other < g.size) :
    (g.modify id f).node other = if id = other then f (g.node other) else g.node other := by
  rw [size] at h
  simp only [node, modify, Array.getD_eq_getD_getElem?, Array.getElem?_modify]
  split <;> simp [h]

@[simp] theorem size_addDependents (g : Graph) (owner : Nat) (targets : List Nat) :
    (g.addDependents owner targets).size = g.size := by
  induction targets generalizing g with
  | nil => rfl
  | cons t rest ih => rw [addDependents, List.foldl_cons, ← addDependents, ih, size_modify]

@[simp] theorem size_addSingle (g : Graph) (owner requirement : Nat) (flags : EdgeFlags)
    (target : Nat) : (g.addSingle owner requirement flags target).size = g.size := by
  simp [addSingle, upsertEdge]

@[simp] theorem size_addMulti (g : Graph) (owner requirement : Nat) (flags : EdgeFlags)
    (primary : Nat) (alternates : List Nat) :
    (g.addMulti owner requirement flags primary alternates).size = g.size := by
  simp [addMulti, upsertEdge]

@[simp] theorem size_addConflict (g : Graph) (owner record : Nat) (obsolete : Bool)
    (target : Nat) : (g.addConflict owner record obsolete target).size = g.size := by
  simp [addConflict]

end Graph

end Depcheck
