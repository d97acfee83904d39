import Depcheck.Proofs.Graph.Calls

/-!
# Rows by bisection

The rows of a graph are looked through from the front, and an edge has a list of alternates that may
be empty. Here the same calls are entered by bisection, and the edges say whether they lead to one
package or to several (`Link`). The rows are the same, and so is what is found in them
(`representation_ofCalls`).
-/

namespace Depcheck

/-- Where a requirement edge leads: to one package, or to several with the preferred one first. -/
inductive Target
  | single (id : Nat)
  | multi (primary : Nat) (alternates : List Nat)
deriving Repr, DecidableEq

namespace Target

def primary : Target → Nat
  | single id => id
  | multi id _ => id

def alternates : Target → List Nat
  | single _ => []
  | multi _ ids => ids

end Target

/-- A requirement edge that tells one package from several. -/
structure Link where
  target : Target
  requirement : Nat
  flags : EdgeFlags
deriving Repr, DecidableEq

namespace Link

/-- The edge with the targets in one list. -/
def edge (l : Link) : Edge := ⟨l.target.primary, l.target.alternates, l.requirement, l.flags⟩

def primary (l : Link) : Nat := l.target.primary

theorem primary_edge (l : Link) : l.edge.primary = l.primary := rfl

/-- The link with further flags. -/
def gain (flags : EdgeFlags) (l : Link) : Link := { l with flags := l.flags.union flags }

/-- The link after several matches: another list of alternates replaces the target. -/
def retarget (primary : Nat) (alternates : List Nat) (l : Link) : Link :=
  if l.target.alternates = alternates then l else { l with target := .multi primary alternates }

/-- The flags tell several packages from one, and several are at least two. -/
def Faithful (l : Link) : Prop :=
  match l.target with
  | .single _ => l.flags.multi = false
  | .multi _ alternates => l.flags.multi = true ∧ alternates ≠ []

variable {l : Link} {flags : EdgeFlags} {primary : Nat} {alternates : List Nat}

theorem Faithful.gain (h : l.Faithful) (hflags : flags.multi = false) :
    (l.gain flags).Faithful := by
  obtain ⟨target, requirement, old⟩ := l
  cases target with
  | single id =>
    show (old.multi || flags.multi) = false
    rw [hflags, Bool.or_false]
    exact h
  | multi id ids => exact ⟨Bool.or_eq_true_iff.2 (.inl h.1), h.2⟩

theorem faithful_gain_retarget (hne : alternates ≠ []) :
    ((l.retarget primary alternates).gain (flags.union { multi := true })).Faithful := by
  have hmulti : ∀ old : EdgeFlags, (old.union (flags.union { multi := true })).multi = true := by
    simp [EdgeFlags.union]
  obtain ⟨target, requirement, old⟩ := l
  rw [retarget]
  split
  · next hsame =>
    cases target with
    | single id => exact absurd hsame.symm hne
    | multi id ids =>
      obtain rfl : ids = alternates := hsame
      exact ⟨hmulti old, hne⟩
  · exact ⟨hmulti old, hne⟩

/-- As edges, the links change as the rows of a graph do. -/
theorem edge_gain_retarget (hne : alternates ≠ []) (hprimary : l.primary = primary) :
    ((l.retarget primary alternates).gain (flags.union { multi := true })).edge =
      l.edge.absorb flags alternates := by
  subst hprimary
  rw [Edge.absorb, if_neg hne, Edge.matchFlags, if_neg hne, retarget]
  split
  · next hsame =>
    subst hsame
    rfl
  · rfl

end Link

namespace Call

/-- Enters what a call adds to the requirement edges of `p`. -/
def enterLink (p : Nat) (row : List Link) : Call → List Link
  | single owner requirement flags target =>
    if owner = p then
      Row.place Link.primary ⟨.single target, requirement, flags⟩ (Link.gain flags) row
    else row
  | multi owner requirement flags primary alternates =>
    let flags := flags.union { multi := true }
    if owner = p then
      Row.place Link.primary ⟨.multi primary alternates, requirement, flags⟩
        (fun l => (l.retarget primary alternates).gain flags) row
    else row
  | conflict .. => row

/-- Enters what a call adds to the conflict edges of `p`. -/
def enterConflict (p : Nat) (row : List ConflictEdge) : Call → List ConflictEdge
  | conflict owner record obsolete target =>
    if owner = p then
      Row.place ConflictEdge.target ⟨target, record, { conflict := true, obsolete }⟩
        (fun e =>
          if obsolete then { e with flags := e.flags.union { obsolete := true } } else e) row
    else row
  | single .. => row
  | multi .. => row

end Call

namespace Graph

variable {n p : Nat} {g : Graph} {c : Call} {calls : List Call} {row : List Link}

theorem map_edge_enterLink (hg : g.Coherent) (hc : c.Within g.size) (hp : p < g.size)
    (hrow : row.map Link.edge = g.edges p) :
    (c.enterLink p row).map Link.edge = (g.call c).edges p := by
  have hasc : Row.Ascending Edge.primary (row.map Link.edge) := by
    rw [hrow]
    exact hg.edges_ascending p
  cases c with
  | single owner requirement flags target =>
    show _ = (g.addMatches owner requirement flags [target]).edges p
    rw [Call.enterLink, edges_addMatches _ _ hp, ← hrow]
    split
    · exact Row.map_place hasc Link.primary_edge fun _ _ _ => rfl
    · rfl
  | multi owner requirement flags primary alternates =>
    obtain ⟨_, _, hne, _, _⟩ := hc
    rw [call, addMulti_eq_addMatches primary hne, Call.enterLink, edges_addMatches _ _ hp, ← hrow]
    split
    · rw [Edge.ofMatches, Edge.matchFlags, if_neg hne]
      exact Row.map_place hasc Link.primary_edge fun l _ hl => Link.edge_gain_retarget hne hl
    · rfl
  | conflict owner record obsolete target =>
    show row.map Link.edge = (g.addHit ⟨owner, record, obsolete, target⟩).edges p
    rw [edges_addHit, hrow]

theorem faithful_enterLink (hc : c.Within n) (hasc : Row.Ascending Link.primary row)
    (h : ∀ l ∈ row, l.Faithful) : ∀ l ∈ c.enterLink p row, l.Faithful := by
  intro l hl
  cases c with
  | single owner requirement flags target =>
    obtain ⟨_, _, hflags⟩ := hc
    rw [Call.enterLink] at hl
    split at hl
    · rw [Row.place_eq_upsert hasc] at hl
      rcases Row.mem_upsert hl with hold | rfl | ⟨old, hold, _, rfl⟩
      · exact h l hold
      · exact hflags
      · exact (h old hold).gain hflags
    · exact h l hl
  | multi owner requirement flags primary alternates =>
    obtain ⟨_, _, hne, _, _⟩ := hc
    rw [Call.enterLink] at hl
    split at hl
    · rw [Row.place_eq_upsert hasc] at hl
      rcases Row.mem_upsert hl with hold | rfl | ⟨old, _, _, rfl⟩
      · exact h l hold
      · exact ⟨Bool.or_true _, hne⟩
      · exact Link.faithful_gain_retarget hne
    · exact h l hl
  | conflict owner record obsolete target => exact h l hl

theorem enterConflict_eq (hg : g.Coherent) (hc : c.Within g.size) (hp : p < g.size) :
    c.enterConflict p (g.conflicts p) = (g.call c).conflicts p := by
  cases c with
  | single owner requirement flags target => exact (conflicts_addMatches [target] p).symm
  | multi owner requirement flags primary alternates =>
    obtain ⟨_, _, hne, _, _⟩ := hc
    rw [call, addMulti_eq_addMatches primary hne, conflicts_addMatches]
    rfl
  | conflict owner record obsolete target =>
    show _ = (g.addHit ⟨owner, record, obsolete, target⟩).conflicts p
    rw [Call.enterConflict, conflicts_addHit _ hp]
    split
    · rw [Row.place_eq_upsert (hg.conflicts_ascending p)]
      congr 1
      funext e
      cases obsolete with
      | true => rfl
      | false => simp [ConflictEdge.absorb, EdgeFlags.union]
    · rfl

/-- The links of `p` after the calls, each entered at the position that bisection gives. -/
def links (p : Nat) (calls : List Call) : List Link := calls.foldl (Call.enterLink p) []

/-- The conflict edges of `p` after the calls, each entered at the position that bisection gives. -/
def conflictRow (p : Nat) (calls : List Call) : List ConflictEdge :=
  calls.foldl (Call.enterConflict p) []

theorem links_concat (p : Nat) (calls : List Call) (c : Call) :
    links p (calls ++ [c]) = c.enterLink p (links p calls) := by
  rw [links, List.foldl_append]
  rfl

theorem conflictRow_concat (p : Nat) (calls : List Call) (c : Call) :
    conflictRow p (calls ++ [c]) = c.enterConflict p (conflictRow p calls) := by
  rw [conflictRow, List.foldl_append]
  rfl

theorem map_edge_links (h : ∀ c ∈ calls, c.Within n) (hp : p < n) :
    (links p calls).map Link.edge = (ofCalls n calls).edges p := by
  induction calls using List.reverseRecOn with
  | nil => exact (edges_ofSize n p).symm
  | append_singleton calls c ih =>
    obtain ⟨hcalls, hc⟩ := List.forall_mem_append.1 h
    rw [links_concat, ofCalls_concat]
    apply map_edge_enterLink (coherent_ofCalls hcalls)
    · rw [size_ofCalls]
      exact hc c List.mem_cons_self
    · rw [size_ofCalls]
      exact hp
    · exact ih hcalls

theorem ascending_links (h : ∀ c ∈ calls, c.Within n) (hp : p < n) :
    Row.Ascending Link.primary (links p calls) := by
  have hasc := (coherent_ofCalls h).edges_ascending p
  rw [← map_edge_links h hp] at hasc
  exact (Row.ascending_map Link.primary_edge).1 hasc

theorem faithful_links (h : ∀ c ∈ calls, c.Within n) (hp : p < n) :
    ∀ l ∈ links p calls, l.Faithful := by
  induction calls using List.reverseRecOn with
  | nil =>
    intro l hl
    cases hl
  | append_singleton calls c ih =>
    obtain ⟨hcalls, hc⟩ := List.forall_mem_append.1 h
    rw [links_concat]
    exact faithful_enterLink (hc c List.mem_cons_self) (ascending_links hcalls hp) (ih hcalls)

theorem search?_links (h : ∀ c ∈ calls, c.Within n) (hp : p < n) (t : Nat) :
    (Row.search? Link.primary (links p calls) t).map Link.edge = (ofCalls n calls).find? p t := by
  show _ = Row.at? Edge.primary ((ofCalls n calls).edges p) t
  rw [Row.search?_eq_at? (ascending_links h hp), ← map_edge_links h hp, Row.at?_map Link.primary_edge]

theorem conflictRow_eq (h : ∀ c ∈ calls, c.Within n) (hp : p < n) :
    conflictRow p calls = (ofCalls n calls).conflicts p := by
  induction calls using List.reverseRecOn with
  | nil => exact (conflicts_ofSize n p).symm
  | append_singleton calls c ih =>
    obtain ⟨hcalls, hc⟩ := List.forall_mem_append.1 h
    rw [conflictRow_concat, ofCalls_concat, ih hcalls]
    apply enterConflict_eq (coherent_ofCalls hcalls)
    · rw [size_ofCalls]
      exact hc c List.mem_cons_self
    · rw [size_ofCalls]
      exact hp

/-- Whatever calls within the graph come in whatever order: the graph is coherent, an edge is found
exactly by its owner and its primary, no later call takes an edge or a flag away, and the rows are
those that bisection enters, where several matches are told from one. -/
theorem representation_ofCalls (h : ∀ c ∈ calls, c.Within n) :
    (ofCalls n calls).Coherent ∧
      (∀ p t e, (ofCalls n calls).find? p t = some e ↔
        e ∈ (ofCalls n calls).edges p ∧ e.primary = t) ∧
      (∀ earlier later, calls = earlier ++ later → (ofCalls n earlier).Keeps (ofCalls n calls)) ∧
      ∀ p < n,
        (links p calls).map Link.edge = (ofCalls n calls).edges p ∧
        (∀ l ∈ links p calls, l.Faithful) ∧
        (∀ t, (Row.search? Link.primary (links p calls) t).map Link.edge =
          (ofCalls n calls).find? p t) ∧
        conflictRow p calls = (ofCalls n calls).conflicts p := by
  have hcoherent := coherent_ofCalls h
  refine ⟨hcoherent, fun p t e => hcoherent.find?_eq_some_iff, ?_, ?_⟩
  · rintro earlier later rfl
    exact keeps_ofCalls earlier (List.forall_mem_append.1 h).2
  · intro p hp
    exact ⟨map_edge_links h hp, faithful_links h hp, search?_links h hp, conflictRow_eq h hp⟩

/-- Calls that meet in edges: several matches after a single one, and obsoletes after conflicts. -/
def meetingCalls : List Call :=
  [.single 0 0 { prereq := true } 2, .conflict 0 0 false 3, .multi 0 1 {} 2 [1], .single 3 0 {} 0,
    .conflict 0 1 true 3, .single 0 2 {} 1]

theorem representation_ofCalls_meeting :
    (∀ c ∈ meetingCalls, c.Within 4) ∧
      (ofCalls 4 meetingCalls).edges 0 =
        [⟨1, [], 2, {}⟩, ⟨2, [1], 0, { prereq := true, multi := true }⟩] ∧
      (ofCalls 4 meetingCalls).conflicts 0 = [⟨3, 0, { conflict := true, obsolete := true }⟩] ∧
      (ofCalls 4 meetingCalls).Coherent ∧
      (ofCalls 4 (meetingCalls.take 2)).Keeps (ofCalls 4 meetingCalls) ∧
      (links 0 meetingCalls).map Link.edge = (ofCalls 4 meetingCalls).edges 0 := by
  have h : ∀ c ∈ meetingCalls, c.Within 4 := by decide
  obtain ⟨hcoherent, _, hkeeps, hrows⟩ := representation_ofCalls h
  exact ⟨h, by decide, by decide, hcoherent, hkeeps _ (meetingCalls.drop 2) rfl,
    (hrows 0 (by decide)).1⟩

end Graph

end Depcheck
