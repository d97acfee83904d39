import Mathlib.Data.List.Induction
import Depcheck.Proofs.Graph.Rows
import Depcheck.Proofs.Graph.Conflicts

/-!
# Graphs from calls

A graph of `n` packages grows by calls: a requirement with one match, a requirement with several, or
a conflict, of any package in any order. Whatever the calls, the graph stays `Coherent`, and no
later call takes an edge or a flag away (`Keeps`).
-/

namespace Depcheck

namespace EdgeFlags

variable {f g h : EdgeFlags}

theorem contains_iff : f.contains g = true ↔ f.union g = f := beq_iff_eq

theorem contains_self (f : EdgeFlags) : f.contains f = true := by
  rw [contains_iff]
  simp [union]

theorem contains_union_left (f g : EdgeFlags) : (f.union g).contains f = true := by
  rw [contains_iff]
  simp [union, Bool.or_comm]

theorem contains_trans (hfg : f.contains g = true) (hgh : g.contains h = true) :
    f.contains h = true := by
  rw [contains_iff] at hfg hgh ⊢
  have hassoc : (f.union g).union h = f.union (g.union h) := by simp [union, Bool.or_assoc]
  rw [← hfg, hassoc, hgh]

end EdgeFlags

namespace Edge

variable {requirement primary : Nat} {flags : EdgeFlags} {alternates : List Nat}

theorem multi_ofMatches (h : flags.multi = false) :
    (ofMatches requirement flags primary alternates).flags.multi = true ↔ alternates ≠ [] := by
  by_cases hnil : alternates = []
  · simp [ofMatches, matchFlags, hnil, h]
  · simp [ofMatches, matchFlags, hnil, EdgeFlags.union]

theorem multi_absorb (h : flags.multi = false) {e : Edge}
    (he : e.flags.multi = true ↔ e.alternates ≠ []) :
    (e.absorb flags alternates).flags.multi = true ↔
      (e.absorb flags alternates).alternates ≠ [] := by
  by_cases hnil : alternates = []
  · simp [absorb, matchFlags, hnil, h, EdgeFlags.union, he]
  · simp [absorb, matchFlags, hnil, EdgeFlags.union]

theorem mem_targets_absorb {e : Edge} {t : Nat} (h : t ∈ (e.absorb flags alternates).targets) :
    t ∈ e.targets ∨ t ∈ alternates := by
  rw [targets, absorb] at h
  rcases List.mem_cons.1 h with rfl | h
  · exact .inl List.mem_cons_self
  · split at h
    · exact .inl (List.mem_cons_of_mem _ h)
    · exact .inr h

end Edge

/-! ## Calls -/

/-- A call that adds to a graph. -/
inductive Call
  | single (owner requirement : Nat) (flags : EdgeFlags) (target : Nat)
  | multi (owner requirement : Nat) (flags : EdgeFlags) (primary : Nat) (alternates : List Nat)
  | conflict (owner record : Nat) (obsolete : Bool) (target : Nat)
deriving Repr, DecidableEq

namespace Call

/-- The ids of a call are below `n`, several matches are at least two, and the flags leave it to the
call whether the edge is a multi edge. -/
def Within (n : Nat) : Call → Prop
  | single owner _ flags target => owner < n ∧ target < n ∧ flags.multi = false
  | multi owner _ flags primary alternates =>
    owner < n ∧ primary < n ∧ alternates ≠ [] ∧ (∀ t ∈ alternates, t < n) ∧ flags.multi = false
  | conflict owner _ _ target => owner < n ∧ target < n

instance (n : Nat) : (c : Call) → Decidable (c.Within n)
  | single .. => inferInstanceAs (Decidable (_ ∧ _))
  | multi .. => inferInstanceAs (Decidable (_ ∧ _))
  | conflict .. => inferInstanceAs (Decidable (_ ∧ _))

end Call

namespace Graph

/-- The graph after one more call. -/
def call (g : Graph) : Call → Graph
  | .single owner requirement flags target => g.addSingle owner requirement flags target
  | .multi owner requirement flags primary alternates =>
    g.addMulti owner requirement flags primary alternates
  | .conflict owner record obsolete target => g.addConflict owner record obsolete target

/-- The graph of `n` packages after the calls. -/
def ofCalls (n : Nat) (calls : List Call) : Graph := calls.foldl call (ofSize n)

variable {n : Nat} {g g' g'' : Graph} {calls : List Call}

theorem ofCalls_concat (n : Nat) (calls : List Call) (c : Call) :
    ofCalls n (calls ++ [c]) = (ofCalls n calls).call c := by
  rw [ofCalls, List.foldl_append]
  rfl

@[simp] theorem size_call (g : Graph) (c : Call) : (g.call c).size = g.size := by
  cases c with
  | single => exact size_addSingle ..
  | multi => exact size_addMulti ..
  | conflict => exact size_addConflict ..

@[simp] theorem size_ofCalls (n : Nat) (calls : List Call) : (ofCalls n calls).size = n := by
  induction calls using List.reverseRecOn with
  | nil => exact size_ofSize n
  | append_singleton calls c ih => rw [ofCalls_concat, size_call, ih]

/-- A call within the graph adds matches, the preferred one first, or else a hit. -/
theorem call_cases {c : Call} (hc : c.Within n) :
    (∃ owner requirement flags primary alternates, flags.multi = false ∧
        (∀ t ∈ primary :: alternates, t < n) ∧
        ∀ g : Graph, g.call c = g.addMatches owner requirement flags (primary :: alternates)) ∨
      ∃ hit : ConflictHit, ∀ g : Graph, g.call c = g.addHit hit := by
  cases c with
  | single owner requirement flags target =>
    obtain ⟨_, htarget, hflags⟩ := hc
    refine .inl ⟨owner, requirement, flags, target, [], hflags, ?_, fun g => rfl⟩
    intro t ht
    obtain rfl := List.mem_singleton.1 ht
    exact htarget
  | multi owner requirement flags primary alternates =>
    obtain ⟨_, hprimary, hne, halternates, hflags⟩ := hc
    refine .inl ⟨owner, requirement, flags, primary, alternates, hflags, ?_,
      fun g => addMulti_eq_addMatches primary hne⟩
    intro t ht
    rcases List.mem_cons.1 ht with rfl | ht
    · exact hprimary
    · exact halternates t ht
  | conflict owner record obsolete target =>
    exact .inr ⟨⟨owner, record, obsolete, target⟩, fun g => rfl⟩

/-! ## What holds of every graph -/

/-- Rows ascend, an edge is flagged as multi exactly when it has alternates, and every target of an
edge has the owner as a dependent. -/
structure Coherent (g : Graph) : Prop where
  edges_ascending : ∀ p, Row.Ascending Edge.primary (g.edges p)
  conflicts_ascending : ∀ p, Row.Ascending ConflictEdge.target (g.conflicts p)
  multi_iff : ∀ p, ∀ e ∈ g.edges p, (e.flags.multi = true ↔ e.alternates ≠ [])
  mem_dependents : ∀ p, ∀ e ∈ g.edges p, ∀ t ∈ e.targets, p ∈ g.dependents t

/-- Every edge of `g` is in `g'`, with its flags and possibly more. -/
structure Keeps (g g' : Graph) : Prop where
  edge : ∀ p, ∀ e ∈ g.edges p, ∃ e' ∈ g'.edges p,
    e'.primary = e.primary ∧ e'.requirement = e.requirement ∧ e'.flags.contains e.flags = true
  conflict : ∀ p, ∀ e ∈ g.conflicts p, ∃ e' ∈ g'.conflicts p,
    e'.target = e.target ∧ e'.record = e.record ∧ e'.flags.contains e.flags = true

theorem Coherent.find?_eq_some_iff (h : g.Coherent) {p t : Nat} {e : Edge} :
    g.find? p t = some e ↔ e ∈ g.edges p ∧ e.primary = t := by
  have hmem := Row.mem_iff_at? (h.edges_ascending p) (a := e)
  constructor
  · intro hfind
    have hprimary : e.primary = t := by simpa using List.find?_some hfind
    exact ⟨List.mem_of_find?_eq_some hfind, hprimary⟩
  · rintro ⟨he, rfl⟩
    exact hmem.1 he

theorem Keeps.refl (g : Graph) : g.Keeps g := by
  constructor
  case edge => exact fun p e he => ⟨e, he, rfl, rfl, EdgeFlags.contains_self _⟩
  case conflict => exact fun p e he => ⟨e, he, rfl, rfl, EdgeFlags.contains_self _⟩

theorem Keeps.trans (h : g.Keeps g') (h' : g'.Keeps g'') : g.Keeps g'' := by
  constructor
  case edge =>
    intro p e he
    obtain ⟨e', he', hprimary, hreq, hflags⟩ := h.edge p e he
    obtain ⟨e'', he'', hprimary', hreq', hflags'⟩ := h'.edge p e' he'
    exact ⟨e'', he'', hprimary'.trans hprimary, hreq'.trans hreq,
      EdgeFlags.contains_trans hflags' hflags⟩
  case conflict =>
    intro p e he
    obtain ⟨e', he', htarget, hrecord, hflags⟩ := h.conflict p e he
    obtain ⟨e'', he'', htarget', hrecord', hflags'⟩ := h'.conflict p e' he'
    exact ⟨e'', he'', htarget'.trans htarget, hrecord'.trans hrecord,
      EdgeFlags.contains_trans hflags' hflags⟩

/-! ## One requirement -/

section Matches

variable {owner requirement primary : Nat} {flags : EdgeFlags} {alternates : List Nat}

theorem of_mem_edges_addMatches {p : Nat} {e : Edge}
    (he : e ∈ (g.addMatches owner requirement flags (primary :: alternates)).edges p) :
    e ∈ g.edges p ∨
      p = owner ∧ (e = .ofMatches requirement flags primary alternates ∨
        ∃ old ∈ g.edges p, old.primary = primary ∧ e = old.absorb flags alternates) := by
  have hp : p < g.size := by
    rw [← size_addMatches (primary :: alternates)]
    exact lt_size_of_mem_edges he
  rw [edges_addMatches _ _ hp] at he
  split at he
  · next howner =>
    rcases Row.mem_upsert he with hold | rfl | ⟨old, hold, hkey, rfl⟩
    · exact .inl hold
    · exact .inr ⟨howner.symm, .inl rfl⟩
    · exact .inr ⟨howner.symm, .inr ⟨old, hold, hkey, rfl⟩⟩
  · exact .inl he

theorem mem_dependents_addMatches_of_mem {p t : Nat} (ids : List Nat) (h : p ∈ g.dependents t) :
    p ∈ (g.addMatches owner requirement flags ids).dependents t :=
  (mem_dependents_addMatches ids (lt_size_of_mem_dependents h)).2 (.inl h)

theorem Coherent.addMatches (h : g.Coherent) (hflags : flags.multi = false)
    (hids : ∀ t ∈ primary :: alternates, t < g.size) :
    (g.addMatches owner requirement flags (primary :: alternates)).Coherent := by
  constructor
  case edges_ascending => exact fun p => ascending_addMatches _ (h.edges_ascending p)
  case conflicts_ascending =>
    intro p
    rw [conflicts_addMatches]
    exact h.conflicts_ascending p
  case multi_iff =>
    intro p e he
    rcases of_mem_edges_addMatches he with hold | ⟨_, rfl | ⟨old, hold, _, rfl⟩⟩
    · exact h.multi_iff p e hold
    · exact Edge.multi_ofMatches hflags
    · exact Edge.multi_absorb hflags (h.multi_iff p old hold)
  case mem_dependents =>
    intro p e he t ht
    -- the matches of the call have the owner as a dependent now, the others had it before
    have hmatch : p = owner → t ∈ primary :: alternates →
        p ∈ (g.addMatches owner requirement flags (primary :: alternates)).dependents t :=
      fun hown ht => (mem_dependents_addMatches _ (hids t ht)).2 (.inr ⟨hown, ht⟩)
    rcases of_mem_edges_addMatches he with hold | ⟨hown, rfl | ⟨old, hold, _, rfl⟩⟩
    · exact mem_dependents_addMatches_of_mem _ (h.mem_dependents p e hold t ht)
    · exact hmatch hown ht
    · rcases Edge.mem_targets_absorb ht with ht | ht
      · exact mem_dependents_addMatches_of_mem _ (h.mem_dependents p old hold t ht)
      · exact hmatch hown (List.mem_cons_of_mem primary ht)

theorem Keeps.addMatches (g : Graph) :
    g.Keeps (g.addMatches owner requirement flags (primary :: alternates)) := by
  constructor
  case edge =>
    intro p e he
    rw [edges_addMatches _ _ (lt_size_of_mem_edges he)]
    split
    · rcases Row.mem_upsert_of_mem he with hmem | ⟨_, hmem⟩
      · exact ⟨e, hmem, rfl, rfl, EdgeFlags.contains_self _⟩
      · exact ⟨_, hmem, rfl, rfl, EdgeFlags.contains_union_left _ _⟩
    · exact ⟨e, he, rfl, rfl, EdgeFlags.contains_self _⟩
  case conflict =>
    intro p e he
    rw [conflicts_addMatches]
    exact ⟨e, he, rfl, rfl, EdgeFlags.contains_self _⟩

end Matches

/-! ## One conflict -/

theorem edges_addHit (hit : ConflictHit) (p : Nat) : (g.addHit hit).edges p = g.edges p :=
  node_modify_congr Node.edges _ _ _ fun _ => rfl

theorem dependents_addHit (hit : ConflictHit) (p : Nat) :
    (g.addHit hit).dependents p = g.dependents p :=
  node_modify_congr Node.dependents _ _ _ fun _ => rfl

theorem Coherent.addHit (h : g.Coherent) (hit : ConflictHit) : (g.addHit hit).Coherent := by
  constructor
  case edges_ascending =>
    intro p
    rw [edges_addHit]
    exact h.edges_ascending p
  case conflicts_ascending => exact fun p => ascending_addHit hit (h.conflicts_ascending p)
  case multi_iff =>
    intro p
    rw [edges_addHit]
    exact h.multi_iff p
  case mem_dependents =>
    intro p e he t ht
    rw [edges_addHit] at he
    rw [dependents_addHit]
    exact h.mem_dependents p e he t ht

theorem Keeps.addHit (g : Graph) (hit : ConflictHit) : g.Keeps (g.addHit hit) := by
  constructor
  case edge =>
    intro p e he
    rw [edges_addHit]
    exact ⟨e, he, rfl, rfl, EdgeFlags.contains_self _⟩
  case conflict =>
    intro p e he
    rw [conflicts_addHit hit (lt_size_of_mem_conflicts he)]
    split
    · rcases Row.mem_upsert_of_mem he with hmem | ⟨_, hmem⟩
      · exact ⟨e, hmem, rfl, rfl, EdgeFlags.contains_self _⟩
      · exact ⟨_, hmem, rfl, rfl, EdgeFlags.contains_union_left _ _⟩
    · exact ⟨e, he, rfl, rfl, EdgeFlags.contains_self _⟩

/-! ## All calls -/

theorem Coherent.call (h : g.Coherent) {c : Call} (hc : c.Within g.size) : (g.call c).Coherent := by
  rcases call_cases hc with ⟨owner, requirement, flags, primary, alternates, hflags, hids, hcall⟩ |
    ⟨hit, hcall⟩
  · rw [hcall]
    exact h.addMatches hflags hids
  · rw [hcall]
    exact h.addHit hit

theorem Keeps.call (g : Graph) {c : Call} (hc : c.Within g.size) : g.Keeps (g.call c) := by
  rcases call_cases hc with ⟨owner, requirement, flags, primary, alternates, _, _, hcall⟩ |
    ⟨hit, hcall⟩
  · rw [hcall]
    exact Keeps.addMatches g
  · rw [hcall]
    exact Keeps.addHit g hit

theorem coherent_ofSize (n : Nat) : (ofSize n).Coherent := by
  constructor
  case edges_ascending =>
    intro p
    rw [edges_ofSize]
    exact List.Pairwise.nil
  case conflicts_ascending =>
    intro p
    rw [conflicts_ofSize]
    exact List.Pairwise.nil
  case multi_iff =>
    intro p e he
    rw [edges_ofSize] at he
    cases he
  case mem_dependents =>
    intro p e he
    rw [edges_ofSize] at he
    cases he

theorem coherent_ofCalls (h : ∀ c ∈ calls, c.Within n) : (ofCalls n calls).Coherent := by
  induction calls using List.reverseRecOn with
  | nil => exact coherent_ofSize n
  | append_singleton calls c ih =>
    obtain ⟨hcalls, hc⟩ := List.forall_mem_append.1 h
    rw [ofCalls_concat]
    apply (ih hcalls).call
    rw [size_ofCalls]
    exact hc c List.mem_cons_self

/-- Later calls keep what the earlier ones entered. -/
theorem keeps_ofCalls (earlier : List Call) {later : List Call} (h : ∀ c ∈ later, c.Within n) :
    (ofCalls n earlier).Keeps (ofCalls n (earlier ++ later)) := by
  induction later using List.reverseRecOn with
  | nil =>
    rw [List.append_nil]
    exact Keeps.refl _
  | append_singleton later c ih =>
    obtain ⟨hlater, hc⟩ := List.forall_mem_append.1 h
    rw [← List.append_assoc, ofCalls_concat]
    refine (ih hlater).trans (Keeps.call _ ?_)
    rw [size_ofCalls]
    exact hc c List.mem_cons_self

end Graph

end Depcheck
