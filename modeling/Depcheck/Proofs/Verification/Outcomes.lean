import Depcheck.Verification.Outcome

/-!
# Outcomes and the memo

A run answers the requirements of all packages in their order. The memo keeps an answer under the
text of the requirement that asked first, and gives it to every later requirement with that text:
`kept?_eq` says which answer is kept, `kept?_of_mem_table` that it is the one that was used. The
table has one outcome for every requirement of every package, in order.
-/

namespace Depcheck

/-! ## One request -/

namespace Memo

variable {α : Type}

theorem fetch_answer (m : Memo α) (key : String) (compute : Unit → α) :
    (m.fetch key compute).1 = (m.entries[key]?).getD (compute ()) := by
  rw [fetch]
  cases m.entries[key]? <;> rfl

/-- A request leaves its own answer under its key and nothing else. -/
theorem entries_fetch (m : Memo α) (key other : String) (compute : Unit → α) :
    (m.fetch key compute).2.2.entries[other]? =
      if key = other then some (m.fetch key compute).1 else m.entries[other]? := by
  rw [fetch]
  cases h : m.entries[key]? with
  | some a =>
    by_cases hk : key = other
    · subst hk
      simp [h]
    · simp [hk]
  | none => simp [Std.TreeMap.getElem?_insert]

end Memo

/-! ## The demands of a package list -/

theorem mem_demands {packages : Array Package} {d : Demand} :
    d ∈ demands packages ↔
      ∃ p, packages[d.owner]? = some p ∧ p.requires[d.position]? = some d.requirement := by
  rw [demands, List.mem_flatMap]
  constructor
  · rintro ⟨⟨p, owner⟩, hp, hd⟩
    obtain ⟨⟨req, position⟩, hr, rfl⟩ := List.mem_map.1 hd
    refine ⟨p, ?_, List.mk_mem_zipIdx_iff_getElem?.1 hr⟩
    rw [← Array.getElem?_toList]
    exact List.mk_mem_zipIdx_iff_getElem?.1 hp
  · rintro ⟨p, hp, hr⟩
    rw [← Array.getElem?_toList] at hp
    refine ⟨(p, d.owner), List.mk_mem_zipIdx_iff_getElem?.2 hp, ?_⟩
    exact List.mem_map.2 ⟨(d.requirement, d.position), List.mk_mem_zipIdx_iff_getElem?.2 hr, rfl⟩

theorem exists_mem_demands {packages : Array Package} {P : Capability → Prop} :
    (∃ d ∈ demands packages, P d.requirement) ↔ ∃ p ∈ packages, ∃ r ∈ p.requires, P r := by
  constructor
  · rintro ⟨d, hd, hreq⟩
    obtain ⟨p, hp, hr⟩ := mem_demands.1 hd
    exact ⟨p, Array.mem_of_getElem? hp, d.requirement, List.mem_of_getElem? hr, hreq⟩
  · rintro ⟨p, hp, r, hr, hreq⟩
    obtain ⟨owner, hp⟩ := Array.mem_iff_getElem?.1 hp
    obtain ⟨position, hr⟩ := List.mem_iff_getElem?.1 hr
    exact ⟨⟨owner, position, r⟩, mem_demands.2 ⟨p, hp, hr⟩, hreq⟩

/-- By package, then by position in the package. -/
def Demand.Before (a b : Demand) : Prop :=
  a.owner < b.owner ∨ a.owner = b.owner ∧ a.position < b.position

theorem zipIdx_pairwise {α : Type} (as : List α) : as.zipIdx.Pairwise fun a b => a.2 < b.2 := by
  have h := List.pairwise_lt_range' (s := 0) (n := as.length)
  rw [← List.zipIdx_map_snd, List.pairwise_map] at h
  exact h

theorem demands_pairwise (packages : Array Package) : (demands packages).Pairwise Demand.Before := by
  rw [demands, List.pairwise_flatMap]
  constructor
  · rintro ⟨p, owner⟩ _
    rw [List.pairwise_map]
    exact (zipIdx_pairwise p.requires).imp fun h => .inr ⟨rfl, h⟩
  · refine (zipIdx_pairwise packages.toList).imp ?_
    rintro ⟨p, i⟩ ⟨q, j⟩ hlt a ha b hb
    obtain ⟨x, _, rfl⟩ := List.mem_map.1 ha
    obtain ⟨y, _, rfl⟩ := List.mem_map.1 hb
    exact .inl hlt

/-- The first demand whose requirement has the given text. -/
def first? (ds : List Demand) (text : String) : Option Demand :=
  ds.find? fun d => d.requirement.text == text

theorem first?_cons (d : Demand) (ds : List Demand) (text : String) :
    first? (d :: ds) text = if d.requirement.text = text then some d else first? ds text := by
  by_cases h : d.requirement.text = text
  · rw [if_pos h, first?, List.find?_cons_of_pos (by simpa using h)]
  · rw [if_neg h, first?, List.find?_cons_of_neg (by simpa using h), ← first?]

theorem exists_first? {ds : List Demand} {d : Demand} (h : d ∈ ds) :
    ∃ f, first? ds d.requirement.text = some f ∧ f ∈ ds ∧
      f.requirement.text = d.requirement.text := by
  have hsome : (first? ds d.requirement.text).isSome = true := by
    rw [first?, List.find?_isSome]
    exact ⟨d, h, by simp⟩
  obtain ⟨f, hf⟩ := Option.isSome_iff_exists.1 hsome
  exact ⟨f, hf, List.mem_of_find?_eq_some hf, by simpa using List.find?_some hf⟩

/-! ## The pass over the demands -/

namespace Context

variable {ctx : Context}

/-- An answer stays once it is there, and a missing one is that of the first demand for it. -/
theorem entries_resolveAll (memo : Memo (Resolution × List RpmlibViolation)) (ds : List Demand)
    (text : String) :
    (ctx.resolveAll memo ds).memo.entries[text]? =
      (memo.entries[text]?).or ((first? ds text).map fun d => ctx.resolve d.requirement) := by
  induction ds generalizing memo with
  | nil => simp [resolveAll, first?]
  | cons d rest ih =>
    rw [resolveAll, ih, Memo.entries_fetch, first?_cons, Memo.fetch_answer]
    by_cases h : d.requirement.text = text
    · subst h
      cases memo.entries[d.requirement.text]? <;> simp
    · simp [h]

theorem toDemand_resolveAll (memo : Memo (Resolution × List RpmlibViolation)) (ds : List Demand) :
    (ctx.resolveAll memo ds).table.map Outcome.toDemand = ds := by
  induction ds generalizing memo with
  | nil => rfl
  | cons d rest ih =>
    rw [resolveAll, List.map_cons, ih]

/-- What an outcome says is what the memo holds at the end. -/
theorem entries_of_mem_table {memo : Memo (Resolution × List RpmlibViolation)} {ds : List Demand}
    {o : Outcome} (h : o ∈ (ctx.resolveAll memo ds).table) :
    ((ctx.resolveAll memo ds).memo.entries[o.requirement.text]?).map Prod.fst =
      some o.resolution := by
  induction ds generalizing memo with
  | nil => cases h
  | cons d rest ih =>
    rw [resolveAll] at h ⊢
    rcases List.mem_cons.1 h with rfl | h
    · -- the answer given now is in the memo from here on, and later demands do not replace it
      simp only [entries_resolveAll, Memo.entries_fetch, if_true, Option.some_or, Option.map_some]
    · exact ih h

/-- The resolution that a run keeps under a text. -/
def kept? (ctx : Context) (text : String) : Option Resolution :=
  (ctx.outcomes.memo.entries[text]?).map Prod.fst

/-- A run keeps the resolution of the first requirement with the text. -/
theorem kept?_eq (text : String) :
    ctx.kept? text =
      (first? (demands ctx.packages) text).map fun d => (ctx.resolve d.requirement).1 := by
  rw [kept?, outcomes, entries_resolveAll, Std.TreeMap.getElem?_emptyc, Option.none_or,
    Option.map_map]
  rfl

theorem toDemand_table : ctx.outcomes.table.map Outcome.toDemand = demands ctx.packages :=
  toDemand_resolveAll {} _

theorem kept?_of_mem_table {o : Outcome} (h : o ∈ ctx.outcomes.table) :
    ctx.kept? o.requirement.text = some o.resolution :=
  entries_of_mem_table h

theorem mem_demands_of_mem_table {o : Outcome} (h : o ∈ ctx.outcomes.table) :
    o.toDemand ∈ demands ctx.packages := by
  rw [← toDemand_table]
  exact List.mem_map_of_mem h

/-- Every requirement of every package has an outcome. -/
theorem exists_outcome {d : Demand} (h : d ∈ demands ctx.packages) :
    ∃ res, ctx.kept? d.requirement.text = some res ∧ ⟨d, res⟩ ∈ ctx.outcomes.table := by
  rw [← toDemand_table] at h
  obtain ⟨o, ho, rfl⟩ := List.mem_map.1 h
  exact ⟨o.resolution, kept?_of_mem_table ho, ho⟩

/-- Every outcome goes back to a requirement of the same text, resolved on its own. -/
theorem exists_resolve_of_mem_table {o : Outcome} (h : o ∈ ctx.outcomes.table) :
    ∃ d ∈ demands ctx.packages, d.requirement.text = o.requirement.text ∧
      (ctx.resolve d.requirement).1 = o.resolution := by
  obtain ⟨f, hf, hmem, htext⟩ := exists_first? (mem_demands_of_mem_table h)
  refine ⟨f, hmem, htext, ?_⟩
  have hkept := kept?_of_mem_table h
  rw [kept?_eq, hf, Option.map_some] at hkept
  exact Option.some.inj hkept

theorem table_pairwise :
    ctx.outcomes.table.Pairwise fun a b => a.toDemand.Before b.toDemand := by
  rw [← List.pairwise_map, toDemand_table]
  exact demands_pairwise ctx.packages

end Context

end Depcheck
