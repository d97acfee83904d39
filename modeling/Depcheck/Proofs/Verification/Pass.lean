import Depcheck.Proofs.Graph.Checked
import Depcheck.Proofs.Verification.Diagnostics

/-!
# The pass over the requirements

A run goes through the requirements of all packages once. On the way it fills the memo, adds edges,
counts and files what is unmet, and lists the packages that have an unmet requirement of their own, all
side by side. It stops where a candidate or an edge is foreign to the list of packages. On an index of
the packages themselves it never stops, and every part of what it gathers is what the table of outcomes
gives (`pass?_eq`).
-/

namespace Depcheck

/-- What the pass has gathered so far. -/
structure Pass where
  memo : Memo (Resolution × List RpmlibViolation) := {}
  violations : List RpmlibViolation := []
  graph : Graph
  /-- The number of unmet requirements. -/
  unmet : Nat := 0
  diagnostics : Diagnostics := []
  problems : List Problem := []
  unmetPackages : List Nat := []
  /-- The resolutions used; nothing in the pass looks at them. -/
  outcomes : List Outcome := []

/-- Records an unmet requirement in each of the three places. -/
def Pass.record (p : Pass) (package : String) (u : Unmet) : Pass :=
  { p with
    unmet := p.unmet + 1
    diagnostics := p.diagnostics.add package u
    problems := p.problems ++ [.unmet package u] }

namespace Context

variable {ctx : Context} {req : Capability}

/-- Resolves a requirement. All its candidates must be packages of the list. -/
def resolve? (ctx : Context) (req : Capability) : Option (Resolution × List RpmlibViolation) :=
  check (∀ id ∈ (ctx.candidates? req).getD [], id < ctx.packages.size) (ctx.resolve req)

theorem resolve?_eq (hidx : ctx.Indexed) (req : Capability) :
    ctx.resolve? req = some (ctx.resolve req) := by
  apply check_eq_some
  intro id hid
  cases hc : ctx.candidates? req with
  | none =>
    rw [hc] at hid
    cases hid
  | some ids =>
    rw [hc] at hid
    exact lt_of_mem_candidates? hidx hc hid

/-- The answer of the memo, or else a new one, which the memo keeps with the violations noted. -/
def answer? (ctx : Context) (p : Pass) (req : Capability) : Option (Resolution × Pass) :=
  ((p.memo.entries[req.text]?).or (ctx.resolve? req)).map fun answer =>
    match p.memo.fetch req.text fun _ => answer with
    | ((resolution, violations), computed, memo) =>
      (resolution,
        { p with memo, violations := p.violations ++ if computed then violations else [] })

/-- Settles one requirement of a package. The flag says whether one was unmet so far. -/
def settle? (ctx : Context) (owner : Nat) (package : Package) (found : Pass × Bool)
    (r : Capability × Nat) : Option (Pass × Bool) := do
  let (resolution, p) ← ctx.answer? found.1 r.1
  let p := { p with outcomes := p.outcomes ++ [⟨⟨owner, r.2, r.1⟩, resolution⟩] }
  match resolution with
  | .builtin => return (p, found.2)
  | .matched ids =>
    match excludeSelf? owner ids with
    | none => return (p, found.2)
    | some ids =>
      let graph ← p.graph.addMatches? owner r.2 (.ofRequirement r.1) ids
      return ({ p with graph }, found.2)
  | .absent => return (p.record package.idText ⟨r.1.text, .absent⟩, true)
  | .mismatch => return (p.record package.idText ⟨r.1.text, .versionMismatch⟩, true)

/-- Settles the requirements of a package. -/
def passPackage? (ctx : Context) (p : Pass) (entry : Package × Nat) : Option Pass :=
  if entry.1.requires.isEmpty then some p
  else do
    let (p, hasUnmet) ← entry.1.requires.zipIdx.foldlM (ctx.settle? entry.2 entry.1) (p, false)
    return if hasUnmet then { p with unmetPackages := p.unmetPackages ++ [entry.2] } else p

def pass? (ctx : Context) : Option Pass :=
  ctx.packages.toList.zipIdx.foldlM ctx.passPackage? { graph := .ofSize ctx.packages.size }

/-! ## The outcomes, one demand at a time -/

/-- The outcomes after one more demand. -/
def settle (ctx : Context) (found : Outcomes) (d : Demand) : Outcomes :=
  match found.memo.fetch d.requirement.text fun _ => ctx.resolve d.requirement with
  | ((resolution, violations), computed, memo) =>
    { table := found.table ++ [⟨d, resolution⟩]
      violations := found.violations ++ if computed then violations else []
      memo }

theorem foldl_settle_eq (found : Outcomes) (ds : List Demand) :
    ds.foldl ctx.settle found =
      { ctx.resolveAll found.memo ds with
        table := found.table ++ (ctx.resolveAll found.memo ds).table
        violations := found.violations ++ (ctx.resolveAll found.memo ds).violations } := by
  induction ds generalizing found with
  | nil => simp [resolveAll]
  | cons d rest ih =>
    rw [List.foldl_cons, ih, resolveAll, settle]
    simp only [List.append_assoc, List.singleton_append]

/-- Every answer in the memo is that of some requirement. -/
def Resolved (ctx : Context) (found : Outcomes) : Prop :=
  ∀ (text : String) answer, found.memo.entries[text]? = some answer → ∃ req, answer = ctx.resolve req

variable {found : Outcomes}

theorem exists_resolve_of_fetch (h : ctx.Resolved found) (req : Capability) :
    ∃ req', (found.memo.fetch req.text fun _ => ctx.resolve req).1 = ctx.resolve req' := by
  rw [Memo.fetch_answer]
  cases hentry : found.memo.entries[req.text]? with
  | none => exact ⟨req, rfl⟩
  | some answer => exact h _ _ hentry

theorem resolved_settle (h : ctx.Resolved found) (d : Demand) : ctx.Resolved (ctx.settle found d) := by
  intro text answer hentry
  change (found.memo.fetch d.requirement.text fun _ => ctx.resolve d.requirement).2.2.entries[text]? =
    some answer at hentry
  rw [Memo.entries_fetch] at hentry
  split at hentry
  · obtain ⟨req, hreq⟩ := exists_resolve_of_fetch h d.requirement
    exact ⟨req, by rw [← hreq, Option.some.inj hentry]⟩
  · exact h text answer hentry

/-! ## The pass and the outcomes -/

/-- What the pass has gathered when these are the outcomes. -/
def gathered (ctx : Context) (found : Outcomes) (unmetPackages : List Nat) : Pass where
  memo := found.memo
  violations := found.violations
  graph := ctx.requirementGraph found.table
  unmet := (ctx.unmetOf found.table).length
  diagnostics := .ofList (ctx.unmetOf found.table)
  problems := (ctx.unmetOf found.table).map fun (package, u) => .unmet package u
  unmetPackages
  outcomes := found.table

theorem unmetOf_append (table : List Outcome) (o : Outcome) :
    ctx.unmetOf (table ++ [o]) =
      ctx.unmetOf table ++ (o.unmet?.map fun u => (ctx.idText o.owner, u)).toList := by
  rw [unmetOf, List.filterMap_append, ← unmetOf]
  cases hunmet : o.unmet? with
  | none => simp [hunmet]
  | some u => simp [hunmet]

theorem answer?_gathered (hidx : ctx.Indexed) (found : Outcomes) (us : List Nat) (d : Demand) :
    ctx.answer? (ctx.gathered found us) d.requirement =
      some ((found.memo.fetch d.requirement.text fun _ => ctx.resolve d.requirement).1.1,
        { ctx.gathered found us with
          memo := (ctx.settle found d).memo
          violations := (ctx.settle found d).violations }) := by
  have hfetch : (found.memo.fetch d.requirement.text fun _ =>
        (found.memo.entries[d.requirement.text]?).getD (ctx.resolve d.requirement)) =
      found.memo.fetch d.requirement.text fun _ => ctx.resolve d.requirement := by
    unfold Memo.fetch
    cases found.memo.entries[d.requirement.text]? with
    | none => rfl
    | some answer => rfl
  have hmemo : (ctx.gathered found us).memo = found.memo := rfl
  rw [answer?, resolve?_eq hidx, hmemo, Option.or_some, Option.map_some, hfetch]
  rfl

variable {owner : Nat} {package : Package}

theorem addMatches?_eq {ids : List Nat} (howner : owner < ctx.packages.size) (hne : ids ≠ [])
    (hids : ∀ id ∈ ids, id < ctx.packages.size) (table : List Outcome) (position : Nat)
    (flags : EdgeFlags) :
    (ctx.requirementGraph table).addMatches? owner position flags ids =
      some ((ctx.requirementGraph table).addMatches owner position flags ids) := by
  apply check_eq_some
  rw [size_requirementGraph]
  exact ⟨howner, hne, hids⟩

/-- One more outcome, in every part of what is gathered. -/
theorem gathered_settle {d : Demand} {o : Outcome}
    (htable : (ctx.settle found d).table = found.table ++ [o]) (us : List Nat) :
    ctx.gathered (ctx.settle found d) us =
      let p : Pass :=
        { ctx.gathered found us with
          memo := (ctx.settle found d).memo
          violations := (ctx.settle found d).violations
          graph := (ctx.requirementGraph found.table).addOutcome o
          outcomes := found.table ++ [o] }
      match o.unmet? with
      | none => p
      | some u => p.record (ctx.idText o.owner) u := by
  rw [gathered, htable, requirementGraph_append, unmetOf_append]
  cases o.unmet? with
  | none => simp [gathered]
  | some u => simp [gathered, Pass.record, Diagnostics.ofList_concat]

/-- One requirement is settled, and the flag goes up when it is unmet. -/
theorem settle?_eq (hidx : ctx.Indexed) (hresolved : ctx.Resolved found)
    (howner : owner < ctx.packages.size) (hpackage : ctx.idText owner = package.idText)
    (us : List Nat) (before : Bool) (r : Capability × Nat) :
    ∃ o : Outcome, o.owner = owner ∧
      (ctx.settle found ⟨owner, r.2, r.1⟩).table = found.table ++ [o] ∧
      ctx.settle? owner package (ctx.gathered found us, before) r =
        some (ctx.gathered (ctx.settle found ⟨owner, r.2, r.1⟩) us, before || o.unmet?.isSome) := by
  let d : Demand := ⟨owner, r.2, r.1⟩
  obtain ⟨resolution, hres⟩ : ∃ resolution,
      (found.memo.fetch r.1.text fun _ => ctx.resolve r.1).1.1 = resolution := ⟨_, rfl⟩
  have htable : (ctx.settle found d).table = found.table ++ [⟨d, resolution⟩] := by
    rw [← hres]
    rfl
  have hanswer : ctx.answer? (ctx.gathered found us) r.1 =
      some (resolution, { ctx.gathered found us with
        memo := (ctx.settle found d).memo
        violations := (ctx.settle found d).violations }) := by
    rw [← hres]
    exact answer?_gathered hidx found us d
  refine ⟨⟨d, resolution⟩, rfl, htable, ?_⟩
  show ctx.settle? owner package (ctx.gathered found us, before) r =
    some (ctx.gathered (ctx.settle found d) us, _)
  rw [gathered_settle htable, settle?, hanswer, Option.bind_eq_bind, Option.bind_some]
  cases resolution with
  | builtin | absent | mismatch =>
    simp [Outcome.unmet?, Resolution.unmetKind?, Graph.addOutcome, Outcome.targets, Graph.addMatches,
      gathered, hpackage, d]
  | matched ids =>
    obtain ⟨req, hreq⟩ := exists_resolve_of_fetch hresolved r.1
    have hmatched : (ctx.resolve req).1 = .matched ids := by rw [← hreq, hres]
    obtain ⟨hne, hids⟩ := of_resolve_eq_matched hidx hmatched
    by_cases hself : owner ∈ ids
    · simp [Outcome.unmet?, Resolution.unmetKind?, Graph.addOutcome, Outcome.targets, excludeSelf?,
        hself, Graph.addMatches, gathered, d]
    · have hadd := addMatches?_eq howner hne hids found.table r.2 (.ofRequirement r.1)
      simp [Outcome.unmet?, Resolution.unmetKind?, Graph.addOutcome, Outcome.targets, excludeSelf?,
        hself, hadd, gathered, d]

/-- The requirements of a package are settled one after the other. -/
theorem foldlM_settle?_eq (hidx : ctx.Indexed) (hresolved : ctx.Resolved found)
    (howner : owner < ctx.packages.size) (hpackage : ctx.idText owner = package.idText)
    (us : List Nat) (before : Bool) (rs : List (Capability × Nat)) :
    ∃ block : List Outcome, (∀ o ∈ block, o.owner = owner) ∧
      let found' := (rs.map fun r => (⟨owner, r.2, r.1⟩ : Demand)).foldl ctx.settle found
      found'.table = found.table ++ block ∧ ctx.Resolved found' ∧
      rs.foldlM (ctx.settle? owner package) (ctx.gathered found us, before) =
        some (ctx.gathered found' us, before || block.any fun o => o.unmet?.isSome) := by
  induction rs generalizing found before with
  | nil => exact ⟨[], by simp, by simp, hresolved, by simp⟩
  | cons r rest ih =>
    obtain ⟨o, ho, htable, hsettle⟩ :=
      settle?_eq hidx hresolved howner hpackage us before r
    obtain ⟨block, hblock, htables, hresolved', hrest⟩ :=
      ih (resolved_settle hresolved ⟨owner, r.2, r.1⟩) (before || o.unmet?.isSome)
    refine ⟨o :: block, List.forall_mem_cons.2 ⟨ho, hblock⟩, ?_, hresolved', ?_⟩
    · rw [List.map_cons, List.foldl_cons, htables, htable, List.append_assoc]
      rfl
    · rw [List.foldlM_cons, hsettle, Option.bind_eq_bind, Option.bind_some, hrest, List.any_cons,
        Bool.or_assoc]
      rfl

/-! ## The packages with an unmet requirement -/

/-- A block of outcomes of a new package adds the package when one of them is unmet. -/
theorem unmetOwners_append {table block : List Outcome} (hblock : ∀ o ∈ block, o.owner = owner)
    (htable : ∀ o ∈ table, o.owner ≠ owner) :
    unmetOwners (table ++ block) =
      unmetOwners table ++ if block.any (fun o => o.unmet?.isSome) then [owner] else [] := by
  let isUnmet : Outcome → Bool := fun o => o.resolution.unmetKind?.isSome
  have hrun : (block.filter isUnmet).map (fun o => o.owner) =
      List.replicate (block.filter isUnmet).length owner := by
    rw [List.eq_replicate_iff]
    refine ⟨List.length_map _, ?_⟩
    intro p hp
    obtain ⟨o, ho, rfl⟩ := List.mem_map.1 hp
    exact hblock o (List.mem_filter.1 ho).1
  have hnew : owner ∉ (table.filter isUnmet).map fun o => o.owner := by
    intro hmem
    obtain ⟨o, ho, howner⟩ := List.mem_map.1 hmem
    exact htable o (List.mem_filter.1 ho).1 howner
  have hany : (block.filter isUnmet).length = 0 ↔ block.any (fun o => o.unmet?.isSome) = false := by
    rw [List.length_eq_zero_iff, List.filter_eq_nil_iff, List.any_eq_false]
    simp only [Outcome.unmet?, Option.isSome_map, isUnmet]
  show (((table ++ block).filter isUnmet).map fun o => o.owner).eraseReps = _
  rw [List.filter_append, List.map_append, hrun, eraseReps_append_replicate hnew]
  by_cases hnone : (block.filter isUnmet).length = 0
  · rw [if_pos hnone, hany.1 hnone]
    rfl
  · rw [if_neg hnone, if_pos (Bool.eq_true_of_not_eq_false (mt hany.2 hnone))]
    rfl

theorem passPackage?_eq (hidx : ctx.Indexed) (hresolved : ctx.Resolved found)
    (howner : owner < ctx.packages.size) (hpackage : ctx.idText owner = package.idText)
    (htable : ∀ o ∈ found.table, o.owner ≠ owner) :
    let found' := (package.requires.zipIdx.map fun r => (⟨owner, r.2, r.1⟩ : Demand)).foldl
      ctx.settle found
    ctx.Resolved found' ∧ (∀ o ∈ found'.table, o ∈ found.table ∨ o.owner = owner) ∧
      ctx.passPackage? (ctx.gathered found (unmetOwners found.table)) (package, owner) =
        some (ctx.gathered found' (unmetOwners found'.table)) := by
  intro found'
  obtain ⟨block, hblock, htables, hresolved', hsettle⟩ :=
    foldlM_settle?_eq hidx hresolved howner hpackage (unmetOwners found.table) false
      package.requires.zipIdx
  refine ⟨hresolved', ?_, ?_⟩
  · intro o ho
    rw [htables] at ho
    rcases List.mem_append.1 ho with ho | ho
    · exact .inl ho
    · exact .inr (hblock o ho)
  · rw [passPackage?]
    by_cases hnone : package.requires.isEmpty = true
    · rw [if_pos hnone]
      have hsame : found' = found := by
        show (package.requires.zipIdx.map _).foldl ctx.settle found = found
        rw [List.isEmpty_iff.1 hnone]
        rfl
      rw [hsame]
    · rw [if_neg hnone, hsettle, Option.bind_eq_bind, Option.bind_some, htables,
        unmetOwners_append hblock htable, Bool.false_or]
      cases block.any (fun o => o.unmet?.isSome) with
      | true => rfl
      | false => simp; rfl

/-- The packages come in ascending order, so none has an outcome before its turn. -/
theorem foldlM_passPackage?_eq (hidx : ctx.Indexed) (hresolved : ctx.Resolved found)
    {entries : List (Package × Nat)} (hentries : ∀ e ∈ entries, ctx.packages[e.2]? = some e.1)
    (hordered : entries.Pairwise fun e e' => e.2 < e'.2)
    (hnew : ∀ o ∈ found.table, ∀ e ∈ entries, o.owner ≠ e.2) :
    let found' := (entries.flatMap fun e =>
      e.1.requires.zipIdx.map fun r => (⟨e.2, r.2, r.1⟩ : Demand)).foldl ctx.settle found
    entries.foldlM ctx.passPackage? (ctx.gathered found (unmetOwners found.table)) =
      some (ctx.gathered found' (unmetOwners found'.table)) := by
  induction entries generalizing found with
  | nil => rfl
  | cons entry rest ih =>
    obtain ⟨package, owner⟩ := entry
    have hpackage : ctx.packages[owner]? = some package := hentries _ List.mem_cons_self
    have hid : ctx.idText owner = package.idText := by
      rw [idText, package_eq_of_getElem? hpackage]
    obtain ⟨hlater, hordered⟩ := List.pairwise_cons.1 hordered
    obtain ⟨hresolved', htable, hpass⟩ := passPackage?_eq hidx hresolved (lt_of_getElem? hpackage)
      hid fun o ho => hnew o ho _ List.mem_cons_self
    rw [List.foldlM_cons, hpass, Option.bind_eq_bind, Option.bind_some, List.flatMap_cons,
      List.foldl_append]
    refine ih hresolved' (fun e he => hentries e (List.mem_cons_of_mem _ he)) hordered ?_
    intro o ho e he
    rcases htable o ho with ho | ho
    · exact hnew o ho e (List.mem_cons_of_mem _ he)
    · rw [ho]
      exact Nat.ne_of_lt (hlater e he)

/-- The pass gathers what the outcomes say. -/
theorem pass?_eq (hidx : ctx.Indexed) :
    ctx.pass? = some (ctx.gathered ctx.outcomes (unmetOwners ctx.outcomes.table)) := by
  have hresolved : ctx.Resolved {} := by
    intro text answer h
    exact absurd h (by simp)
  have hentries : ∀ e ∈ ctx.packages.toList.zipIdx, ctx.packages[e.2]? = some e.1 :=
    fun _ => Index.mem_zipIdx_toList.1
  have hfold := foldlM_passPackage?_eq hidx hresolved hentries (zipIdx_pairwise _)
    fun _ ho => absurd ho List.not_mem_nil
  have houtcomes : (demands ctx.packages).foldl ctx.settle {} = ctx.outcomes := by
    rw [foldl_settle_eq]
    rfl
  rw [← houtcomes]
  exact hfold

end Context

end Depcheck
