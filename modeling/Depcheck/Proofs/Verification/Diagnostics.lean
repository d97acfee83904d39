import Depcheck.Proofs.Lists
import Depcheck.Proofs.Verification.Spread

/-!
# What is filed under a text

The diagnostics file the unmet requirements of all packages under the texts that name the packages,
the texts ascending. Filing one changes the entry of its own text and no other (`under_add`), and
nothing is lost or doubled on the way (`filed_ofList_perm`). So a run has under every text the unmet
requirements of all packages of this text, in order (`under_verify`).
-/

namespace Depcheck

namespace Diagnostics

variable {ds : Diagnostics} {text package : String} {u : Unmet}

/-- The texts ascend, and no text stands twice. -/
def Ascending (ds : Diagnostics) : Prop := ds.Pairwise fun a b => a.1 < b.1

/-- What is filed under a text. -/
def under (ds : Diagnostics) (text : String) : List Unmet := (ds.lookup text).getD []

theorem under_cons (entry : String × List Unmet) (ds : Diagnostics) (text : String) :
    under (entry :: ds) text = if text = entry.1 then entry.2 else ds.under text := by
  obtain ⟨p, us⟩ := entry
  by_cases h : text = p
  · simp [under, h]
  · have hne : (text == p) = false := beq_false_of_ne h
    rw [if_neg h, under, List.lookup_cons, hne, under]

theorem under_eq_nil (h : ∀ entry ∈ ds, text < entry.1) : ds.under text = [] := by
  induction ds with
  | nil => rfl
  | cons entry rest ih =>
    obtain ⟨hlt, hrest⟩ := List.forall_mem_cons.1 h
    rw [under_cons, if_neg hlt.ne, ih hrest]

theorem key_of_mem_add {entry : String × List Unmet} (h : entry ∈ add package u ds) :
    entry.1 = package ∨ ∃ us, (entry.1, us) ∈ ds := by
  induction ds with
  | nil =>
    rw [add, List.mem_singleton] at h
    exact .inl (by rw [h])
  | cons first rest ih =>
    obtain ⟨p, us⟩ := first
    rw [add] at h
    split at h
    · rcases List.mem_cons.1 h with rfl | h
      · exact .inr ⟨us, List.mem_cons_self⟩
      · rcases ih h with hkey | ⟨us', hmem⟩
        · exact .inl hkey
        · exact .inr ⟨us', List.mem_cons_of_mem _ hmem⟩
    · rcases List.mem_cons.1 h with rfl | h
      · exact .inr ⟨us, List.mem_cons_self⟩
      · exact .inr ⟨entry.2, List.mem_cons_of_mem _ h⟩
    · rcases List.mem_cons.1 h with rfl | h
      · exact .inl rfl
      · exact .inr ⟨entry.2, h⟩

theorem ascending_add (h : ds.Ascending) : (add package u ds).Ascending := by
  induction ds with
  | nil => exact List.pairwise_singleton _ _
  | cons first rest ih =>
    obtain ⟨p, us⟩ := first
    obtain ⟨hfirst, hrest⟩ := List.pairwise_cons.1 h
    rw [add]
    split
    · next hlt =>
      refine List.pairwise_cons.2 ⟨?_, ih hrest⟩
      intro entry hmem
      rcases key_of_mem_add hmem with hkey | ⟨us', hmem⟩
      · rw [hkey]
        exact compare_lt_iff_lt.1 hlt
      · exact hfirst (entry.1, us') hmem
    · exact List.pairwise_cons.2 ⟨hfirst, hrest⟩
    · next hgt =>
      have hlt : package < p := compare_gt_iff_gt.1 hgt
      refine List.pairwise_cons.2 ⟨?_, h⟩
      intro entry hmem
      rcases List.mem_cons.1 hmem with rfl | hmem
      · exact hlt
      · exact hlt.trans (hfirst _ hmem)

/-- Filing adds to the entry of the package, and to no other. -/
theorem under_add (h : ds.Ascending) (text : String) :
    (add package u ds).under text = ds.under text ++ if package = text then [u] else [] := by
  induction ds with
  | nil =>
    rw [add, under_cons]
    by_cases htext : package = text
    · simp [htext, under]
    · simp [htext, Ne.symm htext, under]
  | cons first rest ih =>
    obtain ⟨p, us⟩ := first
    obtain ⟨hfirst, hrest⟩ := List.pairwise_cons.1 h
    rw [add]
    split
    · next hlt =>
      have hne : p ≠ package := (compare_lt_iff_lt.1 hlt).ne
      rw [under_cons, under_cons, ih hrest]
      by_cases htext : text = p
      · simp [htext, Ne.symm hne]
      · simp [htext]
    · next heq =>
      obtain rfl : p = package := compare_eq_iff_eq.1 heq
      rw [under_cons, under_cons]
      by_cases htext : text = p
      · simp [htext]
      · simp [htext, Ne.symm htext]
    · next hgt =>
      have hlt : package < p := compare_gt_iff_gt.1 hgt
      rw [under_cons]
      by_cases htext : text = package
      · -- the package has no entry yet: all texts come after its own
        have hnone : under ((p, us) :: rest) text = [] := by
          refine under_eq_nil fun entry hmem => ?_
          rw [htext]
          rcases List.mem_cons.1 hmem with rfl | hmem
          · exact hlt
          · exact hlt.trans (hfirst _ hmem)
        simp [htext, htext ▸ hnone]
      · simp [htext, Ne.symm htext]

/-! ## Filing a list -/

theorem ofList_concat (us : List (String × Unmet)) (package : String) (u : Unmet) :
    ofList (us ++ [(package, u)]) = add package u (ofList us) := by
  rw [ofList, List.foldl_append]
  rfl

theorem ascending_ofList (us : List (String × Unmet)) : (ofList us).Ascending := by
  induction us using List.reverseRecOn with
  | nil => exact List.Pairwise.nil
  | append_singleton us entry ih =>
    rw [ofList_concat]
    exact ascending_add ih

theorem under_ofList (us : List (String × Unmet)) (text : String) :
    (ofList us).under text = us.filterMap fun (package, u) =>
      if package = text then some u else none := by
  induction us using List.reverseRecOn with
  | nil => rfl
  | append_singleton us entry ih =>
    obtain ⟨package, u⟩ := entry
    rw [ofList_concat, under_add (ascending_ofList us), ih, List.filterMap_append]
    by_cases htext : package = text
    · simp [htext]
    · simp [htext]

/-- The texts under which something is filed. -/
def texts (ds : Diagnostics) : List String := ds.map Prod.fst

theorem mem_texts_add : text ∈ (add package u ds).texts ↔ text ∈ ds.texts ∨ text = package := by
  induction ds with
  | nil => simp [add, texts]
  | cons first rest ih =>
    obtain ⟨p, us⟩ := first
    unfold texts at ih ⊢
    rw [add]
    split
    · simp only [List.map_cons, List.mem_cons, ih, or_assoc]
    · next heq =>
      obtain rfl : p = package := compare_eq_iff_eq.1 heq
      simp only [List.map_cons, List.mem_cons]
      tauto
    · simp only [List.map_cons, List.mem_cons]
      tauto

/-- A text has an entry when something is filed under it. -/
theorem mem_texts_ofList {us : List (String × Unmet)} :
    text ∈ (ofList us).texts ↔ ∃ u, (text, u) ∈ us := by
  induction us using List.reverseRecOn with
  | nil => simp [ofList, texts]
  | append_singleton us entry ih =>
    obtain ⟨package, u⟩ := entry
    simp only [ofList_concat, mem_texts_add, ih, List.mem_append, List.mem_singleton,
      Prod.mk.injEq]
    constructor
    · rintro (⟨w, hw⟩ | rfl)
      · exact ⟨w, .inl hw⟩
      · exact ⟨u, .inr ⟨rfl, rfl⟩⟩
    · rintro ⟨w, hw | ⟨rfl, _⟩⟩
      · exact .inl ⟨w, hw⟩
      · exact .inr rfl

/-- All that is filed, entry by entry. -/
def filed (ds : Diagnostics) : List (String × Unmet) :=
  ds.flatMap fun (text, us) => us.map fun u => (text, u)

theorem length_filed (ds : Diagnostics) :
    ds.filed.length = (ds.map fun entry => entry.2.length).sum := by
  rw [filed, List.length_flatMap]
  simp only [List.length_map]

theorem filed_cons (p : String) (us : List Unmet) (ds : Diagnostics) :
    filed ((p, us) :: ds) = us.map (fun u => (p, u)) ++ ds.filed := rfl

theorem filed_add_perm : (add package u ds).filed.Perm (ds.filed ++ [(package, u)]) := by
  induction ds with
  | nil => exact List.Perm.refl _
  | cons first rest ih =>
    obtain ⟨p, us⟩ := first
    rw [add]
    split
    · rw [filed_cons, filed_cons, List.append_assoc]
      exact ih.append_left _
    · next heq =>
      obtain rfl : p = package := compare_eq_iff_eq.1 heq
      rw [filed_cons, filed_cons, List.map_append, List.append_assoc, List.append_assoc]
      exact List.perm_append_comm.append_left _
    · show ([(package, u)] ++ filed ((p, us) :: rest)).Perm _
      exact List.perm_append_comm

/-- Filing neither loses nor doubles anything. -/
theorem filed_ofList_perm (us : List (String × Unmet)) : (ofList us).filed.Perm us := by
  induction us using List.reverseRecOn with
  | nil => exact List.Perm.refl _
  | append_singleton us entry ih =>
    rw [ofList_concat]
    exact filed_add_perm.trans (ih.append_right _)

end Diagnostics

/-- The unmet requirements of a package, in the order of declaration. -/
def Verification.unmetOf (v : Verification) (id : Nat) : List Unmet :=
  (v.outcomes.filter fun o => o.owner == id).filterMap Outcome.unmet?

namespace Context

variable {ctx : Context} {passes : Passes} {states : Array PackageState}

/-- A run files under a text what is unmet in any package of this text. -/
theorem under_verify (text : String) :
    (ctx.verify passes states).1.diagnostics.under text =
      (ctx.outcomes.table.filter fun o => ctx.idText o.owner == text).filterMap Outcome.unmet? := by
  show (Diagnostics.ofList (ctx.unmetOf ctx.outcomes.table)).under text = _
  rw [Diagnostics.under_ofList, unmetOf, List.filterMap_filterMap, List.filterMap_filter]
  congr 1
  funext o
  by_cases htext : ctx.idText o.owner = text
  · cases hunmet : o.unmet? <;> simp [htext]
  · cases hunmet : o.unmet? <;> simp [htext]

/-- The texts of a run are those of the packages that have an unmet requirement. -/
theorem mem_texts_verify {text : String} :
    text ∈ (ctx.verify passes states).1.diagnostics.texts ↔
      ∃ p < ctx.packages.size, ctx.idText p = text ∧ HasUnmet ctx.outcomes.table p := by
  show text ∈ (Diagnostics.ofList (ctx.unmetOf ctx.outcomes.table)).texts ↔ _
  simp only [Diagnostics.mem_texts_ofList, unmetOf, List.mem_filterMap, Option.map_eq_some_iff,
    Prod.mk.injEq]
  constructor
  · rintro ⟨u, o, ho, _, hunmet, htext, _⟩
    refine ⟨o.owner, owner_lt_of_mem_table ho, htext, o, ho, rfl, ?_⟩
    exact Outcome.isSome_unmet?.1 (Option.isSome_of_eq_some hunmet)
  · rintro ⟨_, _, htext, o, ho, rfl, hunmet⟩
    obtain ⟨u, hu⟩ := Option.isSome_iff_exists.1 (Outcome.isSome_unmet?.2 hunmet)
    exact ⟨u, o, ho, u, hu, htext, rfl⟩

/-- The entry of a package holds its own unmet requirements and nothing else exactly when no other
package of the same text has any. -/
theorem under_verify_eq_unmetOf_iff (id : Nat) :
    (ctx.verify passes states).1.diagnostics.under (ctx.idText id) =
        (ctx.verify passes states).1.unmetOf id ↔
      ∀ other < ctx.packages.size, ctx.idText other = ctx.idText id → other ≠ id →
        (ctx.verify passes states).1.unmetOf other = [] := by
  have hown : ∀ o : Outcome, (o.owner == id) = true → (ctx.idText o.owner == ctx.idText id) = true := by
    intro o ho
    rw [eq_of_beq ho, beq_self_eq_true]
  rw [under_verify]
  show _ = (ctx.outcomes.table.filter _).filterMap _ ↔ _
  rw [filterMap_filter_eq_iff hown]
  constructor
  · intro h other _ htext hne
    refine List.filterMap_eq_nil_iff.2 fun o ho => ?_
    obtain ⟨hmem, howner⟩ := List.mem_filter.1 ho
    obtain rfl := eq_of_beq howner
    exact h o hmem (beq_of_eq htext) (beq_false_of_ne hne)
  · intro h o ho htext hne
    have hnil := h o.owner (owner_lt_of_mem_table ho) (eq_of_beq htext) (by simpa using hne)
    exact List.filterMap_eq_nil_iff.1 hnil o (List.mem_filter.2 ⟨ho, beq_self_eq_true _⟩)

end Context

end Depcheck
