/-!
# Computations that stop

A computation that may stop gives an option, and `none` says that it has. `check` stops where a
condition fails; `checkIf` leaves out what is not wanted. A fold, a map or a filter whose steps go on
goes on to its end.
-/

namespace Depcheck

variable {α β : Type}

/-- `a`, if the condition holds. -/
def check (c : Prop) [Decidable c] (a : α) : Option α := if c then some a else none

theorem check_eq_some {c : Prop} [Decidable c] (h : c) (a : α) : check c a = some a := if_pos h

/-- What is found, unless it is not looked for. -/
def checkIf (wanted : Bool) (found? : Option α) (otherwise : α) : Option α :=
  if wanted then found? else some otherwise

theorem checkIf_eq_some {wanted : Bool} {found? : Option α} {found : α}
    (h : wanted = true → found? = some found) (otherwise : α) :
    checkIf wanted found? otherwise = some (if wanted then found else otherwise) := by
  unfold checkIf
  split
  · next hwanted => exact h hwanted
  · rfl

theorem foldlM_eq_some {step? : β → α → Option β} {step : β → α → β} (inv : β → Prop)
    {l : List α} {b : β} (h : inv b)
    (hstep : ∀ b, inv b → ∀ a ∈ l, step? b a = some (step b a) ∧ inv (step b a)) :
    l.foldlM step? b = some (l.foldl step b) := by
  induction l generalizing b with
  | nil => rfl
  | cons a rest ih =>
    obtain ⟨heq, hinv⟩ := hstep b h a List.mem_cons_self
    rw [List.foldlM_cons, heq, List.foldl_cons]
    exact ih hinv fun b hb x hx => hstep b hb x (List.mem_cons_of_mem a hx)

theorem mapM_eq_some {f? : α → Option β} {f : α → β} {l : List α}
    (h : ∀ a ∈ l, f? a = some (f a)) : l.mapM f? = some (l.map f) := by
  induction l with
  | nil => rfl
  | cons a rest ih =>
    rw [List.mapM_cons, h a List.mem_cons_self, ih fun x hx => h x (List.mem_cons_of_mem a hx)]
    rfl

theorem filterM_eq_some {p? : α → Option Bool} {p : α → Bool} {l : List α}
    (h : ∀ a ∈ l, p? a = some (p a)) : l.filterM p? = some (l.filter p) := by
  have haux : ∀ found, l.filterAuxM p? found = some ((l.filter p).reverse ++ found) := by
    induction l with
    | nil => exact fun found => rfl
    | cons a rest ih =>
      intro found
      rw [List.filterAuxM, h a List.mem_cons_self, Option.bind_eq_bind, Option.bind_some,
        ih fun x hx => h x (List.mem_cons_of_mem a hx)]
      cases hp : p a with
      | true => simp [hp]
      | false => simp [hp]
  simp [List.filterM, haux]

end Depcheck
