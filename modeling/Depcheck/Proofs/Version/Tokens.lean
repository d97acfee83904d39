import Mathlib
import Depcheck.Proofs.Text.Ends
import Depcheck.Proofs.Version.Order
import Depcheck.Text.Digits

/-!
# The tokens of a version text

What a version text says is in its tokens: the longest runs of ASCII digits, the longest runs of
ASCII letters, and the tildes one by one. Tokens are ordered without any regard to how texts are
scanned: runs of digits by their values, which have no bound, letters below digits, a tilde below
everything and the end of the text right above it. The comparison of two texts is the lexicographic
one of their tokens (`compareText_eq_compareTokens`), and they compare equal exactly when their
tokens agree up to leading zeros.
-/

namespace Depcheck

/-! ## Values of digits -/

namespace Text

open Nat (ofDigitChars ofDigitChars_cons ofDigitChars_eq_foldl ofDigitChars_eq_ofDigitChars_zero)

theorem decimalValue_cons (c : Char) (s : List Char) :
    decimalValue (c :: s) = 10 ^ s.length * (c.toNat - '0'.toNat) + decimalValue s := by
  have hvalue (t : List Char) : decimalValue t = ofDigitChars 10 t 0 :=
    (ofDigitChars_eq_foldl (b := 10)).symm
  rw [hvalue, hvalue, ofDigitChars_cons, ofDigitChars_eq_ofDigitChars_zero, Nat.mul_zero,
    Nat.zero_add]

theorem decimalValue_lt {s : List Char} (h : ∀ c ∈ s, c.isDigit = true) :
    decimalValue s < 10 ^ s.length := by
  induction s with
  | nil => decide
  | cons c rest ih =>
    have hc : c.toNat ≤ '9'.toNat := (Char.isDigit_iff_toNat.1 (h c List.mem_cons_self)).2
    have hrest := ih fun d hd => h d (List.mem_cons_of_mem c hd)
    have hmul : 10 ^ rest.length * (c.toNat - '0'.toNat) ≤ 10 ^ rest.length * 9 :=
      Nat.mul_le_mul_left _ (Nat.sub_le_iff_le_add.2 hc)
    rw [decimalValue_cons, List.length_cons, Nat.pow_succ]
    omega

/-- The first digit that differs decides between runs of one length. -/
theorem decimalValue_cons_lt {c d : Char} {s t : List Char} (hc : c.isDigit = true) (hcd : c < d)
    (hs : ∀ x ∈ s, x.isDigit = true) (hlen : s.length = t.length) :
    decimalValue (c :: s) < decimalValue (d :: t) := by
  have hlo : '0'.toNat ≤ c.toNat := (Char.isDigit_iff_toNat.1 hc).1
  have hlt : c.toNat < d.toNat := UInt32.lt_iff_toNat_lt.1 (Char.lt_def.1 hcd)
  have hmul : 10 ^ s.length * (c.toNat - '0'.toNat + 1) ≤ 10 ^ s.length * (d.toNat - '0'.toNat) := by
    apply Nat.mul_le_mul_left
    omega
  rw [Nat.mul_succ] at hmul
  have hvalue := decimalValue_lt hs
  rw [decimalValue_cons, decimalValue_cons, ← hlen]
  omega

/-- Runs of digits of one length are ordered like their values. -/
theorem compare_decimalValue_of_length_eq {s t : List Char} (hs : ∀ c ∈ s, c.isDigit = true)
    (ht : ∀ c ∈ t, c.isDigit = true) (hlen : s.length = t.length) :
    compare (decimalValue s) (decimalValue t) = compare s t := by
  induction s generalizing t with
  | nil =>
    obtain rfl := List.eq_nil_of_length_eq_zero hlen.symm
    rfl
  | cons c s ih =>
    cases t with
    | nil => cases hlen
    | cons d t =>
      have htail : s.length = t.length := Nat.succ.inj hlen
      obtain ⟨hc, hs⟩ := List.forall_mem_cons.1 hs
      obtain ⟨hd, ht⟩ := List.forall_mem_cons.1 ht
      rw [List.compare_cons_cons]
      cases hcd : compare c d with
      | lt =>
        have hlt : c < d := compareOfLessAndEq_eq_lt.1 hcd
        exact Nat.compare_eq_lt.2 (decimalValue_cons_lt hc hlt hs htail)
      | eq =>
        have heq : c = d := Std.compare_eq_iff_eq.1 hcd
        rw [Ordering.eq_then, ← ih hs ht htail, decimalValue_cons, decimalValue_cons, heq, htail,
          Nat.compare_eq_ite_lt, Nat.compare_eq_ite_lt]
        simp only [Nat.add_lt_add_iff_left]
      | gt =>
        have hdc : compare d c = .lt := Std.OrientedCmp.gt_iff_lt.1 hcd
        have hlt : d < c := compareOfLessAndEq_eq_lt.1 hdc
        exact Nat.compare_eq_gt.2 (decimalValue_cons_lt hd hlt ht htail.symm)

end Text

namespace Version

open Text (decimalValue decimalValue_cons decimalValue_lt compare_decimalValue_of_length_eq)

theorem decimalValue_significant (s : List Char) :
    decimalValue (significant s) = decimalValue s := by
  induction s with
  | nil => rfl
  | cons c rest ih =>
    by_cases hc : c = '0'
    · subst hc
      rw [decimalValue_cons, Nat.sub_self, Nat.mul_zero, Nat.zero_add, ← ih]
      rfl
    · rw [significant, List.dropWhile_cons_of_neg (by simpa using hc)]

theorem isDigit_of_mem_significant {s : List Char} (h : ∀ c ∈ s, c.isDigit = true) {c : Char}
    (hc : c ∈ significant s) : c.isDigit = true :=
  h c ((List.dropWhile_sublist _).subset hc)

/-- Of two runs without leading zeros the longer one has the greater value. -/
theorem decimalValue_lt_of_length_lt {s t : List Char} (hs : ∀ c ∈ s, c.isDigit = true)
    (ht : ∀ c ∈ t, c.isDigit = true) (hlen : (significant s).length < (significant t).length) :
    decimalValue s < decimalValue t := by
  rw [← decimalValue_significant s, ← decimalValue_significant t]
  cases hsig : significant t with
  | nil =>
    rw [hsig] at hlen
    cases hlen
  | cons c rest =>
    have hdigit : c.isDigit = true := isDigit_of_mem_significant ht (hsig ▸ List.mem_cons_self)
    have hhead : (c == '0') = false :=
      Text.eq_false_of_mem_head?_dropWhile (p := (· == '0')) (s := t) (by rw [← significant, hsig]; rfl)
    have hne : c ≠ '0' := by simpa using hhead
    have hlo : '0'.toNat ≤ c.toNat := (Char.isDigit_iff_toNat.1 hdigit).1
    have hpos : c.toNat ≠ '0'.toNat := fun heq => hne (Char.toNat_inj.1 heq)
    rw [hsig, List.length_cons] at hlen
    calc decimalValue (significant s)
        < 10 ^ (significant s).length := decimalValue_lt fun c => isDigit_of_mem_significant hs
      _ ≤ 10 ^ rest.length := Nat.pow_le_pow_right (by decide) (Nat.le_of_lt_succ hlen)
      _ ≤ 10 ^ rest.length * (c.toNat - '0'.toNat) := Nat.le_mul_of_pos_right _ (by omega)
      _ ≤ decimalValue (c :: rest) := by
        rw [decimalValue_cons]
        exact Nat.le_add_right _ _

/-- Runs of digits are ordered by their values. -/
theorem compareDigits_eq {s t : List Char} (hs : ∀ c ∈ s, c.isDigit = true)
    (ht : ∀ c ∈ t, c.isDigit = true) :
    compareDigits s t = compare (decimalValue s) (decimalValue t) := by
  rw [compareDigits]
  cases hlen : compare (significant s).length (significant t).length with
  | lt =>
    have hlt := decimalValue_lt_of_length_lt hs ht (Nat.compare_eq_lt.1 hlen)
    exact (Nat.compare_eq_lt.2 hlt).symm
  | eq =>
    rw [Ordering.eq_then, ← decimalValue_significant s, ← decimalValue_significant t]
    exact (compare_decimalValue_of_length_eq (fun c => isDigit_of_mem_significant hs)
      (fun c => isDigit_of_mem_significant ht) (Nat.compare_eq_eq.1 hlen)).symm
  | gt =>
    have hlt := decimalValue_lt_of_length_lt ht hs (Nat.compare_eq_gt.1 hlen)
    exact (Nat.compare_eq_gt.2 hlt).symm

/-- Runs of digits compare equal when they agree without their leading zeros. -/
theorem compareDigits_eq_eq_iff (s t : List Char) :
    compareDigits s t = .eq ↔ significant s = significant t := by
  rw [compareDigits, Ordering.then_eq_eq, Std.compare_eq_iff_eq, Std.compare_eq_iff_eq]
  constructor
  · exact And.right
  · intro h
    exact ⟨congrArg List.length h, h⟩

/-! ## Tokens -/

/-- A piece of a version text that takes part in comparisons. -/
inductive Token where
  | tilde
  | letters (run : List Char)
  | digits (run : List Char)
deriving Repr, DecidableEq

/-- Does the run of `c` go on with `d`? Both are digits, or both are letters. -/
def continues (c d : Char) : Bool := c.isDigit && d.isDigit || c.isAlpha && d.isAlpha

/-- What a run stands for; a character of another kind stands for nothing, the tilde apart. -/
def Token.ofRun? : List Char → Option Token
  | [] => none
  | c :: rest =>
    if c = '~' then some .tilde
    else if c.isDigit then some (.digits (c :: rest))
    else if c.isAlpha then some (.letters (c :: rest))
    else none

/-- The tokens of a version text, one for each of its runs. -/
def tokens (s : List Char) : List Token := (s.splitBy continues).filterMap Token.ofRun?

namespace Token

/-- A tilde comes before letters, and letters before digits; letters are ordered by their text,
digits by their value. -/
def cmp : Token → Token → Ordering
  | tilde, tilde => .eq
  | tilde, _ => .lt
  | _, tilde => .gt
  | letters s, letters t => compare s t
  | letters _, digits _ => .lt
  | digits _, letters _ => .gt
  | digits s, digits t => compare (decimalValue s) (decimalValue t)

/-- Drops the zeros that lead a run of digits. -/
def withoutZeros : Token → Token
  | digits run => digits (Version.significant run)
  | t => t

end Token

/-- Compares two rows of tokens from left to right. The end of a row comes after a tilde and before
every other token. -/
def compareTokens : List Token → List Token → Ordering
  | [], [] => .eq
  | [], .tilde :: _ => .gt
  | [], _ :: _ => .lt
  | .tilde :: _, [] => .lt
  | _ :: _, [] => .gt
  | t :: ts, u :: us => (t.cmp u).then (compareTokens ts us)

/-! ## Tokens and segments -/

theorem isAlpha_of_isDigit {c : Char} (h : c.isDigit = true) : c.isAlpha = false := by
  have hhi : c.toNat ≤ '9'.toNat := (Char.isDigit_iff_toNat.1 h).2
  have hlt : c.toNat < 'A'.toNat := Nat.lt_of_le_of_lt hhi (by decide)
  simp only [Char.isAlpha, Char.isUpper, Char.isLower, UInt32.le_iff_toNat_le,
    Bool.or_eq_false_iff, Bool.and_eq_false_iff, decide_eq_false_iff_not]
  constructor
  · intro hupper
    exact absurd hupper.1 (Nat.not_le_of_lt hlt)
  · exact .inl (Nat.not_le_of_lt (Nat.lt_trans hlt (by decide)))

theorem continues_of_isDigit {c : Char} (h : c.isDigit = true) (d : Char) :
    continues c d = d.isDigit := by
  simp [continues, h, isAlpha_of_isDigit h]

theorem continues_of_isAlpha {c : Char} (h : c.isAlpha = true) (d : Char) :
    continues c d = d.isAlpha := by
  have hdigit : c.isDigit = false := by
    cases hc : c.isDigit with
    | false => rfl
    | true => rw [isAlpha_of_isDigit hc] at h; cases h
  simp [continues, h, hdigit]

/-- A run reaches as far as its kind of characters. -/
theorem splitBy_continues_run {p : Char → Bool} {c : Char} (hc : p c = true)
    (hp : ∀ a, p a = true → ∀ b, continues a b = p b) (s : List Char) :
    (c :: s).splitBy continues =
      (c :: s).takeWhile p :: (s.dropWhile p).splitBy continues := by
  have hcut : c :: s = (c :: s).takeWhile p ++ s.dropWhile p := by
    rw [← List.dropWhile_cons_of_pos hc, List.takeWhile_append_dropWhile]
  have hrun : ∀ a ∈ (c :: s).takeWhile p, p a = true := fun a ha => List.mem_takeWhile_imp ha
  have hchain : ((c :: s).takeWhile p).IsChain fun a b => continues a b = true := by
    apply List.Pairwise.isChain
    apply List.pairwise_of_forall_mem_list
    intro a ha b hb
    rw [hp a (hrun a ha), hrun b hb]
  have hstop : ∀ a ∈ ((c :: s).takeWhile p).getLast?, ∀ b ∈ (s.dropWhile p).head?,
      continues a b = false := by
    intro a ha b hb
    rw [hp a (hrun a (List.mem_of_mem_getLast? ha)), Text.eq_false_of_mem_head?_dropWhile hb]
  have hne : (c :: s).takeWhile p ≠ [] := by
    rw [List.takeWhile_cons_of_pos hc]
    exact List.cons_ne_nil _ _
  calc (c :: s).splitBy continues
      = ((c :: s).takeWhile p ++ s.dropWhile p).splitBy continues := by rw [← hcut]
    _ = _ := by
      rw [List.splitBy_append hstop, List.splitBy_of_isChain hne hchain]
      rfl

/-- A character that is neither digit nor letter is a run of its own. -/
theorem splitBy_continues_single {c : Char} (h : c.isAlphanum = false) (s : List Char) :
    (c :: s).splitBy continues = [c] :: s.splitBy continues := by
  have hstop : ∀ a ∈ [c].getLast?, ∀ b ∈ s.head?, continues a b = false := by
    intro a ha b _
    obtain rfl : c = a := Option.some.inj ha
    obtain ⟨halpha, hdigit⟩ := Bool.or_eq_false_iff.1 h
    rw [continues, halpha, hdigit]
    rfl
  exact List.splitBy_append hstop

theorem tokens_separator {c : Char} (h : isSeparator c = true) (s : List Char) :
    tokens (c :: s) = tokens s := by
  obtain ⟨halnum, htilde⟩ : c.isAlphanum = false ∧ c ≠ '~' := by
    simpa [isSeparator] using h
  obtain ⟨halpha, hdigit⟩ := Bool.or_eq_false_iff.1 halnum
  rw [tokens, splitBy_continues_single halnum, List.filterMap_cons_none]
  · rfl
  · rw [Token.ofRun?, if_neg htilde, if_neg (by rw [hdigit]; decide), if_neg (by rw [halpha]; decide)]

theorem tokens_dropWhile (s : List Char) : tokens (s.dropWhile isSeparator) = tokens s := by
  induction s with
  | nil => rfl
  | cons c rest ih =>
    by_cases hc : isSeparator c = true
    · rw [List.dropWhile_cons_of_pos hc, ih, tokens_separator hc]
    · rw [List.dropWhile_cons_of_neg hc]

/-- The first run of a text gives its first token. -/
theorem tokens_of_run {s run rest : List Char} {t : Token}
    (hs : s.splitBy continues = run :: rest.splitBy continues) (ht : Token.ofRun? run = some t) :
    tokens s = t :: tokens rest := by
  rw [tokens, hs, List.filterMap_cons_some ht]
  rfl

theorem tokens_tilde (s : List Char) : tokens ('~' :: s) = .tilde :: tokens s :=
  tokens_of_run (splitBy_continues_single (by decide) s) rfl

theorem tokens_digit {c : Char} (hc : c ≠ '~') (h : c.isDigit = true) (s : List Char) :
    tokens (c :: s) =
      .digits ((c :: s).takeWhile Char.isDigit) :: tokens (s.dropWhile Char.isDigit) := by
  apply tokens_of_run (splitBy_continues_run h (fun a => continues_of_isDigit) s)
  rw [List.takeWhile_cons_of_pos h, Token.ofRun?, if_neg hc, if_pos h]

theorem tokens_letter {c : Char} (hc : c ≠ '~') (h : c.isAlpha = true) (s : List Char) :
    tokens (c :: s) =
      .letters ((c :: s).takeWhile Char.isAlpha) :: tokens (s.dropWhile Char.isAlpha) := by
  have hdigit : ¬c.isDigit = true := fun hd => by simp [isAlpha_of_isDigit hd] at h
  apply tokens_of_run (splitBy_continues_run h (fun a => continues_of_isAlpha) s)
  rw [List.takeWhile_cons_of_pos h, Token.ofRun?, if_neg hc, if_neg hdigit, if_pos h]

/-- A token as one of the pieces that the scan compares. -/
def Token.toSegment : Token → Segment
  | tilde => .tilde
  | letters run => .letters run
  | digits run => .digits run

/-- A character that no scan passes over, and neither tilde nor digit, is a letter. -/
theorem isAlpha_of_head {s s' : List Char} {c : Char} (h : s.dropWhile isSeparator = c :: s')
    (hc : c ≠ '~') (hdigit : ¬c.isDigit = true) : c.isAlpha = true := by
  have hhead : isSeparator c = false :=
    Text.eq_false_of_mem_head?_dropWhile (s := s) (by rw [h]; rfl)
  simpa [isSeparator, Char.isAlphanum, hc, hdigit] using hhead

/-- The scan takes a text apart into its tokens. -/
theorem segments_eq_tokens (s : List Char) :
    segments s = (tokens s).map Token.toSegment ++ [.stop] := by
  fun_induction segments s with
  | case1 s hs =>
    rw [← tokens_dropWhile, hs]
    rfl
  | case2 s s' hs ih =>
    rw [← tokens_dropWhile, hs, tokens_tilde, ih]
    rfl
  | case3 s c s' hs hc hd ih =>
    rw [← tokens_dropWhile s, hs, tokens_digit hc hd, ih]
    rfl
  | case4 s c s' hs hc hd ih =>
    rw [← tokens_dropWhile s, hs, tokens_letter hc (isAlpha_of_head hs hc hd), ih]
    rfl

/-! ## The order of tokens -/

/-- A run of digits has nothing but digits. -/
def Token.Proper : Token → Prop
  | digits run => ∀ c ∈ run, c.isDigit = true
  | _ => True

theorem proper_of_mem_tokens (s : List Char) : ∀ t ∈ tokens s, t.Proper := by
  fun_induction segments s with
  | case1 s hs =>
    rw [← tokens_dropWhile, hs]
    intro t ht
    cases ht
  | case2 s s' hs ih =>
    rw [← tokens_dropWhile, hs, tokens_tilde]
    exact List.forall_mem_cons.2 ⟨trivial, ih⟩
  | case3 s c s' hs hc hd ih =>
    rw [← tokens_dropWhile s, hs, tokens_digit hc hd]
    exact List.forall_mem_cons.2 ⟨fun a ha => List.mem_takeWhile_imp ha, ih⟩
  | case4 s c s' hs hc hd ih =>
    rw [← tokens_dropWhile s, hs, tokens_letter hc (isAlpha_of_head hs hc hd)]
    exact List.forall_mem_cons.2 ⟨trivial, ih⟩

variable {t u : Token} {ts us : List Token}

theorem Token.compare_toSegment (ht : t.Proper) (hu : u.Proper) :
    compare t.toSegment u.toSegment = t.cmp u := by
  cases t with
  | tilde => cases u <;> rfl
  | letters run =>
    cases u with
    | letters run' => exact Segment.compare_letters run run'
    | tilde => rfl
    | digits run' => rfl
  | digits run =>
    cases u with
    | digits run' => exact (Segment.compare_digits run run').trans (compareDigits_eq ht hu)
    | tilde => rfl
    | letters run' => rfl

/-- The end of a text is ordered among the tokens of another. -/
theorem Token.compare_stop (t : Token) (as bs : List Segment) :
    compare (.stop :: as) (t.toSegment :: bs) = compareTokens [] [t] ∧
      compare (t.toSegment :: as) (.stop :: bs) = compareTokens [t] [] := by
  cases t with
  | tilde => exact ⟨rfl, rfl⟩
  | letters run => exact ⟨rfl, rfl⟩
  | digits run => exact ⟨rfl, rfl⟩

theorem compareTokens_nil_cons : compareTokens [] (u :: us) = compareTokens [] [u] := by
  cases u <;> rfl

theorem compareTokens_cons_nil : compareTokens (t :: ts) [] = compareTokens [t] [] := by
  cases t <;> rfl

theorem compareTokens_cons_cons :
    compareTokens (t :: ts) (u :: us) = (t.cmp u).then (compareTokens ts us) := by
  cases t <;> rfl

/-- Rows of segments that stand for tokens are ordered like these. -/
theorem compare_map_toSegment (hts : ∀ t ∈ ts, t.Proper) (hus : ∀ u ∈ us, u.Proper) :
    compare (ts.map Token.toSegment ++ [.stop]) (us.map Token.toSegment ++ [.stop]) =
      compareTokens ts us := by
  induction ts generalizing us with
  | nil =>
    cases us with
    | nil => rfl
    | cons u us => rw [compareTokens_nil_cons]; exact (u.compare_stop _ _).1
  | cons t ts ih =>
    cases us with
    | nil => rw [compareTokens_cons_nil]; exact (t.compare_stop _ _).2
    | cons u us =>
      obtain ⟨ht, hts⟩ := List.forall_mem_cons.1 hts
      obtain ⟨hu, hus⟩ := List.forall_mem_cons.1 hus
      rw [List.map_cons, List.map_cons, List.cons_append, List.cons_append, List.compare_cons_cons,
        Token.compare_toSegment ht hu, ih hts hus, compareTokens_cons_cons]

/-- Tokens compare equal when they agree without leading zeros. -/
theorem Token.cmp_eq_eq_iff (ht : t.Proper) (hu : u.Proper) :
    t.cmp u = .eq ↔ t.withoutZeros = u.withoutZeros := by
  cases t with
  | tilde => cases u <;> simp [cmp, withoutZeros]
  | letters run => cases u <;> simp [cmp, withoutZeros]
  | digits run =>
    cases u with
    | digits run' =>
      rw [cmp, ← compareDigits_eq ht hu, compareDigits_eq_eq_iff, withoutZeros, withoutZeros,
        digits.injEq]
    | tilde => simp [cmp, withoutZeros]
    | letters run' => simp [cmp, withoutZeros]

theorem compareTokens_eq_eq_iff (hts : ∀ t ∈ ts, t.Proper) (hus : ∀ u ∈ us, u.Proper) :
    compareTokens ts us = .eq ↔ ts.map Token.withoutZeros = us.map Token.withoutZeros := by
  induction ts generalizing us with
  | nil =>
    cases us with
    | nil => simp [compareTokens]
    | cons u us => cases u <;> simp [compareTokens]
  | cons t ts ih =>
    cases us with
    | nil => cases t <;> simp [compareTokens]
    | cons u us =>
      obtain ⟨ht, hts⟩ := List.forall_mem_cons.1 hts
      obtain ⟨hu, hus⟩ := List.forall_mem_cons.1 hus
      rw [compareTokens_cons_cons, Ordering.then_eq_eq, Token.cmp_eq_eq_iff ht hu, ih hts hus,
        List.map_cons, List.map_cons, List.cons.injEq]

/-- Comparing two version texts is comparing their tokens, and texts compare equal when their
tokens agree up to leading zeros, and only then. -/
theorem compareText_eq_compareTokens (a b : String) :
    compareText a b = compareTokens (tokens a.toList) (tokens b.toList) ∧
      (compareText a b = .eq ↔
        (tokens a.toList).map Token.withoutZeros = (tokens b.toList).map Token.withoutZeros) := by
  have heq : compareText a b = compareTokens (tokens a.toList) (tokens b.toList) := by
    rw [compareText, compareChars_eq, segments_eq_tokens, segments_eq_tokens]
    exact compare_map_toSegment (proper_of_mem_tokens _) (proper_of_mem_tokens _)
  constructor
  · exact heq
  · rw [heq]
    exact compareTokens_eq_eq_iff (proper_of_mem_tokens _) (proper_of_mem_tokens _)

/-- Runs end where the kind of character changes, and zeros at their start do not count. -/
example :
    tokens "1.0a~~rc-007".toList =
        [.digits ['1'], .digits ['0'], .letters ['a'], .tilde, .tilde, .letters ['r', 'c'],
          .digits ['0', '0', '7']] ∧
      compareTokens (tokens "rc-007".toList) (tokens "rc7.".toList) = .eq := by
  decide

end Version

end Depcheck
