import NoteNew.Expr.MainOperator

/-!
# The old operator finder

`find_main_operator1`, which takes every operator outside brackets for a binary one. On the ranges
where each of them stands behind an operand `find_main_operator` returns the same
(`findMainOperator_refines`): the two loops go through the same states, since the new test of the
token in front never fails there.
-/

namespace NoteNew.Expr

open Brackets

/-- The scan over the remaining `n` tokens from index `i`. -/
def findMainOperator1Loop (tokens : Tokens) : Nat → Int → Int → Int → Option Int
  | 0, _, _, opIndex => some opIndex
  | n + 1, i, balance, opIndex => do
    let type ← typeAt tokens i
    if balance = 0 ∧ isOperator type then
      if opIndex = -1 then findMainOperator1Loop tokens n (i + 1) balance i
      else if hasHigherPrecedence (← typeAt tokens opIndex) type then
        findMainOperator1Loop tokens n (i + 1) balance i
      else findMainOperator1Loop tokens n (i + 1) balance opIndex
    else if type = chr '(' then findMainOperator1Loop tokens n (i + 1) (balance + 1) opIndex
    else if type = chr ')' then findMainOperator1Loop tokens n (i + 1) (balance - 1) opIndex
    else findMainOperator1Loop tokens n (i + 1) balance opIndex

/-- The index of the main operator of `[start, end_]`, signs counted as operators. -/
def findMainOperator1 (tokens : Tokens) (start end_ : Int) : Option Int :=
  if start > end_ then some (-1)
  else findMainOperator1Loop tokens (end_ - start + 1).toNat start 0 (-1)

/-- Every operator outside the brackets of the range stands behind an operand. -/
def NoSigns (tokens : Tokens) (start end_ : Int) : Prop :=
  ∀ i type, TopOperator tokens start end_ i type → FollowsOperand tokens start i

variable {tokens : Tokens} {start end_ i : Int} {ts : List Int}

theorem FollowsOperand.canBeBinaryPrefix (h : FollowsOperand tokens start i) :
    canBeBinaryPrefix tokens (i - 1) start = some true := by
  obtain ⟨hle, t, ht, hend⟩ := h
  unfold NoteNew.Expr.canBeBinaryPrefix
  rw [if_neg (by omega), ht, Option.bind_eq_bind, Option.bind_some, hend]
  rfl

/-- One more token in front of the rest of the range. -/
theorem Occupies.concat {t : Int} (h : Occupies tokens start (i - 1) ts)
    (ht : typeAt tokens i = some t) : Occupies tokens start (i + 1 - 1) (ts ++ [t]) := by
  have hlen := h.length
  have hidx : start + (ts.length : Int) = i := by omega
  refine ⟨holds_append.mpr ⟨h.holds, ?_, trivial⟩, ?_⟩
  · rwa [hidx]
  · rw [List.length_append, List.length_singleton]
    omega

/-- The loops go through the same states: the balance is that of the tokens read. -/
theorem findMainOperatorLoop_eq_loop1 (hsigns : NoSigns tokens start end_) {n : Nat}
    (hn : i + n = end_ + 1) (h : Occupies tokens start (i - 1) ts) (opIndex : Int) :
    findMainOperatorLoop tokens start n i (depth parenWeight ts) opIndex =
      findMainOperator1Loop tokens n i (depth parenWeight ts) opIndex := by
  induction n generalizing i ts opIndex with
  | zero => rfl
  | succ n ih =>
    unfold findMainOperatorLoop findMainOperator1Loop
    cases ht : typeAt tokens i with
    | none => rfl
    | some t =>
      have hlen := h.length
      have hnext := fun opIndex => ih (by omega) (h.concat ht) opIndex
      rw [depth_append, depth_cons, depth_nil, add_zero] at hnext
      simp only [Option.bind_eq_bind, Option.bind_some]
      by_cases ho : t = chr '('
      · subst ho
        have hop : isOperator (chr '(') = false := rfl
        rw [parenWeight_open] at hnext
        simp [hop, hnext]
      · by_cases hc : t = chr ')'
        · subst hc
          have hop : isOperator (chr ')') = false := rfl
          rw [parenWeight_close] at hnext
          simp [hop, hnext, sub_eq_add_neg]
        · rw [parenWeight_other ho hc, add_zero] at hnext
          simp only [if_neg ho, if_neg hc, hnext]
          by_cases htop : depth parenWeight ts = 0 ∧ isOperator t = true
          · have hoperator : TopOperator tokens start end_ i t :=
              ⟨by omega, by omega, ht, htop.2, ts, h, depth_eq_zero_iff.mp htop.1⟩
            have hprefix := (hsigns i t hoperator).canBeBinaryPrefix
            simp only [if_pos htop, hprefix, Option.bind_some, if_true]
          · simp only [if_neg htop]

theorem findMainOperator_eq_findMainOperator1 (hsigns : NoSigns tokens start end_) :
    findMainOperator tokens start end_ = findMainOperator1 tokens start end_ := by
  unfold findMainOperator findMainOperator1
  split
  · rfl
  · have hempty : Occupies tokens start (start - 1) [] := ⟨trivial, by simp⟩
    exact findMainOperatorLoop_eq_loop1 hsigns (by omega) hempty (-1)

/-- On a range inside the array the function returns. -/
theorem exists_findMainOperator (hin : ∀ i, start ≤ i → i ≤ end_ → (typeAt tokens i).isSome) :
    ∃ op, findMainOperator tokens start end_ = some op := by
  by_cases hle : start ≤ end_
  · obtain ⟨t, ht⟩ := Option.isSome_iff_exists.mp (hin start le_rfl hle)
    obtain ⟨ts, hts⟩ := exists_occupies (by omega) hin
    exact ⟨_, findMainOperator_eq (typeAt_nonneg ht) hts⟩
  · refine ⟨-1, ?_⟩
    rw [findMainOperator, if_pos (by omega)]

/-- **The new finder refines the old one**: on every range without signs outside its brackets the
two agree, and inside the array they return. -/
theorem findMainOperator_refines (tokens : Tokens) (start end_ : Int)
    (hsigns : NoSigns tokens start end_) :
    findMainOperator tokens start end_ = findMainOperator1 tokens start end_ ∧
      ((∀ i, start ≤ i → i ≤ end_ → (typeAt tokens i).isSome) →
        ∃ op, findMainOperator tokens start end_ = some op ∧
          findMainOperator1 tokens start end_ = some op) := by
  have heq := findMainOperator_eq_findMainOperator1 hsigns
  refine ⟨heq, fun hin => ?_⟩
  obtain ⟨op, hop⟩ := exists_findMainOperator hin
  exact ⟨op, hop, heq ▸ hop⟩

theorem noSigns_sum : NoSigns sum 0 2 := by
  intro i type h
  have hle := h.le
  have hend := h.le_end
  obtain rfl | rfl | rfl : i = 0 ∨ i = 1 ∨ i = 2 := by omega
  · obtain rfl : tkDec = type := Option.some.inj h.read
    cases h.operator
  · exact ⟨by omega, tkDec, rfl, rfl⟩
  · obtain rfl : tkDec = type := Option.some.inj h.read
    cases h.operator

theorem findMainOperator_refines_sum :
    findMainOperator sum 0 2 = findMainOperator1 sum 0 2 ∧
      ((∀ i, 0 ≤ i → i ≤ 2 → (typeAt sum i).isSome) →
        ∃ op, findMainOperator sum 0 2 = some op ∧ findMainOperator1 sum 0 2 = some op) :=
  findMainOperator_refines sum 0 2 noSigns_sum

end NoteNew.Expr
