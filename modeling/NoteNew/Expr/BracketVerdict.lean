import NoteNew.Expr.CheckParentheses

/-!
# The verdict of `check_parentheses`

`checkParentheses_wrapped_iff`: a range is recognised as wrapped exactly when its first and last
tokens are partner brackets around a non-empty range. `checkParentheses_classified_iff`: on a range
that starts with `(` and ends with `)` the reported class is the documented one exactly when the
brackets are balanced or the first one stays open to the end; an imbalance behind the partner of the
first bracket is reported as "not wrapped" (`checkParentheses_hidden_mismatch`).
-/

namespace NoteNew.Expr

open Brackets ParenErrType

/-- A range whose first and last tokens are brackets, with the types in between. -/
theorem Occupies.bracketed_iff {tokens : Tokens} {start end_ : Int} {mid : List Int} :
    Occupies tokens start end_ (bracketed mid) ↔
      typeAt tokens start = some (chr '(') ∧ typeAt tokens end_ = some (chr ')') ∧
        Occupies tokens (start + 1) (end_ - 1) mid := by
  constructor
  · intro h
    have hend : typeAt tokens end_ = some (chr ')') := by
      rw [bracketed, ← List.cons_append] at h
      exact h.typeAt_end
    obtain ⟨hmid, -⟩ := h.tail.append
    have hlen := h.tail.length
    rw [List.length_append, List.length_singleton] at hlen
    refine ⟨h.typeAt_start, hend, hmid.holds, by omega⟩
  · intro h
    obtain ⟨hstart, hend, h⟩ := h
    have hlen := h.length
    have hpos : start + 1 + (mid.length : Int) = end_ := by omega
    have hlast : Holds tokens (start + 1 + mid.length) [chr ')'] := by
      refine ⟨?_, trivial⟩
      rwa [hpos]
    refine ⟨⟨hstart, holds_append.mpr ⟨h.holds, hlast⟩⟩, ?_⟩
    unfold bracketed
    simp only [List.length_cons, List.length_append, List.length_nil]
    omega

/-! ## Wrapped ranges -/

/-- **Wrapped-range recognition**: `check_parentheses` returns `true` exactly when the range is a
non-empty balanced range between partner brackets, and leaves `PAREN_ERR_NONE` exactly then. -/
theorem checkParentheses_wrapped_iff (tokens : Tokens) (start end_ : Int)
    (hin : ∀ i, 0 ≤ i → start ≤ i → i ≤ end_ → (typeAt tokens i).isSome) :
    ∃ ret err, checkParentheses tokens start end_ = some (ret, err) ∧
      (ret = true ↔ 0 ≤ start ∧ start + 2 ≤ end_ ∧ typeAt tokens start = some (chr '(') ∧
        typeAt tokens end_ = some (chr ')') ∧
        ∃ mid, Occupies tokens (start + 1) (end_ - 1) mid ∧ Balanced parenWeight mid) ∧
      (err = errNone ↔ ret = true) ∧
      (ret = true → start + 1 ≤ end_ - 1 ∧
        ∃ mid, Occupies tokens (start + 1) (end_ - 1) mid ∧ Balanced parenWeight mid) := by
  by_cases hrange : start < 0 ∨ end_ < 0 ∨ start > end_
  · refine ⟨false, errInvalidRange, by rw [checkParentheses, if_pos hrange], ?_, by simp, by simp⟩
    simp only [Bool.false_eq_true, false_iff]
    omega
  · obtain ⟨ts, hts⟩ : ∃ ts, Occupies tokens start end_ ts :=
      exists_occupies (by omega) fun i hi hi' => hin i (by omega) hi hi'
    have hlen := hts.length
    have hne : ts ≠ [] := by
      rw [← List.length_pos_iff]
      omega
    -- the verdict of the type list is the right-hand side
    have hiff : wrapErr ts = errNone ↔ 0 ≤ start ∧ start + 2 ≤ end_ ∧
        typeAt tokens start = some (chr '(') ∧ typeAt tokens end_ = some (chr ')') ∧
        ∃ mid, Occupies tokens (start + 1) (end_ - 1) mid ∧ Balanced parenWeight mid := by
      constructor
      · intro herr
        obtain ⟨mid, rfl, hmid, hbal⟩ := exists_of_wrapErr_none herr
        obtain ⟨ho, hc, hinner⟩ := Occupies.bracketed_iff.mp hts
        have hpos := List.length_pos_iff.mpr hmid
        have hinlen := hinner.length
        exact ⟨by omega, by omega, ho, hc, mid, hinner, hbal⟩
      · intro h
        obtain ⟨-, htwo, ho, hc, mid, hinner, hbal⟩ := h
        obtain rfl := hts.unique (Occupies.bracketed_iff.mpr ⟨ho, hc, hinner⟩)
        have hinlen := hinner.length
        have hmid : mid ≠ [] := by
          rw [← List.length_pos_iff]
          omega
        exact (wrapErr_none_iff hmid).mpr hbal
    have hret : (outcome (wrapErr ts)).1 = true ↔ wrapErr ts = errNone := decide_eq_true_iff
    refine ⟨(outcome (wrapErr ts)).1, (outcome (wrapErr ts)).2, ?_, hret.trans hiff, hret.symm, ?_⟩
    · exact checkParentheses_eq (by omega) hne hts
    · intro h
      obtain ⟨-, htwo, -, -, hinner⟩ := (hret.trans hiff).mp h
      exact ⟨by omega, hinner⟩

theorem checkParentheses_wrapped_iff_one :
    ∃ ret err, checkParentheses (.ofTypes [chr '(', tkDec, chr ')']) 0 2 = some (ret, err) ∧
      (ret = true ↔ (0 : Int) ≤ 0 ∧ (0 : Int) + 2 ≤ 2 ∧
        typeAt (.ofTypes [chr '(', tkDec, chr ')']) 0 = some (chr '(') ∧
        typeAt (.ofTypes [chr '(', tkDec, chr ')']) 2 = some (chr ')') ∧
        ∃ mid, Occupies (.ofTypes [chr '(', tkDec, chr ')']) (0 + 1) (2 - 1) mid ∧
          Balanced parenWeight mid) ∧
      (err = errNone ↔ ret = true) ∧
      (ret = true → (0 : Int) + 1 ≤ 2 - 1 ∧
        ∃ mid, Occupies (.ofTypes [chr '(', tkDec, chr ')']) (0 + 1) (2 - 1) mid ∧
          Balanced parenWeight mid) := by
  refine checkParentheses_wrapped_iff _ 0 2 fun i h0 _ h2 => ?_
  obtain rfl | rfl | rfl : i = 0 ∨ i = 1 ∨ i = 2 := by omega
  all_goals decide

/-! ## Error classes -/

/-- The documented classes of a range that starts with `(` and ends with `)`. -/
def ClassifiedAsDocumented (ts : List Int) (out : Bool × ParenErrType) : Prop :=
  (out.2 = errMismatch ↔ ¬ Balanced parenWeight ts) ∧
    (out.2 = errNotWrap ↔ Balanced parenWeight ts ∧ FirstClosesEarly ts) ∧
    (out.1 = true ↔ Balanced parenWeight ts ∧ ¬ FirstClosesEarly ts)

theorem classified_bracketed_iff {mid : List Int} (hne : mid ≠ []) :
    ClassifiedAsDocumented (bracketed mid) (outcome (wrapErr (bracketed mid))) ↔
      Balanced parenWeight (bracketed mid) ∨ ¬ FirstClosesEarly (bracketed mid) := by
  have hret : (outcome (wrapErr (bracketed mid))).1 = true ↔ wrapErr (bracketed mid) = errNone :=
    decide_eq_true_iff
  have hbal := balanced_iff_not_closesEarly (l := mid) neg_one_le_parenWeight parenWeight_close
  rw [ClassifiedAsDocumented, hret, outcome, wrapErr_mismatch_iff hne, wrapErr_notWrap_iff hne,
    wrapErr_none_iff hne, firstClosesEarly_bracketed_iff]
  by_cases hc : ClosesEarly parenWeight 1 (mid ++ [chr ')'])
  · simp only [hc, not_true_eq_false, false_and, hbal, and_true, or_false, true_iff, and_false,
      iff_self]
    tauto
  · have hiff : Balanced parenWeight mid ↔ Balanced parenWeight (bracketed mid) := by
      rw [bracketed, balanced_iff_of_not_closesEarly neg_one_le_parenWeight parenWeight_open
        parenWeight_close hc, hbal, depth_cons, parenWeight_open]
      exact and_iff_right hc
    simp [hc, hiff]

/-- **Error classes**: on a range that starts with `(` and ends with `)` the documented class is
reported exactly when the brackets of the range are balanced or its first bracket stays open up to
the last token. -/
theorem checkParentheses_classified_iff (tokens : Tokens) (start end_ : Int) (ts : List Int)
    (hstart : 0 ≤ start) (hlen : start + 1 < end_) (hopen : typeAt tokens start = some (chr '('))
    (hclose : typeAt tokens end_ = some (chr ')')) (h : Occupies tokens start end_ ts) :
    ∃ out, checkParentheses tokens start end_ = some out ∧
      (ClassifiedAsDocumented ts out ↔ Balanced parenWeight ts ∨ ¬ FirstClosesEarly ts) := by
  have htslen := h.length
  have hne : ts ≠ [] := by
    rw [← List.length_pos_iff]
    omega
  have hhead : ts.head? = some (chr '(') := by
    obtain ⟨t, us, rfl⟩ := List.exists_cons_of_ne_nil hne
    rw [List.head?_cons, ← hopen, h.typeAt_start]
  have hlast : ts.getLast? = some (chr ')') := by
    obtain ⟨vs, v, rfl⟩ := (List.eq_nil_or_concat ts).resolve_left hne
    rw [List.concat_eq_append] at h ⊢
    rw [List.getLast?_concat, ← hclose, h.typeAt_end]
  obtain ⟨mid, rfl⟩ := exists_bracketed hhead hlast
  have hmid : mid ≠ [] := by
    intro h
    subst h
    simp only [bracketed, List.nil_append, List.length_cons, List.length_nil] at htslen
    omega
  exact ⟨_, checkParentheses_eq hstart hne h, classified_bracketed_iff hmid⟩

theorem checkParentheses_classified_iff_one :
    ∃ out, checkParentheses (.ofTypes [chr '(', tkDec, chr ')']) 0 2 = some out ∧
      (ClassifiedAsDocumented [chr '(', tkDec, chr ')'] out ↔
        Balanced parenWeight [chr '(', tkDec, chr ')'] ∨
          ¬ FirstClosesEarly [chr '(', tkDec, chr ')']) :=
  checkParentheses_classified_iff _ 0 2 [chr '(', tkDec, chr ')'] (by decide) (by decide)
    (by decide) (by decide) ⟨by simp only [Holds]; decide, by decide⟩

/-- `(4 + 3)) * ((2 - 1)`, the mismatch of the notes. -/
def hiddenMismatch : List Int :=
  [chr '(', tkDec, chr '+', tkDec, chr ')', chr ')', chr '*', chr '(', chr '(', tkDec, chr '-',
    tkDec, chr ')']

/-- The range `(4 + 3)) * ((2 - 1)` is reported as "not wrapped", against the notes. -/
theorem checkParentheses_hidden_mismatch :
    Occupies (.ofTypes hiddenMismatch) 0 12 hiddenMismatch ∧
      typeAt (.ofTypes hiddenMismatch) 0 = some (chr '(') ∧
      typeAt (.ofTypes hiddenMismatch) 12 = some (chr ')') ∧
      checkParentheses (.ofTypes hiddenMismatch) 0 12 = some (false, errNotWrap) ∧
      ¬ ClassifiedAsDocumented hiddenMismatch (false, errNotWrap) := by
  refine ⟨⟨?_, by decide⟩, by decide, by decide, by decide, ?_⟩
  · simp only [hiddenMismatch, Holds]
    decide
  · intro h
    obtain ⟨hmismatch, -⟩ := h
    -- the prefix `(4 + 3))` closes more than it opens
    refine absurd (hmismatch.mpr fun hbal => ?_) (by decide)
    have hneg := hbal.nonneg (hiddenMismatch.take 6) (List.take_prefix 6 _)
    exact absurd hneg (by decide)

end NoteNew.Expr
