import NoteNew.Brackets.Depth
import NoteNew.Expr.Token

/-!
# `check_parentheses`

The scan that decides whether a range of tokens is one bracketed expression, with the error class it
reports otherwise. `wrapErr` is the same decision on the list of token types, `checkParentheses_eq`
the refinement between the two. The verdict is then read off the bracket depth:
`wrapErr_notWrap_iff`, `wrapErr_none_iff` and `wrapErr_mismatch_iff` give the three outcomes of the
scan of a range that starts with `(` and ends with `)`.
-/

namespace NoteNew.Expr

open Brackets

/-- `PAREN_ERR_NONE`, `PAREN_ERR_MISMATCH`, `PAREN_ERR_EMPTY`, `PAREN_ERR_NOT_WRAP` and
`PAREN_ERR_INVALID_RANGE`. -/
inductive ParenErrType where
  | errNone
  | errMismatch
  | errEmpty
  | errNotWrap
  | errInvalidRange
deriving DecidableEq, Repr

open ParenErrType

/-! ## The function -/

/-- The scan over the remaining `n` tokens from index `i`; `none` is a read outside the array. -/
def checkParenthesesLoop (tokens : Tokens) (end_ : Int) :
    Nat → Int → Int → Option (Bool × ParenErrType)
  | 0, _, balance =>
    if balance ≠ 0 then some (false, errMismatch) else some (true, errNone)
  | n + 1, i, balance => do
    let type ← typeAt tokens i
    if type = chr '(' then
      checkParenthesesLoop tokens end_ n (i + 1) (balance + 1)
    else if type = chr ')' then
      if balance - 1 < 0 then some (false, errMismatch)
      else if balance - 1 = 0 ∧ i < end_ then some (false, errNotWrap)
      else checkParenthesesLoop tokens end_ n (i + 1) (balance - 1)
    else checkParenthesesLoop tokens end_ n (i + 1) balance

/-- The returned value and the error class left in `*err_type`. -/
def checkParentheses (tokens : Tokens) (start end_ : Int) : Option (Bool × ParenErrType) :=
  if start < 0 ∨ end_ < 0 ∨ start > end_ then some (false, errInvalidRange)
  else do
    -- `tokens[end]` is read only when the first token is `(`
    if (← typeAt tokens start) ≠ chr '(' then some (false, errNotWrap)
    else if (← typeAt tokens end_) ≠ chr ')' then some (false, errNotWrap)
    else if start + 1 = end_ then some (false, errEmpty)
    else checkParenthesesLoop tokens end_ (end_ - start + 1).toNat start 0

/-! ## The decision on token types -/

/-- The weight of a token type in the bracket count. -/
def parenWeight (type : Int) : Int :=
  if type = chr '(' then 1 else if type = chr ')' then -1 else 0

@[simp] theorem parenWeight_open : parenWeight (chr '(') = 1 := rfl

@[simp] theorem parenWeight_close : parenWeight (chr ')') = -1 := rfl

theorem parenWeight_other {type : Int} (ho : type ≠ chr '(') (hc : type ≠ chr ')') :
    parenWeight type = 0 := by
  simp [parenWeight, ho, hc]

theorem neg_one_le_parenWeight (type : Int) : -1 ≤ parenWeight type := by
  unfold parenWeight
  split
  · decide
  · split <;> decide

/-- The running scan on a list of types. -/
def wrapScan : Int → List Int → ParenErrType
  | balance, [] => if balance ≠ 0 then errMismatch else errNone
  | balance, type :: ts =>
    if type = chr '(' then wrapScan (balance + 1) ts
    else if type = chr ')' then
      if balance - 1 < 0 then errMismatch
      else if balance - 1 = 0 ∧ ts ≠ [] then errNotWrap
      else wrapScan (balance - 1) ts
    else wrapScan balance ts

/-- The error class of a non-empty list of types. -/
def wrapErr (ts : List Int) : ParenErrType :=
  if ts.head? ≠ some (chr '(') ∨ ts.getLast? ≠ some (chr ')') then errNotWrap
  else if ts.length = 2 then errEmpty
  else wrapScan 0 ts

/-- The returned value goes with the error class. -/
def outcome (err : ParenErrType) : Bool × ParenErrType :=
  (err = errNone, err)

theorem checkParenthesesLoop_eq {tokens : Tokens} {end_ i : Int} {ts : List Int}
    (h : Occupies tokens i end_ ts) (balance : Int) :
    checkParenthesesLoop tokens end_ ts.length i balance =
      some (outcome (wrapScan balance ts)) := by
  induction ts generalizing i balance with
  | nil =>
    simp only [List.length_nil, checkParenthesesLoop, wrapScan]
    split <;> rfl
  | cons t ts ih =>
    have hlast : i < end_ ↔ ts ≠ [] := by
      have hlen := h.length
      rw [List.length_cons] at hlen
      rw [← List.length_pos_iff]
      omega
    simp only [List.length_cons, checkParenthesesLoop, wrapScan, h.typeAt_start,
      Option.bind_eq_bind, Option.bind_some, ih h.tail, hlast]
    split
    · rfl
    · split
      · split
        · rfl
        · split <;> rfl
      · rfl

/-- On a range inside the array the function is the decision on the types of the range. -/
theorem checkParentheses_eq {tokens : Tokens} {start end_ : Int} {ts : List Int}
    (hstart : 0 ≤ start) (hne : ts ≠ []) (h : Occupies tokens start end_ ts) :
    checkParentheses tokens start end_ = some (outcome (wrapErr ts)) := by
  obtain ⟨t, us, rfl⟩ := List.exists_cons_of_ne_nil hne
  have hlen := h.length
  rw [List.length_cons] at hlen
  have hrange : ¬ (start < 0 ∨ end_ < 0 ∨ start > end_) := by omega
  have hlast : typeAt tokens end_ = (t :: us).getLast? := by
    obtain ⟨vs, v, hv⟩ := (List.eq_nil_or_concat (t :: us)).resolve_left hne
    rw [List.concat_eq_append] at hv
    rw [hv, List.getLast?_concat]
    rw [hv] at h
    exact h.typeAt_end
  have htwo : start + 1 = end_ ↔ (t :: us).length = 2 := by
    rw [List.length_cons]; omega
  have hloop := checkParenthesesLoop_eq h 0
  have hcount : (t :: us).length = (end_ - start + 1).toNat := by
    rw [List.length_cons]
    omega
  rw [hcount] at hloop
  obtain ⟨v, hv⟩ : ∃ v, (t :: us).getLast? = some v := ⟨_, List.getLast?_eq_some_getLast hne⟩
  rw [checkParentheses, if_neg hrange]
  simp only [h.typeAt_start, hlast, hv, htwo, hloop, wrapErr, Option.bind_eq_bind,
    Option.bind_some, List.head?_cons, ne_eq, Option.some.injEq]
  by_cases ho : t = chr '('
  · by_cases hc : v = chr ')'
    · simp only [ho, hc, not_true_eq_false, or_self, if_false]
      split <;> rfl
    · simp [ho, hc, outcome]
  · simp [ho, outcome]

/-! ## The outcome by bracket depth -/

/-- From a positive balance, a return to zero before the last token is reported as "not wrapped";
otherwise the final balance decides. -/
theorem wrapScan_eq {balance : Int} (hb : 0 < balance) (ts : List Int) :
    (ClosesEarly parenWeight balance ts → wrapScan balance ts = errNotWrap) ∧
      (¬ ClosesEarly parenWeight balance ts →
        wrapScan balance ts =
          if balance + depth parenWeight ts = 0 then errNone else errMismatch) := by
  induction ts generalizing balance with
  | nil =>
    refine ⟨fun h => absurd h not_closesEarly_nil, fun _ => ?_⟩
    rw [wrapScan, if_pos (by omega), depth_nil, if_neg (by omega)]
  | cons t ts ih =>
    have hne : balance ≠ 0 := by omega
    rw [closesEarly_cons_iff hne, depth_cons, ← add_assoc]
    by_cases ho : t = chr '('
    · subst ho
      rw [wrapScan, if_pos rfl, parenWeight_open]
      exact ih (by omega)
    · by_cases hc : t = chr ')'
      · subst hc
        rw [wrapScan, if_neg ho, if_pos rfl, if_neg (by omega), parenWeight_close]
        by_cases hz : balance - 1 = 0
        · -- the first bracket is closed here: at the last token or before it
          rw [← sub_eq_add_neg, hz]
          by_cases hts : ts = []
          · subst hts
            exact ⟨fun h => absurd h not_closesEarly_nil, fun _ => by simp [wrapScan]⟩
          · rw [if_pos ⟨rfl, hts⟩]
            exact ⟨fun _ => rfl, fun h => absurd (closesEarly_of_zero hts) h⟩
        · rw [if_neg fun h => hz h.1]
          exact ih (by omega)
      · rw [wrapScan, if_neg ho, if_neg hc, parenWeight_other ho hc, add_zero]
        exact ih hb

/-- The types of a bracketed range: `(`, the inner types and `)`. -/
def bracketed (mid : List Int) : List Int :=
  chr '(' :: (mid ++ [chr ')'])

theorem wrapErr_bracketed {mid : List Int} (hne : mid ≠ []) :
    wrapErr (bracketed mid) = wrapScan 1 (mid ++ [chr ')']) := by
  have hlen : (bracketed mid).length ≠ 2 := by
    have := List.length_pos_iff.mpr hne
    unfold bracketed
    simp only [List.length_cons, List.length_append, List.length_nil]
    omega
  have hlast : (bracketed mid).getLast? = some (chr ')') := by
    rw [bracketed, ← List.cons_append, List.getLast?_concat]
  rw [wrapErr, if_neg (by rw [hlast]; simp [bracketed]), if_neg hlen, bracketed, wrapScan,
    if_pos rfl, zero_add]

variable {mid : List Int}

theorem wrapErr_notWrap_iff (hne : mid ≠ []) :
    wrapErr (bracketed mid) = errNotWrap ↔ ClosesEarly parenWeight 1 (mid ++ [chr ')']) := by
  obtain ⟨hearly, hlate⟩ := wrapScan_eq Int.one_pos (mid ++ [chr ')'])
  rw [wrapErr_bracketed hne]
  refine ⟨fun h => ?_, hearly⟩
  by_contra hc
  rw [hlate hc] at h
  split at h <;> cases h

/-- **Wrapped ranges**: no error is reported exactly when the inner types are balanced. -/
theorem wrapErr_none_iff (hne : mid ≠ []) :
    wrapErr (bracketed mid) = errNone ↔ Balanced parenWeight mid := by
  obtain ⟨hearly, hlate⟩ := wrapScan_eq Int.one_pos (mid ++ [chr ')'])
  rw [wrapErr_bracketed hne, balanced_iff_not_closesEarly neg_one_le_parenWeight parenWeight_close]
  constructor
  · intro h
    by_cases hc : ClosesEarly parenWeight 1 (mid ++ [chr ')'])
    · rw [hearly hc] at h
      cases h
    · rw [hlate hc] at h
      exact ⟨hc, by by_contra hz; rw [if_neg hz] at h; cases h⟩
  · intro h
    obtain ⟨hc, hz⟩ := h
    rw [hlate hc, if_pos hz]

theorem wrapErr_mismatch_iff (hne : mid ≠ []) :
    wrapErr (bracketed mid) = errMismatch ↔
      ¬ ClosesEarly parenWeight 1 (mid ++ [chr ')']) ∧ ¬ Balanced parenWeight (bracketed mid) := by
  obtain ⟨hearly, hlate⟩ := wrapScan_eq Int.one_pos (mid ++ [chr ')'])
  rw [wrapErr_bracketed hne]
  by_cases hc : ClosesEarly parenWeight 1 (mid ++ [chr ')'])
  · simp [hearly hc, hc]
  · rw [hlate hc, bracketed, balanced_iff_of_not_closesEarly neg_one_le_parenWeight
      parenWeight_open parenWeight_close hc, depth_cons, parenWeight_open]
    split <;> simp_all

theorem exists_bracketed {ts : List Int} (h : ts.head? = some (chr '('))
    (h' : ts.getLast? = some (chr ')')) : ∃ mid, ts = bracketed mid := by
  cases ts with
  | nil => cases h
  | cons t us =>
    have heq : t = chr '(' := by simpa using h
    subst heq
    obtain ⟨vs, v, hv⟩ | rfl := (List.eq_nil_or_concat us).symm
    · rw [List.concat_eq_append] at hv
      subst hv
      rw [← List.cons_append, List.getLast?_concat] at h'
      exact ⟨vs, by rw [bracketed, Option.some.inj h']⟩
    · exact absurd h' (by decide)

/-- A range without an error is a non-empty balanced one between brackets. -/
theorem exists_of_wrapErr_none {ts : List Int} (h : wrapErr ts = errNone) :
    ∃ mid, ts = bracketed mid ∧ mid ≠ [] ∧ Balanced parenWeight mid := by
  have hhead : ts.head? = some (chr '(') := by
    by_contra hne
    rw [wrapErr, if_pos (Or.inl hne)] at h
    cases h
  have hlast : ts.getLast? = some (chr ')') := by
    by_contra hne
    rw [wrapErr, if_pos (Or.inr hne)] at h
    cases h
  obtain ⟨mid, rfl⟩ := exists_bracketed hhead hlast
  have hmid : mid ≠ [] := by
    intro hnil
    subst hnil
    cases h
  exact ⟨mid, rfl, hmid, (wrapErr_none_iff hmid).mp h⟩

/-- The brackets of a balanced range are never reported as mismatched. -/
theorem wrapErr_ne_mismatch {ts : List Int} (h : Balanced parenWeight ts) :
    wrapErr ts ≠ errMismatch := by
  by_cases hends : ts.head? ≠ some (chr '(') ∨ ts.getLast? ≠ some (chr ')')
  · rw [wrapErr, if_pos hends]
    decide
  · obtain ⟨hhead, hlast⟩ := not_or.mp hends
    obtain ⟨mid, rfl⟩ := exists_bracketed (not_not.mp hhead) (not_not.mp hlast)
    by_cases hmid : mid = []
    · subst hmid
      decide
    · rw [ne_eq, wrapErr_mismatch_iff hmid]
      exact fun hmismatch => hmismatch.2 h

/-- The first bracket finds its partner before the last token. -/
def FirstClosesEarly (ts : List Int) : Prop :=
  ∃ p, p <+: ts ∧ p ≠ [] ∧ p ≠ ts ∧ depth parenWeight p = 0

theorem firstClosesEarly_bracketed_iff {mid : List Int} :
    FirstClosesEarly (bracketed mid) ↔ ClosesEarly parenWeight 1 (mid ++ [chr ')']) := by
  constructor
  · intro h
    obtain ⟨p, hp, hnil, hne, hz⟩ := h
    obtain ⟨t, q, rfl⟩ := List.exists_cons_of_ne_nil hnil
    obtain ⟨rfl, hq⟩ := List.cons_prefix_cons.mp hp
    exact ⟨q, hq, fun h => hne (by rw [h, bracketed]), by simpa using hz⟩
  · intro h
    obtain ⟨q, hq, hne, hz⟩ := h
    exact ⟨chr '(' :: q, List.cons_prefix_cons.mpr ⟨rfl, hq⟩, by simp,
      fun h => hne (List.cons.inj h).2, by simpa using hz⟩

/-- A range whose first bracket closes early is not wrapped. -/
theorem wrapErr_of_firstClosesEarly {ts : List Int} (h : FirstClosesEarly ts) :
    wrapErr ts = errNotWrap := by
  by_cases hends : ts.head? ≠ some (chr '(') ∨ ts.getLast? ≠ some (chr ')')
  · rw [wrapErr, if_pos hends]
  · obtain ⟨hhead, hlast⟩ := not_or.mp hends
    obtain ⟨mid, rfl⟩ := exists_bracketed (not_not.mp hhead) (not_not.mp hlast)
    have hearly := firstClosesEarly_bracketed_iff.mp h
    refine (wrapErr_notWrap_iff ?_).mpr hearly
    intro h
    subst h
    exact not_closesEarly_singleton (by decide) hearly

end NoteNew.Expr
