import Mathlib.Logic.Relation
import NoteNew.Expr.BracketVerdict
import NoteNew.Expr.MainOperator

/-!
# Descending into a range

The steps the notes prescribe for a range of tokens, well formed or not: peel a bracketed range, go
to one side of the main operator, drop a sign. From a range with balanced brackets they reach ranges
with balanced brackets only, so the splitting never makes a mismatch of its own
(`descent_balanced`).
-/

namespace NoteNew.Expr

open Brackets ParenErrType Selection

/-- One step of the evaluation, from a range to one that it goes on with. -/
inductive Descent (tokens : Tokens) : Int × Int → Int × Int → Prop where
  | peel {s e : Int} {err : ParenErrType}
    (hcheck : checkParentheses tokens s e = some (true, err)) :
    Descent tokens (s, e) (s + 1, e - 1)
  | left {s e op : Int} {err : ParenErrType}
    (hcheck : checkParentheses tokens s e = some (false, err))
    (hfind : findMainOperator tokens s e = some op) (hop : 0 ≤ op) (hne : s ≤ op - 1) :
    Descent tokens (s, e) (s, op - 1)
  | right {s e op : Int} {err : ParenErrType}
    (hcheck : checkParentheses tokens s e = some (false, err))
    (hfind : findMainOperator tokens s e = some op) (hop : 0 ≤ op) (hne : op + 1 ≤ e) :
    Descent tokens (s, e) (op + 1, e)
  | strip {s e op t : Int} {err : ParenErrType}
    (hcheck : checkParentheses tokens s e = some (false, err))
    (hfind : findMainOperator tokens s e = some op) (hop : op < 0)
    (htype : typeAt tokens s = some t) (hsign : t = chr '-' ∨ t = chr '*') (hne : s + 1 ≤ e) :
    Descent tokens (s, e) (s + 1, e)

/-- The tokens of the range lie in the array and their brackets are balanced. -/
def BalancedRange (tokens : Tokens) (s e : Int) : Prop :=
  ∃ ts, Occupies tokens s e ts ∧ Balanced parenWeight ts

variable {tokens : Tokens} {s e s' e' : Int} {ts : List Int}

/-- The bracket check of a range inside the array: an empty range is invalid, another one has the
verdict of its types. -/
theorem checkParentheses_occupies (h : Occupies tokens s e ts) :
    checkParentheses tokens s e =
      some (outcome (if ts = [] then errInvalidRange else wrapErr ts)) := by
  by_cases hne : ts = []
  · subst hne
    have hlen := h.length
    rw [List.length_nil] at hlen
    rw [checkParentheses, if_pos (by omega), if_pos rfl]
    rfl
  · rw [if_neg hne]
    exact checkParentheses_eq (h.nonneg hne) hne h

/-- The main operator cuts a range at depth zero. -/
theorem exists_cut {x : Nat × Int} (h : mainOp ts = some x) :
    ∃ l r, ts = l ++ x.2 :: r ∧ l.length = x.1 ∧ depth parenWeight l = 0 ∧
      isOperator x.2 = true := by
  have hchoice := mainOp_isChoice ts
  rw [h] at hchoice
  have hbin : IsBinaryAt ts x := IsLastMin.mem hchoice
  have hlt := isBinaryAt_lt hbin
  refine ⟨ts.take x.1, ts.drop (x.1 + 1), ?_, List.length_take_of_le hlt.le, hbin.top,
    hbin.operator⟩
  have hget : ts[x.1] = x.2 := by
    have htype := hbin.type
    rw [List.getElem?_eq_getElem hlt] at htype
    exact Option.some.inj htype
  rw [← hget, ← List.drop_eq_getElem_cons hlt, List.take_append_drop]

theorem parenWeight_operator {t : Int} (h : isOperator t = true) : parenWeight t = 0 := by
  apply parenWeight_other
  · intro ho
    subst ho
    cases h
  · intro hc
    subst hc
    cases h

/-- Both sides of the main operator of a balanced range are balanced. -/
theorem BalancedRange.sides (h : BalancedRange tokens s e) {op : Int}
    (hfind : findMainOperator tokens s e = some op) (hop : 0 ≤ op) :
    s ≤ op ∧ op ≤ e ∧ BalancedRange tokens s (op - 1) ∧ BalancedRange tokens (op + 1) e := by
  obtain ⟨ts, hts, hbal⟩ := h
  have hne : ts ≠ [] := by
    intro hnil
    subst hnil
    have hlen := hts.length
    rw [List.length_nil] at hlen
    rw [findMainOperator, if_pos (by omega)] at hfind
    obtain rfl := Option.some.inj hfind
    omega
  have hs := hts.nonneg hne
  rw [findMainOperator_eq hs hts] at hfind
  cases hmain : mainOp ts with
  | none =>
    rw [hmain] at hfind
    obtain rfl : (-1 : Int) = op := Option.some.inj hfind
    omega
  | some x =>
    rw [hmain] at hfind
    obtain rfl : s + (x.1 : Int) = op := Option.some.inj hfind
    obtain ⟨l, r, rfl, hlen, hdepth, hoper⟩ := exists_cut hmain
    obtain ⟨hl, hr⟩ := hts.append
    obtain ⟨hball, hbalr⟩ := hbal.of_append hdepth
    have hrlen := hr.length
    rw [List.length_cons] at hrlen
    rw [hlen] at hl hr hrlen
    exact ⟨by omega, by omega, ⟨l, hl, hball⟩, r, hr.tail,
      hbalr.of_cons (parenWeight_operator hoper)⟩

/-- **One step** keeps the brackets balanced and shortens the range. -/
theorem Descent.balanced (h : BalancedRange tokens s e) (hstep : Descent tokens (s, e) (s', e')) :
    BalancedRange tokens s' e' ∧ e' - s' < e - s := by
  cases hstep with
  | peel hcheck =>
    obtain ⟨ts, hts, -⟩ := h
    rw [checkParentheses_occupies hts] at hcheck
    have hret := congrArg Prod.fst (Option.some.inj hcheck)
    have hnone := of_decide_eq_true hret
    by_cases hne : ts = []
    · rw [if_pos hne] at hnone
      cases hnone
    · rw [if_neg hne] at hnone
      obtain ⟨mid, rfl, -, hbal⟩ := exists_of_wrapErr_none hnone
      obtain ⟨-, -, hmid⟩ := Occupies.bracketed_iff.mp hts
      exact ⟨⟨mid, hmid, hbal⟩, by omega⟩
  | left hcheck hfind hop hne =>
    obtain ⟨hs, he, hleft, -⟩ := h.sides hfind hop
    exact ⟨hleft, by omega⟩
  | right hcheck hfind hop hne =>
    obtain ⟨hs, he, -, hright⟩ := h.sides hfind hop
    exact ⟨hright, by omega⟩
  | strip hcheck hfind hop htype hsign hne =>
    obtain ⟨ts, hts, hbal⟩ := h
    cases ts with
    | nil =>
      have hlen := hts.length
      rw [List.length_nil] at hlen
      omega
    | cons t us =>
      obtain rfl := Option.some.inj (hts.typeAt_start.symm.trans htype)
      have hweight : parenWeight t = 0 := by
        rcases hsign with rfl | rfl
        · rfl
        · rfl
      exact ⟨⟨us, hts.tail, hbal.of_cons hweight⟩, by omega⟩

/-- On a balanced range the bracket check returns, and reports no mismatch. -/
theorem BalancedRange.checked (h : BalancedRange tokens s e) :
    ∃ ret err, checkParentheses tokens s e = some (ret, err) ∧ err ≠ errMismatch := by
  obtain ⟨ts, hts, hbal⟩ := h
  refine ⟨_, _, checkParentheses_occupies hts, ?_⟩
  split
  · decide
  · exact wrapErr_ne_mismatch hbal

/-- **Balance survives every descent**: every range reached from a balanced range is balanced, no
mismatch is reported on it, and every further step shortens it. -/
theorem descent_balanced (tokens : Tokens) (s e s' e' : Int) (h : BalancedRange tokens s e)
    (hreach : Relation.ReflTransGen (Descent tokens) (s, e) (s', e')) :
    BalancedRange tokens s' e' ∧
      (∃ ret err, checkParentheses tokens s' e' = some (ret, err) ∧ err ≠ errMismatch) ∧
      ∀ s'' e'', Descent tokens (s', e') (s'', e'') → e'' - s'' < e' - s' := by
  have hrun : ∀ q : Int × Int, Relation.ReflTransGen (Descent tokens) (s, e) q →
      BalancedRange tokens q.1 q.2 := by
    intro q hq
    induction hq with
    | refl => exact h
    | tail _ hstep ih => exact (Descent.balanced ih hstep).1
  have hbal := hrun _ hreach
  exact ⟨hbal, hbal.checked, fun s'' e'' hstep => (Descent.balanced hbal hstep).2⟩

/-- `(1) + 2` -/
def parenSum : Tokens := .ofTypes [chr '(', tkDec, chr ')', chr '+', tkDec]

theorem descent_balanced_parenSum :
    BalancedRange parenSum 1 1 ∧
      (∃ ret err, checkParentheses parenSum 1 1 = some (ret, err) ∧ err ≠ errMismatch) ∧
      ∀ s e, Descent parenSum (1, 1) (s, e) → e - s < 1 - 1 := by
  apply descent_balanced parenSum 0 4
  · refine ⟨[chr '(', tkDec, chr ')', chr '+', tkDec], ⟨?_, rfl⟩, ?_⟩
    · exact ⟨rfl, rfl, rfl, rfl, rfl, trivial⟩
    · have hdec : Balanced parenWeight [tkDec] := by
        apply Balanced.singleton
        rfl
      have hparen : Balanced parenWeight (bracketed [tkDec]) := hdec.wrap rfl rfl
      exact hparen.append (hdec.cons rfl)
  · -- to the left side of `+`, then into the brackets
    have hleft : Descent parenSum (0, 4) (0, 2) :=
      @Descent.left parenSum 0 4 3 errNotWrap rfl rfl (by omega) (by omega)
    have hpeel : Descent parenSum (0, 2) (1, 1) := .peel rfl
    exact (Relation.ReflTransGen.single hleft).tail hpeel

end NoteNew.Expr
