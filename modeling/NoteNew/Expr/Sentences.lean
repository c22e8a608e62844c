import NoteNew.Expr.BracketVerdict
import NoteNew.Expr.Grammar

/-!
# The helpers on sentences

What `check_parentheses` and `find_main_operator` report on a range that holds an arithmetic
expression: the root of its parse tree (`helpers_report_root`). An equality has no such root: the
token `TK_EQ` is no operator to `find_main_operator`, which passes it by and reports what it finds
on the two sides (`findMainOperator_equality`).
-/

namespace NoteNew.Expr

open Brackets ParenErrType

variable {n : Nonterminal} {tokens : Tokens} {start end_ : Int}

/-! ## The root of a sentence -/

namespace Root

/-- The token types under a root. -/
def yield : Root → List Int
  | binary l op r => l.yield ++ op :: r.yield
  | sign op u => op.type :: u.yield
  | operand o => [o.type]
  | paren e => bracketed e.yield

/-- The position of the operator of a binary root. -/
def main : Root → Option (Nat × Int)
  | binary l op _ => some (l.yield.length, op)
  | sign _ _ => none
  | operand _ => none
  | paren _ => none

end Root

theorem Tree.yield_root (t : Tree n) : t.root.yield = t.yield := by
  induction t with
  | ofT t ih => exact ih
  | ofU u ih => exact ih
  | ofP p ih => exact ih
  | _ => rfl

theorem Tree.main_root (t : Tree n) : t.root.main = t.main := by
  induction t with
  | ofT t ih => exact ih
  | ofU u ih => exact ih.trans u.main_unary
  | ofP p ih =>
    rw [root, ih]
    cases p <;> rfl
  | _ => rfl

/-- `find_main_operator` on a sentence. -/
theorem findMainOperator_yield (t : Tree n) (hstart : 0 ≤ start)
    (h : Occupies tokens start end_ t.yield) :
    findMainOperator tokens start end_ = some (opIndex start t.main) := by
  rw [findMainOperator_eq hstart h, t.mainOp_yield]

theorem checkParentheses_yield (t : Tree n) (hstart : 0 ≤ start)
    (h : Occupies tokens start end_ t.yield) :
    checkParentheses tokens start end_ = some (outcome (wrapErr t.yield)) :=
  checkParentheses_eq hstart t.yield_ne_nil h

/-- What the two helpers report on `[start, end_]`, given the root of the expression it holds. -/
def ReportsRoot (tokens : Tokens) (start end_ : Int) : Root → Prop
  | .binary l op r =>
    findMainOperator tokens start end_ = some (start + l.yield.length) ∧
      typeAt tokens (start + l.yield.length) = some op ∧
      Occupies tokens start (start + l.yield.length - 1) l.yield ∧
      Occupies tokens (start + l.yield.length + 1) end_ r.yield ∧
      checkParentheses tokens start end_ = some (false, errNotWrap)
  | .paren e =>
    checkParentheses tokens start end_ = some (true, errNone) ∧
      Occupies tokens (start + 1) (end_ - 1) e.yield ∧
      findMainOperator tokens start end_ = some (-1)
  | .sign op u =>
    findMainOperator tokens start end_ = some (-1) ∧
      checkParentheses tokens start end_ = some (false, errNotWrap) ∧
      typeAt tokens start = some op.type ∧ Occupies tokens (start + 1) end_ u.yield
  | .operand o =>
    findMainOperator tokens start end_ = some (-1) ∧
      checkParentheses tokens start end_ = some (false, errNotWrap) ∧
      typeAt tokens start = some o.type ∧ start = end_

/-- **The helpers report the root**: on the tokens of any parse tree, `find_main_operator` returns
the index of the root operator if the root is binary and `-1` otherwise, and `check_parentheses`
returns `true` exactly for a bracketed root. -/
theorem helpers_report_root (t : Tree n) (hstart : 0 ≤ start)
    (h : Occupies tokens start end_ t.yield) : ReportsRoot tokens start end_ t.root := by
  have hfind := findMainOperator_yield t hstart h
  have hcheck := checkParentheses_yield t hstart h
  rw [← t.main_root] at hfind
  rw [← t.yield_root] at hcheck h
  cases hroot : t.root with
  | binary l op r =>
    rw [hroot] at hfind hcheck h
    rw [Root.yield, Tree.wrapErr_binary] at hcheck
    obtain ⟨hl, hr⟩ := h.append
    exact ⟨hfind, hr.typeAt_start, hl, hr.tail, hcheck⟩
  | sign op u =>
    rw [hroot] at hfind hcheck h
    rw [Root.yield, Tree.wrapErr_sign] at hcheck
    exact ⟨hfind, hcheck, h.typeAt_start, h.tail⟩
  | operand o =>
    rw [hroot] at hfind hcheck h
    rw [Root.yield, Tree.wrapErr_operand] at hcheck
    have hlen := h.length
    rw [Root.yield, List.length_singleton] at hlen
    exact ⟨hfind, hcheck, h.typeAt_start, by omega⟩
  | paren e =>
    rw [hroot] at hfind hcheck h
    rw [Root.yield, Tree.wrapErr_paren] at hcheck
    obtain ⟨-, -, he⟩ := Occupies.bracketed_iff.mp h
    exact ⟨hcheck, he, hfind⟩

/-- `1 - - 2 * 3`: the first `-` is the root. -/
def subNegMul : Tree .E :=
  .add (.ofT (.ofU (.ofP (.operand .dec)))) .minus
    (.mul (.ofU (.sign .minus (.ofP (.operand .dec)))) .star (.ofP (.operand .dec)))

theorem helpers_report_root_subNegMul :
    ReportsRoot (.ofTypes subNegMul.yield) 0 5 subNegMul.root :=
  helpers_report_root subNegMul (by decide)
    ⟨by simp only [subNegMul, Tree.yield, List.cons_append, List.nil_append, Holds]; decide,
      by decide⟩

/-! ## Equalities -/

/-- `TK_EQ` behind a sentence is passed by, and an operand is expected behind it. -/
theorem Scan.AfterOperand.eq {σ : Scan} (h : σ.AfterOperand) :
    (σ.step tkEq).AtOperand ∧ (σ.step tkEq).cand = σ.cand := by
  have hbin : σ.isBinary tkEq = false := σ.isBinary_of_not_operator rfl
  have hcand : (σ.step tkEq).cand = σ.cand := by rw [step_cand, hbin]; rfl
  refine ⟨⟨?_, rfl, ?_⟩, hcand⟩
  · rw [step_balance, h.balance]
    rfl
  · rw [hcand]
    exact h.cand

/-- The operator left by the scan of an equality comes from one of its sides. -/
theorem mainOp_equality (l r : Tree .E) :
    mainOp (l.yield ++ tkEq :: r.yield) =
      match r.main with
      | none => l.main
      | some op => Scan.takeOver l.main (l.yield.length + 1 + op.1, op.2) := by
  obtain ⟨hl, -⟩ := l.run_yield Scan.atOperand_init
  obtain ⟨heq, heqc⟩ := hl.eq
  obtain ⟨-, hrc⟩ := r.run_yield heq
  have hlmain : (Scan.init.run l.yield).cand = l.main := l.mainOp_yield
  rw [mainOp, Scan.run_append, Scan.run_cons, hrc, Tree.candAfter, heqc, hlmain, Scan.step_pos,
    Scan.run_pos]
  cases r.main <;> simp [Scan.init]

/-- The root operator lies inside its sentence. -/
theorem Tree.main_lt (t : Tree n) {op : Nat × Int} (h : t.main = some op) :
    op.1 < t.yield.length := by
  induction t with
  | add l o r _ _ =>
    obtain rfl := Option.some.inj h
    simp only [yield, List.length_append, List.length_cons]
    omega
  | mul l o r _ _ =>
    obtain rfl := Option.some.inj h
    simp only [yield, List.length_append, List.length_cons]
    omega
  | ofT t ih => exact ih h
  | _ => cases h

/-- **The equality operator is never found**: on `l == r` the result is `-1` when neither side has a
binary root, and otherwise the index of an operator inside `l` or inside `r`. -/
theorem findMainOperator_equality (l r : Tree .E) (hstart : 0 ≤ start)
    (h : Occupies tokens start end_ (l.yield ++ tkEq :: r.yield)) :
    ∃ op, findMainOperator tokens start end_ = some op ∧ op ≠ start + l.yield.length ∧
      (op = -1 ↔ l.main = none ∧ r.main = none) ∧
      (op ≠ -1 → (start ≤ op ∧ op < start + l.yield.length) ∨
        (start + l.yield.length < op ∧ op ≤ end_)) := by
  have hlen := h.length
  rw [List.length_append, List.length_cons] at hlen
  refine ⟨_, findMainOperator_eq hstart h, ?_⟩
  rw [mainOp_equality]
  cases hr : r.main with
  | none =>
    cases hl : l.main with
    | none =>
      simp only [opIndex, and_self, ne_eq, not_true_eq_false, false_implies, and_true]
      omega
    | some op =>
      have := l.main_lt hl
      simp only [opIndex, reduceCtorEq, false_and, iff_false, ne_eq]
      omega
  | some op =>
    have hrlt := r.main_lt hr
    rcases Scan.takeOver_eq l.main (l.yield.length + 1 + op.1, op.2) with heq | heq
    · simp only [heq, opIndex, reduceCtorEq, and_false, iff_false, ne_eq]
      omega
    · cases hl : l.main with
      | none =>
        rw [hl] at heq
        cases heq
      | some op' =>
        have := l.main_lt hl
        simp only [← hl, heq]
        simp only [hl, opIndex, reduceCtorEq, and_false, iff_false, ne_eq]
        omega

/-- `1` -/
def one : Tree .E := .ofT (.ofU (.ofP (.operand .dec)))

theorem findMainOperator_equality_one :
    ∃ op, findMainOperator (.ofTypes (one.yield ++ tkEq :: one.yield)) 0 2 = some op ∧
      op ≠ 0 + one.yield.length ∧ (op = -1 ↔ one.main = none ∧ one.main = none) ∧
      (op ≠ -1 → (0 ≤ op ∧ op < 0 + one.yield.length) ∨ (0 + one.yield.length < op ∧ op ≤ 2)) :=
  findMainOperator_equality one one (by decide)
    ⟨by simp only [one, Tree.yield, List.cons_append, List.nil_append, Holds]; decide, by decide⟩

/-- On `1 == 2` no main operator is reported. -/
theorem findMainOperator_equality_missed :
    Occupies (.ofTypes (one.yield ++ tkEq :: one.yield)) 0 2 (one.yield ++ tkEq :: one.yield) ∧
      findMainOperator (.ofTypes (one.yield ++ tkEq :: one.yield)) 0 2 = some (-1) ∧
      findMainOperator (.ofTypes (one.yield ++ tkEq :: one.yield)) 0 2 ≠
        some (0 + one.yield.length) := by
  refine ⟨⟨?_, by decide⟩, by decide, by decide⟩
  simp only [one, Tree.yield, List.cons_append, List.nil_append, Holds]
  decide

end NoteNew.Expr
