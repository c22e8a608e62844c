import NoteNew.Expr.FindMainOperator

/-!
# The expression grammar

Parse trees of the arithmetic grammar

    E ::= E (+|-) T | T      T ::= T (*|/) U | U      U ::= '-' U | '*' U | P
    P ::= TK_DEC | TK_HEX | TK_REG | TK_IDENT | '(' E ')'

with the token types they derive (`Tree.yield`) and their root (`Tree.root`). A sentence is balanced
(`Tree.balanced_yield`), and the operator scan over a sentence finds the root operator and nothing
else (`Tree.run_yield`): this is the invariant that both helpers are proved correct with.
-/

namespace NoteNew.Expr

open Brackets ParenErrType

/-! ## Parse trees -/

inductive AddOp where
  | plus
  | minus
deriving DecidableEq, Repr

inductive MulOp where
  | star
  | slash
deriving DecidableEq, Repr

inductive UnaryOp where
  | minus
  | star
deriving DecidableEq, Repr

inductive Operand where
  | dec
  | hex
  | reg
  | ident
deriving DecidableEq, Repr

def AddOp.type : AddOp → Int
  | plus => chr '+'
  | minus => chr '-'

def MulOp.type : MulOp → Int
  | star => chr '*'
  | slash => chr '/'

def UnaryOp.type : UnaryOp → Int
  | minus => chr '-'
  | star => chr '*'

def Operand.type : Operand → Int
  | dec => tkDec
  | hex => tkHex
  | reg => tkReg
  | ident => tkIdent

/-- The binary operators are the sum and the product operators. -/
theorem isOperator_cases {type : Int} (h : isOperator type = true) :
    (∃ op : AddOp, op.type = type) ∨ ∃ op : MulOp, op.type = type := by
  unfold isOperator at h
  simp only [Bool.or_eq_true, decide_eq_true_eq, or_assoc] at h
  obtain rfl | rfl | rfl | rfl := h
  · exact Or.inl ⟨.plus, rfl⟩
  · exact Or.inl ⟨.minus, rfl⟩
  · exact Or.inr ⟨.star, rfl⟩
  · exact Or.inr ⟨.slash, rfl⟩

/-- The nonterminals `E`, `T`, `U` and `P`. -/
inductive Nonterminal where
  | E
  | T
  | U
  | P
deriving DecidableEq, Repr

inductive Tree : Nonterminal → Type where
  | add (l : Tree .E) (op : AddOp) (r : Tree .T) : Tree .E
  | ofT (t : Tree .T) : Tree .E
  | mul (l : Tree .T) (op : MulOp) (r : Tree .U) : Tree .T
  | ofU (u : Tree .U) : Tree .T
  | sign (op : UnaryOp) (u : Tree .U) : Tree .U
  | ofP (p : Tree .P) : Tree .U
  | operand (o : Operand) : Tree .P
  | paren (e : Tree .E) : Tree .P

/-- The root of a parse tree, unit productions skipped: a binary operator with its two sides, a
bracket pair, a sign or an operand. -/
inductive Root where
  | binary {n m : Nonterminal} (l : Tree n) (op : Int) (r : Tree m)
  | sign (op : UnaryOp) (u : Tree .U)
  | operand (o : Operand)
  | paren (e : Tree .E)

namespace Tree

variable {n : Nonterminal}

/-- The token types of the leaves, left to right. -/
def yield : {n : Nonterminal} → Tree n → List Int
  | _, add l op r => l.yield ++ op.type :: r.yield
  | _, ofT t => t.yield
  | _, mul l op r => l.yield ++ op.type :: r.yield
  | _, ofU u => u.yield
  | _, sign op u => op.type :: u.yield
  | _, ofP p => p.yield
  | _, operand o => [o.type]
  | _, paren e => bracketed e.yield

def root : {n : Nonterminal} → Tree n → Root
  | _, add l op r => .binary l op.type r
  | _, ofT t => t.root
  | _, mul l op r => .binary l op.type r
  | _, ofU u => u.root
  | _, sign op u => .sign op u
  | _, ofP p => p.root
  | _, operand o => .operand o
  | _, paren e => .paren e

/-- The root operator and its position in the yield, if the root is binary. -/
def main : {n : Nonterminal} → Tree n → Option (Nat × Int)
  | _, add l op _ => some (l.yield.length, op.type)
  | _, ofT t => t.main
  | _, mul l op _ => some (l.yield.length, op.type)
  | _, ofU _ => none
  | _, sign _ _ => none
  | _, ofP _ => none
  | _, operand _ => none
  | _, paren _ => none

theorem yield_ne_nil (t : Tree n) : t.yield ≠ [] := by
  induction t with
  | ofT t ih => exact ih
  | ofU u ih => exact ih
  | ofP p ih => exact ih
  | _ => simp [yield, bracketed]

/-! ## Brackets of a sentence -/

theorem balanced_addOp (op : AddOp) : parenWeight op.type = 0 := by cases op <;> rfl

theorem balanced_mulOp (op : MulOp) : parenWeight op.type = 0 := by cases op <;> rfl

theorem balanced_unaryOp (op : UnaryOp) : parenWeight op.type = 0 := by cases op <;> rfl

theorem balanced_operand (o : Operand) : parenWeight o.type = 0 := by cases o <;> rfl

theorem balanced_bracketed {ts : List Int} (h : Balanced parenWeight ts) :
    Balanced parenWeight (bracketed ts) :=
  h.wrap parenWeight_open parenWeight_close

/-- **A sentence is balanced.** -/
theorem balanced_yield (t : Tree n) : Balanced parenWeight t.yield := by
  induction t with
  | add l op r ihl ihr => exact ihl.append (ihr.cons (balanced_addOp op))
  | mul l op r ihl ihr => exact ihl.append (ihr.cons (balanced_mulOp op))
  | sign op u ih => exact ih.cons (balanced_unaryOp op)
  | operand o => exact .singleton (balanced_operand o)
  | paren e ih => exact balanced_bracketed ih
  | ofT t ih => exact ih
  | ofU u ih => exact ih
  | ofP p ih => exact ih

end Tree

/-! ## The scan over a sentence -/

namespace Scan

/-- Inside a bracket the candidate stays. -/
theorem run_cand_of_pos {ts : List Int} {σ : Scan} (hb : 0 < σ.balance)
    (hts : ∀ p, p <+: ts → 0 ≤ depth parenWeight p) : (σ.run ts).cand = σ.cand := by
  suffices h : ∀ (ts : List Int) (σ : Scan),
      (∀ p, p <+: ts → 0 < σ.balance + depth parenWeight p) → (σ.run ts).cand = σ.cand by
    refine h ts σ fun p hp => ?_
    have := hts p hp
    omega
  intro ts
  induction ts with
  | nil => intro σ _; rfl
  | cons t ts ih =>
    intro σ h
    have hpos := h [] List.nil_prefix
    rw [depth_nil, add_zero] at hpos
    have hne : σ.balance ≠ 0 := by omega
    have hbin : σ.isBinary t = false := by simp [isBinary, hne]
    rw [run_cons, ih (σ.step t) fun p hp => ?_, step_cand, hbin]
    · rfl
    · have := h (t :: p) (by simpa using hp)
      rwa [depth_cons, ← add_assoc] at this

/-- The scan stands outside brackets where an operand is expected. -/
structure AtOperand (σ : Scan) : Prop where
  balance : σ.balance = 0
  prev : σ.prev.any endsOperand = false
  cand : ∀ op, σ.cand = some op → isOperator op.2 = true

/-- The scan stands outside brackets behind an operand. -/
structure AfterOperand (σ : Scan) : Prop where
  balance : σ.balance = 0
  prev : σ.prev.any endsOperand = true
  cand : ∀ op, σ.cand = some op → isOperator op.2 = true

theorem atOperand_init : init.AtOperand := ⟨rfl, rfl, fun _ h => by cases h⟩

variable {σ : Scan}

/-- A sign is not read as a binary operator, and an operand is expected behind it. -/
theorem AtOperand.sign (h : σ.AtOperand) (op : UnaryOp) :
    (σ.step op.type).AtOperand ∧ (σ.step op.type).cand = σ.cand := by
  have hbin : σ.isBinary op.type = false := by simp [isBinary, h.prev]
  have hcand : (σ.step op.type).cand = σ.cand := by rw [step_cand, hbin]; rfl
  refine ⟨⟨?_, ?_, ?_⟩, hcand⟩
  · rw [step_balance, h.balance, Tree.balanced_unaryOp, add_zero]
  · cases op <;> rfl
  · rw [hcand]
    exact h.cand

theorem AtOperand.operand (h : σ.AtOperand) (o : Operand) :
    (σ.step o.type).AfterOperand ∧ (σ.step o.type).cand = σ.cand := by
  have hbin : σ.isBinary o.type = false := σ.isBinary_of_not_operator (by cases o <;> rfl)
  have hcand : (σ.step o.type).cand = σ.cand := by rw [step_cand, hbin]; rfl
  refine ⟨⟨?_, ?_, ?_⟩, hcand⟩
  · rw [step_balance, h.balance, Tree.balanced_operand, add_zero]
  · cases o <;> rfl
  · rw [hcand]
    exact h.cand

theorem AtOperand.bracketed (h : σ.AtOperand) {ts : List Int} (hts : Balanced parenWeight ts) :
    (σ.run (bracketed ts)).AfterOperand ∧ (σ.run (bracketed ts)).cand = σ.cand := by
  have hopen : σ.isBinary (chr '(') = false := σ.isBinary_of_not_operator rfl
  have hclose : ((σ.step (chr '(')).run ts).isBinary (chr ')') = false :=
    isBinary_of_not_operator _ rfl
  have hinner : ((σ.step (chr '(')).run ts).cand = (σ.step (chr '(')).cand := by
    apply run_cand_of_pos _ hts.nonneg
    rw [step_balance, h.balance, parenWeight_open]
    decide
  have hcand : (σ.run (NoteNew.Expr.bracketed ts)).cand = σ.cand := by
    simp only [NoteNew.Expr.bracketed, run_cons, run_append, run_nil, step_cand, hclose, hinner,
      hopen, Bool.false_eq_true, if_false]
  refine ⟨⟨?_, ?_, ?_⟩, hcand⟩
  · rw [run_balance, h.balance, (Tree.balanced_bracketed hts).closed]
    rfl
  · simp only [NoteNew.Expr.bracketed, run_cons, run_append, run_nil, step_prev]
    rfl
  · rw [hcand]
    exact h.cand

/-- Behind an operand an operator is read as binary, and an operand is expected behind it. -/
theorem AfterOperand.operator (h : σ.AfterOperand) {op : Int} (hop : isOperator op = true)
    (hend : endsOperand op = false) (hw : parenWeight op = 0) :
    (σ.step op).AtOperand ∧ (σ.step op).cand = takeOver σ.cand (σ.pos, op) := by
  have hbin : σ.isBinary op = true := by simp [isBinary, h.balance, h.prev, hop]
  have hcand : (σ.step op).cand = takeOver σ.cand (σ.pos, op) := by rw [step_cand, if_pos hbin]
  refine ⟨⟨?_, ?_, ?_⟩, hcand⟩
  · rw [step_balance, h.balance, hw, add_zero]
  · simp [hend]
  · intro o ho
    rw [hcand] at ho
    rcases takeOver_eq σ.cand (σ.pos, op) with heq | heq
    · obtain rfl := Option.some.inj (heq.symm.trans ho)
      exact hop
    · exact h.cand o (heq.symm.trans ho)

theorem AfterOperand.addOp (h : σ.AfterOperand) (op : AddOp) :
    (σ.step op.type).AtOperand ∧ (σ.step op.type).cand = takeOver σ.cand (σ.pos, op.type) :=
  h.operator (by cases op <;> rfl) (by cases op <;> rfl) (Tree.balanced_addOp op)

theorem AfterOperand.mulOp (h : σ.AfterOperand) (op : MulOp) :
    (σ.step op.type).AtOperand ∧ (σ.step op.type).cand = takeOver σ.cand (σ.pos, op.type) :=
  h.operator (by cases op <;> rfl) (by cases op <;> rfl) (Tree.balanced_mulOp op)

/-! ### Which operator survives -/

/-- `+` and `-` replace any operator. -/
theorem takeOver_addOp {cand : Option (Nat × Int)}
    (hcand : ∀ op, cand = some op → isOperator op.2 = true) (k : Nat) (op : AddOp) :
    takeOver cand (k, op.type) = some (k, op.type) := by
  cases cand with
  | none => rfl
  | some old =>
    have hold := hcand old rfl
    have hrep : hasHigherPrecedence old.2 op.type = true := by
      rcases isOperator_cases hold with ⟨a, ha⟩ | ⟨m, hm⟩
      · rw [← ha]
        cases a <;> cases op <;> rfl
      · rw [← hm]
        cases m <;> cases op <;> rfl
    rw [takeOver, if_pos hrep]

/-- A pending `+` or `-` is kept against a later `*` or `/`. -/
theorem takeOver_addOp_mulOp (k j : Nat) (op : AddOp) (op' : MulOp) :
    takeOver (some (k, op.type)) (j, op'.type) = some (k, op.type) := by
  cases op <;> cases op' <;> rfl

/-- A pending `*` or `/` is replaced by any operator. -/
theorem takeOver_mulOp (k : Nat) (op : MulOp) (op' : Nat × Int) :
    takeOver (some (k, op.type)) op' = some op' := by
  cases op <;> rfl

/-- Of two multiplications read in a row the first leaves no trace. -/
theorem takeOver_mulOp_mulOp (cand : Option (Nat × Int)) (k j : Nat) (op op' : MulOp) :
    takeOver (takeOver cand (k, op.type)) (j, op'.type) = takeOver cand (j, op'.type) := by
  cases cand with
  | none => exact takeOver_mulOp k op _
  | some old =>
    by_cases h : hasHigherPrecedence old.2 op.type = true
    · have h' : hasHigherPrecedence old.2 op'.type = true := by
        cases op <;> cases op' <;> exact h
      rw [takeOver, if_pos h, takeOver_mulOp, takeOver, if_pos h']
    · rw [takeOver, if_neg h]

end Scan

namespace Tree

open Scan

variable {n : Nonterminal}

/-- The candidate behind a sentence: its root operator, if it has one, taken over by the scan. -/
def candAfter (t : Tree n) (σ : Scan) : Option (Nat × Int) :=
  match t.main with
  | none => σ.cand
  | some op => takeOver σ.cand (σ.pos + op.1, op.2)

/-- A term carries no root operator or a multiplication. -/
theorem main_term (t : Tree .T) :
    t.main = none ∨ ∃ k, ∃ op : MulOp, t.main = some (k, op.type) := by
  cases t with
  | mul l op r => exact Or.inr ⟨_, op, rfl⟩
  | ofU u => exact Or.inl rfl

theorem main_unary (u : Tree .U) : u.main = none := by
  cases u <;> rfl

/-- **The scan over a sentence** that starts where an operand is expected ends behind an operand,
and of all operators of the sentence it has seen only the root. -/
theorem run_yield (t : Tree n) {σ : Scan} (hσ : σ.AtOperand) :
    (σ.run t.yield).AfterOperand ∧ (σ.run t.yield).cand = t.candAfter σ := by
  induction t generalizing σ with
  | add l op r ihl ihr =>
    obtain ⟨hl, -⟩ := ihl hσ
    obtain ⟨hop, hopc⟩ := hl.addOp op
    obtain ⟨hr, hrc⟩ := ihr hop
    simp only [yield, run_append, run_cons]
    refine ⟨hr, ?_⟩
    -- the sum operator is taken over, and a multiplication in the right side does not replace it
    rw [hrc, candAfter, hopc, takeOver_addOp hl.cand, run_pos]
    simp only [candAfter, main, takeOver_addOp hσ.cand]
    rcases r.main_term with h | ⟨k, op', h⟩
    · rw [h]
    · rw [h]
      exact takeOver_addOp_mulOp _ _ op op'
  | mul l op r ihl ihr =>
    obtain ⟨hl, hlc⟩ := ihl hσ
    obtain ⟨hop, hopc⟩ := hl.mulOp op
    obtain ⟨hr, hrc⟩ := ihr hop
    simp only [yield, run_append, run_cons]
    refine ⟨hr, ?_⟩
    -- a multiplication in the left side is replaced by this one
    rw [hrc, candAfter, main_unary, hopc, hlc, run_pos]
    simp only [candAfter, main]
    rcases l.main_term with h | ⟨k, op', h⟩
    · rw [h]
    · rw [h]
      exact takeOver_mulOp_mulOp _ _ _ op' op
  | sign op u ih =>
    obtain ⟨hop, hopc⟩ := hσ.sign op
    obtain ⟨hu, huc⟩ := ih hop
    simp only [yield, run_cons]
    refine ⟨hu, ?_⟩
    rw [huc, candAfter, main_unary, hopc]
    rfl
  | operand o => exact hσ.operand o
  | paren e ih => exact hσ.bracketed e.balanced_yield
  | ofT t ih => exact ih hσ
  | ofU u ih =>
    obtain ⟨hu, huc⟩ := ih hσ
    refine ⟨hu, ?_⟩
    rw [yield, huc, candAfter, main_unary]
    rfl
  | ofP p ih =>
    obtain ⟨hp, hpc⟩ := ih hσ
    refine ⟨hp, ?_⟩
    rw [yield, hpc, candAfter]
    cases p <;> rfl

/-- The main operator of a sentence is its root operator. -/
theorem mainOp_yield (t : Tree n) : mainOp t.yield = t.main := by
  have h := (t.run_yield atOperand_init).2
  rw [mainOp, h, candAfter]
  cases hm : t.main with
  | none => rfl
  | some op => simp [takeOver, init]

/-! ## The bracket verdict on a sentence -/

theorem wrapErr_binary {m : Nonterminal} (l : Tree n) (op : Int) (r : Tree m) :
    wrapErr (l.yield ++ op :: r.yield) = errNotWrap := by
  refine wrapErr_of_firstClosesEarly ⟨l.yield, List.prefix_append _ _, l.yield_ne_nil, ?_,
    l.balanced_yield.closed⟩
  intro h
  have := congrArg List.length h
  rw [List.length_append, List.length_cons] at this
  omega

theorem wrapErr_sign (op : UnaryOp) (ts : List Int) : wrapErr (op.type :: ts) = errNotWrap := by
  have hop : op.type ≠ chr '(' := by cases op <;> decide
  rw [wrapErr, if_pos (Or.inl (by simpa using hop))]

theorem wrapErr_operand (o : Operand) : wrapErr [o.type] = errNotWrap := by
  cases o <;> rfl

theorem wrapErr_paren (e : Tree .E) : wrapErr (bracketed e.yield) = errNone :=
  (wrapErr_none_iff e.yield_ne_nil).mpr e.balanced_yield

end Tree

end NoteNew.Expr
