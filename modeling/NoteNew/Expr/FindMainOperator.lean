import NoteNew.Expr.CheckParentheses

/-!
# `find_main_operator`

The left-to-right scan that looks for the binary operator applied last in a range: an operator at
bracket balance zero whose left neighbour ends an operand, the rightmost of the weakest ones. `Scan`
is the same scan on a list of token types, one type at a time; `findMainOperator_eq` is the
refinement, proved by relating the variables of the loop to the state of the list scan
(`Scan.Agrees`).
-/

namespace NoteNew.Expr

/-! ## The functions -/

def isOperator (type : Int) : Bool :=
  type = chr '+' || type = chr '-' || type = chr '*' || type = chr '/'

/-- Whether a later operator `op2` replaces the operator `op1` found so far. -/
def hasHigherPrecedence (op1 op2 : Int) : Bool :=
  if op1 = chr '+' ∨ op1 = chr '-' then
    if op2 = chr '+' ∨ op2 = chr '-' then true else false
  else if op1 = chr '*' ∨ op1 = chr '/' then true
  else false

/-- The types that end an operand. -/
def endsOperand (type : Int) : Bool :=
  type = tkDec || type = tkHex || type = tkIdent || type = tkReg || type = chr ')'

/-- Whether the token at `i` can stand in front of a binary operator; it is not read before
`start`. -/
def canBeBinaryPrefix (tokens : Tokens) (i start : Int) : Option Bool :=
  if i < start then some false
  else do
    let type ← typeAt tokens i
    return endsOperand type

/-- The scan over the remaining `n` tokens from index `i`. -/
def findMainOperatorLoop (tokens : Tokens) (start : Int) : Nat → Int → Int → Int → Option Int
  | 0, _, _, opIndex => some opIndex
  | n + 1, i, balance, opIndex => do
    let type ← typeAt tokens i
    if type = chr '(' then
      findMainOperatorLoop tokens start n (i + 1) (balance + 1) opIndex
    else if type = chr ')' then
      findMainOperatorLoop tokens start n (i + 1) (balance - 1) opIndex
    else if balance = 0 ∧ isOperator type then
      if ← canBeBinaryPrefix tokens (i - 1) start then
        -- the type of the pending operator is read only when there is one
        if opIndex = -1 then
          findMainOperatorLoop tokens start n (i + 1) balance i
        else if hasHigherPrecedence (← typeAt tokens opIndex) type then
          findMainOperatorLoop tokens start n (i + 1) balance i
        else findMainOperatorLoop tokens start n (i + 1) balance opIndex
      else findMainOperatorLoop tokens start n (i + 1) balance opIndex
    else findMainOperatorLoop tokens start n (i + 1) balance opIndex

/-- The index of the main operator of `[start, end_]`, `-1` when there is none. -/
def findMainOperator (tokens : Tokens) (start end_ : Int) : Option Int :=
  if start > end_ then some (-1)
  else findMainOperatorLoop tokens start (end_ - start + 1).toNat start 0 (-1)

/-! ## The scan on token types -/

/-- The state of the scan: the number of types read, the last one, the bracket balance and the
operator found so far with its position. -/
structure Scan where
  pos : Nat
  prev : Option Int
  balance : Int
  cand : Option (Nat × Int)
deriving DecidableEq, Repr

/-- An operator position as an index of the array, `-1` for none. -/
def opIndex (start : Int) : Option (Nat × Int) → Int
  | none => -1
  | some op => start + op.1

theorem opIndex_eq_neg_one_iff {start : Int} (hstart : 0 ≤ start) {op : Option (Nat × Int)} :
    opIndex start op = -1 ↔ op = none := by
  cases op with
  | none => simp [opIndex]
  | some op =>
    simp only [opIndex, reduceCtorEq, iff_false]
    omega

theorem opIndex_eq_add_iff {start : Int} (hstart : 0 ≤ start) {op : Option (Nat × Int)} {k : Nat} :
    opIndex start op = start + k ↔ ∃ type, op = some (k, type) := by
  cases op with
  | none =>
    simp only [opIndex, reduceCtorEq, exists_false, iff_false]
    omega
  | some op =>
    simp only [opIndex, Option.some.injEq, Prod.ext_iff, exists_and_left, exists_eq', and_true]
    omega

namespace Scan

def init : Scan := ⟨0, none, 0, none⟩

/-- A binary operator replaces the one found so far unless that one binds weaker. -/
def takeOver (cand : Option (Nat × Int)) (op : Nat × Int) : Option (Nat × Int) :=
  match cand with
  | none => some op
  | some old => if hasHigherPrecedence old.2 op.2 then some op else some old

/-- The type is read as a binary operator here. -/
def isBinary (σ : Scan) (type : Int) : Bool :=
  σ.balance = 0 && isOperator type && σ.prev.any endsOperand

theorem isBinary_of_not_operator (σ : Scan) {type : Int} (h : isOperator type = false) :
    σ.isBinary type = false := by
  simp [isBinary, h]

def step (σ : Scan) (type : Int) : Scan where
  pos := σ.pos + 1
  prev := some type
  balance := σ.balance + parenWeight type
  cand := if σ.isBinary type then takeOver σ.cand (σ.pos, type) else σ.cand

def run (σ : Scan) (ts : List Int) : Scan := ts.foldl step σ

@[simp] theorem run_nil (σ : Scan) : σ.run [] = σ := rfl

@[simp] theorem run_cons (σ : Scan) (t : Int) (ts : List Int) :
    σ.run (t :: ts) = (σ.step t).run ts := rfl

@[simp] theorem run_append (σ : Scan) (ts us : List Int) :
    σ.run (ts ++ us) = (σ.run ts).run us := by
  rw [run, List.foldl_append]
  rfl

@[simp] theorem step_pos (σ : Scan) (t : Int) : (σ.step t).pos = σ.pos + 1 := rfl

@[simp] theorem step_prev (σ : Scan) (t : Int) : (σ.step t).prev = some t := rfl

@[simp] theorem step_balance (σ : Scan) (t : Int) :
    (σ.step t).balance = σ.balance + parenWeight t := rfl

theorem step_cand (σ : Scan) (t : Int) :
    (σ.step t).cand = if σ.isBinary t then takeOver σ.cand (σ.pos, t) else σ.cand := rfl

theorem run_pos (σ : Scan) (ts : List Int) : (σ.run ts).pos = σ.pos + ts.length := by
  induction ts generalizing σ with
  | nil => rfl
  | cons t ts ih => rw [run_cons, ih, step_pos, List.length_cons]; omega

theorem run_balance (σ : Scan) (ts : List Int) :
    (σ.run ts).balance = σ.balance + Brackets.depth parenWeight ts := by
  induction ts generalizing σ with
  | nil => simp
  | cons t ts ih => rw [run_cons, ih, step_balance, Brackets.depth_cons, add_assoc]

/-- The candidate as the array index that the function returns. -/
def index (start : Int) (σ : Scan) : Int :=
  opIndex start σ.cand

end Scan

/-- The position of the main operator of a list of types. -/
def mainOp (ts : List Int) : Option (Nat × Int) :=
  (Scan.init.run ts).cand

/-! ## Refinement -/

/-- What the scan remembers of the tokens it has read is what the array holds. -/
structure Scan.Agrees (tokens : Tokens) (start : Int) (σ : Scan) : Prop where
  first : σ.pos = 0 → σ.prev = none
  prev : 0 < σ.pos → ∃ t, σ.prev = some t ∧ typeAt tokens (start + σ.pos - 1) = some t
  cand : ∀ op, σ.cand = some op → typeAt tokens (start + op.1) = some op.2

variable {tokens : Tokens} {start : Int} {σ : Scan}

theorem Scan.agrees_init : Scan.init.Agrees tokens start where
  first _ := rfl
  prev h := absurd h (Nat.lt_irrefl 0)
  cand op h := by cases h

theorem Scan.takeOver_eq (cand : Option (Nat × Int)) (op : Nat × Int) :
    takeOver cand op = some op ∨ takeOver cand op = cand := by
  cases cand with
  | none => exact Or.inl rfl
  | some old =>
    rw [takeOver]
    split
    · exact Or.inl rfl
    · exact Or.inr rfl

theorem Scan.Agrees.step (h : σ.Agrees tokens start) {t : Int}
    (ht : typeAt tokens (start + σ.pos) = some t) : (σ.step t).Agrees tokens start where
  first h := by cases h
  prev _ := ⟨t, rfl, by
    rw [step_pos]
    have hidx : start + ((σ.pos + 1 : Nat) : Int) - 1 = start + σ.pos := by omega
    rwa [hidx]⟩
  cand op hop := by
    rw [step_cand] at hop
    split at hop
    · rcases takeOver_eq σ.cand (σ.pos, t) with heq | heq
      · obtain rfl := Option.some.inj (heq.symm.trans hop)
        exact ht
      · exact h.cand op (heq.symm.trans hop)
    · exact h.cand op hop

theorem Scan.Agrees.canBeBinaryPrefix (h : σ.Agrees tokens start) :
    canBeBinaryPrefix tokens (start + σ.pos - 1) start = some (σ.prev.any endsOperand) := by
  unfold NoteNew.Expr.canBeBinaryPrefix
  by_cases hpos : σ.pos = 0
  · rw [if_pos (by omega), h.first hpos]
    rfl
  · obtain ⟨t, hprev, ht⟩ := h.prev (by omega)
    rw [if_neg (by omega), ht, hprev]
    rfl

/-- One turn of the loop is one step of the list scan. -/
theorem findMainOperatorLoop_step (hstart : 0 ≤ start) (h : σ.Agrees tokens start) {t : Int}
    (ht : typeAt tokens (start + σ.pos) = some t) (n : Nat) :
    findMainOperatorLoop tokens start (n + 1) (start + σ.pos) σ.balance (σ.index start) =
      findMainOperatorLoop tokens start n (start + (σ.step t).pos) (σ.step t).balance
        ((σ.step t).index start) := by
  have hpos : start + (σ.pos : Int) + 1 = start + ((σ.pos + 1 : Nat) : Int) := by omega
  simp only [findMainOperatorLoop, ht, h.canBeBinaryPrefix, Option.bind_eq_bind, Option.bind_some,
    hpos, Scan.step_pos, Scan.step_balance]
  by_cases ho : t = chr '('
  · subst ho
    have hbin : σ.isBinary (chr '(') = false := σ.isBinary_of_not_operator rfl
    rw [if_pos rfl, parenWeight_open]
    simp [Scan.index, opIndex, Scan.step_cand, hbin]
  · by_cases hc : t = chr ')'
    · subst hc
      have hbin : σ.isBinary (chr ')') = false := σ.isBinary_of_not_operator rfl
      rw [if_neg ho, if_pos rfl, parenWeight_close]
      simp [Scan.index, opIndex, Scan.step_cand, hbin, sub_eq_add_neg]
    · rw [if_neg ho, if_neg hc, parenWeight_other ho hc, add_zero]
      by_cases hop : σ.balance = 0 ∧ isOperator t = true
      · rw [if_pos hop]
        by_cases hprev : σ.prev.any endsOperand = true
        · have hbin : σ.isBinary t = true := by simp [Scan.isBinary, hop, hprev]
          rw [if_pos hprev]
          -- a pending operator has a non-negative index, so it is not mistaken for none
          cases hcand : σ.cand with
          | none => simp [Scan.index, opIndex, Scan.step_cand, hbin, hcand, Scan.takeOver]
          | some op =>
            have hne : start + (op.1 : Int) ≠ -1 := by omega
            simp only [Scan.index, opIndex, hcand, hne, if_false, h.cand op hcand, Option.bind_some,
              Scan.step_cand, hbin, if_true, Scan.takeOver]
            split <;> rfl
        · have hbin : σ.isBinary t = false := by simp [Scan.isBinary, hprev]
          rw [if_neg hprev]
          simp [Scan.index, opIndex, Scan.step_cand, hbin]
      · have hbin : σ.isBinary t = false := by
          rw [Scan.isBinary, Bool.and_eq_false_iff, Bool.and_eq_false_iff]
          left
          rw [decide_eq_false_iff_not, ← Bool.not_eq_true (isOperator t)]
          exact not_and_or.mp hop
        rw [if_neg hop]
        simp [Scan.index, opIndex, Scan.step_cand, hbin]

theorem findMainOperatorLoop_eq (hstart : 0 ≤ start) (h : σ.Agrees tokens start) {ts : List Int}
    (hts : Holds tokens (start + σ.pos) ts) :
    findMainOperatorLoop tokens start ts.length (start + σ.pos) σ.balance (σ.index start) =
      some ((σ.run ts).index start) := by
  induction ts generalizing σ with
  | nil => rfl
  | cons t ts ih =>
    have hnext : Holds tokens (start + (σ.step t).pos) ts := by
      have hidx : start + ((σ.pos + 1 : Nat) : Int) = start + (σ.pos : Int) + 1 := by omega
      rw [Scan.step_pos, hidx]
      exact hts.2
    rw [List.length_cons, findMainOperatorLoop_step hstart h hts.1, ih (h.step hts.1) hnext]
    rfl

/-- On a range inside the array the function returns the main operator of the types of the
range. -/
theorem findMainOperator_eq {end_ : Int} {ts : List Int} (hstart : 0 ≤ start)
    (h : Occupies tokens start end_ ts) :
    findMainOperator tokens start end_ = some (opIndex start (mainOp ts)) := by
  have hlen := h.length
  unfold findMainOperator
  split
  · have : ts = [] := by
      rw [← List.length_eq_zero_iff]
      omega
    subst this
    rfl
  · have hpos : start + ((Scan.init.pos : Nat) : Int) = start := by simp [Scan.init]
    have hholds : Holds tokens (start + (Scan.init.pos : Nat)) ts := by
      rw [hpos]
      exact h.holds
    have hloop := findMainOperatorLoop_eq hstart Scan.agrees_init hholds
    have hcount : ts.length = (end_ - start + 1).toNat := by omega
    rw [hpos, hcount] at hloop
    exact hloop

end NoteNew.Expr
