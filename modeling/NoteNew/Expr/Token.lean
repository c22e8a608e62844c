import Mathlib.Data.List.Basic

/-!
# Tokens of the expression evaluator

The token types of the tokenizer and of the two parsing helpers, the `Token` record, and a token
array as the parsing helpers read it. An operator or bracket is typed by its character code, the
other types start at `256`.
-/

namespace NoteNew.Expr

/-- A character constant, as the `int` it is. -/
abbrev chr (c : Char) : Int := c.toNat

def tkNotype : Int := 256
def tkEq : Int := 257
def tkDec : Int := 258
def tkHex : Int := 259
def tkReg : Int := 260
def tkIdent : Int := 261

/-- The types whose spelling is kept in `str`. -/
def isLiteral (tokenType : Int) : Bool :=
  tokenType = tkDec || tokenType = tkHex || tokenType = tkReg || tokenType = tkIdent

/-- The readable name of a token type, for the error texts. -/
def getTokenTypeName (tokenType : Int) : String :=
  if tokenType = tkDec then "TK_DEC(十进制数字)"
  else if tokenType = tkHex then "TK_HEX(十六进制数字)"
  else if tokenType = tkReg then "TK_REG(寄存器)"
  else if tokenType = tkIdent then "TK_IDENT (标识符)"
  else if tokenType = chr '+' then "加号"
  else if tokenType = chr '-' then "减号/负号"
  else if tokenType = chr '*' then "乘号/解引用"
  else if tokenType = chr '/' then "除号"
  else if tokenType = chr '(' then "左括号"
  else if tokenType = chr ')' then "右括号"
  else if tokenType = tkEq then "TK_EQ (等于号)"
  else "未知类型"

structure Token where
  type : Int
  str : List UInt8
deriving DecidableEq, Repr

/-! ## Token arrays -/

/-- The global token array as the parsing helpers read it: `none` outside its bounds, where a read
is undefined behaviour. -/
abbrev Tokens := Nat → Option Token

def Tokens.ofList (l : List Token) : Tokens := fun i => l[i]?

/-- An array of tokens of the listed types, with empty spellings. -/
def Tokens.ofTypes (ts : List Int) : Tokens :=
  Tokens.ofList (ts.map fun t => ⟨t, []⟩)

/-- The type of the token at an index; a negative one is outside every array. -/
def typeAt (tokens : Tokens) (i : Int) : Option Int :=
  if i < 0 then none else (tokens i.toNat).map Token.type

/-- The array holds tokens of the listed types from index `i` on. -/
def Holds (tokens : Tokens) : Int → List Int → Prop
  | _, [] => True
  | i, t :: ts => typeAt tokens i = some t ∧ Holds tokens (i + 1) ts

/-- The tokens of the range `[start, end_]` have the listed types. -/
structure Occupies (tokens : Tokens) (start end_ : Int) (ts : List Int) : Prop where
  holds : Holds tokens start ts
  length : end_ = start + ts.length - 1

variable {tokens : Tokens}

theorem index_zero (i : Int) : i + ((0 : Nat) : Int) = i := by omega

theorem index_succ (i : Int) (k : Nat) : i + ((k + 1 : Nat) : Int) = i + 1 + k := by omega

theorem typeAt_nonneg {i : Int} {t : Int} (h : typeAt tokens i = some t) : 0 ≤ i := by
  by_contra hneg
  rw [typeAt, if_pos (by omega)] at h
  cases h

theorem holds_append {i : Int} {ts us : List Int} :
    Holds tokens i (ts ++ us) ↔ Holds tokens i ts ∧ Holds tokens (i + ts.length) us := by
  induction ts generalizing i with
  | nil => simp [Holds]
  | cons t ts ih =>
    have hidx : i + 1 + (ts.length : Int) = i + ((t :: ts).length : Int) := by
      rw [List.length_cons]; omega
    rw [List.cons_append, Holds, ih, Holds, and_assoc, hidx]

theorem Holds.typeAt {i : Int} {ts : List Int} (h : Holds tokens i ts) {k : Nat} {t : Int}
    (hk : ts[k]? = some t) : typeAt tokens (i + k) = some t := by
  induction ts generalizing i k with
  | nil => cases hk
  | cons u ts ih =>
    cases k with
    | zero =>
      have heq : u = t := by simpa using hk
      subst heq
      simpa using h.1
    | succ k =>
      have := ih h.2 (by simpa using hk)
      rwa [index_succ]

/-- The types of a range are determined by the array. -/
theorem Holds.unique {i : Int} {ts us : List Int} (hts : Holds tokens i ts)
    (hus : Holds tokens i us) (hlen : ts.length = us.length) : ts = us := by
  induction ts generalizing i us with
  | nil => exact (List.length_eq_zero_iff.mp hlen.symm).symm
  | cons t ts ih =>
    cases us with
    | nil => cases hlen
    | cons u us =>
      rw [Option.some.inj (hts.1.symm.trans hus.1), ih hts.2 hus.2 (by simpa using hlen)]

/-- A range inside the array has types. -/
theorem exists_holds {i : Int} {n : Nat}
    (h : ∀ k : Nat, k < n → (typeAt tokens (i + k)).isSome) :
    ∃ ts, Holds tokens i ts ∧ ts.length = n := by
  induction n generalizing i with
  | zero => exact ⟨[], trivial, rfl⟩
  | succ n ih =>
    obtain ⟨t, ht⟩ := Option.isSome_iff_exists.mp (h 0 (Nat.succ_pos n))
    obtain ⟨ts, hts, hlen⟩ := ih (i := i + 1) fun k hk => by
      have := h (k + 1) (by omega)
      rwa [index_succ] at this
    refine ⟨t :: ts, ⟨?_, hts⟩, by rw [List.length_cons, hlen]⟩
    rwa [index_zero] at ht

theorem exists_occupies {start end_ : Int} (hle : start ≤ end_ + 1)
    (h : ∀ i, start ≤ i → i ≤ end_ → (typeAt tokens i).isSome) :
    ∃ ts, Occupies tokens start end_ ts := by
  obtain ⟨ts, hts, hlen⟩ : ∃ ts, Holds tokens start ts ∧ ts.length = (end_ + 1 - start).toNat :=
    exists_holds fun k hk => h _ (by omega) (by omega)
  exact ⟨ts, hts, by omega⟩

namespace Occupies

variable {start end_ : Int} {ts : List Int}

theorem unique {us : List Int} (h : Occupies tokens start end_ ts)
    (h' : Occupies tokens start end_ us) : ts = us := by
  have := h.length
  have := h'.length
  exact h.holds.unique h'.holds (by omega)

theorem typeAt_start {t : Int} (h : Occupies tokens start end_ (t :: ts)) :
    typeAt tokens start = some t :=
  h.holds.1

theorem nonneg (h : Occupies tokens start end_ ts) (hne : ts ≠ []) : 0 ≤ start := by
  obtain ⟨t, us, rfl⟩ := List.exists_cons_of_ne_nil hne
  exact typeAt_nonneg h.typeAt_start

theorem typeAt_end {t : Int} (h : Occupies tokens start end_ (ts ++ [t])) :
    typeAt tokens end_ = some t := by
  have := (holds_append.mp h.holds).2.1
  have hlen := h.length
  rw [List.length_append, List.length_singleton] at hlen
  have hend : end_ = start + (ts.length : Int) := by omega
  rwa [hend]

/-- The types without the first token occupy the range without its first index. -/
theorem tail {t : Int} (h : Occupies tokens start end_ (t :: ts)) :
    Occupies tokens (start + 1) end_ ts := by
  refine ⟨h.holds.2, ?_⟩
  have := h.length
  rw [List.length_cons] at this
  omega

/-- Splitting the types splits the range. -/
theorem append {us : List Int} (h : Occupies tokens start end_ (ts ++ us)) :
    Occupies tokens start (start + ts.length - 1) ts ∧
      Occupies tokens (start + ts.length) end_ us := by
  obtain ⟨hts, hus⟩ := holds_append.mp h.holds
  refine ⟨⟨hts, rfl⟩, hus, ?_⟩
  have := h.length
  rw [List.length_append] at this
  omega

end Occupies

end NoteNew.Expr
