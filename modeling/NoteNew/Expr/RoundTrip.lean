import Mathlib.Data.List.Chain
import NoteNew.Expr.Spelling

/-!
# Printing and tokenising

Tokens printed with spaces between them are read back: the lexer finds each spelling again as long
as a space separates the neighbours that would run together (`makeToken_printTokens`).
-/

namespace NoteNew.Expr

open Regex Memory

/-- A token to print: a rule other than the spaces, with a spelling it matches, short enough for the
buffer if it is kept there. -/
structure PrintedToken where
  rule : Rule
  spelling : List UInt8
  not_spaces : rule ≠ .spaces
  matched : spelling ∈ rule.regex.matches'
  short : isLiteral rule.tokenType = true → spelling.length ≤ 31

/-- A number, register or identifier runs together with a number or identifier behind it. -/
def needsSpace (left right : Rule) : Bool :=
  isLiteral left.tokenType && (right = .dec || right = .hex || right = .ident)

def spaces (n : Nat) : List UInt8 :=
  List.replicate n (byte ' ')

/-- The tokens, each with the number of spaces behind it. -/
def printGaps (l : List (PrintedToken × Nat)) : List UInt8 :=
  l.flatMap fun x => x.1.spelling ++ spaces x.2

/-- The spaces are enough to keep neighbours apart. -/
def Separated (l : List (PrintedToken × Nat)) : Prop :=
  l.IsChain fun x y => needsSpace x.1.rule y.1.rule = true → 0 < x.2

/-- The printed text, with spaces in front of the first token. -/
def printTokens (lead : Nat) (l : List (PrintedToken × Nat)) : CString where
  chars := spaces lead ++ printGaps l
  nul_free := by
    have hspaces : ∀ n, 0 ∉ spaces n := fun n h => absurd (List.eq_of_mem_replicate h) (by decide)
    rw [List.mem_append, not_or]
    refine ⟨hspaces lead, fun h => ?_⟩
    obtain ⟨x, -, hx⟩ := List.mem_flatMap.mp h
    rcases List.mem_append.mp hx with hx | hx
    · exact nul_notMem x.1.matched hx
    · exact hspaces x.2 hx

namespace PrintedToken

def lexeme (t : PrintedToken) : Lexeme := (t.rule, t.spelling)

/-- Only numbers and identifiers begin with a word character. -/
theorem first_not_word {r : Rule} (h : (r = .dec || r = .hex || r = .ident) = false) :
    ∀ c ∈ r.first, c ∉ identChars := by
  cases r with
  | dec => cases h
  | hex => cases h
  | ident => cases h
  | _ => exact List.all_iff_forall_prop.mp (by decide)

/-- The first character of a token that needs no space cannot prolong its left neighbour. -/
theorem head_notMem {r l : Rule} (hr : r ≠ .spaces) (hl : needsSpace l r ≠ true) {c : UInt8}
    (hc : c ∈ r.first) : l = .eq ∨ c ∉ l.rest := by
  have hspace : c ∉ [byte ' '] := fun h =>
    first_ne_space hr c (List.mem_append_left _ hc) (List.mem_singleton.mp h)
  by_cases hlit : isLiteral l.tokenType = true
  · have hword : c ∉ identChars := by
      refine first_not_word ?_ c hc
      simpa [needsSpace, hlit] using hl
    right
    cases l with
    | hex => exact hword
    | reg => exact hword
    | ident => exact hword
    | dec => exact hword
    | _ => exact absurd hlit (by decide)
  · cases l with
    | eq => exact Or.inl rfl
    | spaces => exact Or.inr hspace
    | hex => exact absurd rfl hlit
    | reg => exact absurd rfl hlit
    | ident => exact absurd rfl hlit
    | dec => exact absurd rfl hlit
    | _ => exact Or.inr List.not_mem_nil

end PrintedToken

/-! ## Lexing printed text -/

theorem printGaps_cons (x : PrintedToken × Nat) (l : List (PrintedToken × Nat)) :
    printGaps (x :: l) = x.1.spelling ++ (spaces x.2 ++ printGaps l) := by
  simp [printGaps]

theorem printGaps_head {l : List (PrintedToken × Nat)} {c : UInt8}
    (h : (printGaps l).head? = some c) :
    ∃ y l', l = y :: l' ∧ c ∈ y.1.rule.first := by
  cases l with
  | nil => cases h
  | cons y l =>
    obtain ⟨d, t, ht, hd, -⟩ := Rule.shape y.1.matched
    rw [printGaps_cons, ht] at h
    have heq : d = c := by simpa using h
    subst heq
    exact ⟨y, l, rfl, hd⟩

/-- A run of spaces in front of a token is skipped. -/
theorem lex_spaces (n : Nat) {s : List UInt8} (hs : ∀ c, s.head? = some c → c ≠ byte ' ') :
    tokenLexemes (spaces n ++ s) = tokenLexemes s ∧
      (lexer.segment (spaces n ++ s)).2 = (lexer.segment s).2 := by
  cases n with
  | zero => exact ⟨rfl, rfl⟩
  | succ n =>
    have hmatch : spaces (n + 1) ∈ Rule.spaces.regex.matches' :=
      Rule.mem_spaces.mpr ⟨by simp [spaces], fun d hd => List.eq_of_mem_replicate hd⟩
    have hnext := tryRules_append (s := s) hmatch
      (Or.inr fun c hc hmem => hs c hc (List.mem_singleton.mp hmem))
    rw [tryRules_eq_next] at hnext
    rw [tokenLexemes_of_spaces hnext, rest_of_some hnext, List.drop_left]
    exact ⟨rfl, rfl⟩

theorem lex_token (t : PrintedToken) {s : List UInt8}
    (hs : t.rule = .eq ∨ ∀ c, s.head? = some c → c ∉ t.rule.rest) :
    tokenLexemes (t.spelling ++ s) = t.lexeme :: tokenLexemes s ∧
      (lexer.segment (t.spelling ++ s)).2 = (lexer.segment s).2 := by
  have hnext := tryRules_append t.matched hs
  rw [tryRules_eq_next] at hnext
  rw [tokenLexemes_of_token hnext t.not_spaces, rest_of_some hnext, List.drop_left, List.take_left]
  exact ⟨rfl, rfl⟩

/-- What stands behind a printed token does not prolong it. -/
theorem separated_head {x : PrintedToken × Nat} {l : List (PrintedToken × Nat)}
    (h : Separated (x :: l)) : x.1.rule = .eq ∨
      ∀ c, (spaces x.2 ++ printGaps l).head? = some c → c ∉ x.1.rule.rest := by
  rw [or_iff_not_imp_left]
  intro heq c hc
  cases hx : x.2 with
  | zero =>
    rw [hx] at hc
    obtain ⟨y, l', rfl, hy⟩ := printGaps_head hc
    have hneeds : needsSpace x.1.rule y.1.rule ≠ true := fun hneeds => by
      have := (List.isChain_cons_cons.mp h).1 hneeds
      omega
    exact (PrintedToken.head_notMem y.1.not_spaces hneeds hy).resolve_left heq
  | succ n =>
    rw [hx] at hc
    have heq : byte ' ' = c := by simpa [spaces, List.replicate_succ] using hc
    subst heq
    have hsp : byte ' ' ∉ x.1.rule.rest := by
      have := x.1.not_spaces
      revert this
      cases x.1.rule <;> decide
    exact hsp

theorem lex_printGaps {l : List (PrintedToken × Nat)} (h : Separated l) :
    tokenLexemes (printGaps l) = l.map (·.1.lexeme) ∧ (lexer.segment (printGaps l)).2 = [] := by
  induction l with
  | nil =>
    refine ⟨tokenLexemes_nil, ?_⟩
    rw [printGaps, List.flatMap_nil, lexer.segment_nil]
  | cons x l ih =>
    obtain ⟨htok, hrest⟩ := ih h.tail
    obtain ⟨htok₁, hrest₁⟩ := lex_token x.1 (separated_head h)
    have hhead : ∀ c, (printGaps l).head? = some c → c ≠ byte ' ' := fun c hc => by
      obtain ⟨y, l', -, hy⟩ := printGaps_head hc
      exact first_ne_space y.1.not_spaces c (List.mem_append_left _ hy)
    obtain ⟨htok₂, hrest₂⟩ := lex_spaces x.2 hhead
    rw [printGaps_cons, htok₁, htok₂, htok, hrest₁, hrest₂, hrest, List.map_cons]
    exact ⟨rfl, rfl⟩

theorem lex_printTokens (lead : Nat) {l : List (PrintedToken × Nat)} (h : Separated l) :
    tokenLexemes (printTokens lead l).chars = l.map (·.1.lexeme) ∧
      (lexer.segment (printTokens lead l).chars).2 = [] := by
  obtain ⟨htok, hrest⟩ := lex_printGaps h
  have hhead : ∀ c, (printGaps l).head? = some c → c ≠ byte ' ' := fun c hc => by
    obtain ⟨y, l', -, hy⟩ := printGaps_head hc
    exact first_ne_space y.1.not_spaces c (List.mem_append_left _ hy)
  obtain ⟨htok₁, hrest₁⟩ := lex_spaces lead hhead
  exact ⟨htok₁.trans htok, hrest₁.trans hrest⟩

/-- **Tokenising undoes printing**: at most 32 printed tokens with enough spaces between them are
read back, from any state of the globals, with their number, types and literal spellings. -/
theorem makeToken_printTokens (lead : Nat) (l : List (PrintedToken × Nat)) (st : LexState)
    (hlen : l.length ≤ 32) (hsep : Separated l) :
    ∃ out, makeToken (printTokens lead l) st = some out ∧ out.ret = true ∧
      out.state.nrToken = l.length ∧
      ∀ (i : Nat) t gap, l[i]? = some (t, gap) →
        out.state.typeOf i = t.rule.tokenType ∧
          (isLiteral t.rule.tokenType = true → out.state.strOf i = t.spelling) := by
  obtain ⟨htok, hrest⟩ := lex_printTokens lead hsep
  obtain ⟨out, hout, hspec⟩ := makeToken_spec (printTokens lead l) st
  have hterm : ∀ x ∈ tokenLexemes (printTokens lead l).chars, Terminates x := by
    intro x hx hlit
    rw [htok] at hx
    obtain ⟨y, -, rfl⟩ := List.mem_map.mp hx
    exact Nat.lt_succ_of_le (y.1.short hlit)
  have hacc : Accepts 32 (printTokens lead l).chars := by
    refine ⟨hrest, by rwa [htok, List.length_map], fun x hx => ?_⟩
    by_cases hlit : isLiteral x.1.tokenType = true
    · have hlt : x.2.length < maxTokenStrLen := hterm x hx hlit
      simp [fits, hlit, Nat.le_of_lt hlt]
    · simp [fits, hlit]
  have hret : out.ret = true := hspec.ret.trans (decide_eq_true hacc)
  obtain ⟨-, hcount, hget⟩ := hspec.tokens hret hterm
  refine ⟨out, hout, hret, by rw [hcount, htok, List.length_map], fun i t gap hi => ?_⟩
  have hx : (tokenLexemes (printTokens lead l).chars)[i]? = some t.lexeme := by
    rw [htok, List.getElem?_map, hi, Option.map_some]
  obtain ⟨htype, hstr, -⟩ := hget i _ hx
  exact ⟨htype, hstr⟩

/-- `0x1F` -/
def hexToken : PrintedToken where
  rule := .hex
  spelling := ['0', 'x', '1', 'F'].map byte
  not_spaces := by decide
  matched := Rule.mem_hex.mpr ⟨byte 'x', by decide, _, by simp,
    List.all_iff_forall_prop.mp (by decide), rfl⟩
  short _ := by decide

/-- `==` -/
def eqToken : PrintedToken where
  rule := .eq
  spelling := [byte '=', byte '=']
  not_spaces := by decide
  matched := Rule.mem_eq.mpr rfl
  short _ := by decide

theorem makeToken_printTokens_hex :
    ∃ out, makeToken (printTokens 1 [(hexToken, 0), (eqToken, 0), (hexToken, 2)]) .zero = some out ∧
      out.ret = true ∧ out.state.nrToken = 3 ∧
      ∀ (i : Nat) t gap, [(hexToken, 0), (eqToken, 0), (hexToken, 2)][i]? = some (t, gap) →
        out.state.typeOf i = t.rule.tokenType ∧
          (isLiteral t.rule.tokenType = true → out.state.strOf i = t.spelling) :=
  makeToken_printTokens 1 [(hexToken, 0), (eqToken, 0), (hexToken, 2)] .zero (by decide)
    (by unfold Separated; simp only [List.isChain_cons_cons, List.isChain_singleton]; decide)

end NoteNew.Expr
