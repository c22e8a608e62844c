import NoteNew.Expr.Spelling

/-!
# First match and longest match

`make_token` takes the first rule of the table that matches where the text stands. That rule is the
only one whose match there is the longest (`tryRules_firstLongest`), so a tokenizer that takes the
longest match over the same rules, in whatever order it has them, builds the same tokens
(`makeToken_longest`).
-/

namespace NoteNew.Expr

open Regex

variable {s : List UInt8} {table : List Rule} {r : Rule} {n : Nat}

/-! ## The rule that is taken -/

/-- The first rule of the table that matches at the front of the text is `r`, over `n` characters,
and every other rule that matches there matches fewer. -/
structure FirstLongest (s : List UInt8) (r : Rule) (n : Nat) : Prop where
  taken : tryRules s = some (r, n)
  first : ∃ front back, rules = front ++ r :: back ∧
    ∀ r' ∈ front, ∀ m, ¬ IsLongest r'.regex.matches' s m
  longest : IsLongest r.regex.matches' s n
  unique : ∀ r' ∈ rules, r' ≠ r → ∀ m, IsLongest r'.regex.matches' s m → m < n

theorem not_isLongest_of_none (h : longestPrefix r.regex s = none) (m : Nat) :
    ¬ IsLongest r.regex.matches' s m := by
  rw [← longestPrefix_eq_some_iff, h]
  simp

/-- The rules in front of the first one that matches do not match. -/
theorem firstRule_split (h : firstRule Rule.regex rules s = some (r, n)) :
    ∃ front back, rules = front ++ r :: back ∧
      ∀ r' ∈ front, ∀ m, ¬ IsLongest r'.regex.matches' s m := by
  unfold firstRule at h
  obtain ⟨front, q, back, hsplit, hq, hfront⟩ := List.findSome?_eq_some_iff.mp h
  obtain ⟨m, -, heq⟩ := Option.map_eq_some_iff.mp hq
  obtain ⟨rfl, rfl⟩ := Prod.mk.inj heq
  refine ⟨front, back, hsplit, ?_⟩
  intro r' hr'
  exact not_isLongest_of_none (Option.map_eq_none_iff.mp (hfront r' hr'))

/-- **The first match is the only longest one.** -/
theorem tryRules_firstLongest (h : tryRules s = some (r, n)) : FirstLongest s r n where
  taken := h
  first := firstRule_split (tryRules_eq s ▸ h)
  longest := longestPrefix_eq_some_iff.mp (firstRule_eq_some _ (tryRules_eq s ▸ h)).2
  unique r' _ hne m hm := by
    have hn := (firstRule_eq_some _ (tryRules_eq s ▸ h)).2
    have hm := longestPrefix_eq_some_iff.mpr hm
    rcases Rule.eq_or_hex_dec hn hm with rfl | ⟨rfl, rfl⟩ | ⟨rfl, rfl⟩
    · exact absurd rfl hne
    · exact Rule.hex_beats_dec hn hm
    · -- the hexadecimal rule comes first and would have been taken
      rw [tryRules_hex hm] at h
      cases h

/-- Where some rule matches, one is taken. -/
theorem exists_tryRules (h : IsLongest r.regex.matches' s n) :
    ∃ r n, tryRules s = some (r, n) := by
  cases htry : tryRules s with
  | some m => exact ⟨m.1, m.2, rfl⟩
  | none =>
    rw [tryRules_eq, firstRule_eq_none_iff] at htry
    exact absurd h (not_isLongest_of_none (htry r (mem_rules r)) n)

/-! ## The longest-match tokenizer -/

/-- The tokenizer that takes the longest match over a table. -/
def longestLexer (table : List Rule) : Lexer Rule UInt8 :=
  Lexer.longest Rule.regex table fun r _ => r.nil_notMem

/-- The token of a lexeme; a literal keeps its spelling. -/
def lexemeToken (x : Lexeme) : Token where
  type := x.1.tokenType
  str := if isLiteral x.1.tokenType then x.2 else []

/-- The tokens that the longest-match tokenizer reads. -/
def longestTokens (table : List Rule) (s : List UInt8) : List Token :=
  (((longestLexer table).segment s).1.filter (·.1 ≠ .spaces)).map lexemeToken

/-- `tokens[0]` to `tokens[nr_token - 1]`, with the spellings that are kept. -/
def LexState.tokenList (st : LexState) : List Token :=
  (List.range st.nrToken.toNat).map fun k : Nat =>
    { type := st.typeOf k
      str := if isLiteral (st.typeOf k) then st.strOf k else [] }

/-- Over the same rules in another order, the longest match is the one of the first match. -/
theorem longestLexer_next (h : table.Perm rules) (s : List UInt8) :
    (longestLexer table).next s = lexer.next s := by
  rw [← tryRules_eq_next]
  unfold longestLexer Lexer.longest
  cases htry : tryRules s with
  | none =>
    rw [tryRules_eq, firstRule_eq_none_iff] at htry
    rw [longestRule_eq_none_iff]
    intro r _
    exact htry r (mem_rules r)
  | some m =>
    have hm := tryRules_firstLongest htry
    apply longestRule_of_unique
    · exact h.mem_iff.mpr (mem_rules m.1)
    · exact longestPrefix_eq_some_iff.mpr hm.longest
    · intro r' hr' hne k hk
      exact hm.unique r' (h.mem_iff.mp hr') hne k (longestPrefix_eq_some_iff.mp hk)

theorem longestLexer_segment (h : table.Perm rules) (s : List UInt8) :
    (longestLexer table).segment s = lexer.segment s :=
  Lexer.segment_congr (longestLexer_next h) s

/-- After success the array holds the tokens of the lexemes. -/
theorem LoopSpec.tokenList {e : List UInt8} {st : LexState} {out : LexResult}
    (h : LoopSpec e e 32 { st with nrToken := 0, stores := [] } out) (hret : out.ret = true) :
    out.state.tokenList = (tokenLexemes e).map lexemeToken := by
  obtain ⟨-, -, hfits⟩ := h.accepts hret
  have hstate := h.stored hret
  have hcount : out.state.nrToken = (tokenLexemes e).length := by
    rw [hstate, storeLexemes_nrToken, Int.zero_add]
  unfold LexState.tokenList
  rw [hcount, Int.toNat_natCast]
  apply List.ext_getElem (by simp)
  intro i hi hi'
  rw [List.length_map] at hi'
  have hx := List.getElem?_eq_getElem hi'
  have hmem := List.mem_of_getElem? hx
  have htype : out.state.typeOf i = (tokenLexemes e)[i].1.tokenType := by
    rw [hstate]
    simpa using storeLexemes_typeOf { st with nrToken := 0, stores := [] } hx
  rw [List.getElem_map, List.getElem_map, List.getElem_range, lexemeToken, htype]
  by_cases hlit : isLiteral (tokenLexemes e)[i].1.tokenType = true
  · have hstr : out.state.strOf i = (tokenLexemes e)[i].2 := by
      rw [hstate]
      simpa using storeLexemes_strOf { st with nrToken := 0, stores := [] } hx hlit
        (hfits _ hmem) (nul_notMem (tokenLexeme_matches hmem).1)
    rw [if_pos hlit, if_pos hlit, hstr]
  · rw [if_neg hlit, if_neg hlit]

/-- **First match is longest match**: wherever in an expression some rule matches, the rule that
`make_token` takes is the first one in table order and the only one with the longest match; and when
it returns `true`, the tokens are those that the longest-match tokenizer reads, which then reads the
whole expression, over any order of the table. -/
theorem makeToken_longest (e : CString) (st : LexState) :
    (∀ position, (∃ r ∈ rules, ∃ n, IsLongest r.regex.matches' (e.chars.drop position) n) →
      ∃ r n, FirstLongest (e.chars.drop position) r n) ∧
    ∃ out, makeToken e st = some out ∧ (out.ret = true →
      ∀ table : List Rule, table.Perm rules →
        ((longestLexer table).segment e.chars).2 = [] ∧
          out.state.tokenList = longestTokens table e.chars) := by
  constructor
  · intro position hmatch
    obtain ⟨r, -, n, hr⟩ := hmatch
    obtain ⟨r', n', htry⟩ := exists_tryRules hr
    exact ⟨r', n', tryRules_firstLongest htry⟩
  · obtain ⟨out, hout, hspec⟩ := makeToken_spec e st
    refine ⟨out, hout, fun hret table htable => ?_⟩
    rw [longestTokens, longestLexer_segment htable]
    exact ⟨(hspec.accepts hret).1, hspec.tokenList hret⟩

theorem makeToken_longest_sum :
    ∃ out, makeToken sumWithRegister .zero = some out ∧ out.ret = true ∧
      ∀ table : List Rule, table.Perm rules →
        ((longestLexer table).segment sumWithRegister.chars).2 = [] ∧
          out.state.tokenList = longestTokens table sumWithRegister.chars := by
  obtain ⟨-, out, hout, hlongest⟩ := makeToken_longest sumWithRegister .zero
  have hret : out.ret = true := makeToken_ret hout (by decide +kernel)
  exact ⟨out, hout, hret, hlongest hret⟩

end NoteNew.Expr
