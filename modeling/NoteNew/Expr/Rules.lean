import Mathlib.Data.Bool.AllAny
import NoteNew.Expr.Token
import NoteNew.Regex.MaximalMunch

/-!
# The rule table

The twelve rules of the tokenizer in table order, each with its pattern and its token type, and the
search for the first of them that matches where the text stands. Two rules that match at one place
are a hexadecimal and a decimal number (`Rule.eq_or_hex_dec`), and the hexadecimal one, which comes
first in the table, is the longer match; so the first match is the longest (`tryRules_eq_longest`).
-/

namespace NoteNew.Expr

open Regex RegularExpression

/-! ## Characters -/

/-- A character constant as a byte of the string. -/
abbrev byte (c : Char) : UInt8 := c.toUInt8

/-- The characters of a range such as `a-z` in the C locale. -/
def charRange (lo hi : Char) : List UInt8 :=
  (List.range' lo.toNat (hi.toNat + 1 - lo.toNat)).map .ofNat

/-- `0-9` -/
def digits : List UInt8 := charRange '0' '9'

/-- `a-zA-Z` -/
def letters : List UInt8 := charRange 'a' 'z' ++ charRange 'A' 'Z'

/-- `0-9a-fA-F` -/
def hexDigits : List UInt8 := charRange '0' '9' ++ charRange 'a' 'f' ++ charRange 'A' 'F'

/-- `A-Za-z_` -/
def identStart : List UInt8 := charRange 'A' 'Z' ++ charRange 'a' 'z' ++ [byte '_']

/-- `A-Za-z0-9_` -/
def identChars : List UInt8 :=
  charRange 'A' 'Z' ++ charRange 'a' 'z' ++ charRange '0' '9' ++ [byte '_']

/-! ## The table -/

/-- The rows of the table. -/
inductive Rule where
  | spaces
  | hex
  | reg
  | ident
  | dec
  | plus
  | minus
  | star
  | slash
  | lparen
  | rparen
  | eq
deriving DecidableEq, Repr

namespace Rule

/-- The pattern of a row, in table order ` +`, `0[xX][0-9a-fA-F]+`, `\$(0|[a-zA-Z]+[0-9]*)`,
`[A-Za-z_][A-Za-z0-9_]*`, `[0-9]+`, the six single characters, and `==`. -/
def regex : Rule → RegularExpression UInt8
  | spaces => oneOrMore (anyOf [byte ' '])
  | hex => char (byte '0') * (anyOf [byte 'x', byte 'X'] * oneOrMore (anyOf hexDigits))
  | reg =>
    char (byte '$') *
      (char (byte '0') + oneOrMore (anyOf letters) * RegularExpression.star (anyOf digits))
  | ident => anyOf identStart * RegularExpression.star (anyOf identChars)
  | dec => oneOrMore (anyOf digits)
  | plus => char (byte '+')
  | minus => char (byte '-')
  | star => char (byte '*')
  | slash => char (byte '/')
  | lparen => char (byte '(')
  | rparen => char (byte ')')
  | eq => char (byte '=') * char (byte '=')

/-- The token type of a row. -/
def tokenType : Rule → Int
  | spaces => tkNotype
  | hex => tkHex
  | reg => tkReg
  | ident => tkIdent
  | dec => tkDec
  | plus => chr '+'
  | minus => chr '-'
  | star => chr '*'
  | slash => chr '/'
  | lparen => chr '('
  | rparen => chr ')'
  | eq => tkEq

end Rule

/-- The table in the order in which its rows are tried. -/
def rules : List Rule :=
  [.spaces, .hex, .reg, .ident, .dec, .plus, .minus, .star, .slash, .lparen, .rparen, .eq]

/-- The inner loop: the first rule whose match starts where the text stands, and the length of the
match. -/
def tryRules (s : List UInt8) : Option (Rule × Nat) :=
  rules.findSome? fun r =>
    match regexec r.regex s with
    | some (0, substrLen) => some (r, substrLen)
    | _ => none

theorem tryRules_eq (s : List UInt8) : tryRules s = firstRule Rule.regex rules s := by
  unfold tryRules firstRule
  congr 1
  funext r
  cases h : longestPrefix r.regex s with
  | some n =>
    rw [regexec_eq_zero_iff.mpr h]
    rfl
  | none =>
    cases hr : regexec r.regex s with
    | none => rfl
    | some m =>
      obtain ⟨_ | so, eo⟩ := m
      · rw [regexec_eq_zero_iff.mp hr] at h
        cases h
      · rfl

theorem mem_rules (r : Rule) : r ∈ rules := by
  cases r <;> decide

/-! ## The words of a rule -/

namespace Rule

/-- The characters that a match of the rule can begin with. -/
def first : Rule → List UInt8
  | spaces => [byte ' ']
  | hex => [byte '0']
  | reg => [byte '$']
  | ident => identStart
  | dec => digits
  | plus => [byte '+']
  | minus => [byte '-']
  | star => [byte '*']
  | slash => [byte '/']
  | lparen => [byte '(']
  | rparen => [byte ')']
  | eq => [byte '=']

/-- A class that holds the characters of a match behind its first one; what follows a match of the
rule and is not in the class cannot prolong it. -/
def rest : Rule → List UInt8
  | spaces => [byte ' ']
  | hex => identChars
  | reg => identChars
  | ident => identChars
  | dec => identChars
  | plus => []
  | minus => []
  | star => []
  | slash => []
  | lparen => []
  | rparen => []
  | eq => [byte '=']

theorem mem_hex {w : List UInt8} : w ∈ hex.regex.matches' ↔
    ∃ x ∈ [byte 'x', byte 'X'], ∃ ds, ds ≠ [] ∧ (∀ d ∈ ds, d ∈ hexDigits) ∧
      w = byte '0' :: x :: ds := by
  simp only [regex, mem_char_mul, mem_anyOf_mul, mem_oneOrMore_anyOf]
  constructor
  · intro h
    obtain ⟨v, ⟨x, hx, ds, ⟨hne, hds⟩, rfl⟩, rfl⟩ := h
    exact ⟨x, hx, ds, hne, hds, rfl⟩
  · intro h
    obtain ⟨x, hx, ds, hne, hds, rfl⟩ := h
    exact ⟨_, ⟨x, hx, ds, ⟨hne, hds⟩, rfl⟩, rfl⟩

theorem mem_reg {w : List UInt8} : w ∈ reg.regex.matches' ↔ w = [byte '$', byte '0'] ∨
    ∃ ls ds, ls ≠ [] ∧ (∀ c ∈ ls, c ∈ letters) ∧ (∀ d ∈ ds, d ∈ digits) ∧
      w = byte '$' :: (ls ++ ds) := by
  simp only [regex, mem_char_mul]
  constructor
  · intro h
    rcases h with ⟨v, h | ⟨ls, hls, ds, hds, rfl⟩, rfl⟩
    · have heq : v = [byte '0'] := h
      subst heq
      exact Or.inl rfl
    · obtain ⟨hne, hls⟩ := mem_oneOrMore_anyOf.mp hls
      exact Or.inr ⟨ls, ds, hne, hls, mem_star_anyOf.mp hds, rfl⟩
  · intro h
    rcases h with rfl | ⟨ls, ds, hne, hls, hds, rfl⟩
    · exact ⟨_, Or.inl rfl, rfl⟩
    · have hls' := mem_oneOrMore_anyOf.mpr ⟨hne, hls⟩
      exact ⟨_, Or.inr ⟨ls, hls', ds, mem_star_anyOf.mpr hds, rfl⟩, rfl⟩

theorem mem_ident {w : List UInt8} : w ∈ ident.regex.matches' ↔
    ∃ c ∈ identStart, ∃ t, (∀ d ∈ t, d ∈ identChars) ∧ w = c :: t := by
  simp only [regex, mem_anyOf_mul, mem_star_anyOf]

theorem mem_dec {w : List UInt8} :
    w ∈ dec.regex.matches' ↔ w ≠ [] ∧ ∀ d ∈ w, d ∈ digits :=
  mem_oneOrMore_anyOf

theorem mem_spaces {w : List UInt8} :
    w ∈ spaces.regex.matches' ↔ w ≠ [] ∧ ∀ d ∈ w, d = byte ' ' := by
  simp only [regex, mem_oneOrMore_anyOf, List.mem_singleton]

theorem mem_eq {w : List UInt8} : w ∈ eq.regex.matches' ↔ w = [byte '=', byte '='] := by
  simp only [regex, mem_char_mul]
  constructor
  · intro h
    obtain ⟨v, hv, rfl⟩ := h
    have heq : v = [byte '='] := hv
    subst heq
    rfl
  · intro h
    subst h
    exact ⟨[byte '='], rfl, rfl⟩

theorem mem_char {a : UInt8} {w : List UInt8} : w ∈ (char a).matches' ↔ w = [a] := Iff.rfl

theorem digits_subset : ∀ c ∈ digits, c ∈ identChars := by
  intro c hc
  unfold identChars
  simp only [List.mem_append]
  exact Or.inl (Or.inr hc)

theorem letters_subset : ∀ c ∈ letters, c ∈ identChars := by
  intro c hc
  unfold identChars
  simp only [List.mem_append]
  exact Or.inl (Or.inl (List.mem_append.mp hc).symm)

theorem identStart_subset : ∀ c ∈ identStart, c ∈ identChars := by
  intro c hc
  unfold identStart at hc
  unfold identChars
  simp only [List.mem_append] at hc ⊢
  tauto

theorem hexDigits_subset : ∀ c ∈ hexDigits, c ∈ identChars :=
  List.all_iff_forall_prop.mp (by decide)

/-- The `x` of a hexadecimal number is a letter and no digit. -/
theorem hexMark_not_digit : ∀ c ∈ [byte 'x', byte 'X'], c ∈ identChars ∧ c ∉ digits :=
  List.all_iff_forall_prop.mp (by decide)

/-- The shape of a match. -/
theorem shape {r : Rule} {w : List UInt8} (hw : w ∈ r.regex.matches') :
    ∃ c t, w = c :: t ∧ c ∈ r.first ∧ ∀ d ∈ t, d ∈ r.rest := by
  cases r with
  | spaces =>
    obtain ⟨hne, h⟩ := mem_spaces.mp hw
    obtain ⟨c, t, rfl⟩ := List.exists_cons_of_ne_nil hne
    exact ⟨c, t, rfl, List.mem_singleton.mpr (h c List.mem_cons_self),
      fun d hd => List.mem_singleton.mpr (h d (List.mem_cons_of_mem _ hd))⟩
  | hex =>
    obtain ⟨x, hx, ds, -, hds, rfl⟩ := mem_hex.mp hw
    refine ⟨_, _, rfl, List.mem_singleton.mpr rfl, List.forall_mem_cons.mpr ⟨?_, ?_⟩⟩
    · exact (hexMark_not_digit x hx).1
    · exact fun d hd => hexDigits_subset d (hds d hd)
  | reg =>
    rcases mem_reg.mp hw with rfl | ⟨ls, ds, -, hls, hds, rfl⟩
    · refine ⟨_, _, rfl, List.mem_singleton.mpr rfl, fun d hd => digits_subset d ?_⟩
      obtain rfl := List.mem_singleton.mp hd
      decide
    · refine ⟨_, _, rfl, List.mem_singleton.mpr rfl, List.forall_mem_append.mpr ⟨?_, ?_⟩⟩
      · exact fun c hc => letters_subset c (hls c hc)
      · exact fun d hd => digits_subset d (hds d hd)
  | ident =>
    obtain ⟨c, hc, t, ht, rfl⟩ := mem_ident.mp hw
    exact ⟨c, t, rfl, hc, ht⟩
  | dec =>
    obtain ⟨hne, h⟩ := mem_dec.mp hw
    obtain ⟨c, t, rfl⟩ := List.exists_cons_of_ne_nil hne
    exact ⟨c, t, rfl, h c List.mem_cons_self,
      fun d hd => digits_subset d (h d (List.mem_cons_of_mem _ hd))⟩
  | eq =>
    obtain rfl := mem_eq.mp hw
    exact ⟨_, _, rfl, List.mem_singleton.mpr rfl, fun d hd => hd⟩
  | _ =>
    obtain rfl := mem_char.mp hw
    exact ⟨_, [], rfl, List.mem_singleton.mpr rfl, by simp⟩

theorem nil_notMem (r : Rule) : [] ∉ r.regex.matches' := by
  intro h
  obtain ⟨c, t, hct, -⟩ := shape h
  cases hct

/-! ## Which rules match at one place -/

/-- The rule that a character belongs to as the first one of a match, a leading zero counted as
decimal. -/
def lead (c : UInt8) : Option Rule :=
  [spaces, reg, ident, dec, plus, minus, star, slash, lparen, rparen, eq].find? (c ∈ ·.first)

theorem lead_first (r : Rule) : ∀ c ∈ r.first, lead c = some (if r = hex then dec else r) := by
  cases r <;> exact List.all_iff_forall_prop.mp (by decide)

/-- Two rules that match at one place are equal or are a hexadecimal and a decimal number. -/
theorem eq_or_hex_dec {r r' : Rule} {s : List UInt8} {m n : Nat}
    (h : longestPrefix r.regex s = some m) (h' : longestPrefix r'.regex s = some n) :
    r = r' ∨ (r = hex ∧ r' = dec) ∨ (r = dec ∧ r' = hex) := by
  obtain ⟨c, t, ht, hc, -⟩ := shape (longestPrefix_eq_some_iff.mp h).mem
  obtain ⟨c', t', ht', hc', -⟩ := shape (longestPrefix_eq_some_iff.mp h').mem
  have hcc : c = c' := by
    have hhead : s.head? = some c := by rw [← List.take_append_drop m s, ht]; rfl
    have hhead' : s.head? = some c' := by rw [← List.take_append_drop n s, ht']; rfl
    exact Option.some.inj (hhead.symm.trans hhead')
  have hlead := (lead_first r c hc).symm.trans (hcc ▸ lead_first r' c' hc')
  revert hlead
  cases r <;> cases r' <;> decide

/-- Where both match, the hexadecimal number is the longer match. -/
theorem hex_beats_dec {s : List UInt8} {m n : Nat} (h : longestPrefix hex.regex s = some m)
    (h' : longestPrefix dec.regex s = some n) : n < m := by
  have hm := longestPrefix_eq_some_iff.mp h
  have hn := longestPrefix_eq_some_iff.mp h'
  obtain ⟨x, hx, ds, hne, -, hword⟩ := mem_hex.mp hm.mem
  obtain ⟨-, hdigits⟩ := mem_dec.mp hn.mem
  have hlen : m = ds.length + 2 := by
    have := congrArg List.length hword
    rw [List.length_take, min_eq_left hm.le] at this
    simpa using this
  have hpos := List.length_pos_iff.mpr hne
  -- the `x` behind the zero is no digit
  have hxs : s[1]? = some x := by
    rw [← List.take_append_drop m s, hword]
    rfl
  by_contra hle
  have hmem : x ∈ s.take n := by
    have hget : (s.take n)[1]? = some x := by
      rw [List.getElem?_take_of_lt (by omega), hxs]
    exact List.mem_of_getElem? hget
  exact (hexMark_not_digit x hx).2 (hdigits x hmem)

end Rule

/-! ## The first match is the longest -/

open Rule

/-- The hexadecimal rule is tried before every other rule that could match. -/
theorem tryRules_hex {s : List UInt8} {n : Nat} (h : longestPrefix hex.regex s = some n) :
    tryRules s = some (hex, n) := by
  have hspaces : longestPrefix spaces.regex s = none := by
    cases hs : longestPrefix spaces.regex s with
    | none => rfl
    | some m => rcases eq_or_hex_dec h hs with h | h | h <;> simp at h
  rw [tryRules_eq]
  simp [firstRule, rules, hspaces, h]

/-- The match of a rule is found, unless it is decimal and a hexadecimal number starts there. -/
theorem tryRules_of_longestPrefix {r : Rule} {s : List UInt8} {n : Nat}
    (h : longestPrefix r.regex s = some n) (hdec : r = dec → longestPrefix hex.regex s = none) :
    tryRules s = some (r, n) := by
  by_cases hr : r = hex
  · subst hr
    exact tryRules_hex h
  · rw [tryRules_eq]
    cases hf : firstRule Rule.regex rules s with
    | none =>
      rw [(firstRule_eq_none_iff _).mp hf r (mem_rules r)] at h
      cases h
    | some x =>
      obtain ⟨r', m⟩ := x
      have hm := (firstRule_eq_some _ hf).2
      rcases eq_or_hex_dec h hm with rfl | ⟨rfl, -⟩ | ⟨rfl, rfl⟩
      · rw [hm] at h
        rw [Option.some.inj h]
      · exact absurd rfl hr
      · rw [hdec rfl] at hm
        cases hm

/-- **The first match is the longest**: trying the rules in table order finds the maximal munch. -/
theorem tryRules_eq_longest (s : List UInt8) : tryRules s = longestRule Rule.regex rules s := by
  cases hl : longestRule Rule.regex rules s with
  | none =>
    rw [tryRules_eq, firstRule_eq_none_iff]
    exact (longestRule_eq_none_iff _).mp hl
  | some x =>
    obtain ⟨r, n⟩ := x
    obtain ⟨-, hn, hmax⟩ := longestRule_eq_some _ hl
    refine tryRules_of_longestPrefix hn fun hr => ?_
    subst hr
    cases hh : longestPrefix hex.regex s with
    | none => rfl
    | some m =>
      have := hmax hex (mem_rules _) m hh
      have := hex_beats_dec hh hn
      omega

/-- A spelling is matched as a whole when what follows it cannot prolong it; `==` has one length. -/
theorem tryRules_append {r : Rule} {w s : List UInt8} (hw : w ∈ r.regex.matches')
    (hs : r = eq ∨ ∀ c, s.head? = some c → c ∉ r.rest) :
    tryRules (w ++ s) = some (r, w.length) := by
  obtain ⟨c, t, rfl, -, ht⟩ := shape hw
  have hlongest : longestPrefix r.regex ((c :: t) ++ s) = some (c :: t).length := by
    rcases hs with rfl | hs
    · refine longestPrefix_of_length hw (fun v hv => ?_) s
      rw [mem_eq.mp hv, mem_eq.mp hw]
    · refine longestPrefix_of_tail hw (List.cons_ne_nil c t) (fun v hv d hd => ?_) hs
      obtain ⟨c', t', rfl, -, ht'⟩ := shape hv
      exact ht' d hd
  refine tryRules_of_longestPrefix hlongest fun hr => ?_
  subst hr
  cases hh : longestPrefix hex.regex ((c :: t) ++ s) with
  | none => rfl
  | some m =>
    -- the hexadecimal number would go on into what follows
    have hm := longestPrefix_eq_some_iff.mp hh
    have hlt := hex_beats_dec hh hlongest
    obtain ⟨c', t', hct, -, ht'⟩ := shape hm.mem
    have hs' : ∀ c, s.head? = some c → c ∉ identChars := hs.resolve_left (by decide)
    cases s with
    | nil =>
      have := hm.le
      rw [List.append_nil] at this
      omega
    | cons d s =>
      have hget : (c' :: t')[(c :: t).length]? = some d := by
        rw [← hct, List.getElem?_take_of_lt hlt, List.getElem?_append_right (Nat.le_refl _)]
        simp
      rw [List.length_cons, List.getElem?_cons_succ] at hget
      exact absurd (ht' d (List.mem_of_getElem? hget)) (hs' d rfl)

end NoteNew.Expr
