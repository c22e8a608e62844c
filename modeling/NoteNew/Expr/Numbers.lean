import NoteNew.Expr.Acceptance
import NoteNew.Expr.TokenStorage
import NoteNew.Regex.Truncation

/-!
# Numbers with letters behind them

The notes call `0xg80100000` lexically illegal; the table has a rule for each of its two parts.
Where the hexadecimal rule finds no digit behind the `x` the decimal rule takes the zero, and what
is left is an identifier. So the tokenizer refuses such an input only for another reason: of an
expression it accepts, no number token is followed by a letter or underscore exactly when every word
that begins with a digit is a number as a whole (`makeToken_unglued_iff`).
-/

namespace NoteNew.Expr

open Regex

/-! ## Numbers among the tokens and in the text -/

/-- No decimal or hexadecimal number that the scan comes to has a letter or underscore right behind
it. -/
def NumbersUnglued (s : List UInt8) : Prop :=
  ∀ position r n, Reaches tryRules s position → tryRules (s.drop position) = some (r, n) →
    r.tokenType = tkDec ∨ r.tokenType = tkHex →
    ∀ c, ((s.drop position).drop n).head? = some c → c ∉ letters ∧ c ≠ byte '_'

/-- The letters, digits and underscores at the front of a text. -/
def word (s : List UInt8) : List UInt8 :=
  s.takeWhile (· ∈ identChars)

/-- A word can begin behind this text. Behind a letter, digit or underscore one goes on, and behind
a `$` stands a register name; the register `$0` ends with its zero. -/
def WordStart (u : List UInt8) : Prop :=
  (∀ c, u.getLast? = some c → c ∉ identChars ∧ c ≠ byte '$') ∨ [byte '$', byte '0'] <:+ u

/-- Every word that begins with a digit is a decimal or hexadecimal number. -/
def NumbersWhole (s : List UInt8) : Prop :=
  ∀ u v, s = u ++ v → WordStart u → (∃ d ∈ digits, v.head? = some d) →
    word v ∈ Rule.dec.regex.matches' ∨ word v ∈ Rule.hex.regex.matches'

/-! ## Characters at the ends of a match -/

variable {s t u v w : List UInt8} {r : Rule} {n : Nat} {c d : UInt8}

theorem isNumber_iff (r : Rule) :
    r.tokenType = tkDec ∨ r.tokenType = tkHex ↔ r = .dec ∨ r = .hex := by
  cases r <;> decide

namespace Rule

theorem dollar_notMem_rest (r : Rule) : byte '$' ∉ r.rest := by
  cases r <;> decide

/-- What the first character of a match says about the rule. -/
theorem first_spec (r : Rule) :
    ∀ c ∈ r.first, (c ∈ digits ↔ r = dec ∨ r = hex) ∧ (c = byte '$' → r = reg) := by
  cases r <;> exact List.all_iff_forall_prop.mp (by decide)

theorem first_of_rest (h : r.rest = identChars) (hc : c ∈ r.first) :
    c ∈ identChars ∨ c = byte '$' := by
  cases r with
  | hex =>
    obtain rfl := List.mem_singleton.mp hc
    exact Or.inl (digits_subset _ (by decide))
  | reg => exact Or.inr (List.mem_singleton.mp hc)
  | ident => exact Or.inl (identStart_subset c hc)
  | dec => exact Or.inl (digits_subset c hc)
  | _ => cases h

/-- The rules whose matches can hold a digit behind their first character. -/
theorem rest_eq_of_digit (hd : d ∈ digits) (h : d ∈ r.rest) : r.rest = identChars := by
  have hne : ∀ d ∈ digits, d ≠ byte ' ' ∧ d ≠ byte '=' := List.all_iff_forall_prop.mp (by decide)
  cases r with
  | spaces => exact absurd (List.mem_singleton.mp h) (hne d hd).1
  | eq => exact absurd (List.mem_singleton.mp h) (hne d hd).2
  | hex => rfl
  | reg => rfl
  | ident => rfl
  | dec => rfl
  | _ => cases h

theorem number_subset (hr : r = dec ∨ r = hex) (hw : w ∈ r.regex.matches') :
    ∀ c ∈ w, c ∈ identChars := by
  obtain ⟨c, t, rfl, hc, ht⟩ := shape hw
  have hrest : r.rest = identChars := by
    rcases hr with rfl | rfl
    · rfl
    · rfl
  rw [hrest] at ht
  exact List.forall_mem_cons.mpr ⟨digits_subset c ((first_spec r c hc).1.mpr hr), ht⟩

/-- A match does not end with a `$`. -/
theorem getLast?_ne_dollar (hw : w ∈ r.regex.matches') : w.getLast? ≠ some (byte '$') := by
  obtain ⟨c, t, rfl, hc, ht⟩ := shape hw
  intro hlast
  rcases List.eq_nil_or_concat' t with rfl | ⟨t, d, rfl⟩
  · have hdollar : c = byte '$' := by simpa using hlast
    subst hdollar
    obtain rfl := (first_spec r _ hc).2 rfl
    rcases mem_reg.mp hw with h | ⟨ls, ds, hne, -, -, h⟩
    · cases h
    · exact hne (List.append_eq_nil_iff.mp (List.cons.inj h).2.symm).1
  · have hdollar : d = byte '$' := by
      rw [← List.cons_append, List.getLast?_concat] at hlast
      exact Option.some.inj hlast
    subst hdollar
    exact dollar_notMem_rest r (ht _ (by simp))

end Rule

/-! ## Words -/

theorem word_append (hw : ∀ c ∈ w, c ∈ identChars) (s : List UInt8) :
    word (w ++ s) = w ++ word s :=
  List.takeWhile_append_of_pos fun c hc => decide_eq_true (hw c hc)

theorem word_append_dropWhile (s : List UInt8) :
    word s ++ s.dropWhile (· ∈ identChars) = s :=
  List.takeWhile_append_dropWhile

theorem word_eq_nil_iff : word s = [] ↔ ∀ c, s.head? = some c → c ∉ identChars := by
  cases s with
  | nil => simp [word]
  | cons c s => simp [word, List.takeWhile_cons]

theorem wordStart_singleton (hc : c ∉ identChars ∧ c ≠ byte '$') : WordStart [c] := by
  refine Or.inl fun d hd => ?_
  obtain rfl := Option.some.inj hd
  exact hc

/-- Within a word none begins. -/
theorem not_wordStart (hne : u ≠ []) (hu : ∀ c ∈ u, c ∈ identChars) : ¬ WordStart u := by
  intro hstart
  rcases hstart with hlast | hsuffix
  · obtain ⟨hnot, -⟩ := hlast _ (List.getLast?_eq_some_getLast hne)
    exact hnot (hu _ (List.getLast_mem hne))
  · exact absurd (hu _ (hsuffix.subset List.mem_cons_self)) (by decide)

/-- Behind a match a word begins, or a digit would belong to the match. -/
theorem wordStart_or_snoc (hw : w ∈ r.regex.matches') (hd : d ∈ digits) :
    WordStart w ∨ w ++ [d] ∈ r.regex.matches' := by
  have hsnoc : ∀ {l m : List UInt8}, (∀ c ∈ l, c ∈ m) → d ∈ m → ∀ c ∈ l ++ [d], c ∈ m :=
    fun hl hdm => List.forall_mem_append.mpr ⟨hl, by simpa using hdm⟩
  cases r with
  | spaces =>
    obtain ⟨hne, hall⟩ := Rule.mem_spaces.mp hw
    refine Or.inl (Or.inl fun c hc => ?_)
    obtain rfl := hall c (List.mem_of_getLast? hc)
    decide
  | hex =>
    obtain ⟨x, hx, ds, -, hds, rfl⟩ := Rule.mem_hex.mp hw
    exact Or.inr (Rule.mem_hex.mpr ⟨x, hx, ds ++ [d], by simp,
      hsnoc hds (List.mem_append_left _ (List.mem_append_left _ hd)), rfl⟩)
  | reg =>
    rcases Rule.mem_reg.mp hw with rfl | ⟨ls, ds, hne, hls, hds, rfl⟩
    · exact Or.inl (Or.inr List.suffix_rfl)
    · exact Or.inr (Rule.mem_reg.mpr (Or.inr ⟨ls, ds ++ [d], hne, hls, hsnoc hds hd, by simp⟩))
  | ident =>
    obtain ⟨c, hc, t, ht, rfl⟩ := Rule.mem_ident.mp hw
    exact Or.inr (Rule.mem_ident.mpr ⟨c, hc, t ++ [d], hsnoc ht (Rule.digits_subset d hd), rfl⟩)
  | dec =>
    obtain ⟨-, hall⟩ := Rule.mem_dec.mp hw
    exact Or.inr (Rule.mem_dec.mpr ⟨by simp, hsnoc hall hd⟩)
  | eq =>
    obtain rfl := Rule.mem_eq.mp hw
    refine Or.inl (Or.inl fun c hc => ?_)
    obtain rfl := Option.some.inj hc
    decide
  | _ =>
    obtain rfl := Rule.mem_char.mp hw
    exact Or.inl (wordStart_singleton (by decide))

/-- No word with a digit in front begins inside a match. -/
theorem not_wordStart_inside (hw : u ++ d :: v ∈ r.regex.matches') (hu : u ≠ [])
    (hd : d ∈ digits) : ¬ WordStart u := by
  obtain ⟨c, t, rfl⟩ := List.exists_cons_of_ne_nil hu
  obtain ⟨c', t', heq, hc, hrest⟩ := Rule.shape hw
  obtain ⟨rfl, rfl⟩ := List.cons.inj heq
  have hident := Rule.rest_eq_of_digit hd (hrest d (by simp))
  have htail : ∀ e ∈ t, e ∈ identChars := fun e he => hident ▸ hrest e (by simp [he])
  intro hstart
  rcases hstart with hlast | hsuffix
  · -- the last character is the first one of the match, or one behind it
    rcases List.eq_nil_or_concat' t with rfl | ⟨t, e, rfl⟩
    · obtain ⟨hnot, hdollar⟩ := hlast c rfl
      rcases Rule.first_of_rest hident hc with h | h
      · exact hnot h
      · exact hdollar h
    · obtain ⟨hnot, -⟩ := hlast e (by rw [← List.cons_append, List.getLast?_concat])
      exact hnot (htail e (by simp))
  · -- only a register begins with `$`, and `$0` is not the beginning of a longer one
    rcases List.suffix_cons_iff.mp hsuffix with heq | hsuffix
    · obtain ⟨rfl, rfl⟩ := List.cons.inj heq
      obtain rfl := (Rule.first_spec r _ hc).2 rfl
      rcases Rule.mem_reg.mp hw with h | ⟨ls, ds, hne, hls, -, h⟩
      · simp at h
      · obtain ⟨a, ls, rfl⟩ := List.exists_cons_of_ne_nil hne
        obtain rfl := (List.cons.inj (List.cons.inj h).2).1
        exact absurd (hls _ List.mem_cons_self) (by decide)
    · have hmem : byte '$' ∈ t := hsuffix.subset List.mem_cons_self
      exact absurd (htail _ hmem) (by decide)

/-- What stands in front of a text does not matter to where its words begin, unless the text is
empty. -/
theorem wordStart_append (hw : w.getLast? ≠ some (byte '$')) (hu : u ≠ []) :
    WordStart (w ++ u) ↔ WordStart u := by
  have hlast : (w ++ u).getLast? = u.getLast? := List.getLast?_append_of_ne_nil w hu
  unfold WordStart
  rw [hlast]
  refine or_congr_right ⟨fun h => ?_, fun h => h.trans (List.suffix_append w u)⟩
  rcases List.eq_nil_or_concat' u with rfl | ⟨u, c, rfl⟩
  · exact absurd rfl hu
  · rcases List.eq_nil_or_concat' u with rfl | ⟨u, d, rfl⟩
    · obtain ⟨t, ht⟩ := h
      have hdrop : w = t ++ [byte '$'] := by
        rw [List.nil_append, List.append_cons t (byte '$') [byte '0']] at ht
        exact (List.append_inj' ht rfl).1.symm
      rw [hdrop, List.getLast?_concat] at hw
      exact absurd rfl hw
    · exact List.suffix_of_suffix_length_le h (List.suffix_append w _) (by simp)

/-! ## One lexeme -/

section Step

variable (h : lexer.next s = some (r, n))

include h

/-- A word that begins with a digit begins behind the lexeme, if not in front of it. -/
theorem wordStart_split (hs : s = u ++ v) (hu : u ≠ []) (hd : d ∈ digits)
    (hv : v.head? = some d) (hstart : WordStart u) :
    ∃ t, u = s.take n ++ t ∧ s.drop n = t ++ v ∧ WordStart t := by
  have hmatch := next_matches h
  rcases Nat.lt_or_ge u.length n with hlt | hge
  · obtain ⟨v, rfl⟩ := List.head?_eq_some_iff.mp hv
    obtain ⟨k, rfl⟩ := Nat.exists_eq_add_of_lt hlt
    have hword : s.take (u.length + k + 1) = u ++ d :: v.take k := by
      rw [hs, Nat.add_assoc, List.take_length_add_append, List.take_succ_cons]
    rw [hword] at hmatch
    exact absurd hstart (not_wordStart_inside hmatch hu hd)
  · have htake : u = s.take n ++ u.drop n := by
      rw [hs, List.take_append_of_le_length hge, List.take_append_drop]
    refine ⟨u.drop n, htake, by rw [hs, List.drop_append_of_le_length hge], ?_⟩
    rw [htake] at hstart
    by_cases hnil : u.drop n = []
    · rw [hnil]
      exact Or.inl (by simp)
    · exact (wordStart_append (Rule.getLast?_ne_dollar hmatch) hnil).mp hstart

/-- A digit behind the lexeme begins a word, since it would belong to the lexeme otherwise. -/
theorem wordStart_take (hd : d ∈ digits) (hs : (s.drop n).head? = some d) :
    WordStart (s.take n) := by
  obtain ⟨v, hv⟩ := List.head?_eq_some_iff.mp hs
  rcases wordStart_or_snoc (next_matches h) hd with hword | hlong
  · exact hword
  · cases longestRule_max (v := [d]) _ h (mem_rules r) hv hlong

/-- A word that begins with a digit behind the lexeme is one of the whole text. -/
theorem wordStart_join (hs : s.drop n = t ++ v) (hd : d ∈ digits) (hv : v.head? = some d)
    (hstart : WordStart t) : WordStart (s.take n ++ t) := by
  by_cases hnil : t = []
  · subst hnil
    rw [List.append_nil]
    exact wordStart_take h hd (by rw [hs, List.nil_append, hv])
  · exact (wordStart_append (Rule.getLast?_ne_dollar (next_matches h)) hnil).mpr hstart

/-- The lexeme is a number exactly when the text begins with a digit. -/
theorem isNumber_iff_head : r = .dec ∨ r = .hex ↔ ∃ d ∈ digits, s.head? = some d := by
  obtain ⟨c, t, hct, hc, -⟩ := Rule.shape (next_matches h)
  have hhead : s.head? = some c := by
    rw [← List.take_append_drop n s, hct]
    rfl
  rw [← (Rule.first_spec r c hc).1, hhead]
  constructor
  · intro hd
    exact ⟨c, hd, rfl⟩
  · intro hd
    obtain ⟨d, hd, heq⟩ := hd
    rwa [Option.some.inj heq]

/-- A number is followed by no digit. -/
theorem notMem_digits_of_number (hr : r = .dec ∨ r = .hex) (hc : (s.drop n).head? = some c) :
    c ∉ digits := by
  intro hd
  have hmatch := next_matches h
  have hne : s.take n ≠ [] := fun hnil => r.nil_notMem (hnil ▸ hmatch)
  exact not_wordStart hne (Rule.number_subset hr hmatch) (wordStart_take h hd hc)

/-- The word that a number begins is a number exactly when nothing of it is left over. -/
theorem word_isNumber_iff (hr : r = .dec ∨ r = .hex) :
    word s ∈ Rule.dec.regex.matches' ∨ word s ∈ Rule.hex.regex.matches' ↔
      ∀ c, (s.drop n).head? = some c → c ∉ identChars := by
  have hmatch := next_matches h
  have hword : word s = s.take n ++ word (s.drop n) := by
    rw [← word_append (Rule.number_subset hr hmatch), List.take_append_drop]
  have hsplit := (word_append_dropWhile (s.drop n)).symm
  rw [← word_eq_nil_iff]
  constructor
  · intro hnumber
    rw [hword] at hnumber
    rcases hnumber with hdec | hhex
    · exact longestRule_max _ h (mem_rules _) hsplit hdec
    · exact longestRule_max _ h (mem_rules _) hsplit hhex
  · intro hnil
    rw [hword, hnil, List.append_nil]
    rcases hr with rfl | rfl
    · exact Or.inl hmatch
    · exact Or.inr hmatch

/-- The words of a text that begin with a digit are those behind its first lexeme, and the one in
front if the lexeme is a number. -/
theorem numbersWhole_iff : NumbersWhole s ↔ NumbersWhole (s.drop n) ∧
    (r = .dec ∨ r = .hex → ∀ c, (s.drop n).head? = some c → c ∉ identChars) := by
  constructor
  · intro hwhole
    refine ⟨fun u v hs hstart hv => ?_, fun hr => ?_⟩
    · obtain ⟨d, hd, hhead⟩ := hv
      have hsplit : s = (s.take n ++ u) ++ v := by
        rw [List.append_assoc, ← hs, List.take_append_drop]
      exact hwhole _ v hsplit (wordStart_join h hs hd hhead hstart) ⟨d, hd, hhead⟩
    · exact (word_isNumber_iff h hr).mp
        (hwhole [] s rfl (Or.inl (by simp)) ((isNumber_iff_head h).mp hr))
  · intro hwhole
    obtain ⟨hwhole, hfirst⟩ := hwhole
    intro u v hs hstart hv
    by_cases hu : u = []
    · subst hu
      obtain rfl : s = v := hs
      have hr := (isNumber_iff_head h).mpr hv
      exact (word_isNumber_iff h hr).mpr (hfirst hr)
    · obtain ⟨d, hd, hhead⟩ := hv
      obtain ⟨t, -, hsplit, hstart⟩ := wordStart_split h hs hu hd hhead hstart
      exact hwhole t v hsplit hstart ⟨d, hd, hhead⟩

/-- The numbers that the scan comes to are the first lexeme, if it is one, and those behind it. -/
theorem numbersUnglued_iff : NumbersUnglued s ↔ NumbersUnglued (s.drop n) ∧
    (r = .dec ∨ r = .hex → ∀ c, (s.drop n).head? = some c → c ∉ letters ∧ c ≠ byte '_') := by
  have htry : tryRules s = some (r, n) := tryRules_eq_next s ▸ h
  constructor
  · intro hall
    refine ⟨fun k q m hreach hq htype => ?_, fun hr => ?_⟩
    · have hidx : (s.drop n).drop k = s.drop (n + k) := List.drop_drop
      rw [hidx] at hq ⊢
      exact hall (n + k) q m (.step htry hreach) hq htype
    · exact hall 0 r n (.start s) htry ((isNumber_iff r).mpr hr)
  · intro hall
    obtain ⟨hall, hfirst⟩ := hall
    intro k q m hreach hq htype
    cases hreach with
    | start =>
      obtain ⟨rfl, rfl⟩ := Prod.mk.inj (Option.some.inj (htry.symm.trans hq))
      exact hfirst ((isNumber_iff r).mp htype)
    | @step _ r' n' k hnext hreach =>
      obtain ⟨rfl, rfl⟩ := Prod.mk.inj (Option.some.inj (htry.symm.trans hnext))
      rw [← List.drop_drop] at hq ⊢
      exact hall k q m hreach hq htype

end Step

/-- Apart from digits the characters of words are the letters and the underscore. -/
theorem notMem_identChars_iff (hc : c ∉ digits) :
    c ∉ identChars ↔ c ∉ letters ∧ c ≠ byte '_' := by
  unfold digits at hc
  unfold identChars letters
  simp only [List.mem_append, List.mem_singleton, hc, or_false, not_or]
  rw [and_comm (a := c ∉ charRange 'A' 'Z')]

theorem numbersWhole_nil : NumbersWhole [] := by
  intro u v hs _ hv
  obtain ⟨d, -, hhead⟩ := hv
  obtain ⟨-, rfl⟩ := List.append_eq_nil_iff.mp hs.symm
  cases hhead

theorem numbersUnglued_nil : NumbersUnglued [] := by
  intro k r n _ hnext
  rw [List.drop_nil, tryRules_eq_next, lexer.next_nil] at hnext
  cases hnext

/-- **Of a text read to its end** the two properties are the same. -/
theorem numbersUnglued_iff_numbersWhole (hs : (lexer.segment s).2 = []) :
    NumbersUnglued s ↔ NumbersWhole s := by
  induction s using lexer.induction with
  | stop s h =>
    rw [lexer.segment_of_none h] at hs
    have hnil : s = [] := hs
    subst hnil
    exact ⟨fun _ => numbersWhole_nil, fun _ => numbersUnglued_nil⟩
  | step s r n h ih =>
    rw [rest_of_some h] at hs
    rw [numbersUnglued_iff h, numbersWhole_iff h, ih hs]
    refine and_congr_right fun _ => forall_congr' fun hr => forall₂_congr fun c hc => ?_
    exact (notMem_identChars_iff (notMem_digits_of_number h hr hc)).symm

/-- **When no letters stand behind a number**: a call that returns `true` has read no number token
with a letter or underscore right behind it, exactly for the expressions that are not acceptable
anyway and those in which every word that begins with a digit is a number as a whole. -/
theorem makeToken_unglued_iff (e : CString) (st : LexState) :
    ∃ out, makeToken e st = some out ∧
      ((out.ret = true → NumbersUnglued e.chars) ↔
        (Acceptable e.chars → NumbersWhole e.chars)) := by
  obtain ⟨out, hout, hspec⟩ := makeToken_spec e st
  refine ⟨out, hout, ?_⟩
  rw [hspec.ret, decide_eq_true_iff, ← accepts_iff]
  refine forall_congr' fun hacc => ?_
  exact numbersUnglued_iff_numbersWhole hacc.1

/-- `0xg80100000` -/
def gluedHex : CString :=
  ⟨['0', 'x', 'g', '8', '0', '1', '0', '0', '0', '0', '0'].map byte, by decide⟩

/-- The hexadecimal number with a `g` in it is read as a decimal number and an identifier. -/
theorem makeToken_gluedHex :
    ∃ out, makeToken gluedHex .zero = some out ∧ out.ret = true ∧
      tokenLexemes gluedHex.chars =
        [(.dec, gluedHex.chars.take 1), (.ident, gluedHex.chars.drop 1)] ∧
      ¬ NumbersUnglued gluedHex.chars := by
  have htry : tryRules gluedHex.chars = some (.dec, 1) := by
    decide +kernel
  have hrest : lexer.segment (gluedHex.chars.drop 1) = ([(.ident, gluedHex.chars.drop 1)], []) := by
    decide +kernel
  have hnext : lexer.next gluedHex.chars = some (.dec, 1) := tryRules_eq_next _ ▸ htry
  have hlex : tokenLexemes gluedHex.chars =
      [(.dec, gluedHex.chars.take 1), (.ident, gluedHex.chars.drop 1)] := by
    rw [tokenLexemes_of_token hnext (by simp), tokenLexemes, hrest]
    rfl
  have hacc : Accepts 32 gluedHex.chars := by
    refine ⟨?_, ?_, ?_⟩
    · rw [rest_of_some hnext, hrest]
    · rw [hlex]
      decide
    · rw [hlex]
      decide
  obtain ⟨out, hout, hspec⟩ := makeToken_spec gluedHex .zero
  refine ⟨out, hout, by rw [hspec.ret, decide_eq_true hacc], hlex, fun hall => ?_⟩
  obtain ⟨hletter, -⟩ := hall 0 .dec 1 (.start _) htry (Or.inl rfl) (byte 'x') rfl
  exact hletter (by decide)

end NoteNew.Expr
