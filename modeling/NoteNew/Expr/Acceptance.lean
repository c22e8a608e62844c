import NoteNew.Expr.MakeToken

/-!
# What the tokenizer accepts

The expressions that `make_token` accepts, in terms of their characters. `Lexable` reads the
conditions off from left to right; it is what every match of a rule leaves as it is
(`lexable_append`), so the greedy segmentation covers a text exactly when it holds, and so does any
other segmentation (`makeToken_accepts_iff`).
-/

namespace NoteNew.Expr

open Regex

/-! ## Conditions on the characters -/

/-- The characters that are lexemes, or parts of one, wherever they stand. -/
def plainChars : List UInt8 :=
  identStart ++ digits ++ [byte ' ', byte '+', byte '-', byte '*', byte '/', byte '(', byte ')']

/-- The characters of an expression. -/
def exprChars : List UInt8 :=
  plainChars ++ [byte '$', byte '=']

/-- Every `$` is followed by `0` or a letter. -/
def DollarsNamed (s : List UInt8) : Prop :=
  ∀ u v, s = u ++ byte '$' :: v → ∃ c t, v = c :: t ∧ (c = byte '0' ∨ c ∈ letters)

/-- Every maximal run of `=` has even length. -/
def EqualsPaired (s : List UInt8) : Prop :=
  ∀ u n v, s = u ++ (List.replicate n (byte '=') ++ v) → u.getLast? ≠ some (byte '=') →
    v.head? ≠ some (byte '=') → n % 2 = 0

/-- The three conditions, character by character. -/
inductive Lexable : List UInt8 → Prop where
  | nil : Lexable []
  | plain {c : UInt8} {s : List UInt8} (hc : c ∈ plainChars) (h : Lexable s) : Lexable (c :: s)
  | dollar {c : UInt8} {s : List UInt8} (hc : c = byte '0' ∨ c ∈ letters) (h : Lexable (c :: s)) :
    Lexable (byte '$' :: c :: s)
  | equals {s : List UInt8} (h : Lexable s) : Lexable (byte '=' :: byte '=' :: s)

theorem plain_ne : ∀ c ∈ plainChars, c ≠ byte '$' ∧ c ≠ byte '=' :=
  List.all_iff_forall_prop.mp (by decide)

theorem equals_ne_dollar : byte '=' ≠ byte '$' := by
  decide

section Inversion

variable {c : UInt8} {s : List UInt8}

theorem named_plain (hc : c = byte '0' ∨ c ∈ letters) : c ∈ plainChars := by
  rcases hc with rfl | hc
  · decide
  · have hstart : c ∈ identStart := List.mem_append_left _ (List.mem_append.mpr
      (List.mem_append.mp hc).symm)
    exact List.mem_append_left _ (List.mem_append_left _ hstart)

theorem lexable_plain_iff (hc : c ∈ plainChars) : Lexable (c :: s) ↔ Lexable s := by
  refine ⟨fun h => ?_, .plain hc⟩
  generalize hx : c :: s = x at h
  cases h with
  | nil => cases hx
  | plain _ h =>
    obtain ⟨-, rfl⟩ := List.cons.inj hx
    exact h
  | dollar _ _ => exact absurd (List.cons.inj hx).1 (plain_ne c hc).1
  | equals _ => exact absurd (List.cons.inj hx).1 (plain_ne c hc).2

theorem lexable_dollar_iff : Lexable (byte '$' :: s) ↔
    ∃ c t, s = c :: t ∧ (c = byte '0' ∨ c ∈ letters) ∧ Lexable s := by
  constructor
  · intro h
    generalize hx : byte '$' :: s = x at h
    cases h with
    | nil => cases hx
    | plain hc _ => exact absurd (List.cons.inj hx).1.symm (plain_ne _ hc).1
    | dollar hc h =>
      obtain ⟨-, rfl⟩ := List.cons.inj hx
      exact ⟨_, _, rfl, hc, h⟩
    | equals _ => exact absurd (List.cons.inj hx).1.symm equals_ne_dollar
  · intro h
    obtain ⟨c, t, rfl, hc, h⟩ := h
    exact .dollar hc h

theorem lexable_equals_iff :
    Lexable (byte '=' :: s) ↔ ∃ t, s = byte '=' :: t ∧ Lexable t := by
  constructor
  · intro h
    generalize hx : byte '=' :: s = x at h
    cases h with
    | nil => cases hx
    | plain hc _ => exact absurd (List.cons.inj hx).1.symm (plain_ne _ hc).2
    | dollar _ _ => exact absurd (List.cons.inj hx).1 equals_ne_dollar
    | equals h =>
      obtain ⟨-, rfl⟩ := List.cons.inj hx
      exact ⟨_, rfl, h⟩
  · intro h
    obtain ⟨t, rfl, h⟩ := h
    exact .equals h

end Inversion

/-! ## Runs of equality signs -/

section Runs

variable {c : UInt8} {s : List UInt8}

theorem getLast?_cons_ne {u : List UInt8} (hc : c ≠ byte '=')
    (hu : u.getLast? ≠ some (byte '=')) : (c :: u).getLast? ≠ some (byte '=') := by
  cases u with
  | nil => simpa using hc
  | cons d u => rwa [List.getLast?_cons_cons]

theorem getLast?_tail_ne {u : List UInt8} (hu : (c :: u).getLast? ≠ some (byte '=')) :
    u.getLast? ≠ some (byte '=') := by
  cases u with
  | nil => simp
  | cons d u => rwa [List.getLast?_cons_cons] at hu

/-- A character other than `=` in front does not change the runs. -/
theorem equalsPaired_cons_iff (hc : c ≠ byte '=') : EqualsPaired (c :: s) ↔ EqualsPaired s := by
  constructor
  · intro h u n v hs hu hv
    exact h (c :: u) n v (by rw [hs, List.cons_append]) (getLast?_cons_ne hc hu) hv
  · intro h u n v hs hu hv
    cases u with
    | nil =>
      cases n with
      | zero => rfl
      | succ n => exact absurd (List.cons.inj hs).1 hc
    | cons d u => exact h u n v (List.cons.inj hs).2 (getLast?_tail_ne hu) hv

/-- Two `=` in front make the first run longer by two, or are a run of their own. -/
theorem equalsPaired_equals_iff :
    EqualsPaired (byte '=' :: byte '=' :: s) ↔ EqualsPaired s := by
  constructor
  · intro h u n v hs hu hv
    cases u with
    | nil =>
      have := h [] (n + 2) v (by rw [hs]; rfl) (by simp) hv
      omega
    | cons d u =>
      refine h (byte '=' :: byte '=' :: d :: u) n v (by rw [hs]; rfl) ?_ hv
      rwa [List.getLast?_cons_cons, List.getLast?_cons_cons]
  · intro h u n v hs hu hv
    rcases u with _ | ⟨a, _ | ⟨b, u⟩⟩
    · rcases n with _ | _ | n
      · rfl
      · obtain rfl := (List.cons.inj hs).2
        exact absurd rfl hv
      · have := h [] n v (List.cons.inj (List.cons.inj hs).2).2 (by simp) hv
        omega
    · obtain ⟨rfl, -⟩ := List.cons.inj hs
      exact absurd rfl hu
    · exact h u n v (List.cons.inj (List.cons.inj hs).2).2
        (getLast?_tail_ne (getLast?_tail_ne hu)) hv

/-- A single `=` is an odd run. -/
theorem not_equalsPaired_single (hs : s.head? ≠ some (byte '=')) :
    ¬ EqualsPaired (byte '=' :: s) := by
  intro h
  have := h [] 1 s rfl (by simp) hs
  omega

theorem dollarsNamed_cons_iff (hc : c ≠ byte '$') : DollarsNamed (c :: s) ↔ DollarsNamed s := by
  constructor
  · intro h u v hs
    exact h (c :: u) v (by rw [hs, List.cons_append])
  · intro h u v hs
    cases u with
    | nil => exact absurd (List.cons.inj hs).1 hc
    | cons d u => exact h u v (List.cons.inj hs).2

theorem dollarsNamed_dollar_iff : DollarsNamed (byte '$' :: s) ↔
    (∃ c t, s = c :: t ∧ (c = byte '0' ∨ c ∈ letters)) ∧ DollarsNamed s := by
  constructor
  · intro h
    exact ⟨h [] s rfl, fun u v hs => h (byte '$' :: u) v (by rw [hs, List.cons_append])⟩
  · intro h u v hs
    obtain ⟨hnamed, h⟩ := h
    cases u with
    | nil =>
      obtain ⟨-, rfl⟩ := List.cons.inj hs
      exact hnamed
    | cons d u => exact h u v (List.cons.inj hs).2

end Runs

/-- **`Lexable` is the three conditions.** -/
theorem lexable_iff (s : List UInt8) :
    Lexable s ↔ (∀ c ∈ s, c ∈ exprChars) ∧ DollarsNamed s ∧ EqualsPaired s := by
  constructor
  · intro h
    induction h with
    | nil => exact ⟨by simp, fun u v hs => by simp at hs, fun u n v hs _ _ => by
        simp at hs; omega⟩
    | plain hc _ ih =>
      obtain ⟨hchars, hdollar, hequals⟩ := ih
      obtain ⟨hd, he⟩ := plain_ne _ hc
      exact ⟨List.forall_mem_cons.mpr ⟨List.mem_append_left _ hc, hchars⟩,
        (dollarsNamed_cons_iff hd).mpr hdollar, (equalsPaired_cons_iff he).mpr hequals⟩
    | dollar hc _ ih =>
      obtain ⟨hchars, hdollar, hequals⟩ := ih
      exact ⟨List.forall_mem_cons.mpr ⟨by decide, hchars⟩,
        dollarsNamed_dollar_iff.mpr ⟨⟨_, _, rfl, hc⟩, hdollar⟩,
        (equalsPaired_cons_iff equals_ne_dollar.symm).mpr hequals⟩
    | equals _ ih =>
      obtain ⟨hchars, hdollar, hequals⟩ := ih
      refine ⟨List.forall_mem_cons.mpr ⟨by decide, List.forall_mem_cons.mpr ⟨by decide, hchars⟩⟩,
        ?_, equalsPaired_equals_iff.mpr hequals⟩
      rw [dollarsNamed_cons_iff equals_ne_dollar, dollarsNamed_cons_iff equals_ne_dollar]
      exact hdollar
  · intro h
    induction hlen : s.length using Nat.strongRecOn generalizing s with
    | _ len ih =>
      obtain ⟨hchars, hdollar, hequals⟩ := h
      cases s with
      | nil => exact .nil
      | cons c s =>
        obtain ⟨hc, hs⟩ := List.forall_mem_cons.mp hchars
        rw [List.length_cons] at hlen
        rcases List.mem_append.mp hc with hc | hc
        · obtain ⟨hd, he⟩ := plain_ne _ hc
          exact .plain hc (ih s.length (by omega) s ⟨hs, (dollarsNamed_cons_iff hd).mp hdollar,
            (equalsPaired_cons_iff he).mp hequals⟩ rfl)
        · rcases List.mem_pair.mp hc with rfl | rfl
          · obtain ⟨⟨d, t, rfl, hd⟩, hdollar⟩ := dollarsNamed_dollar_iff.mp hdollar
            exact .dollar hd (ih _ (by omega) (d :: t) ⟨hs, hdollar,
              (equalsPaired_cons_iff equals_ne_dollar.symm).mp hequals⟩ rfl)
          · by_cases hhead : s.head? = some (byte '=')
            · obtain ⟨t, rfl⟩ : ∃ t, s = byte '=' :: t := by
                cases s with
                | nil => cases hhead
                | cons d t => exact ⟨t, by rw [Option.some.inj hhead]⟩
              rw [dollarsNamed_cons_iff equals_ne_dollar,
                dollarsNamed_cons_iff equals_ne_dollar] at hdollar
              rw [List.length_cons] at hlen
              exact .equals (ih t.length (by omega) t ⟨(List.forall_mem_cons.mp hs).2, hdollar,
                equalsPaired_equals_iff.mp hequals⟩ rfl)
            · exact absurd hequals (not_equalsPaired_single hhead)

/-! ## Matches and the conditions -/

theorem lexable_plain_append {w : List UInt8} (hw : ∀ c ∈ w, c ∈ plainChars) (s : List UInt8) :
    Lexable (w ++ s) ↔ Lexable s := by
  induction w with
  | nil => rfl
  | cons c w ih =>
    obtain ⟨hc, hw⟩ := List.forall_mem_cons.mp hw
    rw [List.cons_append, lexable_plain_iff hc, ih hw]

theorem plain_of_rule {r : Rule} (hreg : r ≠ .reg) (heq : r ≠ .eq) :
    ∀ c ∈ r.first ++ r.rest, c ∈ plainChars := by
  cases r with
  | reg => exact absurd rfl hreg
  | eq => exact absurd rfl heq
  | _ => exact List.all_iff_forall_prop.mp (by decide)

/-- A match in front of a text neither breaks nor mends the conditions. -/
theorem lexable_append {r : Rule} {w : List UInt8} (hw : w ∈ r.regex.matches') (s : List UInt8) :
    Lexable (w ++ s) ↔ Lexable s := by
  by_cases hreg : r = .reg
  · subst hreg
    rcases Rule.mem_reg.mp hw with rfl | ⟨ls, ds, hne, hls, hds, rfl⟩
    · have hplain : ∀ c ∈ [byte '0'], c ∈ plainChars := by simpa using named_plain (Or.inl rfl)
      rw [List.cons_append, lexable_dollar_iff, lexable_plain_append hplain]
      exact ⟨fun ⟨_, _, _, _, h⟩ => h, fun h => ⟨_, _, rfl, Or.inl rfl, h⟩⟩
    · obtain ⟨c, ls, rfl⟩ := List.exists_cons_of_ne_nil hne
      have hplain : ∀ d ∈ (c :: ls) ++ ds, d ∈ plainChars := by
        refine List.forall_mem_append.mpr ⟨fun d hd => named_plain (Or.inr (hls d hd)), ?_⟩
        intro d hd
        exact List.mem_append_left _ (List.mem_append_right _ (hds d hd))
      rw [List.cons_append, lexable_dollar_iff, lexable_plain_append hplain]
      exact ⟨fun ⟨_, _, _, _, h⟩ => h,
        fun h => ⟨c, _, rfl, Or.inr (hls c List.mem_cons_self), h⟩⟩
  · by_cases heq : r = .eq
    · subst heq
      obtain rfl := Rule.mem_eq.mp hw
      rw [List.cons_append, lexable_equals_iff]
      refine ⟨fun ⟨t, ht, h⟩ => ?_, fun h => ⟨s, rfl, h⟩⟩
      obtain ⟨-, rfl⟩ := List.cons.inj ht
      exact h
    · obtain ⟨c, t, rfl, hc, ht⟩ := Rule.shape hw
      have hplain := plain_of_rule hreg heq
      refine lexable_plain_append (List.forall_mem_cons.mpr ⟨?_, fun d hd => ?_⟩) s
      · exact hplain c (List.mem_append_left _ hc)
      · exact hplain d (List.mem_append_right _ (ht d hd))

/-- A plain character is a match of its own. -/
theorem exists_match_plain {c : UInt8} (hc : c ∈ plainChars) :
    ∃ r : Rule, [c] ∈ r.regex.matches' := by
  rcases List.mem_append.mp hc with hc | hc
  · rcases List.mem_append.mp hc with hc | hc
    · exact ⟨.ident, Rule.mem_ident.mpr ⟨c, hc, [], by simp, rfl⟩⟩
    · exact ⟨.dec, Rule.mem_dec.mpr ⟨by simp, by simpa using hc⟩⟩
  · simp only [List.mem_cons, List.not_mem_nil, or_false] at hc
    obtain rfl | rfl | rfl | rfl | rfl | rfl | rfl := hc
    · exact ⟨.spaces, Rule.mem_spaces.mpr ⟨by simp, by simp⟩⟩
    · exact ⟨.plus, rfl⟩
    · exact ⟨.minus, rfl⟩
    · exact ⟨.star, rfl⟩
    · exact ⟨.slash, rfl⟩
    · exact ⟨.lparen, rfl⟩
    · exact ⟨.rparen, rfl⟩

/-- Under the conditions some rule matches. -/
theorem exists_match {s : List UInt8} (hne : s ≠ []) (h : Lexable s) :
    ∃ r : Rule, ∃ w, w ∈ r.regex.matches' ∧ w ≠ [] ∧ w <+: s := by
  cases h with
  | nil => exact absurd rfl hne
  | @plain c s hc _ =>
    obtain ⟨r, hr⟩ := exists_match_plain hc
    exact ⟨r, [c], hr, by simp, s, rfl⟩
  | @dollar c s hc _ =>
    refine ⟨.reg, [byte '$', c], Rule.mem_reg.mpr ?_, by simp, s, rfl⟩
    rcases hc with rfl | hc
    · exact Or.inl rfl
    · exact Or.inr ⟨[c], [], by simp, by simpa using hc, by simp, rfl⟩
  | @equals s _ => exact ⟨.eq, _, Rule.mem_eq.mpr rfl, by simp, s, rfl⟩

/-- The greedy segmentation covers a text exactly under the conditions. -/
theorem segment_covers (s : List UInt8) : (lexer.segment s).2 = [] ↔ Lexable s := by
  refine lexer.segment_covers_iff .nil (fun s r n h => ?_) (fun s hne hs hnone => ?_) s
  · rw [← lexable_append (next_matches h) (s.drop n), List.take_append_drop]
  · obtain ⟨r, w, hw, -, t, rfl⟩ := exists_match hne hs
    have hsome := longestPrefix_isSome_of_mem (s := t) hw
    rw [(longestRule_eq_none_iff _).mp hnone r (mem_rules r)] at hsome
    cases hsome

/-- Any segmentation into matches covers a text exactly under the conditions. -/
theorem mem_kstar_rules_iff (s : List UInt8) :
    s ∈ KStar.kstar (tableLanguage Rule.regex rules) ↔ Lexable s := by
  refine mem_kstar_table_iff .nil ?_ (fun s hne hs => ?_) s
  · intro w h s
    obtain ⟨r, -, hw⟩ := h
    exact lexable_append hw s
  · obtain ⟨r, w, hw, hwne, hpre⟩ := exists_match hne hs
    exact ⟨w, ⟨r, mem_rules r, hw⟩, hwne, hpre⟩

/-- An expression over the allowed characters with every `$` named and every run of `=` paired, with
at most 32 lexemes and literals of at most 32 characters. -/
def Acceptable (s : List UInt8) : Prop :=
  (∀ c ∈ s, c ∈ exprChars) ∧ DollarsNamed s ∧ EqualsPaired s ∧ (tokenLexemes s).length ≤ 32 ∧
    ∀ x ∈ tokenLexemes s, isLiteral x.1.tokenType = true → x.2.length ≤ maxTokenStrLen

theorem accepts_iff (s : List UInt8) : Accepts 32 s ↔ Acceptable s := by
  have hfits : ∀ x : Lexeme, fits x = true ↔
      (isLiteral x.1.tokenType = true → x.2.length ≤ maxTokenStrLen) := by
    intro x
    cases h : isLiteral x.1.tokenType <;> simp [fits, h]
  rw [Accepts, segment_covers, lexable_iff, Acceptable]
  simp only [hfits, and_assoc]

/-- **What the tokenizer accepts**: the loop stops, and returns `true` exactly for expressions over
the allowed characters with every `$` named and every run of `=` paired, with at most 32 lexemes and
literals of at most 32 characters. A text that some segmentation into matches covers is never
rejected for want of a match. -/
theorem makeToken_accepts_iff (e : CString) (st : LexState) :
    ∃ out, makeToken e st = some out ∧
      (out.ret = true ↔ (∀ c ∈ e.chars, c ∈ exprChars) ∧ DollarsNamed e.chars ∧
        EqualsPaired e.chars ∧ (tokenLexemes e.chars).length ≤ 32 ∧
        ∀ x ∈ tokenLexemes e.chars, isLiteral x.1.tokenType = true → x.2.length ≤ maxTokenStrLen) ∧
      (e.chars ∈ KStar.kstar (tableLanguage Rule.regex rules) →
        (lexer.segment e.chars).2 = [] ∧
          ∀ position expr, out.diag ≠ some (.noMatch position expr)) := by
  obtain ⟨out, hout, hspec⟩ := makeToken_spec e st
  refine ⟨out, hout, ?_, fun hcover => ?_⟩
  · rw [hspec.ret, decide_eq_true_iff]
    exact accepts_iff e.chars
  · have hrest := (segment_covers _).mpr ((mem_kstar_rules_iff _).mp hcover)
    exact ⟨hrest, fun p x hd => hspec.noMatch p x hd hrest⟩

end NoteNew.Expr
