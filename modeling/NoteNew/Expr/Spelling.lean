import NoteNew.Expr.TokenStorage

/-!
# Spelling the tokens

The tokens of an accepted expression, spelled one after the other, give the expression without its
spaces (`makeToken_spelling`).
-/

namespace NoteNew.Expr

open Regex Memory

/-! ## Spellings -/

/-- The characters of an operator or a bracket. -/
def operatorSpelling (tokenType : Int) : List UInt8 :=
  if tokenType = tkEq then [byte '=', byte '=']
  else if tokenType = chr '+' then [byte '+']
  else if tokenType = chr '-' then [byte '-']
  else if tokenType = chr '*' then [byte '*']
  else if tokenType = chr '/' then [byte '/']
  else if tokenType = chr '(' then [byte '(']
  else if tokenType = chr ')' then [byte ')']
  else []

/-- The spelling of the token `k`: the string of a literal, the characters of an operator. -/
def LexState.spelling (st : LexState) (k : Int) : List UInt8 :=
  if isLiteral (st.typeOf k) then st.strOf k else operatorSpelling (st.typeOf k)

/-- An operator rule matches its spelling only. -/
theorem operatorSpelling_eq {r : Rule} {w : List UInt8} (hw : w ∈ r.regex.matches')
    (hr : r ≠ .spaces) (hlit : isLiteral r.tokenType ≠ true) :
    operatorSpelling r.tokenType = w := by
  cases r with
  | spaces => exact absurd rfl hr
  | hex => exact absurd rfl hlit
  | reg => exact absurd rfl hlit
  | ident => exact absurd rfl hlit
  | dec => exact absurd rfl hlit
  | eq => exact (Rule.mem_eq.mp hw).symm
  | _ => exact (Rule.mem_char.mp hw).symm

theorem first_ne_zero (r : Rule) : ∀ c ∈ r.first ++ r.rest, c ≠ 0 := by
  cases r <;> exact List.all_iff_forall_prop.mp (by decide)

theorem first_ne_space {r : Rule} (hr : r ≠ .spaces) : ∀ c ∈ r.first ++ r.rest, c ≠ byte ' ' := by
  cases r with
  | spaces => exact absurd rfl hr
  | _ => exact List.all_iff_forall_prop.mp (by decide)

theorem forall_mem_of_shape {r : Rule} {w : List UInt8} {p : UInt8 → Prop}
    (hw : w ∈ r.regex.matches') (hp : ∀ c ∈ r.first ++ r.rest, p c) : ∀ c ∈ w, p c := by
  obtain ⟨c, t, rfl, hc, ht⟩ := Rule.shape hw
  obtain ⟨hfirst, hrest⟩ := List.forall_mem_append.mp hp
  exact List.forall_mem_cons.mpr ⟨hfirst c hc, fun d hd => hrest d (ht d hd)⟩

/-- No match contains a NUL. -/
theorem nul_notMem {r : Rule} {w : List UInt8} (hw : w ∈ r.regex.matches') : 0 ∉ w :=
  fun h => forall_mem_of_shape hw (first_ne_zero r) 0 h rfl

/-! ## The lexemes of an expression -/

theorem lexeme_matches {s : List UInt8} :
    ∀ x ∈ (lexer.segment s).1, x.2 ∈ x.1.regex.matches' :=
  lexer.forall_mem_segment (fun _ _ _ h => next_matches h) s

theorem tokenLexeme_matches {s : List UInt8} {x : Lexeme} (hx : x ∈ tokenLexemes s) :
    x.2 ∈ x.1.regex.matches' ∧ x.1 ≠ .spaces := by
  obtain ⟨hmem, hne⟩ := List.mem_filter.mp hx
  exact ⟨lexeme_matches x hmem, by simpa using hne⟩

/-- Leaving out the spaces lexeme by lexeme leaves out the space characters. -/
theorem flatten_filter_spaces {l : List Lexeme} (h : ∀ x ∈ l, x.2 ∈ x.1.regex.matches') :
    ((l.filter (·.1 ≠ .spaces)).map (·.2)).flatten =
      ((l.map (·.2)).flatten).filter (· ≠ byte ' ') := by
  induction l with
  | nil => rfl
  | cons x l ih =>
    obtain ⟨hx, hl⟩ := List.forall_mem_cons.mp h
    rw [List.map_cons, List.flatten_cons, List.filter_append, ← ih hl]
    by_cases hr : x.1 = .spaces
    · rw [hr] at hx
      have hnil : x.2.filter (· ≠ byte ' ') = [] := by
        rw [List.filter_eq_nil_iff]
        intro c hc
        simpa using (Rule.mem_spaces.mp hx).2 c hc
      rw [List.filter_cons_of_neg (by simp [hr]), hnil, List.nil_append]
    · have hself : x.2.filter (· ≠ byte ' ') = x.2 := by
        rw [List.filter_eq_self]
        intro c hc
        simpa using forall_mem_of_shape hx (first_ne_space hr) c hc
      rw [List.filter_cons_of_pos (by simp [hr]), List.map_cons, List.flatten_cons, hself]

theorem flatten_tokenLexemes {s : List UInt8} (h : (lexer.segment s).2 = []) :
    ((tokenLexemes s).map (·.2)).flatten = s.filter (· ≠ byte ' ') := by
  have hflat := lexer.segment_flatten s
  rw [h, List.append_nil] at hflat
  rw [tokenLexemes, flatten_filter_spaces lexeme_matches, hflat]

/-! ## The tokens of an accepted expression -/

/-- A stored lexeme is read back from its token. -/
theorem storeLexemes_spelling (st : LexState) {l : List Lexeme} {x : Lexeme} {i : Nat}
    (hx : l[i]? = some x) (hmatch : x.2 ∈ x.1.regex.matches') (hr : x.1 ≠ .spaces)
    (h : Terminates x) :
    (st.storeLexemes l).typeOf (st.nrToken + i) = x.1.tokenType ∧
      (isLiteral x.1.tokenType = true → (st.storeLexemes l).strOf (st.nrToken + i) = x.2) ∧
      (st.storeLexemes l).spelling (st.nrToken + i) = x.2 := by
  have htype := storeLexemes_typeOf st hx
  have hstr : isLiteral x.1.tokenType = true →
      (st.storeLexemes l).strOf (st.nrToken + i) = x.2 := fun hlit =>
    cstr_eq (storeLexemes_str st hx h hlit) (nul_notMem hmatch) (h hlit)
  refine ⟨htype, hstr, ?_⟩
  unfold LexState.spelling
  rw [htype]
  split
  · next hlit => exact hstr hlit
  · next hlit => exact operatorSpelling_eq hmatch hr hlit

/-- What a successful call leaves: one token for every lexeme, in order. -/
theorem LoopSpec.tokens {e : List UInt8} {st : LexState} {out : LexResult}
    (h : LoopSpec e e 32 { st with nrToken := 0, stores := [] } out) (hret : out.ret = true)
    (hshort : ∀ x ∈ tokenLexemes e, Terminates x) :
    (lexer.segment e).2 = [] ∧ out.state.nrToken = (tokenLexemes e).length ∧
      ∀ (i : Nat) x, (tokenLexemes e)[i]? = some x →
        out.state.typeOf i = x.1.tokenType ∧
          (isLiteral x.1.tokenType = true → out.state.strOf i = x.2) ∧
          out.state.spelling i = x.2 := by
  have hstate := h.stored hret
  refine ⟨(h.accepts hret).1, ?_, fun i x hx => ?_⟩
  · rw [hstate, storeLexemes_nrToken, Int.zero_add]
  · have hmem := List.mem_of_getElem? hx
    obtain ⟨hmatch, hr⟩ := tokenLexeme_matches hmem
    have hread := storeLexemes_spelling { st with nrToken := 0, stores := [] } hx hmatch hr
      (hshort x hmem)
    rw [hstate]
    simpa using hread

/-- **Nothing is lost, duplicated or reordered**: spelled one after the other, the tokens of an
accepted expression with literals of at most 31 characters give the expression without its spaces,
and every literal is matched in full by the rule of its type. -/
theorem makeToken_spelling (e : CString) (st : LexState)
    (hshort : ∀ x ∈ tokenLexemes e.chars, isLiteral x.1.tokenType = true → x.2.length ≤ 31) :
    ∃ out, makeToken e st = some out ∧ (out.ret = true →
      (List.range out.state.nrToken.toNat).flatMap (fun k : Nat => out.state.spelling k) =
          e.chars.filter (· ≠ byte ' ') ∧
        ∀ k : Nat, k < out.state.nrToken → isLiteral (out.state.typeOf k) = true →
          ∃ r ∈ rules, r.tokenType = out.state.typeOf k ∧
            out.state.strOf k ∈ r.regex.matches') := by
  obtain ⟨out, hout, hspec⟩ := makeToken_spec e st
  refine ⟨out, hout, fun hret => ?_⟩
  have hterm : ∀ x ∈ tokenLexemes e.chars, Terminates x := fun x hx hlit =>
    Nat.lt_succ_of_le (hshort x hx hlit)
  obtain ⟨hrest, hlen, htok⟩ := hspec.tokens hret hterm
  refine ⟨?_, fun k hk hlit => ?_⟩
  · have hspell : (List.range (tokenLexemes e.chars).length).map
        (fun k : Nat => out.state.spelling k) = (tokenLexemes e.chars).map (·.2) := by
      apply List.ext_getElem (by simp)
      intro i hi hi'
      rw [List.length_map] at hi'
      simp [(htok i _ (List.getElem?_eq_getElem hi')).2.2]
    rw [hlen, Int.toNat_natCast, List.flatMap_def, hspell, flatten_tokenLexemes hrest]
  · have hi : k < (tokenLexemes e.chars).length := by omega
    have hx := List.getElem?_eq_getElem hi
    obtain ⟨htype, hstr, -⟩ := htok k _ hx
    rw [htype] at hlit
    refine ⟨_, mem_rules _, htype.symm, ?_⟩
    rw [hstr hlit]
    exact (tokenLexeme_matches (List.mem_of_getElem? hx)).1

/-- `1 + $a0` -/
def sumWithRegister : CString :=
  ⟨['1', ' ', '+', ' ', '$', 'a', '0'].map byte, by decide⟩

theorem makeToken_spelling_sum :
    ∃ out, makeToken sumWithRegister .zero = some out ∧ out.ret = true ∧
      (List.range out.state.nrToken.toNat).flatMap (fun k : Nat => out.state.spelling k) =
          sumWithRegister.chars.filter (· ≠ byte ' ') ∧
        ∀ k : Nat, k < out.state.nrToken → isLiteral (out.state.typeOf k) = true →
          ∃ r ∈ rules, r.tokenType = out.state.typeOf k ∧
            out.state.strOf k ∈ r.regex.matches' := by
  obtain ⟨out, hout, hspelling⟩ := makeToken_spelling sumWithRegister .zero (by decide +kernel)
  have hret : out.ret = true := makeToken_ret hout (by decide +kernel)
  exact ⟨out, hout, hret, hspelling hret⟩

end NoteNew.Expr
