import NoteNew.Expr.Acceptance
import NoteNew.Expr.Reducible
import NoteNew.Expr.RoundTrip

/-!
# Reading an expression

The tokenizer and the two helpers together, from the text to the parse tree. The token types of a
sentence determine its tree (`Tree.yield_injective`), because the main operator the scan finds is
the root of every tree they have. So a text is tokenised to a range that the helpers decompose
exactly when it is acceptable and its lexemes are a sentence, of one tree
(`makeToken_reducible_iff`), and the printed leaves of a tree are read as that tree
(`makeToken_printTree`).
-/

namespace NoteNew.Expr

open Regex

/-! ## One tree for a sentence -/

theorem AddOp.type_injective {op op' : AddOp} (h : op.type = op'.type) : op = op' := by
  revert h
  cases op <;> cases op' <;> decide

theorem MulOp.type_injective {op op' : MulOp} (h : op.type = op'.type) : op = op' := by
  revert h
  cases op <;> cases op' <;> decide

theorem UnaryOp.type_injective {op op' : UnaryOp} (h : op.type = op'.type) : op = op' := by
  revert h
  cases op <;> cases op' <;> decide

theorem Operand.type_injective {o o' : Operand} (h : o.type = o'.type) : o = o' := by
  revert h
  cases o <;> cases o' <;> decide

theorem AddOp.type_ne_mulOp (op : AddOp) (op' : MulOp) : op.type ≠ op'.type := by
  cases op <;> cases op' <;> decide

theorem UnaryOp.type_ne_operand (op : UnaryOp) (o : Operand) : op.type ≠ o.type := by
  cases op <;> cases o <;> decide

theorem UnaryOp.type_ne_open (op : UnaryOp) : op.type ≠ chr '(' := by
  cases op <;> decide

theorem Operand.type_ne_open (o : Operand) : o.type ≠ chr '(' := by
  cases o <;> decide

namespace Tree

variable {n : Nonterminal}

/-- Trees with the same leaves have their root operator at the same place. -/
theorem main_eq_of_yield_eq {t t' : Tree n} (h : t.yield = t'.yield) : t.main = t'.main := by
  rw [← t.mainOp_yield, ← t'.mainOp_yield, h]

/-- Two binary sentences split at the same operator have the same sides. -/
theorem sides_eq {n₁ m₁ n₂ m₂ : Nonterminal} {l : Tree n₁} {r : Tree m₁} {l' : Tree n₂}
    {r' : Tree m₂} {op op' : Int} (h : l.yield ++ op :: r.yield = l'.yield ++ op' :: r'.yield)
    (hlen : l.yield.length = l'.yield.length) :
    l.yield = l'.yield ∧ op = op' ∧ r.yield = r'.yield := by
  obtain ⟨hl, hr⟩ := List.append_inj h hlen
  exact ⟨hl, List.cons.inj hr⟩

/-- A primary does not begin with a sign. -/
theorem yield_ne_sign (p : Tree .P) (op : UnaryOp) (ts : List Int) :
    p.yield ≠ op.type :: ts := by
  intro h
  cases p with
  | operand o => exact op.type_ne_operand o (List.cons.inj h).1.symm
  | paren e => exact op.type_ne_open (List.cons.inj h).1.symm

/-- **The grammar is unambiguous.** -/
theorem yield_injective {t t' : Tree n} (h : t.yield = t'.yield) : t = t' := by
  have hmain := main_eq_of_yield_eq h
  induction t with
  | add l op r ihl ihr =>
    cases t' with
    | add l' op' r' =>
      obtain ⟨hlen, -⟩ := Prod.mk.inj (Option.some.inj hmain)
      obtain ⟨hl, hop, hr⟩ := sides_eq h hlen
      rw [ihl hl (main_eq_of_yield_eq hl), AddOp.type_injective hop,
        ihr hr (main_eq_of_yield_eq hr)]
    | ofT t' =>
      rcases t'.main_term with hnone | ⟨k, op', hmul⟩
      · exact absurd (hmain.trans hnone) (Option.some_ne_none _)
      · have hop := (Prod.mk.inj (Option.some.inj (hmain.trans hmul))).2
        exact absurd hop (op.type_ne_mulOp op')
  | ofT t ih =>
    cases t' with
    | add l' op' r' =>
      rcases t.main_term with hnone | ⟨k, op, hmul⟩
      · exact absurd (hmain.symm.trans hnone) (Option.some_ne_none _)
      · have hop := (Prod.mk.inj (Option.some.inj (hmain.symm.trans hmul))).2
        exact absurd hop (op'.type_ne_mulOp op)
    | ofT t' => rw [ih h hmain]
  | mul l op r ihl ihr =>
    cases t' with
    | mul l' op' r' =>
      obtain ⟨hlen, -⟩ := Prod.mk.inj (Option.some.inj hmain)
      obtain ⟨hl, hop, hr⟩ := sides_eq h hlen
      rw [ihl hl (main_eq_of_yield_eq hl), MulOp.type_injective hop,
        ihr hr (main_eq_of_yield_eq hr)]
    | ofU u' => cases hmain
  | ofU u ih =>
    cases t' with
    | mul l' op' r' => cases hmain
    | ofU u' => rw [ih h (main_eq_of_yield_eq h)]
  | sign op u ih =>
    cases t' with
    | sign op' u' =>
      obtain ⟨hop, hu⟩ := List.cons.inj h
      rw [UnaryOp.type_injective hop, ih hu (main_eq_of_yield_eq hu)]
    | ofP p' => exact absurd h.symm (p'.yield_ne_sign op _)
  | ofP p ih =>
    cases t' with
    | sign op' u' => exact absurd h (p.yield_ne_sign op' _)
    | ofP p' => rw [ih h (main_eq_of_yield_eq h)]
  | operand o =>
    cases t' with
    | operand o' => rw [Operand.type_injective (List.cons.inj h).1]
    | paren e' => exact absurd (List.cons.inj h).1 o.type_ne_open
  | paren e ih =>
    cases t' with
    | operand o' => exact absurd (List.cons.inj h).1.symm o'.type_ne_open
    | paren e' =>
      have he : e.yield = e'.yield := List.append_cancel_right (List.cons.inj h).2
      rw [ih he (main_eq_of_yield_eq he)]

end Tree

/-! ## The array behind a call -/

/-- The global array as the parsing helpers read it. -/
def LexState.tokens (st : LexState) : Tokens := fun i =>
  if (i : Int) < tokensLen then some ⟨st.typeOf i, st.strOf i⟩ else none

theorem typeAt_tokens (st : LexState) {i : Nat} (h : (i : Int) < tokensLen) :
    typeAt st.tokens i = some (st.typeOf i) := by
  rw [typeAt, if_neg (by omega), Int.toNat_natCast, LexState.tokens, if_pos h, Option.map_some]

/-- A range holds the types that its indices hold. -/
theorem holds_of_getElem? {tokens : Tokens} {i : Int} {ts : List Int}
    (h : ∀ (k : Nat) t, ts[k]? = some t → typeAt tokens (i + k) = some t) : Holds tokens i ts := by
  induction ts generalizing i with
  | nil => trivial
  | cons t ts ih =>
    refine ⟨by simpa using h 0 t rfl, ih fun k u hk => ?_⟩
    have hnext := h (k + 1) u hk
    rwa [index_succ] at hnext

/-- What a call that returns `true` leaves in the array: the types of the lexemes, also where the
buffer of a literal has no room for its terminator. -/
theorem LoopSpec.occupies {e : List UInt8} {st : LexState} {out : LexResult}
    (h : LoopSpec e e 32 { st with nrToken := 0, stores := [] } out) (hret : out.ret = true) :
    Occupies out.state.tokens 0 (out.state.nrToken - 1)
      ((tokenLexemes e).map (·.1.tokenType)) := by
  have hlen : (tokenLexemes e).length ≤ 32 := (h.accepts hret).2.1
  rw [h.stored hret]
  refine ⟨holds_of_getElem? fun k t hk => ?_, ?_⟩
  · rw [List.getElem?_map] at hk
    obtain ⟨x, hx, rfl⟩ := Option.map_eq_some_iff.mp hk
    have hlt := (List.getElem?_eq_some_iff.mp hx).1
    have htype := storeLexemes_typeOf { st with nrToken := 0, stores := [] } hx
    rw [Int.zero_add] at htype ⊢
    rw [typeAt_tokens _ (by unfold tokensLen; omega), htype]
  · rw [storeLexemes_nrToken, List.length_map]

/-! ## From the text to the tree -/

/-- **What the evaluator can read**: a text is tokenised, and the helpers decompose the tokens down
to operands, exactly when the text is acceptable and the types of its lexemes are the leaves of a
parse tree, and then of one only. -/
theorem makeToken_reducible_iff (e : CString) (st : LexState) :
    ∃ out, makeToken e st = some out ∧
      (out.ret = true ∧ Reducible out.state.tokens 0 (out.state.nrToken - 1) ↔
        Acceptable e.chars ∧
          ∃! t : Tree .E, t.yield = (tokenLexemes e.chars).map (·.1.tokenType)) := by
  obtain ⟨out, hout, hspec⟩ := makeToken_spec e st
  have hacc : out.ret = true ↔ Acceptable e.chars := by
    rw [hspec.ret, decide_eq_true_iff, accepts_iff]
  refine ⟨out, hout, fun ⟨hret, hred⟩ => ⟨hacc.mp hret, ?_⟩, fun ⟨ha, ht⟩ => ?_⟩
  · obtain ⟨t, ht⟩ := hred.sentence
    have hyield := ht.unique (hspec.occupies hret)
    exact ⟨t, hyield, fun t' ht' => Tree.yield_injective (ht'.trans hyield.symm)⟩
  · obtain ⟨t, ht, -⟩ := ht
    have hret := hacc.mpr ha
    have hocc := hspec.occupies hret
    rw [← ht] at hocc
    exact ⟨hret, t.reducible hocc⟩

theorem accepts_printTokens {lead : Nat} {l : List (PrintedToken × Nat)} (hlen : l.length ≤ 32)
    (hsep : Separated l) : Accepts 32 (printTokens lead l).chars := by
  obtain ⟨htok, hrest⟩ := lex_printTokens lead hsep
  refine ⟨hrest, by rwa [htok, List.length_map], fun x hx => ?_⟩
  rw [htok] at hx
  obtain ⟨y, -, rfl⟩ := List.mem_map.mp hx
  by_cases hlit : isLiteral y.1.rule.tokenType = true
  · have hle := y.1.short hlit
    simp only [fits, PrintedToken.lexeme, hlit, Bool.not_true, Bool.false_or]
    exact decide_eq_true (Nat.le_succ_of_le hle)
  · simp [fits, PrintedToken.lexeme, hlit]

/-- **A printed tree is read as that tree**: the leaves of a parse tree, at most 32 and printed with
enough spaces between them, are tokenised to a range that the helpers decompose, and the tree is the
only one that the range holds. -/
theorem makeToken_printTree (t : Tree .E) (lead : Nat) (l : List (PrintedToken × Nat))
    (st : LexState) (hleaves : l.map (·.1.rule.tokenType) = t.yield) (hlen : l.length ≤ 32)
    (hsep : Separated l) :
    ∃ out, makeToken (printTokens lead l) st = some out ∧ out.ret = true ∧
      Reducible out.state.tokens 0 (out.state.nrToken - 1) ∧
      ∀ t' : Tree .E, Occupies out.state.tokens 0 (out.state.nrToken - 1) t'.yield ↔ t' = t := by
  obtain ⟨out, hout, hspec⟩ := makeToken_spec (printTokens lead l) st
  have hret : out.ret = true :=
    hspec.ret.trans (decide_eq_true (accepts_printTokens hlen hsep))
  have hocc := hspec.occupies hret
  have htypes : (tokenLexemes (printTokens lead l).chars).map (·.1.tokenType) = t.yield := by
    rw [(lex_printTokens lead hsep).1, List.map_map, ← hleaves]
    rfl
  rw [htypes] at hocc
  refine ⟨out, hout, hret, t.reducible hocc, fun t' => ⟨fun ht' => ?_, ?_⟩⟩
  · exact Tree.yield_injective (ht'.unique hocc)
  · rintro rfl
    exact hocc

/-- `*` -/
def starToken : PrintedToken where
  rule := .star
  spelling := [byte '*']
  not_spaces := by decide
  matched := Set.mem_singleton _
  short h := absurd h (by decide)

theorem makeToken_printTree_deref :
    ∃ out, makeToken (printTokens 0 [(starToken, 1), (hexToken, 0)]) .zero = some out ∧
      out.ret = true ∧ Reducible out.state.tokens 0 (out.state.nrToken - 1) ∧
      ∀ t' : Tree .E, Occupies out.state.tokens 0 (out.state.nrToken - 1) t'.yield ↔
        t' = .ofT (.ofU (.sign .star (.ofP (.operand .hex)))) :=
  makeToken_printTree (.ofT (.ofU (.sign .star (.ofP (.operand .hex))))) 0
    [(starToken, 1), (hexToken, 0)] .zero (by decide) (by decide)
    (by unfold Separated; simp only [List.isChain_cons_cons, List.isChain_singleton]; decide)

end NoteNew.Expr
