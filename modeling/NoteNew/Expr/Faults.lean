import NoteNew.Expr.TokenStorage
import NoteNew.Regex.Truncation

/-!
# Failed tokenisations

Where `make_token` stops and what it leaves. The place its report names is the start of the lexeme
at fault; the text in front of it is tokenised successfully, and to the state that the failed call
leaves (`makeToken_fault`). An expression cut between two lexemes has the same lexemes in front of
the cut, so both calls store the same tokens.
-/

namespace NoteNew.Expr

open Regex

/-- The place that a report names. -/
def Diagnostic.position : Diagnostic → Nat
  | tooManyTokens _ _ start _ _ => start
  | tokenTooLong _ _ _ start _ _ => start
  | noMatch position _ => position

/-- The fault at a place with so many tokens in front of it, out of `room`, and this text behind:
a token too many, a literal that is too long, or a text that no rule matches. -/
def Diagnostic.Explains (room count : Nat) (behind : List UInt8) : Diagnostic → Prop
  | tooManyTokens _ _ _ _ _ =>
    count = room ∧ ∃ r n, tryRules behind = some (r, n) ∧ r ≠ .spaces
  | tokenTooLong _ _ _ _ _ _ =>
    count < room ∧ ∃ r n, tryRules behind = some (r, n) ∧ isLiteral r.tokenType = true ∧
      maxTokenStrLen < n
  | noMatch _ _ => behind ≠ [] ∧ tryRules behind = none

/-- The expression cut at a place. -/
def CString.take (e : CString) (n : Nat) : CString where
  chars := e.chars.take n
  nul_free h := e.nul_free (List.mem_of_mem_take h)

/-! ## The lexemes in front of a fault -/

/-- The loop stops `k` characters into the text `s`, with the report `d`. -/
structure FaultAt (s : List UInt8) (room k : Nat) (d : Diagnostic) : Prop where
  reaches : Reaches tryRules s k
  accepts : Accepts room (s.take k)
  admitted : admitted room s = tokenLexemes (s.take k)
  explains : d.Explains room (tokenLexemes (s.take k)).length (s.drop k)

variable {s : List UInt8} {r : Rule} {n k room : Nat} {d : Diagnostic}

theorem Diagnostic.Explains.succ {count : Nat} (h : d.Explains room count s) :
    d.Explains (room + 1) (count + 1) s := by
  cases d with
  | tooManyTokens =>
    obtain ⟨hcount, hnext⟩ := h
    exact ⟨congrArg (· + 1) hcount, hnext⟩
  | tokenTooLong =>
    obtain ⟨hcount, hnext⟩ := h
    exact ⟨Nat.succ_lt_succ hcount, hnext⟩
  | noMatch => exact h

/-- A text cut behind its first lexeme begins with it. -/
theorem next_take (h : lexer.next s = some (r, n)) (k : Nat) :
    lexer.next (s.take (n + k)) = some (r, n) :=
  longestRule_take Rule.regex h (Nat.le_add_right n k)

theorem drop_take_add (s : List UInt8) (n k : Nat) :
    (s.take (n + k)).drop n = (s.drop n).take k := by
  rw [List.drop_take, Nat.add_sub_cancel_left]

/-- Nothing is stored of a text that is at fault from its start. -/
theorem FaultAt.here (h : Expr.admitted room s = []) (hd : d.Explains room 0 s) :
    FaultAt s room 0 d where
  reaches := .start s
  accepts := accepts_nil room
  admitted := by rw [h, List.take_zero, tokenLexemes_nil]
  explains := by
    rw [List.take_zero, tokenLexemes_nil]
    exact hd

theorem FaultAt.of_spaces (h : lexer.next s = some (.spaces, n))
    (hd : FaultAt (s.drop n) room k d) : FaultAt s room (n + k) d := by
  have hcut := next_take h k
  have hlex := tokenLexemes_of_spaces hcut
  have hacc : Accepts room _ ↔ _ := Accepts.iff_of_spaces hcut
  rw [drop_take_add] at hlex hacc
  refine ⟨.step (tryRules_eq_next s ▸ h) hd.reaches, hacc.mpr hd.accepts, ?_, ?_⟩
  · rw [admitted_of_spaces h, hd.admitted, hlex]
  · rw [hlex, ← List.drop_drop]
    exact hd.explains

theorem FaultAt.of_token (h : lexer.next s = some (r, n)) (hr : r ≠ .spaces)
    (hfits : fits (r, s.take n) = true) (hd : FaultAt (s.drop n) room k d) :
    FaultAt s (room + 1) (n + k) d := by
  have hcut := next_take h k
  have hword : (s.take (n + k)).take n = s.take n := by
    rw [List.take_take, Nat.min_eq_left (Nat.le_add_right n k)]
  have hlex := tokenLexemes_of_token hcut hr
  have hacc : Accepts (room + 1) _ ↔ _ := Accepts.iff_of_token hcut hr (hword ▸ hfits)
  rw [drop_take_add] at hlex hacc
  rw [hword] at hlex
  refine ⟨.step (tryRules_eq_next s ▸ h) hd.reaches, hacc.mpr hd.accepts, ?_, ?_⟩
  · rw [admitted_of_token h hr hfits, hd.admitted, hlex]
  · rw [hlex, List.length_cons, ← List.drop_drop]
    exact hd.explains.succ

/-- **The loop** that fails does so at a fault, and names its place. -/
theorem LoopRun.fault {e : CString} {position : Nat} {st : LexState} {out : LexResult}
    (hrun : LoopRun e s room position st out) (hret : out.ret = false) :
    ∃ d k, out.diag = some d ∧ d.position = position + k ∧ FaultAt s room k d := by
  induction hrun with
  | done => cases hret
  | @noMatch s room position st hs hne h =>
    have hnone : Expr.admitted room s = [] := by
      rw [Expr.admitted, tokenLexemes_of_none h, List.take_nil, List.takeWhile_nil]
    exact ⟨_, 0, rfl, rfl, .here hnone ⟨hne, tryRules_eq_next s ▸ h⟩⟩
  | @spaces s n _ _ _ _ h _ ih =>
    obtain ⟨d, k, hdiag, hpos, hfault⟩ := ih hret
    exact ⟨d, n + k, hdiag, by rw [hpos, Nat.add_assoc], hfault.of_spaces h⟩
  | @full s r n _ _ _ h hr _ =>
    exact ⟨_, 0, rfl, rfl, .here rfl ⟨rfl, r, n, tryRules_eq_next s ▸ h, hr⟩⟩
  | @token s r n _ _ _ _ h hr hfits _ ih =>
    obtain ⟨d, k, hdiag, hpos, hfault⟩ := ih hret
    exact ⟨d, n + k, hdiag, by rw [hpos, Nat.add_assoc], hfault.of_token h hr hfits⟩
  | @tooLong s r n room _ _ _ h hr hfits =>
    exact ⟨_, 0, rfl, rfl, .here (admitted_of_long h hr hfits)
      ⟨Nat.succ_pos room, r, n, tryRules_eq_next s ▸ h, long_of_not_fits h hfits⟩⟩

/-- **A failed call keeps the tokens in front of the fault**: from any state the report names a
place that the scan comes to, what stands there explains the report, and on the text in front of it
the call returns `true` and leaves the same state: its tokens are the lexemes in front of the
fault. -/
theorem makeToken_fault (e : CString) (st : LexState) :
    ∃ out, makeToken e st = some out ∧ (out.ret = false → ∃ d, out.diag = some d ∧
      Reaches tryRules e.chars d.position ∧
      d.Explains 32 (tokenLexemes (e.chars.take d.position)).length (e.chars.drop d.position) ∧
      out.state.nrToken = (tokenLexemes (e.chars.take d.position)).length ∧
      ∃ out', makeToken (e.take d.position) st = some out' ∧ out'.ret = true ∧
        out.state = out'.state ∧ out.state.nrToken = out'.state.nrToken ∧
        ∀ k, out.state.typeOf k = out'.state.typeOf k ∧
          out.state.strOf k = out'.state.strOf k) := by
  obtain ⟨out, hout, hrun⟩ := makeToken_run e st
  refine ⟨out, hout, fun hret => ?_⟩
  obtain ⟨d, k, hdiag, hpos, hfault⟩ := hrun.fault hret
  rw [Nat.zero_add] at hpos
  subst hpos
  obtain ⟨out', hout', hspec'⟩ := makeToken_spec (e.take d.position) st
  have hret' : out'.ret = true := by
    rw [hspec'.ret, decide_eq_true_iff]
    exact hfault.accepts
  have hstate : out.state = out'.state := by
    rw [hrun.spec.state, hfault.admitted, hspec'.stored hret']
    rfl
  refine ⟨d, hdiag, hfault.reaches, hfault.explains, ?_, out', hout', hret', hstate, ?_, ?_⟩
  · rw [hrun.spec.state, hfault.admitted, storeLexemes_nrToken, Int.zero_add]
  · rw [hstate]
  · intro k
    rw [hstate]
    exact ⟨rfl, rfl⟩

/-- `1 # 2` -/
def sumWithHash : CString :=
  ⟨['1', ' ', '#', ' ', '2'].map byte, by decide⟩

theorem makeToken_fault_hash :
    ∃ out d, makeToken sumWithHash .zero = some out ∧ out.ret = false ∧ out.diag = some d ∧
      Reaches tryRules sumWithHash.chars d.position ∧
      d.Explains 32 (tokenLexemes (sumWithHash.chars.take d.position)).length
        (sumWithHash.chars.drop d.position) ∧
      ∃ out', makeToken (sumWithHash.take d.position) .zero = some out' ∧ out'.ret = true ∧
        out.state = out'.state := by
  obtain ⟨out, hout, hfault⟩ := makeToken_fault sumWithHash .zero
  have hret : out.ret = false := makeToken_ret hout (by decide +kernel)
  obtain ⟨d, hdiag, hreaches, hexplains, -, out', hout', hret', hstate, -⟩ := hfault hret
  exact ⟨out, d, hout, hret, hdiag, hreaches, hexplains, out', hout', hret', hstate⟩

end NoteNew.Expr
