import NoteNew.Expr.Rules
import NoteNew.Memory.Bytes

/-!
# `make_token`

The tokenizer: the loop over the expression with its two capacity checks and the stores it performs
into the token array, down to single bytes. `LoopRun` lists the turns of the loop, and
`makeToken_spec` is the refinement to the segmentation of the expression by maximal munch: the loop
stops, stores the lexemes that both limits admit in their order, and returns `true` exactly when
that is all of them and nothing is left.
-/

namespace NoteNew.Expr

open Regex Memory

/-- A NUL-terminated string: the characters in front of the NUL. -/
structure CString where
  chars : List UInt8
  nul_free : 0 ∉ chars
deriving DecidableEq, Repr

def maxTokenStrLen : Nat := 32

/-- `ARRLEN(tokens)` -/
def tokensLen : Int := 32

/-! ## Stores -/

/-- A store into the token array, by the field it is meant for: `tokens[k].type = v` or
`tokens[k].str[j] = c`. -/
inductive Store where
  | type (k : Int) (v : Int)
  | str (k : Int) (j : Nat) (c : UInt8)
deriving DecidableEq, Repr

/-- The array is an array of records of 36 bytes, four of them for `type`. -/
def Store.apply : Store → Mem → Mem
  | type k v, m => write m (36 * k) (encode32 v)
  | str k j c, m => write m (36 * k + 4 + j) [c]

/-- The globals `tokens`, as the memory from its address on, and `nr_token`, with the stores that
the call has performed so far. Nothing else of the program is taken to lie behind the array, so a
store there changes no other variable. -/
structure LexState where
  mem : Mem
  nrToken : Int
  stores : List Store

namespace LexState

def perform (st : LexState) (ss : List Store) : LexState :=
  { st with
    mem := ss.foldl (fun m s => s.apply m) st.mem
    stores := st.stores ++ ss }

/-- `tokens[k].type` -/
def typeOf (st : LexState) (k : Int) : Int :=
  decode32 (read st.mem (36 * k) 4)

/-- `tokens[k].str`, read as a string. -/
def strOf (st : LexState) (k : Int) : List UInt8 :=
  cstr st.mem (36 * k + 4) maxTokenStrLen

end LexState

/-- Copy `n` characters of a string; behind its end NULs are copied. -/
def strncpy (k : Int) (src : List UInt8) (n : Nat) : List Store :=
  (List.range n).map fun j => .str k j (src.getD j 0)

/-- The stores for one token: its type, and for a literal its spelling with a terminator. -/
def LexState.storeToken (st : LexState) (tokenType : Int) (substrStart : List UInt8)
    (substrLen : Nat) : LexState :=
  let k := st.nrToken
  let st := st.perform [.type k tokenType]
  let st :=
    if isLiteral tokenType then
      (st.perform (strncpy k substrStart substrLen)).perform [.str k substrLen 0]
    else st
  { st with nrToken := k + 1 }

/-! ## Errors -/

/-- The three error reports, with the values they print. -/
inductive Diagnostic where
  | tooManyTokens (capacity nrToken : Int) (start : Nat) (lexeme expr : List UInt8)
  | tokenTooLong (typeName : String) (length limit start : Nat) (lexeme expr : List UInt8)
  | noMatch (position : Nat) (expr : List UInt8)
deriving DecidableEq, Repr

/-- The length check of a literal; a failure carries the report it prints. -/
def checkTokenLength (tokenType : Int) (substrStart : List UInt8) (substrLen : Nat)
    (expr : List UInt8) (currentPosition : Nat) : Except Diagnostic Unit :=
  let needCheck :=
    tokenType = tkDec || tokenType = tkHex || tokenType = tkReg || tokenType = tkIdent
  if !needCheck then .ok ()
  else if substrLen > maxTokenStrLen then
    .error (.tokenTooLong (getTokenTypeName tokenType) substrLen maxTokenStrLen
      (currentPosition - substrLen) (substrStart.take substrLen) expr)
  else .ok ()

/-! ## The loop -/

/-- The returned value, the report printed and the globals afterwards. -/
structure LexResult where
  ret : Bool
  diag : Option Diagnostic
  state : LexState

/-- The `while` loop for at most `fuel` turns; `none` when it has not stopped by then. -/
def makeTokenLoop (e : CString) : Nat → Nat → LexState → Option LexResult
  | 0, _, _ => none
  | fuel + 1, position, st =>
    let substrStart := e.chars.drop position
    if substrStart = [] then some ⟨true, none, st⟩
    else
      match tryRules substrStart with
      | none => some ⟨false, some (.noMatch position e.chars), st⟩
      | some (rule, substrLen) =>
        let position := position + substrLen
        if rule.tokenType = tkNotype then makeTokenLoop e fuel position st
        else if st.nrToken ≥ tokensLen then
          some ⟨false, some (.tooManyTokens tokensLen st.nrToken (position - substrLen)
            (substrStart.take substrLen) e.chars), st⟩
        else
          match checkTokenLength rule.tokenType substrStart substrLen e.chars position with
          | .error diag => some ⟨false, some diag, st⟩
          | .ok () =>
            makeTokenLoop e fuel position (st.storeToken rule.tokenType substrStart substrLen)

/-- Every turn but the last consumes a character. -/
def makeToken (e : CString) (st : LexState) : Option LexResult :=
  makeTokenLoop e (e.chars.length + 1) 0 { st with nrToken := 0, stores := [] }

/-! ## The lexemes of an expression -/

/-- The maximal-munch lexer of the rule table. -/
def lexer : Lexer Rule UInt8 :=
  Lexer.longest Rule.regex rules fun r _ => r.nil_notMem

theorem tryRules_eq_next (s : List UInt8) : tryRules s = lexer.next s :=
  tryRules_eq_longest s

/-- A lexeme: the rule that matches it and its spelling. -/
abbrev Lexeme := Rule × List UInt8

/-- The lexemes that become tokens. -/
def tokenLexemes (s : List UInt8) : List Lexeme :=
  (lexer.segment s).1.filter (·.1 ≠ .spaces)

/-- The lexeme passes the length check. -/
def fits (x : Lexeme) : Bool :=
  !isLiteral x.1.tokenType || x.2.length ≤ maxTokenStrLen

/-- The lexemes that are stored: as many as the array has room for, up to the first one that is too
long. -/
def admitted (room : Nat) (s : List UInt8) : List Lexeme :=
  ((tokenLexemes s).take room).takeWhile fits

/-- Store lexemes one after the other. -/
def LexState.storeLexemes (st : LexState) (l : List Lexeme) : LexState :=
  l.foldl (fun st x => st.storeToken x.1.tokenType x.2 x.2.length) st

/-- Nothing is left over, and all lexemes are within both limits. -/
def Accepts (room : Nat) (s : List UInt8) : Prop :=
  (lexer.segment s).2 = [] ∧ (tokenLexemes s).length ≤ room ∧ ∀ x ∈ tokenLexemes s, fits x = true

instance (room : Nat) (s : List UInt8) : Decidable (Accepts room s) :=
  inferInstanceAs (Decidable (_ ∧ _ ∧ _))

section Lexemes

variable {s : List UInt8} {r : Rule} {n room : Nat}

theorem next_matches (h : lexer.next s = some (r, n)) : s.take n ∈ r.regex.matches' :=
  (longestPrefix_eq_some_iff.mp (longestRule_eq_some _ h).2.1).mem

theorem tokenLexemes_of_none (h : lexer.next s = none) : tokenLexemes s = [] := by
  rw [tokenLexemes, lexer.segment_of_none h]
  rfl

theorem tokenLexemes_nil : tokenLexemes [] = [] :=
  tokenLexemes_of_none lexer.next_nil

theorem tokenLexemes_of_spaces (h : lexer.next s = some (.spaces, n)) :
    tokenLexemes s = tokenLexemes (s.drop n) := by
  rw [tokenLexemes, lexer.segment_of_some h, List.filter_cons_of_neg (by simp)]
  rfl

theorem tokenLexemes_of_token (h : lexer.next s = some (r, n)) (hr : r ≠ .spaces) :
    tokenLexemes s = (r, s.take n) :: tokenLexemes (s.drop n) := by
  rw [tokenLexemes, lexer.segment_of_some h, List.filter_cons_of_pos (by simpa using hr)]
  rfl

theorem rest_of_some (h : lexer.next s = some (r, n)) :
    (lexer.segment s).2 = (lexer.segment (s.drop n)).2 := by
  rw [lexer.segment_of_some h]

theorem accepts_nil (room : Nat) : Accepts room [] := by
  rw [Accepts, lexer.segment_nil, tokenLexemes_nil]
  simp

theorem Accepts.iff_of_spaces (h : lexer.next s = some (.spaces, n)) :
    Accepts room s ↔ Accepts room (s.drop n) := by
  rw [Accepts, Accepts, rest_of_some h, tokenLexemes_of_spaces h]

theorem Accepts.iff_of_token (h : lexer.next s = some (r, n)) (hr : r ≠ .spaces)
    (hfits : fits (r, s.take n) = true) :
    Accepts (room + 1) s ↔ Accepts room (s.drop n) := by
  rw [Accepts, Accepts, rest_of_some h, tokenLexemes_of_token h hr, List.length_cons,
    Nat.add_le_add_iff_right, List.forall_mem_cons]
  simp only [hfits, true_and]

theorem not_accepts_zero (h : lexer.next s = some (r, n)) (hr : r ≠ .spaces) :
    ¬ Accepts 0 s := by
  intro h
  obtain ⟨-, hlen, -⟩ := h
  rw [tokenLexemes_of_token h hr, List.length_cons] at hlen
  omega

theorem not_accepts_of_long (h : lexer.next s = some (r, n)) (hr : r ≠ .spaces)
    (hfits : fits (r, s.take n) ≠ true) : ¬ Accepts room s := by
  intro h
  obtain ⟨-, -, hall⟩ := h
  rw [tokenLexemes_of_token h hr] at hall
  exact hfits (hall _ List.mem_cons_self)

end Lexemes

/-! ## Refinement -/

theorem tokenType_eq_notype_iff (r : Rule) : r.tokenType = tkNotype ↔ r = .spaces := by
  cases r <;> decide

/-- Only the characters of the lexeme are copied. -/
theorem storeToken_take (st : LexState) (tokenType : Int) (s : List UInt8) (n : Nat) :
    st.storeToken tokenType s n = st.storeToken tokenType (s.take n) n := by
  have hcopy : strncpy st.nrToken s n = strncpy st.nrToken (s.take n) n := by
    refine List.map_congr_left fun j hj => ?_
    rw [List.getD_eq_getElem?_getD, List.getD_eq_getElem?_getD,
      List.getElem?_take_of_lt (List.mem_range.mp hj)]
  simp only [LexState.storeToken, hcopy]

theorem storeToken_nrToken (st : LexState) (tokenType : Int) (s : List UInt8) (n : Nat) :
    (st.storeToken tokenType s n).nrToken = st.nrToken + 1 := rfl

/-- The length check passes the lexemes that fit, and reports the others where they stand. -/
theorem checkTokenLength_eq (r : Rule) (s expr : List UInt8) {n : Nat} (hn : n ≤ s.length)
    (position : Nat) :
    checkTokenLength r.tokenType s n expr (position + n) =
      if fits (r, s.take n) then .ok ()
      else .error (.tokenTooLong (getTokenTypeName r.tokenType) n maxTokenStrLen position
        (s.take n) expr) := by
  have hlen : (s.take n).length = n := List.length_take_of_le hn
  have hneed : (r.tokenType = tkDec || r.tokenType = tkHex || r.tokenType = tkReg ||
      r.tokenType = tkIdent : Bool) = isLiteral r.tokenType := rfl
  unfold checkTokenLength fits
  simp only [hneed, hlen, Nat.add_sub_cancel]
  by_cases hlit : isLiteral r.tokenType = true
  · by_cases hle : n ≤ maxTokenStrLen
    · simp [hlit, hle]
    · simp [hlit, hle, Nat.lt_of_not_le hle]
  · simp [hlit]

/-- The report says what is at the place it names. -/
def Diagnostic.Describes (e : List UInt8) : Diagnostic → Prop
  | tooManyTokens capacity nrToken start lexeme expr =>
    capacity = tokensLen ∧ nrToken = tokensLen ∧ expr = e ∧
      ∃ r, lexer.next (e.drop start) = some (r, lexeme.length) ∧ r ≠ .spaces ∧
        lexeme = (e.drop start).take lexeme.length
  | tokenTooLong typeName length limit start lexeme expr =>
    limit = maxTokenStrLen ∧ limit < length ∧ expr = e ∧
      ∃ r, lexer.next (e.drop start) = some (r, length) ∧ isLiteral r.tokenType = true ∧
        typeName = getTokenTypeName r.tokenType ∧ lexeme = (e.drop start).take length
  | noMatch position expr =>
    expr = e ∧ position < e.length ∧ lexer.next (e.drop position) = none

/-- What the loop does with the text `s` and room for so many tokens. -/
structure LoopSpec (e s : List UInt8) (room : Nat) (st : LexState) (out : LexResult) : Prop where
  ret : out.ret = decide (Accepts room s)
  state : out.state = st.storeLexemes (admitted room s)
  diag : out.ret = out.diag.isNone
  describes : ∀ d, out.diag = some d → d.Describes e
  noMatch : ∀ position expr, out.diag = some (.noMatch position expr) → (lexer.segment s).2 ≠ []

theorem LoopSpec.accepts {e s : List UInt8} {room : Nat} {st : LexState} {out : LexResult}
    (h : LoopSpec e s room st out) (hret : out.ret = true) : Accepts room s :=
  of_decide_eq_true (h.ret.symm.trans hret)

section Loop

variable {e : CString} {s : List UInt8} {fuel position room n : Nat} {r : Rule} {st : LexState}

theorem admitted_of_spaces (h : lexer.next s = some (.spaces, n)) :
    admitted room s = admitted room (s.drop n) := by
  rw [admitted, admitted, tokenLexemes_of_spaces h]

theorem admitted_of_token (h : lexer.next s = some (r, n)) (hr : r ≠ .spaces)
    (hfits : fits (r, s.take n) = true) :
    admitted (room + 1) s = (r, s.take n) :: admitted room (s.drop n) := by
  rw [admitted, admitted, tokenLexemes_of_token h hr, List.take_succ_cons,
    List.takeWhile_cons_of_pos hfits]

theorem admitted_of_long (h : lexer.next s = some (r, n)) (hr : r ≠ .spaces)
    (hfits : fits (r, s.take n) ≠ true) : admitted room s = [] := by
  rw [admitted, tokenLexemes_of_token h hr]
  cases room with
  | zero => rfl
  | succ room => rw [List.take_succ_cons, List.takeWhile_cons_of_neg hfits]

theorem LoopSpec.of_spaces {out : LexResult} (h : lexer.next s = some (.spaces, n))
    (hout : LoopSpec e.chars (s.drop n) room st out) : LoopSpec e.chars s room st out where
  ret := by rw [hout.ret]; simp only [Accepts.iff_of_spaces h]
  state := by rw [hout.state, admitted_of_spaces h]
  diag := hout.diag
  describes := hout.describes
  noMatch p x hd := by rw [rest_of_some h]; exact hout.noMatch p x hd

theorem LoopSpec.of_token {out : LexResult} (h : lexer.next s = some (r, n)) (hr : r ≠ .spaces)
    (hfits : fits (r, s.take n) = true)
    (hout : LoopSpec e.chars (s.drop n) room (st.storeToken r.tokenType s n) out) :
    LoopSpec e.chars s (room + 1) st out where
  ret := by rw [hout.ret]; simp only [Accepts.iff_of_token h hr hfits]
  state := by
    rw [hout.state, admitted_of_token h hr hfits, storeToken_take]
    have hlen : (s.take n).length = n := List.length_take_of_le (lexer.le h)
    simp only [LexState.storeLexemes, List.foldl_cons, hlen]
  diag := hout.diag
  describes := hout.describes
  noMatch p x hd := by rw [rest_of_some h]; exact hout.noMatch p x hd

/-- The last turn of the loop: at the end, or where no rule matches. -/
theorem makeTokenLoop_none (hs : s = e.chars.drop position) (h : lexer.next s = none) :
    makeTokenLoop e (fuel + 1) position st =
      some (if s = [] then ⟨true, none, st⟩
        else ⟨false, some (.noMatch position e.chars), st⟩) := by
  unfold makeTokenLoop
  simp only [← hs, tryRules_eq_next, h]
  split <;> rfl

/-- One turn of the loop on a lexeme. -/
theorem makeTokenLoop_some (hs : s = e.chars.drop position) (h : lexer.next s = some (r, n)) :
    makeTokenLoop e (fuel + 1) position st =
      if r = .spaces then makeTokenLoop e fuel (position + n) st
      else if st.nrToken ≥ tokensLen then
        some ⟨false, some (.tooManyTokens tokensLen st.nrToken position (s.take n) e.chars), st⟩
      else if fits (r, s.take n) then
        makeTokenLoop e fuel (position + n) (st.storeToken r.tokenType s n)
      else some ⟨false, some (.tokenTooLong (getTokenTypeName r.tokenType) n maxTokenStrLen position
        (s.take n) e.chars), st⟩ := by
  have hne : s ≠ [] := by
    intro h
    subst h
    rw [lexer.next_nil] at h
    cases h
  rw [makeTokenLoop]
  simp only [← hs, if_neg hne, tryRules_eq_next, h, tokenType_eq_notype_iff,
    checkTokenLength_eq r s e.chars (lexer.le h), Nat.add_sub_cancel]
  cases fits (r, s.take n) <;> rfl

/-- The turns that the loop takes from a place on, with the text there and the room that is left in
the token array. -/
inductive LoopRun (e : CString) : List UInt8 → Nat → Nat → LexState → LexResult → Prop where
  | done {room position : Nat} {st : LexState} : LoopRun e [] room position st ⟨true, none, st⟩
  | noMatch {s : List UInt8} {room position : Nat} {st : LexState}
    (hs : s = e.chars.drop position) (hne : s ≠ []) (h : lexer.next s = none) :
    LoopRun e s room position st ⟨false, some (.noMatch position e.chars), st⟩
  | spaces {s : List UInt8} {n room position : Nat} {st : LexState} {out : LexResult}
    (h : lexer.next s = some (.spaces, n))
    (hrest : LoopRun e (s.drop n) room (position + n) st out) : LoopRun e s room position st out
  | full {s : List UInt8} {r : Rule} {n position : Nat} {st : LexState}
    (hs : s = e.chars.drop position) (h : lexer.next s = some (r, n)) (hr : r ≠ .spaces)
    (hfull : st.nrToken = tokensLen) :
    LoopRun e s 0 position st
      ⟨false, some (.tooManyTokens tokensLen st.nrToken position (s.take n) e.chars), st⟩
  | token {s : List UInt8} {r : Rule} {n room position : Nat} {st : LexState} {out : LexResult}
    (h : lexer.next s = some (r, n)) (hr : r ≠ .spaces) (hfits : fits (r, s.take n) = true)
    (hrest : LoopRun e (s.drop n) room (position + n) (st.storeToken r.tokenType s n) out) :
    LoopRun e s (room + 1) position st out
  | tooLong {s : List UInt8} {r : Rule} {n room position : Nat} {st : LexState}
    (hs : s = e.chars.drop position) (h : lexer.next s = some (r, n)) (hr : r ≠ .spaces)
    (hfits : fits (r, s.take n) ≠ true) :
    LoopRun e s (room + 1) position st
      ⟨false, some (.tokenTooLong (getTokenTypeName r.tokenType) n maxTokenStrLen position
        (s.take n) e.chars), st⟩

/-- The loop stops. -/
theorem makeTokenLoop_run (hs : s = e.chars.drop position) (hfuel : s.length < fuel)
    (hroom : st.nrToken + room = tokensLen) :
    ∃ out, makeTokenLoop e fuel position st = some out ∧ LoopRun e s room position st out := by
  induction s using lexer.induction generalizing position room st fuel with
  | stop s h =>
    obtain ⟨fuel, rfl⟩ := Nat.exists_eq_succ_of_ne_zero (Nat.ne_zero_of_lt hfuel)
    rw [makeTokenLoop_none hs h]
    by_cases hne : s = []
    · rw [if_pos hne, hne]
      exact ⟨_, rfl, .done⟩
    · rw [if_neg hne]
      exact ⟨_, rfl, .noMatch hs hne h⟩
  | step s r n h ih =>
    obtain ⟨fuel, rfl⟩ := Nat.exists_eq_succ_of_ne_zero (Nat.ne_zero_of_lt hfuel)
    have hdrop : s.drop n = e.chars.drop (position + n) := by rw [hs, List.drop_drop]
    have hlt : (s.drop n).length < fuel := by
      have := lexer.length_drop_lt h
      omega
    rw [makeTokenLoop_some hs h]
    by_cases hr : r = .spaces
    · subst hr
      obtain ⟨out, hloop, hrun⟩ := ih hdrop hlt hroom
      rw [if_pos rfl]
      exact ⟨out, hloop, .spaces h hrun⟩
    · rw [if_neg hr]
      cases room with
      | zero =>
        have hfull : st.nrToken = tokensLen := by simpa using hroom
        rw [if_pos hfull.ge]
        exact ⟨_, rfl, .full hs h hr hfull⟩
      | succ room =>
        rw [if_neg (by push_cast at hroom; omega)]
        by_cases hfits : fits (r, s.take n) = true
        · have hnext : (st.storeToken r.tokenType s n).nrToken + room = tokensLen := by
            rw [storeToken_nrToken]
            push_cast at hroom
            omega
          obtain ⟨out, hloop, hrun⟩ := ih hdrop hlt hnext
          rw [if_pos hfits]
          exact ⟨out, hloop, .token h hr hfits hrun⟩
        · rw [if_neg hfits]
          exact ⟨_, rfl, .tooLong hs h hr hfits⟩

theorem long_of_not_fits (h : lexer.next s = some (r, n)) (hfits : fits (r, s.take n) ≠ true) :
    isLiteral r.tokenType = true ∧ maxTokenStrLen < n := by
  have hlen : (s.take n).length = n := List.length_take_of_le (lexer.le h)
  simpa [fits, hlen] using hfits

/-- **The loop** does with the rest of the expression what its segmentation says. -/
theorem LoopRun.spec {out : LexResult} (hrun : LoopRun e s room position st out) :
    LoopSpec e.chars s room st out := by
  induction hrun with
  | done =>
    refine ⟨(decide_eq_true (accepts_nil _)).symm, ?_, rfl, ?_, ?_⟩
    · rw [admitted, tokenLexemes_nil, List.take_nil]
      rfl
    · intro d hd; cases hd
    · intro p x hd; cases hd
  | @noMatch s room position st hs hne h =>
    have hseg := lexer.segment_of_none h
    refine ⟨?_, ?_, rfl, ?_, ?_⟩
    · refine (decide_eq_false fun hacc => hne ?_).symm
      rw [Accepts, hseg] at hacc
      exact hacc.1
    · rw [admitted, tokenLexemes_of_none h, List.take_nil]
      rfl
    · intro d hd
      cases hd
      refine ⟨rfl, ?_, by rw [← hs, h]⟩
      by_contra hle
      exact hne (by rw [hs, List.drop_eq_nil_of_le (Nat.le_of_not_lt hle)])
    · intro p x _
      rwa [hseg]
  | spaces h _ ih => exact ih.of_spaces h
  | @full s r n position st hs h hr hfull =>
    have hlen : (s.take n).length = n := List.length_take_of_le (lexer.le h)
    refine ⟨(decide_eq_false (not_accepts_zero h hr)).symm, rfl, rfl, ?_, ?_⟩
    · intro d hd
      cases hd
      exact ⟨rfl, hfull, rfl, r, by rw [hlen, ← hs, h], hr, by rw [hlen, ← hs]⟩
    · intro p x hd; cases hd
  | token h hr hfits _ ih => exact ih.of_token h hr hfits
  | @tooLong s r n room position st hs h hr hfits =>
    refine ⟨(decide_eq_false (not_accepts_of_long h hr hfits)).symm, ?_, rfl, ?_, ?_⟩
    · rw [admitted_of_long h hr hfits]
      rfl
    · intro d hd
      cases hd
      obtain ⟨hlit, hlong⟩ := long_of_not_fits h hfits
      exact ⟨rfl, hlong, rfl, r, by rw [← hs, h], hlit, rfl, by rw [← hs]⟩
    · intro p x hd; cases hd

end Loop

theorem makeToken_run (e : CString) (st : LexState) :
    ∃ out, makeToken e st = some out ∧
      LoopRun e e.chars 32 0 { st with nrToken := 0, stores := [] } out :=
  makeTokenLoop_run rfl (Nat.lt_succ_self _) rfl

/-- **The tokenizer** on any expression and from any state: it stops, returns `true` exactly when
the maximal-munch segmentation covers the expression within both limits, and leaves the admitted
lexemes stored. -/
theorem makeToken_spec (e : CString) (st : LexState) :
    ∃ out, makeToken e st = some out ∧
      LoopSpec e.chars e.chars 32 { st with nrToken := 0, stores := [] } out := by
  obtain ⟨out, hout, hrun⟩ := makeToken_run e st
  exact ⟨out, hout, hrun.spec⟩

/-- What a call on a given text has returned. -/
theorem makeToken_ret {e : CString} {st : LexState} {out : LexResult} {ret : Bool}
    (hout : makeToken e st = some out) (h : (makeToken e st).map LexResult.ret = some ret) :
    out.ret = ret := by
  rw [hout] at h
  exact Option.some.inj h

end NoteNew.Expr
