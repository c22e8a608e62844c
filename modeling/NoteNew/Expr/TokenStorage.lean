import Mathlib.Data.List.TakeWhile
import NoteNew.Expr.MakeToken

/-!
# The stored tokens

What the stores of `make_token` leave in the token array. Every lexeme is read back with its type
and, if it is kept, its spelling (`storeLexemes_typeOf`, `storeLexemes_strOf`), one of at most 31
characters as a terminated string (`storeLexemes_str`). The length check admits 32 characters, one
more than the buffer can hold with the terminator: the stores keep to their own token exactly when
no admitted literal has that length (`makeToken_storesFit_iff`).
-/

namespace NoteNew.Expr

open Regex Memory

variable {st : LexState} {k : Int} {x : Lexeme} {l : List Lexeme}

/-! ## The bytes of one token -/

/-- The stores for a lexeme in the token `k`. -/
def tokenStores (k : Int) (x : Lexeme) : List Store :=
  .type k x.1.tokenType ::
    if isLiteral x.1.tokenType then
      strncpy k x.2 x.2.length ++ [.str k x.2.length 0]
    else []

/-- The bytes they write, from the start of the token on. -/
def tokenBytes (x : Lexeme) : List UInt8 :=
  encode32 x.1.tokenType ++ if isLiteral x.1.tokenType then x.2 ++ [0] else []

theorem strncpy_foldl (k : Int) (w : List UInt8) {n : Nat} (hn : n ≤ w.length) (m : Mem) :
    (strncpy k w n).foldl (fun m s => s.apply m) m = write m (36 * k + 4) (w.take n) := by
  induction n with
  | zero => rfl
  | succ n ih =>
    have hlt : n < w.length := by omega
    have hlen : (w.take n).length = n := List.length_take_of_le (by omega)
    have hstore : strncpy k w (n + 1) = strncpy k w n ++ [.str k n w[n]] := by
      rw [strncpy, List.range_succ, List.map_append, List.map_singleton,
        List.getD_eq_getElem?_getD, List.getElem?_eq_getElem hlt]
      rfl
    rw [hstore, List.foldl_append, ih (by omega), ← List.take_concat_get' w n hlt, write_append,
      hlen]
    rfl

theorem storeToken_mem (st : LexState) (x : Lexeme) :
    (st.storeToken x.1.tokenType x.2 x.2.length).mem =
      write st.mem (36 * st.nrToken) (tokenBytes x) := by
  by_cases hlit : isLiteral x.1.tokenType = true
  · simp only [LexState.storeToken, tokenBytes, if_pos hlit]
    rw [write_append, write_append, length_encode32, Nat.cast_ofNat]
    have hcopy := strncpy_foldl st.nrToken x.2 (Nat.le_refl _)
      (write st.mem (36 * st.nrToken) (encode32 x.1.tokenType))
    rw [List.take_length] at hcopy
    rw [← hcopy]
    rfl
  · simp only [LexState.storeToken, tokenBytes, if_neg hlit, List.append_nil]
    rfl

theorem storeToken_stores (st : LexState) (x : Lexeme) :
    (st.storeToken x.1.tokenType x.2 x.2.length).stores =
      st.stores ++ tokenStores st.nrToken x := by
  by_cases hlit : isLiteral x.1.tokenType = true
  · simp [LexState.storeToken, LexState.perform, tokenStores, hlit]
  · simp [LexState.storeToken, LexState.perform, tokenStores, hlit]

theorem storeLexemes_cons (st : LexState) (x : Lexeme) (l : List Lexeme) :
    st.storeLexemes (x :: l) = (st.storeToken x.1.tokenType x.2 x.2.length).storeLexemes l := rfl

theorem storeLexemes_nrToken (st : LexState) (l : List Lexeme) :
    (st.storeLexemes l).nrToken = st.nrToken + l.length := by
  induction l generalizing st with
  | nil => simp [LexState.storeLexemes]
  | cons x l ih =>
    rw [storeLexemes_cons, ih, storeToken_nrToken, List.length_cons]
    omega

/-- Later tokens leave the earlier ones alone, whatever their length. -/
theorem storeLexemes_mem_of_lt (st : LexState) (l : List Lexeme) {i : Int}
    (h : i < 36 * st.nrToken) : (st.storeLexemes l).mem i = st.mem i := by
  induction l generalizing st with
  | nil => rfl
  | cons x l ih =>
    rw [storeLexemes_cons, ih _ (by rw [storeToken_nrToken]; omega), storeToken_mem,
      write_of_lt _ _ h]

/-- The stores performed, lexeme by lexeme. -/
theorem mem_storeLexemes_stores {s : Store} : s ∈ (st.storeLexemes l).stores ↔
    s ∈ st.stores ∨ ∃ i x, l[i]? = some x ∧ s ∈ tokenStores (st.nrToken + (i : Nat)) x := by
  induction l generalizing st with
  | nil => simp [LexState.storeLexemes]
  | cons y l ih =>
    rw [storeLexemes_cons, ih, storeToken_stores, storeToken_nrToken, List.mem_append, or_assoc]
    refine or_congr_right ⟨?_, ?_⟩
    · intro h
      rcases h with h | ⟨i, x, hx, h⟩
      · exact ⟨0, y, rfl, by simpa using h⟩
      · refine ⟨i + 1, x, hx, ?_⟩
        rwa [index_succ]
    · intro h
      rcases h with ⟨_ | i, x, hx, h⟩
      · have heq : y = x := by simpa using hx
        subst heq
        exact Or.inl (by simpa using h)
      · refine Or.inr ⟨i, x, hx, ?_⟩
        rwa [← index_succ]

/-! ## Reading back -/

theorem tokenType_range (r : Rule) : -2147483648 ≤ r.tokenType ∧ r.tokenType < 2147483648 := by
  cases r <;> decide

/-- The bytes of a token are read back, as far as they lie in its record, after all the tokens are
stored. -/
theorem storeLexemes_read (st : LexState) {bs : List UInt8} {i : Nat} (hx : l[i]? = some x)
    (hbs : bs <+: tokenBytes x) (hlen : bs.length ≤ 36) :
    read (st.storeLexemes l).mem (36 * (st.nrToken + i)) bs.length = bs := by
  induction l generalizing st i with
  | nil => cases hx
  | cons y l ih =>
    rw [storeLexemes_cons]
    cases i with
    | zero =>
      have heq : y = x := by simpa using hx
      subst heq
      obtain ⟨cs, hcs⟩ := hbs
      have hframe : ∀ i, i < 36 * (st.nrToken + 1) →
          ((st.storeToken y.1.tokenType y.2 y.2.length).storeLexemes l).mem i =
            write st.mem (36 * st.nrToken) (bs ++ cs) i := fun i hi => by
        rw [storeLexemes_mem_of_lt _ _ (by rwa [storeToken_nrToken]), storeToken_mem, hcs]
      rw [index_zero, read_congr fun i _ hi => hframe i (by omega)]
      exact (read_eq_append (read_write st.mem (36 * st.nrToken) (bs ++ cs))).1
    | succ i =>
      have hnext := ih (st.storeToken y.1.tokenType y.2 y.2.length) hx
      rwa [storeToken_nrToken, ← index_succ] at hnext

theorem storeLexemes_typeOf (st : LexState) {i : Nat} (hx : l[i]? = some x) :
    (st.storeLexemes l).typeOf (st.nrToken + i) = x.1.tokenType := by
  have hlen : (encode32 x.1.tokenType).length ≤ 36 := by
    rw [length_encode32]
    decide
  have hread := storeLexemes_read st hx (List.prefix_append _ _) hlen
  rw [length_encode32] at hread
  obtain ⟨hlo, hhi⟩ := tokenType_range x.1
  rw [LexState.typeOf, hread, decode32_encode32 hlo hhi]

/-- The lexeme fits into its buffer, terminator included. -/
def Terminates (x : Lexeme) : Prop :=
  isLiteral x.1.tokenType = true → x.2.length < maxTokenStrLen

theorem length_tokenBytes (h : Terminates x) : (tokenBytes x).length ≤ 36 := by
  unfold tokenBytes
  by_cases hlit : isLiteral x.1.tokenType = true
  · have hlt : x.2.length < 32 := h hlit
    simp only [if_pos hlit, List.length_append, length_encode32, List.length_singleton]
    omega
  · simp [hlit, length_encode32]

/-- The spelling of a literal is in its buffer, followed by a NUL. -/
theorem storeLexemes_str (st : LexState) {i : Nat} (hx : l[i]? = some x) (h : Terminates x)
    (hlit : isLiteral x.1.tokenType = true) :
    read (st.storeLexemes l).mem (36 * (st.nrToken + i) + 4) (x.2.length + 1) = x.2 ++ [0] := by
  have hread := storeLexemes_read st hx List.prefix_rfl (length_tokenBytes h)
  rw [tokenBytes, if_pos hlit] at hread
  have hstr := (read_eq_append hread).2
  rwa [length_encode32, List.length_append, List.length_singleton, Nat.cast_ofNat] at hstr

/-- The buffer of a literal that passes the length check reads as its spelling: up to the NUL, or in
full when there was no room for one. -/
theorem storeLexemes_strOf (st : LexState) {i : Nat} (hx : l[i]? = some x)
    (hlit : isLiteral x.1.tokenType = true) (hfits : fits x = true) (hnul : 0 ∉ x.2) :
    (st.storeLexemes l).strOf (st.nrToken + i) = x.2 := by
  have hle : x.2.length ≤ maxTokenStrLen := by simpa [fits, hlit] using hfits
  rcases Nat.lt_or_eq_of_le hle with hlt | heq
  · exact cstr_eq (storeLexemes_str st hx (fun _ => hlt) hlit) hnul hlt
  · have hbytes : tokenBytes x = (encode32 x.1.tokenType ++ x.2) ++ [0] := by
      rw [tokenBytes, if_pos hlit, List.append_assoc]
    have hlen : (encode32 x.1.tokenType ++ x.2).length ≤ 36 := by
      rw [List.length_append, length_encode32, heq]
      decide
    have hread := storeLexemes_read st hx (hbytes ▸ List.prefix_append _ _) hlen
    have hchars := (read_eq_append hread).2
    rw [length_encode32] at hchars
    exact cstr_of_full hchars hnul heq

/-! ## Where the stores go -/

namespace Store

/-- The token a store is meant for. -/
def token : Store → Int
  | type k _ => k
  | str k _ _ => k

/-- The store lies in the field it is meant for, of a token of the array. -/
def InBounds : Store → Prop
  | type k _ => 0 ≤ k ∧ k < tokensLen
  | str k j _ => 0 ≤ k ∧ k < tokensLen ∧ j < maxTokenStrLen

/-- A store in bounds changes its own token only. -/
theorem InBounds.frame {s : Store} (h : s.InBounds) {j : Int} (hj : j ≠ s.token) (m : Mem) :
    read (s.apply m) (36 * j) 36 = read m (36 * j) 36 := by
  refine read_congr fun i hlo hhi => ?_
  cases s with
  | type k v =>
    have hne : j ≠ k := hj
    rcases Int.lt_or_lt_of_ne hne with hlt | hlt
    · exact write_of_lt _ _ (by omega)
    · exact write_of_ge _ _ (by rw [length_encode32]; omega)
  | str k c b =>
    have hne : j ≠ k := hj
    have hc : c < 32 := h.2.2
    rcases Int.lt_or_lt_of_ne hne with hlt | hlt
    · exact write_of_lt _ _ (by omega)
    · exact write_of_ge _ _ (by rw [List.length_singleton]; omega)

end Store

theorem tokenStores_inBounds {s : Store} (hk : 0 ≤ k) (hk' : k < tokensLen) (hx : Terminates x)
    (hs : s ∈ tokenStores k x) : s.InBounds := by
  unfold tokenStores at hs
  rcases List.mem_cons.mp hs with rfl | hs
  · exact ⟨hk, hk'⟩
  · by_cases hlit : isLiteral x.1.tokenType = true
    · have hlt := hx hlit
      rw [if_pos hlit, List.mem_append, List.mem_singleton] at hs
      rcases hs with hs | rfl
      · obtain ⟨j, hj, rfl⟩ := List.mem_map.mp hs
        have := List.mem_range.mp hj
        exact ⟨hk, hk', by omega⟩
      · exact ⟨hk, hk', hlt⟩
    · rw [if_neg hlit] at hs
      cases hs

/-- The terminator of a literal is stored behind its last character. -/
theorem terminator_mem_tokenStores (hlit : isLiteral x.1.tokenType = true) :
    .str k x.2.length 0 ∈ tokenStores k x := by
  rw [tokenStores, if_pos hlit]
  simp

/-! ## Every token keeps to its record -/

theorem length_admitted (room : Nat) (s : List UInt8) : (admitted room s).length ≤ room := by
  refine ((List.takeWhile_prefix _).length_le).trans ?_
  rw [List.length_take]
  omega

theorem fits_of_admitted {room : Nat} {s : List UInt8} (h : x ∈ admitted room s) :
    fits x = true :=
  List.mem_takeWhile_imp h

theorem admitted_of_accepts {room : Nat} {s : List UInt8} (h : Accepts room s) :
    admitted room s = tokenLexemes s := by
  obtain ⟨-, hlen, hfits⟩ := h
  rw [admitted, List.take_of_length_le hlen, List.takeWhile_eq_self_iff]
  exact hfits

/-- After success all the lexemes are stored. -/
theorem LoopSpec.stored {e s : List UInt8} {room : Nat} {out : LexResult}
    (h : LoopSpec e s room st out) (hret : out.ret = true) :
    out.state = st.storeLexemes (tokenLexemes s) := by
  rw [h.state, admitted_of_accepts (h.accepts hret)]

theorem terminates_iff_of_fits (h : fits x = true) :
    Terminates x ↔ (isLiteral x.1.tokenType = true → x.2.length ≠ maxTokenStrLen) := by
  unfold Terminates
  refine forall_congr' fun hlit => ?_
  have hle : x.2.length ≤ maxTokenStrLen := by simpa [fits, hlit] using h
  omega

/-- Every store of the call stays inside the token and the field it is meant for, no token is
changed by the stores for another one, and after success the literals stand terminated in their
buffers. -/
structure StoresFit (e : List UInt8) (out : LexResult) : Prop where
  inBounds : ∀ s ∈ out.state.stores, s.InBounds
  separate : ∀ s ∈ out.state.stores, ∀ j, j ≠ s.token → 0 ≤ j → j < tokensLen →
    ∀ m, read (s.apply m) (36 * j) 36 = read m (36 * j) 36
  terminated : out.ret = true → ∀ (i : Nat) x, (tokenLexemes e)[i]? = some x →
    isLiteral x.1.tokenType = true → x.2.length < maxTokenStrLen ∧
      read out.state.mem (36 * i + 4) (x.2.length + 1) = x.2 ++ [0]

theorem storesFit_iff {e : List UInt8} {st : LexState} {out : LexResult}
    (h : LoopSpec e e 32 { st with nrToken := 0, stores := [] } out) :
    StoresFit e out ↔ ∀ x ∈ admitted 32 e, isLiteral x.1.tokenType = true →
      x.2.length ≠ maxTokenStrLen := by
  have hmem : ∀ s, s ∈ out.state.stores ↔
      ∃ (i : Nat) (x : Lexeme), (admitted 32 e)[i]? = some x ∧ s ∈ tokenStores (i : Int) x := by
    intro s
    rw [h.state, mem_storeLexemes_stores]
    simp
  refine ⟨fun hfit x hx hlit hlen => ?_, fun hlen => ?_⟩
  · -- the terminator of a literal of exactly that length is out of bounds
    obtain ⟨i, hi⟩ := List.mem_iff_getElem?.mp hx
    have hs := hfit.inBounds _ ((hmem _).mpr ⟨i, x, hi, terminator_mem_tokenStores hlit⟩)
    have hlt : x.2.length < maxTokenStrLen := hs.2.2
    omega
  · have hterm : ∀ x ∈ admitted 32 e, Terminates x := fun x hx =>
      (terminates_iff_of_fits (fits_of_admitted hx)).mpr (hlen x hx)
    have hin : ∀ s ∈ out.state.stores, s.InBounds := by
      intro s hs
      obtain ⟨i, x, hi, hsx⟩ := (hmem s).mp hs
      have hlt := (List.getElem?_eq_some_iff.mp hi).1
      have hle := length_admitted 32 e
      refine tokenStores_inBounds (by omega) ?_ (hterm x (List.mem_of_getElem? hi)) hsx
      unfold tokensLen
      omega
    refine ⟨hin, fun s hs j hj _ _ m => (hin s hs).frame hj m, fun hret i x hi hlit => ?_⟩
    rw [← admitted_of_accepts (h.accepts hret)] at hi
    have hx := hterm x (List.mem_of_getElem? hi)
    refine ⟨hx hlit, ?_⟩
    rw [h.state]
    simpa using storeLexemes_str { st with nrToken := 0, stores := [] } hi hx hlit

/-- **Every admitted token fits its buffer, unless a literal has exactly 32 characters**: the
stores of a call stay in bounds exactly when no literal among the stored lexemes has the limiting
length. -/
theorem makeToken_storesFit_iff (e : CString) (st : LexState) :
    ∃ out, makeToken e st = some out ∧
      (StoresFit e.chars out ↔ ∀ x ∈ admitted 32 e.chars, isLiteral x.1.tokenType = true →
        x.2.length ≠ maxTokenStrLen) := by
  obtain ⟨out, hout, hspec⟩ := makeToken_spec e st
  exact ⟨out, hout, storesFit_iff hspec⟩

/-- An identifier of 32 characters. -/
def longIdent : CString := ⟨List.replicate 32 (byte 'a'), by decide⟩

/-- The globals as the program starts. -/
def LexState.zero : LexState := ⟨fun _ => 0, 0, []⟩

/-- The terminator of an identifier of 32 characters is written behind its buffer. -/
theorem makeToken_longIdent :
    ∃ out, makeToken longIdent .zero = some out ∧ out.ret = true ∧
      .str 0 32 0 ∈ out.state.stores ∧ ¬ StoresFit longIdent.chars out := by
  have hmatch : longIdent.chars ∈ Rule.ident.regex.matches' :=
    Rule.mem_ident.mpr ⟨byte 'a', by decide, List.replicate 31 (byte 'a'),
      List.all_iff_forall_prop.mp (by decide), rfl⟩
  have hnext : lexer.next longIdent.chars = some (.ident, 32) := by
    have h := tryRules_append (s := []) hmatch (Or.inr (by simp))
    rwa [List.append_nil, tryRules_eq_next] at h
  have hlex : tokenLexemes longIdent.chars = [(.ident, longIdent.chars)] := by
    rw [tokenLexemes_of_token hnext (by decide)]
    rfl
  have hacc : Accepts 32 longIdent.chars := by
    refine ⟨?_, by rw [hlex]; decide, by rw [hlex]; decide⟩
    rw [rest_of_some hnext]
    rfl
  obtain ⟨out, hout, hspec⟩ := makeToken_spec longIdent .zero
  refine ⟨out, hout, by rw [hspec.ret, decide_eq_true hacc], ?_, ?_⟩
  · rw [hspec.state, admitted_of_accepts hacc, hlex, mem_storeLexemes_stores]
    exact Or.inr ⟨0, _, rfl, by decide⟩
  · rw [storesFit_iff hspec, admitted_of_accepts hacc, hlex]
    exact fun h => h _ List.mem_cons_self (by decide) (by decide)

end NoteNew.Expr
