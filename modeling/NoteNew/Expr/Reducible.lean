import NoteNew.Expr.Sentences

/-!
# Reducible ranges

The decomposition the notes prescribe: peel a bracketed range, split at the main operator, strip a
sign, stop at an operand. `reducible_iff_sentence`: the ranges it consumes are exactly the sentences
of the expression grammar. One direction follows the parse tree (`helpers_report_root`). For the
other the scan must not have split at a wrong operator, which is read off the candidate it kept:
a split at `+` or `-` leaves no sum on its right (`Tree.exists_term_of_add`), a split at `*` or `/`
leaves a term on its left and no binary operator on its right (`Tree.exists_unary_of_mul`).
-/

namespace NoteNew.Expr

open Brackets ParenErrType

/-- The ranges that the two helpers decompose down to operands. -/
inductive Reducible (tokens : Tokens) : Int → Int → Prop where
  | atom {s : Int} {t : Int} (htype : typeAt tokens s = some t) (hlit : isLiteral t = true) :
    Reducible tokens s s
  | peel {s e : Int} {err : ParenErrType} (hlt : s < e)
    (hcheck : checkParentheses tokens s e = some (true, err))
    (hinner : Reducible tokens (s + 1) (e - 1)) : Reducible tokens s e
  | split {s e op : Int} (hlt : s < e)
    (hcheck : checkParentheses tokens s e = some (false, errNotWrap))
    (hfind : findMainOperator tokens s e = some op) (hop : 0 ≤ op)
    (hleft : Reducible tokens s (op - 1)) (hright : Reducible tokens (op + 1) e) :
    Reducible tokens s e
  | strip {s e : Int} {t : Int} (hlt : s < e)
    (hcheck : checkParentheses tokens s e = some (false, errNotWrap))
    (hfind : findMainOperator tokens s e = some (-1)) (htype : typeAt tokens s = some t)
    (hsign : t = chr '-' ∨ t = chr '*') (hrest : Reducible tokens (s + 1) e) :
    Reducible tokens s e

variable {tokens : Tokens} {s e : Int}

theorem Operand.isLiteral_type (o : Operand) : isLiteral o.type = true := by
  cases o <;> rfl

theorem exists_operand {t : Int} (h : isLiteral t = true) : ∃ o : Operand, o.type = t := by
  unfold isLiteral at h
  simp only [Bool.or_eq_true, decide_eq_true_eq, or_assoc] at h
  obtain rfl | rfl | rfl | rfl := h
  · exact ⟨.dec, rfl⟩
  · exact ⟨.hex, rfl⟩
  · exact ⟨.reg, rfl⟩
  · exact ⟨.ident, rfl⟩

/-! ## Sentences are reducible -/

/-- A sentence with a binary root splits at the root operator. -/
theorem Tree.reducible_binary {n m k : Nonterminal} {t : Tree n} {l : Tree m} {r : Tree k}
    {op : Int} (hroot : t.root = .binary l op r) (h : Occupies tokens s e t.yield)
    (hl : ∀ s e, Occupies tokens s e l.yield → Reducible tokens s e)
    (hr : ∀ s e, Occupies tokens s e r.yield → Reducible tokens s e) : Reducible tokens s e := by
  have hs := h.nonneg t.yield_ne_nil
  have hfind : findMainOperator tokens s e = some (s + l.yield.length) := by
    rw [findMainOperator_yield t hs h, ← t.main_root, hroot]
    rfl
  have hcheck := checkParentheses_yield t hs h
  rw [← t.yield_root, hroot] at hcheck h
  rw [Root.yield, wrapErr_binary] at hcheck
  obtain ⟨hleft, hright⟩ := h.append
  have hlen := List.length_pos_iff.mpr l.yield_ne_nil
  have hrlen := List.length_pos_iff.mpr r.yield_ne_nil
  have := hright.tail.length
  exact .split (by omega) hcheck hfind (by omega) (hl _ _ hleft) (hr _ _ hright.tail)

theorem Tree.reducible {n : Nonterminal} (t : Tree n) (h : Occupies tokens s e t.yield) :
    Reducible tokens s e := by
  have hs := h.nonneg t.yield_ne_nil
  induction t generalizing s e with
  | add l op r ihl ihr =>
    exact Tree.reducible_binary (t := add l op r) rfl h
      (fun s e hl => ihl hl (hl.nonneg l.yield_ne_nil))
      (fun s e hr => ihr hr (hr.nonneg r.yield_ne_nil))
  | mul l op r ihl ihr =>
    exact Tree.reducible_binary (t := mul l op r) rfl h
      (fun s e hl => ihl hl (hl.nonneg l.yield_ne_nil))
      (fun s e hr => ihr hr (hr.nonneg r.yield_ne_nil))
  | sign op u ih =>
    have hfind : findMainOperator tokens s e = some (-1) := findMainOperator_yield (sign op u) hs h
    have hcheck := checkParentheses_yield (sign op u) hs h
    rw [yield, wrapErr_sign] at hcheck
    have hlen := List.length_pos_iff.mpr u.yield_ne_nil
    have := h.tail.length
    refine .strip (by omega) hcheck hfind h.typeAt_start ?_ (ih h.tail (by omega))
    cases op
    · exact Or.inl rfl
    · exact Or.inr rfl
  | operand o =>
    have hlen := h.length
    obtain rfl : s = e := by simp only [yield, List.length_singleton] at hlen; omega
    exact .atom h.typeAt_start o.isLiteral_type
  | paren x ih =>
    have hcheck := checkParentheses_yield (paren x) hs h
    rw [yield, wrapErr_paren] at hcheck
    obtain ⟨-, -, hx⟩ := Occupies.bracketed_iff.mp h
    have hlen := List.length_pos_iff.mpr x.yield_ne_nil
    have := hx.length
    exact .peel (by omega) hcheck (ih hx (by omega))
  | ofT t ih => exact ih h hs
  | ofU u ih => exact ih h hs
  | ofP p ih => exact ih h hs

/-! ## What a reported result says about the range -/

/-- Every turn of the loop reads a token. -/
theorem findMainOperatorLoop_next {start i balance opIndex r : Int} {n : Nat}
    (h : findMainOperatorLoop tokens start (n + 1) i balance opIndex = some r) :
    (typeAt tokens i).isSome ∧
      ∃ b o, findMainOperatorLoop tokens start n (i + 1) b o = some r := by
  unfold findMainOperatorLoop at h
  obtain ⟨t, ht, h⟩ := Option.bind_eq_some_iff.mp h
  refine ⟨by rw [ht]; rfl, ?_⟩
  split at h
  · exact ⟨_, _, h⟩
  · split at h
    · exact ⟨_, _, h⟩
    · split at h
      · obtain ⟨p, -, h⟩ := Option.bind_eq_some_iff.mp h
        split at h
        · split at h
          · exact ⟨_, _, h⟩
          · obtain ⟨t', -, h⟩ := Option.bind_eq_some_iff.mp h
            split at h <;> exact ⟨_, _, h⟩
        · exact ⟨_, _, h⟩
      · exact ⟨_, _, h⟩

theorem findMainOperatorLoop_reads {start i balance opIndex r : Int} {n : Nat}
    (h : findMainOperatorLoop tokens start n i balance opIndex = some r) {k : Nat} (hk : k < n) :
    (typeAt tokens (i + k)).isSome := by
  induction n generalizing i balance opIndex k with
  | zero => omega
  | succ n ih =>
    obtain ⟨hread, b, o, hnext⟩ := findMainOperatorLoop_next h
    cases k with
    | zero => simpa using hread
    | succ k =>
      have := ih hnext (Nat.lt_of_succ_lt_succ hk)
      rwa [index_succ]

/-- A result of `find_main_operator` means that the whole range lies inside the array. -/
theorem findMainOperator_reads {r i : Int} (h : findMainOperator tokens s e = some r) (hi : s ≤ i)
    (hie : i ≤ e) : ∃ t, typeAt tokens i = some t := by
  rw [findMainOperator, if_neg (by omega)] at h
  have hread := findMainOperatorLoop_reads h (k := (i - s).toNat) (by omega)
  have hidx : s + ((i - s).toNat : Int) = i := by omega
  rw [hidx] at hread
  exact Option.isSome_iff_exists.mp hread

/-- `check_parentheses` accepts only a range between brackets. -/
theorem checkParentheses_brackets {err : ParenErrType}
    (h : checkParentheses tokens s e = some (true, err)) :
    typeAt tokens s = some (chr '(') ∧ typeAt tokens e = some (chr ')') := by
  unfold checkParentheses at h
  split at h
  · cases h
  · obtain ⟨t, ht, h⟩ := Option.bind_eq_some_iff.mp h
    split at h
    · cases h
    · next hopen =>
      obtain ⟨t', ht', h⟩ := Option.bind_eq_some_iff.mp h
      split at h
      · cases h
      · next hclose =>
        rw [ht, ht', not_not.mp hopen, not_not.mp hclose]
        exact ⟨rfl, rfl⟩

/-- The candidate is the old one or has been read since. -/
theorem Scan.run_cand_old_or_new (σ : Scan) (ts : List Int) :
    (σ.run ts).cand = σ.cand ∨ ∃ op, (σ.run ts).cand = some op ∧ σ.pos ≤ op.1 := by
  induction ts generalizing σ with
  | nil => exact Or.inl rfl
  | cons t ts ih =>
    rw [run_cons]
    rcases ih (σ.step t) with hold | ⟨op, hop, hpos⟩
    · rw [hold, step_cand]
      split
      · rcases takeOver_eq σ.cand (σ.pos, t) with h | h
        · exact Or.inr ⟨_, h, le_refl _⟩
        · exact Or.inl h
      · exact Or.inl rfl
    · rw [step_pos] at hpos
      exact Or.inr ⟨op, hop, by omega⟩

/-! ## Reducible ranges are sentences -/

namespace Tree

/-- A sentence without a root operator is a unary expression. -/
theorem exists_unary {t : Tree .E} (h : t.main = none) : ∃ u, t = ofT (ofU u) := by
  cases t with
  | add l op r => cases h
  | ofT t =>
    cases t with
    | mul l op r => cases h
    | ofU u => exact ⟨u, rfl⟩

/-- If the scan splits between two sentences, the split is at an operator that beats the root of the
left side and is kept against the root of the right side. -/
theorem split_operator {l r : Tree .E} {o : Int} {op : Int}
    (h : mainOp (l.yield ++ o :: r.yield) = some (l.yield.length, op)) :
    isOperator o = true ∧ Scan.takeOver l.main (l.yield.length, o) = some (l.yield.length, o) ∧
      ∀ x, r.main = some x →
        Scan.takeOver (some (l.yield.length, o)) (l.yield.length + 1 + x.1, x.2) =
          some (l.yield.length, o) := by
  obtain ⟨hl, -⟩ := l.run_yield Scan.atOperand_init
  have hlmain : (Scan.init.run l.yield).cand = l.main := l.mainOp_yield
  have hpos : (Scan.init.run l.yield).pos = l.yield.length := by simp [Scan.run_pos, Scan.init]
  rw [mainOp, Scan.run_append, Scan.run_cons] at h
  -- what is kept at the position of the split was put there by `o`
  have hcand : ((Scan.init.run l.yield).step o).cand = some (l.yield.length, op) := by
    rcases Scan.run_cand_old_or_new ((Scan.init.run l.yield).step o) r.yield with
      hold | ⟨x, hx, hxpos⟩
    · rw [← hold, h]
    · obtain rfl := Option.some.inj (h.symm.trans hx)
      rw [Scan.step_pos, hpos] at hxpos
      omega
  have hbin : (Scan.init.run l.yield).isBinary o = true := by
    by_contra hbin
    rw [Scan.step_cand, if_neg hbin, hlmain] at hcand
    have := l.main_lt hcand
    omega
  have htake : Scan.takeOver l.main (l.yield.length, o) = some (l.yield.length, op) := by
    rwa [Scan.step_cand, if_pos hbin, hlmain, hpos] at hcand
  have ho : o = op := by
    rcases Scan.takeOver_eq l.main (l.yield.length, o) with heq | heq
    · simpa using heq.symm.trans htake
    · have := l.main_lt (heq.symm.trans htake)
      omega
  subst ho
  have hop : isOperator o = true := by
    simp only [Scan.isBinary, Bool.and_eq_true] at hbin
    exact hbin.1.2
  refine ⟨hop, htake, fun x hx => ?_⟩
  have hnext : ((Scan.init.run l.yield).step o).AtOperand := by
    refine (hl.operator hop ?_ ?_).1
    all_goals
      obtain ⟨op, rfl⟩ | ⟨op, rfl⟩ := isOperator_cases hop <;> cases op <;> rfl
  have hlast := (r.run_yield hnext).2
  rw [h, candAfter, hx, hcand, Scan.step_pos, hpos] at hlast
  exact hlast.symm

/-- A split at `+` or `-` leaves a term on its right. -/
theorem exists_term_of_add {l r : Tree .E} {op : AddOp} {o : Int}
    (h : mainOp (l.yield ++ op.type :: r.yield) = some (l.yield.length, o)) :
    ∃ t, r = ofT t := by
  obtain ⟨hop, -, hkept⟩ := split_operator h
  cases r with
  | ofT t => exact ⟨t, rfl⟩
  | add l' op' r' =>
    have hlast := hkept _ rfl
    rw [Scan.takeOver_addOp fun x hx => by obtain rfl := Option.some.inj hx; exact hop] at hlast
    have := congrArg Prod.fst (Option.some.inj hlast)
    simp only at this
    omega

/-- A split at `*` or `/` leaves a term on its left and a unary expression on its right. -/
theorem exists_unary_of_mul {l r : Tree .E} {op : MulOp} {o : Int}
    (h : mainOp (l.yield ++ op.type :: r.yield) = some (l.yield.length, o)) :
    (∃ t, l = ofT t) ∧ ∃ u, r = ofT (ofU u) := by
  obtain ⟨-, hbeats, hkept⟩ := split_operator h
  refine ⟨?_, ?_⟩
  · cases l with
    | ofT t => exact ⟨t, rfl⟩
    | add l' op' r' =>
      have hlt := main_lt (add l' op' r') rfl
      rw [main, Scan.takeOver_addOp_mulOp] at hbeats
      have := congrArg Prod.fst (Option.some.inj hbeats)
      simp only at this
      omega
  · apply exists_unary
    cases hr : r.main with
    | none => rfl
    | some x =>
      have hlast := hkept x hr
      rw [Scan.takeOver_mulOp] at hlast
      have := congrArg Prod.fst (Option.some.inj hlast)
      simp only at this
      omega

/-- Two sentences joined at the operator where the scan splits are a sentence. -/
theorem exists_of_split {l r : Tree .E} {o op : Int}
    (h : mainOp (l.yield ++ o :: r.yield) = some (l.yield.length, op)) :
    ∃ t : Tree .E, t.yield = l.yield ++ o :: r.yield := by
  rcases isOperator_cases (split_operator h).1 with ⟨a, rfl⟩ | ⟨m, rfl⟩
  · obtain ⟨t, rfl⟩ := exists_term_of_add h
    exact ⟨add l a t, rfl⟩
  · obtain ⟨⟨t, rfl⟩, u, rfl⟩ := exists_unary_of_mul h
    exact ⟨ofT (mul t m u), rfl⟩

/-- A sign in front of a sentence in which the scan finds no operator gives a sentence. -/
theorem exists_of_strip {t : Tree .E} {op : UnaryOp} (h : mainOp (op.type :: t.yield) = none) :
    ∃ t' : Tree .E, t'.yield = op.type :: t.yield := by
  obtain ⟨hop, hopc⟩ := Scan.atOperand_init.sign op
  have hmain : t.main = none := by
    rw [mainOp, Scan.run_cons, (t.run_yield hop).2, candAfter] at h
    cases ht : t.main with
    | none => rfl
    | some x =>
      rw [ht, hopc] at h
      cases h
  obtain ⟨u, rfl⟩ := exists_unary hmain
  exact ⟨ofT (ofU (sign op u)), rfl⟩

end Tree

theorem Reducible.sentence (h : Reducible tokens s e) :
    ∃ t : Tree .E, Occupies tokens s e t.yield := by
  induction h with
  | atom htype hlit =>
    obtain ⟨o, rfl⟩ := exists_operand hlit
    exact ⟨.ofT (.ofU (.ofP (.operand o))), ⟨htype, trivial⟩, by simp [Tree.yield]⟩
  | peel hlt hcheck _ ih =>
    obtain ⟨t, ht⟩ := ih
    obtain ⟨hopen, hclose⟩ := checkParentheses_brackets hcheck
    exact ⟨.ofT (.ofU (.ofP (.paren t))), Occupies.bracketed_iff.mpr ⟨hopen, hclose, ht⟩⟩
  | @split s e op hlt _ hfind hop _ _ ihl ihr =>
    obtain ⟨l, hl⟩ := ihl
    obtain ⟨r, hr⟩ := ihr
    have hllen := hl.length
    have hrlen := hr.length
    have hlpos := List.length_pos_iff.mpr l.yield_ne_nil
    have hrpos := List.length_pos_iff.mpr r.yield_ne_nil
    obtain ⟨o, ho⟩ := findMainOperator_reads hfind (i := op) (by omega) (by omega)
    have hs := hl.nonneg l.yield_ne_nil
    have heq : op = s + (l.yield.length : Int) := by omega
    subst heq
    have hrange : Occupies tokens s e (l.yield ++ o :: r.yield) := by
      refine ⟨holds_append.mpr ⟨hl.holds, ho, hr.holds⟩, ?_⟩
      rw [List.length_append, List.length_cons]
      omega
    have hindex := Option.some.inj ((findMainOperator_eq hs hrange).symm.trans hfind)
    obtain ⟨_, hmain⟩ := (opIndex_eq_add_iff hs).mp hindex
    obtain ⟨t, ht⟩ := Tree.exists_of_split hmain
    exact ⟨t, by rwa [ht]⟩
  | @strip s e ty hlt _ hfind htype hsign _ ih =>
    obtain ⟨t, ht⟩ := ih
    obtain ⟨op, rfl⟩ : ∃ op : UnaryOp, op.type = ty := by
      rcases hsign with rfl | rfl
      · exact ⟨.minus, rfl⟩
      · exact ⟨.star, rfl⟩
    have hlen := ht.length
    have hs := typeAt_nonneg htype
    have hrange : Occupies tokens s e (op.type :: t.yield) := by
      refine ⟨⟨htype, ht.holds⟩, ?_⟩
      rw [List.length_cons]
      omega
    have hindex := Option.some.inj ((findMainOperator_eq hs hrange).symm.trans hfind)
    obtain ⟨t', ht'⟩ := Tree.exists_of_strip ((opIndex_eq_neg_one_iff hs).mp hindex)
    exact ⟨t', by rwa [ht']⟩

/-- **Reducible ranges are sentences**: on any token array, the prescribed decomposition consumes a
range exactly when the types of the range are derived by the expression grammar. -/
theorem reducible_iff_sentence (tokens : Tokens) (s e : Int) :
    Reducible tokens s e ↔ ∃ t : Tree .E, Occupies tokens s e t.yield :=
  ⟨Reducible.sentence, fun ⟨t, ht⟩ => t.reducible ht⟩

end NoteNew.Expr
