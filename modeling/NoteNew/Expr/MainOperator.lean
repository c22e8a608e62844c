import NoteNew.Expr.FindMainOperator
import NoteNew.Selection.LastMinimal

/-!
# Which operator is the main one

What `find_main_operator` returns on any range of any token array, well formed or not
(`findMainOperator_weakest`): of the operators outside brackets that stand behind an operand the
last one of the lowest precedence. The scan keeps an operator until one comes that binds no
stronger, which is `Selection.keep`; the operators it has met are those of the types it has read
(`mainOp_isChoice`).
-/

namespace NoteNew.Expr

open Brackets Selection

/-! ## Binary operators of a list of types -/

/-- The precedence of an operator: `+` and `-` bind weaker than `*` and `/`. -/
def level (type : Int) : Nat :=
  if type = chr '+' ∨ type = chr '-' then 0 else 1

/-- There is a binary operator at this position: an operator outside brackets, behind the last token
of an operand. -/
structure IsBinaryAt (ts : List Int) (x : Nat × Int) : Prop where
  type : ts[x.1]? = some x.2
  operator : isOperator x.2 = true
  top : depth parenWeight (ts.take x.1) = 0
  operand : ∃ t, (ts.take x.1).getLast? = some t ∧ endsOperand t = true

theorem hasHigherPrecedence_iff {op₁ op₂ : Int} (h : isOperator op₁ = true) :
    hasHigherPrecedence op₁ op₂ = true ↔ level op₂ ≤ level op₁ := by
  unfold hasHigherPrecedence level
  by_cases h₁ : op₁ = chr '+' ∨ op₁ = chr '-'
  · by_cases h₂ : op₂ = chr '+' ∨ op₂ = chr '-'
    · simp [h₁, h₂]
    · simp [h₁, h₂]
  · have hmul : op₁ = chr '*' ∨ op₁ = chr '/' := by
      unfold isOperator at h
      simp only [Bool.or_eq_true, decide_eq_true_eq, or_assoc] at h
      tauto
    rw [if_neg h₁, if_pos hmul, if_neg h₁]
    split <;> simp

/-- Replacing a kept operator is keeping the last of the weakest. -/
theorem Scan.takeOver_eq_keep {cand : Option (Nat × Int)} {op : Nat × Int}
    (h : ∀ x, cand = some x → isOperator x.2 = true) :
    takeOver cand op = keep (level ∘ Prod.snd) cand op := by
  cases cand with
  | none => rfl
  | some x =>
    have hle := @hasHigherPrecedence_iff x.2 op.2 (h x rfl)
    simp only [takeOver, keep, Function.comp, hle]

theorem Scan.init_run_prev (ts : List Int) : (init.run ts).prev = ts.getLast? := by
  induction ts using List.reverseRecOn with
  | nil => rfl
  | append_singleton ts t _ => rw [run_append, run_cons, run_nil, step_prev, List.getLast?_concat]

theorem Scan.init_run_pos (ts : List Int) : (init.run ts).pos = ts.length := by
  rw [run_pos]
  exact Nat.zero_add _

theorem Scan.init_run_balance (ts : List Int) :
    (init.run ts).balance = depth parenWeight ts := by
  rw [run_balance]
  exact Int.zero_add _

/-- The scan takes a type for a binary operator when there is one at its position. -/
theorem Scan.isBinary_iff (ts : List Int) (t : Int) :
    (init.run ts).isBinary t = true ↔ isOperator t = true ∧ depth parenWeight ts = 0 ∧
      ∃ u, ts.getLast? = some u ∧ endsOperand u = true := by
  simp only [isBinary, init_run_balance, init_run_prev, Bool.and_eq_true, decide_eq_true_eq,
    Option.any_eq_true, and_assoc]
  tauto

theorem isBinaryAt_lt {ts : List Int} {x : Nat × Int} (h : IsBinaryAt ts x) : x.1 < ts.length :=
  (List.getElem?_eq_some_iff.mp h.type).1

/-- One more type adds at most an operator at its end. -/
theorem isBinaryAt_concat_iff {ts : List Int} {t : Int} {x : Nat × Int} :
    IsBinaryAt (ts ++ [t]) x ↔
      IsBinaryAt ts x ∨ x = (ts.length, t) ∧ (Scan.init.run ts).isBinary t = true := by
  rw [Scan.isBinary_iff]
  constructor
  · intro h
    have hlt := isBinaryAt_lt h
    rw [List.length_append, List.length_singleton] at hlt
    obtain ⟨htype, hop, htop, hprev⟩ := h
    rcases Nat.lt_or_eq_of_le (Nat.le_of_lt_succ hlt) with hlt | heq
    · rw [List.take_append_of_le_length hlt.le] at htop hprev
      rw [List.getElem?_append_left hlt] at htype
      exact Or.inl ⟨htype, hop, htop, hprev⟩
    · rw [heq, List.take_left] at htop hprev
      rw [heq, List.getElem?_concat_length] at htype
      have ht : t = x.2 := Option.some.inj htype
      exact Or.inr ⟨Prod.ext heq ht.symm, by rw [ht]; exact hop, htop, hprev⟩
  · intro h
    rcases h with h | ⟨rfl, hop, htop, hprev⟩
    · have hlt := isBinaryAt_lt h
      refine ⟨?_, h.operator, ?_, ?_⟩
      · rw [List.getElem?_append_left hlt]
        exact h.type
      · rw [List.take_append_of_le_length hlt.le]
        exact h.top
      · rw [List.take_append_of_le_length hlt.le]
        exact h.operand
    · refine ⟨List.getElem?_concat_length .., hop, ?_, ?_⟩
      · rwa [List.take_left]
      · rwa [List.take_left]

/-- **The kept operator** is the last one of the weakest binary operators. -/
theorem mainOp_isChoice (ts : List Int) :
    IsChoice (level ∘ Prod.snd) Prod.fst {x | IsBinaryAt ts x} (mainOp ts) := by
  induction ts using List.reverseRecOn with
  | nil =>
    apply Set.eq_empty_of_forall_notMem
    intro x hx
    exact absurd (isBinaryAt_lt hx) (Nat.not_lt_zero _)
  | append_singleton ts t ih =>
    have hop : ∀ x, mainOp ts = some x → isOperator x.2 = true := by
      intro x hx
      rw [hx] at ih
      exact (IsLastMin.mem ih).operator
    have hrun : mainOp (ts ++ [t]) = ((Scan.init.run ts).step t).cand := by
      rw [mainOp, Scan.run_append, Scan.run_cons, Scan.run_nil]
    rw [hrun, Scan.step_cand, Scan.init_run_pos]
    by_cases hbin : (Scan.init.run ts).isBinary t = true
    · have hset : {x | IsBinaryAt (ts ++ [t]) x} = insert (ts.length, t) {x | IsBinaryAt ts x} := by
        ext x
        rw [Set.mem_insert_iff, Set.mem_ofPred_eq, Set.mem_ofPred_eq, isBinaryAt_concat_iff]
        simp only [hbin, and_true]
        exact or_comm
      rw [if_pos hbin, hset, ← mainOp, Scan.takeOver_eq_keep hop]
      exact ih.insert fun y hy => isBinaryAt_lt hy
    · have hset : {x | IsBinaryAt (ts ++ [t]) x} = {x | IsBinaryAt ts x} := by
        ext x
        rw [Set.mem_ofPred_eq, Set.mem_ofPred_eq, isBinaryAt_concat_iff]
        simp [hbin]
      rw [if_neg hbin, hset]
      exact ih

theorem level_eq_zero_iff {type : Int} : level type = 0 ↔ type = chr '+' ∨ type = chr '-' := by
  unfold level
  split
  · next h => simp [h]
  · next h => simp [h]

theorem level_le_one (type : Int) : level type ≤ 1 := by
  unfold level
  split <;> omega

/-! ## Binary operators of a range -/

/-- The token at `i` is an operator outside the brackets of the range: as many `(` as `)` stand in
front of it. -/
structure TopOperator (tokens : Tokens) (start end_ i type : Int) : Prop where
  le : start ≤ i
  le_end : i ≤ end_
  read : typeAt tokens i = some type
  operator : isOperator type = true
  top : ∃ ts, Occupies tokens start (i - 1) ts ∧ ts.count (chr '(') = ts.count (chr ')')

/-- The token in front of `i` lies in the range and ends an operand. -/
def FollowsOperand (tokens : Tokens) (start i : Int) : Prop :=
  start ≤ i - 1 ∧ ∃ type, typeAt tokens (i - 1) = some type ∧ endsOperand type = true

/-- The indices of the binary operators of a range. -/
def binaries (tokens : Tokens) (start end_ : Int) : Set Int :=
  {i | ∃ type, TopOperator tokens start end_ i type ∧ FollowsOperand tokens start i}

/-- Those of them that hold `+` or `-`. -/
def sums (tokens : Tokens) (start end_ : Int) : Set Int :=
  {i | ∃ type, (TopOperator tokens start end_ i type ∧ FollowsOperand tokens start i) ∧
    (type = chr '+' ∨ type = chr '-')}

theorem depth_parenWeight (ts : List Int) :
    depth parenWeight ts = ts.count (chr '(') - ts.count (chr ')') := by
  induction ts with
  | nil => rfl
  | cons t ts ih =>
    rw [depth_cons, ih, List.count_cons, List.count_cons, parenWeight]
    by_cases ho : t = chr '('
    · subst ho
      simp
      omega
    · by_cases hc : t = chr ')'
      · subst hc
        simp
        omega
      · simp [ho, hc]

theorem depth_eq_zero_iff {ts : List Int} :
    depth parenWeight ts = 0 ↔ ts.count (chr '(') = ts.count (chr ')') := by
  rw [depth_parenWeight]
  omega

section Range

variable {tokens : Tokens} {start end_ i : Int} {ts : List Int}

theorem Occupies.take (h : Occupies tokens start end_ ts) {k : Nat} (hk : k ≤ ts.length) :
    Occupies tokens start (start + k - 1) (ts.take k) := by
  rw [← List.take_append_drop k ts] at h
  have hleft := h.append.1
  rwa [List.length_take_of_le hk] at hleft

theorem Occupies.congr {tokens' : Tokens} (h : Occupies tokens start end_ ts)
    (heq : ∀ i, start ≤ i → i ≤ end_ → typeAt tokens' i = typeAt tokens i) :
    Occupies tokens' start end_ ts := by
  induction ts generalizing start with
  | nil => exact ⟨trivial, h.length⟩
  | cons t ts ih =>
    have hlen := h.length
    rw [List.length_cons] at hlen
    have htail := ih h.tail fun i hi => heq i (by omega)
    refine ⟨⟨?_, htail.holds⟩, h.length⟩
    rw [heq start le_rfl (by omega)]
    exact h.typeAt_start

theorem followsOperand_iff (h : Occupies tokens start (i - 1) ts) :
    FollowsOperand tokens start i ↔ ∃ t, ts.getLast? = some t ∧ endsOperand t = true := by
  have hlen := h.length
  rcases List.eq_nil_or_concat ts with rfl | ⟨us, u, rfl⟩
  · have hempty : ¬ start ≤ i - 1 := by
      rw [List.length_nil] at hlen
      omega
    simp [FollowsOperand, hempty]
  · rw [List.concat_eq_append] at h hlen ⊢
    have hle : start ≤ i - 1 := by
      rw [List.length_append, List.length_singleton] at hlen
      omega
    rw [FollowsOperand, h.typeAt_end, List.getLast?_concat]
    exact and_iff_right hle

/-- The binary operators of the range are those of the types it holds. -/
theorem isBinaryAt_iff (h : Occupies tokens start end_ ts) {type : Int} :
    TopOperator tokens start end_ i type ∧ FollowsOperand tokens start i ↔
      ∃ k : Nat, i = start + k ∧ IsBinaryAt ts (k, type) := by
  have hlen := h.length
  constructor
  · intro hi
    obtain ⟨⟨hle, hend, htype, hop, us, hus, hcount⟩, hfollow⟩ := hi
    obtain ⟨k, rfl⟩ : ∃ k : Nat, i = start + k := ⟨(i - start).toNat, by omega⟩
    have hk : k < ts.length := by omega
    obtain rfl := hus.unique (h.take hk.le)
    have hget : typeAt tokens (start + k) = some ts[k] :=
      h.holds.typeAt (List.getElem?_eq_getElem hk)
    have heq := Option.some.inj (hget.symm.trans htype)
    refine ⟨k, rfl, ?_, hop, depth_eq_zero_iff.mpr hcount, (followsOperand_iff hus).mp hfollow⟩
    rw [List.getElem?_eq_getElem hk, heq]
  · intro hi
    obtain ⟨k, rfl, hbin⟩ := hi
    have hk : k < ts.length := isBinaryAt_lt hbin
    have htake := h.take hk.le
    have hcount := depth_eq_zero_iff.mp hbin.top
    refine ⟨⟨by omega, by omega, h.holds.typeAt hbin.type, hbin.operator, _, htake, hcount⟩, ?_⟩
    exact (followsOperand_iff htake).mpr hbin.operand

theorem mem_binaries_iff (h : Occupies tokens start end_ ts) :
    i ∈ binaries tokens start end_ ↔
      ∃ (k : Nat) (type : Int), i = start + k ∧ IsBinaryAt ts (k, type) := by
  simp only [binaries, Set.mem_ofPred_eq, isBinaryAt_iff h]
  exact exists_comm

theorem mem_sums_iff (h : Occupies tokens start end_ ts) :
    i ∈ sums tokens start end_ ↔
      ∃ (k : Nat) (type : Int), i = start + k ∧ IsBinaryAt ts (k, type) ∧ level type = 0 := by
  simp only [sums, Set.mem_ofPred_eq, isBinaryAt_iff h, level_eq_zero_iff, ← exists_and_right,
    and_assoc]
  exact exists_comm

/-- The kept operator is the last one of its precedence. -/
theorem isGreatest_of_isLastMin {x : Nat × Int} {S : Set Int}
    (hx : IsLastMin (level ∘ Prod.snd) Prod.fst {x | IsBinaryAt ts x} x)
    (hS : ∀ i, i ∈ S ↔ ∃ (k : Nat) (type : Int), i = start + k ∧ IsBinaryAt ts (k, type) ∧
      level type = level x.2) : IsGreatest S (start + x.1) := by
  constructor
  · exact (hS _).mpr ⟨x.1, x.2, rfl, hx.mem, rfl⟩
  · intro i hi
    obtain ⟨k, type, rfl, hbin, hlevel⟩ := (hS i).mp hi
    have hlast := hx.last (k, type) hbin hlevel
    simp only at hlast
    omega

/-- If some operator has the lowest precedence, the kept one has it. -/
theorem isGreatest_sums {x : Nat × Int} (h : Occupies tokens start end_ ts)
    (hx : IsLastMin (level ∘ Prod.snd) Prod.fst {x | IsBinaryAt ts x} x)
    (hne : (sums tokens start end_).Nonempty) :
    IsGreatest (sums tokens start end_) (start + x.1) := by
  obtain ⟨i, hi⟩ := hne
  obtain ⟨k, type, -, hbin, hlevel⟩ := (mem_sums_iff h).mp hi
  have hmin : level x.2 ≤ level type := hx.min (k, type) hbin
  have hzero : level x.2 = 0 := by omega
  apply isGreatest_of_isLastMin hx
  intro i
  rw [mem_sums_iff h, hzero]

/-- If none has it, all operators have the same precedence. -/
theorem isGreatest_binaries {x : Nat × Int} (h : Occupies tokens start end_ ts)
    (hx : IsLastMin (level ∘ Prod.snd) Prod.fst {x | IsBinaryAt ts x} x)
    (hempty : sums tokens start end_ = ∅) :
    IsGreatest (binaries tokens start end_) (start + x.1) := by
  have hone : ∀ k type, IsBinaryAt ts (k, type) → level type ≠ 0 := by
    intro k type hbin hzero
    have hsum : start + (k : Int) ∈ sums tokens start end_ :=
      (mem_sums_iff h).mpr ⟨k, type, rfl, hbin, hzero⟩
    rw [hempty] at hsum
    exact Set.notMem_empty _ hsum
  apply isGreatest_of_isLastMin hx
  intro i
  rw [mem_binaries_iff h]
  refine exists_congr fun k => exists_congr fun type => and_congr_right fun _ => ?_
  refine ⟨fun hbin => ⟨hbin, ?_⟩, fun h => h.1⟩
  have hk := hone k type hbin
  have hx' := hone x.1 x.2 hx.mem
  have := level_le_one type
  have := level_le_one x.2
  omega

end Range

/-- **The last of the weakest**: on a range inside the array the function returns `-1` when the
range has no binary operator outside brackets, else the last of those that hold `+` or `-`, and the
last of all when none does. The left operand is never empty, and only the tokens of the range are
read: the result stays the same when the others are changed or taken away. -/
theorem findMainOperator_weakest (tokens : Tokens) (start end_ : Int) (hstart : 0 ≤ start)
    (hle : start ≤ end_) (hin : ∀ i, start ≤ i → i ≤ end_ → (typeAt tokens i).isSome) :
    ∃ op, findMainOperator tokens start end_ = some op ∧
      (binaries tokens start end_ = ∅ → op = -1) ∧
      ((sums tokens start end_).Nonempty → IsGreatest (sums tokens start end_) op) ∧
      ((binaries tokens start end_).Nonempty → sums tokens start end_ = ∅ →
        IsGreatest (binaries tokens start end_) op) ∧
      (0 ≤ op → start < op ∧ op ≤ end_) ∧
      ∀ tokens' : Tokens, (∀ i, start ≤ i → i ≤ end_ → typeAt tokens' i = typeAt tokens i) →
        findMainOperator tokens' start end_ = some op := by
  obtain ⟨ts, hts⟩ := exists_occupies (by omega) hin
  have hchoice := mainOp_isChoice ts
  have hcongr : ∀ tokens' : Tokens,
      (∀ i, start ≤ i → i ≤ end_ → typeAt tokens' i = typeAt tokens i) →
        findMainOperator tokens' start end_ = some (opIndex start (mainOp ts)) :=
    fun tokens' h => findMainOperator_eq hstart (hts.congr h)
  refine ⟨_, findMainOperator_eq hstart hts, ?_⟩
  cases hmain : mainOp ts with
  | none =>
    rw [hmain] at hchoice hcongr
    have hnone : ∀ x, ¬ IsBinaryAt ts x := Set.eq_empty_iff_forall_notMem.mp hchoice
    refine ⟨fun _ => rfl, fun hne => ?_, fun hne _ => ?_, fun h => ?_, hcongr⟩
    · obtain ⟨i, hi⟩ := hne
      obtain ⟨k, type, -, hbin, -⟩ := (mem_sums_iff hts).mp hi
      exact absurd hbin (hnone _)
    · obtain ⟨i, hi⟩ := hne
      obtain ⟨k, type, -, hbin⟩ := (mem_binaries_iff hts).mp hi
      exact absurd hbin (hnone _)
    · exact absurd h (by simp [opIndex])
  | some x =>
    rw [hmain] at hchoice hcongr
    have hx : IsLastMin (level ∘ Prod.snd) Prod.fst {x | IsBinaryAt ts x} x := hchoice
    have hmem : start + (x.1 : Int) ∈ binaries tokens start end_ :=
      (mem_binaries_iff hts).mpr ⟨x.1, x.2, rfl, hx.mem⟩
    refine ⟨fun hempty => ?_, isGreatest_sums hts hx, fun _ => isGreatest_binaries hts hx,
      fun _ => ?_, hcongr⟩
    · rw [hempty] at hmem
      exact absurd hmem (Set.notMem_empty _)
    · obtain ⟨type, htop, hfollow, -⟩ := hmem
      have := htop.le_end
      simp only [opIndex]
      omega

/-- `1 + 2` -/
def sum : Tokens := .ofTypes [tkDec, chr '+', tkDec]

theorem findMainOperator_weakest_sum :
    ∃ op, findMainOperator sum 0 2 = some op ∧
      (binaries sum 0 2 = ∅ → op = -1) ∧
      ((sums sum 0 2).Nonempty → IsGreatest (sums sum 0 2) op) ∧
      ((binaries sum 0 2).Nonempty → sums sum 0 2 = ∅ → IsGreatest (binaries sum 0 2) op) ∧
      (0 ≤ op → 0 < op ∧ op ≤ 2) ∧
      ∀ tokens' : Tokens, (∀ i, 0 ≤ i → i ≤ 2 → typeAt tokens' i = typeAt sum i) →
        findMainOperator tokens' 0 2 = some op := by
  apply findMainOperator_weakest sum 0 2 (by omega) (by omega)
  intro i h0 h2
  obtain rfl | rfl | rfl : i = 0 ∨ i = 1 ∨ i = 2 := by omega
  all_goals rfl

end NoteNew.Expr
