import NoteNew.Regex.LongestPrefix

/-!
# Tokenizers over a table of regular expressions

A `Lexer` reads one lexeme at a time, always a non-empty prefix of what is left; `segment` iterates
it. Over a table of expressions `firstRule` takes the first rule in table order that matches, and
`longestRule` the rule with the longest match, which makes the lexer `Lexer.longest` (maximal
munch). `segment_covers_iff` says when a lexer reads a whole input: an invariant that reading a
lexeme neither creates nor destroys, and under which no non-empty input is stuck, decides it.
`mem_kstar_table_iff` gives the same condition for the inputs that some segmentation covers, so a
greedy reader strands no input.
-/

namespace NoteNew.Regex

open Computability

/-- A reader of one lexeme: the rule it belongs to and its length. A lexeme is a non-empty prefix
of the input. -/
structure Lexer (R α : Type*) where
  next : List α → Option (R × Nat)
  pos : ∀ {s r n}, next s = some (r, n) → 0 < n
  le : ∀ {s r n}, next s = some (r, n) → n ≤ s.length

namespace Lexer

variable {R α : Type*} (L : Lexer R α)

/-! ## Reading lexeme by lexeme -/

/-- Read at most `fuel` lexemes: the lexemes and what is left. -/
def segmentFuel : Nat → List α → List (R × List α) × List α
  | 0, s => ([], s)
  | fuel + 1, s =>
    match L.next s with
    | none => ([], s)
    | some (r, n) =>
      let tail := segmentFuel fuel (s.drop n)
      ((r, s.take n) :: tail.1, tail.2)

/-- Read lexemes until none is found: the lexemes and the part left over. -/
def segment (s : List α) : List (R × List α) × List α :=
  L.segmentFuel s.length s

theorem next_nil : L.next [] = none := by
  cases h : L.next [] with
  | none => rfl
  | some m =>
    have hpos := L.pos h
    have hle := L.le h
    simp only [List.length_nil] at hle
    omega

theorem length_drop_lt {s : List α} {r : R} {n : Nat} (h : L.next s = some (r, n)) :
    (s.drop n).length < s.length := by
  have hpos := L.pos h
  have hle := L.le h
  rw [List.length_drop]
  omega

/-- Reading an input is an induction: nothing is read, or one lexeme and then the rest. -/
theorem induction {motive : List α → Prop} (stop : ∀ s, L.next s = none → motive s)
    (step : ∀ s r n, L.next s = some (r, n) → motive (s.drop n) → motive s) (s : List α) :
    motive s := by
  induction hlen : s.length using Nat.strongRecOn generalizing s with
  | _ len ih =>
    cases hs : L.next s with
    | none => exact stop s hs
    | some m => exact step s m.1 m.2 hs (ih _ (hlen ▸ L.length_drop_lt hs) _ rfl)

theorem segmentFuel_stable : ∀ (fuel fuel' : Nat) (s : List α), s.length ≤ fuel →
    s.length ≤ fuel' → L.segmentFuel fuel s = L.segmentFuel fuel' s := by
  intro fuel
  induction fuel with
  | zero =>
    intro fuel' s h _
    obtain rfl := List.length_eq_zero_iff.mp (Nat.le_zero.mp h)
    cases fuel' with
    | zero => rfl
    | succ fuel' => simp [segmentFuel, L.next_nil]
  | succ fuel ih =>
    intro fuel' s h h'
    cases fuel' with
    | zero =>
      obtain rfl := List.length_eq_zero_iff.mp (Nat.le_zero.mp h')
      simp [segmentFuel, L.next_nil]
    | succ fuel' =>
      cases hs : L.next s with
      | none => simp [segmentFuel, hs]
      | some m =>
        have hlt := L.length_drop_lt hs
        simp only [segmentFuel, hs]
        rw [ih fuel' (s.drop m.2) (by omega) (by omega)]

theorem segment_of_none {s : List α} (h : L.next s = none) : L.segment s = ([], s) := by
  unfold segment
  cases s.length <;> simp [segmentFuel, h]

theorem segment_of_some {s : List α} {r : R} {n : Nat} (h : L.next s = some (r, n)) :
    L.segment s = ((r, s.take n) :: (L.segment (s.drop n)).1, (L.segment (s.drop n)).2) := by
  have hlt := L.length_drop_lt h
  obtain ⟨k, hk⟩ := Nat.exists_eq_succ_of_ne_zero (n := s.length) (by omega)
  unfold segment
  rw [hk]
  simp only [segmentFuel, h]
  rw [L.segmentFuel_stable k (s.drop n).length (s.drop n) (by omega) le_rfl]

theorem segment_congr {L L' : Lexer R α} (h : ∀ s, L.next s = L'.next s) (s : List α) :
    L.segment s = L'.segment s := by
  induction s using L.induction with
  | stop s hs => rw [L.segment_of_none hs, L'.segment_of_none (h s ▸ hs)]
  | step s r n hs ih => rw [L.segment_of_some hs, L'.segment_of_some (h s ▸ hs), ih]

@[simp] theorem segment_nil : L.segment [] = ([], []) :=
  L.segment_of_none L.next_nil

/-- The lexemes and the rest spell the input. -/
theorem segment_flatten (s : List α) :
    ((L.segment s).1.map (·.2)).flatten ++ (L.segment s).2 = s := by
  induction s using L.induction with
  | stop s h => simp [L.segment_of_none h]
  | step s r n h ih =>
    rw [L.segment_of_some h, List.map_cons, List.flatten_cons, List.append_assoc, ih,
      List.take_append_drop]

/-- What holds of a lexeme wherever it is read holds of every lexeme. -/
theorem forall_mem_segment {P : R → List α → Prop}
    (h : ∀ s r n, L.next s = some (r, n) → P r (s.take n)) (s : List α) :
    ∀ x ∈ (L.segment s).1, P x.1 x.2 := by
  induction s using L.induction with
  | stop s hs => simp [L.segment_of_none hs]
  | step s r n hs ih =>
    rw [L.segment_of_some hs]
    intro x hx
    rcases List.mem_cons.mp hx with rfl | hx
    · exact h s r n hs
    · exact ih x hx

/-- A lexer reads the whole input exactly when an invariant holds of it that every lexeme read
preserves in both directions, and under which no non-empty input is stuck. -/
theorem segment_covers_iff {C : List α → Prop} (hnil : C [])
    (hnext : ∀ s r n, L.next s = some (r, n) → (C s ↔ C (s.drop n)))
    (hstuck : ∀ s, s ≠ [] → C s → L.next s ≠ none) (s : List α) :
    (L.segment s).2 = [] ↔ C s := by
  induction s using L.induction with
  | stop s h =>
    rw [L.segment_of_none h]
    constructor
    · intro h
      subst h
      exact hnil
    · intro hC
      by_contra hne
      exact hstuck s hne hC h
  | step s r n h ih =>
    rw [L.segment_of_some h, hnext s r n h]
    exact ih

end Lexer

/-! ## The two lexers of a table -/

section Table

variable {R α : Type*} [DecidableEq α] (re : R → RegularExpression α)

/-- The first rule of the table that matches a prefix, with its longest match. -/
def firstRule (rules : List R) (s : List α) : Option (R × Nat) :=
  rules.findSome? fun r => (longestPrefix (re r) s).map (r, ·)

/-- The rule whose match is the longest, the first one of them in table order. -/
def longestRule : List R → List α → Option (R × Nat)
  | [], _ => none
  | r :: rules, s =>
    match longestPrefix (re r) s, longestRule rules s with
    | some n, some (r', m) => if n < m then some (r', m) else some (r, n)
    | some n, none => some (r, n)
    | none, best => best

theorem firstRule_eq_some {rules : List R} {s : List α} {r : R} {n : Nat}
    (h : firstRule re rules s = some (r, n)) : r ∈ rules ∧ longestPrefix (re r) s = some n := by
  obtain ⟨r', hr', hmap⟩ := List.exists_of_findSome?_eq_some h
  obtain ⟨m, hm, heq⟩ := Option.map_eq_some_iff.mp hmap
  obtain ⟨rfl, rfl⟩ := Prod.mk.inj heq
  exact ⟨hr', hm⟩

theorem firstRule_eq_none_iff {rules : List R} {s : List α} :
    firstRule re rules s = none ↔ ∀ r ∈ rules, longestPrefix (re r) s = none := by
  simp [firstRule, List.findSome?_eq_none_iff]

theorem longestRule_eq_none_iff {rules : List R} {s : List α} :
    longestRule re rules s = none ↔ ∀ r ∈ rules, longestPrefix (re r) s = none := by
  induction rules with
  | nil => simp [longestRule]
  | cons r rules ih =>
    rw [List.forall_mem_cons, ← ih]
    simp only [longestRule]
    split
    · next n r' m hn hm => split <;> simp [hn]
    · next n hn hm => simp [hn]
    · next best hn => simp [hn]

theorem longestRule_eq_some {rules : List R} {s : List α} {r : R} {n : Nat}
    (h : longestRule re rules s = some (r, n)) :
    r ∈ rules ∧ longestPrefix (re r) s = some n ∧
      ∀ r' ∈ rules, ∀ m, longestPrefix (re r') s = some m → m ≤ n := by
  induction rules generalizing r n with
  | nil => simp [longestRule] at h
  | cons q rules ih =>
    simp only [longestRule] at h
    split at h
    · next k r' m hk hm =>
      obtain ⟨hmem, hpre, hmax⟩ := ih hm
      split at h
      · next hlt =>
        obtain ⟨rfl, rfl⟩ := Prod.mk.inj (Option.some.inj h)
        refine ⟨List.mem_cons_of_mem _ hmem, hpre, List.forall_mem_cons.mpr ⟨?_, hmax⟩⟩
        intro j hj
        have := Option.some.inj (hk.symm.trans hj)
        omega
      · next hle =>
        obtain ⟨rfl, rfl⟩ := Prod.mk.inj (Option.some.inj h)
        refine ⟨List.mem_cons_self, hk, List.forall_mem_cons.mpr ⟨?_, ?_⟩⟩
        · intro j hj
          exact (Option.some.inj (hk.symm.trans hj)).symm.le
        · intro r'' hr'' j hj
          have := hmax r'' hr'' j hj
          omega
    · next k hk hm =>
      obtain ⟨rfl, rfl⟩ := Prod.mk.inj (Option.some.inj h)
      have hnone := (longestRule_eq_none_iff re).mp hm
      refine ⟨List.mem_cons_self, hk, List.forall_mem_cons.mpr ⟨?_, ?_⟩⟩
      · intro j hj
        exact (Option.some.inj (hk.symm.trans hj)).symm.le
      · intro r' hr' j hj
        rw [hnone r' hr'] at hj
        cases hj
    · next best hk =>
      obtain ⟨hmem, hpre, hmax⟩ := ih h
      refine ⟨List.mem_cons_of_mem _ hmem, hpre, List.forall_mem_cons.mpr ⟨?_, hmax⟩⟩
      intro j hj
      rw [hk] at hj
      cases hj

/-- No rule of the table matches the lexeme together with some of what follows it. -/
theorem longestRule_max {rules : List R} {s v t : List α} {r r' : R} {n : Nat}
    (h : longestRule re rules s = some (r, n)) (hr' : r' ∈ rules) (hs : s.drop n = v ++ t)
    (hv : s.take n ++ v ∈ (re r').matches') : v = [] := by
  obtain ⟨-, hn, hmax⟩ := longestRule_eq_some re h
  have hle := (longestPrefix_eq_some_iff.mp hn).le
  obtain ⟨m, hm⟩ := Option.isSome_iff_exists.mp (longestPrefix_isSome_of_mem (s := t) hv)
  have hlen := length_le_longestPrefix hv hm
  rw [List.append_assoc, ← hs, List.take_append_drop] at hm
  have hmn := hmax r' hr' m hm
  rw [List.length_append, List.length_take_of_le hle] at hlen
  exact List.length_eq_zero_iff.mp (by omega)

/-- A rule that matches longer than every other one is chosen, whatever the order of the table. -/
theorem longestRule_of_unique {rules : List R} {s : List α} {r : R} {n : Nat} (hr : r ∈ rules)
    (h : longestPrefix (re r) s = some n)
    (hmax : ∀ r' ∈ rules, r' ≠ r → ∀ m, longestPrefix (re r') s = some m → m < n) :
    longestRule re rules s = some (r, n) := by
  cases hbest : longestRule re rules s with
  | none =>
    rw [(longestRule_eq_none_iff re).mp hbest r hr] at h
    cases h
  | some x =>
    obtain ⟨q, m⟩ := x
    obtain ⟨hq, hm, hall⟩ := longestRule_eq_some re hbest
    have hle := hall r hr n h
    by_cases hqr : q = r
    · subst hqr
      rw [hm] at h
      rw [Option.some.inj h]
    · have hlt := hmax q hq hqr m hm
      omega

variable {re}

theorem pos_of_longestPrefix {P : RegularExpression α} {s : List α} {n : Nat}
    (hP : [] ∉ P.matches') (h : longestPrefix P s = some n) : 0 < n := by
  rcases Nat.eq_zero_or_pos n with rfl | hpos
  · have := (longestPrefix_eq_some_iff.mp h).mem
    exact absurd (by simpa using this) hP
  · exact hpos

/-- The lexer that takes the longest match over the whole table. -/
def Lexer.longest (re : R → RegularExpression α) (rules : List R)
    (hnil : ∀ r ∈ rules, [] ∉ (re r).matches') : Lexer R α where
  next := longestRule re rules
  pos h :=
    have hr := longestRule_eq_some re h
    pos_of_longestPrefix (hnil _ hr.1) hr.2.1
  le h := (longestPrefix_eq_some_iff.mp (longestRule_eq_some re h).2.1).le

/-! ## What some segmentation covers -/

/-- The words that some rule of the table matches. -/
def tableLanguage (re : R → RegularExpression α) (rules : List R) : Language α :=
  {w | ∃ r ∈ rules, w ∈ (re r).matches'}

omit [DecidableEq α] in
/-- The inputs covered by some sequence of matches, greedy or not, are those with an invariant that
putting a match in front neither creates nor destroys, and under which some match starts every
non-empty input. -/
theorem mem_kstar_table_iff {rules : List R} {C : List α → Prop} (hnil : C [])
    (happ : ∀ w ∈ tableLanguage re rules, ∀ s, C (w ++ s) ↔ C s)
    (hstart : ∀ s, s ≠ [] → C s → ∃ w ∈ tableLanguage re rules, w ≠ [] ∧ w <+: s) (s : List α) :
    s ∈ (tableLanguage re rules)∗ ↔ C s := by
  rw [Language.mem_kstar]
  constructor
  · intro h
    obtain ⟨ws, rfl, hws⟩ := h
    induction ws with
    | nil => exact hnil
    | cons w ws ih =>
      rw [List.flatten_cons, happ w (hws w List.mem_cons_self)]
      exact ih fun v hv => hws v (List.mem_cons_of_mem _ hv)
  · intro hC
    induction hlen : s.length using Nat.strongRecOn generalizing s with
    | _ len ih =>
      by_cases hs : s = []
      · exact ⟨[], by simp [hs], by simp⟩
      · obtain ⟨w, hw, hne, t, rfl⟩ := hstart s hs hC
        have hwpos := List.length_pos_iff.mpr hne
        obtain ⟨ws, rfl, hws⟩ := ih t.length (by rw [← hlen, List.length_append]; omega) t
          ((happ w hw t).mp hC) rfl
        exact ⟨w :: ws, by simp, List.forall_mem_cons.mpr ⟨hw, hws⟩⟩

end Table

end NoteNew.Regex
