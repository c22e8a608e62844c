import Mathlib.Computability.RegularExpressions

/-!
# Longest matching prefixes of a regular expression

`IsLongest L s n` says that the longest prefix of `s` lying in the language `L` has length `n`;
`longestPrefix P s` computes it by Brzozowski derivatives, and `regexec P s` is the leftmost-longest
search built on it. A word of the language is the longest match in front of a text that cannot
prolong it (`longestPrefix_of_tail`). The languages of the usual pattern pieces (a bracket
expression `anyOf`, its repetitions, concatenation behind one character) are given by their words.
-/

namespace NoteNew.Regex

open RegularExpression

variable {α : Type*}

/-- The longest prefix of `s` in the language `L` has length `n`. -/
structure IsLongest (L : Language α) (s : List α) (n : Nat) : Prop where
  le : n ≤ s.length
  mem : s.take n ∈ L
  max : ∀ m ≤ s.length, s.take m ∈ L → m ≤ n

theorem IsLongest.unique {L : Language α} {s : List α} {m n : Nat} (hm : IsLongest L s m)
    (hn : IsLongest L s n) : m = n :=
  Nat.le_antisymm (hn.max m hm.le hm.mem) (hm.max n hn.le hn.mem)

/-! ## The computed longest prefix -/

section LongestPrefix

variable [DecidableEq α]

/-- The length of the longest prefix of the input that the expression matches. -/
def longestPrefix : RegularExpression α → List α → Option Nat
  | P, [] => if P.matchEpsilon then some 0 else none
  | P, a :: s =>
    match longestPrefix (P.deriv a) s with
    | some n => some (n + 1)
    | none => if P.matchEpsilon then some 0 else none

theorem matchEpsilon_iff (P : RegularExpression α) : P.matchEpsilon = true ↔ [] ∈ P.matches' := by
  rw [← rmatch_iff_matches', rmatch]

theorem mem_deriv_iff (P : RegularExpression α) (a : α) (w : List α) :
    w ∈ (P.deriv a).matches' ↔ a :: w ∈ P.matches' := by
  rw [← rmatch_iff_matches', ← rmatch_iff_matches', rmatch]

theorem longestPrefix_eq_none_iff {P : RegularExpression α} {s : List α} :
    longestPrefix P s = none ↔ ∀ m ≤ s.length, s.take m ∉ P.matches' := by
  induction s generalizing P with
  | nil => simp [longestPrefix, matchEpsilon_iff]
  | cons a s ih =>
    unfold longestPrefix
    cases hd : longestPrefix (P.deriv a) s with
    | some n =>
      simp only [reduceCtorEq, false_iff, not_forall, not_not]
      have hne : ¬ ∀ m ≤ s.length, s.take m ∉ (P.deriv a).matches' := by
        rw [← ih, hd]; simp
      push Not at hne
      obtain ⟨m, hm, hmem⟩ := hne
      exact ⟨m + 1, by simpa using hm, by simpa using (mem_deriv_iff P a _).mp hmem⟩
    | none =>
      have htail := ih.mp hd
      simp only [ite_eq_right_iff, reduceCtorEq, imp_false, matchEpsilon_iff]
      constructor
      · intro hnil m hm
        cases m with
        | zero => simpa using hnil
        | succ m =>
          rw [List.take_succ_cons, ← mem_deriv_iff]
          exact htail m (by simpa using hm)
      · intro h
        simpa using h 0 (Nat.zero_le _)

theorem longestPrefix_eq_some_iff {P : RegularExpression α} {s : List α} {n : Nat} :
    longestPrefix P s = some n ↔ IsLongest P.matches' s n := by
  induction s generalizing P n with
  | nil =>
    simp only [longestPrefix, Option.ite_none_right_eq_some, matchEpsilon_iff, Option.some.injEq]
    constructor
    · intro h
      obtain ⟨hmem, rfl⟩ := h
      exact ⟨le_rfl, by simpa using hmem, fun m hm _ => by simpa using hm⟩
    · intro h
      exact ⟨by simpa using h.mem, (Nat.le_zero.mp h.le).symm⟩
  | cons a s ih =>
    unfold longestPrefix
    cases hd : longestPrefix (P.deriv a) s with
    | some k =>
      have hk := ih.mp hd
      have hlong : IsLongest P.matches' (a :: s) (k + 1) := by
        refine ⟨by simpa using hk.le, by simpa using (mem_deriv_iff P a _).mp hk.mem, ?_⟩
        intro h hm hmem
        rcases h with _ | m
        · exact Nat.zero_le _
        · have := hk.max m (by simpa using hm) ((mem_deriv_iff P a _).mpr (by simpa using hmem))
          omega
      exact ⟨fun h => Option.some.inj h ▸ hlong, fun h => congrArg some (hlong.unique h)⟩
    | none =>
      have htail := longestPrefix_eq_none_iff.mp hd
      have hzero : ∀ m ≤ (a :: s).length, (a :: s).take m ∈ P.matches' → m = 0 := by
        intro h hm hmem
        rcases h with _ | m
        · rfl
        · exact absurd ((mem_deriv_iff P a _).mpr (by simpa using hmem))
            (htail m (by simpa using hm))
      simp only [Option.ite_none_right_eq_some, matchEpsilon_iff, Option.some.injEq]
      constructor
      · intro h
        obtain ⟨hmem, rfl⟩ := h
        exact ⟨Nat.zero_le _, by simpa using hmem, fun m hm h => (hzero m hm h).le⟩
      · intro h
        obtain rfl := hzero n h.le h.mem
        exact ⟨by simpa using h.mem, rfl⟩

/-- A word of the language at the front of the input is found, perhaps prolonged. -/
theorem longestPrefix_isSome_of_mem {P : RegularExpression α} {w s : List α}
    (hw : w ∈ P.matches') : (longestPrefix P (w ++ s)).isSome := by
  rw [Option.isSome_iff_ne_none, ne_eq, longestPrefix_eq_none_iff]
  exact fun h => h w.length (by simp) (by simpa using hw)

/-- A word at the front of the input is no longer than the match found. -/
theorem length_le_longestPrefix {P : RegularExpression α} {w s : List α} {n : Nat}
    (hw : w ∈ P.matches') (h : longestPrefix P (w ++ s) = some n) : w.length ≤ n :=
  (longestPrefix_eq_some_iff.mp h).max _ (by simp) (by simpa using hw)

/-- A word is the longest match when no word of the language can go on with what follows it. -/
theorem longestPrefix_of_tail {P : RegularExpression α} {w s : List α} {p : α → Prop}
    (hw : w ∈ P.matches') (hne : w ≠ []) (htail : ∀ v ∈ P.matches', ∀ c ∈ v.tail, p c)
    (hs : ∀ c, s.head? = some c → ¬ p c) : longestPrefix P (w ++ s) = some w.length := by
  rw [longestPrefix_eq_some_iff]
  refine ⟨by simp, by simpa using hw, fun m hm hmem => ?_⟩
  by_contra hlt
  rw [Nat.not_le] at hlt
  have hpos := List.length_pos_iff.mpr hne
  -- a longer match contains the first character of `s`
  cases s with
  | nil =>
    rw [List.append_nil] at hm
    omega
  | cons c s =>
    refine hs c rfl (htail _ hmem c ?_)
    have hget : ((w ++ c :: s).take m)[w.length]? = some c := by
      rw [List.getElem?_take_of_lt hlt, List.getElem?_append_right (Nat.le_refl _)]
      simp
    rw [List.mem_iff_getElem?]
    refine ⟨w.length - 1, ?_⟩
    rw [List.getElem?_tail, Nat.sub_add_cancel hpos, hget]

/-- A word is the longest match when all words of the language have its length. -/
theorem longestPrefix_of_length {P : RegularExpression α} {w : List α} (hw : w ∈ P.matches')
    (hlen : ∀ v ∈ P.matches', v.length = w.length) (s : List α) :
    longestPrefix P (w ++ s) = some w.length := by
  rw [longestPrefix_eq_some_iff]
  refine ⟨by simp, by simpa using hw, fun m hm hmem => ?_⟩
  have := hlen _ hmem
  rw [List.length_take, Nat.min_eq_left hm] at this
  omega

/-! ## Leftmost-longest search -/

/-- Leftmost-longest search: the offsets of the start and the end of the match. -/
def regexec (P : RegularExpression α) : List α → Option (Nat × Nat)
  | [] => (longestPrefix P []).map (0, ·)
  | a :: s =>
    match longestPrefix P (a :: s) with
    | some n => some (0, n)
    | none => (regexec P s).map fun m => (m.1 + 1, m.2 + 1)

/-- A search that succeeds at offset `0` is a longest prefix. -/
theorem regexec_eq_zero_iff {P : RegularExpression α} {s : List α} {n : Nat} :
    regexec P s = some (0, n) ↔ longestPrefix P s = some n := by
  cases s with
  | nil => simp [regexec]
  | cons a s =>
    cases h : longestPrefix P (a :: s) with
    | some m => simp [regexec, h]
    | none => simp [regexec, h]

end LongestPrefix

/-! ## Bracket expressions and repetition -/

/-- A bracket expression: any one of the listed characters. -/
def anyOf : List α → RegularExpression α
  | [] => 0
  | a :: l => char a + anyOf l

/-- The repetition `P+`. -/
def oneOrMore (P : RegularExpression α) : RegularExpression α :=
  P * star P

theorem mem_anyOf {l : List α} {w : List α} : w ∈ (anyOf l).matches' ↔ ∃ a ∈ l, w = [a] := by
  induction l with
  | nil =>
    change w ∈ (0 : Language α) ↔ _
    simp [Language.notMem_zero]
  | cons a l ih =>
    change w ∈ (char a).matches' + (anyOf l).matches' ↔ _
    rw [Language.mem_add, ih, List.exists_mem_cons_iff]
    rfl

theorem mem_anyOf_mul {l : List α} {Q : RegularExpression α} {w : List α} :
    w ∈ (anyOf l * Q).matches' ↔ ∃ a ∈ l, ∃ v, v ∈ Q.matches' ∧ w = a :: v := by
  rw [matches'_mul, Language.mem_mul]
  constructor
  · intro h
    obtain ⟨u, hu, v, hv, rfl⟩ := h
    obtain ⟨a, ha, rfl⟩ := mem_anyOf.mp hu
    exact ⟨a, ha, v, hv, rfl⟩
  · intro h
    obtain ⟨a, ha, v, hv, rfl⟩ := h
    exact ⟨[a], mem_anyOf.mpr ⟨a, ha, rfl⟩, v, hv, rfl⟩

theorem mem_char_mul {a : α} {Q : RegularExpression α} {w : List α} :
    w ∈ (char a * Q).matches' ↔ ∃ v, v ∈ Q.matches' ∧ w = a :: v := by
  rw [matches'_mul, Language.mem_mul]
  constructor
  · intro h
    obtain ⟨u, hu, v, hv, rfl⟩ := h
    have heq : u = [a] := hu
    subst heq
    exact ⟨v, hv, rfl⟩
  · intro h
    obtain ⟨v, hv, rfl⟩ := h
    exact ⟨[a], rfl, v, hv, rfl⟩

theorem mem_star_anyOf {l w : List α} :
    w ∈ (star (anyOf l)).matches' ↔ ∀ a ∈ w, a ∈ l := by
  rw [matches'_star, Language.mem_kstar]
  constructor
  · intro h a ha
    obtain ⟨ws, rfl, hws⟩ := h
    obtain ⟨u, hu, hau⟩ := List.mem_flatten.mp ha
    obtain ⟨b, hb, rfl⟩ := mem_anyOf.mp (hws u hu)
    rwa [List.mem_singleton.mp hau]
  · intro h
    refine ⟨w.map ([·]), by rw [← List.flatMap_def, List.flatMap_singleton'], ?_⟩
    intro u hu
    obtain ⟨a, ha, rfl⟩ := List.mem_map.mp hu
    exact mem_anyOf.mpr ⟨a, h a ha, rfl⟩

theorem mem_oneOrMore_anyOf {l w : List α} :
    w ∈ (oneOrMore (anyOf l)).matches' ↔ w ≠ [] ∧ ∀ a ∈ w, a ∈ l := by
  unfold oneOrMore
  simp only [mem_anyOf_mul, mem_star_anyOf]
  constructor
  · intro h
    obtain ⟨a, ha, v, hv, rfl⟩ := h
    exact ⟨List.cons_ne_nil a v, List.forall_mem_cons.mpr ⟨ha, hv⟩⟩
  · intro h
    obtain ⟨hne, h⟩ := h
    obtain ⟨a, v, rfl⟩ := List.exists_cons_of_ne_nil hne
    obtain ⟨ha, hv⟩ := List.forall_mem_cons.mp h
    exact ⟨a, ha, v, hv, rfl⟩

end NoteNew.Regex
