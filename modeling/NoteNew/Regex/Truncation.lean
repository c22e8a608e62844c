import NoteNew.Regex.MaximalMunch

/-!
# Cutting an input between lexemes

The places where a reader of lexemes comes by (`Reaches`), and what is read of an input that is cut
short at or behind the end of a lexeme: the longest match over a table is still the same one
(`longestRule_take`), since every match that the cut takes away was longer than it.
-/

namespace NoteNew.Regex

variable {R α : Type*}

/-- Reading lexeme by lexeme with `next` comes to this position of the input. -/
inductive Reaches (next : List α → Option (R × Nat)) : List α → Nat → Prop where
  | start (s : List α) : Reaches next s 0
  | step {s : List α} {r : R} {n k : Nat} (h : next s = some (r, n))
    (hreach : Reaches next (s.drop n) k) : Reaches next s (n + k)

/-! ## Matches of a prefix -/

theorem IsLongest.take {L : Language α} {s : List α} {n k : Nat} (h : IsLongest L s n)
    (hk : n ≤ k) : IsLongest L (s.take k) n where
  le := by
    rw [List.length_take]
    exact Nat.le_min.mpr ⟨hk, h.le⟩
  mem := by
    rw [List.take_take, Nat.min_eq_left hk]
    exact h.mem
  max m hm hmem := by
    rw [List.length_take] at hm
    obtain ⟨hmk, hms⟩ := Nat.le_min.mp hm
    rw [List.take_take, Nat.min_eq_left hmk] at hmem
    exact h.max m hms hmem

variable [DecidableEq α]

theorem longestPrefix_take_of_none {P : RegularExpression α} {s : List α}
    (h : longestPrefix P s = none) (k : Nat) : longestPrefix P (s.take k) = none := by
  rw [longestPrefix_eq_none_iff] at h ⊢
  intro m hm
  rw [List.length_take] at hm
  obtain ⟨hmk, hms⟩ := Nat.le_min.mp hm
  rw [List.take_take, Nat.min_eq_left hmk]
  exact h m hms

theorem longestPrefix_take {P : RegularExpression α} {s : List α} {n k : Nat}
    (h : longestPrefix P s = some n) (hk : n ≤ k) : longestPrefix P (s.take k) = some n := by
  rw [longestPrefix_eq_some_iff] at h ⊢
  exact h.take hk

/-! ## The longest match over a table -/

section Table

variable (re : R → RegularExpression α) {rules : List R} {s t : List α}

/-- The choice depends on the matches of the rules only. -/
theorem longestRule_congr (h : ∀ r ∈ rules, longestPrefix (re r) s = longestPrefix (re r) t) :
    longestRule re rules s = longestRule re rules t := by
  induction rules with
  | nil => rfl
  | cons r rules ih =>
    obtain ⟨hr, hrules⟩ := List.forall_mem_cons.mp h
    simp only [longestRule, hr, ih hrules]

/-- An input cut behind its first lexeme begins with the same lexeme. -/
theorem longestRule_take {r : R} {n k : Nat} (h : longestRule re rules s = some (r, n))
    (hk : n ≤ k) : longestRule re rules (s.take k) = some (r, n) := by
  obtain ⟨-, -, hmax⟩ := longestRule_eq_some re h
  rw [← h]
  apply longestRule_congr
  intro r' hr'
  cases hm : longestPrefix (re r') s with
  | none => exact longestPrefix_take_of_none hm k
  | some m => exact longestPrefix_take hm ((hmax r' hr' m hm).trans hk)

end Table

end NoteNew.Regex
