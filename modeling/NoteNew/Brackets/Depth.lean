import Mathlib.Algebra.BigOperators.Group.List.Basic
import Mathlib.Algebra.Ring.Int.Defs
import Mathlib.Data.List.Infix

/-!
# Bracket depth of a weighted word

Each letter carries a weight: `1` for an opening bracket, `-1` for a closing one, `0` for anything
else. The `depth` of a word is the sum of its weights. A word is `Balanced` when no prefix has
negative depth and the whole has depth zero; it `ClosesEarly` above `b` when the running depth
started at `b` is zero before the last letter.
-/

namespace NoteNew.Brackets

variable {α : Type*} (w : α → Int)

/-- The depth after the word: the sum of the weights. -/
def depth (l : List α) : Int :=
  (l.map w).sum

@[simp] theorem depth_nil : depth w [] = 0 := rfl

@[simp] theorem depth_cons (a : α) (l : List α) : depth w (a :: l) = w a + depth w l := by
  simp [depth]

@[simp] theorem depth_append (l k : List α) : depth w (l ++ k) = depth w l + depth w k := by
  simp [depth]

/-- No prefix closes more than it opens, and everything opened is closed. -/
structure Balanced (l : List α) : Prop where
  nonneg : ∀ p, p <+: l → 0 ≤ depth w p
  closed : depth w l = 0

/-- The running depth, started at `b`, is zero before the last letter is read. -/
def ClosesEarly (b : Int) (l : List α) : Prop :=
  ∃ p, p <+: l ∧ p ≠ l ∧ b + depth w p = 0

variable {w}

theorem prefix_append_iff {p l k : List α} :
    p <+: l ++ k ↔ p <+: l ∨ ∃ q, q <+: k ∧ p = l ++ q := by
  constructor
  · intro h
    rcases List.prefix_or_prefix_of_prefix h (List.prefix_append l k) with hp | ⟨q, rfl⟩
    · exact Or.inl hp
    · exact Or.inr ⟨q, (List.prefix_append_right_inj l).mp h, rfl⟩
  · intro h
    rcases h with hp | ⟨q, hq, rfl⟩
    · exact hp.trans (List.prefix_append l k)
    · exact (List.prefix_append_right_inj l).mpr hq

namespace Balanced

theorem nil : Balanced w [] where
  nonneg p hp := by
    simp [List.prefix_nil.mp hp]
  closed := rfl

/-- A balanced word after a balanced word is balanced. -/
theorem append {l k : List α} (hl : Balanced w l) (hk : Balanced w k) : Balanced w (l ++ k) where
  nonneg p hp := by
    rcases prefix_append_iff.mp hp with hp | ⟨q, hq, rfl⟩
    · exact hl.nonneg p hp
    · rw [depth_append, hl.closed, zero_add]
      exact hk.nonneg q hq
  closed := by
    rw [depth_append, hl.closed, hk.closed, add_zero]

/-- A word cut at depth zero is cut into balanced words. -/
theorem of_append {l k : List α} (h : Balanced w (l ++ k)) (hl : depth w l = 0) :
    Balanced w l ∧ Balanced w k := by
  have hk : depth w k = 0 := by
    have hclosed := h.closed
    rwa [depth_append, hl, zero_add] at hclosed
  refine ⟨⟨fun p hp => h.nonneg p (hp.trans (List.prefix_append l k)), hl⟩, ⟨fun q hq => ?_, hk⟩⟩
  have hnonneg := h.nonneg (l ++ q) ((List.prefix_append_right_inj l).mpr hq)
  rwa [depth_append, hl, zero_add] at hnonneg

theorem of_cons {a : α} {l : List α} (h : Balanced w (a :: l)) (ha : w a = 0) : Balanced w l := by
  apply (of_append (l := [a]) h _).2
  rw [depth_cons, ha, depth_nil, add_zero]

theorem singleton {a : α} (ha : w a = 0) : Balanced w [a] where
  nonneg p hp := by
    rcases List.prefix_cons_iff.mp hp with rfl | ⟨t, rfl, ht⟩
    · simp
    · simp [List.prefix_nil.mp ht, ha]
  closed := by
    rw [depth_cons, ha, depth_nil, add_zero]

theorem cons {a : α} {l : List α} (ha : w a = 0) (hl : Balanced w l) : Balanced w (a :: l) :=
  (singleton ha).append hl

/-- A balanced word between an opening and a closing bracket is balanced. -/
theorem wrap {a b : α} {l : List α} (ha : w a = 1) (hb : w b = -1) (hl : Balanced w l) :
    Balanced w (a :: (l ++ [b])) where
  nonneg p hp := by
    rcases List.prefix_cons_iff.mp hp with rfl | ⟨t, rfl, ht⟩
    · simp
    · rw [depth_cons, ha]
      rcases prefix_append_iff.mp ht with ht | ⟨q, hq, rfl⟩
      · have := hl.nonneg t ht
        omega
      · rw [depth_append, hl.closed]
        rcases List.prefix_cons_iff.mp hq with rfl | ⟨u, rfl, hu⟩
        · simp
        · rw [List.prefix_nil.mp hu, depth_cons, hb, depth_nil]
          omega
  closed := by
    rw [depth_cons, depth_append, ha, hl.closed, depth_cons, hb, depth_nil]
    omega

end Balanced

/-! ## Early closing -/

/-- A running depth that starts positive, falls by at most one a letter and is never zero stays
positive. -/
theorem depth_pos_of_ne_zero (hw : ∀ a, -1 ≤ w a) {b : Int} (hb : 0 < b) {l : List α}
    (h : ∀ p, p <+: l → b + depth w p ≠ 0) : 0 < b + depth w l := by
  induction l generalizing b with
  | nil => simpa using hb
  | cons a l ih =>
    have ha := hw a
    have hne := h [a] (by simp)
    rw [depth_cons, depth_nil, add_zero] at hne
    rw [depth_cons, ← add_assoc]
    refine ih (by omega) fun p hp => ?_
    have := h (a :: p) (by simpa using hp)
    rwa [depth_cons, ← add_assoc] at this

theorem not_closesEarly_nil {b : Int} : ¬ ClosesEarly w b [] := by
  intro h
  obtain ⟨p, hp, hne, -⟩ := h
  exact hne (List.prefix_nil.mp hp)

theorem not_closesEarly_singleton {b : Int} (hb : b ≠ 0) {a : α} : ¬ ClosesEarly w b [a] := by
  intro h
  obtain ⟨p, hp, hne, hz⟩ := h
  rcases List.prefix_cons_iff.mp hp with rfl | ⟨t, rfl, ht⟩
  · exact hb (by simpa using hz)
  · exact hne (by rw [List.prefix_nil.mp ht])

theorem closesEarly_cons_iff {b : Int} (hb : b ≠ 0) {a : α} {l : List α} :
    ClosesEarly w b (a :: l) ↔ ClosesEarly w (b + w a) l := by
  constructor
  · intro h
    obtain ⟨p, hp, hne, hz⟩ := h
    rcases List.prefix_cons_iff.mp hp with rfl | ⟨t, rfl, ht⟩
    · exact absurd (by simpa using hz) hb
    · refine ⟨t, ht, fun h => hne (by rw [h]), ?_⟩
      rwa [depth_cons, ← add_assoc] at hz
  · intro h
    obtain ⟨t, ht, hne, hz⟩ := h
    refine ⟨a :: t, by simpa using ht, fun h => hne (List.cons.inj h).2, ?_⟩
    rwa [depth_cons, ← add_assoc]

theorem closesEarly_of_zero {l : List α} (hl : l ≠ []) : ClosesEarly w 0 l :=
  ⟨[], List.nil_prefix, fun h => hl h.symm, rfl⟩

/-- Between an opening bracket and a closing one that are partners the word is balanced. -/
theorem balanced_iff_not_closesEarly (hw : ∀ a, -1 ≤ w a) {b : α} {l : List α} (hb : w b = -1) :
    Balanced w l ↔ ¬ ClosesEarly w 1 (l ++ [b]) ∧ 1 + depth w (l ++ [b]) = 0 := by
  rw [depth_append, depth_cons, hb, depth_nil]
  constructor
  · intro h
    refine ⟨?_, by have := h.closed; omega⟩
    intro h
    obtain ⟨p, hp, hne, hz⟩ := h
    rcases List.prefix_concat_iff.mp hp with rfl | hp
    · exact hne rfl
    · have := h.nonneg p hp
      omega
  · intro h
    obtain ⟨hearly, hz⟩ := h
    refine ⟨fun p hp => ?_, by omega⟩
    have hpos : 0 < 1 + depth w p := by
      refine depth_pos_of_ne_zero hw (by omega) fun q hq hzero => hearly ⟨q, ?_, ?_, hzero⟩
      · exact (hq.trans hp).trans (List.prefix_append l [b])
      · intro heq
        have := (hq.trans hp).length_le
        rw [heq, List.length_append, List.length_singleton] at this
        omega
    omega

/-- A word whose depth never returns to zero before its last letter is balanced exactly when its
depth is zero. -/
theorem balanced_iff_of_not_closesEarly (hw : ∀ a, -1 ≤ w a) {a b : α} {l : List α}
    (ha : w a = 1) (hb : w b = -1) (h : ¬ ClosesEarly w 1 (l ++ [b])) :
    Balanced w (a :: (l ++ [b])) ↔ depth w (a :: (l ++ [b])) = 0 := by
  refine ⟨fun hbal => hbal.closed, fun hz => ?_⟩
  rw [depth_cons, ha] at hz
  exact Balanced.wrap ha hb ((balanced_iff_not_closesEarly hw hb).mpr ⟨h, hz⟩)

end NoteNew.Brackets
