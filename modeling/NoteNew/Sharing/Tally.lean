import Mathlib.Data.List.Nodup
import Mathlib.Order.Bounds.Basic

/-!
# Parties that share a resource

Each party of a list is in a state, and asks the resource for a level. `tally` counts those in a
state: when one party moves, only its old and its new state change their counts. A level that some
party asks for and none exceeds is what they ask for together.
-/

namespace NoteNew.Sharing

variable {κ σ : Type*} [DecidableEq σ]

/-- How many of the parties are in the state `v`. -/
def tally (l : List κ) (state : κ → σ) (v : σ) : Int :=
  l.countP fun k => state k == v

variable {l : List κ} {state state' : κ → σ} {v : σ} {k : κ}

theorem tally_nonneg : 0 ≤ tally l state v :=
  Int.natCast_nonneg _

theorem tally_eq_zero_iff : tally l state v = 0 ↔ ∀ k ∈ l, state k ≠ v := by
  simp [tally, List.countP_eq_zero]

theorem tally_ne_zero_iff : tally l state v ≠ 0 ↔ ∃ k ∈ l, state k = v := by
  simp [tally_eq_zero_iff]

theorem tally_congr (h : ∀ k ∈ l, state' k = v ↔ state k = v) :
    tally l state' v = tally l state v := by
  rw [tally, tally, List.countP_congr]
  intro k hk
  rw [beq_iff_eq, beq_iff_eq, h k hk]

theorem tally_cons : tally (k :: l) state v = tally l state v + if state k = v then 1 else 0 := by
  simp [tally, List.countP_cons, apply_ite Nat.cast]

/-- One party of the list has moved. -/
theorem tally_move (hl : l.Nodup) (hk : k ∈ l) (h : ∀ j ≠ k, state' j = state j) :
    tally l state' v =
      tally l state v - (if state k = v then 1 else 0) + if state' k = v then 1 else 0 := by
  induction l with
  | nil => cases hk
  | cons c l ih =>
    rw [List.nodup_cons] at hl
    rw [tally_cons, tally_cons]
    rcases List.mem_cons.mp hk with rfl | hk
    · have hrest : tally l state' v = tally l state v := by
        refine tally_congr fun j hj => ?_
        rw [h j (ne_of_mem_of_not_mem hj hl.1)]
      rw [hrest]
      omega
    · have hc : c ≠ k := by
        rintro rfl
        exact hl.1 hk
      rw [ih hl.2 hk, h c hc]
      omega

/-- Leaving a party out that is not in the state. -/
theorem tally_filter [DecidableEq κ] (state : κ → σ) (hk : state k ≠ v) :
    tally (l.filter fun j => j != k) state v = tally l state v := by
  rw [tally, tally, List.countP_filter, List.countP_congr]
  intro j _
  by_cases hj : j = k
  · subst hj
    simp [hk]
  · simp [hj]

/-- The level that the parties ask for together. -/
theorem isLUB_asks {α : Type*} [PartialOrder α] [OrderBot α] {asks : κ → α} {a : α}
    (hle : ∀ k ∈ l, asks k ≤ a) (hmax : a = ⊥ ∨ ∃ k ∈ l, asks k = a) :
    IsLUB (Set.image asks {k | k ∈ l}) a := by
  constructor
  · rintro _ ⟨k, hk, rfl⟩
    exact hle k hk
  · intro c hc
    rcases hmax with rfl | ⟨k, hk, rfl⟩
    · exact bot_le
    · exact hc ⟨k, hk, rfl⟩

end NoteNew.Sharing
