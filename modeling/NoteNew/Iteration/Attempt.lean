import Mathlib.Data.Int.Notation

/-!
# Steps that may fail

A step returns a code and the state behind it, and a negative code is an error. What follows a step
in `attempt`, and in a loop of `attemptEach`, is done only where the step has not failed. The last
rule is for a loop that cannot fail but leaves less with each element.
-/

namespace NoteNew.Iteration

variable {α σ : Type*}

/-- The next step, unless this one has failed. -/
def attempt (a : ℤ × σ) (next : σ → ℤ × σ) : ℤ × σ :=
  if a.1 < 0 then a else next a.2

/-- A step for each element, up to the first that fails; `a` is what stands before the loop. -/
def attemptEach (step : α → σ → ℤ × σ) : List α → ℤ × σ → ℤ × σ
  | [], a => a
  | x :: l, a =>
    let b := step x a.2
    if b.1 < 0 then b else attemptEach step l b

variable {a : ℤ × σ} {next : σ → ℤ × σ} {step : α → σ → ℤ × σ} {l : List α} {x : α}
  {P Q : σ → Prop}

theorem attempt_cases {Q : ℤ × σ → Prop} (hfail : a.1 < 0 → Q a)
    (hgo : 0 ≤ a.1 → Q (next a.2)) : Q (attempt a next) := by
  unfold attempt
  split
  · next hneg => exact hfail hneg
  · next hneg => exact hgo (by omega)

theorem attempt_keeps (ha : P a.2) (hnext : ∀ s, P s → P (next s).2) : P (attempt a next).2 := by
  unfold attempt
  split
  · exact ha
  · exact hnext _ ha

/-- Where a sequence of steps has not failed, its first step has not, and the others were made. -/
theorem attempt_of_nonneg (h : 0 ≤ (attempt a next).1) : 0 ≤ a.1 ∧ attempt a next = next a.2 := by
  unfold attempt at h ⊢
  split
  · next hneg =>
    rw [if_pos hneg] at h
    omega
  · next hneg => exact ⟨by omega, rfl⟩

theorem attemptEach_keeps (ha : P a.2) (hstep : ∀ x ∈ l, ∀ s, P s → P (step x s).2) :
    P (attemptEach step l a).2 := by
  induction l generalizing a with
  | nil => exact ha
  | cons x l ih =>
    have hx : P (step x a.2).2 := hstep x List.mem_cons_self _ ha
    rw [attemptEach]
    split
    · exact hx
    · exact ih hx fun y hy => hstep y (List.mem_cons_of_mem x hy)

/-- A loop that has not failed has made the step of each element, and what that step brings about
stays where the other steps keep it. -/
theorem attemptEach_reaches (hx : x ∈ l) (hreach : ∀ s, P s → 0 ≤ (step x s).1 → Q (step x s).2)
    (hkeep : ∀ y ∈ l, ∀ s, P s → P (step y s).2 ∧ (Q s → Q (step y s).2)) (ha : P a.2)
    (h : 0 ≤ (attemptEach step l a).1) : Q (attemptEach step l a).2 := by
  induction l generalizing a with
  | nil => cases hx
  | cons y l ih =>
    rw [attemptEach] at h ⊢
    split
    · next hneg =>
      rw [if_pos hneg] at h
      omega
    · next hneg =>
      rw [if_neg hneg] at h
      have hP : P (step y a.2).2 := (hkeep y List.mem_cons_self _ ha).1
      have hrest : ∀ z ∈ l, ∀ s, P s → P (step z s).2 ∧ (Q s → Q (step z s).2) :=
        fun z hz => hkeep z (List.mem_cons_of_mem y hz)
      rcases List.mem_cons.mp hx with rfl | hx
      · have hQ : Q (step x a.2).2 := hreach _ ha (by omega)
        refine (attemptEach_keeps (P := fun s => P s ∧ Q s) ⟨hP, hQ⟩ ?_).2
        intro z hz s hs
        exact ⟨(hrest z hz s hs.1).1, (hrest z hz s hs.1).2 hs.2⟩
      · exact ih hx hrest hP h

/-- A loop that cannot fail and narrows what holds of the state, by one condition an element. -/
theorem foldl_narrows {narrow : σ → α → σ} {C : α → Prop} {s : σ}
    (h : ∀ s x, P (narrow s x) ↔ P s ∧ C x) : P (l.foldl narrow s) ↔ P s ∧ ∀ x ∈ l, C x := by
  induction l generalizing s with
  | nil => simp
  | cons x l ih =>
    rw [List.foldl_cons, ih, h, List.forall_mem_cons, and_assoc]

end NoteNew.Iteration
