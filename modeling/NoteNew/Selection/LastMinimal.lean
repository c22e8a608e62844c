import Mathlib.Order.Bounds.Basic

/-!
# The last of the smallest

A left-to-right scan that keeps an element until one comes that is at least as small holds the last
of the smallest elements it has seen. `IsChoice` says so of what is kept, and `IsChoice.insert` is
one step of the scan: the new element stands behind all the others and is kept by `keep`.
-/

namespace NoteNew.Selection

variable {ι κ : Type*} [LinearOrder κ] (key : ι → κ) (pos : ι → Nat)

/-- No element has a smaller key, and none with the same key stands further behind. -/
structure IsLastMin (S : Set ι) (x : ι) : Prop where
  mem : x ∈ S
  min : ∀ y ∈ S, key x ≤ key y
  last : ∀ y ∈ S, key y = key x → pos y ≤ pos x

/-- What a scan of the elements keeps: nothing if there are none. -/
def IsChoice (S : Set ι) : Option ι → Prop
  | none => S = ∅
  | some x => IsLastMin key pos S x

/-- Keep the new element unless its key is greater. -/
def keep : Option ι → ι → Option ι
  | none, z => some z
  | some x, z => if key z ≤ key x then some z else some x

variable {key pos} {S : Set ι} {x z : ι}

theorem IsLastMin.insert_le (h : IsLastMin key pos S x) (hz : ∀ y ∈ S, pos y < pos z)
    (hle : key z ≤ key x) : IsLastMin key pos (insert z S) z where
  mem := Set.mem_insert z S
  min y hy := by
    rcases Set.mem_insert_iff.mp hy with rfl | hy
    · exact le_rfl
    · exact hle.trans (h.min y hy)
  last y hy _ := by
    rcases Set.mem_insert_iff.mp hy with rfl | hy
    · exact le_rfl
    · exact (hz y hy).le

theorem IsLastMin.insert_lt (h : IsLastMin key pos S x) (hlt : key x < key z) :
    IsLastMin key pos (insert z S) x where
  mem := Set.mem_insert_of_mem z h.mem
  min y hy := by
    rcases Set.mem_insert_iff.mp hy with rfl | hy
    · exact hlt.le
    · exact h.min y hy
  last y hy hkey := by
    rcases Set.mem_insert_iff.mp hy with rfl | hy
    · exact absurd hkey hlt.ne'
    · exact h.last y hy hkey

/-- One step of the scan. -/
theorem IsChoice.insert {best : Option ι} (h : IsChoice key pos S best)
    (hz : ∀ y ∈ S, pos y < pos z) : IsChoice key pos (insert z S) (keep key best z) := by
  cases best with
  | none =>
    have hempty : S = ∅ := h
    subst hempty
    refine ⟨Set.mem_insert z ∅, fun y hy => ?_, fun y hy _ => ?_⟩
    · obtain rfl : y = z := by simpa using hy
      exact le_rfl
    · obtain rfl : y = z := by simpa using hy
      exact le_rfl
  | some x =>
    have hx : IsLastMin key pos S x := h
    simp only [keep]
    split
    · next hle => exact hx.insert_le hz hle
    · next hlt => exact hx.insert_lt (not_le.mp hlt)

end NoteNew.Selection
