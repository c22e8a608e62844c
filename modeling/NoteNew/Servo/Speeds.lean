import Mathlib.Algebra.Field.Rat
import Mathlib.Data.List.Induction

/-!
# Two speeds on one setting

A device with one speed setting, driven by calls that choose a positioning speed, choose a jogging
speed, start a jog or start a move. `KeepsSpeedsApart` asks that every motion starts at the speed
chosen for its kind. A device whose setting follows the positioning speed alone meets it exactly on
the runs that jog at the positioning speed anyway (`keepsSpeedsApart_iff`).
-/

namespace NoteNew.Servo

/-! ## The most recent value -/

section Latest

variable {β γ : Type*} (f : β → Option γ)

/-- The most recent value that an event of the list carries. -/
def latest (l : List β) : Option γ :=
  l.foldl (fun acc x => (f x).or acc) none

@[simp] theorem latest_concat (l : List β) (x : β) :
    latest f (l ++ [x]) = (f x).or (latest f l) := by
  simp [latest, List.foldl_append]

end Latest

/-! ## Speeds and motions -/

/-- What a call means for the two speeds. -/
inductive SpeedEvent where
  | setPosition (v : ℚ)
  | setJog (v : ℚ)
  | startMove
  | startJog
  | other

namespace SpeedEvent

def positionSpeed : SpeedEvent → Option ℚ
  | setPosition v => some v
  | _ => none

def jogSpeed : SpeedEvent → Option ℚ
  | setJog v => some v
  | _ => none

end SpeedEvent

open SpeedEvent

section Calls

variable {C : Type*} (event : C → SpeedEvent)

/-- At the end of the call `c` of a run, the setting `lastRPM` of the device is the speed chosen for
the motion that the call starts, if one has been chosen. -/
structure StartsAtItsSpeed (rpm : ℚ → ℚ) (lastRPM : List C → Option ℚ) (calls : List C) (c : C) :
    Prop where
  jog : event c = .startJog → ∀ v, latest jogSpeed (calls.map event) = some v →
    lastRPM (calls ++ [c]) = some (rpm v)
  move : event c = .startMove → ∀ v, latest positionSpeed (calls.map event) = some v →
    lastRPM (calls ++ [c]) = some (rpm v)

/-- Every call of the run starts its motion at the speed chosen for it. -/
def KeepsSpeedsApart (rpm : ℚ → ℚ) (lastRPM : List C → Option ℚ) (run : List C) : Prop :=
  ∀ calls c, calls ++ [c] <+: run → StartsAtItsSpeed event rpm lastRPM calls c

/-- Whenever a jog starts, a chosen jogging speed is the chosen positioning speed. -/
def JogsAtPositionSpeed (run : List C) : Prop :=
  ∀ calls c, calls ++ [c] <+: run → event c = .startJog →
    ∀ v, latest jogSpeed (calls.map event) = some v →
      latest positionSpeed (calls.map event) = some v

/-- **A setting that follows the positioning speed** keeps the speeds apart exactly on the runs that
jog at the positioning speed. -/
theorem keepsSpeedsApart_iff {rpm : ℚ → ℚ} (hrpm : Function.Injective rpm)
    {lastRPM : List C → Option ℚ}
    (hlast : ∀ calls, lastRPM calls = (latest positionSpeed (calls.map event)).map rpm)
    (run : List C) :
    KeepsSpeedsApart event rpm lastRPM run ↔ JogsAtPositionSpeed event run := by
  have hstart : ∀ calls c, (event c).positionSpeed = none →
      lastRPM (calls ++ [c]) = (latest positionSpeed (calls.map event)).map rpm := by
    intro calls c hc
    rw [hlast, List.map_append, List.map_singleton, latest_concat, hc, Option.none_or]
  constructor
  · intro h calls c hpre hc v hv
    have hjog := (h calls c hpre).jog hc v hv
    rw [hstart calls c (by rw [hc]; rfl)] at hjog
    obtain ⟨u, hu, huv⟩ := Option.map_eq_some_iff.mp hjog
    rw [hu, hrpm huv]
  · intro h calls c hpre
    refine ⟨fun hc v hv => ?_, fun hc v hv => ?_⟩
    · rw [hstart calls c (by rw [hc]; rfl), h calls c hpre hc v hv, Option.map_some]
    · rw [hstart calls c (by rw [hc]; rfl), hv, Option.map_some]

end Calls

end NoteNew.Servo
