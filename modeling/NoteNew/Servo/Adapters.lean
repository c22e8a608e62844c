import Mathlib.Tactic.NormNum
import NoteNew.Servo.Speeds

/-!
# The servo adapters

`LinearServoAdapter` and `RotaryServoAdapter` over a motor of which only the calls made to it are
known: what it replies is a parameter. The two differ in their unit and in the names of their
methods, so both are the one `ServoAdapter`. It hands an RPM to the motor when a positioning speed
is set and at no other time (`ServoAdapter.lastRPM_run`); the saved jogging speed is never used. So
the speeds are kept apart exactly on the runs that jog at the positioning speed
(`adapters_keepSpeedsApart_iff`).
-/

namespace NoteNew.Servo

open SpeedEvent

/-! ## The motor -/

/-- The calls made to the motor. -/
inductive MotorCall where
  | goHome
  | wait (ms : Int)
  | setRPM (rpm : ℚ)
  | relativeMoveRevolutions (revolutions : ℚ)
  | absoluteMoveRevolutions (targetRevolutions : ℚ)
  | startPositiveRPMJog
  | startNegativeRPMJog
  | stopRPMJog
deriving DecidableEq, Repr

/-- The RPM a call hands to the motor. -/
def MotorCall.rpm : MotorCall → Option ℚ
  | setRPM rpm => some rpm
  | _ => none

/-- A motor, by the calls made to it so far, the first one first. -/
abbrev Motor := List MotorCall

/-- The last RPM handed to the motor. -/
def Motor.lastRPM (motor : Motor) : Option ℚ :=
  latest MotorCall.rpm motor

/-- What a motor replies to its latest call. -/
abbrev Reply := Motor → Bool

/-! ## The common adapter -/

/-- The members of both adapters: the motor, the travel per revolution
(`leadScrewPitchMmPerRev`, `degreesPerRevolution`) and the two saved speeds. -/
structure ServoAdapter where
  motor : Motor
  perRevolution : ℚ
  currentPositionSpeedRPM : ℚ
  currentJogSpeedRPM : ℚ

namespace ServoAdapter

/-- The constructor, on a motor not called yet. -/
def new (perRevolution : ℚ) : ServoAdapter :=
  ⟨[], perRevolution, 0, 0⟩

/-- Call the motor and return its reply. -/
def callMotor (reply : Reply) (a : ServoAdapter) (c : MotorCall) : ServoAdapter × Bool :=
  ({ a with motor := a.motor ++ [c] }, reply (a.motor ++ [c]))

def getMotor (a : ServoAdapter) : Motor := a.motor

def goHome (reply : Reply) (a : ServoAdapter) : ServoAdapter × Bool :=
  a.callMotor reply .goHome

def wait (a : ServoAdapter) (ms : Int) : ServoAdapter :=
  { a with motor := a.motor ++ [.wait ms] }

def stopJog (reply : Reply) (a : ServoAdapter) : ServoAdapter × Bool :=
  a.callMotor reply .stopRPMJog

/-- A speed in units per second as revolutions per minute. -/
def toRPM (perRevolution unitsPerSec : ℚ) : ℚ :=
  unitsPerSec / perRevolution * 60

def setPositionSpeed (reply : Reply) (a : ServoAdapter) (unitsPerSec : ℚ) : ServoAdapter × Bool :=
  let rpm := toRPM a.perRevolution unitsPerSec
  { a with currentPositionSpeedRPM := rpm }.callMotor reply (.setRPM rpm)

/-- The RPM is saved "for later jogs", and the motor is not called. -/
def setJogSpeed (a : ServoAdapter) (unitsPerSec : ℚ) : ServoAdapter × Bool :=
  let rpm := toRPM a.perRevolution unitsPerSec
  ({ a with currentJogSpeedRPM := rpm }, true)

def relativeMove (reply : Reply) (a : ServoAdapter) (units : ℚ) : ServoAdapter × Bool :=
  a.callMotor reply (.relativeMoveRevolutions (units / a.perRevolution))

def absoluteMove (reply : Reply) (a : ServoAdapter) (target : ℚ) : ServoAdapter × Bool :=
  a.callMotor reply (.absoluteMoveRevolutions (target / a.perRevolution))

def startPositiveJog (reply : Reply) (a : ServoAdapter) : ServoAdapter × Bool :=
  a.callMotor reply .startPositiveRPMJog

def startNegativeJog (reply : Reply) (a : ServoAdapter) : ServoAdapter × Bool :=
  a.callMotor reply .startNegativeRPMJog

/-- The state behind a call, with the speed or the motion the call is about. -/
inductive Effect (reply : Reply) (a : ServoAdapter) : SpeedEvent → ServoAdapter → Prop where
  | getMotor : Effect reply a .other a
  | goHome : Effect reply a .other (a.goHome reply).1
  | wait (ms : Int) : Effect reply a .other (a.wait ms)
  | stopJog : Effect reply a .other (a.stopJog reply).1
  | setPositionSpeed (v : ℚ) : Effect reply a (.setPosition v) (a.setPositionSpeed reply v).1
  | setJogSpeed (v : ℚ) : Effect reply a (.setJog v) (a.setJogSpeed v).1
  | relativeMove (d : ℚ) : Effect reply a .startMove (a.relativeMove reply d).1
  | absoluteMove (d : ℚ) : Effect reply a .startMove (a.absoluteMove reply d).1
  | startPositiveJog : Effect reply a .startJog (a.startPositiveJog reply).1
  | startNegativeJog : Effect reply a .startJog (a.startNegativeJog reply).1

variable {reply : Reply} {a b : ServoAdapter} {ev : SpeedEvent}

theorem Effect.perRevolution (h : Effect reply a ev b) : b.perRevolution = a.perRevolution := by
  cases h <;> rfl

/-- A call hands an RPM to the motor exactly when it sets the positioning speed. -/
theorem Effect.lastRPM (h : Effect reply a ev b) : b.motor.lastRPM =
    (ev.positionSpeed.map (toRPM a.perRevolution)).or a.motor.lastRPM := by
  cases h with
  | getMotor => rfl
  | wait ms => exact latest_concat _ _ _
  | setJogSpeed v => rfl
  | _ => exact latest_concat _ _ _

/-- Over a whole run the motor holds the RPM of the latest positioning speed. -/
theorem lastRPM_run {C : Type*} {event : C → SpeedEvent} {step : ServoAdapter → C → ServoAdapter}
    (hstep : ∀ a c, Effect reply a (event c) (step a c)) (perRevolution : ℚ) (calls : List C) :
    (calls.foldl step (new perRevolution)).motor.lastRPM =
      (latest positionSpeed (calls.map event)).map (toRPM perRevolution) := by
  have hunit : ∀ calls : List C,
      (calls.foldl step (new perRevolution)).perRevolution = perRevolution := by
    intro calls
    induction calls using List.reverseRecOn with
    | nil => rfl
    | append_singleton calls c ih =>
      rw [List.foldl_append, List.foldl_cons, List.foldl_nil, (hstep _ c).perRevolution, ih]
  induction calls using List.reverseRecOn with
  | nil => rfl
  | append_singleton calls c ih =>
    rw [List.foldl_append, List.foldl_cons, List.foldl_nil, (hstep _ c).lastRPM, hunit, ih,
      List.map_append, List.map_singleton, latest_concat]
    cases (event c).positionSpeed <;> rfl

theorem toRPM_injective {perRevolution : ℚ} (h : perRevolution ≠ 0) :
    Function.Injective (toRPM perRevolution) := by
  intro u v huv
  have hmul : u / perRevolution = v / perRevolution :=
    mul_right_cancel₀ (by decide : (60 : ℚ) ≠ 0) huv
  exact (div_left_inj' h).mp hmul

end ServoAdapter

/-! ## The linear adapter -/

namespace LinearServoAdapter

def new (leadScrewPitchMmPerRev : ℚ) : ServoAdapter := .new leadScrewPitchMmPerRev

def getMotor (a : ServoAdapter) : Motor := a.getMotor

def goHome (reply : Reply) (a : ServoAdapter) : ServoAdapter × Bool := a.goHome reply

def wait (a : ServoAdapter) (ms : Int) : ServoAdapter := a.wait ms

def stopJog (reply : Reply) (a : ServoAdapter) : ServoAdapter × Bool := a.stopJog reply

def setPositionSpeed (reply : Reply) (a : ServoAdapter) (mmPerSec : ℚ) : ServoAdapter × Bool :=
  a.setPositionSpeed reply mmPerSec

def setJogSpeed (a : ServoAdapter) (mmPerSec : ℚ) : ServoAdapter × Bool :=
  a.setJogSpeed mmPerSec

def relativeMove (reply : Reply) (a : ServoAdapter) (mm : ℚ) : ServoAdapter × Bool :=
  a.relativeMove reply mm

def absoluteMove (reply : Reply) (a : ServoAdapter) (targetMm : ℚ) : ServoAdapter × Bool :=
  a.absoluteMove reply targetMm

def startPositiveJog (reply : Reply) (a : ServoAdapter) : ServoAdapter × Bool :=
  a.startPositiveJog reply

def startNegativeJog (reply : Reply) (a : ServoAdapter) : ServoAdapter × Bool :=
  a.startNegativeJog reply

end LinearServoAdapter

/-- The calls on a linear adapter. -/
inductive LinearCall where
  | getMotor
  | goHome
  | wait (ms : Int)
  | stopJog
  | setPositionSpeed (mmPerSec : ℚ)
  | setJogSpeed (mmPerSec : ℚ)
  | relativeMove (mm : ℚ)
  | absoluteMove (targetMm : ℚ)
  | startPositiveJog
  | startNegativeJog
deriving DecidableEq, Repr

def LinearCall.event : LinearCall → SpeedEvent
  | setPositionSpeed mmPerSec => .setPosition mmPerSec
  | setJogSpeed mmPerSec => .setJog mmPerSec
  | relativeMove _ | absoluteMove _ => .startMove
  | startPositiveJog | startNegativeJog => .startJog
  | getMotor | goHome | wait _ | stopJog => .other

namespace LinearServoAdapter

def step (reply : Reply) (a : ServoAdapter) : LinearCall → ServoAdapter
  | .getMotor => a
  | .goHome => (goHome reply a).1
  | .wait ms => wait a ms
  | .stopJog => (stopJog reply a).1
  | .setPositionSpeed mmPerSec => (setPositionSpeed reply a mmPerSec).1
  | .setJogSpeed mmPerSec => (setJogSpeed a mmPerSec).1
  | .relativeMove mm => (relativeMove reply a mm).1
  | .absoluteMove targetMm => (absoluteMove reply a targetMm).1
  | .startPositiveJog => (startPositiveJog reply a).1
  | .startNegativeJog => (startNegativeJog reply a).1

/-- The last RPM handed to the motor of a new adapter by a sequence of calls. -/
def lastRPM (reply : Reply) (leadScrewPitchMmPerRev : ℚ) (calls : List LinearCall) : Option ℚ :=
  (calls.foldl (step reply) (new leadScrewPitchMmPerRev)).motor.lastRPM

theorem step_effect (reply : Reply) (a : ServoAdapter) (c : LinearCall) :
    a.Effect reply c.event (step reply a c) := by
  cases c <;> constructor

end LinearServoAdapter

/-! ## The rotary adapter -/

namespace RotaryServoAdapter

def new (degreesPerRevolution : ℚ) : ServoAdapter := .new degreesPerRevolution

def getMotor (a : ServoAdapter) : Motor := a.getMotor

def goHome (reply : Reply) (a : ServoAdapter) : ServoAdapter × Bool := a.goHome reply

def wait (a : ServoAdapter) (ms : Int) : ServoAdapter := a.wait ms

def stopJog (reply : Reply) (a : ServoAdapter) : ServoAdapter × Bool := a.stopJog reply

def setAngularPositionSpeed (reply : Reply) (a : ServoAdapter) (degreesPerSec : ℚ) :
    ServoAdapter × Bool :=
  a.setPositionSpeed reply degreesPerSec

def setAngularJogSpeed (a : ServoAdapter) (degreesPerSec : ℚ) : ServoAdapter × Bool :=
  a.setJogSpeed degreesPerSec

/-- A move by an angle is relative. -/
def angularMove (reply : Reply) (a : ServoAdapter) (degrees : ℚ) : ServoAdapter × Bool :=
  a.relativeMove reply degrees

def startPositiveAngularJog (reply : Reply) (a : ServoAdapter) : ServoAdapter × Bool :=
  a.startPositiveJog reply

def startNegativeAngularJog (reply : Reply) (a : ServoAdapter) : ServoAdapter × Bool :=
  a.startNegativeJog reply

end RotaryServoAdapter

/-- The calls on a rotary adapter. -/
inductive RotaryCall where
  | getMotor
  | goHome
  | wait (ms : Int)
  | stopJog
  | setAngularPositionSpeed (degreesPerSec : ℚ)
  | setAngularJogSpeed (degreesPerSec : ℚ)
  | angularMove (degrees : ℚ)
  | startPositiveAngularJog
  | startNegativeAngularJog
deriving DecidableEq, Repr

def RotaryCall.event : RotaryCall → SpeedEvent
  | setAngularPositionSpeed degreesPerSec => .setPosition degreesPerSec
  | setAngularJogSpeed degreesPerSec => .setJog degreesPerSec
  | angularMove _ => .startMove
  | startPositiveAngularJog | startNegativeAngularJog => .startJog
  | getMotor | goHome | wait _ | stopJog => .other

namespace RotaryServoAdapter

def step (reply : Reply) (a : ServoAdapter) : RotaryCall → ServoAdapter
  | .getMotor => a
  | .goHome => (goHome reply a).1
  | .wait ms => wait a ms
  | .stopJog => (stopJog reply a).1
  | .setAngularPositionSpeed degreesPerSec => (setAngularPositionSpeed reply a degreesPerSec).1
  | .setAngularJogSpeed degreesPerSec => (setAngularJogSpeed a degreesPerSec).1
  | .angularMove degrees => (angularMove reply a degrees).1
  | .startPositiveAngularJog => (startPositiveAngularJog reply a).1
  | .startNegativeAngularJog => (startNegativeAngularJog reply a).1

/-- The last RPM handed to the motor of a new adapter by a sequence of calls. -/
def lastRPM (reply : Reply) (degreesPerRevolution : ℚ) (calls : List RotaryCall) : Option ℚ :=
  (calls.foldl (step reply) (new degreesPerRevolution)).motor.lastRPM

theorem step_effect (reply : Reply) (a : ServoAdapter) (c : RotaryCall) :
    a.Effect reply c.event (step reply a c) := by
  cases c <;> constructor

end RotaryServoAdapter

/-! ## The two speeds -/

open ServoAdapter (toRPM toRPM_injective lastRPM_run)

/-- The run keeps the speeds of a linear adapter apart. -/
def LinearKeepsSpeeds (reply : Reply) (leadScrewPitchMmPerRev : ℚ) (run : List LinearCall) : Prop :=
  KeepsSpeedsApart LinearCall.event (toRPM leadScrewPitchMmPerRev)
    (LinearServoAdapter.lastRPM reply leadScrewPitchMmPerRev) run

/-- The run keeps the speeds of a rotary adapter apart. -/
def RotaryKeepsSpeeds (reply : Reply) (degreesPerRevolution : ℚ) (run : List RotaryCall) : Prop :=
  KeepsSpeedsApart RotaryCall.event (toRPM degreesPerRevolution)
    (RotaryServoAdapter.lastRPM reply degreesPerRevolution) run

/-- **The speeds are kept apart only when they are equal**: a run of either adapter starts every
motion at the speed chosen for it exactly when every jog that follows a jogging speed follows a
positioning speed of the same value. -/
theorem adapters_keepSpeedsApart_iff (reply : Reply) (perRevolution : ℚ)
    (hunit : perRevolution ≠ 0) :
    (∀ run, LinearKeepsSpeeds reply perRevolution run ↔
        JogsAtPositionSpeed LinearCall.event run) ∧
      ∀ run, RotaryKeepsSpeeds reply perRevolution run ↔
        JogsAtPositionSpeed RotaryCall.event run :=
  ⟨keepsSpeedsApart_iff _ (toRPM_injective hunit)
      (lastRPM_run (LinearServoAdapter.step_effect reply) perRevolution),
    keepsSpeedsApart_iff _ (toRPM_injective hunit)
      (lastRPM_run (RotaryServoAdapter.step_effect reply) perRevolution)⟩

theorem adapters_keepSpeedsApart_iff_five :
    (∀ run, LinearKeepsSpeeds (fun _ => true) 5 run ↔
        JogsAtPositionSpeed LinearCall.event run) ∧
      ∀ run, RotaryKeepsSpeeds (fun _ => true) 5 run ↔
        JogsAtPositionSpeed RotaryCall.event run :=
  adapters_keepSpeedsApart_iff (fun _ => true) 5 (by decide)

/-- A jog after a positioning speed of 5 mm/s and a jogging speed of 10 mm/s, at 5 mm a revolution,
runs at 60 RPM, the positioning speed, and not at 120. -/
theorem linear_jog_at_position_speed :
    LinearServoAdapter.lastRPM (fun _ => true) 5
        [.setPositionSpeed 5, .setJogSpeed 10, .startPositiveJog] = some 60 ∧
      ¬ LinearKeepsSpeeds (fun _ => true) 5
        [.setPositionSpeed 5, .setJogSpeed 10, .startPositiveJog] := by
  have hrun : LinearServoAdapter.lastRPM (fun _ => true) 5
      [.setPositionSpeed 5, .setJogSpeed 10, .startPositiveJog] = some 60 := by
    change some (toRPM 5 5) = some 60
    norm_num [toRPM]
  refine ⟨hrun, fun h => ?_⟩
  have hjog := (h [.setPositionSpeed 5, .setJogSpeed 10] .startPositiveJog
    (List.prefix_refl _)).jog rfl 10 rfl
  have hrpm := Option.some.inj (hrun.symm.trans hjog)
  norm_num [toRPM] at hrpm

end NoteNew.Servo
