import NoteNew.Dpcm.Runtime

/-!
# What a driver may be asked

The phases a PCM driver goes through and the calls each phase allows: it is opened first, configured
while it is idle, started only when idle, resumed only when suspended, and asked for nothing between
its closing and its next opening. Freed while it runs, it can only be closed. `driverPhase` replays
the calls a driver has answered.
-/

namespace NoteNew.Dpcm

variable {F B P : Type*}

inductive DriverPhase where
  | closed
  | idle
  | running
  | paused
  | suspended
  | halted
deriving DecidableEq, Repr

/-- The phase a trigger leads to where it is allowed. -/
def DriverPhase.triggered : DriverPhase → TriggerCmd → Option DriverPhase
  | .idle, .start => some .running
  | .paused, .pauseRelease => some .running
  | .suspended, .resume => some .running
  | .running, .stop | .paused, .stop => some .idle
  | .running, .pausePush | .paused, .pausePush => some .paused
  | .running, .suspend => some .suspended
  | _, _ => none

/-- The phase behind a call, from what was answered to it; `none` if the call is not allowed. -/
def DriverPhase.next : DriverPhase → PcmOp P → Int → Option DriverPhase
  | .closed, .opn, ret => some (if ret < 0 then .closed else .idle)
  | .closed, _, _ => none
  | .halted, .close, _ => some .closed
  | .halted, _, _ => none
  | _, .opn, _ => none
  | .idle, .hwParams _, _ => some .idle
  | _, .hwParams _, _ => none
  | .running, .prepare, _ => none
  | ph, .prepare, ret => some (if ret < 0 then ph else .idle)
  | ph, .trigger cmd, ret => (ph.triggered cmd).map fun ph' => if ret = 0 then ph' else ph
  | .running, .hwFree, _ => some .halted
  | _, .hwFree, _ => some .idle
  | _, .close, _ => some .closed

/-- The phase of a driver behind the calls made to it, the latest first, with what it answered. -/
def driverPhase : List (PcmOp P × Int) → Option DriverPhase
  | [] => some .closed
  | (op, ret) :: past => (driverPhase past).bind fun ph => ph.next op ret

/-- The phase that a state of a back end stands for. -/
def DpcmState.phase : DpcmState → DriverPhase
  | .new | .close => .closed
  | .opened | .hwParams | .prepare | .stop | .hwFree => .idle
  | .start => .running
  | .paused => .paused
  | .suspend => .suspended

/-- The calls to the driver of a back end, the latest first, with what was answered. -/
def history [DecidableEq B] (e : Env F B P) (b : B) : List (Call F B P) → List (PcmOp P × Int)
  | [] => []
  | .be b' op :: past =>
    if b' = b then (op, e.reply (.be b' op :: past)) :: history e b past else history e b past
  | _ :: past => history e b past

end NoteNew.Dpcm
