import NoteNew.Dpcm.BackEnds

/-!
# The operations on the front ends

What the PCM core calls for a front end, and the update that follows a change of the audio routes.
`step` is one of them and `run` any number in any order, one after another: no trigger comes in
while another operation is at work, so in a run no command is left pending. The paths the audio
routes give, as a list of the back ends they end at, are an argument.
-/

namespace NoteNew.Dpcm

open Iteration

variable {F B P : Type*} [DecidableEq F] [DecidableEq B]

/-! ## Triggering -/

def dpcmDaiTriggerFeBe (e : Env F B P) (f : F) (cmd : TriggerCmd) (feFirst : Bool)
    (s : Card F B P) : Int × Card F B P :=
  if feFirst then
    let r := call e (.fe f (.trigger cmd)) s
    if r.1 < 0 then r else dpcmBeDaiTrigger e f cmd r.2
  else
    let r := dpcmBeDaiTrigger e f cmd s
    if r.1 < 0 then r else call e (.fe f (.trigger cmd)) r.2

/-- Whether a command starts the stream, so that with `pre` the front end comes first. -/
def TriggerCmd.starts : TriggerCmd → Bool
  | .start | .resume | .pauseRelease | .drain => true
  | .stop | .suspend | .pausePush => false

/-- The state of a front end behind a command. -/
def TriggerCmd.feState : TriggerCmd → DpcmState → DpcmState
  | .start, _ | .resume, _ | .pauseRelease, _ => .start
  | .stop, _ | .suspend, _ => .stop
  | .pausePush, _ => .paused
  | .drain, state => state

/-- The `switch` over the order of a front end and its back ends. -/
def dpcmFeDaiTriggerOrder (e : Env F B P) (f : F) (cmd : TriggerCmd) (s : Card F B P) :
    Int × Card F B P :=
  match e.trigger f with
  | .pre => dpcmDaiTriggerFeBe e f cmd cmd.starts s
  | .post => dpcmDaiTriggerFeBe e f cmd (!cmd.starts) s
  | .bespoke => call e (.bespokeTrigger f cmd) s

def dpcmFeDaiDoTrigger (e : Env F B P) (f : F) (cmd : TriggerCmd) (s : Card F B P) :
    Int × Card F B P :=
  let r := dpcmFeDaiTriggerOrder e f cmd (s.modFe f fun x => { x with runtimeUpdate := .fe })
  let s := if r.1 < 0 then r.2 else r.2.modFe f fun x => { x with state := cmd.feState x.state }
  (r.1, s.modFe f fun x => { x with runtimeUpdate := .no })

/-- A command that comes while another operation is at work waits for its end. -/
def dpcmFeDaiTrigger (e : Env F B P) (f : F) (cmd : TriggerCmd) (s : Card F B P) :
    Int × Card F B P :=
  if (s.fe f).runtimeUpdate ≠ .no then
    (0, s.modFe f fun x => { x with triggerPending := some cmd })
  else dpcmFeDaiDoTrigger e f cmd s

/-- The end of an operation runs the command that waits. -/
def dpcmSetFeUpdateState (e : Env F B P) (f : F) (update : DpcmUpdate) (s : Card F B P) :
    Card F B P :=
  let s :=
    match update, (s.fe f).triggerPending with
    | .no, some cmd =>
      (dpcmFeDaiDoTrigger e f cmd s).2.modFe f fun x => { x with triggerPending := none }
    | _, _ => s
  s.modFe f fun x => { x with runtimeUpdate := update }

/-! ## Links -/

def dpcmBeConnect (e : Env F B P) (f : F) (b : B) (s : Card F B P) : Int × Card F B P :=
  if (s.fe f).beClients.any fun dpcm => dpcm.be == b then (0, s)
  else if !e.feNonatomic f && (s.be b).nonatomic then (-EINVAL, s)
  else
    let s := s.modBe b fun x =>
      if e.feNonatomic f && !x.nonatomic then { x with nonatomic := true } else x
    let dpcm := call e (.kzalloc f b) s
    if dpcm.1 < 0 then (-ENOMEM, dpcm.2)
    else
      let s := dpcm.2.modBe b fun x =>
        { x with runtime := (s.fe f).runtime, feClients := f :: x.feClients }
      (1, s.modFe f fun x => { x with beClients := ⟨b, .new⟩ :: x.beClients })

/-- The substream of a back end that stays in use gets the runtime of another front end. -/
def dpcmBeReparent (f : F) (b : B) (s : Card F B P) : Card F B P :=
  if (s.be b).users = 0 then s
  else
    match (s.be b).feClients.find? fun g => g != f with
    | none => s
    | some g => s.modBe b fun x => { x with substreamRuntime := some g }

/-- One link of `dpcm_be_disconnect`. -/
def dpcmBeDisconnectBody (f : F) (dpcm : Link B) (s : Card F B P) : Card F B P :=
  if dpcm.state ≠ .free then s
  else
    let s := dpcmBeReparent f dpcm.be s
    let s := s.modFe f fun x =>
      { x with beClients := x.beClients.filter fun d => d.be != dpcm.be }
    s.modBe dpcm.be fun x => { x with feClients := x.feClients.filter fun g => g != f }

def dpcmBeDisconnect (f : F) (s : Card F B P) : Card F B P :=
  (s.fe f).beClients.foldl (fun s dpcm => dpcmBeDisconnectBody f dpcm s) s

/-- One path of `dpcm_add_paths`, with the count of the new links. -/
def dpcmAddPathsBody (e : Env F B P) (f : F) (b : B) :
    Int × Card F B P → Option Unit × Int × Card F B P
  | (new, s) =>
    if e.componentChaining ∧ (s.be b).state ≠ .new ∧ (s.be b).state ≠ .close then (none, new, s)
    else
      let r := dpcmBeConnect e f b s
      if r.1 < 0 then (some (), new, r.2)
      else if r.1 = 0 then (none, new, r.2)
      else (none, new + 1, dpcmSetBeUpdateState b .be r.2)

def dpcmAddPaths (e : Env F B P) (f : F) (list : List B) (s : Card F B P) : Int × Card F B P :=
  if (s.fe f).runtime = none then (0, s)
  else (each (dpcmAddPathsBody e f) list (0, s)).state

/-- One link of `dpcm_prune_paths`. -/
def dpcmPrunePathsBody (f : F) (list : List B) (dpcm : Link B) :
    Int × Card F B P → Int × Card F B P
  | (prune, s) =>
    if dpcm.be ∈ list then (prune, s)
    else
      let s := s.modFe f fun x =>
        { x with
          beClients := x.beClients.map fun d =>
            if d.be = dpcm.be then { d with state := .free } else d }
      (prune + 1, dpcmSetBeUpdateState dpcm.be .be s)

def dpcmPrunePaths (f : F) (list : List B) (s : Card F B P) : Int × Card F B P :=
  (s.fe f).beClients.foldl (fun r dpcm => dpcmPrunePathsBody f list dpcm r) (0, s)

def dpcmProcessPaths (e : Env F B P) (f : F) (list : List B) (new : Bool) (s : Card F B P) :
    Int × Card F B P :=
  if new then dpcmAddPaths e f list s else dpcmPrunePaths f list s

def dpcmClearPendingState (f : F) (s : Card F B P) : Card F B P :=
  (s.fe f).beClients.foldl (fun s dpcm => dpcmSetBeUpdateState dpcm.be .no s) s

/-! ## Opening and closing -/

def dpcmFeDaiStartup (e : Env F B P) (f : F) (s : Card F B P) : Int × Card F B P :=
  let s := dpcmSetFeUpdateState e f .fe s
  let r := dpcmBeDaiStartup e f s
  if r.1 < 0 then (r.1, dpcmSetFeUpdateState e f .no r.2)
  else
    let r := call e (.fe f .opn) r.2
    if r.1 < 0 then (r.1, dpcmSetFeUpdateState e f .no (dpcmBeDaiStartupUnwind e f r.2))
    else
      let s := r.2.modFe f fun x => { x with state := .opened }
      let r := call e (.applySymmetry f) s
      let s := if r.1 < 0 then dpcmBeDaiStartupUnwind e f r.2 else r.2
      (r.1, dpcmSetFeUpdateState e f .no s)

def dpcmFeDaiShutdown (e : Env F B P) (f : F) (s : Card F B P) : Int × Card F B P :=
  let s := dpcmSetFeUpdateState e f .fe s
  let s := dpcmBeDaiShutdown e f s
  let s := (call e (.fe f .close) s).2
  let s := s.modFe f fun x => { x with state := .close }
  (0, dpcmSetFeUpdateState e f .no s)

def dpcmFeDaiCleanup (f : F) (s : Card F B P) : Card F B P :=
  let s := s.modFe f fun x =>
    { x with beClients := x.beClients.map fun d => { d with state := .free } }
  let s := dpcmBeDisconnect f s
  s.modFe f fun x => { x with runtime := none }

def dpcmFeDaiClose (e : Env F B P) (f : F) (s : Card F B P) : Int × Card F B P :=
  let r := dpcmFeDaiShutdown e f s
  (r.1, dpcmFeDaiCleanup f r.2)

/-- `paths` is what `dpcm_path_get` returns, with the back ends it finds. -/
def dpcmFeDaiOpen (e : Env F B P) (f : F) (paths : Int) (list : List B) (s : Card F B P) :
    Int × Card F B P :=
  let s := s.modFe f fun x => { x with runtime := some f }
  if paths < 0 then (paths, s)
  else
    let s := (dpcmProcessPaths e f list true s).2
    let r := dpcmFeDaiStartup e f s
    let s := if r.1 < 0 then dpcmFeDaiCleanup f r.2 else r.2
    (r.1, dpcmClearPendingState f s)

/-! ## Configuring -/

def dpcmFeDaiHwFree (e : Env F B P) (f : F) (s : Card F B P) : Int × Card F B P :=
  let s := dpcmSetFeUpdateState e f .fe s
  let s := (call e (.fe f .hwFree) s).2
  let s := dpcmBeDaiHwFree e f s
  let s := s.modFe f fun x => { x with state := .hwFree }
  (0, dpcmSetFeUpdateState e f .no s)

def dpcmFeDaiHwParams (e : Env F B P) (f : F) (params : P) (s : Card F B P) : Int × Card F B P :=
  let s := dpcmSetFeUpdateState e f .fe s
  let s := s.modFe f fun x => { x with hwParams := params }
  let r := dpcmBeDaiHwParams e f s
  if r.1 < 0 then (r.1, dpcmSetFeUpdateState e f .no r.2)
  else
    let r := call e (.fe f (.hwParams params)) r.2
    let s :=
      if r.1 < 0 then dpcmBeDaiHwFree e f r.2
      else r.2.modFe f fun x => { x with state := .hwParams }
    (r.1, dpcmSetFeUpdateState e f .no s)

def dpcmFeDaiPrepare (e : Env F B P) (f : F) (s : Card F B P) : Int × Card F B P :=
  let s := dpcmSetFeUpdateState e f .fe s
  if (s.fe f).beClients = [] then (-EINVAL, dpcmSetFeUpdateState e f .no s)
  else
    let r := dpcmBeDaiPrepare e f s
    if r.1 < 0 then (r.1, dpcmSetFeUpdateState e f .no r.2)
    else
      let r := call e (.fe f .prepare) r.2
      let s := if r.1 < 0 then r.2 else r.2.modFe f fun x => { x with state := .prepare }
      (r.1, dpcmSetFeUpdateState e f .no s)

/-! ## Updating the links -/

def dpcmRunUpdateShutdown (e : Env F B P) (f : F) (s : Card F B P) : Int × Card F B P :=
  let r :=
    if e.trigger f = .bespoke then call e (.bespokeTrigger f .stop) s
    else dpcmBeDaiTrigger e f .stop s
  let s := dpcmBeDaiHwFree e f r.2
  (r.1, dpcmBeDaiShutdown e f s)

/-- The links to back ends that are not open are marked. -/
def dpcmRunUpdateDisconnect (f : F) (s : Card F B P) : Card F B P :=
  s.modFe f fun x =>
    { x with
      beClients := x.beClients.map fun d =>
        if sndSocDpcmBeCanUpdate s f d.be ∧
            ((s.be d.be).state = .close ∨ (s.be d.be).state = .new) then { d with state := .free }
        else d }

def dpcmRunUpdateStartup (e : Env F B P) (f : F) (s : Card F B P) : Int × Card F B P :=
  if (s.fe f).state = .hwFree ∨ (s.fe f).state = .close then
    (-EINVAL, dpcmRunUpdateDisconnect f s)
  else
    let r := dpcmBeDaiStartup e f s
    if r.1 < 0 then (r.1, dpcmRunUpdateDisconnect f r.2)
    else if (r.2.fe f).state = .opened then (0, r.2)
    else
      let r := dpcmBeDaiHwParams e f r.2
      if r.1 < 0 then (r.1, dpcmRunUpdateDisconnect f (dpcmBeDaiShutdown e f r.2))
      else if (r.2.fe f).state = .hwParams then (0, r.2)
      else
        let r := dpcmBeDaiPrepare e f r.2
        if r.1 < 0 then
          (r.1, dpcmRunUpdateDisconnect f (dpcmBeDaiShutdown e f (dpcmBeDaiHwFree e f r.2)))
        else if (r.2.fe f).state = .prepare ∨ (r.2.fe f).state = .stop then (0, r.2)
        else
          let r :=
            if e.trigger f = .bespoke then call e (.bespokeTrigger f .start) r.2
            else dpcmBeDaiTrigger e f .start r.2
          if r.1 < 0 then
            (r.1, dpcmRunUpdateDisconnect f (dpcmBeDaiShutdown e f (dpcmBeDaiHwFree e f r.2)))
          else (0, r.2)

/-- The update of a front end that is active, from `paths` and the back ends found. -/
def socDpcmFeRuntimeUpdate (e : Env F B P) (f : F) (new : Bool) (paths : Int) (list : List B)
    (s : Card F B P) : Int × Card F B P :=
  if paths < 0 then (paths, s)
  else
    let r := dpcmProcessPaths e f list new s
    if r.1 = 0 then (0, r.2)
    else
      let s := dpcmSetFeUpdateState e f .be r.2
      let s := if new then (dpcmRunUpdateStartup e f s).2 else (dpcmRunUpdateShutdown e f s).2
      let s := dpcmSetFeUpdateState e f .no s
      let s := dpcmClearPendingState f s
      (0, dpcmBeDisconnect f s)

/-! ## Runs -/

/-- The operations the rest of the sound system calls. -/
inductive Op (F B P : Type*) where
  | opn (f : F) (paths : Int) (list : List B)
  | close (f : F)
  | hwParams (f : F) (params : P)
  | hwFree (f : F)
  | prepare (f : F)
  | trigger (f : F) (cmd : TriggerCmd)
  | runtimeUpdate (f : F) (new : Bool) (paths : Int) (list : List B)

def step (e : Env F B P) (s : Card F B P) : Op F B P → Int × Card F B P
  | .opn f paths list => dpcmFeDaiOpen e f paths list s
  | .close f => dpcmFeDaiClose e f s
  | .hwParams f params => dpcmFeDaiHwParams e f params s
  | .hwFree f => dpcmFeDaiHwFree e f s
  | .prepare f => dpcmFeDaiPrepare e f s
  | .trigger f cmd => dpcmFeDaiTrigger e f cmd s
  | .runtimeUpdate f new paths list => socDpcmFeRuntimeUpdate e f new paths list s

/-- The card behind a run of operations. -/
def run (e : Env F B P) (s : Card F B P) (ops : List (Op F B P)) : Card F B P :=
  ops.foldl (fun s op => (step e s op).2) s

/-- Every operation of the run is legal where it is called, with what it returns. -/
def Legal (e : Env F B P) (legal : Card F B P → Op F B P → Int → Prop) :
    Card F B P → List (Op F B P) → Prop
  | _, [] => True
  | s, op :: ops => legal s op (step e s op).1 ∧ Legal e legal (step e s op).2 ops

instance Legal.decidable (e : Env F B P) (legal : Card F B P → Op F B P → Int → Prop)
    [∀ s op ret, Decidable (legal s op ret)] :
    ∀ s ops, Decidable (Legal e legal s ops)
  | _, [] => inferInstanceAs (Decidable True)
  | s, op :: ops =>
    have := Legal.decidable e legal (step e s op).2 ops
    inferInstanceAs (Decidable (legal s op _ ∧ Legal e legal _ ops))

/-- What every legal operation keeps, a legal run keeps. -/
theorem Legal.keeps {e : Env F B P} {legal : Card F B P → Op F B P → Int → Prop}
    {I : Card F B P → Prop} {s : Card F B P} {ops : List (Op F B P)} (h : Legal e legal s ops)
    (hs : I s) (hstep : ∀ s op, I s → legal s op (step e s op).1 → I (step e s op).2) :
    I (run e s ops) := by
  induction ops generalizing s with
  | nil => exact hs
  | cons op ops ih => exact ih h.2 (hstep s op hs h.1)

/-- Drivers that do what they are asked, for front ends that come after their back ends. -/
def Env.obliging : Env F B P where
  reply _ := 0
  beHwParamsFixup _ params := (0, params)
  trigger _ := .post
  feNonatomic _ := false
  componentChaining := false
  shutdownHwFree := true
  startupUnwindHwFree := false
  startupRollbackHwFree := false

end NoteNew.Dpcm
