import NoteNew.Dpcm.Runtime
import NoteNew.Iteration.Each

/-!
# The operations on the back ends

The loops over the back ends of one front end. The body of each is a definition of its own, which
says when the loop is left and with what.
-/

namespace NoteNew.Dpcm

open Iteration

variable {F B P : Type*} [DecidableEq F] [DecidableEq B]

/-! ## Opening and closing -/

/-- One back end of `dpcm_be_dai_stop`, which returns when it comes to `last`. -/
def dpcmBeDaiStopBody (e : Env F B P) (f : F) (doHwFree : Bool) (last : Option B) (dpcm : Link B)
    (s : Card F B P) : Option Unit × Card F B P :=
  let b := dpcm.be
  if some b = last then (some (), s)
  else if !sndSocDpcmBeCanUpdate s f b then (none, s)
  else if (s.be b).users = 0 then (none, s)
  else
    let s := s.modBe b fun x => { x with users := x.users - 1 }
    if (s.be b).users ≠ 0 then (none, s)
    else if (s.be b).state ≠ .opened ∧ !doHwFree then (none, s)
    else
      let s :=
        if (s.be b).state ≠ .opened ∧ (s.be b).state ≠ .hwFree then
          (call e (.be b .hwFree) s).2.modBe b fun x => { x with state := .hwFree }
        else s
      let s := (call e (.be b .close) s).2
      (none, s.modBe b fun x => { x with substreamRuntime := none, state := .close })

def dpcmBeDaiStop (e : Env F B P) (f : F) (doHwFree : Bool) (last : Option B)
    (s : Card F B P) : Card F B P :=
  (each (dpcmBeDaiStopBody e f doHwFree last) (s.fe f).beClients s).state

def dpcmBeDaiShutdown (e : Env F B P) (f : F) (s : Card F B P) : Card F B P :=
  dpcmBeDaiStop e f e.shutdownHwFree none s

def dpcmBeDaiStartupUnwind (e : Env F B P) (f : F) (s : Card F B P) : Card F B P :=
  dpcmBeDaiStop e f e.startupUnwindHwFree none s

def dpcmBeDaiStartupRollback (e : Env F B P) (f : F) (last : B) (s : Card F B P) : Card F B P :=
  dpcmBeDaiStop e f e.startupRollbackHwFree (some last) s

/-- One back end of `dpcm_be_dai_startup`, with the count of those opened. -/
def dpcmBeDaiStartupBody (e : Env F B P) (f : F) (dpcm : Link B) :
    Int × Card F B P → Option Int × Int × Card F B P
  | (count, s) =>
    let b := dpcm.be
    if !sndSocDpcmBeCanUpdate s f b then (none, count, s)
    else if (s.be b).users = DPCM_MAX_BE_USERS then (none, count, s)
    else
      let users := (s.be b).users
      let s := s.modBe b fun x => { x with users := x.users + 1 }
      if users ≠ 0 then (none, count, s)
      else if (s.be b).state ≠ .new ∧ (s.be b).state ≠ .close then (none, count, s)
      else
        let s := s.modBe b fun x => { x with substreamRuntime := x.runtime }
        let r := call e (.be b .opn) s
        if r.1 < 0 then
          (some r.1, count, r.2.modBe b fun x => { x with users := x.users - 1, state := .close })
        else (none, count + 1, r.2.modBe b fun x => { x with beStart := 0, state := .opened })

def dpcmBeDaiStartup (e : Env F B P) (f : F) (s : Card F B P) : Int × Card F B P :=
  let r := each (dpcmBeDaiStartupBody e f) (s.fe f).beClients (0, s)
  match r.left with
  | none => r.state
  | some (dpcm, err) => (err, dpcmBeDaiStartupRollback e f dpcm.be r.state.2)

/-! ## Configuring -/

/-- One back end of `dpcm_be_dai_hw_free`. -/
def dpcmBeDaiHwFreeBody (e : Env F B P) (f : F) (dpcm : Link B) (s : Card F B P) :
    Option Unit × Card F B P :=
  let b := dpcm.be
  if !sndSocDpcmBeCanUpdate s f b then (none, s)
  else if !sndSocDpcmCanBeFreeStop s f b then (none, s)
  else if (s.be b).users > 1 then (none, s)
  else if (s.be b).state ≠ .hwParams ∧ (s.be b).state ≠ .prepare ∧ (s.be b).state ≠ .hwFree ∧
      (s.be b).state ≠ .paused ∧ (s.be b).state ≠ .stop ∧ (s.be b).state ≠ .suspend then (none, s)
  else
    (none, (call e (.be b .hwFree) s).2.modBe b fun x => { x with state := .hwFree })

def dpcmBeDaiHwFree (e : Env F B P) (f : F) (s : Card F B P) : Card F B P :=
  (each (dpcmBeDaiHwFreeBody e f) (s.fe f).beClients s).state

/-- One back end of `dpcm_be_dai_hw_params`. -/
def dpcmBeDaiHwParamsBody (e : Env F B P) (f : F) (dpcm : Link B) (s : Card F B P) :
    Option Int × Card F B P :=
  let b := dpcm.be
  if !sndSocDpcmBeCanUpdate s f b then (none, s)
  else
    let fixup := e.beHwParamsFixup b (s.fe f).hwParams
    if fixup.1 < 0 then (some fixup.1, s)
    else
      let s := s.modBe b fun x => { x with hwParams := fixup.2 }
      if !sndSocDpcmCanBeParams s f b then (none, s)
      else if (s.be b).state ≠ .opened ∧ (s.be b).state ≠ .hwParams ∧
          (s.be b).state ≠ .hwFree then (none, s)
      else
        let r := call e (.be b (.hwParams fixup.2)) s
        if r.1 < 0 then (some r.1, r.2)
        else (none, r.2.modBe b fun x => { x with state := .hwParams })

/-- One back end of the rollback in `dpcm_be_dai_hw_params`. Its state stays. -/
def dpcmBeDaiHwParamsUnwindBody (e : Env F B P) (f : F) (dpcm : Link B) (s : Card F B P) :
    Option Unit × Card F B P :=
  let b := dpcm.be
  if !sndSocDpcmBeCanUpdate s f b then (none, s)
  else if !sndSocDpcmCanBeFreeStop s f b then (none, s)
  else if (s.be b).state ≠ .opened ∧ (s.be b).state ≠ .hwParams ∧ (s.be b).state ≠ .hwFree ∧
      (s.be b).state ≠ .stop then (none, s)
  else (none, (call e (.be b .hwFree) s).2)

/-- The rollback goes backwards, from the back end in front of the one that failed. -/
def dpcmBeDaiHwParams (e : Env F B P) (f : F) (s : Card F B P) : Int × Card F B P :=
  let r := each (dpcmBeDaiHwParamsBody e f) (s.fe f).beClients s
  match r.left with
  | none => (0, r.state)
  | some (_, ret) => (ret, (each (dpcmBeDaiHwParamsUnwindBody e f) r.visited r.state).state)

/-- One back end of `dpcm_be_dai_prepare`, with the return code so far. -/
def dpcmBeDaiPrepareBody (e : Env F B P) (f : F) (dpcm : Link B) :
    Int × Card F B P → Option Unit × Int × Card F B P
  | (ret, s) =>
    let b := dpcm.be
    if !sndSocDpcmBeCanUpdate s f b then (none, ret, s)
    else if !sndSocDpcmCanBePrepared s f b then (none, ret, s)
    else if (s.be b).state ≠ .hwParams ∧ (s.be b).state ≠ .stop ∧ (s.be b).state ≠ .suspend ∧
        (s.be b).state ≠ .paused then (none, ret, s)
    else
      let r := call e (.be b .prepare) s
      if r.1 < 0 then (some (), r.1, r.2)
      else (none, r.1, r.2.modBe b fun x => { x with state := .prepare })

def dpcmBeDaiPrepare (e : Env F B P) (f : F) (s : Card F B P) : Int × Card F B P :=
  (each (dpcmBeDaiPrepareBody e f) (s.fe f).beClients (0, s)).state

/-! ## Triggering -/

/-- `soc_pcm_trigger` on a back end, and what follows where it fails and where it succeeds. -/
def beTry (e : Env F B P) (b : B) (cmd : TriggerCmd) (failed done : Card F B P → Card F B P)
    (s : Card F B P) : Int × Card F B P :=
  let r := call e (.be b (.trigger cmd)) s
  if r.1 ≠ 0 then (r.1, failed r.2) else (0, done r.2)

/-- The back end has one more front end running, and is triggered if that is the first. -/
def beStartOne (e : Env F B P) (b : B) (cmd : TriggerCmd) (s : Card F B P) : Int × Card F B P :=
  let s := s.modBe b fun x => { x with beStart := x.beStart + 1 }
  if (s.be b).beStart ≠ 1 then (0, s)
  else
    beTry e b cmd (fun s => s.modBe b fun x => { x with beStart := x.beStart - 1 })
      (fun s => s.modBe b fun x => { x with state := .start }) s

/-- The back end has one front end less running, and is triggered if that was the last. -/
def beStopOne (e : Env F B P) (b : B) (cmd : TriggerCmd) (state : DpcmState) (s : Card F B P) :
    Int × Card F B P :=
  let s := s.modBe b fun x => { x with beStart := x.beStart - 1 }
  if (s.be b).beStart ≠ 0 then (0, s)
  else
    beTry e b cmd (fun s => s.modBe b fun x => { x with beStart := x.beStart + 1 })
      (fun s => s.modBe b fun x => { x with state := state }) s

/-- The end of `SNDRV_PCM_TRIGGER_STOP`, with no front end running: the back end pauses if one of
its front ends is paused, and stops otherwise. -/
def beTriggerStopLast (e : Env F B P) (f : F) (b : B) (s : Card F B P) : Int × Card F B P :=
  let pauseStopTransition := (s.fe f).fePause
  let s :=
    if pauseStopTransition then
      (s.modFe f fun x => { x with fePause := false }).modBe b
        fun x => { x with bePause := x.bePause - 1 }
    else s
  let failed := fun s : Card F B P =>
    let s := s.modBe b fun x =>
      if x.state = .start then { x with beStart := x.beStart + 1 } else x
    if pauseStopTransition then
      (s.modFe f fun x => { x with fePause := true }).modBe b
        fun x => { x with bePause := x.bePause + 1 }
    else s
  if (s.be b).bePause ≠ 0 then
    beTry e b .pausePush failed (fun s => s.modBe b fun x => { x with state := .paused }) s
  else beTry e b .stop failed (fun s => s.modBe b fun x => { x with state := .stop }) s

/-- `SNDRV_PCM_TRIGGER_STOP` in `dpcm_be_dai_trigger`. -/
def beTriggerStop (e : Env F B P) (f : F) (b : B) (s : Card F B P) : Int × Card F B P :=
  if (s.be b).state ≠ .start ∧ (s.be b).state ≠ .paused then (0, s)
  else
    let s := s.modBe b fun x =>
      if x.state = .start then { x with beStart := x.beStart - 1 } else x
    if (s.be b).beStart ≠ 0 then (0, s)
    else beTriggerStopLast e f b s

/-- The `switch` of `dpcm_be_dai_trigger`. -/
def beTrigger (e : Env F B P) (f : F) (b : B) (cmd : TriggerCmd) (s : Card F B P) :
    Int × Card F B P :=
  match cmd with
  | .start =>
    if (s.be b).beStart = 0 ∧ (s.be b).state ≠ .prepare ∧ (s.be b).state ≠ .stop ∧
        (s.be b).state ≠ .paused then (0, s)
    else beStartOne e b (if (s.be b).state = .paused then .pauseRelease else .start) s
  | .resume =>
    if (s.be b).state ≠ .suspend then (0, s)
    else beStartOne e b .resume s
  | .pauseRelease =>
    if (s.be b).beStart = 0 ∧ (s.be b).state ≠ .start ∧ (s.be b).state ≠ .paused then (0, s)
    else
      beStartOne e b .pauseRelease
        ((s.modFe f fun x => { x with fePause := false }).modBe b
          fun x => { x with bePause := x.bePause - 1 })
  | .stop => beTriggerStop e f b s
  | .suspend =>
    if (s.be b).state ≠ .start then (0, s)
    else beStopOne e b .suspend .suspend s
  | .pausePush =>
    if (s.be b).state ≠ .start then (0, s)
    else
      beStopOne e b .pausePush .paused
        ((s.modFe f fun x => { x with fePause := true }).modBe b
          fun x => { x with bePause := x.bePause + 1 })
  | .drain => (0, s)

/-- One back end of `dpcm_be_dai_trigger`, which stops at the first one that fails. -/
def dpcmBeDaiTriggerBody (e : Env F B P) (f : F) (cmd : TriggerCmd) (dpcm : Link B)
    (s : Card F B P) : Option Int × Card F B P :=
  let b := dpcm.be
  if !sndSocDpcmBeCanUpdate s f b then (none, s)
  else
    let r := beTrigger e f b cmd s
    (if r.1 ≠ 0 then some r.1 else none, r.2)

def dpcmBeDaiTrigger (e : Env F B P) (f : F) (cmd : TriggerCmd) (s : Card F B P) :
    Int × Card F B P :=
  let r := each (dpcmBeDaiTriggerBody e f cmd) (s.fe f).beClients s
  match r.left with
  | none => (0, r.state)
  | some (_, ret) => (ret, r.state)

end NoteNew.Dpcm
