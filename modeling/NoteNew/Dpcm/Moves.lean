import Mathlib.Logic.Relation
import NoteNew.Dpcm.Driver
import NoteNew.Dpcm.FrontEnds

/-!
# The moves of a back end

Every operation leads each back end through moves of `BeMove`: what one visit of a loop does to its
count of users, its state and `be_start`, with the calls it makes and what they answer. The moves
hold for any order of operations and any replies, so they are what an invariant of a back end by
itself is proved from.
-/

namespace NoteNew.Dpcm

open Iteration Relation

set_option linter.unusedSectionVars false

variable {F B P : Type*} [DecidableEq F] [DecidableEq B]

/-- The fields of a back end that decide what its driver is asked. -/
structure BeCore where
  users : Int
  state : DpcmState
  beStart : Int

def BeRuntime.core (x : BeRuntime F P) : BeCore :=
  ⟨x.users, x.state, x.beStart⟩

/-- Open, or as `dpcm_be_dai_startup` finds it not to be opened. -/
def BeCore.isOpen (c : BeCore) : Prop :=
  c.state ≠ .new ∧ c.state ≠ .close

/-- The commands that start a back end, and the states they are sent in. -/
inductive UpFrom : TriggerCmd → DpcmState → Prop where
  | prepared : UpFrom .start .prepare
  | stopped : UpFrom .start .stop
  | paused : UpFrom .pauseRelease .paused
  | running : UpFrom .pauseRelease .start
  | suspended : UpFrom .resume .suspend

/-- The commands that stop a back end, and the states they lead to. -/
inductive DownTo : TriggerCmd → DpcmState → Prop where
  | stop : DownTo .stop .stop
  | pausePush : DownTo .pausePush .paused
  | suspend : DownTo .suspend .suspend

/-- The back ends that are sent such a command: those with one front end running, and the paused
ones that the last front end leaves. -/
inductive DownFrom : BeCore → TriggerCmd → Prop where
  | running {c cmd} (hc : c.state = .start) (h : c.beStart = 1) : DownFrom c cmd
  | paused {c cmd} (hc : c.state = .paused) (h : c.beStart = 0) (hcmd : cmd ≠ .suspend) :
      DownFrom c cmd

/-- One visit of a back end, with the calls made, the latest first. -/
inductive BeMove : BeCore → List (PcmOp P × Int) → BeCore → Prop where
  | join {c} (h : c.users ≠ 0 ∨ c.isOpen) : BeMove c [] { c with users := c.users + 1 }
  | leave {c} (h : c.users ≠ 0) : BeMove c [] { c with users := c.users - 1 }
  | openFail {c ret} (hu : c.users = 0) (hc : ¬ c.isOpen) (hret : ret < 0) :
      BeMove c [(.opn, ret)] { c with state := .close }
  | opn {c ret} (hu : c.users = 0) (hc : ¬ c.isOpen) (hret : ¬ ret < 0) :
      BeMove c [(.opn, ret)] ⟨1, .opened, 0⟩
  | close {c ret} (hu : c.users = 1) (hc : c.state = .opened ∨ c.state = .hwFree) :
      BeMove c [(.close, ret)] ⟨0, .close, c.beStart⟩
  | freeClose {c ret ret'} (hu : c.users = 1) (ho : c.state ≠ .opened) (hf : c.state ≠ .hwFree) :
      BeMove c [(.close, ret'), (.hwFree, ret)] ⟨0, .close, c.beStart⟩
  | hwFree {c ret} (hc : c.state ∈ [.hwParams, .prepare, .hwFree, .paused, .stop, .suspend]) :
      BeMove c [(.hwFree, ret)] { c with state := .hwFree }
  | hwParamsFail {c p ret} (hc : c.state ∈ [.opened, .hwParams, .hwFree]) :
      BeMove c [(.hwParams p, ret)] c
  | hwParams {c p ret} (hc : c.state ∈ [.opened, .hwParams, .hwFree]) :
      BeMove c [(.hwParams p, ret)] { c with state := .hwParams }
  | unwind {c ret} (hc : c.state ∈ [.opened, .hwParams, .hwFree, .stop]) :
      BeMove c [(.hwFree, ret)] c
  | prepareFail {c ret} (hc : c.state ∈ [.hwParams, .stop, .suspend, .paused]) (hret : ret < 0) :
      BeMove c [(.prepare, ret)] c
  | prepare {c ret} (hc : c.state ∈ [.hwParams, .stop, .suspend, .paused]) (hret : ¬ ret < 0) :
      BeMove c [(.prepare, ret)] { c with state := .prepare }
  | countUp {c} (h : c.beStart ≠ 0) : BeMove c [] { c with beStart := c.beStart + 1 }
  | countDown {c} (hc : c.state = .start) (h : c.beStart - 1 ≠ 0) :
      BeMove c [] { c with beStart := c.beStart - 1 }
  | upFail {c cmd ret} (h : c.beStart = 0) (hc : UpFrom cmd c.state) (hret : ret ≠ 0) :
      BeMove c [(.trigger cmd, ret)] c
  | up {c cmd} (h : c.beStart = 0) (hc : UpFrom cmd c.state) :
      BeMove c [(.trigger cmd, 0)] ⟨c.users, .start, 1⟩
  | downFail {c cmd state ret} (h : DownFrom c cmd) (hc : DownTo cmd state) (hret : ret ≠ 0) :
      BeMove c [(.trigger cmd, ret)] c
  | down {c cmd state} (h : DownFrom c cmd) (hc : DownTo cmd state) :
      BeMove c [(.trigger cmd, 0)] ⟨c.users, state, 0⟩

/-- A back end as its driver sees it. -/
def view (e : Env F B P) (b : B) (s : Card F B P) : BeCore × List (PcmOp P × Int) :=
  ((s.be b).core, history e b s.calls)

def BeStep (v v' : BeCore × List (PcmOp P × Int)) : Prop :=
  ∃ ops, BeMove v.1 ops v'.1 ∧ v'.2 = ops ++ v.2

/-- Every back end has only made moves. -/
def Moves (e : Env F B P) (s s' : Card F B P) : Prop :=
  ∀ b, ReflTransGen BeStep (view e b s) (view e b s')

variable {e : Env F B P} {s s' s'' : Card F B P} {f : F} {b b' : B}

theorem Moves.refl : Moves e s s := fun _ => .refl

theorem Moves.trans (h : Moves e s s') (h' : Moves e s' s'') : Moves e s s'' :=
  fun b => (h b).trans (h' b)

theorem history_be_self (op : PcmOp P) (past : List (Call F B P)) :
    history e b (.be b op :: past) = (op, e.reply (.be b op :: past)) :: history e b past := by
  rw [history, if_pos rfl]

theorem history_be_of_ne (hne : b' ≠ b) (op : PcmOp P) (past : List (Call F B P)) :
    history e b' (.be b op :: past) = history e b' past := by
  rw [history, if_neg hne.symm]

/-! ## One move -/

/-- Nothing that the moves are about has changed. -/
theorem moves_of_core (hcalls : ∀ b, history e b s'.calls = history e b s.calls)
    (hcore : ∀ b, (s'.be b).core = (s.be b).core) : Moves e s s' := by
  intro b
  rw [view, view, hcalls b, hcore b]

/-- A back end has changed without a call. -/
theorem moves_of_quiet (b : B) (hcalls : s'.calls = s.calls) (hne : ∀ b' ≠ b, s'.be b' = s.be b')
    (hmove : BeMove (P := P) (s.be b).core [] (s'.be b).core) : Moves e s s' := by
  intro b'
  by_cases hb : b' = b
  · subst hb
    exact .single ⟨[], hmove, by rw [view, view, hcalls]; rfl⟩
  · rw [view, view, hcalls, hne b' hb]

/-- A back end has changed, and its driver was called once. -/
theorem moves_of_call (b : B) (op : PcmOp P) (hcalls : s'.calls = .be b op :: s.calls)
    (hne : ∀ b' ≠ b, s'.be b' = s.be b')
    (hmove : BeMove (s.be b).core [(op, e.reply (.be b op :: s.calls))] (s'.be b).core) :
    Moves e s s' := by
  intro b'
  by_cases hb : b' = b
  · subst hb
    exact .single ⟨_, hmove, by rw [view, view, hcalls, history_be_self]; rfl⟩
  · rw [view, view, hcalls, history_be_of_ne hb, hne b' hb]

/-- A back end has changed, and its driver was called twice. -/
theorem moves_of_calls (b : B) (op op' : PcmOp P)
    (hcalls : s'.calls = .be b op' :: .be b op :: s.calls) (hne : ∀ b' ≠ b, s'.be b' = s.be b')
    (hmove : BeMove (s.be b).core [(op', e.reply (.be b op' :: .be b op :: s.calls)),
      (op, e.reply (.be b op :: s.calls))] (s'.be b).core) : Moves e s s' := by
  intro b'
  by_cases hb : b' = b
  · subst hb
    refine .single ⟨_, hmove, ?_⟩
    rw [view, view, hcalls, history_be_self, history_be_self]
    rfl
  · rw [view, view, hcalls, history_be_of_ne hb, history_be_of_ne hb, hne b' hb]

/-! ## The loops -/

theorem dpcmBeDaiStopBody_moves (doHwFree : Bool) (last : Option B) (dpcm : Link B) :
    Moves e s (dpcmBeDaiStopBody e f doHwFree last dpcm s).2 := by
  unfold dpcmBeDaiStopBody
  simp only [Card.modBe_be_self]
  split
  · exact .refl
  split
  · exact .refl
  split
  · exact .refl
  next hu =>
  have hleave : Moves e s (s.modBe dpcm.be fun x => { x with users := x.users - 1 }) := by
    refine moves_of_quiet dpcm.be rfl (by simp +contextual) ?_
    rw [Card.modBe_be_self]
    exact .leave hu
  split
  · exact hleave
  next hlast =>
  split
  · exact hleave
  have hone : (s.be dpcm.be).users = 1 := by omega
  dsimp only
  split
  · next hfree =>
    refine moves_of_calls dpcm.be .hwFree .close rfl (by simp +contextual) ?_
    simpa [BeRuntime.core, hone] using
      BeMove.freeClose (c := (s.be dpcm.be).core) hone hfree.1 hfree.2
  · next hfree =>
    refine moves_of_call dpcm.be .close rfl (by simp +contextual) ?_
    have hstate : (s.be dpcm.be).state = .opened ∨ (s.be dpcm.be).state = .hwFree := by
      by_contra h
      exact hfree (not_or.mp h)
    simpa [BeRuntime.core, hone] using BeMove.close (c := (s.be dpcm.be).core) hone hstate

theorem dpcmBeDaiStartupBody_moves (count : Int) (dpcm : Link B) :
    Moves e s (dpcmBeDaiStartupBody e f dpcm (count, s)).2.2 := by
  unfold dpcmBeDaiStartupBody
  simp only [Card.modBe_be_self]
  split
  · exact .refl
  split
  · exact .refl
  have hjoin (h : (s.be dpcm.be).users ≠ 0 ∨ (s.be dpcm.be).core.isOpen) :
      Moves e s (s.modBe dpcm.be fun x => { x with users := x.users + 1 }) := by
    refine moves_of_quiet dpcm.be rfl (by simp +contextual) ?_
    rw [Card.modBe_be_self]
    exact .join h
  split
  · next hu => exact hjoin (.inl hu)
  next hu =>
  split
  · next hopen => exact hjoin (.inr hopen)
  next hclosed =>
  have hu0 : (s.be dpcm.be).users = 0 := not_not.mp hu
  split
  · next hret =>
    refine moves_of_call dpcm.be .opn rfl (by simp +contextual) ?_
    simpa [BeRuntime.core, hu0] using
      BeMove.openFail (c := (s.be dpcm.be).core) hu0 hclosed hret
  · next hret =>
    refine moves_of_call dpcm.be .opn rfl (by simp +contextual) ?_
    simpa [BeRuntime.core, hu0] using BeMove.opn (c := (s.be dpcm.be).core) hu0 hclosed hret

theorem dpcmBeDaiHwFreeBody_moves (dpcm : Link B) :
    Moves e s (dpcmBeDaiHwFreeBody e f dpcm s).2 := by
  unfold dpcmBeDaiHwFreeBody
  simp only
  split
  · exact .refl
  split
  · exact .refl
  split
  · exact .refl
  split
  · exact .refl
  next hstate =>
  refine moves_of_call dpcm.be .hwFree rfl (by simp +contextual) ?_
  rw [Card.modBe_be_self]
  refine .hwFree ?_
  simp only [List.mem_cons, List.not_mem_nil, BeRuntime.core]
  tauto

theorem dpcmBeDaiHwParamsBody_moves (dpcm : Link B) :
    Moves e s (dpcmBeDaiHwParamsBody e f dpcm s).2 := by
  unfold dpcmBeDaiHwParamsBody
  simp only [Card.modBe_be_self]
  split
  · exact .refl
  split
  · exact .refl
  have hsame (p : P) : Moves e s (s.modBe dpcm.be fun x => { x with hwParams := p }) := by
    refine moves_of_core (fun _ => rfl) fun b => ?_
    by_cases hb : b = dpcm.be
    · rw [hb, Card.modBe_be_self]
      rfl
    · rw [Card.modBe_be_of_ne _ _ hb]
  split
  · exact hsame _
  split
  · exact hsame _
  next hstate =>
  have hmem : (s.be dpcm.be).core.state ∈ [DpcmState.opened, .hwParams, .hwFree] := by
    simp only [List.mem_cons, List.not_mem_nil, BeRuntime.core]
    tauto
  split
  · refine moves_of_call dpcm.be (.hwParams (e.beHwParamsFixup dpcm.be (s.fe f).hwParams).2) rfl
      (by simp +contextual) ?_
    simpa [BeRuntime.core] using BeMove.hwParamsFail hmem
  · refine moves_of_call dpcm.be (.hwParams (e.beHwParamsFixup dpcm.be (s.fe f).hwParams).2) rfl
      (by simp +contextual) ?_
    simpa [BeRuntime.core] using BeMove.hwParams hmem

theorem dpcmBeDaiHwParamsUnwindBody_moves (dpcm : Link B) :
    Moves e s (dpcmBeDaiHwParamsUnwindBody e f dpcm s).2 := by
  unfold dpcmBeDaiHwParamsUnwindBody
  simp only
  split
  · exact .refl
  split
  · exact .refl
  split
  · exact .refl
  next hstate =>
  refine moves_of_call dpcm.be .hwFree rfl (by simp) (.unwind ?_)
  simp only [List.mem_cons, List.not_mem_nil, BeRuntime.core]
  tauto

theorem dpcmBeDaiPrepareBody_moves (ret : Int) (dpcm : Link B) :
    Moves e s (dpcmBeDaiPrepareBody e f dpcm (ret, s)).2.2 := by
  unfold dpcmBeDaiPrepareBody
  dsimp only
  split
  · exact .refl
  split
  · exact .refl
  split
  · exact .refl
  next hstate =>
  have hmem : (s.be dpcm.be).core.state ∈ [DpcmState.hwParams, .stop, .suspend, .paused] := by
    simp only [List.mem_cons, List.not_mem_nil, BeRuntime.core]
    tauto
  split
  · next hret => exact moves_of_call dpcm.be .prepare rfl (by simp) (.prepareFail hmem hret)
  · next hret =>
    refine moves_of_call dpcm.be .prepare rfl (by simp +contextual) ?_
    simpa [BeRuntime.core] using BeMove.prepare hmem hret

/-! ## Triggers -/

/-- Only the back end `b` of `s` has changed, to have the core `c`. -/
structure Became (s : Card F B P) (b : B) (c : BeCore) (s' : Card F B P) : Prop where
  calls : s'.calls = s.calls
  others : ∀ b' ≠ b, s'.be b' = s.be b'
  core : (s'.be b).core = c

theorem Became.refl (s : Card F B P) (b : B) : Became s b (s.be b).core s :=
  ⟨rfl, fun _ _ => rfl, rfl⟩

theorem Became.modBe {c : BeCore} (h : Became s b c s') (k : BeCore → BeCore)
    {g : BeRuntime F P → BeRuntime F P} (hg : ∀ x, (g x).core = k x.core) :
    Became s b (k c) (s'.modBe b g) where
  calls := h.calls
  others b' hne := (Card.modBe_be_of_ne s' g hne).trans (h.others b' hne)
  core := by rw [Card.modBe_be_self, hg, h.core]

theorem Became.modFe {c : BeCore} (h : Became s b c s')
    (g : FeRuntime F B P → FeRuntime F B P) : Became s b c (s'.modFe f g) :=
  ⟨h.calls, h.others, h.core⟩

/-- A trigger that leaves the back end as it was where it fails. -/
theorem beTry_moves {cmd : TriggerCmd} {failed done : Card F B P → Card F B P} {c c₁ c' : BeCore}
    (hc : (s.be b).core = c) (hs : Became s b c₁ s')
    (hfailed : ∀ u, (u.be b).core = c₁ → Became u b c (failed u))
    (hdone : ∀ u, (u.be b).core = c₁ → Became u b c' (done u))
    (hfail : ∀ ret ≠ 0, BeMove (P := P) c [(.trigger cmd, ret)] c)
    (hmove : BeMove (P := P) c [(.trigger cmd, 0)] c') :
    Moves e s (beTry e b cmd failed done s').2 := by
  unfold beTry
  simp only
  have hreply : (call e (.be b (.trigger cmd)) s').1 =
      e.reply (.be b (.trigger cmd) :: s.calls) := by
    rw [call_fst, hs.calls]
  split
  · next hret =>
    have h := hfailed (call e (.be b (.trigger cmd)) s').2 hs.core
    refine moves_of_call b (.trigger cmd) ?_ ?_ ?_
    · rw [h.calls, call_calls, hs.calls]
    · intro b' hne
      rw [h.others b' hne, call_be, hs.others b' hne]
    · rw [h.core, hc]
      exact hfail _ (hreply ▸ hret)
  · next hret =>
    have h := hdone (call e (.be b (.trigger cmd)) s').2 hs.core
    refine moves_of_call b (.trigger cmd) ?_ ?_ ?_
    · rw [h.calls, call_calls, hs.calls]
    · intro b' hne
      rw [h.others b' hne, call_be, hs.others b' hne]
    · rw [h.core, hc, ← hreply, not_not.mp hret]
      exact hmove

theorem beStartOne_moves {cmd : TriggerCmd} {c : BeCore} (hc : (s.be b).core = c)
    (hs : Became s b c s') (hup : c.beStart = 0 → UpFrom cmd c.state) :
    Moves e s (beStartOne e b cmd s').2 := by
  have hinc := hs.modBe (fun c => { c with beStart := c.beStart + 1 })
    (g := fun x => { x with beStart := x.beStart + 1 }) fun _ => rfl
  have hcount : ((s'.modBe b fun x => { x with beStart := x.beStart + 1 }).be b).beStart =
      c.beStart + 1 := congrArg BeCore.beStart hinc.core
  unfold beStartOne
  simp only [hcount]
  split
  · refine moves_of_quiet b hinc.calls hinc.others ?_
    rw [hinc.core, hc]
    exact .countUp (by omega)
  have h0 : c.beStart = 0 := by omega
  refine beTry_moves hc hinc ?_ ?_ (fun _ hret => .upFail h0 (hup h0) hret) (.up h0 (hup h0))
  · intro u hu
    have hdec := (Became.refl u b).modBe (fun c => { c with beStart := c.beStart - 1 })
      (g := fun x => { x with beStart := x.beStart - 1 }) fun _ => rfl
    rw [hu, Int.add_sub_cancel] at hdec
    exact hdec
  · intro u hu
    have hstart := (Became.refl u b).modBe (fun c => { c with state := .start })
      (g := fun x => { x with state := .start }) fun _ => rfl
    rw [hu, h0] at hstart
    exact hstart

theorem beStopOne_moves {cmd : TriggerCmd} {state : DpcmState} {c : BeCore}
    (hc : (s.be b).core = c) (hs : Became s b c s') (hstart : c.state = .start)
    (hto : DownTo cmd state) : Moves e s (beStopOne e b cmd state s').2 := by
  have hdec := hs.modBe (fun c => { c with beStart := c.beStart - 1 })
    (g := fun x => { x with beStart := x.beStart - 1 }) fun _ => rfl
  have hcount : ((s'.modBe b fun x => { x with beStart := x.beStart - 1 }).be b).beStart =
      c.beStart - 1 := congrArg BeCore.beStart hdec.core
  unfold beStopOne
  simp only [hcount]
  split
  · next hne =>
    refine moves_of_quiet b hdec.calls hdec.others ?_
    rw [hdec.core, hc]
    exact .countDown hstart hne
  have hfrom : DownFrom c cmd := .running hstart (by omega)
  refine beTry_moves hc hdec ?_ ?_ (fun _ hret => .downFail hfrom hto hret) (.down hfrom hto)
  · intro u hu
    have hinc := (Became.refl u b).modBe (fun c => { c with beStart := c.beStart + 1 })
      (g := fun x => { x with beStart := x.beStart + 1 }) fun _ => rfl
    rw [hu, Int.sub_add_cancel] at hinc
    exact hinc
  · intro u hu
    have hstate := (Became.refl u b).modBe (fun c => { c with state := state })
      (g := fun x => { x with state := state }) fun _ => rfl
    have h0 : c.beStart - 1 = 0 := by omega
    rw [hu, h0] at hstate
    exact hstate

/-- What happens to the count of the paused front ends is no concern of the driver. -/
theorem Became.pause {c : BeCore} (h : Became s b c s') (transition : Bool)
    (g : FeRuntime F B P → FeRuntime F B P) (n : Int → Int) :
    Became s b c
      (if transition then (s'.modFe f g).modBe b fun x => { x with bePause := n x.bePause }
      else s') := by
  split
  · exact (h.modFe g).modBe id fun _ => rfl
  · exact h

theorem beTriggerStopLast_moves {c : BeCore} (hc : (s.be b).core = c)
    (hs : Became s b { c with beStart := 0 } s') (hfrom : ∀ cmd, cmd ≠ .suspend → DownFrom c cmd)
    (hcount : c.beStart = if c.state = .start then 1 else 0) :
    Moves e s (beTriggerStopLast e f b s').2 := by
  have hpause := hs.pause (f := f) (s'.fe f).fePause (fun x => { x with fePause := false })
    fun n => n - 1
  have hfailed (u : Card F B P) (hu : (u.be b).core = { c with beStart := 0 }) :
      Became u b c
        (if (s'.fe f).fePause then
          ((u.modBe b fun x =>
            if x.state = .start then { x with beStart := x.beStart + 1 } else x).modFe f
              fun x => { x with fePause := true }).modBe b
                fun x => { x with bePause := x.bePause + 1 }
        else
          u.modBe b fun x =>
            if x.state = .start then { x with beStart := x.beStart + 1 } else x) := by
    have hinc := (Became.refl u b).modBe
      (fun c => if c.state = .start then { c with beStart := c.beStart + 1 } else c)
      (g := fun x => if x.state = .start then { x with beStart := x.beStart + 1 } else x)
      fun _ => apply_ite BeRuntime.core _ _ _
    have hback :
        (if c.state = .start then { c with beStart := 0 + 1 } else { c with beStart := 0 }) =
          c := by
      cases c with
      | mk users state count =>
        simp only at hcount
        rw [hcount]
        split <;> rfl
    rw [hu, hback] at hinc
    exact hinc.pause _ _ fun n => n + 1
  have hdone (state : DpcmState) (u : Card F B P) (hu : (u.be b).core = { c with beStart := 0 }) :
      Became u b ⟨c.users, state, 0⟩ (u.modBe b fun x => { x with state := state }) := by
    have hstate := (Became.refl u b).modBe (fun c => { c with state := state })
      (g := fun x => { x with state := state }) fun _ => rfl
    rw [hu] at hstate
    exact hstate
  have hpush := hfrom .pausePush (by simp)
  have hstop := hfrom .stop (by simp)
  unfold beTriggerStopLast
  simp only
  refine iteInduction (motive := fun r : Int × Card F B P => Moves e s r.2) (fun _ => ?_)
    fun _ => ?_
  · exact beTry_moves hc hpause hfailed (hdone .paused)
      (fun _ hret => .downFail hpush .pausePush hret) (.down hpush .pausePush)
  · exact beTry_moves hc hpause hfailed (hdone .stop)
      (fun _ hret => .downFail hstop .stop hret) (.down hstop .stop)

theorem beTriggerStop_moves : Moves e s (beTriggerStop e f b s).2 := by
  have hdec := (Became.refl s b).modBe
    (fun c => if c.state = .start then { c with beStart := c.beStart - 1 } else c)
    (g := fun x => if x.state = .start then { x with beStart := x.beStart - 1 } else x)
    fun _ => apply_ite BeRuntime.core _ _ _
  unfold beTriggerStop
  simp only
  split
  · exact .refl
  next hstate =>
  by_cases hstart : (s.be b).state = .start
  · rw [if_pos (show (s.be b).core.state = .start from hstart)] at hdec
    have hcount := congrArg BeCore.beStart hdec.core
    change BeRuntime.beStart _ = (s.be b).beStart - 1 at hcount
    rw [hcount]
    split
    · next hne =>
      refine moves_of_quiet b hdec.calls hdec.others ?_
      rw [hdec.core]
      exact .countDown hstart hne
    · next hlast =>
      have hone : (s.be b).beStart = 1 := by omega
      refine beTriggerStopLast_moves rfl ?_ (fun _ _ => .running hstart hone) ?_
      · simpa [BeRuntime.core, hone] using hdec
      · simpa [BeRuntime.core, hstart] using hone
  · have hpaused : (s.be b).state = .paused := by tauto
    rw [if_neg (show (s.be b).core.state ≠ .start from hstart)] at hdec
    have hcount := congrArg BeCore.beStart hdec.core
    change BeRuntime.beStart _ = (s.be b).beStart at hcount
    rw [hcount]
    split
    · exact moves_of_core (fun b' => by rw [hdec.calls]) fun b' => by
        by_cases hb : b' = b
        · rw [hb, hdec.core]
        · rw [hdec.others b' hb]
    · next hlast =>
      have hzero : (s.be b).beStart = 0 := not_not.mp hlast
      refine beTriggerStopLast_moves rfl ?_ (fun _ hcmd => .paused hpaused hzero hcmd) ?_
      · simpa [BeRuntime.core, hzero] using hdec
      · simpa [BeRuntime.core, hpaused] using hzero

/-- One visit of a back end by a trigger. -/
theorem beTrigger_moves (cmd : TriggerCmd) : Moves e s (beTrigger e f b cmd s).2 := by
  unfold beTrigger
  cases cmd with
  | start =>
    simp only
    split
    · exact .refl
    next hstate =>
    refine beStartOne_moves rfl (.refl s b) fun h0 => ?_
    change (s.be b).beStart = 0 at h0
    change UpFrom _ (s.be b).state
    split
    · next hpaused => exact hpaused ▸ .paused
    · next hpaused =>
      have hready : (s.be b).state = .prepare ∨ (s.be b).state = .stop := by tauto
      rcases hready with h | h
      · exact h ▸ .prepared
      · exact h ▸ .stopped
  | resume =>
    simp only
    split
    · exact .refl
    next hstate =>
    refine beStartOne_moves rfl (.refl s b) fun _ => ?_
    change UpFrom _ (s.be b).state
    rw [not_not.mp hstate]
    exact .suspended
  | pauseRelease =>
    simp only
    split
    · exact .refl
    next hstate =>
    refine beStartOne_moves rfl (((Became.refl s b).modFe _).modBe id fun _ => rfl) fun h0 => ?_
    change (s.be b).beStart = 0 at h0
    change UpFrom _ (s.be b).state
    have hready : (s.be b).state = .start ∨ (s.be b).state = .paused := by tauto
    rcases hready with h | h
    · exact h ▸ .running
    · exact h ▸ .paused
  | stop => exact beTriggerStop_moves
  | suspend =>
    simp only
    split
    · exact .refl
    next hstate => exact beStopOne_moves rfl (.refl s b) (not_not.mp hstate) .suspend
  | pausePush =>
    simp only
    split
    · exact .refl
    next hstate =>
    exact beStopOne_moves rfl (((Became.refl s b).modFe _).modBe id fun _ => rfl)
      (not_not.mp hstate) .pausePush
  | drain => exact .refl

theorem dpcmBeDaiTriggerBody_moves (cmd : TriggerCmd) (dpcm : Link B) :
    Moves e s (dpcmBeDaiTriggerBody e f cmd dpcm s).2 := by
  unfold dpcmBeDaiTriggerBody
  simp only
  split
  · exact .refl
  · exact beTrigger_moves cmd

/-! ## The operations -/

theorem dpcmBeDaiStop_moves (doHwFree : Bool) (last : Option B) :
    Moves e s (dpcmBeDaiStop e f doHwFree last s) :=
  each_keeps (P := Moves e s) .refl fun dpcm _ _ h =>
    h.trans (dpcmBeDaiStopBody_moves doHwFree last dpcm)

theorem dpcmBeDaiStartup_moves : Moves e s (dpcmBeDaiStartup e f s).2 := by
  have hloop : Moves e s (each (dpcmBeDaiStartupBody e f) (s.fe f).beClients (0, s)).state.2 :=
    each_keeps (P := fun r : Int × Card F B P => Moves e s r.2) .refl fun dpcm _ r h =>
      h.trans (dpcmBeDaiStartupBody_moves r.1 dpcm)
  unfold dpcmBeDaiStartup
  simp only
  split
  · exact hloop
  · exact hloop.trans (dpcmBeDaiStop_moves _ _)

theorem dpcmBeDaiHwFree_moves : Moves e s (dpcmBeDaiHwFree e f s) :=
  each_keeps (P := Moves e s) .refl fun dpcm _ _ h => h.trans (dpcmBeDaiHwFreeBody_moves dpcm)

theorem dpcmBeDaiHwParams_moves : Moves e s (dpcmBeDaiHwParams e f s).2 := by
  have hloop : Moves e s (each (dpcmBeDaiHwParamsBody e f) (s.fe f).beClients s).state :=
    each_keeps (P := Moves e s) .refl fun dpcm _ _ h => h.trans (dpcmBeDaiHwParamsBody_moves dpcm)
  unfold dpcmBeDaiHwParams
  simp only
  split
  · exact hloop
  · exact each_keeps (P := Moves e s) hloop fun dpcm _ _ h =>
      h.trans (dpcmBeDaiHwParamsUnwindBody_moves dpcm)

theorem dpcmBeDaiPrepare_moves : Moves e s (dpcmBeDaiPrepare e f s).2 :=
  each_keeps (P := fun r : Int × Card F B P => Moves e s r.2) .refl fun dpcm _ r h =>
    h.trans (dpcmBeDaiPrepareBody_moves r.1 dpcm)

theorem dpcmBeDaiTrigger_moves (cmd : TriggerCmd) : Moves e s (dpcmBeDaiTrigger e f cmd s).2 := by
  have hloop : Moves e s (each (dpcmBeDaiTriggerBody e f cmd) (s.fe f).beClients s).state :=
    each_keeps (P := Moves e s) .refl fun dpcm _ _ h =>
      h.trans (dpcmBeDaiTriggerBody_moves cmd dpcm)
  unfold dpcmBeDaiTrigger
  simp only
  split <;> exact hloop

theorem Moves.modFe (h : Moves e s s') (g : FeRuntime F B P → FeRuntime F B P) :
    Moves e s (s'.modFe f g) := h

/-- The calls that are not to a back end. -/
theorem Moves.call (h : Moves e s s') {c : Call F B P} (hc : ∀ b op, c ≠ .be b op) :
    Moves e s (call e c s').2 := by
  refine h.trans (moves_of_core (fun b => ?_) fun _ => rfl)
  cases c with
  | be b' op => exact absurd rfl (hc b' op)
  | _ => rfl

theorem dpcmDaiTriggerFeBe_moves (cmd : TriggerCmd) (feFirst : Bool) :
    Moves e s (dpcmDaiTriggerFeBe e f cmd feFirst s).2 := by
  unfold dpcmDaiTriggerFeBe
  simp only
  split
  · split
    · exact Moves.refl.call (by simp)
    · exact (Moves.refl.call (by simp)).trans (dpcmBeDaiTrigger_moves cmd)
  · split
    · exact dpcmBeDaiTrigger_moves cmd
    · exact (dpcmBeDaiTrigger_moves cmd).call (by simp)

theorem dpcmFeDaiTriggerOrder_moves (cmd : TriggerCmd) :
    Moves e s (dpcmFeDaiTriggerOrder e f cmd s).2 := by
  unfold dpcmFeDaiTriggerOrder
  split
  · exact dpcmDaiTriggerFeBe_moves cmd _
  · exact dpcmDaiTriggerFeBe_moves cmd _
  · exact Moves.refl.call (by simp)

theorem dpcmFeDaiDoTrigger_moves (cmd : TriggerCmd) :
    Moves e s (dpcmFeDaiDoTrigger e f cmd s).2 := by
  have horder : Moves e s (dpcmFeDaiTriggerOrder e f cmd
      (s.modFe f fun x => { x with runtimeUpdate := .fe })).2 :=
    (Moves.refl.modFe _).trans (dpcmFeDaiTriggerOrder_moves cmd)
  unfold dpcmFeDaiDoTrigger
  simp only
  split
  · exact horder.modFe _
  · exact (horder.modFe _).modFe _

theorem dpcmSetFeUpdateState_moves (update : DpcmUpdate) :
    Moves e s (dpcmSetFeUpdateState e f update s) := by
  unfold dpcmSetFeUpdateState
  simp only
  split
  · exact ((dpcmFeDaiDoTrigger_moves _).modFe _).modFe _
  · exact Moves.refl.modFe _

theorem dpcmFeDaiTrigger_moves (cmd : TriggerCmd) : Moves e s (dpcmFeDaiTrigger e f cmd s).2 := by
  unfold dpcmFeDaiTrigger
  split
  · exact Moves.refl.modFe _
  · exact dpcmFeDaiDoTrigger_moves cmd

/-! ## Links -/

/-- The fields of a back end that only its links are about. -/
theorem Moves.modBe (h : Moves e s s') {g : BeRuntime F P → BeRuntime F P}
    (hg : ∀ x, (g x).core = x.core) : Moves e s (s'.modBe b g) := by
  refine h.trans (moves_of_core (fun _ => rfl) fun b' => ?_)
  by_cases hb : b' = b
  · rw [hb, Card.modBe_be_self, hg]
  · rw [Card.modBe_be_of_ne _ _ hb]

theorem dpcmSetBeUpdateState_moves (update : DpcmUpdate) :
    Moves e s (dpcmSetBeUpdateState b update s) :=
  Moves.refl.modBe fun _ => rfl

theorem dpcmBeConnect_moves : Moves e s (dpcmBeConnect e f b s).2 := by
  unfold dpcmBeConnect
  simp only
  split
  · exact .refl
  split
  · exact .refl
  have hatomic : Moves e s (s.modBe b fun x =>
      if e.feNonatomic f && !x.nonatomic then { x with nonatomic := true } else x) := by
    refine Moves.refl.modBe fun x => ?_
    split <;> rfl
  have halloc := hatomic.call (c := .kzalloc f b) (by simp)
  split
  · exact halloc
  · refine Moves.modFe ?_ _
    exact halloc.modBe fun _ => rfl

theorem dpcmBeReparent_moves : Moves e s (dpcmBeReparent f b s) := by
  unfold dpcmBeReparent
  split
  · exact .refl
  split
  · exact .refl
  · exact Moves.refl.modBe fun _ => rfl

theorem dpcmBeDisconnect_moves : Moves e s (dpcmBeDisconnect f s) := by
  have hbody (dpcm : Link B) {s : Card F B P} : Moves e s (dpcmBeDisconnectBody f dpcm s) := by
    unfold dpcmBeDisconnectBody
    split
    · exact .refl
    · exact (dpcmBeReparent_moves.modFe _).modBe fun _ => rfl
  unfold dpcmBeDisconnect
  induction (s.fe f).beClients generalizing s with
  | nil => exact .refl
  | cons dpcm l ih => exact (hbody dpcm).trans ih

theorem dpcmClearPendingState_moves : Moves e s (dpcmClearPendingState f s) := by
  unfold dpcmClearPendingState
  induction (s.fe f).beClients generalizing s with
  | nil => exact .refl
  | cons dpcm l ih => exact (dpcmSetBeUpdateState_moves .no).trans ih

theorem dpcmProcessPaths_moves (list : List B) (new : Bool) :
    Moves e s (dpcmProcessPaths e f list new s).2 := by
  have hadd (b : B) (r : Int × Card F B P) : Moves e r.2 (dpcmAddPathsBody e f b r).2.2 := by
    unfold dpcmAddPathsBody
    simp only
    split
    · exact .refl
    split
    · exact dpcmBeConnect_moves
    split
    · exact dpcmBeConnect_moves
    · exact dpcmBeConnect_moves.trans (dpcmSetBeUpdateState_moves .be)
  have hprune (dpcm : Link B) (r : Int × Card F B P) :
      Moves e r.2 (dpcmPrunePathsBody f list dpcm r).2 := by
    unfold dpcmPrunePathsBody
    simp only
    split
    · exact .refl
    · exact (Moves.refl.modFe _).trans (dpcmSetBeUpdateState_moves .be)
  unfold dpcmProcessPaths
  split
  · unfold dpcmAddPaths
    split
    · exact .refl
    · exact each_keeps (P := fun r : Int × Card F B P => Moves e s r.2) .refl
        fun b _ r h => h.trans (hadd b r)
  · unfold dpcmPrunePaths
    generalize (0 : Int) = n
    induction (s.fe f).beClients generalizing s n with
    | nil => exact .refl
    | cons dpcm l ih => exact (hprune dpcm (n, s)).trans (ih _)

/-! ## Front ends -/

theorem dpcmFeDaiStartup_moves : Moves e s (dpcmFeDaiStartup e f s).2 := by
  unfold dpcmFeDaiStartup
  simp only
  have hbe : Moves e s (dpcmBeDaiStartup e f (dpcmSetFeUpdateState e f .fe s)).2 :=
    (dpcmSetFeUpdateState_moves .fe).trans dpcmBeDaiStartup_moves
  have hopen := hbe.call (c := .fe f .opn) (by simp)
  split
  · exact hbe.trans (dpcmSetFeUpdateState_moves .no)
  split
  · exact (hopen.trans (dpcmBeDaiStop_moves _ none)).trans (dpcmSetFeUpdateState_moves .no)
  have hsym := (hopen.modFe (f := f) fun x => { x with state := .opened }).call
    (c := .applySymmetry f) (by simp)
  refine Moves.trans ?_ (dpcmSetFeUpdateState_moves .no)
  split
  · exact hsym.trans (dpcmBeDaiStop_moves _ none)
  · exact hsym

theorem dpcmFeDaiCleanup_moves : Moves e s (dpcmFeDaiCleanup f s) :=
  ((Moves.refl.modFe _).trans dpcmBeDisconnect_moves).modFe _

theorem dpcmFeDaiClose_moves : Moves e s (dpcmFeDaiClose e f s).2 := by
  have hshut : Moves e s (dpcmBeDaiShutdown e f (dpcmSetFeUpdateState e f .fe s)) :=
    (dpcmSetFeUpdateState_moves .fe).trans (dpcmBeDaiStop_moves _ none)
  have hclose := (hshut.call (c := .fe f .close) (by simp)).modFe (f := f)
    fun x => { x with state := .close }
  exact (hclose.trans (dpcmSetFeUpdateState_moves .no)).trans dpcmFeDaiCleanup_moves

theorem dpcmFeDaiOpen_moves (paths : Int) (list : List B) :
    Moves e s (dpcmFeDaiOpen e f paths list s).2 := by
  unfold dpcmFeDaiOpen
  simp only
  have hrt : Moves e s (s.modFe f fun x => { x with runtime := some f }) := Moves.refl.modFe _
  split
  · exact hrt
  have hstart := (hrt.trans (dpcmProcessPaths_moves (f := f) list true)).trans
    (dpcmFeDaiStartup_moves (f := f))
  refine Moves.trans ?_ dpcmClearPendingState_moves
  split
  · exact hstart.trans dpcmFeDaiCleanup_moves
  · exact hstart

theorem dpcmFeDaiHwFree_moves : Moves e s (dpcmFeDaiHwFree e f s).2 := by
  have hfe : Moves e s (call e (.fe f .hwFree) (dpcmSetFeUpdateState e f .fe s)).2 :=
    (dpcmSetFeUpdateState_moves .fe).call (by simp)
  exact ((hfe.trans dpcmBeDaiHwFree_moves).modFe _).trans (dpcmSetFeUpdateState_moves .no)

theorem dpcmFeDaiHwParams_moves (params : P) :
    Moves e s (dpcmFeDaiHwParams e f params s).2 := by
  unfold dpcmFeDaiHwParams
  simp only
  have hbe := (((dpcmSetFeUpdateState_moves (e := e) (s := s) (f := f) .fe).modFe (f := f)
    fun x => { x with hwParams := params }).trans (dpcmBeDaiHwParams_moves (f := f)))
  split
  · exact hbe.trans (dpcmSetFeUpdateState_moves .no)
  have hfe := hbe.call (c := .fe f (.hwParams params)) (by simp)
  refine Moves.trans ?_ (dpcmSetFeUpdateState_moves .no)
  split
  · exact hfe.trans dpcmBeDaiHwFree_moves
  · exact hfe.modFe _

theorem dpcmFeDaiPrepare_moves : Moves e s (dpcmFeDaiPrepare e f s).2 := by
  unfold dpcmFeDaiPrepare
  simp only
  have hset := dpcmSetFeUpdateState_moves (e := e) (s := s) (f := f) .fe
  split
  · exact hset.trans (dpcmSetFeUpdateState_moves .no)
  have hbe := hset.trans (dpcmBeDaiPrepare_moves (f := f))
  split
  · exact hbe.trans (dpcmSetFeUpdateState_moves .no)
  have hfe := hbe.call (c := .fe f .prepare) (by simp)
  refine Moves.trans ?_ (dpcmSetFeUpdateState_moves .no)
  split
  · exact hfe
  · exact hfe.modFe _

theorem dpcmRunUpdateShutdown_moves : Moves e s (dpcmRunUpdateShutdown e f s).2 := by
  unfold dpcmRunUpdateShutdown
  simp only
  have hstop : Moves e s (if e.trigger f = .bespoke then call e (.bespokeTrigger f .stop) s
      else dpcmBeDaiTrigger e f .stop s).2 := by
    split
    · exact Moves.refl.call (by simp)
    · exact dpcmBeDaiTrigger_moves .stop
  exact (hstop.trans dpcmBeDaiHwFree_moves).trans (dpcmBeDaiStop_moves _ none)

theorem dpcmRunUpdateStartup_moves : Moves e s (dpcmRunUpdateStartup e f s).2 := by
  unfold dpcmRunUpdateStartup
  simp only
  have hdisconnect {s' : Card F B P} (h : Moves e s s') :
      Moves e s (dpcmRunUpdateDisconnect f s') := h.modFe _
  have hundo {s' : Card F B P} (h : Moves e s s') : Moves e s (dpcmRunUpdateDisconnect f
      (dpcmBeDaiShutdown e f (dpcmBeDaiHwFree e f s'))) :=
    hdisconnect ((h.trans dpcmBeDaiHwFree_moves).trans (dpcmBeDaiStop_moves _ none))
  split
  · exact hdisconnect .refl
  have hopen := dpcmBeDaiStartup_moves (e := e) (s := s) (f := f)
  split
  · exact hdisconnect hopen
  split
  · exact hopen
  have hparams := hopen.trans (dpcmBeDaiHwParams_moves (f := f))
  split
  · exact hdisconnect (hparams.trans (dpcmBeDaiStop_moves _ none))
  split
  · exact hparams
  have hprepare := hparams.trans (dpcmBeDaiPrepare_moves (f := f))
  split
  · exact hundo hprepare
  split
  · exact hprepare
  split
  · have hbespoke := hprepare.call (c := .bespokeTrigger f .start) (by simp)
    split
    · exact hundo hbespoke
    · exact hbespoke
  · have htrigger := hprepare.trans (dpcmBeDaiTrigger_moves (f := f) .start)
    split
    · exact hundo htrigger
    · exact htrigger

theorem socDpcmFeRuntimeUpdate_moves (new : Bool) (paths : Int) (list : List B) :
    Moves e s (socDpcmFeRuntimeUpdate e f new paths list s).2 := by
  unfold socDpcmFeRuntimeUpdate
  simp only
  split
  · exact .refl
  have hpaths := dpcmProcessPaths_moves (e := e) (s := s) (f := f) list new
  split
  · exact hpaths
  have hset := hpaths.trans (dpcmSetFeUpdateState_moves (f := f) .be)
  refine Moves.trans ?_ dpcmBeDisconnect_moves
  refine Moves.trans ?_ dpcmClearPendingState_moves
  refine Moves.trans ?_ (dpcmSetFeUpdateState_moves .no)
  split
  · exact hset.trans dpcmRunUpdateStartup_moves
  · exact hset.trans dpcmRunUpdateShutdown_moves

/-- Whatever operation is called, the back ends only make moves. -/
theorem step_moves (op : Op F B P) : Moves e s (step e s op).2 := by
  cases op with
  | opn f paths list => exact dpcmFeDaiOpen_moves paths list
  | close f => exact dpcmFeDaiClose_moves
  | hwParams f params => exact dpcmFeDaiHwParams_moves params
  | hwFree f => exact dpcmFeDaiHwFree_moves
  | prepare f => exact dpcmFeDaiPrepare_moves
  | trigger f cmd => exact dpcmFeDaiTrigger_moves cmd
  | runtimeUpdate f new paths list => exact socDpcmFeRuntimeUpdate_moves new paths list

theorem run_moves (ops : List (Op F B P)) : Moves e s (run e s ops) := by
  induction ops generalizing s with
  | nil => exact .refl
  | cons op ops ih => exact (step_moves op).trans ih

end NoteNew.Dpcm
