import NoteNew.Dpcm.Moves

/-!
# The drivers are asked only what they allow

Whatever operations are called, in whatever order, and whatever the drivers reply, the calls to the
driver of a back end keep to its phases, and the state of the back end is the phase its driver is in
(`driverPhase_run`).
-/

namespace NoteNew.Dpcm

variable {F B P : Type*} [DecidableEq F] [DecidableEq B]

/-- The state of a back end is the phase of its driver, a back end in use is open, and `be_start`
says whether an open one runs. -/
structure Tracked (v : BeCore × List (PcmOp P × Int)) : Prop where
  phase : driverPhase v.2 = some v.1.state.phase
  inUse : v.1.users ≠ 0 → v.1.isOpen
  nonneg : 0 ≤ v.1.beStart
  starts : v.1.isOpen → (v.1.beStart ≠ 0 ↔ v.1.state = .start)

/-- A call allowed in the phase the state stands for. -/
theorem driverPhase_cons {past : List (PcmOp P × Int)} {ph ph' : DriverPhase} {op : PcmOp P}
    {ret : Int} (h : driverPhase past = some ph) (hnext : ph.next op ret = some ph') :
    driverPhase ((op, ret) :: past) = some ph' := by
  rw [driverPhase, h]
  exact hnext

theorem isOpen_iff {c : BeCore} : c.isOpen ↔ c.state.phase ≠ .closed := by
  unfold BeCore.isOpen
  cases c.state <;> simp [DpcmState.phase]

theorem phase_ne_halted {state : DpcmState} : state.phase ≠ .halted := by
  cases state <;> simp [DpcmState.phase]

theorem phase_eq_running_iff {state : DpcmState} : state.phase = .running ↔ state = .start := by
  cases state <;> simp [DpcmState.phase]

/-- The states in which configuring, or undoing it, calls the driver. -/
theorem phase_idle {state : DpcmState} (h : state ∈ [.opened, .hwParams, .hwFree, .stop]) :
    state.phase = .idle := by
  revert h
  cases state <;> simp [DpcmState.phase]

theorem next_trigger {ph ph' : DriverPhase} {cmd : TriggerCmd} (h : ph.triggered cmd = some ph')
    (ret : Int) : ph.next (P := P) (.trigger cmd) ret = some (if ret = 0 then ph' else ph) := by
  cases ph with
  | closed => cases cmd <;> cases h
  | halted => cases cmd <;> cases h
  | _ => simp [DriverPhase.next, h]

theorem UpFrom.triggered {cmd : TriggerCmd} {state : DpcmState} (h : UpFrom cmd state)
    (hstop : state ≠ .start) : state.phase.triggered cmd = some .running := by
  cases h with
  | running => exact absurd rfl hstop
  | _ => rfl

theorem DownFrom.triggered {c : BeCore} {cmd : TriggerCmd} {state : DpcmState}
    (h : DownFrom c cmd) (hto : DownTo cmd state) :
    c.state.phase.triggered cmd = some state.phase := by
  cases h with
  | running hc _ =>
    rw [hc]
    cases hto <;> rfl
  | paused hc _ hcmd =>
    rw [hc]
    cases hto with
    | suspend => exact absurd rfl hcmd
    | _ => rfl

theorem UpFrom.isOpen {c : BeCore} {cmd : TriggerCmd} (h : UpFrom cmd c.state) : c.isOpen := by
  unfold BeCore.isOpen
  generalize c.state = state at h
  cases h <;> simp

theorem DownTo.isOpen {cmd : TriggerCmd} {c : BeCore} (h : DownTo cmd c.state) :
    c.isOpen ∧ c.state ≠ .start := by
  unfold BeCore.isOpen
  generalize c.state = state at h
  cases h <;> simp

/-- A back end that is open and does not run, and stays so. -/
theorem Tracked.idle {c c' : BeCore} {past past' : List (PcmOp P × Int)} (h : Tracked (c, past))
    (hopen : c.state.phase ≠ .closed) (hstop : c.state.phase ≠ .running)
    (hopen' : c'.state.phase ≠ .closed) (hstop' : c'.state.phase ≠ .running)
    (hcount : c'.beStart = c.beStart) (hphase : driverPhase past' = some c'.state.phase) :
    Tracked (c', past') where
  phase := hphase
  inUse _ := isOpen_iff.mpr hopen'
  nonneg := by
    rw [hcount]
    exact h.nonneg
  starts _ := by
    have h0 : ¬ c.beStart ≠ 0 := fun hne =>
      hstop (phase_eq_running_iff.mpr ((h.starts (isOpen_iff.mpr hopen)).mp hne))
    rw [show c'.beStart = c.beStart from hcount]
    exact iff_of_false h0 fun hstart => hstop' (phase_eq_running_iff.mpr hstart)

/-- A back end that is closed. -/
theorem Tracked.closed {c : BeCore} {past : List (PcmOp P × Int)} (hcount : 0 ≤ c.beStart)
    (hu : c.users = 0) (hc : c.state.phase = .closed) (hphase : driverPhase past = some .closed) :
    Tracked (c, past) where
  phase := hphase.trans (congrArg some hc.symm)
  inUse hne := absurd hu hne
  nonneg := hcount
  starts hopen := absurd hc (isOpen_iff.mp hopen)

theorem BeMove.tracked {c c' : BeCore} {ops past : List (PcmOp P × Int)} (hmove : BeMove c ops c')
    (h : Tracked (c, past)) : Tracked (c', ops ++ past) := by
  have hphase : driverPhase past = some c.state.phase := h.phase
  have hinUse : c.users ≠ 0 → c.isOpen := h.inUse
  have hnonneg : 0 ≤ c.beStart := h.nonneg
  have hstarts : c.isOpen → (c.beStart ≠ 0 ↔ c.state = .start) := h.starts
  cases hmove with
  | join hopen =>
    have : c.isOpen := hopen.elim hinUse id
    exact ⟨hphase, fun _ => this, hnonneg, fun _ => hstarts this⟩
  | leave hu => exact ⟨hphase, fun _ => hinUse hu, hnonneg, fun hopen => hstarts hopen⟩
  | openFail hu hc hret =>
    have hclosed : c.state.phase = .closed := not_not.mp fun h => hc (isOpen_iff.mpr h)
    rw [hclosed] at hphase
    refine .closed hnonneg hu rfl (driverPhase_cons hphase ?_)
    simp [DriverPhase.next, hret]
  | opn hu hc hret =>
    have hclosed : c.state.phase = .closed := not_not.mp fun h => hc (isOpen_iff.mpr h)
    rw [hclosed] at hphase
    refine ⟨driverPhase_cons hphase ?_, fun _ => isOpen_iff.mpr (by simp [DpcmState.phase]),
      Int.le_refl 0, fun _ => by simp⟩
    simp [DriverPhase.next, hret, DpcmState.phase]
  | close hu hc =>
    refine .closed hnonneg rfl rfl (driverPhase_cons hphase ?_)
    rcases hc with hc | hc <;> rw [hc] <;> rfl
  | freeClose hu ho hf =>
    have hopen := hinUse (by omega)
    refine .closed hnonneg rfl rfl ?_
    -- freed while it runs, the driver is halted
    cases hstate : c.state.phase with
    | closed => exact absurd hstate (isOpen_iff.mp hopen)
    | halted => exact absurd hstate phase_ne_halted
    | running =>
      rw [hstate] at hphase
      have hfree (ret : Int) : driverPhase ((.hwFree, ret) :: past) = some .halted :=
        driverPhase_cons hphase rfl
      exact driverPhase_cons (hfree _) rfl
    | _ =>
      rw [hstate] at hphase
      have hfree (ret : Int) : driverPhase ((.hwFree, ret) :: past) = some .idle :=
        driverPhase_cons hphase rfl
      exact driverPhase_cons (hfree _) rfl
  | hwFree hc =>
    have hstop : c.state.phase ≠ .closed ∧ c.state.phase ≠ .running := by
      revert hc
      cases c.state <;> simp [DpcmState.phase]
    refine h.idle hstop.1 hstop.2 (by simp [DpcmState.phase]) (by simp [DpcmState.phase]) rfl
      (driverPhase_cons hphase ?_)
    revert hstop
    cases hstate : c.state.phase <;> simp [DriverPhase.next, DpcmState.phase]
    exact absurd hstate phase_ne_halted
  | hwParamsFail hc =>
    have hidle := phase_idle (List.mem_append_left [.stop] hc)
    refine ⟨driverPhase_cons hphase ?_, hinUse, hnonneg, hstarts⟩
    rw [hidle]
    rfl
  | hwParams hc =>
    have hidle := phase_idle (List.mem_append_left [.stop] hc)
    refine h.idle (by simp [hidle]) (by simp [hidle]) (by simp [DpcmState.phase])
      (by simp [DpcmState.phase]) rfl (driverPhase_cons hphase ?_)
    rw [hidle]
    rfl
  | unwind hc =>
    have hidle := phase_idle hc
    refine ⟨driverPhase_cons hphase ?_, hinUse, hnonneg, hstarts⟩
    rw [hidle]
    rfl
  | prepareFail hc hret =>
    refine ⟨driverPhase_cons hphase ?_, hinUse, hnonneg, hstarts⟩
    revert hc
    cases c.state <;> simp [DpcmState.phase, DriverPhase.next, hret]
  | prepare hc hret =>
    have hstop : c.state.phase ≠ .closed ∧ c.state.phase ≠ .running := by
      revert hc
      cases c.state <;> simp [DpcmState.phase]
    refine h.idle hstop.1 hstop.2 (by simp [DpcmState.phase]) (by simp [DpcmState.phase]) rfl
      (driverPhase_cons hphase ?_)
    revert hc
    cases c.state <;> simp [DpcmState.phase, DriverPhase.next, hret]
  | countUp h =>
    refine ⟨hphase, hinUse, Int.le_add_one hnonneg, fun hopen => ?_⟩
    have hstart := (hstarts hopen).mp h
    exact iff_of_true (show c.beStart + 1 ≠ 0 by omega) hstart
  | countDown hc h =>
    have hopen : c.isOpen := by simp [BeCore.isOpen, hc]
    have hpos := (hstarts hopen).mpr hc
    exact ⟨hphase, hinUse, show 0 ≤ c.beStart - 1 by omega, fun _ => iff_of_true h hc⟩
  | upFail h0 hc hret =>
    have hstop : c.state ≠ .start := fun hstart => (hstarts hc.isOpen).mpr hstart h0
    refine ⟨driverPhase_cons hphase ?_, hinUse, hnonneg, hstarts⟩
    rw [next_trigger (hc.triggered hstop), if_neg hret]
  | up h0 hc =>
    have hstop : c.state ≠ .start := fun hstart => (hstarts hc.isOpen).mpr hstart h0
    refine ⟨driverPhase_cons hphase (next_trigger (hc.triggered hstop) 0),
      fun _ => by simp [BeCore.isOpen], by simp, fun _ => by simp⟩
  | downFail hfrom hto hret =>
    refine ⟨driverPhase_cons hphase ?_, hinUse, hnonneg, hstarts⟩
    rw [next_trigger (hfrom.triggered hto), if_neg hret]
  | @down cmd state hfrom hto =>
    have hopen := DownTo.isOpen (c := ⟨c.users, state, 0⟩) hto
    exact ⟨driverPhase_cons hphase (next_trigger (hfrom.triggered hto) 0), fun _ => hopen.1,
      Int.le_refl 0, fun _ => iff_of_false (by simp) hopen.2⟩

theorem Tracked.steps {v v' : BeCore × List (PcmOp P × Int)} (hv : Tracked v)
    (h : Relation.ReflTransGen BeStep v v') : Tracked v' := by
  induction h with
  | refl => exact hv
  | tail _ hlast ih =>
    obtain ⟨ops, hmove, hcalls⟩ := hlast
    have := hmove.tracked ih
    rwa [← hcalls] at this

omit [DecidableEq F] in
theorem tracked_new [Inhabited P] (e : Env F B P) (nonatomic : B → Bool) (b : B) :
    Tracked (view e b (Card.new nonatomic)) :=
  .closed (Int.le_refl 0) rfl rfl rfl

theorem tracked_run [Inhabited P] (e : Env F B P) (nonatomic : B → Bool) (ops : List (Op F B P))
    (b : B) : Tracked (view e b (run e (Card.new nonatomic) ops)) :=
  (tracked_new e nonatomic b).steps (run_moves ops b)

end NoteNew.Dpcm
