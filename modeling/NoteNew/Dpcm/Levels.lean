import NoteNew.Dpcm.Accounting
import NoteNew.Sharing.Tally

/-!
# A driver does what its front ends ask for together

While the front ends are used as the PCM core uses them, `be_start` and `be_pause` count the front
ends that run and those that are paused, and the state of a back end is read off these counts. So
its driver is in the highest phase that a front end linked to it asks for: it runs while one runs,
pauses while none runs and one is paused, and is closed when none is linked.
-/

namespace NoteNew.Dpcm

open Sharing

set_option linter.unusedSectionVars false

variable {F B P : Type*} [DecidableEq F] [DecidableEq B]

/-- The states of a front end that has its parameters, and of the back ends it has them from. -/
def DpcmState.configured : List DpcmState :=
  [.hwParams, .prepare, .start, .paused, .stop]

/-- How many of the front ends of a back end are in a state. -/
def feTally (s : Card F B P) (b : B) (state : DpcmState) : Int :=
  tally (s.be b).feClients (fun f => (s.fe f).state) state

/-- The counts and the state of one back end, by the states of its front ends. -/
structure BeLevel (s : Card F B P) (b : B) : Prop where
  beStart : (s.be b).beStart = feTally s b .start
  bePause : (s.be b).bePause = feTally s b .paused
  start : (s.be b).state = .start ↔ (s.be b).beStart ≠ 0
  paused : (s.be b).state = .paused ↔ (s.be b).beStart = 0 ∧ (s.be b).bePause ≠ 0
  suspend : (s.be b).state ≠ .suspend
  configured : ∀ f ∈ (s.be b).feClients, (s.fe f).state ∈ DpcmState.configured →
    (s.be b).state ∈ DpcmState.configured
  prepared : ∀ f ∈ (s.be b).feClients, (s.fe f).state = .prepare →
    (s.be b).state ∈ TriggerCmd.start.readyStates

/-- The state and pause of a front end, by its links. -/
structure FeRuntime.Level (x : FeRuntime F B P) : Prop where
  suspend : x.state ≠ .suspend
  pause : x.fePause = true → x.state = .paused ∧ x.beClients ≠ []
  linked : x.beClients ≠ [] → x.state ∉ [.new, .close]

structure Levels (s : Card F B P) : Prop where
  accounts : Accounts s
  fe : ∀ f, (s.fe f).Level
  be : ∀ b, BeLevel s b

/-- The states in which a front end is given a command. -/
def TriggerCmd.feStates : TriggerCmd → List DpcmState
  | .start => [.prepare]
  | .stop | .pausePush => [.start]
  | .pauseRelease => [.paused]
  | .resume | .suspend | .drain => []

/-- The calls of the PCM core: a front end is opened as in a tidy run, is configured, closed or freed
only while it neither runs nor is paused, is prepared when it has its parameters, started when it is
prepared, stopped only while it runs, and not left configured where configuring it again fails. No
trigger fails, and none is bespoke. -/
def Orderly (e : Env F B P) (s : Card F B P) : Op F B P → Int → Prop
  | .opn f paths list, ret => Tidy s (.opn f paths list) ret
  | .close f, _ => (s.fe f).state ∉ [.start, .paused]
  | .hwParams f _, ret => (s.fe f).state ∉ [.start, .paused] ∧
      (0 ≤ ret ∨ (s.fe f).state ∉ DpcmState.configured)
  | .hwFree f, _ => (s.fe f).state ∉ [.start, .paused]
  | .prepare f, _ => (s.fe f).state ∈ [.hwParams, .prepare, .stop]
  | .trigger f cmd, ret =>
    (s.fe f).state ∈ cmd.feStates ∧ 0 ≤ ret ∧ e.trigger f ≠ .bespoke
  | .runtimeUpdate _ _ _ _, _ => False

instance (e : Env F B P) (s : Card F B P) : ∀ op ret, Decidable (Orderly e s op ret)
  | .opn f paths list, ret => inferInstanceAs (Decidable (Tidy s (.opn f paths list) ret))
  | .close f, _ | .hwFree f, _ => inferInstanceAs (Decidable ((s.fe f).state ∉ [_, _]))
  | .hwParams f _, ret => inferInstanceAs (Decidable ((s.fe f).state ∉ [_, _] ∧
      (0 ≤ ret ∨ (s.fe f).state ∉ DpcmState.configured)))
  | .prepare f, _ => inferInstanceAs (Decidable ((s.fe f).state ∈ [_, _, _]))
  | .trigger f cmd, ret => inferInstanceAs (Decidable ((s.fe f).state ∈ cmd.feStates ∧ 0 ≤ ret ∧
      e.trigger f ≠ .bespoke))
  | .runtimeUpdate _ _ _ _, _ => inferInstanceAs (Decidable False)

variable {e : Env F B P} {s s' : Card F B P} {f : F} {b : B}

theorem Orderly.tidy {op : Op F B P} {ret : Int} (h : Orderly e s op ret) : Tidy s op ret := by
  cases op with
  | opn f paths list => exact h
  | runtimeUpdate f new paths list => exact h
  | _ => trivial

/-! ## One back end -/

theorem feTally_nonneg {state : DpcmState} : 0 ≤ feTally s b state := tally_nonneg

theorem feTally_eq_zero {state : DpcmState} :
    feTally s b state = 0 ↔ ∀ f ∈ (s.be b).feClients, (s.fe f).state ≠ state :=
  tally_eq_zero_iff

theorem feTally_ne_zero {state : DpcmState} :
    feTally s b state ≠ 0 ↔ ∃ f ∈ (s.be b).feClients, (s.fe f).state = state :=
  tally_ne_zero_iff

theorem feTally_congr {state : DpcmState} (hbe : (s'.be b).feClients = (s.be b).feClients)
    (hfe : ∀ f ∈ (s.be b).feClients, (s'.fe f).state = state ↔ (s.fe f).state = state) :
    feTally s' b state = feTally s b state := by
  rw [feTally, feTally, hbe]
  exact tally_congr hfe

/-- Nothing has changed that the level of a back end depends on. -/
theorem BeLevel.congr (h : BeLevel s b) (hbe : s'.be b = s.be b)
    (hfe : ∀ f ∈ (s.be b).feClients, (s'.fe f).state = (s.fe f).state) : BeLevel s' b := by
  have htally (state : DpcmState) : feTally s' b state = feTally s b state :=
    feTally_congr (congrArg _ hbe) fun f hf => by rw [hfe f hf]
  refine ⟨?_, ?_, ?_, ?_, ?_, ?_, ?_⟩
  · rw [htally, hbe]
    exact h.beStart
  · rw [htally, hbe]
    exact h.bePause
  · rw [hbe]
    exact h.start
  · rw [hbe]
    exact h.paused
  · rw [hbe]
    exact h.suspend
  · rw [hbe]
    intro g hg hstate
    rw [hfe g hg] at hstate
    exact h.configured g hg hstate
  · rw [hbe]
    intro g hg hstate
    rw [hfe g hg] at hstate
    exact h.prepared g hg hstate

theorem BeLevel.start_of_fe (h : BeLevel s b) (hf : f ∈ (s.be b).feClients)
    (hstate : (s.fe f).state = .start) : (s.be b).state = .start := by
  rw [h.start, h.beStart]
  exact feTally_ne_zero.mpr ⟨f, hf, hstate⟩

theorem BeLevel.paused_of_fe (h : BeLevel s b) (hf : f ∈ (s.be b).feClients)
    (hstate : (s.fe f).state = .paused) : (s.be b).state = .start ∨ (s.be b).state = .paused := by
  rw [h.start, h.paused]
  by_cases hzero : (s.be b).beStart = 0
  · refine .inr ⟨hzero, ?_⟩
    rw [h.bePause]
    exact feTally_ne_zero.mpr ⟨f, hf, hstate⟩
  · exact .inl hzero

/-- A back end none of whose front ends runs or is paused. -/
theorem BeLevel.calm (h : BeLevel s b)
    (hcalm : ∀ f ∈ (s.be b).feClients, (s.fe f).state ∉ [DpcmState.start, .paused]) :
    (s.be b).beStart = 0 ∧ (s.be b).bePause = 0 := by
  rw [h.beStart, h.bePause, feTally_eq_zero, feTally_eq_zero]
  constructor
  · intro f hf hstate
    refine hcalm f hf ?_
    simp [hstate]
  · intro f hf hstate
    refine hcalm f hf ?_
    simp [hstate]

/-- An operation of a front end that neither runs nor is paused, behind which it is so still. -/
theorem BeLevel.restated (h : BeLevel s b) (hrest : Restated (s.be b) (s'.be b))
    (hothers : ∀ g ≠ f, (s'.fe g).state = (s.fe g).state)
    (hold : (s.fe f).state ∉ [.start, .paused]) (hnew : (s'.fe f).state ∉ [.start, .paused])
    (hstate : (s'.be b).state = (s.be b).state ∨ (s.be b).beStart = 0 ∧ (s.be b).bePause = 0 ∧
      (s'.be b).state ∉ [.start, .paused, .suspend])
    (hconf : ∀ g ∈ (s.be b).feClients, (s'.fe g).state ∈ DpcmState.configured →
      (s'.be b).state ∈ DpcmState.configured)
    (hprep : ∀ g ∈ (s.be b).feClients, (s'.fe g).state = .prepare →
      (s'.be b).state ∈ TriggerCmd.start.readyStates) : BeLevel s' b := by
  have htally (state : DpcmState) (hst : state ∈ [.start, .paused]) :
      feTally s' b state = feTally s b state := by
    refine feTally_congr hrest.feClients fun g _ => ?_
    by_cases hg : g = f
    · subst hg
      refine iff_of_false ?_ ?_
      · rintro rfl
        exact hnew hst
      · rintro rfl
        exact hold hst
    · rw [hothers g hg]
  refine ⟨?_, ?_, ?_, ?_, ?_, ?_, ?_⟩
  · rw [hrest.beStart, htally _ (by simp)]
    exact h.beStart
  · rw [hrest.bePause, htally _ (by simp)]
    exact h.bePause
  · rw [hrest.beStart]
    rcases hstate with hsame | ⟨hstart, -, hnot⟩
    · rw [hsame]
      exact h.start
    · refine iff_of_false ?_ (not_not.mpr hstart)
      simp only [List.mem_cons, not_or] at hnot
      exact hnot.1
  · rw [hrest.beStart, hrest.bePause]
    rcases hstate with hsame | ⟨-, hpause, hnot⟩
    · rw [hsame]
      exact h.paused
    · refine iff_of_false ?_ fun hp => hp.2 hpause
      simp only [List.mem_cons, not_or] at hnot
      exact hnot.2.1
  · rcases hstate with hsame | ⟨-, -, hnot⟩
    · rw [hsame]
      exact h.suspend
    · simp only [List.mem_cons, not_or] at hnot
      exact hnot.2.2.1
  · rw [hrest.feClients]
    exact hconf
  · rw [hrest.feClients]
    exact hprep

theorem BeAccount.alone (h : BeAccount s b) (hu : (s.be b).users ≤ 1)
    (hf : f ∈ (s.be b).feClients) {g : F} (hg : g ∈ (s.be b).feClients) : g = f := by
  have husers := h.users
  have hpos := List.length_pos_of_mem hf
  obtain ⟨c, hc⟩ := List.length_eq_one_iff.mp (show (s.be b).feClients.length = 1 by omega)
  rw [hc] at hf hg
  exact (List.mem_singleton.mp hg).trans (List.mem_singleton.mp hf).symm

section Configure

variable (h : BeLevel s b) (hothers : ∀ g ≠ f, (s'.fe g).state = (s.fe g).state)
include h hothers

/-- A back end that is free behind the operation has no other front end. -/
theorem BeLevel.freed (hacc : BeAccount s b) (hf : f ∈ (s.be b).feClients)
    (hold : (s.fe f).state ∉ [.start, .paused])
    (hnew : (s'.fe f).state ∉ DpcmState.configured) (hu : (s.be b).users ≤ 1)
    (hrest : Restated (s.be b) (s'.be b)) (hstate : (s'.be b).state = .hwFree) : BeLevel s' b := by
  have halone {g : F} (hg : g ∈ (s.be b).feClients) : g = f := hacc.alone hu hf hg
  have hcalm := h.calm fun g hg => by rw [halone hg]; exact hold
  refine h.restated hrest hothers hold (fun hmem => hnew ?_) (.inr ⟨hcalm.1, hcalm.2, ?_⟩) ?_ ?_
  · revert hmem
    cases (s'.fe f).state <;> simp [DpcmState.configured]
  · simp [hstate]
  · intro g hg hconf
    rw [halone hg] at hconf
    exact absurd hconf hnew
  · intro g hg hprep
    rw [halone hg] at hprep
    exact absurd (by simp [hprep, DpcmState.configured]) hnew

/-- A back end that stays as it is under a front end that has no parameters. -/
theorem BeLevel.unchanged (hold : (s.fe f).state ∉ [.start, .paused])
    (hnew : (s'.fe f).state ∉ DpcmState.configured)
    (hrest : Restated (s.be b) (s'.be b)) (hstate : (s'.be b).state = (s.be b).state) :
    BeLevel s' b := by
  refine h.restated hrest hothers hold (fun hmem => hnew ?_) (.inl hstate) ?_ ?_
  · revert hmem
    cases (s'.fe f).state <;> simp [DpcmState.configured]
  · intro g hg hconf
    rw [hstate]
    by_cases hgf : g = f
    · rw [hgf] at hconf
      exact absurd hconf hnew
    · rw [hothers g hgf] at hconf
      exact h.configured g hg hconf
  · intro g hg hprep
    rw [hstate]
    by_cases hgf : g = f
    · rw [hgf] at hprep
      exact absurd (by simp [hprep, DpcmState.configured]) hnew
    · rw [hothers g hgf] at hprep
      exact h.prepared g hg hprep

/-- A back end that is configured behind the operation has no other front end that is prepared. -/
theorem BeLevel.hwParams (hold : (s.fe f).state ∉ [.start, .paused])
    (hnew : (s'.fe f).state ∉ [.start, .paused, .prepare]) (hconf : Configurable s f b)
    (hrest : Restated (s.be b) (s'.be b)) (hstate : (s'.be b).state = .hwParams) :
    BeLevel s' b := by
  have hcheck := sndSocDpcmCheckState_iff.mp hconf.1
  have hcalm := h.calm fun g hg => by
    by_cases hgf : g = f
    · rw [hgf]
      exact hold
    · have := hcheck g hg hgf
      simp only [List.mem_cons, not_or] at this ⊢
      tauto
  refine h.restated hrest hothers hold ?_ (.inr ⟨hcalm.1, hcalm.2, ?_⟩) ?_ ?_
  · simp only [List.mem_cons, not_or] at hnew ⊢
    tauto
  · simp [hstate]
  · intro g _ _
    simp [hstate, DpcmState.configured]
  · intro g hg hprep
    by_cases hgf : g = f
    · rw [hgf] at hprep
      simp [hprep] at hnew
    · rw [hothers g hgf] at hprep
      have := hcheck g hg hgf
      simp [hprep] at this

/-- A back end that is not configured, although the front end has got parameters, has another front
end that is prepared or more. -/
theorem BeLevel.hwParamsKept (hacc : BeAccount s b) (hf : f ∈ (s.be b).feClients)
    (hold : (s.fe f).state ∉ [.start, .paused])
    (hnew : (s'.fe f).state = .hwParams) (hsuspend : ∀ g, (s.fe g).state ≠ .suspend)
    (hconf : ¬ Configurable s f b) (hrest : Restated (s.be b) (s'.be b))
    (hstate : (s'.be b).state = (s.be b).state) : BeLevel s' b := by
  have hother : (s.be b).state ∈ DpcmState.configured := by
    by_cases hcan : sndSocDpcmCanBeParams s f b = true
    · have hopen : ¬ (s.be b).Closed := by
        rw [← hacc.closed, hacc.unlinked_iff]
        exact List.ne_nil_of_mem hf
      have hnot : (s.be b).state ∉ [.opened, .hwParams, .hwFree] := fun hmem => hconf ⟨hcan, hmem⟩
      have hsusp := h.suspend
      rw [closed_iff] at hopen
      revert hopen hnot hsusp
      cases (s.be b).state <;> simp [DpcmState.configured]
    · have hex : ∃ g ∈ (s.be b).feClients, g ≠ f ∧
          (s.fe g).state ∈ [.start, .paused, .suspend, .prepare] := by
        by_contra hno
        refine hcan (sndSocDpcmCheckState_iff.mpr fun g hg hgf hmem => hno ⟨g, hg, hgf, hmem⟩)
      obtain ⟨g, hg, -, hmem⟩ := hex
      refine h.configured g hg ?_
      have hsusp := hsuspend g
      revert hmem hsusp
      cases (s.fe g).state <;> simp [DpcmState.configured]
  refine h.restated hrest hothers hold (by simp [hnew]) (.inl hstate) ?_ ?_
  · intro _ _ _
    rw [hstate]
    exact hother
  · intro g hg hprep
    rw [hstate]
    by_cases hgf : g = f
    · rw [hgf, hnew] at hprep
      cases hprep
    · rw [hothers g hgf] at hprep
      exact h.prepared g hg hprep

/-- A back end that is prepared behind the operation has no other front end that runs or is
paused. -/
theorem BeLevel.prepare (hold : (s.fe f).state ∉ [.start, .paused])
    (hnew : (s'.fe f).state ∉ [.start, .paused]) (hprep : Preparable s f b)
    (hrest : Restated (s.be b) (s'.be b)) (hstate : (s'.be b).state = .prepare) :
    BeLevel s' b := by
  have hcheck := sndSocDpcmCheckState_iff.mp hprep.1
  have hcalm := h.calm fun g hg => by
    by_cases hgf : g = f
    · rw [hgf]
      exact hold
    · have := hcheck g hg hgf
      simp only [List.mem_cons, not_or] at this ⊢
      tauto
  refine h.restated hrest hothers hold hnew (.inr ⟨hcalm.1, hcalm.2, ?_⟩) ?_ ?_
  · simp [hstate]
  · intro _ _ _
    simp [hstate, DpcmState.configured]
  · intro _ _ _
    simp [hstate, TriggerCmd.readyStates]

/-- A back end that is not prepared, although its front end is, was prepared already. -/
theorem BeLevel.prepareKept (hf : f ∈ (s.be b).feClients)
    (hold : (s.fe f).state ∈ [.hwParams, .prepare, .stop])
    (hnew : (s'.fe f).state = .prepare) (hprep : ¬ Preparable s f b)
    (hrest : Restated (s.be b) (s'.be b)) (hstate : (s'.be b).state = (s.be b).state) :
    BeLevel s' b := by
  have hconf : (s.be b).state ∈ DpcmState.configured := by
    refine h.configured f hf ?_
    revert hold
    cases (s.fe f).state <;> simp [DpcmState.configured]
  have hready : (s.be b).state ∈ TriggerCmd.start.readyStates := by
    by_cases hcan : sndSocDpcmCanBePrepared s f b = true
    · have hnot : (s.be b).state ∉ [.hwParams, .stop, .suspend, .paused] :=
        fun hmem => hprep ⟨hcan, hmem⟩
      revert hconf hnot
      cases (s.be b).state <;> simp [DpcmState.configured, TriggerCmd.readyStates]
    · have hex : ∃ g ∈ (s.be b).feClients, (s.fe g).state ∈ [.start, .paused, .prepare] := by
        by_contra hno
        refine hcan (sndSocDpcmCheckState_iff.mpr fun g hg _ hmem => hno ⟨g, hg, hmem⟩)
      obtain ⟨g, hg, hmem⟩ := hex
      simp only [List.mem_cons, List.not_mem_nil, or_false] at hmem
      rcases hmem with hg' | hg' | hg'
      · simp [h.start_of_fe hg hg', TriggerCmd.readyStates]
      · rcases h.paused_of_fe hg hg' with hst | hst <;> simp [hst, TriggerCmd.readyStates]
      · exact h.prepared g hg hg'
  refine h.restated hrest hothers ?_ (by simp [hnew]) (.inl hstate) ?_ ?_
  · revert hold
    cases (s.fe f).state <;> simp
  · intro _ _ _
    rw [hstate]
    exact hconf
  · intro _ _ _
    rw [hstate]
    exact hready

end Configure

/-- The counts follow the front end that was triggered. -/
theorem BeLevel.counted {cmd : TriggerCmd} (h : BeLevel s b) (hacc : BeAccount s b)
    (hf : f ∈ (s.be b).feClients) (hothers : ∀ g ≠ f, (s'.fe g).state = (s.fe g).state)
    (hold : (s.fe f).state ∈ cmd.feStates)
    (hnew : (s'.fe f).state = cmd.feState (s.fe f).state)
    (hc : Counted cmd (s.be b) (s'.be b)) : BeLevel s' b := by
  have htally (state : DpcmState) : feTally s' b state = feTally s b state -
      (if (s.fe f).state = state then 1 else 0) + if (s'.fe f).state = state then 1 else 0 := by
    rw [feTally, feTally, hc.use.feClients]
    exact tally_move hacc.nodup hf hothers
  have hcounts : (s'.be b).beStart = feTally s' b .start ∧
      (s'.be b).bePause = feTally s' b .paused := by
    rw [hc.beStart, hc.bePause, htally, htally, hnew, h.beStart, h.bePause]
    cases cmd with
    | start =>
      have hst : (s.fe f).state = .prepare := by simpa [TriggerCmd.feStates] using hold
      simp [hst, TriggerCmd.feState, TriggerCmd.deltas]
    | stop =>
      have hst : (s.fe f).state = .start := by simpa [TriggerCmd.feStates] using hold
      simp [hst, TriggerCmd.feState, TriggerCmd.deltas]
      rfl
    | pausePush =>
      have hst : (s.fe f).state = .start := by simpa [TriggerCmd.feStates] using hold
      simp [hst, TriggerCmd.feState, TriggerCmd.deltas]
      rfl
    | pauseRelease =>
      have hst : (s.fe f).state = .paused := by simpa [TriggerCmd.feStates] using hold
      simp [hst, TriggerCmd.feState, TriggerCmd.deltas]
      rfl
    | resume => simp [TriggerCmd.feStates] at hold
    | suspend => simp [TriggerCmd.feStates] at hold
    | drain => simp [TriggerCmd.feStates] at hold
  have hstate := hc.state
  refine ⟨hcounts.1, hcounts.2, ?_, ?_, ?_, fun _ _ _ => ?_, fun _ _ _ => ?_⟩
  all_goals
    rw [hstate, DpcmState.ofCounts]
    by_cases hstart : (s'.be b).beStart = 0
    · by_cases hpause : (s'.be b).bePause = 0
      · simp [hstart, hpause, DpcmState.configured, TriggerCmd.readyStates]
      · simp [hstart, hpause, DpcmState.configured, TriggerCmd.readyStates]
    · simp [hstart, DpcmState.configured, TriggerCmd.readyStates]

/-- A back end is ready for the commands its front ends are given. -/
theorem BeLevel.ready {cmd : TriggerCmd} (h : BeLevel s b) (hf : f ∈ (s.be b).feClients)
    (hold : (s.fe f).state ∈ cmd.feStates) : Ready cmd (s.be b) := by
  refine ⟨?_, ?_, h.start.symm, ?_⟩
  · rw [h.beStart]
    exact feTally_nonneg
  · rw [h.bePause]
    exact feTally_nonneg
  · cases cmd with
    | start => exact h.prepared f hf (by simpa [TriggerCmd.feStates] using hold)
    | stop =>
      simp [h.start_of_fe hf (by simpa [TriggerCmd.feStates] using hold), TriggerCmd.readyStates]
    | pausePush =>
      simp [h.start_of_fe hf (by simpa [TriggerCmd.feStates] using hold), TriggerCmd.readyStates]
    | pauseRelease =>
      rcases h.paused_of_fe hf (by simpa [TriggerCmd.feStates] using hold) with hst | hst
      · simp [hst, TriggerCmd.readyStates]
      · simp [hst, TriggerCmd.readyStates]
    | resume => simp [TriggerCmd.feStates] at hold
    | suspend => simp [TriggerCmd.feStates] at hold
    | drain => simp [TriggerCmd.feStates] at hold

/-- A back end that is used by the same front ends as before. -/
theorem BeLevel.kept (h : BeLevel s b) (hacc : BeAccount s b) (hk : Kept (s.be b) (s'.be b))
    (hfe : ∀ g ∈ (s.be b).feClients, (s'.fe g).state = (s.fe g).state) : BeLevel s' b := by
  have htally (state : DpcmState) : feTally s' b state = feTally s b state :=
    feTally_congr hk.feClients fun g hg => by rw [hfe g hg]
  by_cases hu : (s.be b).users = 0
  · have hnone := hacc.unlinked_iff.mp hu
    have hzero (state : DpcmState) : feTally s b state = 0 :=
      feTally_eq_zero.mpr (by simp [hnone])
    have hclosed := closed_iff.mp (hk.unused hu (hacc.closed.mp hu))
    have hstart : (s'.be b).beStart = 0 := hk.unstarted (by rw [h.beStart, hzero])
    have hpause : (s'.be b).bePause = 0 := by rw [hk.bePause, h.bePause, hzero]
    refine ⟨?_, ?_, ?_, ?_, ?_, ?_, ?_⟩
    · rw [hstart, htally, hzero]
    · rw [hpause, htally, hzero]
    · refine iff_of_false ?_ (not_not.mpr hstart)
      intro hst
      simp [hst] at hclosed
    · refine iff_of_false ?_ fun hp => hp.2 hpause
      intro hst
      simp [hst] at hclosed
    · intro hst
      simp [hst] at hclosed
    · simp [hk.feClients, hnone]
    · simp [hk.feClients, hnone]
  · obtain ⟨hstate, hstart⟩ := hk.inUse hu
    refine ⟨?_, ?_, ?_, ?_, ?_, ?_, ?_⟩
    · rw [hstart, htally, h.beStart]
    · rw [hk.bePause, htally, h.bePause]
    · rw [hstate, hstart]
      exact h.start
    · rw [hstate, hstart, hk.bePause]
      exact h.paused
    · rw [hstate]
      exact h.suspend
    · rw [hk.feClients, hstate]
      intro g hg hconf
      rw [hfe g hg] at hconf
      exact h.configured g hg hconf
    · rw [hk.feClients, hstate]
      intro g hg hprep
      rw [hfe g hg] at hprep
      exact h.prepared g hg hprep

/-- A back end that a front end has come to. -/
theorem BeLevel.joined (h : BeLevel s b) (hacc : BeAccount s b) (hj : Joined f (s.be b) (s'.be b))
    (hfe : ∀ g ∈ (s.be b).feClients, (s'.fe g).state = (s.fe g).state)
    (hnew : (s'.fe f).state = .opened) : BeLevel s' b := by
  have htally (state : DpcmState) (hst : state ≠ .opened) :
      feTally s' b state = feTally s b state := by
    rw [feTally, feTally, hj.feClients, tally_cons, hnew, if_neg hst.symm, Int.add_zero]
    exact tally_congr fun g hg => by rw [hfe g hg]
  by_cases hu : (s.be b).users = 0
  · have hnone := hacc.unlinked_iff.mp hu
    have hzero (state : DpcmState) : feTally s b state = 0 :=
      feTally_eq_zero.mpr (by simp [hnone])
    obtain ⟨hstate, hstart, -⟩ := hj.unused hu
    have hpause : (s'.be b).bePause = 0 := by rw [hj.bePause, h.bePause, hzero]
    refine ⟨?_, ?_, ?_, ?_, ?_, ?_, ?_⟩
    · rw [hstart, htally _ (by simp), hzero]
    · rw [hpause, htally _ (by simp), hzero]
    · simp [hstate, hstart]
    · simp [hstate, hpause]
    · simp [hstate]
    · simp [hj.feClients, hnone, hnew, DpcmState.configured]
    · simp [hj.feClients, hnone, hnew]
  · obtain ⟨hstate, hstart, -⟩ := hj.inUse hu
    refine ⟨?_, ?_, ?_, ?_, ?_, ?_, ?_⟩
    · rw [hstart, htally _ (by simp), h.beStart]
    · rw [hj.bePause, htally _ (by simp), h.bePause]
    · rw [hstate, hstart]
      exact h.start
    · rw [hstate, hstart, hj.bePause]
      exact h.paused
    · rw [hstate]
      exact h.suspend
    · rw [hj.feClients, hstate]
      intro g hg hconf
      rcases List.mem_cons.mp hg with rfl | hg
      · simp [hnew, DpcmState.configured] at hconf
      · rw [hfe g hg] at hconf
        exact h.configured g hg hconf
    · rw [hj.feClients, hstate]
      intro g hg hprep
      rcases List.mem_cons.mp hg with rfl | hg
      · simp [hnew] at hprep
      · rw [hfe g hg] at hprep
        exact h.prepared g hg hprep

/-- A back end that a front end has gone from. -/
theorem BeLevel.gone (h : BeLevel s b) (hacc : BeAccount s b) (hf : f ∈ (s.be b).feClients)
    (hg : Gone f (s.be b) (s'.be b)) (hothers : ∀ g ≠ f, (s'.fe g).state = (s.fe g).state)
    (hold : (s.fe f).state ∉ [.start, .paused]) : BeLevel s' b := by
  have hmem : ∀ g ∈ (s'.be b).feClients, g ∈ (s.be b).feClients ∧ g ≠ f := by
    intro g hg'
    rw [hg.feClients, List.mem_filter] at hg'
    exact ⟨hg'.1, by simpa using hg'.2⟩
  have htally (state : DpcmState) (hst : state ∈ [.start, .paused]) :
      feTally s' b state = feTally s b state := by
    have hne : (s.fe f).state ≠ state := by
      rintro rfl
      exact hold hst
    rw [feTally, feTally, hg.feClients,
      ← tally_filter (fun g => (s.fe g).state) hne]
    refine tally_congr fun g hg' => ?_
    rw [← hg.feClients] at hg'
    rw [hothers g (hmem g hg').2]
  have hstart : (s'.be b).beStart = feTally s' b .start := by
    rw [hg.beStart, htally _ (by simp), h.beStart]
  have hpause : (s'.be b).bePause = feTally s' b .paused := by
    rw [hg.bePause, htally _ (by simp), h.bePause]
  by_cases hone : (s.be b).users = 1
  · have hnone : ∀ g ∈ (s'.be b).feClients, False := fun g hg' =>
      (hmem g hg').2 (hacc.alone (by omega) hf (hmem g hg').1)
    have hzero (state : DpcmState) : feTally s' b state = 0 :=
      feTally_eq_zero.mpr fun g hg' => (hnone g hg').elim
    have hstate := hg.unused hone
    rw [hzero] at hstart hpause
    refine ⟨?_, ?_, ?_, ?_, ?_, ?_, ?_⟩
    · rw [hstart, hzero]
    · rw [hpause, hzero]
    · simp [hstate, hstart]
    · simp [hstate, hpause]
    · simp [hstate]
    · exact fun g hg' => (hnone g hg').elim
    · exact fun g hg' => (hnone g hg').elim
  · have hstate := (hg.inUse hone).1
    refine ⟨hstart, hpause, ?_, ?_, ?_, ?_, ?_⟩
    · rw [hstate, hg.beStart]
      exact h.start
    · rw [hstate, hg.beStart, hg.bePause]
      exact h.paused
    · rw [hstate]
      exact h.suspend
    · intro g hg' hconf
      rw [hothers g (hmem g hg').2] at hconf
      rw [hstate]
      exact h.configured g (hmem g hg').1 hconf
    · intro g hg' hprep
      rw [hothers g (hmem g hg').2] at hprep
      rw [hstate]
      exact h.prepared g (hmem g hg').1 hprep

/-! ## Steps -/

theorem Levels.update {x : FeRuntime F B P} (h : Levels s) (hacc : Accounts s')
    (hfe : s'.fe = Function.update s.fe f x) (hx : x.Level) (hbe : ∀ b, BeLevel s' b) :
    Levels s' := by
  refine ⟨hacc, fun g => ?_, hbe⟩
  by_cases hg : g = f
  · subst hg
    rw [hfe, Function.update_self]
    exact hx
  · rw [hfe, Function.update_of_ne hg]
    exact h.fe g

/-- An operation on the back ends of `f` that leaves the links as they are. -/
theorem Levels.on {x : FeRuntime F B P} (h : Levels s) (hacc : Accounts s')
    (hfe : s'.fe = Function.update s.fe f x) (hx : x.Level)
    (hon : ∀ b ∈ clients s f, f ∈ (s.be b).feClients → BeLevel s' b)
    (hoff : ∀ b ∉ clients s f, s'.be b = s.be b) : Levels s' := by
  refine h.update hacc hfe hx fun b => ?_
  have hlinked := ((h.accounts.be b).linked f)
  by_cases hb : b ∈ clients s f
  · exact hon b hb (hlinked.mp hb)
  · refine (h.be b).congr (hoff b hb) fun g hg => state_of_ne hfe ?_
    rintro rfl
    exact hb (hlinked.mpr hg)

/-- The level of a front end that gets another state without being paused. -/
theorem FeRuntime.Level.state {x : FeRuntime F B P} (h : x.Level) (params : P) {state : DpcmState}
    (hold : x.state ≠ .paused) (hsuspend : state ≠ .suspend)
    (hlinked : state ∉ [.new, .close] ∨ state = x.state) :
    FeRuntime.Level { x with hwParams := params, state := state } := by
  refine ⟨hsuspend, fun hp => absurd (h.pause hp).1 hold, fun hl => ?_⟩
  rcases hlinked with hst | hst
  · exact hst
  · exact hst ▸ h.linked hl

theorem Levels.opened {list : List B} (h : Levels s) (hacc : Accounts s')
    (hnone : clients s f = []) (ho : OpenedOn f list s s') : Levels s' := by
  have hnot := h.accounts.not_linked hnone
  obtain ⟨links, runtime, state, hlinks, hstate, hfe⟩ := ho.fe
  have hothers (b : B) : ∀ g ∈ (s.be b).feClients, (s'.fe g).state = (s.fe g).state :=
    fun g hg => state_of_ne hfe (ne_of_mem_of_not_mem hg (hnot b))
  refine h.update hacc hfe ⟨?_, fun hp => ?_, fun hl => ?_⟩ fun b => ?_
  · rcases hstate with hst | hst
    · exact hst ▸ (h.fe f).suspend
    · simp [hst]
  · exact absurd (List.map_eq_nil_iff.mp hnone) ((h.fe f).pause hp).2
  · simp [(hlinks.resolve_left hl).1]
  · by_cases hb : b ∈ clients s' f
    · refine (h.be b).joined (h.accounts.be b) (ho.on b hb) (hothers b) ?_
      have hl : links ≠ [] := by
        rintro rfl
        simp [clients, hfe] at hb
      rw [hfe, Function.update_self]
      exact (hlinks.resolve_left hl).1
    · exact (h.be b).kept (h.accounts.be b) (ho.off b hb) (hothers b)

theorem Levels.closed (h : Levels s) (hacc : Accounts s')
    (hold : (s.fe f).state ∉ [.start, .paused])
    (hfe : s'.fe = Function.update s.fe f
      { s.fe f with beClients := [], runtime := none, state := .close })
    (hbe : ∀ b, (b ∈ clients s f → Gone f (s.be b) (s'.be b)) ∧
      (b ∉ clients s f → s'.be b = s.be b)) : Levels s' := by
  refine h.on hacc hfe ⟨by simp, fun hp => ?_, fun hl => absurd rfl hl⟩ (fun b hb hf => ?_)
    fun b hb => (hbe b).2 hb
  · simp [((h.fe f).pause hp).1] at hold
  · exact (h.be b).gone (h.accounts.be b) hf ((hbe b).1 hb) (fun g hg => state_of_ne hfe hg) hold

/-- An operation of a front end that neither runs nor is paused. -/
theorem Levels.handled {state : DpcmState} {on : B → BeRuntime F P → BeRuntime F P → Prop}
    (h : Levels s) (hacc : Accounts s') (hold : (s.fe f).state ∉ [.start, .paused])
    (hsuspend : state ≠ .suspend) (hlinked : state ∉ [.new, .close] ∨ state = (s.fe f).state)
    (hh : Handled f state on s s')
    (hon : ∀ b, f ∈ (s.be b).feClients → on b (s.be b) (s'.be b) → (s'.fe f).state = state →
      (∀ g ≠ f, (s'.fe g).state = (s.fe g).state) → BeLevel s' b) : Levels s' := by
  obtain ⟨params, hfe⟩ := hh.fe
  have hself : (s'.fe f).state = state := by rw [hfe, Function.update_self]
  refine h.on hacc hfe ((h.fe f).state params ?_ hsuspend hlinked) (fun b hb hf => ?_) hh.off
  · intro hp
    simp [hp] at hold
  · exact hon b hf (hh.on b hb) hself fun g hg => state_of_ne hfe hg

theorem Levels.hwFree (h : Levels s) (hacc : Accounts s')
    (hold : (s.fe f).state ∉ [.start, .paused])
    (hh : Handled f .hwFree (fun b => Advanced (Freeable s f b) .hwFree) s s') : Levels s' := by
  refine h.handled hacc hold (by simp) (.inl (by simp)) hh fun b hf hb hself hothers => ?_
  have hnew : (s'.fe f).state ∉ DpcmState.configured := by simp [hself, DpcmState.configured]
  by_cases hfree : Freeable s f b
  · exact (h.be b).freed hothers (h.accounts.be b) hf hold hnew hfree.2.1 hb.restated
      (hb.of_cond hfree)
  · exact (h.be b).unchanged hothers hold hnew hb.restated (hb.of_not hfree)

theorem Levels.hwParams (h : Levels s) (hacc : Accounts s')
    (hold : (s.fe f).state ∉ [.start, .paused])
    (hh : Handled f .hwParams (fun b => Advanced (Configurable s f b) .hwParams) s s') :
    Levels s' := by
  refine h.handled hacc hold (by simp) (.inl (by simp)) hh fun b hf hb hself hothers => ?_
  by_cases hconf : Configurable s f b
  · exact (h.be b).hwParams hothers hold (by simp [hself]) hconf hb.restated (hb.of_cond hconf)
  · exact (h.be b).hwParamsKept hothers (h.accounts.be b) hf hold hself
      (fun g => (h.fe g).suspend) hconf hb.restated (hb.of_not hconf)

theorem Levels.hwParamsFailed (h : Levels s) (hacc : Accounts s')
    (hold : (s.fe f).state ∉ [.start, .paused]) (hnew : (s.fe f).state ∉ DpcmState.configured)
    (hh : Handled f (s.fe f).state (fun b => Unconfigured s f b) s s') : Levels s' := by
  refine h.handled hacc hold (h.fe f).suspend (.inr rfl) hh fun b hf hb hself hothers => ?_
  rw [← hself] at hnew
  rcases hb.state with hst | ⟨hconf, hst⟩ | ⟨hu, -, hst⟩
  · exact (h.be b).unchanged hothers hold hnew hb.restated hst
  · refine (h.be b).hwParams hothers hold (fun hmem => hnew ?_) hconf hb.restated hst
    revert hmem
    cases (s'.fe f).state <;> simp [DpcmState.configured]
  · exact (h.be b).freed hothers (h.accounts.be b) hf hold hnew hu hb.restated hst

theorem Levels.prepare (h : Levels s) (hacc : Accounts s')
    (hold : (s.fe f).state ∈ [.hwParams, .prepare, .stop])
    (hh : Handled f .prepare (fun b => Advanced (Preparable s f b) .prepare) s s') :
    Levels s' := by
  have hcalm : (s.fe f).state ∉ [.start, .paused] := by
    revert hold
    cases (s.fe f).state <;> simp
  refine h.handled hacc hcalm (by simp) (.inl (by simp)) hh fun b hf hb hself hothers => ?_
  by_cases hprep : Preparable s f b
  · exact (h.be b).prepare hothers hcalm (by simp [hself]) hprep hb.restated (hb.of_cond hprep)
  · exact (h.be b).prepareKept hothers hf hold hself hprep hb.restated (hb.of_not hprep)

theorem Levels.prepareFailed (h : Levels s) (hacc : Accounts s')
    (hold : (s.fe f).state ∈ [.hwParams, .prepare, .stop])
    (hh : Handled f (s.fe f).state
      (fun b x x' => ∃ c : Prop, (c → Preparable s f b) ∧ Advanced c .prepare x x') s s') :
    Levels s' := by
  have hcalm : (s.fe f).state ∉ [.start, .paused] := by
    revert hold
    cases (s.fe f).state <;> simp
  refine h.handled hacc hcalm (h.fe f).suspend (.inr rfl) hh fun b hf hb hself hothers => ?_
  obtain ⟨c, hc, hadv⟩ := hb
  have hsame : ∀ g, (s'.fe g).state = (s.fe g).state := by
    intro g
    by_cases hg : g = f
    · rw [hg, hself]
    · exact hothers g hg
  by_cases hc' : c
  · exact (h.be b).prepare hothers hcalm (by rwa [hself]) (hc hc') hadv.restated (hadv.of_cond hc')
  · refine (h.be b).restated hadv.restated hothers hcalm (by rwa [hself])
      (.inl (hadv.of_not hc')) (fun g hg hconf => ?_) fun g hg hprep => ?_
    · rw [hsame g] at hconf
      rw [hadv.of_not hc']
      exact (h.be b).configured g hg hconf
    · rw [hsame g] at hprep
      rw [hadv.of_not hc']
      exact (h.be b).prepared g hg hprep

theorem TriggerCmd.onFe_level {cmd : TriggerCmd} {x : FeRuntime F B P} (h : x.Level)
    (hold : x.state ∈ cmd.feStates) :
    FeRuntime.Level { cmd.onFe x with state := cmd.feState x.state } := by
  have hpause := h.pause
  cases cmd with
  | start =>
    have hst : x.state = .prepare := by simpa [TriggerCmd.feStates] using hold
    refine ⟨by simp [TriggerCmd.feState], fun hp => ?_, fun _ => by simp [TriggerCmd.feState]⟩
    have : x.fePause = true := by simpa [TriggerCmd.onFe, TriggerCmd.fePause] using hp
    simp [hst] at hpause
    simp [hpause] at this
  | stop =>
    have hst : x.state = .start := by simpa [TriggerCmd.feStates] using hold
    refine ⟨by simp [TriggerCmd.feState], fun hp => ?_, fun _ => by simp [TriggerCmd.feState]⟩
    have : x.fePause = true := by simpa [TriggerCmd.onFe, TriggerCmd.fePause] using hp
    simp [hst] at hpause
    simp [hpause] at this
  | pausePush =>
    refine ⟨by simp [TriggerCmd.feState], fun hp => ⟨rfl, fun hl => ?_⟩,
      fun _ => by simp [TriggerCmd.feState]⟩
    have hl' : x.beClients = [] := hl
    simp only [TriggerCmd.onFe, if_pos hl'] at hp
    exact (hpause hp).2 hl'
  | pauseRelease =>
    refine ⟨by simp [TriggerCmd.feState], fun hp => ?_, fun _ => by simp [TriggerCmd.feState]⟩
    simp only [TriggerCmd.onFe, TriggerCmd.fePause] at hp
    split at hp
    · next hl => exact absurd hl (hpause hp).2
    · cases hp
  | resume => simp [TriggerCmd.feStates] at hold
  | suspend => simp [TriggerCmd.feStates] at hold
  | drain => simp [TriggerCmd.feStates] at hold

theorem Levels.triggered {cmd : TriggerCmd} (h : Levels s) (hacc : Accounts s')
    (hold : (s.fe f).state ∈ cmd.feStates)
    (hfe : s'.fe = Function.update s.fe f
      { cmd.onFe (s.fe f) with state := cmd.feState (s.fe f).state })
    (hbe : ∀ b, (b ∈ clients s f → Counted cmd (s.be b) (s'.be b)) ∧
      (b ∉ clients s f → s'.be b = s.be b)) : Levels s' := by
  refine h.on hacc hfe (TriggerCmd.onFe_level (h.fe f) hold) (fun b hb hf => ?_)
    fun b hb => (hbe b).2 hb
  refine (h.be b).counted (h.accounts.be b) hf (fun g hg => state_of_ne hfe hg) hold ?_
    ((hbe b).1 hb)
  rw [hfe, Function.update_self]

theorem levels_step (he : e.shutdownHwFree = true) (hreply : e.TriggerReplies) (h : Levels s)
    (op : Op F B P) (ho : Orderly e s op (step e s op).1) : Levels (step e s op).2 := by
  have hacc := h.accounts.step he op ho.tidy
  have hq := h.accounts.quiet
  have hl := h.accounts.nodup
  cases op with
  | opn f paths list =>
    obtain ⟨hnone, hroom⟩ := ho
    exact h.opened hacc hnone (dpcmFeDaiOpen_spec (hq f) hnone
      (fun b hb => h.accounts.fit (hroom b hb)) (h.accounts.not_linked hnone))
  | close f =>
    obtain ⟨hfe, hbe⟩ := dpcmFeDaiClose_spec he (hq f) (hl f) fun b hb => h.accounts.users_pos hb
    exact h.closed hacc ho hfe hbe
  | hwParams f params =>
    rcases dpcmFeDaiHwParams_spec (e := e) params (hq f) (hl f) with ⟨-, hh⟩ | ⟨hret, hh⟩
    · exact h.hwParams hacc ho.1 hh
    · exact h.hwParamsFailed hacc ho.1 (ho.2.resolve_left (Int.not_le.mpr hret)) hh
  | hwFree f => exact h.hwFree hacc ho (dpcmFeDaiHwFree_spec (hq f) (hl f)).2
  | prepare f =>
    rcases dpcmFeDaiPrepare_spec (e := e) (hq f) (hl f) with ⟨-, -, hh⟩ | ⟨-, hh⟩
    · exact h.prepare hacc ho hh
    · exact h.prepareFailed hacc ho hh
  | trigger f cmd =>
    obtain ⟨hold, hret, horder⟩ := ho
    have hready : ∀ b ∈ clients s f, Ready cmd (s.be b) := fun b hb =>
      (h.be b).ready (((h.accounts.be b).linked f).mp hb) hold
    have hpause : cmd = .stop → (s.fe f).fePause = false := by
      rintro rfl
      have hst : (s.fe f).state = .start := by simpa [TriggerCmd.feStates] using hold
      by_contra hp
      have := ((h.fe f).pause (by simpa using hp)).1
      rw [hst] at this
      cases this
    obtain ⟨hfe, hbe⟩ :=
      dpcmFeDaiTrigger_counted (e := e) (hq f) (hl f) hready hpause horder hreply hret
    exact h.triggered hacc hold hfe hbe
  | runtimeUpdate f new paths list => exact ho.elim

theorem levels_new [Inhabited P] (nonatomic : B → Bool) :
    Levels (Card.new nonatomic : Card F B P) where
  accounts := accounts_new nonatomic
  fe _ := ⟨by simp [Card.new], by simp [Card.new], fun hl => absurd rfl hl⟩
  be _ := ⟨rfl, rfl, by simp [Card.new], by simp [Card.new], by simp [Card.new],
    by simp [Card.new], by simp [Card.new]⟩

theorem levels_run [Inhabited P] {nonatomic : B → Bool} {ops : List (Op F B P)}
    (he : e.shutdownHwFree = true) (hreply : e.TriggerReplies)
    (h : Legal e (Orderly e) (Card.new nonatomic) ops) : Levels (run e (Card.new nonatomic) ops) :=
  h.keeps (levels_new nonatomic) fun _ op hs ho => levels_step he hreply hs op ho

/-! ## What the drivers do -/

/-- How active a driver is. -/
inductive Activity where
  | closed
  | idle
  | paused
  | running
deriving DecidableEq, Repr

def Activity.rank : Activity → Nat
  | .closed => 0
  | .idle => 1
  | .paused => 2
  | .running => 3

theorem Activity.rank_injective : Function.Injective Activity.rank := by
  intro a a' h
  cases a <;> cases a' <;> simp [Activity.rank] at h ⊢

instance : LinearOrder Activity := LinearOrder.lift' Activity.rank Activity.rank_injective

instance : OrderBot Activity where
  bot := .closed
  bot_le _ := Nat.zero_le _

theorem Activity.le_iff {a a' : Activity} : a ≤ a' ↔ a.rank ≤ a'.rank := .rfl

def DriverPhase.activity : DriverPhase → Activity
  | .closed => .closed
  | .idle | .suspended | .halted => .idle
  | .paused => .paused
  | .running => .running

/-- What a front end or a back end in the state asks of its driver. -/
def DpcmState.activity (state : DpcmState) : Activity :=
  state.phase.activity

theorem activity_eq_running_iff {state : DpcmState} :
    state.activity = .running ↔ state = .start := by
  cases state <;> simp [DpcmState.activity, DpcmState.phase, DriverPhase.activity]

theorem activity_eq_paused_iff {state : DpcmState} :
    state.activity = .paused ↔ state = .paused := by
  cases state <;> simp [DpcmState.activity, DpcmState.phase, DriverPhase.activity]

theorem activity_eq_closed_iff {state : DpcmState} :
    state.activity = .closed ↔ state ∈ [.new, .close] := by
  cases state <;> simp [DpcmState.activity, DpcmState.phase, DriverPhase.activity]

/-- A front end that is linked is open, and so is its back end. -/
theorem Levels.isOpen (h : Levels s) (hf : f ∈ (s.be b).feClients) :
    (s.fe f).state.activity ≠ .closed ∧ (s.be b).state.activity ≠ .closed := by
  have hacc := h.accounts.be b
  have hb : b ∈ clients s f := (hacc.linked f).mpr hf
  rw [ne_eq, ne_eq, activity_eq_closed_iff, activity_eq_closed_iff, ← closed_iff, ← hacc.closed,
    hacc.unlinked_iff]
  refine ⟨(h.fe f).linked fun hl => ?_, List.ne_nil_of_mem hf⟩
  simp [clients, hl] at hb

theorem Levels.le (h : Levels s) (hf : f ∈ (s.be b).feClients) :
    (s.fe f).state.activity ≤ (s.be b).state.activity := by
  obtain ⟨hfe, hbe⟩ := h.isOpen hf
  cases hact : (s.fe f).state.activity with
  | closed => exact bot_le
  | idle =>
    rw [Activity.le_iff]
    cases hb : (s.be b).state.activity with
    | closed => exact absurd hb hbe
    | _ => simp [Activity.rank]
  | paused =>
    rcases (h.be b).paused_of_fe hf (activity_eq_paused_iff.mp hact) with hst | hst
    · rw [activity_eq_running_iff.mpr hst, Activity.le_iff]
      simp [Activity.rank]
    · rw [activity_eq_paused_iff.mpr hst]
  | running =>
    rw [activity_eq_running_iff.mpr ((h.be b).start_of_fe hf (activity_eq_running_iff.mp hact))]

/-- A back end is as active as the most active of its front ends. -/
theorem Levels.isLUB (h : Levels s) (b : B) :
    IsLUB (Set.image (fun f => (s.fe f).state.activity) {f | f ∈ (s.be b).feClients})
      (s.be b).state.activity := by
  have hb := h.be b
  refine isLUB_asks (fun f hf => h.le hf) ?_
  cases hact : (s.be b).state.activity with
  | closed => exact .inl rfl
  | idle =>
    have hopen : (s.be b).state.activity ≠ .closed := by simp [hact]
    rw [ne_eq, activity_eq_closed_iff, ← closed_iff, ← (h.accounts.be b).closed,
      (h.accounts.be b).unlinked_iff] at hopen
    obtain ⟨f, hf⟩ := List.exists_mem_of_ne_nil _ hopen
    have hle := h.le hf
    rw [hact, Activity.le_iff] at hle
    refine .inr ⟨f, hf, ?_⟩
    cases hfe : (s.fe f).state.activity with
    | closed => exact absurd hfe (h.isOpen hf).1
    | idle => rfl
    | _ => simp [hfe, Activity.rank] at hle
  | paused =>
    have hst := activity_eq_paused_iff.mp hact
    have hpause := (hb.paused.mp hst).2
    rw [hb.bePause, feTally_ne_zero] at hpause
    obtain ⟨f, hf, hfe⟩ := hpause
    exact .inr ⟨f, hf, activity_eq_paused_iff.mpr hfe⟩
  | running =>
    have hstart := hb.start.mp (activity_eq_running_iff.mp hact)
    rw [hb.beStart, feTally_ne_zero] at hstart
    obtain ⟨f, hf, hfe⟩ := hstart
    exact .inr ⟨f, hf, activity_eq_running_iff.mpr hfe⟩

theorem feTally_eq_ncard (hacc : BeAccount s b) (state : DpcmState) :
    feTally s b state = ({f | b ∈ clients s f ∧ (s.fe f).state = state} : Set F).ncard := by
  have hset : ({f | b ∈ clients s f ∧ (s.fe f).state = state} : Set F) =
      (((s.be b).feClients.filter fun f => (s.fe f).state == state).toFinset : Set F) := by
    ext f
    simp [hacc.linked f]
  rw [hset, Set.ncard_coe_finset, List.toFinset_card_of_nodup (hacc.nodup.filter _), feTally, tally,
    List.countP_eq_length_filter]

/-- In every orderly run, `be_start` and `be_pause` of a back end are the numbers of the front ends
linked to it that run and that are paused. -/
theorem beCounts_run [Inhabited P] (e : Env F B P) (he : e.shutdownHwFree = true)
    (hreply : e.TriggerReplies) (nonatomic : B → Bool) (ops : List (Op F B P))
    (h : Legal e (Orderly e) (Card.new nonatomic) ops) (b : B) :
    let s := run e (Card.new nonatomic) ops
    (s.be b).beStart = ({f | b ∈ clients s f ∧ (s.fe f).state = .start} : Set F).ncard ∧
      (s.be b).bePause = ({f | b ∈ clients s f ∧ (s.fe f).state = .paused} : Set F).ncard := by
  intro s
  have hs := levels_run he hreply h
  have hacc := hs.accounts.be b
  rw [← feTally_eq_ncard hacc, ← feTally_eq_ncard hacc]
  exact ⟨(hs.be b).beStart, (hs.be b).bePause⟩

/-- Two front ends on one back end, the first of which pauses while the other runs and stops. -/
def orderlyRun : List (Op Bool Unit Unit) :=
  [.opn false 1 [()], .opn true 1 [()], .hwParams true (), .hwParams false (), .prepare true,
    .prepare false, .trigger true .start, .trigger false .start, .trigger false .pausePush,
    .trigger true .stop]

theorem beCounts_run_orderly : let s := run .obliging (Card.new fun _ => false) orderlyRun
    (s.be ()).beStart = ({f | () ∈ clients s f ∧ (s.fe f).state = .start} : Set Bool).ncard ∧
      (s.be ()).bePause = ({f | () ∈ clients s f ∧ (s.fe f).state = .paused} : Set Bool).ncard :=
  beCounts_run .obliging rfl (fun _ _ _ => Int.le_refl 0) _ orderlyRun (by decide) ()

/-- In every orderly run, the driver of a back end is as active as the most active of the front ends
linked to it, and closed if there is none. -/
theorem activity_run [Inhabited P] (e : Env F B P) (he : e.shutdownHwFree = true)
    (hreply : e.TriggerReplies) (nonatomic : B → Bool) (ops : List (Op F B P))
    (h : Legal e (Orderly e) (Card.new nonatomic) ops) (b : B) :
    let s := run e (Card.new nonatomic) ops
    ∃ ph, driverPhase (history e b s.calls) = some ph ∧
      IsLUB (Set.image (fun f => (s.fe f).state.activity) {f | b ∈ clients s f}) ph.activity := by
  intro s
  have hs := levels_run he hreply h
  refine ⟨(s.be b).state.phase, (tracked_run e nonatomic ops b).phase, ?_⟩
  have hset : {f | b ∈ clients s f} = {f | f ∈ (s.be b).feClients} :=
    Set.ext fun f => (hs.accounts.be b).linked f
  rw [hset]
  exact hs.isLUB b

theorem activity_run_orderly : let s := run .obliging (Card.new fun _ => false) orderlyRun
    ∃ ph, driverPhase (history .obliging () s.calls) = some ph ∧
      IsLUB (Set.image (fun f => (s.fe f).state.activity) {f | () ∈ clients s f}) ph.activity :=
  activity_run .obliging rfl (fun _ _ _ => Int.le_refl 0) _ orderlyRun (by decide) ()

end NoteNew.Dpcm
