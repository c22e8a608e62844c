import Mathlib.Algebra.BigOperators.Group.Finset.Basic
import Mathlib.Algebra.Order.BigOperators.Group.Finset
import Mathlib.Tactic.Ring
import NoteNew.Pcm.Runtime

/-!
# The streams of a card, as the PCM core drives them

The PCM core calls the operations in the order the state of a substream allows. In every such run
the count of a DAI is the number of open streams that use it: `counted_run`.
-/

namespace NoteNew.Pcm

open Iteration

set_option linter.unusedSectionVars false

/-- The state of a substream in the PCM core: `setup` is every state behind a `hw_params` that has
not failed, with the parameters it left. -/
inductive CoreState where
  | closed
  | opened
  | setup (params : HwParams)
deriving DecidableEq, Repr

/-- The calls of the PCM core. -/
inductive Op (R : Type*) where
  | opn (k : Substream R)
  | hwParams (k : Substream R) (params : HwParams)
  | prepare (k : Substream R)
  | trigger (k : Substream R) (cmd : TriggerCmd)
  | hwFree (k : Substream R)
  | close (k : Substream R)
deriving DecidableEq, Repr

variable {R D C U : Type*}

def Op.substream : Op R → Substream R
  | .opn k | .hwParams k _ | .prepare k | .trigger k _ | .hwFree k | .close k => k

/-- A substream is opened when it is closed, and closed when its parameters have been freed. -/
def Op.allowed : Op R → CoreState → Bool
  | .opn _, .closed => true
  | .opn _, _ => false
  | _, .closed => false
  | .close _, .setup _ => false
  | .prepare _, .opened | .trigger _ _, .opened => false
  | _, _ => true

/-- A card with its substreams. -/
structure Session (R D C U : Type*) where
  soc : Soc R D C U
  core : Substream R → CoreState

/-- No substream is open, and no DAI is set up. -/
def Session.new (e : Env R D C U) : Session R D C U where
  soc := ⟨fun _ => ⟨⟨0, 0, 0⟩, e.unused⟩, fun _ => ⟨false, 0, 0, 0, 0, 0, 0⟩, []⟩
  core _ := .closed

variable [DecidableEq D] [DecidableEq R]

/-- The session behind a call. -/
def Session.after (e : Env R D C U) (s : Session R D C U) : Op R → Session R D C U
  | .opn k =>
    let a := socPcmOpen e k s.soc
    ⟨a.2, Function.update s.core k (if a.1 < 0 then .closed else .opened)⟩
  | .hwParams k params =>
    let a := socPcmHwParams e k params s.soc
    ⟨a.2.2, Function.update s.core k (if a.1 < 0 then .opened else .setup a.2.1)⟩
  | .prepare k => ⟨(socPcmPrepare e k s.soc).2, s.core⟩
  | .trigger k cmd => ⟨(socPcmTrigger e k cmd s.soc).2, s.core⟩
  | .hwFree k => ⟨(socPcmHwFree e k s.soc).2, Function.update s.core k .opened⟩
  | .close k => ⟨(socPcmClose e k s.soc).2, Function.update s.core k .closed⟩

def Session.step (e : Env R D C U) (s : Session R D C U) (op : Op R) : Option (Session R D C U) :=
  if op.allowed (s.core op.substream) then some (s.after e op) else none

/-- The session behind a run of calls, each of which the PCM core makes. -/
def Session.run (e : Env R D C U) (ops : List (Op R)) : Option (Session R D C U) :=
  ops.foldlM (step e) (new e)

/-- A property of every session, kept by each call. -/
theorem Session.run_keeps {e : Env R D C U} {P : Session R D C U → Prop} (hnew : P (new e))
    (hstep : ∀ s op, P s → op.allowed (s.core op.substream) = true → P (s.after e op))
    {ops : List (Op R)} {s : Session R D C U} (h : run e ops = some s) : P s := by
  have hall : ∀ (ops : List (Op R)) (t : Session R D C U), P t → ops.foldlM (step e) t = some s →
      P s := by
    intro ops
    induction ops with
    | nil =>
      intro t ht hrun
      cases hrun
      exact ht
    | cons op ops ih =>
      intro t ht hrun
      rw [List.foldlM_cons, Option.bind_eq_bind, Option.bind_eq_some_iff] at hrun
      obtain ⟨t', ht', hrun⟩ := hrun
      unfold step at ht'
      split at ht'
      · next hallowed =>
        cases ht'
        exact ih _ (hstep t op ht hallowed) hrun
      · cases ht'
  exact hall ops (new e) hnew h

/-! ## What the operations do to the counts -/

/-- Each DAI of the runtime is used by `action` streams more. -/
structure Acted (e : Env R D C U) (k : Substream R) (action : Int) (s t : Soc R D C U) : Prop where
  params : ∀ d, (t.dai d).params = (s.dai d).params
  active : ∀ d stream, e.sndSocDaiStreamActive (t.dai d).use stream =
    e.sndSocDaiStreamActive (s.dai d).use stream +
      if k.stream = stream then action * (e.rtd k.rtd).dais.count d else 0

variable {e : Env R D C U} {k : Substream R} {s t : Soc R D C U}

/-- The loop of `snd_soc_runtime_action`, for one DAI. -/
theorem runtimeActions_dai (he : e.Counts) (stream : Stream) (action : Int) (l : List D) (d : D) :
    let u := l.foldl (runtimeActionBody e stream action) t
    (u.dai d).params = (t.dai d).params ∧
      ∀ stream', e.sndSocDaiStreamActive (u.dai d).use stream' =
        e.sndSocDaiStreamActive (t.dai d).use stream' +
          if stream = stream' then action * l.count d else 0 := by
  induction l generalizing t with
  | nil => simp
  | cons c l ih =>
    obtain ⟨hparams, hactive⟩ := ih (t := runtimeActionBody e stream action t c)
    rw [List.foldl_cons]
    by_cases hd : d = c
    · subst hd
      refine ⟨hparams.trans (by simp [runtimeActionBody]), fun stream' => ?_⟩
      rw [hactive, List.count_cons_self, runtimeActionBody, modDai_dai_self, he.action]
      by_cases hstream : stream = stream'
      · simp only [hstream, if_true]
        push_cast
        ring
      · simp [hstream]
    · refine ⟨hparams.trans (by simp [runtimeActionBody, hd]), fun stream' => ?_⟩
      rw [hactive, List.count_cons_of_ne (Ne.symm hd)]
      simp [runtimeActionBody, hd]

theorem sndSocRuntimeAction_acted (he : e.Counts) (action : Int) (h : t.dai = s.dai) :
    Acted e k action s (sndSocRuntimeAction e k action t) := by
  constructor
  · intro d
    rw [← h]
    exact (runtimeActions_dai he k.stream action _ d).1
  · intro d stream
    rw [← h]
    exact (runtimeActions_dai he k.stream action _ d).2 stream

/-- Nothing is changed that is kept for a DAI, and calls are only added. -/
structure Called (s t : Soc R D C U) : Prop where
  dai : t.dai = s.dai
  calls : s.calls <:+ t.calls

theorem Called.refl (s : Soc R D C U) : Called s s :=
  ⟨rfl, List.suffix_rfl⟩

theorem Called.trans {u : Soc R D C U} (h : Called s t) (hu : Called t u) : Called s u :=
  ⟨hu.dai.trans h.dai, h.calls.trans hu.calls⟩

theorem Called.call {c : Call R D C} (h : Called s t) : Called s (call e c t).2 :=
  ⟨h.dai, h.calls.trans (List.suffix_cons c t.calls)⟩

theorem Called.attempt {a : Int × Soc R D C U} {next : Soc R D C U → Int × Soc R D C U}
    (ha : Called s a.2) (hnext : ∀ t, Called s t → Called s (next t).2) :
    Called s (attempt a next).2 :=
  attempt_keeps (P := Called s) ha hnext

/-- What opening a substream has done to the DAIs, by what it returned. -/
def OpenOutcome (e : Env R D C U) (k : Substream R) (s : Soc R D C U) (a : Int × Soc R D C U) :
    Prop :=
  (a.1 < 0 → Called s a.2) ∧ (0 ≤ a.1 → Acted e k 1 s a.2)

/-- One step of the opening, which leaves the DAIs alone. -/
theorem OpenOutcome.attempt {a : Int × Soc R D C U} {next : Soc R D C U → Int × Soc R D C U}
    (ha : Called s a.2) (hnext : ∀ t, Called s t → OpenOutcome e k s (next t)) :
    OpenOutcome e k s (attempt a next) := by
  apply attempt_cases
  · intro hneg
    exact ⟨fun _ => ha, fun hnonneg => by omega⟩
  · intro _
    exact hnext a.2 ha

theorem OpenOutcome.activate (he : e.Counts) (h : Called s t) :
    OpenOutcome e k s (0, sndSocRuntimeActivate e k t) :=
  ⟨fun hneg => absurd hneg (by omega), fun _ => sndSocRuntimeAction_acted he 1 h.dai⟩

theorem socPcmComponentsOpen_called (h : Called s t) :
    Called s (socPcmComponentsOpen e k t).2 := by
  refine attemptEach_keeps (P := Called s) h fun c _ u hu => ?_
  exact hu.call.attempt fun v hv => hv.call

section Calls

variable {P : Soc R D C U → Prop} (hcall : ∀ c u, P u → P (call e c u).2)

include hcall

theorem applySymmetryParam_keeps {d : D} {x : HwParam} (h : P t) :
    P (applySymmetryParam e k d x t).2 := by
  unfold applySymmetryParam
  dsimp only
  split
  · exact hcall _ _ h
  · exact h

theorem socPcmApplySymmetry_keeps {d : D} (h : P t) : P (socPcmApplySymmetry e k d t).2 := by
  unfold socPcmApplySymmetry
  split
  · exact h
  · refine attempt_keeps ?_ fun _ hu => hu
    exact attemptEach_keeps h fun _ _ _ hu => applySymmetryParam_keeps hcall hu

theorem socPcmApplyMsb_keeps (h : P t) : P (socPcmApplyMsb e k t) := by
  have hset {bits : Nat} {u : Soc R D C U} (hu : P u) : P (socPcmSetMsb e k bits u) := by
    unfold socPcmSetMsb
    split
    · exact hu
    · exact hcall _ _ hu
  exact hset (hset h)

end Calls

theorem socPcmOpenStart_called : Called s (socPcmOpenStart e k s).2 := by
  refine (Called.refl s).call.attempt fun t ht => (socPcmComponentsOpen_called ht).attempt
    fun t ht => ht.call.attempt fun t ht => ?_
  exact attemptEach_keeps (P := Called s) ht fun _ _ _ h => h.call

theorem socPcmOpenTry_outcome (he : e.Counts) : OpenOutcome e k s (socPcmOpenTry e k s) := by
  refine .attempt socPcmOpenStart_called fun t ht => ?_
  split
  · exact .activate he ht
  · refine .attempt ⟨ht.dai, ht.calls⟩ fun t ht => .attempt ?_ fun t ht => .activate he ht
    exact attemptEach_keeps (P := Called s) (socPcmApplyMsb_keeps (fun _ _ => Called.call) ht)
      fun _ _ _ => socPcmApplySymmetry_keeps fun _ _ => Called.call

/-- What a static opening that has not failed has done: the startups, then the limits, then the
constraints of the DAIs, and last the counts. -/
theorem socPcmOpenTry_of_nonneg (hstatic : ((e.rtd k.rtd).dynamic || (e.rtd k.rtd).noPcm) = false)
    (hret : 0 ≤ (socPcmOpenTry e k s).1) :
    let t := (socPcmOpenStart e k s).2
    let hw := socPcmUpdateSymmetry e k (socPcmInitRuntimeHw e k (e.driverHw t.calls k))
    let loop := attemptEach (socPcmApplySymmetry e k) (e.rtd k.rtd).dais
      (0, socPcmApplyMsb e k (t.setHw k hw))
    0 ≤ (socPcmOpenStart e k s).1 ∧ 0 ≤ socHwSanityCheck hw ∧ 0 ≤ loop.1 ∧
      socPcmOpenTry e k s = (0, sndSocRuntimeActivate e k loop.2) := by
  unfold socPcmOpenTry at hret ⊢
  obtain ⟨hstart, hlimits⟩ := attempt_of_nonneg hret
  rw [hlimits, if_neg (by simp [hstatic])] at hret ⊢
  obtain ⟨hsane, happly⟩ := attempt_of_nonneg hret
  rw [happly] at hret ⊢
  obtain ⟨hloop, hactivate⟩ := attempt_of_nonneg hret
  rw [hactivate]
  simp only [Soc.setHw, Function.update_self] at hsane
  exact ⟨hstart, hsane, hloop, rfl⟩

theorem socPcmOpen_of_nonneg (hret : 0 ≤ (socPcmOpen e k s).1) :
    0 ≤ (socPcmOpenTry e k s).1 ∧ socPcmOpen e k s = socPcmOpenTry e k s := by
  unfold socPcmOpen at hret ⊢
  dsimp only at hret ⊢
  split
  · next hneg =>
    rw [if_pos hneg] at hret
    dsimp only at hret
    omega
  · next hneg => exact ⟨by omega, rfl⟩

/-- Behind the count, `soc_pcm_clean` makes calls only. -/
theorem socPcmClean_called (rollback : Bool) :
    Called (if rollback then s else sndSocRuntimeDeactivate e k s)
      (socPcmClean e k rollback s) := by
  have hcomponents (u : Soc R D C U) : Called u (socPcmComponentsClose e k rollback u) :=
    List.foldlRecOn (motive := Called u) _ _ (.refl u) fun _ h _ _ => h.call.call
  have hdais (u : Soc R D C U) : Called u
      ((e.rtd k.rtd).dais.foldl (fun s d => (call e (.daiShutdown d k rollback) s).2) u) :=
    List.foldlRecOn (motive := Called u) _ _ (.refl u) fun _ h _ _ => h.call
  exact ((hdais _).call.trans (hcomponents _)).call

theorem socPcmOpen_outcome (he : e.Counts) : OpenOutcome e k s (socPcmOpen e k s) := by
  have htry : OpenOutcome e k s (socPcmOpenTry e k s) := socPcmOpenTry_outcome he
  unfold socPcmOpen
  dsimp only
  split
  · next hneg =>
    exact ⟨fun _ => (htry.1 hneg).trans (socPcmClean_called true), fun hnonneg => by omega⟩
  · exact htry

theorem Acted.same {action : Int} {u : Soc R D C U} (h : Acted e k action s t)
    (hu : Called t u) : Acted e k action s u := by
  obtain ⟨hparams, hactive⟩ := h
  exact ⟨by rwa [hu.dai], by rwa [hu.dai]⟩

theorem socPcmClose_acted (he : e.Counts) : Acted e k (-1) s (socPcmClose e k s).2 :=
  (sndSocRuntimeAction_acted he (-1) rfl).same (socPcmClean_called false)

/-! ## What they do to the parameters -/

/-- The counts stay. -/
def SameUse (s t : Soc R D C U) : Prop :=
  ∀ d, (t.dai d).use = (s.dai d).use

/-- The DAIs of the runtime that no other stream uses are no longer set up. -/
structure Cleaned (e : Env R D C U) (k : Substream R) (s t : Soc R D C U) : Prop where
  use : SameUse s t
  cleared : ∀ d ∈ (e.rtd k.rtd).dais, e.sndSocDaiActive (s.dai d).use = 1 →
    (t.dai d).params = socPcmSetDaiParams e none
  kept : ∀ d, ¬(d ∈ (e.rtd k.rtd).dais ∧ e.sndSocDaiActive (s.dai d).use = 1) →
    (t.dai d).params = (s.dai d).params

theorem clearDai_dai (c d : D) : (clearDai e k s c).dai d =
    if d = c ∧ e.sndSocDaiActive (s.dai d).use = 1 then
      { s.dai d with params := socPcmSetDaiParams e none }
    else s.dai d := by
  have hmute {u : Soc R D C U} {p : Prop} [Decidable p] :
      (if p then (call e (.daiDigitalMute c true k.stream) u).2 else u).dai = u.dai := by
    split <;> rfl
  rw [clearDai, hmute]
  by_cases hd : d = c
  · subst hd
    split
    · next hone => simp [hone]
    · next hone => simp [hone]
  · split
    · simp [hd]
    · simp [hd]

theorem clearDais_dai (l : List D) (d : D) : (l.foldl (clearDai e k) s).dai d =
    if d ∈ l ∧ e.sndSocDaiActive (s.dai d).use = 1 then
      { s.dai d with params := socPcmSetDaiParams e none }
    else s.dai d := by
  induction l generalizing s with
  | nil => simp
  | cons c l ih =>
    rw [List.foldl_cons, ih, clearDai_dai]
    by_cases hone : e.sndSocDaiActive (s.dai d).use = 1
    · by_cases hd : d = c
      · subst hd
        simp [hone]
      · simp [hone, hd]
    · simp [hone]

theorem socPcmHwClean_cleaned (rollback : Bool) : Cleaned e k s (socPcmHwClean e k rollback s) := by
  have hfree (u : Soc R D C U) : Called u ((e.rtd k.rtd).dais.foldl (fun s d =>
      if (e.dai d).streamValid k.stream then (call e (.daiHwFree d k rollback) s).2 else s) u) := by
    refine List.foldlRecOn (motive := Called u) _ _ (.refl u) fun v hv d _ => ?_
    split
    · exact hv.call
    · exact hv
  have hdai (d : D) : (socPcmHwClean e k rollback s).dai d =
      ((e.rtd k.rtd).dais.foldl (clearDai e k) s).dai d := congrFun (hfree _).dai d
  refine ⟨fun d => ?_, fun d hd hone => ?_, fun d hnot => ?_⟩
  · rw [hdai, clearDais_dai]
    split <;> rfl
  · rw [hdai, clearDais_dai, if_pos ⟨hd, hone⟩]
  · rw [hdai, clearDais_dai, if_neg hnot]

theorem socPcmHwFree_cleaned : Cleaned e k s (socPcmHwFree e k s).2 :=
  socPcmHwClean_cleaned false

/-- The DAI is set up for the stream: it is a CPU DAI that supports its direction. -/
def Env.SetUp (e : Env R D C U) (k : Substream R) (d : D) : Prop :=
  d ∈ (e.rtd k.rtd).cpuDais ∧ (e.dai d).streamValid k.stream = true

theorem SameUse.mod {c : D} {q : DaiParams} (h : SameUse s t) :
    SameUse s (t.modDai c fun x => { x with params := q }) := by
  intro d
  by_cases hd : d = c
  · subst hd
    rw [modDai_dai_self]
    exact h d
  · rw [modDai_dai_of_ne _ _ hd]
    exact h d

/-- No driver changes the parameter in what it is handed. -/
def Env.Keeps (e : Env R D C U) (x : HwParam) : Prop :=
  ∀ past params, e.value (e.written past params) x = e.value params x

section HwParams

variable {params : HwParams} {x : HwParam} {c d : D} {a : HwParams × Soc R D C U}

/-- While a substream is configured, the parameter is what was asked for, and a DAI is as it was, or
a CPU DAI that is set up with the parameter. -/
structure Configuring (e : Env R D C U) (k : Substream R) (params : HwParams) (x : HwParam) (d : D)
    (s : Soc R D C U) (a : HwParams × Soc R D C U) : Prop where
  value : e.value a.1 x = e.value params x
  dai : (a.2.dai d).params = (s.dai d).params ∨ d ∈ (e.rtd k.rtd).cpuDais ∧
    (a.2.dai d).params.get x = e.value params x

theorem codecDaiHwParams_use (h : SameUse s a.2) : SameUse s (codecDaiHwParams e k c a).2.2 := by
  unfold codecDaiHwParams
  split
  · exact h
  · exact attempt_keeps (P := fun b : HwParams × Soc R D C U => SameUse s b.2) h
      fun u hu => hu.mod

/-- What a call and the storing of the parameters keep, the step for a CPU DAI keeps. -/
theorem cpuDaiHwParams_keeps {P : HwParams × Soc R D C U → Prop} (h : P a)
    (hcall : ∀ (call : HwParams → Call R D C) b, P b → P (callParams e call b).2)
    (hstore : ∀ b, P b →
      P (b.1, b.2.modDai c fun y => { y with params := socPcmSetDaiParams e (some b.1) })) :
    P (cpuDaiHwParams e k c a).2 := by
  unfold cpuDaiHwParams
  split
  · exact h
  · exact attempt_keeps (hcall _ a h) hstore

theorem cpuDaiHwParams_use (h : SameUse s a.2) : SameUse s (cpuDaiHwParams e k c a).2.2 :=
  cpuDaiHwParams_keeps (P := fun b : HwParams × Soc R D C U => SameUse s b.2) h
    (fun _ _ hb => hb) fun _ hb => hb.mod

/-- A codec DAI gets a copy, so the parameters stay. -/
theorem codecDaiHwParams_params : (codecDaiHwParams e k c a).2.1 = a.1 := by
  unfold codecDaiHwParams
  split
  · rfl
  · rfl

theorem codecDaiHwParams_dai_of_ne (hc : c ≠ d) :
    (codecDaiHwParams e k c a).2.2.dai d = a.2.dai d := by
  unfold codecDaiHwParams
  split
  · rfl
  · refine attempt_keeps (P := fun b : HwParams × Soc R D C U => b.2.dai d = a.2.dai d) rfl
      fun b hb => ?_
    rw [← hb]
    dsimp only
    rw [modDai_dai_of_ne _ _ (Ne.symm hc)]

namespace Configuring

variable (hkeep : e.Keeps x)

include hkeep in
theorem call {call : HwParams → Call R D C} (h : Configuring e k params x d s a) :
    Configuring e k params x d s (callParams e call a).2 :=
  ⟨(hkeep _ _).trans h.value, h.dai⟩

theorem codec (hc : c ≠ d) (h : Configuring e k params x d s a) :
    Configuring e k params x d s (codecDaiHwParams e k c a).2 := by
  constructor
  · rw [codecDaiHwParams_params]
    exact h.value
  · rw [codecDaiHwParams_dai_of_ne hc]
    exact h.dai

include hkeep in
theorem cpu (hc : c ∈ (e.rtd k.rtd).cpuDais) (h : Configuring e k params x d s a) :
    Configuring e k params x d s (cpuDaiHwParams e k c a).2 := by
  refine cpuDaiHwParams_keeps h (fun _ _ hb => hb.call hkeep) fun b hb => ⟨hb.value, ?_⟩
  by_cases hcd : c = d
  · subst hcd
    rw [modDai_dai_self]
    exact .inr ⟨hc, hb.value⟩
  · rw [modDai_dai_of_ne _ _ (Ne.symm hcd)]
    exact hb.dai

end Configuring

/-- The parameter is what was asked for, and the DAI is set up with it. -/
structure Configured (e : Env R D C U) (params : HwParams) (x : HwParam) (d : D)
    (a : HwParams × Soc R D C U) : Prop where
  value : e.value a.1 x = e.value params x
  dai : (a.2.dai d).params.get x = e.value params x

/-- A DAI that is set up stays so while the other DAIs are. -/
theorem cpuDaiHwParams_done (hkeep : e.Keeps x) (h : Configured e params x d a) :
    Configured e params x d (cpuDaiHwParams e k c a).2 := by
  refine cpuDaiHwParams_keeps h (fun _ _ hb => ⟨(hkeep _ _).trans hb.value, hb.dai⟩)
    fun b hb => ⟨hb.value, ?_⟩
  by_cases hd : d = c
  · subst hd
    rw [modDai_dai_self]
    exact hb.value
  · rw [modDai_dai_of_ne _ _ hd]
    exact hb.dai

theorem cpuDaiHwParams_value (hkeep : e.Keeps x) (h : e.value a.1 x = e.value params x) :
    e.value (cpuDaiHwParams e k c a).2.1 x = e.value params x :=
  cpuDaiHwParams_keeps (P := fun b : HwParams × Soc R D C U => e.value b.1 x = e.value params x) h
    (fun _ _ hb => (hkeep _ _).trans hb) fun _ hb => hb

theorem cpuDaiHwParams_reaches (hkeep : e.Keeps x)
    (hvalid : (e.dai d).streamValid k.stream = true) (hvalue : e.value a.1 x = e.value params x)
    (h : 0 ≤ (cpuDaiHwParams e k d a).1) :
    Configured e params x d (cpuDaiHwParams e k d a).2 := by
  unfold cpuDaiHwParams at h ⊢
  rw [if_neg (by simp [hvalid])] at h ⊢
  have hleft : e.value (callParams e (.daiHwParams d k) a).2.1 x = e.value params x :=
    (hkeep _ _).trans hvalue
  rw [(attempt_of_nonneg h).2]
  refine ⟨hleft, ?_⟩
  rw [modDai_dai_self]
  exact hleft

theorem socPcmParamsSymmetry_le : socPcmParamsSymmetry e s k params ≤ 0 := by
  unfold socPcmParamsSymmetry
  dsimp only
  split
  · simp [EINVAL]
  · rfl

/-- What a property of the parameters and the DAIs is kept by, all the steps keep. -/
theorem socPcmHwParamsTry_keeps {P : HwParams × Soc R D C U → Prop} (h : P (params, s))
    (hcall : ∀ (call : HwParams → Call R D C) a, P a → P (callParams e call a).2)
    (hcodec : ∀ c ∈ (e.rtd k.rtd).codecDais, ∀ a, P a → P (codecDaiHwParams e k c a).2)
    (hcpu : ∀ c ∈ (e.rtd k.rtd).cpuDais, ∀ a, P a → P (cpuDaiHwParams e k c a).2) :
    P (socPcmHwParamsTry e k params s).2 :=
  attempt_keeps h fun _ ha => attempt_keeps (hcall _ _ ha) fun _ ha =>
    attempt_keeps (attemptEach_keeps ha hcodec) fun _ ha =>
      attempt_keeps (attemptEach_keeps ha hcpu) fun _ ha => hcall _ _ ha

theorem socPcmHwParamsTry_use : SameUse s (socPcmHwParamsTry e k params s).2.2 :=
  socPcmHwParamsTry_keeps (P := fun a : HwParams × Soc R D C U => SameUse s a.2) (fun _ => rfl)
    (fun _ _ h => h) (fun _ _ _ h => codecDaiHwParams_use h) fun _ _ _ h => cpuDaiHwParams_use h

/-- What the steps do behind the check of the symmetry. -/
theorem socPcmHwParamsTry_configuring (hkeep : e.Keeps x) (hd : d ∉ (e.rtd k.rtd).codecDais) :
    Configuring e k params x d s (socPcmHwParamsTry e k params s).2 :=
  socPcmHwParamsTry_keeps ⟨rfl, .inl rfl⟩ (fun _ _ h => h.call hkeep)
    (fun _ hc _ h => h.codec (ne_of_mem_of_not_mem hc hd)) fun _ hc _ h => h.cpu hkeep hc

/-- Parameters the check of the symmetry rejects change nothing. -/
theorem socPcmHwParamsTry_of_unmatched (h : socPcmParamsSymmetry e s k params ≠ 0) :
    socPcmHwParamsTry e k params s = (socPcmParamsSymmetry e s k params, params, s) := by
  have hneg : socPcmParamsSymmetry e s k params < 0 := lt_of_le_of_ne socPcmParamsSymmetry_le h
  rw [socPcmHwParamsTry, attempt, if_pos hneg]

theorem socPcmHwParamsTry_done (hkeep : e.Keeps x) (h : 0 ≤ (socPcmHwParamsTry e k params s).1)
    (hset : e.SetUp k d) : Configured e params x d (socPcmHwParamsTry e k params s).2 := by
  let Value (a : HwParams × Soc R D C U) : Prop := e.value a.1 x = e.value params x
  have hcodec (c : D) (a : HwParams × Soc R D C U) (ha : Value a) :
      Value (codecDaiHwParams e k c a).2 := by
    show e.value (codecDaiHwParams e k c a).2.1 x = e.value params x
    rwa [codecDaiHwParams_params]
  have hlinked : Value (callParams e (.linkHwParams k) (params, s)).2 := hkeep _ _
  -- no step has failed, so the loop over the CPU DAIs has come to this one
  unfold socPcmHwParamsTry at h ⊢
  obtain ⟨-, hsym⟩ := attempt_of_nonneg h
  rw [hsym] at h ⊢
  obtain ⟨-, hlink⟩ := attempt_of_nonneg h
  rw [hlink] at h ⊢
  obtain ⟨-, hcodecs⟩ := attempt_of_nonneg h
  rw [hcodecs] at h ⊢
  obtain ⟨hcpus, hcomponent⟩ := attempt_of_nonneg h
  rw [hcomponent]
  have hdone := attemptEach_reaches (a := (0, _)) (P := Value) (Q := Configured e params x d) hset.1
    (fun a ha h => cpuDaiHwParams_reaches hkeep hset.2 ha h)
    (fun c _ a ha => ⟨cpuDaiHwParams_value hkeep ha, cpuDaiHwParams_done hkeep⟩)
    (attemptEach_keeps (a := (0, _)) hlinked fun c _ a ha => hcodec c a ha) hcpus
  exact ⟨(hkeep _ _).trans hdone.value, hdone.dai⟩

variable (e k params s) in
/-- Configuring frees what it has set up where it fails. -/
theorem socPcmHwParams_cases : 0 ≤ (socPcmHwParams e k params s).1 ∧
      socPcmHwParams e k params s = socPcmHwParamsTry e k params s ∨
    (socPcmHwParams e k params s).1 < 0 ∧
      Cleaned e k (socPcmHwParamsTry e k params s).2.2 (socPcmHwParams e k params s).2.2 := by
  unfold socPcmHwParams
  dsimp only
  split
  · next hneg => exact .inr ⟨hneg, socPcmHwClean_cleaned true⟩
  · next hneg => exact .inl ⟨by omega, rfl⟩

theorem socPcmHwParams_use : SameUse s (socPcmHwParams e k params s).2.2 := by
  rcases socPcmHwParams_cases e k s params with
    ⟨-, hret⟩ | ⟨-, hclean⟩
  · rw [hret]
    exact socPcmHwParamsTry_use
  · intro c
    exact (hclean.use c).trans (socPcmHwParamsTry_use c)

end HwParams

theorem socPcmPrepare_called : Called s (socPcmPrepare e k s).2 := by
  refine (Called.refl s).call.attempt fun t ht => ht.call.attempt fun t ht =>
    ht.call.attempt fun t ht => ?_
  exact List.foldlRecOn (motive := Called s) _ _ ht fun _ h _ _ => h.call

theorem socPcmTriggerStop_called {cmd : TriggerCmd} {rollback : Bool} (h : Called s t) :
    Called s (socPcmTriggerStop e k cmd rollback t).2 := by
  unfold socPcmTriggerStop
  split
  · exact h.call.attempt fun t ht => ht.call.attempt fun u hu => hu.call
  · exact h.call.attempt fun t ht => ht.call.attempt fun u hu => hu.call

theorem socPcmTrigger_called {cmd : TriggerCmd} : Called s (socPcmTrigger e k cmd s).2 := by
  have hstart : Called s (attempt (call e (.linkTrigger k cmd false) s) fun s =>
      attempt (call e (.componentTrigger k cmd false) s) fun s =>
      call e (.daiTrigger k cmd false) s).2 :=
    (Called.refl s).call.attempt fun t ht => ht.call.attempt fun u hu => hu.call
  cases cmd with
  | start | resume | pauseRelease =>
    unfold socPcmTrigger
    dsimp only
    split
    · exact socPcmTriggerStop_called hstart
    · exact hstart
  | stop | suspend | pausePush => exact socPcmTriggerStop_called (.refl s)
  | drain => exact .refl s

/-! ## The counts -/

/-- How often the substream uses a DAI in a direction. -/
def Env.uses (e : Env R D C U) (d : D) (stream : Stream) (k : Substream R) : Int :=
  if k.stream = stream then (e.rtd k.rtd).dais.count d else 0

/-- Each DAI counts the open substreams that use it. -/
def Counted (e : Env R D C U) (s : Session R D C U) : Prop :=
  ∃ opened : Finset (Substream R), (∀ k, k ∈ opened ↔ s.core k ≠ .closed) ∧
    ∀ d stream, e.sndSocDaiStreamActive (s.soc.dai d).use stream = ∑ k ∈ opened, e.uses d stream k

namespace Counted

variable {s : Session R D C U} {t : Soc R D C U} {k k' : Substream R} {d : D} {state : CoreState}

/-- An operation that leaves the DAIs alone. -/
theorem calls (h : Counted e s) (ht : Called s.soc t) : Counted e ⟨t, s.core⟩ := by
  obtain ⟨opened, hmem, hactive⟩ := h
  refine ⟨opened, hmem, fun d stream => ?_⟩
  rw [ht.dai]
  exact hactive d stream

/-- An operation that neither opens nor closes a substream. -/
theorem stay (h : Counted e s) (hstate : state = .closed ↔ s.core k = .closed)
    (ht : SameUse s.soc t) : Counted e ⟨t, Function.update s.core k state⟩ := by
  obtain ⟨opened, hmem, hactive⟩ := h
  refine ⟨opened, fun j => ?_, fun d stream => ?_⟩
  · by_cases hj : j = k
    · subst hj
      simp [hmem, hstate]
    · simp [hj, hmem]
  · rw [ht d]
    exact hactive d stream

theorem opn (h : Counted e s) (hk : s.core k = .closed) (ht : Acted e k 1 s.soc t)
    (hstate : state ≠ .closed) : Counted e ⟨t, Function.update s.core k state⟩ := by
  obtain ⟨opened, hmem, hactive⟩ := h
  have hnew : k ∉ opened := fun hin => (hmem k).mp hin hk
  refine ⟨insert k opened, fun j => ?_, fun d stream => ?_⟩
  · by_cases hj : j = k
    · subst hj
      simp [hstate]
    · simp [hj, hmem]
  · rw [ht.active, hactive, Finset.sum_insert hnew, Env.uses]
    split <;> ring

theorem close (h : Counted e s) (hk : s.core k ≠ .closed) (ht : Acted e k (-1) s.soc t) :
    Counted e ⟨t, Function.update s.core k .closed⟩ := by
  obtain ⟨opened, hmem, hactive⟩ := h
  refine ⟨opened.erase k, fun j => ?_, fun d stream => ?_⟩
  · by_cases hj : j = k
    · subst hj
      simp
    · simp [hj, hmem]
  · rw [ht.active, hactive, ← Finset.add_sum_erase opened _ ((hmem k).mpr hk), Env.uses]
    split <;> ring

end Counted

theorem Op.allowed_opn {state : CoreState} {k : Substream R} :
    (Op.opn k).allowed state = true ↔ state = .closed := by
  cases state <;> simp [allowed]

theorem Op.ne_closed_of_allowed {op : Op R} {state : CoreState} (h : op.allowed state = true)
    (hop : ∀ k, op ≠ .opn k) : state ≠ .closed := by
  rintro rfl
  cases op with
  | opn k => exact hop k rfl
  | _ => cases h

theorem Counted.new (he : e.Counts) : Counted e (Session.new e) :=
  ⟨∅, fun k => by simp [Session.new], fun d stream => by simp [Session.new, he.unused]⟩

theorem Counted.after (he : e.Counts) {s : Session R D C U} {op : Op R} (hs : Counted e s)
    (hallowed : op.allowed (s.core op.substream) = true) : Counted e (s.after e op) := by
  cases op with
  | opn k =>
    have hk : s.core k = .closed := Op.allowed_opn.mp hallowed
    obtain ⟨hfail, hok⟩ := socPcmOpen_outcome he (k := k) (s := s.soc)
    by_cases hret : (socPcmOpen e k s.soc).1 < 0
    · refine hs.stay ?_ fun d => ?_
      · simp [hret, hk]
      · exact congrArg DaiState.use (congrFun (hfail hret).dai d)
    · exact hs.opn hk (hok (by omega)) (by simp [hret])
  | hwParams k params =>
    have hk : s.core k ≠ .closed := Op.ne_closed_of_allowed hallowed (by simp)
    refine hs.stay (iff_of_false ?_ hk) socPcmHwParams_use
    split <;> simp
  | prepare k => exact hs.calls socPcmPrepare_called
  | trigger k cmd => exact hs.calls socPcmTrigger_called
  | hwFree k =>
    have hk : s.core k ≠ .closed := Op.ne_closed_of_allowed hallowed (by simp)
    exact hs.stay (iff_of_false (by simp) hk) socPcmHwFree_cleaned.use
  | close k =>
    have hk : s.core k ≠ .closed := Op.ne_closed_of_allowed hallowed (by simp)
    exact hs.close hk (socPcmClose_acted he)

/-- In every run the counts are right. -/
theorem counted_run (he : e.Counts) {ops : List (Op R)} {s : Session R D C U}
    (h : Session.run e ops = some s) : Counted e s :=
  Session.run_keeps (.new he) (fun _ _ hs hallowed => hs.after he hallowed) h

end NoteNew.Pcm
