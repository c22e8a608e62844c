import NoteNew.Pcm.Core

/-!
# Streams that share a DAI agree

Where a link or a driver asks for symmetry, a CPU DAI is set up in one way for all the streams that
use it. `soc_pcm_params_symmetry` compares a stream with what the DAI holds, so the DAI has to hold
what the streams set up now have: what `soc_pcm_hw_clean` clears is not in use, since the counts are
right. This is about a parameter that no driver changes in what it is handed, since the check comes
before the drivers.
-/

namespace NoteNew.Pcm

open Iteration

set_option linter.unusedSectionVars false

variable {R D C U : Type*} [DecidableEq D] [DecidableEq R]

/-- The DAI is to be set up in one way for all its streams: it is no dummy, a codec DAI of no
runtime, and the runtimes it is a CPU DAI of ask for symmetry. -/
structure Env.Symmetric (e : Env R D C U) (d : D) (x : HwParam) : Prop where
  real : (e.dai d).isDummy = false
  cpu : ∀ r, d ∉ (e.rtd r).codecDais
  symmetry : ∀ r, d ∈ (e.rtd r).cpuDais → e.symmetry r x = true

/-- The DAI holds the parameter of every stream it is set up for. -/
def Agreed (e : Env R D C U) (d : D) (x : HwParam) (s : Session R D C U) : Prop :=
  ∀ k params, s.core k = .setup params → e.SetUp k d → e.value params x ≠ 0 →
    (s.soc.dai d).params.get x = e.value params x

variable {e : Env R D C U} {d : D} {x : HwParam} {s : Session R D C U} {t : Soc R D C U}
  {k k' : Substream R} {params : HwParams} {state : CoreState}

theorem Env.SetUp.mem (h : e.SetUp k d) : d ∈ (e.rtd k.rtd).dais :=
  List.mem_append_left _ h.1

/-! ## DAIs in use -/

section Use

variable (he : e.Counts)
include he

theorem Counted.active (h : Counted e s) : ∃ opened : Finset (Substream R),
    (∀ k, k ∈ opened ↔ s.core k ≠ .closed) ∧ ∀ d, e.sndSocDaiActive (s.soc.dai d).use =
      ∑ k ∈ opened, ((e.rtd k.rtd).dais.count d : Int) := by
  obtain ⟨opened, hmem, hactive⟩ := h
  refine ⟨opened, hmem, fun d => ?_⟩
  rw [he.active, hactive, hactive, ← Finset.sum_add_distrib]
  refine Finset.sum_congr rfl fun k _ => ?_
  cases hstream : k.stream <;> simp [Env.uses, hstream]

/-- The count of a DAI is no less than what some of the open streams add to it. -/
theorem Counted.le_active (h : Counted e s) (l : Finset (Substream R))
    (hl : ∀ k ∈ l, s.core k ≠ .closed) :
    ∑ k ∈ l, ((e.rtd k.rtd).dais.count d : Int) ≤ e.sndSocDaiActive (s.soc.dai d).use := by
  obtain ⟨opened, hmem, hactive⟩ := h.active he
  rw [hactive]
  exact Finset.sum_le_sum_of_subset_of_nonneg (fun k hk => (hmem k).mpr (hl k hk))
    fun _ _ _ => Int.natCast_nonneg _

theorem Counted.active_pos (h : Counted e s) (hk : s.core k ≠ .closed)
    (hd : d ∈ (e.rtd k.rtd).dais) : 0 < e.sndSocDaiActive (s.soc.dai d).use := by
  have hone := h.le_active he (d := d) {k} (by simpa using hk)
  rw [Finset.sum_singleton] at hone
  have := List.count_pos_iff.mpr hd
  omega

/-- A DAI two open streams use is not cleared. -/
theorem Counted.active_ne_one (h : Counted e s) (hne : k' ≠ k) (hk : s.core k ≠ .closed)
    (hk' : s.core k' ≠ .closed) (hd : d ∈ (e.rtd k.rtd).dais) (hd' : d ∈ (e.rtd k'.rtd).dais) :
    e.sndSocDaiActive (s.soc.dai d).use ≠ 1 := by
  have htwo := h.le_active he (d := d) {k', k} (by simp [hk, hk'])
  rw [Finset.sum_pair hne] at htwo
  have := List.count_pos_iff.mpr hd
  have := List.count_pos_iff.mpr hd'
  omega

/-- A DAI that one open stream uses, once. -/
theorem Counted.active_eq_one (h : Counted e s) (hk : s.core k ≠ .closed)
    (hone : (e.rtd k.rtd).dais.count d = 1)
    (halone : ∀ k', k' ≠ k → s.core k' ≠ .closed → d ∉ (e.rtd k'.rtd).dais) :
    e.sndSocDaiActive (s.soc.dai d).use = 1 := by
  obtain ⟨opened, hmem, hactive⟩ := h.active he
  rw [hactive, Finset.sum_eq_single k, hone]
  · rfl
  · intro j hj hne
    rw [List.count_eq_zero.mpr (halone j hne ((hmem j).mp hj))]
    rfl
  · intro hk'
    exact absurd ((hmem k).mpr hk) hk'

end Use

/-! ## One step -/

/-- What the check of the symmetry has compared where it passes. -/
theorem socPcmParamsSymmetry_matched (h : socPcmParamsSymmetry e t k params = 0)
    (hsym : e.symmetry k.rtd x = true) (hd : d ∈ (e.rtd k.rtd).cpuDais)
    (hreal : (e.dai d).isDummy = false) :
    (t.dai d).params.get x = 0 ∨ (t.dai d).params.get x = e.value params x := by
  by_contra hnot
  rw [not_or] at hnot
  unfold socPcmParamsSymmetry at h
  dsimp only at h
  rw [if_pos] at h
  · simp [EINVAL] at h
  · rw [List.any_eq_true]
    refine ⟨x, x.mem_all, ?_⟩
    rw [hsym, Bool.true_and, List.any_eq_true]
    unfold Env.value at hnot
    exact ⟨d, hd, by simp [hreal, hnot.1, hnot.2]⟩

namespace Agreed

theorem update (hself : ∀ params, state = .setup params → e.SetUp k d →
      e.value params x ≠ 0 → (t.dai d).params.get x = e.value params x)
    (hothers : ∀ j params, j ≠ k → s.core j = .setup params → e.SetUp j d →
      e.value params x ≠ 0 → (t.dai d).params.get x = e.value params x) :
    Agreed e d x ⟨t, Function.update s.core k state⟩ := by
  intro j params hj hset hne
  by_cases hjk : j = k
  · subst hjk
    exact hself params (by simpa using hj) hset hne
  · exact hothers j params hjk (by simpa [hjk] using hj) hset hne

/-- A call that leaves the parameters alone, and the substream not set up. -/
theorem same (h : Agreed e d x s) (ht : (t.dai d).params = (s.soc.dai d).params)
    (hstate : ∀ params, state ≠ .setup params) :
    Agreed e d x ⟨t, Function.update s.core k state⟩ := by
  apply update
  · intro params hparams
    exact absurd hparams (hstate params)
  · intro j params _ hj hset hne
    rw [ht]
    exact h j params hj hset hne

/-- A call that leaves the DAIs and the states of the substreams alone. -/
theorem calls (h : Agreed e d x s) (ht : Called s.soc t) : Agreed e d x ⟨t, s.core⟩ := by
  intro j params hj hset hne
  rw [ht.dai]
  exact h j params hj hset hne

/-- What is freed is not what another stream is set up with. -/
theorem cleaned (he : e.Counts) (hs : Counted e s) (hk : s.core k ≠ .closed) {u : Soc R D C U}
    (hu : SameUse s.soc u) (ht : Cleaned e k u t) {j : Substream R} (hne : j ≠ k)
    (hj : s.core j ≠ .closed) (hset : e.SetUp j d) : (t.dai d).params = (u.dai d).params := by
  apply ht.kept
  rintro ⟨hd, hone⟩
  refine hs.active_ne_one he hne hk hj hd hset.mem ?_
  rwa [← hu d]

theorem hwFree (he : e.Counts) (h : Agreed e d x s) (hs : Counted e s) (hk : s.core k ≠ .closed) :
    Agreed e d x ⟨(socPcmHwFree e k s.soc).2, Function.update s.core k .opened⟩ := by
  apply update
  · intro params hparams
    cases hparams
  · intro j params hne hj hset hnonzero
    rw [cleaned he hs hk (fun _ => rfl) socPcmHwFree_cleaned hne (by simp [hj]) hset]
    exact h j params hj hset hnonzero

/-- The parameters of a stream that passes the check are those the DAI holds for the others. -/
theorem hwParamsTry (hkeep : e.Keeps x) (h : Agreed e d x s) (hd : e.Symmetric d x)
    {j : Substream R} {params' : HwParams} (hj : s.core j = .setup params') (hset : e.SetUp j d)
    (hne : e.value params' x ≠ 0) :
    ((socPcmHwParamsTry e k params s.soc).2.2.dai d).params.get x = e.value params' x := by
  have hold : (s.soc.dai d).params.get x = e.value params' x := h j params' hj hset hne
  by_cases hsym : socPcmParamsSymmetry e s.soc k params = 0
  · rcases (socPcmHwParamsTry_configuring hkeep (hd.cpu k.rtd)).dai with hsame | ⟨hcpu, hnew⟩
    · rw [hsame, hold]
    · rcases socPcmParamsSymmetry_matched hsym (hd.symmetry k.rtd hcpu) hcpu hd.real with
        hzero | hmatch
      · exact absurd (hold.symm.trans hzero) hne
      · rw [hnew, ← hold, hmatch]
  · rw [socPcmHwParamsTry_of_unmatched hsym]
    exact hold

theorem hwParams (he : e.Counts) (hkeep : e.Keeps x) (h : Agreed e d x s)
    (hd : e.Symmetric d x) (hs : Counted e s) (hk : s.core k ≠ .closed) :
    Agreed e d x (s.after e (.hwParams k params)) := by
  unfold Session.after
  dsimp only
  rcases socPcmHwParams_cases e k s.soc params with ⟨hret, heq⟩ | ⟨hret, hclean⟩
  · rw [if_neg (by omega)]
    apply update
    · intro left hleft hset _
      cases hleft
      rw [heq] at hret ⊢
      obtain ⟨hvalue, hdai⟩ := socPcmHwParamsTry_done hkeep hret hset
      rw [hdai, hvalue]
    · intro j params' _ hj hset hne
      rw [heq]
      exact h.hwParamsTry hkeep hd hj hset hne
  · rw [if_pos hret]
    apply update
    · intro left hleft
      cases hleft
    · intro j params' hjk hj hset hne
      rw [cleaned he hs hk socPcmHwParamsTry_use hclean hjk (by simp [hj]) hset]
      exact h.hwParamsTry hkeep hd hj hset hne

theorem after (he : e.Counts) (hkeep : e.Keeps x) (h : Agreed e d x s) (hd : e.Symmetric d x)
    (hs : Counted e s) {op : Op R} (hallowed : op.allowed (s.core op.substream) = true) :
    Agreed e d x (s.after e op) := by
  cases op with
  | opn k =>
    have hparams : ((socPcmOpen e k s.soc).2.dai d).params = (s.soc.dai d).params := by
      obtain ⟨hfail, hok⟩ := socPcmOpen_outcome he (k := k) (s := s.soc)
      by_cases hret : (socPcmOpen e k s.soc).1 < 0
      · exact congrArg DaiState.params (congrFun (hfail hret).dai d)
      · exact (hok (by omega)).params d
    refine h.same hparams fun params => ?_
    split <;> simp
  | hwParams k params =>
    exact h.hwParams he hkeep hd hs (Op.ne_closed_of_allowed hallowed (by simp))
  | prepare k => exact h.calls socPcmPrepare_called
  | trigger k cmd => exact h.calls socPcmTrigger_called
  | hwFree k => exact h.hwFree he hs (Op.ne_closed_of_allowed hallowed (by simp))
  | close k => exact h.same ((socPcmClose_acted he).params d) fun params => by simp

end Agreed

/-! ## Runs -/

theorem agreed_run (he : e.Counts) (hkeep : e.Keeps x) (hd : e.Symmetric d x)
    {ops : List (Op R)} (h : Session.run e ops = some s) : Agreed e d x s := by
  refine (Session.run_keeps (P := fun s => Counted e s ∧ Agreed e d x s) ?_ ?_ h).2
  · exact ⟨.new he, fun k params hk => by cases hk⟩
  · rintro s op ⟨hs, hagreed⟩ hallowed
    exact ⟨hs.after he hallowed, hagreed.after he hkeep hd hs hallowed⟩

/-- A card with one symmetric runtime at 48 kHz and no more than two channels, where no call
fails. -/
def Env.obliging : Env Unit Bool Unit (Stream → Int) where
  rtd _ := ⟨fun _ => true, false, false, false, [false], [true], [()]⟩
  dai _ := ⟨fun _ => true, false, fun _ => true, fun _ => ⟨12, 128, 48000, 48000, 1, 2, 16⟩⟩
  reply _ := 0
  written _ params := params
  driverHw _ _ := ⟨false, 4, 0, 0, 0, 0, 0⟩
  mask _ _ _ := 0
  physicalWidth _ := 16
  hweightLong mask := (List.range 64).countP mask.testBit
  minNotZero a b := if a = 0 then b else if b = 0 then a else min a b
  rateMaskIntersect a b := a &&& b
  limitRates hw := { hw with rateMin := 48000, rateMax := 48000 }
  unused _ := 0
  sndSocDaiAction stream action use := Function.update use stream (use stream + action)
  sndSocDaiStreamActive use stream := use stream
  sndSocDaiActive use := use .playback + use .capture

theorem Env.obliging_counts : Env.obliging.Counts where
  unused _ := rfl
  action use stream action stream' := by
    by_cases hstream : stream = stream'
    · simp [obliging, hstream]
    · simp [obliging, hstream, Ne.symm hstream]
  active _ := rfl

theorem Env.obliging_keeps (x : HwParam) : Env.obliging.Keeps x := fun _ _ => rfl

theorem Env.obliging_symmetric (x : HwParam) : Env.obliging.Symmetric false x :=
  ⟨rfl, by simp [obliging], fun _ _ => rfl⟩

/-- In every run, the streams set up on a symmetric DAI have one value, and the DAI holds it, where
the drivers leave the parameter as it is. -/
theorem symmetric_run (e : Env R D C U) (he : e.Counts) (x : HwParam) (hkeep : e.Keeps x)
    (ops : List (Op R)) (s : Session R D C U) (h : Session.run e ops = some s) (d : D)
    (hd : e.Symmetric d x) (k k' : Substream R) (params params' : HwParams)
    (hk : s.core k = .setup params) (hk' : s.core k' = .setup params') (hset : e.SetUp k d)
    (hset' : e.SetUp k' d) (hne : e.value params x ≠ 0) (hne' : e.value params' x ≠ 0) :
    e.value params x = e.value params' x ∧ (s.soc.dai d).params.get x = e.value params x := by
  have hagreed : Agreed e d x s := agreed_run he hkeep hd h
  have hvalue := hagreed k params hk hset hne
  exact ⟨hvalue.symm.trans (hagreed k' params' hk' hset' hne'), hvalue⟩

theorem symmetric_run_duplex : let k : Substream Unit := ⟨(), .playback⟩
    let k' : Substream Unit := ⟨(), .capture⟩
    let params : HwParams := ⟨48000, 2, 2⟩
    let params' : HwParams := ⟨48000, 2, 3⟩
    ∃ s, Session.run Env.obliging [.opn k, .opn k', .hwParams k params, .hwParams k' params'] =
        some s ∧
      Env.obliging.value params .rate = Env.obliging.value params' .rate ∧
        (s.soc.dai false).params.get .rate = Env.obliging.value params .rate :=
  ⟨_, rfl, by
    exact symmetric_run Env.obliging Env.obliging_counts .rate (Env.obliging_keeps _)
      [.opn ⟨(), .playback⟩, .opn ⟨(), .capture⟩, .hwParams ⟨(), .playback⟩ ⟨48000, 2, 2⟩,
        .hwParams ⟨(), .capture⟩ ⟨48000, 2, 3⟩] _ rfl false (Env.obliging_symmetric _)
      ⟨(), .playback⟩ ⟨(), .capture⟩ ⟨48000, 2, 2⟩ ⟨48000, 2, 3⟩ rfl rfl
      ⟨by simp [Env.obliging], rfl⟩ ⟨by simp [Env.obliging], rfl⟩ (by decide) (by decide)⟩

/-! ## Opening beside a stream that is set up -/

/-- The call has been made, and has not failed, behind those in `base`. -/
def Made (e : Env R D C U) (base : List (Call R D C)) (c : Call R D C) (t : Soc R D C U) : Prop :=
  ∃ past, base <:+ past ∧ 0 ≤ e.reply (c :: past) ∧ c :: past <:+ t.calls

section Opening

variable {u : Soc R D C U} {base : List (Call R D C)} {c : Call R D C}

theorem Made.called (h : Made e base c t) (hu : t.calls <:+ u.calls) : Made e base c u := by
  obtain ⟨past, hbase, hret, hpast⟩ := h
  exact ⟨past, hbase, hret, hpast.trans hu⟩

theorem sndSocRuntimeActivate_calls : t.calls <:+ (sndSocRuntimeActivate e k t).calls :=
  List.foldlRecOn (motive := fun u : Soc R D C U => t.calls <:+ u.calls) _ _ List.suffix_rfl
    fun _ hu _ _ => hu

/-- A DAI in use that holds a parameter constrains the substream to it. -/
theorem socPcmApplySymmetry_made (hactive : e.sndSocDaiActive (t.dai d).use ≠ 0)
    (hvalue : (t.dai d).params.get x ≠ 0)
    (hflag : (e.dai d).symmetric x = true ∨ (e.rtd k.rtd).symmetric x = true)
    (hbase : base <:+ t.calls) (hret : 0 ≤ (socPcmApplySymmetry e k d t).1) :
    Made e base (.hwConstraintSingle k x ((t.dai d).params.get x))
      (socPcmApplySymmetry e k d t).2 := by
  unfold socPcmApplySymmetry at hret ⊢
  rw [if_neg hactive] at hret ⊢
  obtain ⟨hret, hlast⟩ := attempt_of_nonneg hret
  rw [hlast]
  refine attemptEach_reaches (P := Called t)
    (Q := Made e base (.hwConstraintSingle k x ((t.dai d).params.get x))) x.mem_all ?_ ?_
    (.refl t) hret
  · intro u hu hret
    have hdai : u.dai d = t.dai d := congrFun hu.dai d
    unfold applySymmetryParam at hret ⊢
    dsimp only at hret ⊢
    rw [hdai, if_pos ⟨hvalue, hflag⟩] at hret ⊢
    exact ⟨u.calls, hbase.trans hu.calls, hret, List.suffix_rfl⟩
  · intro y _ u hu
    have hmore : Called u (applySymmetryParam e k d y u).2 :=
      applySymmetryParam_keeps (fun _ _ => Called.call) (.refl u)
    exact ⟨hu.trans hmore, fun hmade => hmade.called hmore.calls⟩

/-- The call is made for the DAI, and the steps for the other DAIs leave it made. -/
theorem applySymmetries_made (hd : d ∈ (e.rtd k.rtd).dais)
    (hactive : e.sndSocDaiActive (t.dai d).use ≠ 0) (hvalue : (t.dai d).params.get x ≠ 0)
    (hflag : (e.dai d).symmetric x = true ∨ (e.rtd k.rtd).symmetric x = true) (hu : Called t u)
    (hret : 0 ≤ (attemptEach (socPcmApplySymmetry e k) (e.rtd k.rtd).dais (0, u)).1) :
    Made e t.calls (.hwConstraintSingle k x ((t.dai d).params.get x))
      (attemptEach (socPcmApplySymmetry e k) (e.rtd k.rtd).dais (0, u)).2 := by
  refine attemptEach_reaches (P := Called t)
    (Q := Made e t.calls (.hwConstraintSingle k x ((t.dai d).params.get x))) hd ?_ ?_ hu hret
  · intro v hv hret
    have hdai : v.dai d = t.dai d := congrFun hv.dai d
    rw [← hdai]
    exact socPcmApplySymmetry_made (by rwa [hdai]) (by rwa [hdai]) hflag hv.calls hret
  · intro c _ v hv
    have hmore : Called v (socPcmApplySymmetry e k c v).2 :=
      socPcmApplySymmetry_keeps (fun _ _ => Called.call) (.refl v)
    exact ⟨hv.trans hmore, fun hmade => hmade.called hmore.calls⟩

theorem socPcmOpen_made (hd : d ∈ (e.rtd k.rtd).dais)
    (hactive : e.sndSocDaiActive (t.dai d).use ≠ 0) (hvalue : (t.dai d).params.get x ≠ 0)
    (hflag : (e.dai d).symmetric x = true ∨ (e.rtd k.rtd).symmetric x = true)
    (hstatic : ((e.rtd k.rtd).dynamic || (e.rtd k.rtd).noPcm) = false)
    (hret : 0 ≤ (socPcmOpen e k t).1) :
    Made e t.calls (.hwConstraintSingle k x ((t.dai d).params.get x)) (socPcmOpen e k t).2 := by
  obtain ⟨hret, hopen⟩ := socPcmOpen_of_nonneg hret
  obtain ⟨-, -, hloop, htry⟩ := socPcmOpenTry_of_nonneg hstatic hret
  have hstart : Called t (socPcmOpenStart e k t).2 := socPcmOpenStart_called
  rw [hopen, htry]
  refine Made.called ?_ sndSocRuntimeActivate_calls
  exact applySymmetries_made hd hactive hvalue hflag
    (socPcmApplyMsb_keeps (fun _ _ => Called.call) ⟨hstart.dai, hstart.calls⟩) hloop

end Opening

/-- In every run, a stream that opens beside one that is set up is constrained to its parameter. The
flag that counts is that of the driver of the DAI, or that of the link of the stream that opens. -/
theorem open_constrained_run (e : Env R D C U) (he : e.Counts) (x : HwParam) (hkeep : e.Keeps x)
    (ops : List (Op R)) (s : Session R D C U) (h : Session.run e ops = some s) (d : D)
    (hd : e.Symmetric d x) (k k' : Substream R) (params : HwParams)
    (hk : s.core k = .setup params) (hset : e.SetUp k d) (hne : e.value params x ≠ 0)
    (hd' : d ∈ (e.rtd k'.rtd).dais)
    (hflag : (e.dai d).symmetric x = true ∨ (e.rtd k'.rtd).symmetric x = true)
    (hstatic : ((e.rtd k'.rtd).dynamic || (e.rtd k'.rtd).noPcm) = false)
    (hret : 0 ≤ (socPcmOpen e k' s.soc).1) :
    Made e s.soc.calls (.hwConstraintSingle k' x (e.value params x))
      (socPcmOpen e k' s.soc).2 := by
  have hvalue : (s.soc.dai d).params.get x = e.value params x :=
    agreed_run he hkeep hd h k params hk hset hne
  have hactive : e.sndSocDaiActive (s.soc.dai d).use ≠ 0 := by
    have := (counted_run he h).active_pos he (by simp [hk]) hset.mem
    omega
  rw [← hvalue]
  exact socPcmOpen_made hd' hactive (by rwa [hvalue]) hflag hstatic hret

theorem open_constrained_run_duplex : let k : Substream Unit := ⟨(), .playback⟩
    let k' : Substream Unit := ⟨(), .capture⟩
    let params : HwParams := ⟨48000, 2, 2⟩
    ∃ s, Session.run Env.obliging [.opn k, .hwParams k params] = some s ∧
      Made Env.obliging s.soc.calls (.hwConstraintSingle k' .rate 48000)
        (socPcmOpen Env.obliging k' s.soc).2 :=
  ⟨_, rfl, by
    exact open_constrained_run Env.obliging Env.obliging_counts .rate (Env.obliging_keeps _)
      [.opn ⟨(), .playback⟩, .hwParams ⟨(), .playback⟩ ⟨48000, 2, 2⟩] _ rfl false
      (Env.obliging_symmetric _) ⟨(), .playback⟩ ⟨(), .capture⟩ ⟨48000, 2, 2⟩ rfl
      ⟨by simp [Env.obliging], rfl⟩ (by decide) (by simp [Env.obliging, Rtd.dais]) (.inl rfl) rfl
      (by decide)⟩

/-! ## Streams that are alone -/

/-- No other open stream uses the CPU DAIs of the substream, the dummies apart, and its own runtime
names each of them once. -/
def Alone (e : Env R D C U) (s : Session R D C U) (k : Substream R) : Prop :=
  ∀ d ∈ (e.rtd k.rtd).cpuDais, (e.dai d).isDummy = false →
    (e.rtd k.rtd).dais.count d = 1 ∧
      ∀ k', k' ≠ k → s.core k' ≠ .closed → d ∉ (e.rtd k'.rtd).dais

/-- DAIs that are not set up match all parameters. -/
theorem socPcmParamsSymmetry_of_clear
    (hclear : ∀ d ∈ (e.rtd k.rtd).cpuDais, (e.dai d).isDummy = false →
      (t.dai d).params = socPcmSetDaiParams e none) : socPcmParamsSymmetry e t k params = 0 := by
  unfold socPcmParamsSymmetry
  dsimp only
  rw [if_neg]
  intro hany
  obtain ⟨x, -, hx⟩ := List.any_eq_true.mp hany
  obtain ⟨-, hx⟩ := (Bool.and_eq_true _ _).mp hx
  obtain ⟨d, hd, hd'⟩ := List.any_eq_true.mp hx
  simp only [Bool.and_eq_true, Bool.not_eq_true', bne_iff_ne] at hd'
  refine hd'.1.2 ?_
  rw [hclear d hd hd'.1.1]
  cases x <;> rfl

/-- In every run, a stream that is alone on its CPU DAIs is not held to the parameters it had:
behind `hw_free`, and behind a `hw_params` that has failed, the check of the symmetry accepts
any. -/
theorem released_run (e : Env R D C U) (he : e.Counts) (ops : List (Op R))
    (s : Session R D C U) (h : Session.run e ops = some s) (k : Substream R)
    (hk : s.core k ≠ .closed) (halone : Alone e s k) (params : HwParams) :
    socPcmParamsSymmetry e (socPcmHwFree e k s.soc).2 k params = 0 ∧
      ∀ failed, (socPcmHwParams e k failed s.soc).1 < 0 →
        socPcmParamsSymmetry e (socPcmHwParams e k failed s.soc).2.2 k params = 0 := by
  have hone (d : D) (hd : d ∈ (e.rtd k.rtd).cpuDais) (hreal : (e.dai d).isDummy = false) :
      e.sndSocDaiActive (s.soc.dai d).use = 1 := by
    obtain ⟨hcount, hothers⟩ := halone d hd hreal
    exact (counted_run he h).active_eq_one he hk hcount hothers
  constructor
  · apply socPcmParamsSymmetry_of_clear
    intro d hd hreal
    exact socPcmHwFree_cleaned.cleared d (List.mem_append_left _ hd) (hone d hd hreal)
  · intro failed hret
    apply socPcmParamsSymmetry_of_clear
    intro d hd hreal
    rcases socPcmHwParams_cases e k s.soc failed with ⟨hnonneg, -⟩ | ⟨-, hclean⟩
    · omega
    · refine hclean.cleared d (List.mem_append_left _ hd) ?_
      rw [socPcmHwParamsTry_use d]
      exact hone d hd hreal

/-- A `hw_params` that the check has rejected, made again. -/
theorem released_run_playback : let k : Substream Unit := ⟨(), .playback⟩
    let params : HwParams := ⟨48000, 2, 2⟩
    let others : HwParams := ⟨44100, 2, 2⟩
    ∃ s, Session.run Env.obliging [.opn k, .hwParams k params] = some s ∧
      socPcmParamsSymmetry Env.obliging s.soc k others < 0 ∧
      socPcmParamsSymmetry Env.obliging (socPcmHwFree Env.obliging k s.soc).2 k others = 0 ∧
        socPcmParamsSymmetry Env.obliging (socPcmHwParams Env.obliging k others s.soc).2.2 k
          others = 0 := by
  refine ⟨_, rfl, by decide, ?_⟩
  have halone := released_run Env.obliging Env.obliging_counts
    [.opn ⟨(), .playback⟩, .hwParams ⟨(), .playback⟩ ⟨48000, 2, 2⟩] _ rfl ⟨(), .playback⟩
    (by rintro ⟨⟩) ?_ ⟨44100, 2, 2⟩
  · exact ⟨halone.1, halone.2 _ (by decide)⟩
  · intro d hd _
    rw [List.mem_singleton.mp hd]
    refine ⟨rfl, fun k' hne hopen => ?_⟩
    match k' with
    | ⟨(), .playback⟩ => exact absurd rfl hne
    | ⟨(), .capture⟩ => exact absurd rfl hopen

end NoteNew.Pcm
