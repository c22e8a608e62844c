import Mathlib.Order.Interval.Set.Basic
import NoteNew.Pcm.Symmetry

/-!
# The limits of a stream are what its DAIs share

`snd_soc_runtime_calc_hw` narrows the limits of a substream DAI by DAI, and the opening fails where
nothing is left. What is left behind an opening that has not failed are the numbers of channels and
the formats that all its DAIs support, except that the channels of several codec DAIs do not count.
-/

namespace NoteNew.Pcm

open Iteration

set_option linter.unusedSectionVars false

variable {R D C U : Type*} [DecidableEq D] [DecidableEq R]

/-- The numbers of channels a substream is limited to. -/
def Hardware.channels (hw : Hardware) : Set Nat :=
  Set.Icc hw.channelsMin hw.channelsMax

def PcmStream.channels (p : PcmStream) : Set Nat :=
  Set.Icc p.channelsMin p.channelsMax

/-- The DAIs whose channels count: with several codec DAIs, the CPU DAIs alone. -/
def Rtd.channelDais (r : Rtd D C) : List D :=
  if r.codecDais.length > 1 then r.cpuDais else r.dais

/-- `snd_pcm_hw_limit_rates` sets the least and the greatest rate and nothing else. -/
def Env.LimitsRates (e : Env R D C U) : Prop :=
  ∀ hw, ∃ rateMin rateMax, e.limitRates hw = { hw with rateMin := rateMin, rateMax := rateMax }

variable {e : Env R D C U} {k : Substream R} {stream : Stream} {hw : Hardware} {d : D} {l : List D}

/-- A DAI that supports the direction supports `n`. -/
def Env.Supports (e : Env R D C U) (stream : Stream) (n : Nat) (d : D) : Prop :=
  (e.dai d).streamValid stream = true → n ∈ ((e.dai d).pcmStream stream).channels

/-- A DAI that supports the direction supports the format of bit `i`. -/
def Env.HasFormat (e : Env R D C U) (stream : Stream) (i : Nat) (d : D) : Prop :=
  (e.dai d).streamValid stream = true → ((e.dai d).pcmStream stream).formats.testBit i = true

/-! ## Narrowing -/

theorem socPcmHwUpdateRate_channels (he : e.LimitsRates) (p : PcmStream) :
    (socPcmHwUpdateRate e p hw).channels = hw.channels := by
  obtain ⟨rateMin, rateMax, heq⟩ := he { hw with rates := e.rateMaskIntersect hw.rates p.rates }
  rw [socPcmHwUpdateRate, heq]
  rfl

theorem socPcmHwUpdateRate_formats (he : e.LimitsRates) (p : PcmStream) :
    (socPcmHwUpdateRate e p hw).formats = hw.formats := by
  obtain ⟨rateMin, rateMax, heq⟩ := he { hw with rates := e.rateMaskIntersect hw.rates p.rates }
  rw [socPcmHwUpdateRate, heq]

theorem socPcmHwUpdateChan_channels (p : PcmStream) :
    (socPcmHwUpdateChan p hw).channels = hw.channels ∩ p.channels := by
  rw [Hardware.channels, Hardware.channels, PcmStream.channels, Set.Icc_inter_Icc]
  rfl

theorem socPcmHwUpdateFormat_channels (p : PcmStream) :
    (socPcmHwUpdateFormat p hw).channels = hw.channels := rfl

theorem socPcmHwUpdateFormat_formats (p : PcmStream) :
    (socPcmHwUpdateFormat p hw).formats = hw.formats &&& p.formats := rfl

theorem calcHwBody_channels (he : e.LimitsRates) (n : Nat) :
    n ∈ (calcHwBody e stream hw d).channels ↔ n ∈ hw.channels ∧ e.Supports stream n d := by
  unfold calcHwBody Env.Supports
  by_cases hvalid : (e.dai d).streamValid stream = true
  · rw [if_neg (by simp [hvalid])]
    dsimp only
    rw [socPcmHwUpdateFormat_channels, socPcmHwUpdateRate_channels he,
      socPcmHwUpdateChan_channels, Set.mem_inter_iff]
    simp [hvalid]
  · rw [if_pos (by simpa using hvalid)]
    simp [hvalid]

theorem calcHwBody_formats (he : e.LimitsRates) (i : Nat) :
    (calcHwBody e stream hw d).formats.testBit i = true ↔
      hw.formats.testBit i = true ∧ e.HasFormat stream i d := by
  unfold calcHwBody Env.HasFormat
  by_cases hvalid : (e.dai d).streamValid stream = true
  · rw [if_neg (by simp [hvalid])]
    dsimp only
    rw [socPcmHwUpdateFormat_formats, socPcmHwUpdateRate_formats he, Nat.testBit_and,
      Bool.and_eq_true]
    simp [hvalid, socPcmHwUpdateChan]
  · rw [if_pos (by simpa using hvalid)]
    simp [hvalid]

theorem calcHw_channels (he : e.LimitsRates) (n : Nat) :
    n ∈ (l.foldl (calcHwBody e stream) hw).channels ↔
      n ∈ hw.channels ∧ ∀ d ∈ l, e.Supports stream n d :=
  foldl_narrows (P := fun hw : Hardware => n ∈ hw.channels) fun _ _ => calcHwBody_channels he n

theorem calcHw_formats (he : e.LimitsRates) (i : Nat) :
    (l.foldl (calcHwBody e stream) hw).formats.testBit i = true ↔
      hw.formats.testBit i = true ∧ ∀ d ∈ l, e.HasFormat stream i d :=
  foldl_narrows (P := fun hw : Hardware => hw.formats.testBit i = true)
    fun _ _ => calcHwBody_formats he i

theorem socPcmHwInit_channels (n : Nat) : n ∈ (socPcmHwInit hw).channels ↔ n ≤ UINT_MAX := by
  simp [Hardware.channels, socPcmHwInit]

theorem socPcmHwInit_formats (i : Nat) :
    (socPcmHwInit hw).formats.testBit i = true ↔ i < 64 := by
  have hmax : (socPcmHwInit hw).formats = 2 ^ 64 - 1 := by norm_num [socPcmHwInit, ULLONG_MAX]
  rw [hmax, Nat.testBit_two_pow_sub_one, decide_eq_true_eq]

/-! ## The result -/

/-- The limits of the DAIs, where the code has found some. -/
theorem sndSocRuntimeCalcHw_channels (he : e.LimitsRates)
    (hmin : (sndSocRuntimeCalcHw e k hw).2.channelsMin ≠ 0) (n : Nat) :
    n ∈ (sndSocRuntimeCalcHw e k hw).2.channels ↔
      n ≤ UINT_MAX ∧ ∀ d ∈ (e.rtd k.rtd).channelDais, e.Supports k.stream n d := by
  unfold sndSocRuntimeCalcHw at hmin ⊢
  dsimp only at hmin ⊢
  unfold Rtd.channelDais
  split
  · next hzero =>
    -- the limits the code gives up on have no least number of channels
    rw [if_pos hzero] at hmin
    exact absurd hzero hmin
  · split
    · next hmany =>
      show n ∈ ((e.rtd k.rtd).cpuDais.foldl (calcHwBody e k.stream) (socPcmHwInit hw)).channels ↔ _
      rw [calcHw_channels he, socPcmHwInit_channels]
    · next hone =>
      rw [Rtd.dais, ← List.foldl_append, calcHw_channels he, socPcmHwInit_channels]

theorem sndSocRuntimeCalcHw_formats (he : e.LimitsRates) (i : Nat) :
    (sndSocRuntimeCalcHw e k hw).2.formats.testBit i = true ↔
      i < 64 ∧ ∀ d ∈ (e.rtd k.rtd).dais, e.HasFormat k.stream i d := by
  have hformats : (sndSocRuntimeCalcHw e k hw).2.formats =
      ((e.rtd k.rtd).dais.foldl (calcHwBody e k.stream) (socPcmHwInit hw)).formats := by
    unfold sndSocRuntimeCalcHw
    rw [Rtd.dais, List.foldl_append]
    dsimp only
    split
    · rfl
    · split
      · rfl
      · rfl
  rw [hformats, calcHw_formats he, socPcmHwInit_formats]

theorem socPcmInitRuntimeHw_channels :
    (socPcmInitRuntimeHw e k hw).channels = (sndSocRuntimeCalcHw e k hw).2.channels := by
  unfold socPcmInitRuntimeHw
  dsimp only
  split
  · rfl
  · rfl

theorem socPcmInitRuntimeHw_formats (i : Nat) :
    (socPcmInitRuntimeHw e k hw).formats.testBit i = true ↔
      (sndSocRuntimeCalcHw e k hw).2.formats.testBit i = true ∧
        (hw.formats = 0 ∨ hw.formats.testBit i = true) := by
  unfold socPcmInitRuntimeHw
  dsimp only
  split
  · next hne => simp [hne]
  · next hzero => simp [not_not.mp hzero]

theorem socPcmUpdateSymmetry_channels :
    (socPcmUpdateSymmetry e k hw).channels = hw.channels := by
  unfold socPcmUpdateSymmetry
  dsimp only
  split
  · rfl
  · rfl

theorem socPcmUpdateSymmetry_formats : (socPcmUpdateSymmetry e k hw).formats = hw.formats := by
  unfold socPcmUpdateSymmetry
  dsimp only
  split
  · rfl
  · rfl

/-- What the check has found where it passes. -/
theorem socHwSanityCheck_of_nonneg (h : 0 ≤ socHwSanityCheck hw) :
    hw.formats ≠ 0 ∧ hw.channelsMin ≠ 0 ∧ hw.channelsMin ≤ hw.channelsMax := by
  unfold socHwSanityCheck EINVAL at h
  split at h
  · omega
  · split at h
    · omega
    · next hformats =>
      split at h
      · omega
      · next hchannels => exact ⟨hformats, by omega, by omega⟩

/-- A loop of calls that has not failed has made them all. -/
theorem attemptEach_call_calls {α : Type*} {c : α → Call R D C} {l : List α} {ret : Int}
    {s : Soc R D C U} (h : 0 ≤ (attemptEach (fun x => call e (c x)) l (ret, s)).1) :
    (attemptEach (fun x => call e (c x)) l (ret, s)).2.calls = (l.map c).reverse ++ s.calls := by
  induction l generalizing ret s with
  | nil => rfl
  | cons x l ih =>
    rw [attemptEach] at h ⊢
    split
    · next hneg =>
      rw [if_pos hneg] at h
      omega
    · next hneg =>
      rw [if_neg hneg] at h
      rw [List.map_cons, List.reverse_cons, List.append_assoc]
      exact ih h

/-- The startups of the DAIs are the latest calls of a start that has not failed. -/
theorem socPcmOpenStart_calls {s : Soc R D C U} (h : 0 ≤ (socPcmOpenStart e k s).1) :
    ∃ past, s.calls <:+ past ∧ (socPcmOpenStart e k s).2.calls =
      ((e.rtd k.rtd).dais.map fun d => .daiStartup d k).reverse ++ past := by
  unfold socPcmOpenStart at h ⊢
  obtain ⟨-, hcomponents⟩ := attempt_of_nonneg h
  rw [hcomponents] at h ⊢
  obtain ⟨-, hlink⟩ := attempt_of_nonneg h
  rw [hlink] at h ⊢
  obtain ⟨-, hdais⟩ := attempt_of_nonneg h
  rw [hdais] at h ⊢
  have hopened : Called s (socPcmComponentsOpen e k (call e (.pmRuntimeGet k) s).2).2 :=
    socPcmComponentsOpen_called (Called.refl s).call
  exact ⟨_, (Called.call (e := e) hopened).calls, attemptEach_call_calls h⟩

/-- A static opening leaves the limits it has computed behind the startups of the DAIs, if it does
not fail. -/
theorem socPcmOpen_hw {s : Soc R D C U}
    (hstatic : ((e.rtd k.rtd).dynamic || (e.rtd k.rtd).noPcm) = false)
    (hret : 0 ≤ (socPcmOpen e k s).1) :
    let past := (socPcmOpenStart e k s).2.calls
    0 ≤ (socPcmOpenStart e k s).1 ∧ past <:+ (socPcmOpen e k s).2.calls ∧
      (socPcmOpen e k s).2.hw k =
        socPcmUpdateSymmetry e k (socPcmInitRuntimeHw e k (e.driverHw past k)) ∧
      0 ≤ socHwSanityCheck ((socPcmOpen e k s).2.hw k) := by
  obtain ⟨hret, hopen⟩ := socPcmOpen_of_nonneg hret
  obtain ⟨hstart, hsane, -, htry⟩ := socPcmOpenTry_of_nonneg hstatic hret
  rw [hopen, htry]
  dsimp only at hsane ⊢
  generalize (socPcmOpenStart e k s).2 = t at hsane ⊢
  generalize hlimits : socPcmUpdateSymmetry e k
    (socPcmInitRuntimeHw e k (e.driverHw t.calls k)) = hw at hsane ⊢
  -- calls and counts are all that follows
  have hloop : (t.setHw k hw).hw = (attemptEach (socPcmApplySymmetry e k) (e.rtd k.rtd).dais
        (0, socPcmApplyMsb e k (t.setHw k hw))).2.hw ∧
      t.calls <:+ (attemptEach (socPcmApplySymmetry e k) (e.rtd k.rtd).dais
        (0, socPcmApplyMsb e k (t.setHw k hw))).2.calls := by
    let Kept (u : Soc R D C U) : Prop := (t.setHw k hw).hw = u.hw ∧ t.calls <:+ u.calls
    have hcall (c : Call R D C) (u : Soc R D C U) (hu : Kept u) : Kept (call e c u).2 :=
      ⟨hu.1, hu.2.trans (List.suffix_cons c u.calls)⟩
    exact attemptEach_keeps (P := Kept) (socPcmApplyMsb_keeps hcall ⟨rfl, List.suffix_rfl⟩)
      fun _ _ _ => socPcmApplySymmetry_keeps hcall
  generalize (attemptEach (socPcmApplySymmetry e k) (e.rtd k.rtd).dais _).2 = u at hloop ⊢
  have hactivate : (sndSocRuntimeActivate e k u).hw = u.hw :=
    List.foldlRecOn (motive := fun v : Soc R D C U => v.hw = u.hw) _ _ rfl fun _ hv _ _ => hv
  have hself : (sndSocRuntimeActivate e k u).hw k = hw := by
    rw [hactivate, ← hloop.1]
    simp [Soc.setHw]
  exact ⟨hstart, hloop.2.trans sndSocRuntimeActivate_calls, hself, hself ▸ hsane⟩

/-- A static opening that does not fail leaves the numbers of channels and the formats that the DAIs
share, and some of each. The formats are also those that the drivers have left in the limits when
the last DAI has been started up, if they have left any. -/
theorem open_limits (e : Env R D C U) (he : e.LimitsRates) (k : Substream R) (s : Soc R D C U)
    (hstatic : ((e.rtd k.rtd).dynamic || (e.rtd k.rtd).noPcm) = false)
    (hret : 0 ≤ (socPcmOpen e k s).1) :
    let hw := (socPcmOpen e k s).2.hw k
    let started := (socPcmOpenStart e k s).2.calls
    (hw.channels.Nonempty ∧ 0 ∉ hw.channels ∧ ∀ n, n ∈ hw.channels ↔
        n ≤ UINT_MAX ∧ ∀ d ∈ (e.rtd k.rtd).channelDais, e.Supports k.stream n d) ∧
      (∃ past, s.calls <:+ past ∧
        started = ((e.rtd k.rtd).dais.map fun d => .daiStartup d k).reverse ++ past) ∧
      started <:+ (socPcmOpen e k s).2.calls ∧
      hw.formats ≠ 0 ∧ ∀ i, hw.formats.testBit i = true ↔
        (i < 64 ∧ ∀ d ∈ (e.rtd k.rtd).dais, e.HasFormat k.stream i d) ∧
          ((e.driverHw started k).formats = 0 ∨
            (e.driverHw started k).formats.testBit i = true) := by
  obtain ⟨hstart, hpast, hhw, hsane⟩ := socPcmOpen_hw hstatic hret
  obtain ⟨hformats, hmin, hle⟩ := socHwSanityCheck_of_nonneg hsane
  have hstarted := socPcmOpenStart_calls hstart
  generalize (socPcmOpenStart e k s).2.calls = started at hpast hhw hstarted ⊢
  have hchannels : ((socPcmOpen e k s).2.hw k).channels =
      (sndSocRuntimeCalcHw e k (e.driverHw started k)).2.channels := by
    rw [hhw, socPcmUpdateSymmetry_channels, socPcmInitRuntimeHw_channels]
  have hzero : 0 ∉ ((socPcmOpen e k s).2.hw k).channels := fun h => hmin (Nat.le_zero.mp h.1)
  have hfound : (sndSocRuntimeCalcHw e k (e.driverHw started k)).2.channelsMin ≠ 0 := by
    intro h
    rw [hchannels] at hzero
    exact hzero ⟨h.le, Nat.zero_le _⟩
  refine ⟨⟨Set.nonempty_Icc.mpr hle, hzero, fun n => ?_⟩, hstarted, hpast, hformats, fun i => ?_⟩
  · rw [hchannels]
    exact sndSocRuntimeCalcHw_channels he hfound n
  · rw [hhw, socPcmUpdateSymmetry_formats, socPcmInitRuntimeHw_formats,
      sndSocRuntimeCalcHw_formats he]

/-- The DAIs have the formats of bits 2 and 3, and the drivers have left that of bit 2. -/
theorem open_limits_stereo : let k : Substream Unit := ⟨(), .playback⟩
    let s := (Session.new Env.obliging).soc
    let hw := (socPcmOpen Env.obliging k s).2.hw k
    (∀ n, n ∈ hw.channels ↔ n ≤ UINT_MAX ∧ ∀ d ∈ (Env.obliging.rtd ()).channelDais,
      Env.obliging.Supports .playback n d) ∧
      hw.formats.testBit 2 = true ∧ hw.formats.testBit 3 = false := by
  intro k s
  obtain ⟨⟨-, -, hchannels⟩, -, -, -, hformats⟩ :=
    open_limits Env.obliging (fun hw => ⟨48000, 48000, rfl⟩) k s rfl (by decide)
  have hsupported : (12 : Nat).testBit 2 = true := by decide
  refine ⟨hchannels, (hformats 2).mpr ⟨⟨by decide, fun _ _ _ => hsupported⟩, .inr (by decide)⟩, ?_⟩
  rw [Bool.eq_false_iff, ne_eq, hformats 3]
  rintro ⟨-, hzero | hleft⟩
  · exact absurd hzero (by decide)
  · exact absurd hleft (by decide)

end NoteNew.Pcm
