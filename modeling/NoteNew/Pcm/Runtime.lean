import Mathlib.Logic.Function.Basic
import NoteNew.Iteration.Attempt

/-!
# The DAIs of a card and the PCM operations on them

A PCM runtime has CPU DAIs, codec DAIs and components, and runtimes may share DAIs. A `Soc` holds
what is kept for each DAI, the parameters it is set up with and what its users are counted in, the
hardware limits of each substream, and the calls made so far. What is called elsewhere does what
`Env` says. One operation ends before the next begins, as the `pcm_mutex` of the card has it.
-/

namespace NoteNew.Pcm

open Iteration

/-! ## The data -/

/-- The direction of a stream. -/
inductive Stream where
  | playback
  | capture
deriving DecidableEq, Repr

/-- The parameters that may be symmetric. -/
inductive HwParam where
  | rate
  | channels
  | sampleBits
deriving DecidableEq, Repr

/-- The order in which `soc-pcm.c` goes through them. -/
def HwParam.all : List HwParam :=
  [.rate, .channels, .sampleBits]

theorem HwParam.mem_all (x : HwParam) : x ∈ all := by
  cases x <;> simp [all]

/-- The parameters a `struct snd_soc_dai` holds, zero where they are not set. -/
structure DaiParams where
  rate : Nat
  channels : Nat
  sampleBits : Nat
deriving DecidableEq, Repr

def DaiParams.get (d : DaiParams) : HwParam → Nat
  | .rate => d.rate
  | .channels => d.channels
  | .sampleBits => d.sampleBits

/-- What `struct snd_pcm_hw_params` asks for, by `params_rate`, `params_channels` and
`params_format`. -/
structure HwParams where
  rate : Nat
  channels : Nat
  format : Int
deriving DecidableEq, Repr

/-- `struct snd_soc_pcm_stream`: what a DAI supports in one direction. -/
structure PcmStream where
  formats : Nat
  rates : Nat
  rateMin : Nat
  rateMax : Nat
  channelsMin : Nat
  channelsMax : Nat
  sigBits : Nat

/-- `struct snd_pcm_hardware`, with the `SNDRV_PCM_INFO_JOINT_DUPLEX` of its `info`. -/
structure Hardware where
  jointDuplex : Bool
  formats : Nat
  rates : Nat
  rateMin : Nat
  rateMax : Nat
  channelsMin : Nat
  channelsMax : Nat

/-- What is fixed of a `struct snd_soc_dai`: the flags of its driver, and what it supports. -/
structure Dai where
  symmetric : HwParam → Bool
  isDummy : Bool
  streamValid : Stream → Bool
  pcmStream : Stream → PcmStream

/-- `struct snd_soc_pcm_runtime`, with the flags of its `dai_link`. -/
structure Rtd (D C : Type*) where
  symmetric : HwParam → Bool
  dynamic : Bool
  noPcm : Bool
  stopDmaFirst : Bool
  cpuDais : List D
  codecDais : List D
  components : List C

/-- `for_each_rtd_dais`: the CPU DAIs stand in front of the codec DAIs. -/
def Rtd.dais {D C : Type*} (r : Rtd D C) : List D :=
  r.cpuDais ++ r.codecDais

/-- A substream: the runtime it belongs to and its direction. -/
structure Substream (R : Type*) where
  rtd : R
  stream : Stream
deriving DecidableEq, Repr

/-- The commands of `soc_pcm_trigger`. -/
inductive TriggerCmd where
  | start
  | resume
  | pauseRelease
  | stop
  | suspend
  | pausePush
  | drain
deriving DecidableEq, Repr

/-- The calls whose outcome is decided elsewhere. -/
inductive Call (R D C : Type*) where
  | pmRuntimeGet (k : Substream R)
  | pmRuntimePut (k : Substream R) (rollback : Bool)
  | componentModuleGet (c : C) (k : Substream R)
  | componentModulePut (c : C) (k : Substream R) (rollback : Bool)
  | componentOpen (c : C) (k : Substream R)
  | componentClose (c : C) (k : Substream R) (rollback : Bool)
  | componentHwParams (k : Substream R) (params : HwParams)
  | componentHwFree (k : Substream R) (rollback : Bool)
  | componentPrepare (k : Substream R)
  | componentTrigger (k : Substream R) (cmd : TriggerCmd) (rollback : Bool)
  | linkStartup (k : Substream R)
  | linkShutdown (k : Substream R) (rollback : Bool)
  | linkHwParams (k : Substream R) (params : HwParams)
  | linkHwFree (k : Substream R) (rollback : Bool)
  | linkPrepare (k : Substream R)
  | linkTrigger (k : Substream R) (cmd : TriggerCmd) (rollback : Bool)
  | daiStartup (d : D) (k : Substream R)
  | daiShutdown (d : D) (k : Substream R) (rollback : Bool)
  | daiHwParams (d : D) (k : Substream R) (params : HwParams)
  | daiHwFree (d : D) (k : Substream R) (rollback : Bool)
  | daiDigitalMute (d : D) (mute : Bool) (stream : Stream)
  | daiPrepare (k : Substream R)
  | daiTrigger (k : Substream R) (cmd : TriggerCmd) (rollback : Bool)
  | hwConstraintSingle (k : Substream R) (x : HwParam) (value : Nat)
  | hwConstraintMsbits (k : Substream R) (bits : Nat)
deriving DecidableEq, Repr

/-- What `soc-pcm.c` takes from elsewhere. `reply` answers a call from all the calls so far, the
latest first; a negative answer is an error. `written` is what the latest call leaves of the
parameters it was handed, `driverHw` what the drivers have left in the `runtime->hw` of a substream,
and `mask` the TDM mask of a DAI. How the streams of a DAI are counted is up to the last four. -/
structure Env (R D C U : Type*) where
  rtd : R → Rtd D C
  dai : D → Dai
  reply : List (Call R D C) → Int
  written : List (Call R D C) → HwParams → HwParams
  driverHw : List (Call R D C) → Substream R → Hardware
  mask : List (Call R D C) → D → Stream → Nat
  physicalWidth : Int → Nat
  hweightLong : Nat → Nat
  minNotZero : Nat → Nat → Nat
  rateMaskIntersect : Nat → Nat → Nat
  limitRates : Hardware → Hardware
  unused : U
  sndSocDaiAction : Stream → Int → U → U
  sndSocDaiStreamActive : U → Stream → Int
  sndSocDaiActive : U → Int

/-- `snd_soc_dai_action` adds to the count of a direction, `snd_soc_dai_stream_active` reads it, and
`snd_soc_dai_active` is the sum over the directions. -/
structure Env.Counts {R D C U : Type*} (e : Env R D C U) : Prop where
  unused : ∀ stream, e.sndSocDaiStreamActive e.unused stream = 0
  action : ∀ use stream action stream',
    e.sndSocDaiStreamActive (e.sndSocDaiAction stream action use) stream' =
      e.sndSocDaiStreamActive use stream' + if stream = stream' then action else 0
  active : ∀ use, e.sndSocDaiActive use =
    e.sndSocDaiStreamActive use .playback + e.sndSocDaiStreamActive use .capture

/-- What is kept for a DAI. -/
structure DaiState (U : Type*) where
  params : DaiParams
  use : U

/-- The DAIs of a card, the limits of its substreams, and the calls made so far, the latest
first. -/
structure Soc (R D C U : Type*) where
  dai : D → DaiState U
  hw : Substream R → Hardware
  calls : List (Call R D C)

def EINVAL : Int := 22

def UINT_MAX : Nat := 0xFFFFFFFF

def ULLONG_MAX : Nat := 0xFFFFFFFFFFFFFFFF

variable {R D C U : Type*}

/-- Make a call and return what it answers. -/
def call (e : Env R D C U) (c : Call R D C) (s : Soc R D C U) : Int × Soc R D C U :=
  (e.reply (c :: s.calls), { s with calls := c :: s.calls })

section Call

variable (e : Env R D C U) (c : Call R D C) (s : Soc R D C U)

@[simp] theorem call_fst : (call e c s).1 = e.reply (c :: s.calls) := rfl

@[simp] theorem call_calls : (call e c s).2.calls = c :: s.calls := rfl

end Call

/-- Make a call that is handed the parameters, and keep what it leaves of them. -/
def callParams (e : Env R D C U) (c : HwParams → Call R D C) (a : HwParams × Soc R D C U) :
    Int × HwParams × Soc R D C U :=
  let b := call e (c a.1) a.2
  (b.1, e.written b.2.calls a.1, b.2)

/-! ## The parameters of the DAIs -/

/-- `soc_pcm_set_dai_params`, for the parameters `params` asks for or none. -/
def socPcmSetDaiParams (e : Env R D C U) : Option HwParams → DaiParams
  | some params => ⟨params.rate, params.channels, e.physicalWidth params.format⟩
  | none => ⟨0, 0, 0⟩

/-- What a DAI holds of a parameter where it is set up with `params`. -/
def Env.value (e : Env R D C U) (params : HwParams) (x : HwParam) : Nat :=
  (socPcmSetDaiParams e (some params)).get x

/-- `symmetry` in `soc_pcm_params_symmetry`: the link or the driver of one of its DAIs asks for
it. -/
def Env.symmetry (e : Env R D C U) (r : R) (x : HwParam) : Bool :=
  (e.rtd r).symmetric x || (e.rtd r).dais.any fun d => (e.dai d).symmetric x

def socPcmParamsSymmetry (e : Env R D C U) (s : Soc R D C U) (k : Substream R)
    (params : HwParams) : Int :=
  let d := socPcmSetDaiParams e (some params)
  let unmatched (x : HwParam) : Bool :=
    e.symmetry k.rtd x && (e.rtd k.rtd).cpuDais.any fun c =>
      !(e.dai c).isDummy && (s.dai c).params.get x != 0 && (s.dai c).params.get x != d.get x
  if HwParam.all.any unmatched then -EINVAL else 0

/-- `__soc_pcm_apply_symmetry` for one parameter. -/
def applySymmetryParam (e : Env R D C U) (k : Substream R) (d : D) (x : HwParam) (s : Soc R D C U) :
    Int × Soc R D C U :=
  let value := (s.dai d).params.get x
  if value ≠ 0 ∧ ((e.dai d).symmetric x ∨ (e.rtd k.rtd).symmetric x) then
    call e (.hwConstraintSingle k x value) s
  else (0, s)

def socPcmApplySymmetry (e : Env R D C U) (k : Substream R) (d : D) (s : Soc R D C U) :
    Int × Soc R D C U :=
  if e.sndSocDaiActive (s.dai d).use = 0 then (0, s)
  else attempt (attemptEach (applySymmetryParam e k d) HwParam.all (0, s)) fun s => (0, s)

def socPcmUpdateSymmetry (e : Env R D C U) (k : Substream R) (hw : Hardware) : Hardware :=
  let any (symmetric : HwParam → Bool) : Bool := HwParam.all.any symmetric
  if any (e.rtd k.rtd).symmetric || (e.rtd k.rtd).dais.any fun d => any (e.dai d).symmetric then
    { hw with jointDuplex := true }
  else hw

/-! ## The limits of a runtime -/

def socPcmHwInit (hw : Hardware) : Hardware :=
  { hw with
    rates := UINT_MAX
    rateMin := 0
    rateMax := UINT_MAX
    channelsMin := 0
    channelsMax := UINT_MAX
    formats := ULLONG_MAX }

def socPcmHwUpdateRate (e : Env R D C U) (p : PcmStream) (hw : Hardware) : Hardware :=
  let hw := e.limitRates { hw with rates := e.rateMaskIntersect hw.rates p.rates }
  { hw with rateMin := max hw.rateMin p.rateMin, rateMax := e.minNotZero hw.rateMax p.rateMax }

def socPcmHwUpdateChan (p : PcmStream) (hw : Hardware) : Hardware :=
  { hw with
    channelsMin := max hw.channelsMin p.channelsMin
    channelsMax := min hw.channelsMax p.channelsMax }

def socPcmHwUpdateFormat (p : PcmStream) (hw : Hardware) : Hardware :=
  { hw with formats := hw.formats &&& p.formats }

/-- One DAI of `snd_soc_runtime_calc_hw`, which skips those without the direction. -/
def calcHwBody (e : Env R D C U) (stream : Stream) (hw : Hardware) (d : D) : Hardware :=
  if !(e.dai d).streamValid stream then hw
  else
    let p := (e.dai d).pcmStream stream
    socPcmHwUpdateFormat p (socPcmHwUpdateRate e p (socPcmHwUpdateChan p hw))

def sndSocRuntimeCalcHw (e : Env R D C U) (k : Substream R) (hw : Hardware) : Int × Hardware :=
  let r := e.rtd k.rtd
  let cpu := r.cpuDais.foldl (calcHwBody e k.stream) (socPcmHwInit hw)
  let hw := r.codecDais.foldl (calcHwBody e k.stream) cpu
  if hw.channelsMin = 0 then (-EINVAL, hw)
  else if r.codecDais.length > 1 then
    (0, { hw with channelsMin := cpu.channelsMin, channelsMax := cpu.channelsMax })
  else (0, hw)

/-- The code of `snd_soc_runtime_calc_hw` is dropped. -/
def socPcmInitRuntimeHw (e : Env R D C U) (k : Substream R) (hw : Hardware) : Hardware :=
  let formats := hw.formats
  let hw := (sndSocRuntimeCalcHw e k hw).2
  if formats ≠ 0 then { hw with formats := hw.formats &&& formats } else hw

def socHwSanityCheck (hw : Hardware) : Int :=
  if hw.rates = 0 then -EINVAL
  else if hw.formats = 0 then -EINVAL
  else if hw.channelsMin = 0 ∨ hw.channelsMax = 0 ∨ hw.channelsMin > hw.channelsMax then -EINVAL
  else 0

def socPcmSetMsb (e : Env R D C U) (k : Substream R) (bits : Nat) (s : Soc R D C U) : Soc R D C U :=
  if bits = 0 then s else (call e (.hwConstraintMsbits k bits) s).2

/-- The most significant bits of the DAIs, or none if one of them does not say. -/
def sigBits (e : Env R D C U) (stream : Stream) (l : List D) : Nat :=
  let bits := l.map fun d => ((e.dai d).pcmStream stream).sigBits
  if bits.contains 0 then 0 else bits.foldl max 0

def socPcmApplyMsb (e : Env R D C U) (k : Substream R) (s : Soc R D C U) : Soc R D C U :=
  let s := socPcmSetMsb e k (sigBits e k.stream (e.rtd k.rtd).codecDais) s
  socPcmSetMsb e k (sigBits e k.stream (e.rtd k.rtd).cpuDais) s

variable [DecidableEq D]

def Soc.modDai (s : Soc R D C U) (d : D) (g : DaiState U → DaiState U) : Soc R D C U :=
  { s with dai := Function.update s.dai d (g (s.dai d)) }

section ModDai

variable (s : Soc R D C U) (d : D) {c : D} (g : DaiState U → DaiState U)

@[simp] theorem modDai_dai_self : (s.modDai d g).dai d = g (s.dai d) := by
  simp [Soc.modDai]

variable {d} in
@[simp] theorem modDai_dai_of_ne (hne : c ≠ d) : (s.modDai d g).dai c = s.dai c := by
  simp [Soc.modDai, hne]

end ModDai

/-! ## Opening and closing -/

/-- One DAI of `snd_soc_runtime_action`. -/
def runtimeActionBody (e : Env R D C U) (stream : Stream) (action : Int) (s : Soc R D C U) (d : D) :
    Soc R D C U :=
  s.modDai d fun x => { x with use := e.sndSocDaiAction stream action x.use }

def sndSocRuntimeAction (e : Env R D C U) (k : Substream R) (action : Int) (s : Soc R D C U) :
    Soc R D C U :=
  (e.rtd k.rtd).dais.foldl (runtimeActionBody e k.stream action) s

def sndSocRuntimeActivate (e : Env R D C U) (k : Substream R) (s : Soc R D C U) : Soc R D C U :=
  sndSocRuntimeAction e k 1 s

def sndSocRuntimeDeactivate (e : Env R D C U) (k : Substream R) (s : Soc R D C U) : Soc R D C U :=
  sndSocRuntimeAction e k (-1) s

def socPcmComponentsOpen (e : Env R D C U) (k : Substream R) (s : Soc R D C U) :
    Int × Soc R D C U :=
  let one (c : C) (s : Soc R D C U) : Int × Soc R D C U :=
    attempt (call e (.componentModuleGet c k) s) (call e (.componentOpen c k))
  attemptEach one (e.rtd k.rtd).components (0, s)

/-- What it returns is not looked at. -/
def socPcmComponentsClose (e : Env R D C U) (k : Substream R) (rollback : Bool) (s : Soc R D C U) :
    Soc R D C U :=
  (e.rtd k.rtd).components.foldl (fun s c =>
    (call e (.componentModulePut c k rollback) (call e (.componentClose c k rollback) s).2).2) s

def socPcmClean (e : Env R D C U) (k : Substream R) (rollback : Bool) (s : Soc R D C U) :
    Soc R D C U :=
  let s := if rollback then s else sndSocRuntimeDeactivate e k s
  let s := (e.rtd k.rtd).dais.foldl (fun s d => (call e (.daiShutdown d k rollback) s).2) s
  let s := (call e (.linkShutdown k rollback) s).2
  let s := socPcmComponentsClose e k rollback s
  (call e (.pmRuntimePut k rollback) s).2

def socPcmClose (e : Env R D C U) (k : Substream R) (s : Soc R D C U) : Int × Soc R D C U :=
  (0, socPcmClean e k false s)

variable [DecidableEq R]

/-- The limits of a substream are set. -/
def Soc.setHw (s : Soc R D C U) (k : Substream R) (hw : Hardware) : Soc R D C U :=
  { s with hw := Function.update s.hw k hw }

/-- `__soc_pcm_open` up to the startups of the DAIs. -/
def socPcmOpenStart (e : Env R D C U) (k : Substream R) (s : Soc R D C U) : Int × Soc R D C U :=
  attempt (call e (.pmRuntimeGet k) s) fun s =>
  attempt (socPcmComponentsOpen e k s) fun s =>
  attempt (call e (.linkStartup k) s) fun s =>
  attemptEach (fun d => call e (.daiStartup d k)) (e.rtd k.rtd).dais (0, s)

/-- `__soc_pcm_open` up to its label `err`. -/
def socPcmOpenTry (e : Env R D C U) (k : Substream R) (s : Soc R D C U) : Int × Soc R D C U :=
  attempt (socPcmOpenStart e k s) fun s =>
  if (e.rtd k.rtd).dynamic || (e.rtd k.rtd).noPcm then (0, sndSocRuntimeActivate e k s)
  else
    let hw := socPcmInitRuntimeHw e k (e.driverHw s.calls k)
    let s := s.setHw k (socPcmUpdateSymmetry e k hw)
    attempt (socHwSanityCheck (s.hw k), s) fun s =>
    attempt (attemptEach (socPcmApplySymmetry e k) (e.rtd k.rtd).dais
      (0, socPcmApplyMsb e k s)) fun s =>
    (0, sndSocRuntimeActivate e k s)

def socPcmOpen (e : Env R D C U) (k : Substream R) (s : Soc R D C U) : Int × Soc R D C U :=
  let a := socPcmOpenTry e k s
  if a.1 < 0 then (a.1, socPcmClean e k true a.2) else a

/-! ## Configuring -/

def socPcmCodecParamsFixup (e : Env R D C U) (mask : Nat) (params : HwParams) : HwParams :=
  { params with channels := e.hweightLong mask }

/-- One codec DAI of `__soc_pcm_hw_params`, which skips those without the direction. It is handed a
copy of the parameters. -/
def codecDaiHwParams (e : Env R D C U) (k : Substream R) (d : D) (a : HwParams × Soc R D C U) :
    Int × HwParams × Soc R D C U :=
  if !(e.dai d).streamValid k.stream then (0, a)
  else
    let mask := e.mask a.2.calls d k.stream
    let codecParams := if mask ≠ 0 then socPcmCodecParamsFixup e mask a.1 else a.1
    let b := attempt (callParams e (.daiHwParams d k) (codecParams, a.2)) fun b =>
      (0, b.1, b.2.modDai d fun x => { x with params := socPcmSetDaiParams e (some b.1) })
    (b.1, a.1, b.2.2)

/-- One CPU DAI of `__soc_pcm_hw_params`. -/
def cpuDaiHwParams (e : Env R D C U) (k : Substream R) (d : D) (a : HwParams × Soc R D C U) :
    Int × HwParams × Soc R D C U :=
  if !(e.dai d).streamValid k.stream then (0, a)
  else
    attempt (callParams e (.daiHwParams d k) a) fun b =>
      (0, b.1, b.2.modDai d fun x => { x with params := socPcmSetDaiParams e (some b.1) })

/-- One DAI of the loop of `soc_pcm_hw_clean` that clears the parameters. -/
def clearDai (e : Env R D C U) (k : Substream R) (s : Soc R D C U) (d : D) : Soc R D C U :=
  let s :=
    if e.sndSocDaiActive (s.dai d).use = 1 then
      s.modDai d fun x => { x with params := socPcmSetDaiParams e none }
    else s
  if e.sndSocDaiStreamActive (s.dai d).use k.stream = 1 then
    (call e (.daiDigitalMute d true k.stream) s).2
  else s

def socPcmHwClean (e : Env R D C U) (k : Substream R) (rollback : Bool) (s : Soc R D C U) :
    Soc R D C U :=
  let s := (e.rtd k.rtd).dais.foldl (clearDai e k) s
  let s := (call e (.linkHwFree k rollback) s).2
  let s := (call e (.componentHwFree k rollback) s).2
  (e.rtd k.rtd).dais.foldl (fun s d =>
    if (e.dai d).streamValid k.stream then (call e (.daiHwFree d k rollback) s).2 else s) s

def socPcmHwFree (e : Env R D C U) (k : Substream R) (s : Soc R D C U) : Int × Soc R D C U :=
  (0, socPcmHwClean e k false s)

/-- `__soc_pcm_hw_params` up to its label `out`, with what the calls leave of the parameters. -/
def socPcmHwParamsTry (e : Env R D C U) (k : Substream R) (params : HwParams)
    (s : Soc R D C U) : Int × HwParams × Soc R D C U :=
  attempt (socPcmParamsSymmetry e s k params, params, s) fun a =>
  attempt (callParams e (.linkHwParams k) a) fun a =>
  attempt (attemptEach (codecDaiHwParams e k) (e.rtd k.rtd).codecDais (0, a)) fun a =>
  attempt (attemptEach (cpuDaiHwParams e k) (e.rtd k.rtd).cpuDais (0, a)) fun a =>
  callParams e (.componentHwParams k) a

def socPcmHwParams (e : Env R D C U) (k : Substream R) (params : HwParams) (s : Soc R D C U) :
    Int × HwParams × Soc R D C U :=
  let a := socPcmHwParamsTry e k params s
  if a.1 < 0 then (a.1, a.2.1, socPcmHwClean e k true a.2.2) else a

/-! ## Running -/

def socPcmPrepare (e : Env R D C U) (k : Substream R) (s : Soc R D C U) : Int × Soc R D C U :=
  attempt (call e (.linkPrepare k) s) fun s =>
  attempt (call e (.componentPrepare k) s) fun s =>
  let a := call e (.daiPrepare k) s
  attempt a fun s =>
  (a.1, (e.rtd k.rtd).dais.foldl (fun s d => (call e (.daiDigitalMute d false k.stream) s).2) s)

/-- The command that takes a failed start back. -/
def TriggerCmd.inverse : TriggerCmd → TriggerCmd
  | .start => .stop
  | .resume => .suspend
  | .pauseRelease => .pausePush
  | cmd => cmd

/-- The stopping half of `soc_pcm_trigger`. -/
def socPcmTriggerStop (e : Env R D C U) (k : Substream R) (cmd : TriggerCmd) (rollback : Bool)
    (s : Soc R D C U) : Int × Soc R D C U :=
  let component := call e (.componentTrigger k cmd rollback)
  let dai := call e (.daiTrigger k cmd rollback)
  let first := if (e.rtd k.rtd).stopDmaFirst then component else dai
  let second := if (e.rtd k.rtd).stopDmaFirst then dai else component
  attempt (first s) fun s =>
  attempt (second s) fun s =>
  call e (.linkTrigger k cmd rollback) s

/-- A start that fails is taken back, and its code is returned. -/
def socPcmTrigger (e : Env R D C U) (k : Substream R) (cmd : TriggerCmd) (s : Soc R D C U) :
    Int × Soc R D C U :=
  match cmd with
  | .start | .resume | .pauseRelease =>
    let a :=
      attempt (call e (.linkTrigger k cmd false) s) fun s =>
      attempt (call e (.componentTrigger k cmd false) s) fun s =>
      call e (.daiTrigger k cmd false) s
    if a.1 < 0 then (a.1, (socPcmTriggerStop e k cmd.inverse true a.2).2) else a
  | .stop | .suspend | .pausePush => socPcmTriggerStop e k cmd false s
  | .drain => (-EINVAL, s)

end NoteNew.Pcm
