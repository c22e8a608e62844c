import Mathlib.Logic.Function.Basic

/-!
# The PCM runtimes of a card

Dynamic PCM puts several front ends, the PCMs applications open, on shared back ends, the DAI links
to the hardware. A `Card` holds the `struct snd_soc_dpcm_runtime` of each for one stream direction,
with the links between them, and the calls made to the drivers so far. What the drivers reply is a
parameter, as is the rest of what `soc-pcm.c` takes from elsewhere: `Env`.
-/

namespace NoteNew.Dpcm

/-! ## The enumerations -/

/-- `enum snd_soc_dpcm_state`. -/
inductive DpcmState where
  | new
  | opened
  | hwParams
  | prepare
  | start
  | stop
  | suspend
  | paused
  | hwFree
  | close
deriving DecidableEq, Repr

/-- `enum snd_soc_dpcm_update`. -/
inductive DpcmUpdate where
  | no
  | be
  | fe
deriving DecidableEq, Repr

/-- `enum snd_soc_dpcm_link_state`. -/
inductive LinkState where
  | new
  | free
deriving DecidableEq, Repr

/-- `enum snd_soc_dpcm_trigger`: whether a front end is triggered before or after its back ends. -/
inductive DpcmTrigger where
  | pre
  | post
  | bespoke
deriving DecidableEq, Repr

/-- The `SNDRV_PCM_TRIGGER_` commands. -/
inductive TriggerCmd where
  | start
  | resume
  | pauseRelease
  | drain
  | stop
  | suspend
  | pausePush
deriving DecidableEq, Repr

/-! ## Calls to the drivers -/

/-- The PCM operations DPCM calls on a runtime: `__soc_pcm_open` and so on, `soc_pcm_trigger`. -/
inductive PcmOp (P : Type*) where
  | opn
  | hwParams (params : P)
  | hwFree
  | prepare
  | trigger (cmd : TriggerCmd)
  | close
deriving DecidableEq, Repr

/-- The calls whose outcome is decided elsewhere. -/
inductive Call (F B P : Type*) where
  | be (b : B) (op : PcmOp P)
  | fe (f : F) (op : PcmOp P)
  | bespokeTrigger (f : F) (cmd : TriggerCmd)
  | applySymmetry (f : F)
  | kzalloc (f : F) (b : B)
deriving DecidableEq, Repr

/-- What `soc-pcm.c` takes from elsewhere. `reply` answers a call from all the calls so far, the
latest first; a negative answer is an error, and for `kzalloc` a null pointer. The last three are
the `do_hw_free` of the macros that wrap `dpcm_be_dai_stop`. -/
structure Env (F B P : Type*) where
  reply : List (Call F B P) → Int
  beHwParamsFixup : B → P → Int × P
  trigger : F → DpcmTrigger
  feNonatomic : F → Bool
  componentChaining : Bool
  shutdownHwFree : Bool
  startupUnwindHwFree : Bool
  startupRollbackHwFree : Bool

def EINVAL : Int := 22

def ENOMEM : Int := 12

def DPCM_MAX_BE_USERS : Int := 8

/-! ## The runtimes -/

/-- `struct snd_soc_dpcm`, as it stands in the list of its front end. -/
structure Link (B : Type*) where
  be : B
  state : LinkState
deriving DecidableEq, Repr

/-- `struct snd_soc_dpcm_runtime` of a front end. `triggerPending` is `cmd + 1` in the source, and
a pointer to a PCM runtime is the front end whose runtime it is. -/
structure FeRuntime (F B P : Type*) where
  beClients : List (Link B)
  runtime : Option F
  hwParams : P
  runtimeUpdate : DpcmUpdate
  state : DpcmState
  triggerPending : Option TriggerCmd
  fePause : Bool

/-- `struct snd_soc_dpcm_runtime` of a back end, with the `runtime` of its substream and the
`nonatomic` of its PCM. -/
structure BeRuntime (F P : Type*) where
  feClients : List F
  users : Int
  runtime : Option F
  substreamRuntime : Option F
  hwParams : P
  runtimeUpdate : DpcmUpdate
  state : DpcmState
  beStart : Int
  bePause : Int
  nonatomic : Bool

/-- The runtimes of a card, and the calls made so far, the latest first. -/
structure Card (F B P : Type*) where
  fe : F → FeRuntime F B P
  be : B → BeRuntime F P
  calls : List (Call F B P)

variable {F B P : Type*}

namespace Card

/-- A card as it is allocated: all zero, and the back ends as atomic as their drivers say. -/
def new [Inhabited P] (nonatomic : B → Bool) : Card F B P where
  fe _ := ⟨[], none, default, .no, .new, none, false⟩
  be b := ⟨[], 0, none, none, default, .no, .new, 0, 0, nonatomic b⟩
  calls := []

section FrontEnd

variable [DecidableEq F]

def modFe (s : Card F B P) (f : F) (g : FeRuntime F B P → FeRuntime F B P) : Card F B P :=
  { s with fe := Function.update s.fe f (g (s.fe f)) }

variable (s : Card F B P) (f : F) {f' : F} (g : FeRuntime F B P → FeRuntime F B P)

@[simp] theorem modFe_be : (s.modFe f g).be = s.be := rfl

@[simp] theorem modFe_calls : (s.modFe f g).calls = s.calls := rfl

theorem modFe_fe : (s.modFe f g).fe = Function.update s.fe f (g (s.fe f)) := rfl

@[simp] theorem modFe_fe_self : (s.modFe f g).fe f = g (s.fe f) := by
  simp [modFe]

variable {f} in
@[simp] theorem modFe_fe_of_ne (hne : f' ≠ f) : (s.modFe f g).fe f' = s.fe f' := by
  simp [modFe, hne]

end FrontEnd

section BackEnd

variable [DecidableEq B]

def modBe (s : Card F B P) (b : B) (g : BeRuntime F P → BeRuntime F P) : Card F B P :=
  { s with be := Function.update s.be b (g (s.be b)) }

variable (s : Card F B P) (b : B) {b' : B} (g : BeRuntime F P → BeRuntime F P)

@[simp] theorem modBe_fe : (s.modBe b g).fe = s.fe := rfl

@[simp] theorem modBe_calls : (s.modBe b g).calls = s.calls := rfl

theorem modBe_be : (s.modBe b g).be = Function.update s.be b (g (s.be b)) := rfl

@[simp] theorem modBe_be_self : (s.modBe b g).be b = g (s.be b) := by
  simp [modBe]

variable {b} in
@[simp] theorem modBe_be_of_ne (hne : b' ≠ b) : (s.modBe b g).be b' = s.be b' := by
  simp [modBe, hne]

end BackEnd

end Card

/-- Make a call and return what it answers. -/
def call (e : Env F B P) (c : Call F B P) (s : Card F B P) : Int × Card F B P :=
  (e.reply (c :: s.calls), { s with calls := c :: s.calls })

section Call

variable (e : Env F B P) (c : Call F B P) (s : Card F B P)

@[simp] theorem call_fst : (call e c s).1 = e.reply (c :: s.calls) := rfl

@[simp] theorem call_fe : (call e c s).2.fe = s.fe := rfl

@[simp] theorem call_be : (call e c s).2.be = s.be := rfl

@[simp] theorem call_calls : (call e c s).2.calls = c :: s.calls := rfl

end Call

/-! ## Which back ends an operation is for -/

def sndSocDpcmBeCanUpdate (s : Card F B P) (f : F) (b : B) : Bool :=
  (s.fe f).runtimeUpdate == .fe ||
    ((s.fe f).runtimeUpdate == .be && (s.be b).runtimeUpdate != .no)

/-- No front end of the back end but `f` is in one of the states. -/
def sndSocDpcmCheckState [DecidableEq F] (s : Card F B P) (f : F) (b : B)
    (states : List DpcmState) : Bool :=
  (s.be b).feClients.all fun g => g == f || !states.contains (s.fe g).state

section CheckState

variable [DecidableEq F] (s : Card F B P) (f : F) (b : B)

def sndSocDpcmCanBeFreeStop : Bool :=
  sndSocDpcmCheckState s f b [.start, .paused, .suspend]

def sndSocDpcmCanBeParams : Bool :=
  sndSocDpcmCheckState s f b [.start, .paused, .suspend, .prepare]

def sndSocDpcmCanBePrepared : Bool :=
  sndSocDpcmCheckState s f b [.start, .paused, .prepare]

variable {s f b}

theorem sndSocDpcmCheckState_iff {states : List DpcmState} :
    sndSocDpcmCheckState s f b states = true ↔
      ∀ g ∈ (s.be b).feClients, g ≠ f → (s.fe g).state ∉ states := by
  simp only [sndSocDpcmCheckState, List.all_eq_true, Bool.or_eq_true, beq_iff_eq,
    Bool.not_eq_true', List.contains_eq_mem, decide_eq_false_iff_not, or_iff_not_imp_left]

end CheckState

theorem sndSocDpcmBeCanUpdate_of_fe {s : Card F B P} {f : F} {b : B}
    (h : (s.fe f).runtimeUpdate = .fe) : sndSocDpcmBeCanUpdate s f b = true := by
  simp [sndSocDpcmBeCanUpdate, h]

def dpcmSetBeUpdateState [DecidableEq B] (b : B) (update : DpcmUpdate) (s : Card F B P) :
    Card F B P :=
  s.modBe b fun x => { x with runtimeUpdate := update }

end NoteNew.Dpcm
