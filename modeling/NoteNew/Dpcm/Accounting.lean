import Mathlib.Data.Set.Card
import NoteNew.Dpcm.DriverProtocol
import NoteNew.Dpcm.Linking
import NoteNew.Dpcm.Triggering

/-!
# Every link has one user

Front ends and back ends agree on their links, each link counts for one user of its back end, and a
back end that nobody is linked to is closed. So a driver is open exactly while a front end is linked
to it, and runs on the runtime of one that is. This needs a front end to be opened once at a time
and with room at its back ends; what the drivers answer and the order of the operations do not
matter.
-/

namespace NoteNew.Dpcm

set_option linter.unusedSectionVars false

variable {F B P : Type*} [DecidableEq F] [DecidableEq B]

/-- The links, users and runtime of one back end. -/
structure BeAccount (s : Card F B P) (b : B) : Prop where
  linked : ∀ f, b ∈ clients s f ↔ f ∈ (s.be b).feClients
  nodup : (s.be b).feClients.Nodup
  users : (s.be b).users = (s.be b).feClients.length
  closed : (s.be b).users = 0 ↔ (s.be b).Closed
  runtime : (s.be b).feClients ≠ [] →
    ∃ g ∈ (s.be b).feClients, (s.be b).substreamRuntime = some g

structure Accounts (s : Card F B P) : Prop where
  quiet : ∀ f, (s.fe f).Quiet
  nodup : ∀ f, (clients s f).Nodup
  runtime : ∀ f, (s.fe f).beClients ≠ [] → (s.fe f).runtime = some f
  be : ∀ b, BeAccount s b

/-- A front end is opened while it has no links, and none of the back ends found is full. The links
are not changed while it is open. -/
def Tidy (s : Card F B P) : Op F B P → Int → Prop
  | .opn f _ list, _ => clients s f = [] ∧ ∀ b ∈ list, (s.be b).users < DPCM_MAX_BE_USERS
  | .runtimeUpdate _ _ _ _, _ => False
  | _, _ => True

instance (s : Card F B P) : ∀ op ret, Decidable (Tidy s op ret)
  | .opn f _ list, _ => inferInstanceAs (Decidable (clients s f = [] ∧ ∀ b ∈ list, _ < _))
  | .runtimeUpdate _ _ _ _, _ => inferInstanceAs (Decidable False)
  | .close _, _ | .hwParams _ _, _ | .hwFree _, _ | .prepare _, _ | .trigger _ _, _ =>
    inferInstanceAs (Decidable True)

variable {e : Env F B P} {s s' : Card F B P} {f : F} {b : B}

theorem closed_iff {x : BeRuntime F P} : x.Closed ↔ x.state ∈ [DpcmState.new, .close] := by
  simp [BeRuntime.Closed]

theorem phase_eq_closed_iff {x : BeRuntime F P} : x.state.phase = .closed ↔ x.Closed := by
  rw [closed_iff]
  cases x.state <;> simp [DpcmState.phase]

theorem clients_congr (h : (s'.fe f).beClients = (s.fe f).beClients) :
    clients s' f = clients s f := by
  rw [clients, h, clients]

theorem BeAccount.users_nonneg (h : BeAccount s b) : 0 ≤ (s.be b).users := by
  rw [h.users]
  exact Int.natCast_nonneg _

theorem BeAccount.unlinked_iff (h : BeAccount s b) :
    (s.be b).users = 0 ↔ (s.be b).feClients = [] := by
  rw [h.users, Int.natCast_eq_zero, List.length_eq_zero_iff]

theorem clients_of_ne {x : FeRuntime F B P} (hfe : s'.fe = Function.update s.fe f x) {g : F}
    (hg : g ≠ f) : clients s' g = clients s g :=
  clients_congr (by rw [hfe, Function.update_of_ne hg])

section Accounts

variable (h : Accounts s)
include h

theorem Accounts.not_linked (hnone : clients s f = []) (b : B) : f ∉ (s.be b).feClients := by
  intro hmem
  have := ((h.be b).linked f).mpr hmem
  simp [hnone] at this

theorem Accounts.fit (hroom : (s.be b).users < DPCM_MAX_BE_USERS) : (s.be b).Fit :=
  ⟨(h.be b).users_nonneg, Int.ne_of_lt hroom, (h.be b).closed.mp⟩

theorem Accounts.users_pos (hb : b ∈ clients s f) : 0 < (s.be b).users := by
  have hpos := List.length_pos_of_mem (((h.be b).linked f).mp hb)
  have := (h.be b).users
  omega

end Accounts

/-- An operation on one front end. -/
theorem Accounts.update {x : FeRuntime F B P} (h : Accounts s)
    (hfe : s'.fe = Function.update s.fe f x) (hq : x.Quiet) (hl : (x.beClients.map Link.be).Nodup)
    (hr : x.beClients ≠ [] → x.runtime = some f) (hbe : ∀ b, BeAccount s' b) : Accounts s' := by
  refine ⟨fun g => ?_, fun g => ?_, fun g => ?_, hbe⟩
  · by_cases hg : g = f
    · subst hg
      rw [hfe, Function.update_self]
      exact hq
    · rw [hfe, Function.update_of_ne hg]
      exact h.quiet g
  · by_cases hg : g = f
    · subst hg
      rw [clients, hfe, Function.update_self]
      exact hl
    · rw [clients_of_ne hfe hg]
      exact h.nodup g
  · by_cases hg : g = f
    · subst hg
      rw [hfe, Function.update_self]
      exact hr
    · rw [hfe, Function.update_of_ne hg]
      exact h.runtime g

/-- An operation that changes no links and no users. -/
theorem Accounts.sameUse (h : Accounts s) {x : FeRuntime F B P}
    (hfe : s'.fe = Function.update s.fe f x) (hlinks : x.beClients = (s.fe f).beClients)
    (hruntime : x.runtime = (s.fe f).runtime) (hq : x.Quiet)
    (hbe : ∀ b, SameUse (s.be b) (s'.be b)) : Accounts s' := by
  have hclients : ∀ g, clients s' g = clients s g := by
    intro g
    apply clients_congr
    by_cases hg : g = f
    · subst hg
      rw [hfe, Function.update_self, hlinks]
    · rw [hfe, Function.update_of_ne hg]
  refine h.update hfe hq (by rw [hlinks]; exact h.nodup f)
    (by rw [hlinks, hruntime]; exact h.runtime f) fun b => ?_
  have hb := hbe b
  have hacc := h.be b
  refine ⟨fun g => ?_, ?_, ?_, ?_, ?_⟩
  · rw [hclients, hb.feClients]
    exact hacc.linked g
  · rw [hb.feClients]
    exact hacc.nodup
  · rw [hb.users, hb.feClients]
    exact hacc.users
  · rw [hb.users, hb.closed]
    exact hacc.closed
  · rw [hb.feClients, hb.substreamRuntime]
    exact hacc.runtime

theorem Accounts.used {state : DpcmState} (h : Accounts s) (hu : Used f state SameUse s s') :
    Accounts s' := by
  obtain ⟨p, hfe⟩ := hu.fe
  refine h.sameUse hfe rfl rfl ⟨(h.quiet f).runtimeUpdate, (h.quiet f).triggerPending⟩ fun b => ?_
  by_cases hb : b ∈ clients s f
  · exact hu.on b hb
  · rw [hu.off b hb]
    exact .refl _

theorem Accounts.handled {state : DpcmState} {on : B → BeRuntime F P → BeRuntime F P → Prop}
    (h : Accounts s) (hh : Handled f state on s s')
    (hon : ∀ b ∈ clients s f, on b (s.be b) (s'.be b) → SameUse (s.be b) (s'.be b)) :
    Accounts s' := by
  obtain ⟨params, hfe⟩ := hh.fe
  refine h.sameUse hfe rfl rfl ⟨(h.quiet f).runtimeUpdate, (h.quiet f).triggerPending⟩ fun b => ?_
  by_cases hb : b ∈ clients s f
  · exact hon b hb (hh.on b hb)
  · rw [hh.off b hb]
    exact .refl _

theorem Accounts.opened {list : List B} (h : Accounts s) (hnone : clients s f = [])
    (ho : OpenedOn f list s s') : Accounts s' := by
  obtain ⟨links, runtime, state, hruntime, -, hfe⟩ := ho.fe
  have hf := h.not_linked hnone
  have hl := ho.nodup
  rw [clients, hfe, Function.update_self] at hl
  refine h.update hfe ⟨(h.quiet f).runtimeUpdate, (h.quiet f).triggerPending⟩ hl
    (fun hsome => (hruntime.resolve_left hsome).2) fun b => ?_
  have hacc := h.be b
  by_cases hb : b ∈ clients s' f
  · have hj := ho.on b hb
    refine ⟨fun g => ?_, ?_, ?_, iff_of_false ?_ ?_, fun _ => ?_⟩
    · rw [hj.feClients, List.mem_cons]
      by_cases hg : g = f
      · subst hg
        exact iff_of_true hb (.inl rfl)
      · rw [clients_of_ne hfe hg, hacc.linked g]
        exact ⟨.inr, fun h => h.resolve_left hg⟩
    · rw [hj.feClients]
      exact List.nodup_cons.mpr ⟨hf b, hacc.nodup⟩
    · rw [hj.users, hj.feClients, hacc.users, List.length_cons]
      rfl
    · have := hacc.users_nonneg
      have := hj.users
      omega
    · by_cases hu : (s.be b).users = 0
      · simp [BeRuntime.Closed, (hj.unused hu).1]
      · rw [closed_iff, (hj.inUse hu).1, ← closed_iff]
        exact mt hacc.closed.mpr hu
    · rw [hj.feClients]
      by_cases hu : (s.be b).users = 0
      · exact ⟨f, List.mem_cons_self, (hj.unused hu).2.2⟩
      · obtain ⟨g, hg, hsub⟩ := hacc.runtime fun h => hu (hacc.unlinked_iff.mpr h)
        exact ⟨g, List.mem_cons_of_mem f hg, (hj.inUse hu).2.2.trans hsub⟩
  · have hk := ho.off b hb
    refine ⟨fun g => ?_, ?_, ?_, ?_, fun hsome => ?_⟩
    · rw [hk.feClients]
      by_cases hg : g = f
      · subst hg
        exact iff_of_false hb (hf b)
      · rw [clients_of_ne hfe hg]
        exact hacc.linked g
    · rw [hk.feClients]
      exact hacc.nodup
    · rw [hk.users, hk.feClients]
      exact hacc.users
    · rw [hk.users]
      by_cases hu : (s.be b).users = 0
      · exact iff_of_true hu (hk.unused hu (hacc.closed.mp hu))
      · rw [closed_iff, (hk.inUse hu).1, ← closed_iff]
        exact hacc.closed
    · rw [hk.feClients] at hsome ⊢
      rcases hk.substream fun hu => hsome (hacc.unlinked_iff.mp hu) with hsub | hsub
      · rw [hsub]
        exact hacc.runtime hsome
      · exact hsub

/-- What a back end that `f` was linked to comes to. -/
theorem BeAccount.gone {x : FeRuntime F B P} (h : BeAccount s b)
    (hfe : s'.fe = Function.update s.fe f x) (hx : x.beClients = []) (hb : b ∈ clients s f)
    (hgone : Gone f (s.be b) (s'.be b)) : BeAccount s' b := by
  have hself : clients s' f = [] := by
    rw [clients, hfe, Function.update_self, hx, List.map_nil]
  have hf : f ∈ (s.be b).feClients := (h.linked f).mp hb
  have herase : (s.be b).feClients.filter (fun g => g != f) = (s.be b).feClients.erase f :=
    (h.nodup.erase_eq_filter f).symm
  have hlength := List.length_erase_of_mem hf
  have hpos := List.length_pos_of_mem hf
  have husers := h.users
  refine ⟨fun g => ?_, ?_, ?_, ?_, fun hsome => ?_⟩
  · rw [hgone.feClients, List.mem_filter]
    by_cases hg : g = f
    · subst hg
      simp [hself]
    · rw [clients_of_ne hfe hg, h.linked g]
      simp [hg]
  · rw [hgone.feClients]
    exact h.nodup.filter _
  · rw [hgone.users, hgone.feClients, herase, hlength]
    omega
  · rw [hgone.users]
    by_cases hu : (s.be b).users = 1
    · exact iff_of_true (by omega) (.inr (hgone.unused hu))
    · rw [closed_iff, (hgone.inUse hu).1, ← closed_iff, ← h.closed]
      omega
  · rw [hgone.feClients] at hsome
    obtain ⟨g, hg⟩ := List.exists_mem_of_ne_nil _ hsome
    rw [List.mem_filter] at hg
    have hgf : g ≠ f := by simpa using hg.2
    have hmany : (s.be b).users ≠ 1 := by
      intro hone
      have hlen : (s.be b).feClients.length = 1 := by omega
      obtain ⟨c, hc⟩ := List.length_eq_one_iff.mp hlen
      rw [hc] at hg hf
      exact hgf ((List.mem_singleton.mp hg.1).trans (List.mem_singleton.mp hf).symm)
    exact (hgone.inUse hmany).2 g hg.1 hgf

theorem Accounts.closed (h : Accounts s)
    (hfe : s'.fe = Function.update s.fe f
      { s.fe f with beClients := [], runtime := none, state := .close })
    (hbe : ∀ b, (b ∈ clients s f → Gone f (s.be b) (s'.be b)) ∧
      (b ∉ clients s f → s'.be b = s.be b)) : Accounts s' := by
  refine h.update hfe ⟨(h.quiet f).runtimeUpdate, (h.quiet f).triggerPending⟩ List.nodup_nil
    (fun hsome => absurd rfl hsome) fun b => ?_
  have hacc := h.be b
  by_cases hb : b ∈ clients s f
  · exact hacc.gone hfe rfl hb ((hbe b).1 hb)
  · have hf : f ∉ (s.be b).feClients := fun h => hb ((hacc.linked f).mpr h)
    have hsame := (hbe b).2 hb
    refine ⟨fun g => ?_, ?_, ?_, ?_, ?_⟩
    · rw [hsame]
      by_cases hg : g = f
      · subst hg
        refine iff_of_false ?_ hf
        rw [clients, hfe, Function.update_self]
        exact List.not_mem_nil
      · rw [clients_of_ne hfe hg]
        exact hacc.linked g
    · rw [hsame]
      exact hacc.nodup
    · rw [hsame]
      exact hacc.users
    · rw [hsame]
      exact hacc.closed
    · rw [hsame]
      exact hacc.runtime

/-! ## Steps -/

theorem Advanced.sameUse {c : Prop} {state : DpcmState} {x x' : BeRuntime F P}
    (h : Advanced c state x x') (hc : c → ¬ x.Closed) (hstate : state ∉ [.new, .close]) :
    SameUse x x' := by
  refine h.restated.sameUse ?_
  by_cases hc' : c
  · refine iff_of_false ?_ (hc hc')
    rw [closed_iff, h.of_cond hc']
    exact hstate
  · rw [closed_iff, closed_iff, h.of_not hc']

theorem Freeable.isOpen (h : Freeable s f b) : ¬ (s.be b).Closed := by
  have := h.2.2
  rw [closed_iff]
  revert this
  cases (s.be b).state <;> simp

theorem Configurable.isOpen (h : Configurable s f b) : ¬ (s.be b).Closed := by
  have := h.2
  rw [closed_iff]
  revert this
  cases (s.be b).state <;> simp

theorem Preparable.isOpen (h : Preparable s f b) : ¬ (s.be b).Closed := by
  have := h.2
  rw [closed_iff]
  revert this
  cases (s.be b).state <;> simp

theorem Unconfigured.sameUse {x' : BeRuntime F P} (h : Unconfigured s f b (s.be b) x') :
    SameUse (s.be b) x' := by
  refine h.restated.sameUse ?_
  rcases h.state with hstate | ⟨hconf, hstate⟩ | ⟨-, hopen, hstate⟩
  · rw [closed_iff, closed_iff, hstate]
  · refine iff_of_false ?_ hconf.isOpen
    simp [closed_iff, hstate]
  · refine iff_of_false (by simp [closed_iff, hstate]) ?_
    rw [closed_iff]
    revert hopen
    cases (s.be b).state <;> simp

theorem Accounts.step (he : e.shutdownHwFree = true) (h : Accounts s) (op : Op F B P)
    (htidy : Tidy s op (step e s op).1) : Accounts (step e s op).2 := by
  cases op with
  | opn f paths list =>
    obtain ⟨hnone, hroom⟩ := htidy
    exact h.opened hnone (dpcmFeDaiOpen_spec (h.quiet f) hnone (fun b hb => h.fit (hroom b hb))
      (h.not_linked hnone))
  | close f =>
    obtain ⟨hfe, hbe⟩ :=
      dpcmFeDaiClose_spec he (h.quiet f) (h.nodup f) fun b hb => h.users_pos hb
    exact h.closed hfe hbe
  | hwParams f params =>
    rcases dpcmFeDaiHwParams_spec (e := e) params (h.quiet f) (h.nodup f) with
      ⟨-, hh⟩ | ⟨-, hh⟩
    · exact h.handled hh fun b _ hb => hb.sameUse Configurable.isOpen (by simp)
    · exact h.handled hh fun b _ hb => hb.sameUse
  | hwFree f =>
    exact h.handled (dpcmFeDaiHwFree_spec (h.quiet f) (h.nodup f)).2 fun b _ hb =>
      hb.sameUse Freeable.isOpen (by simp)
  | prepare f =>
    rcases dpcmFeDaiPrepare_spec (e := e) (h.quiet f) (h.nodup f) with ⟨-, -, hh⟩ | ⟨-, hh⟩
    · exact h.handled hh fun b _ hb => hb.sameUse Preparable.isOpen (by simp)
    · refine h.handled hh fun b _ ⟨c, hc, hb⟩ => hb.sameUse (fun h => (hc h).isOpen) (by simp)
  | trigger f cmd => exact h.used (dpcmFeDaiTrigger_used (h.quiet f))
  | runtimeUpdate f new paths list => exact htidy.elim

theorem accounts_new [Inhabited P] (nonatomic : B → Bool) :
    Accounts (Card.new nonatomic : Card F B P) where
  quiet _ := ⟨rfl, rfl⟩
  nodup _ := List.nodup_nil
  runtime _ hsome := absurd rfl hsome
  be _ := ⟨fun _ => iff_of_false List.not_mem_nil List.not_mem_nil, List.nodup_nil, rfl,
    iff_of_true rfl (.inl rfl), fun h => absurd rfl h⟩

theorem accounts_run [Inhabited P] {nonatomic : B → Bool} {ops : List (Op F B P)}
    (he : e.shutdownHwFree = true) (h : Legal e Tidy (Card.new nonatomic) ops) :
    Accounts (run e (Card.new nonatomic) ops) :=
  h.keeps (accounts_new nonatomic) fun _ op hs htidy => hs.step he op htidy

/-! ## What the accounts say -/

/-- The users of a back end are the front ends linked to it, and its driver is open exactly while
there are any. -/
theorem users_run [Inhabited P] (e : Env F B P) (he : e.shutdownHwFree = true)
    (nonatomic : B → Bool) (ops : List (Op F B P)) (h : Legal e Tidy (Card.new nonatomic) ops)
    (b : B) : let s := run e (Card.new nonatomic) ops
    (s.be b).users = ({f | b ∈ clients s f} : Set F).ncard ∧
      (driverPhase (history e b s.calls) = some .closed ↔ ∀ f, b ∉ clients s f) := by
  intro s
  have hacc := (accounts_run he h).be b
  have hphase : driverPhase (history e b s.calls) = some (s.be b).state.phase :=
    (tracked_run e nonatomic ops b).phase
  have hset : ({f | b ∈ clients s f} : Set F) = ((s.be b).feClients.toFinset : Set F) := by
    ext f
    simp [← hacc.linked f, s]
  have hnone : (∀ f, b ∉ clients s f) ↔ (s.be b).users = 0 := by
    rw [hacc.unlinked_iff, List.eq_nil_iff_forall_not_mem]
    exact forall_congr' fun f => not_congr (hacc.linked f)
  constructor
  · rw [hset, Set.ncard_coe_finset, List.toFinset_card_of_nodup hacc.nodup]
    exact hacc.users
  · rw [hnone, hacc.closed, hphase, Option.some_inj]
    exact phase_eq_closed_iff

/-- Two front ends on one back end, the first of which closes again. -/
def sharedRun : List (Op Bool Unit Unit) :=
  [.opn false 1 [()], .opn true 1 [()], .hwParams true (), .close false]

theorem users_run_shared : let s := run .obliging (Card.new fun _ => false) sharedRun
    (s.be ()).users = ({f | () ∈ clients s f} : Set Bool).ncard ∧
      (driverPhase (history .obliging () s.calls) = some .closed ↔ ∀ f, () ∉ clients s f) :=
  users_run .obliging rfl _ sharedRun (by decide) ()

/-- A back end in use runs on the runtime of a front end that is linked to it and open. -/
theorem substreamRuntime_run [Inhabited P] (e : Env F B P) (he : e.shutdownHwFree = true)
    (nonatomic : B → Bool) (ops : List (Op F B P)) (h : Legal e Tidy (Card.new nonatomic) ops)
    (f : F) (b : B) : let s := run e (Card.new nonatomic) ops
    b ∈ clients s f →
      ∃ g, (s.be b).substreamRuntime = some g ∧ b ∈ clients s g ∧ (s.fe g).runtime = some g := by
  intro s hb
  have hacc := accounts_run he h
  have hf := ((hacc.be b).linked f).mp hb
  obtain ⟨g, hg, hsub⟩ := (hacc.be b).runtime (List.ne_nil_of_mem hf)
  have hbg := ((hacc.be b).linked g).mpr hg
  refine ⟨g, hsub, hbg, hacc.runtime g fun hnil => ?_⟩
  simp [clients, hnil] at hbg

theorem substreamRuntime_run_shared : let s := run .obliging (Card.new fun _ => false) sharedRun
    ∃ g, (s.be ()).substreamRuntime = some g ∧ () ∈ clients s g ∧ (s.fe g).runtime = some g :=
  substreamRuntime_run .obliging rfl _ sharedRun (by decide) true () (by decide)

end NoteNew.Dpcm
