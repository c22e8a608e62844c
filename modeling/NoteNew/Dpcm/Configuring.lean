import NoteNew.Dpcm.Opening

/-!
# What configuring does

`hw_free`, `hw_params` and `prepare` change the state of a back end and its parameters, and nothing
else that counts: `Restated`. Which back ends get the new state is decided from the states of the
other front ends, which stay as they are.
-/

namespace NoteNew.Dpcm

open Iteration

set_option linter.unusedSectionVars false

variable {F B P : Type*} [DecidableEq F] [DecidableEq B]

/-- The users, links and counts of a back end are as they were. -/
structure Restated (x x' : BeRuntime F P) : Prop where
  users : x'.users = x.users
  feClients : x'.feClients = x.feClients
  substreamRuntime : x'.substreamRuntime = x.substreamRuntime
  beStart : x'.beStart = x.beStart
  bePause : x'.bePause = x.bePause

theorem Restated.refl (x : BeRuntime F P) : Restated x x :=
  ⟨rfl, rfl, rfl, rfl, rfl⟩

theorem Restated.trans {x x' x'' : BeRuntime F P} (h : Restated x x') (h' : Restated x' x'') :
    Restated x x'' where
  users := h'.users.trans h.users
  feClients := h'.feClients.trans h.feClients
  substreamRuntime := h'.substreamRuntime.trans h.substreamRuntime
  beStart := h'.beStart.trans h.beStart
  bePause := h'.bePause.trans h.bePause

/-- The state of a back end is `state` if `cond` holds, and as it was otherwise. -/
structure Advanced (cond : Prop) (state : DpcmState) (x x' : BeRuntime F P) : Prop where
  restated : Restated x x'
  of_cond : cond → x'.state = state
  of_not : ¬ cond → x'.state = x.state

section Conditions

variable (s : Card F B P) (f : F) (b : B)

/-- `dpcm_be_dai_hw_free` frees the back end. -/
def Freeable : Prop :=
  sndSocDpcmCanBeFreeStop s f b = true ∧ (s.be b).users ≤ 1 ∧
    (s.be b).state ∈ [.hwParams, .prepare, .hwFree, .paused, .stop, .suspend]

/-- `dpcm_be_dai_hw_params` configures the back end. -/
def Configurable : Prop :=
  sndSocDpcmCanBeParams s f b = true ∧ (s.be b).state ∈ [.opened, .hwParams, .hwFree]

/-- `dpcm_be_dai_prepare` prepares the back end. -/
def Preparable : Prop :=
  sndSocDpcmCanBePrepared s f b = true ∧ (s.be b).state ∈ [.hwParams, .stop, .suspend, .paused]

end Conditions

variable {e : Env F B P} {s t : Card F B P} {f : F} {b : B}

section Update

variable {x : FeRuntime F B P} (hfe : t.fe = Function.update s.fe f x)
include hfe

theorem clients_of_fe (hlinks : x.beClients = (s.fe f).beClients) :
    clients t f = clients s f := by
  rw [clients, hfe, Function.update_self, hlinks, clients]

theorem state_of_ne {g : F} (hg : g ≠ f) : (t.fe g).state = (s.fe g).state := by
  rw [hfe, Function.update_of_ne hg]

end Update

/-- The check is about the other front ends. -/
theorem sndSocDpcmCheckState_congr {states : List DpcmState}
    (hfe : ∀ g ≠ f, (t.fe g).state = (s.fe g).state)
    (hbe : (t.be b).feClients = (s.be b).feClients) :
    sndSocDpcmCheckState t f b states = sndSocDpcmCheckState s f b states := by
  rw [Bool.eq_iff_iff, sndSocDpcmCheckState_iff, sndSocDpcmCheckState_iff, hbe]
  constructor
  · intro h g hg hgf
    rw [← hfe g hgf]
    exact h g hg hgf
  · intro h g hg hgf
    rw [hfe g hgf]
    exact h g hg hgf

section Congr

variable (hfe : ∀ g ≠ f, (t.fe g).state = (s.fe g).state) (hbe : t.be b = s.be b)
include hfe hbe

theorem freeable_congr : Freeable t f b ↔ Freeable s f b := by
  rw [Freeable, Freeable, sndSocDpcmCanBeFreeStop, sndSocDpcmCanBeFreeStop,
    sndSocDpcmCheckState_congr hfe (congrArg BeRuntime.feClients hbe), hbe]

theorem configurable_congr : Configurable t f b ↔ Configurable s f b := by
  rw [Configurable, Configurable, sndSocDpcmCanBeParams, sndSocDpcmCanBeParams,
    sndSocDpcmCheckState_congr hfe (congrArg BeRuntime.feClients hbe), hbe]

theorem preparable_congr : Preparable t f b ↔ Preparable s f b := by
  rw [Preparable, Preparable, sndSocDpcmCanBePrepared, sndSocDpcmCanBePrepared,
    sndSocDpcmCheckState_congr hfe (congrArg BeRuntime.feClients hbe), hbe]

end Congr

/-! ## One back end -/

theorem dpcmBeDaiHwFreeBody_spec {dpcm : Link B} (hfe : t.fe = s.fe)
    (hbe : t.be dpcm.be = s.be dpcm.be) (hupdate : (s.fe f).runtimeUpdate = .fe) :
    (dpcmBeDaiHwFreeBody e f dpcm t).1 = none ∧
    (dpcmBeDaiHwFreeBody e f dpcm t).2.fe = t.fe ∧
    (∀ b ≠ dpcm.be, (dpcmBeDaiHwFreeBody e f dpcm t).2.be b = t.be b) ∧
    Advanced (Freeable s f dpcm.be) .hwFree (s.be dpcm.be)
      ((dpcmBeDaiHwFreeBody e f dpcm t).2.be dpcm.be) := by
  unfold dpcmBeDaiHwFreeBody Freeable sndSocDpcmCanBeFreeStop
  simp only [sndSocDpcmBeCanUpdate_of_fe (show (t.fe f).runtimeUpdate = .fe by rw [hfe, hupdate]),
    sndSocDpcmCheckState_congr (fun g _ => by rw [hfe]) (congrArg BeRuntime.feClients hbe), hbe]
  have hstay {cond : Prop} (hcond : ¬ cond) :
      Advanced cond .hwFree (s.be dpcm.be) (t.be dpcm.be) := by
    rw [hbe]
    exact ⟨.refl _, fun h => absurd h hcond, fun _ => rfl⟩
  split
  · next h => cases h
  split
  · next hcan =>
    refine ⟨rfl, rfl, fun _ _ => rfl, hstay fun h => ?_⟩
    rw [h.1] at hcan
    cases hcan
  next hcan =>
  split
  · next hu => exact ⟨rfl, rfl, fun _ _ => rfl, hstay fun h => absurd h.2.1 (by omega)⟩
  next hu =>
  split
  · next hstate =>
    refine ⟨rfl, rfl, fun _ _ => rfl, hstay fun h => ?_⟩
    simp [hstate] at h
  · next hstate =>
    refine ⟨rfl, rfl, fun b hb => by simp [hb], ?_⟩
    rw [Card.modBe_be_self, call_be, hbe]
    refine ⟨⟨rfl, rfl, rfl, rfl, rfl⟩, fun _ => rfl, fun h => absurd ?_ h⟩
    refine ⟨by simpa using hcan, by omega, ?_⟩
    simp only [List.mem_cons, List.not_mem_nil]
    tauto

theorem dpcmBeDaiHwParamsBody_spec {dpcm : Link B} (hfe : t.fe = s.fe)
    (hbe : t.be dpcm.be = s.be dpcm.be) (hupdate : (s.fe f).runtimeUpdate = .fe) :
    (dpcmBeDaiHwParamsBody e f dpcm t).2.fe = t.fe ∧
    (∀ b ≠ dpcm.be, (dpcmBeDaiHwParamsBody e f dpcm t).2.be b = t.be b) ∧
    ((dpcmBeDaiHwParamsBody e f dpcm t).1 = none ∧
        Advanced (Configurable s f dpcm.be) .hwParams (s.be dpcm.be)
          ((dpcmBeDaiHwParamsBody e f dpcm t).2.be dpcm.be) ∨
      (∃ err < 0, (dpcmBeDaiHwParamsBody e f dpcm t).1 = some err) ∧
        Advanced False .hwParams (s.be dpcm.be)
          ((dpcmBeDaiHwParamsBody e f dpcm t).2.be dpcm.be)) := by
  unfold dpcmBeDaiHwParamsBody Configurable sndSocDpcmCanBeParams
  have hcheck (states : List DpcmState) (p : P) :
      sndSocDpcmCheckState (t.modBe dpcm.be fun x => { x with hwParams := p }) f dpcm.be states =
        sndSocDpcmCheckState s f dpcm.be states :=
    sndSocDpcmCheckState_congr (fun g _ => by rw [Card.modBe_fe, hfe])
      (by rw [Card.modBe_be_self, hbe])
  simp only [sndSocDpcmBeCanUpdate_of_fe (show (t.fe f).runtimeUpdate = .fe by rw [hfe, hupdate]),
    hcheck, Card.modBe_be_self, hbe]
  have hsame (p : P) (b : B) (hb : b ≠ dpcm.be) :
      (t.modBe dpcm.be fun x => { x with hwParams := p }).be b = t.be b := by
    rw [Card.modBe_be_of_ne _ _ hb]
  have hstay {cond : Prop} (p : P) (hcond : ¬ cond) : Advanced cond .hwParams (s.be dpcm.be)
      ((t.modBe dpcm.be fun x => { x with hwParams := p }).be dpcm.be) := by
    rw [Card.modBe_be_self, hbe]
    exact ⟨⟨rfl, rfl, rfl, rfl, rfl⟩, fun h => absurd h hcond, fun _ => rfl⟩
  split
  · next h => cases h
  split
  · next hret =>
    refine ⟨rfl, fun _ _ => rfl, .inr ⟨⟨_, hret, rfl⟩, ?_⟩⟩
    rw [hbe]
    exact ⟨.refl _, False.elim, fun _ => rfl⟩
  split
  · next hcan =>
    refine ⟨rfl, hsame _, .inl ⟨rfl, hstay _ fun h => ?_⟩⟩
    rw [h.1] at hcan
    cases hcan
  next hcan =>
  split
  · next hstate =>
    refine ⟨rfl, hsame _, .inl ⟨rfl, hstay _ fun h => ?_⟩⟩
    simp [hstate] at h
  next hstate =>
  split
  · next hret => exact ⟨rfl, hsame _, .inr ⟨⟨_, hret, rfl⟩, hstay _ id⟩⟩
  · refine ⟨rfl, fun b hb => by simp [hb], .inl ⟨rfl, ?_⟩⟩
    rw [Card.modBe_be_self, call_be, Card.modBe_be_self, hbe]
    refine ⟨⟨rfl, rfl, rfl, rfl, rfl⟩, fun _ => rfl, fun h => absurd ?_ h⟩
    refine ⟨by simpa using hcan, ?_⟩
    simp only [List.mem_cons, List.not_mem_nil]
    tauto

theorem dpcmBeDaiHwParamsUnwindBody_spec (dpcm : Link B) :
    (dpcmBeDaiHwParamsUnwindBody e f dpcm t).2.fe = t.fe ∧
    (dpcmBeDaiHwParamsUnwindBody e f dpcm t).2.be = t.be := by
  unfold dpcmBeDaiHwParamsUnwindBody
  dsimp only
  split
  · exact ⟨rfl, rfl⟩
  split
  · exact ⟨rfl, rfl⟩
  split
  · exact ⟨rfl, rfl⟩
  · exact ⟨rfl, rfl⟩

theorem dpcmBeDaiPrepareBody_spec {dpcm : Link B} (ret : Int) (hfe : t.fe = s.fe)
    (hbe : t.be dpcm.be = s.be dpcm.be) (hupdate : (s.fe f).runtimeUpdate = .fe) :
    (dpcmBeDaiPrepareBody e f dpcm (ret, t)).2.2.fe = t.fe ∧
    (∀ b ≠ dpcm.be, (dpcmBeDaiPrepareBody e f dpcm (ret, t)).2.2.be b = t.be b) ∧
    ((dpcmBeDaiPrepareBody e f dpcm (ret, t)).1 = none ∧
        (0 ≤ ret → 0 ≤ (dpcmBeDaiPrepareBody e f dpcm (ret, t)).2.1) ∧
        Advanced (Preparable s f dpcm.be) .prepare (s.be dpcm.be)
          ((dpcmBeDaiPrepareBody e f dpcm (ret, t)).2.2.be dpcm.be) ∨
      (dpcmBeDaiPrepareBody e f dpcm (ret, t)).1 = some () ∧
        (dpcmBeDaiPrepareBody e f dpcm (ret, t)).2.1 < 0 ∧
        Advanced False .prepare (s.be dpcm.be)
          ((dpcmBeDaiPrepareBody e f dpcm (ret, t)).2.2.be dpcm.be)) := by
  unfold dpcmBeDaiPrepareBody Preparable sndSocDpcmCanBePrepared
  simp only [sndSocDpcmBeCanUpdate_of_fe (show (t.fe f).runtimeUpdate = .fe by rw [hfe, hupdate]),
    sndSocDpcmCheckState_congr (fun g _ => by rw [hfe]) (congrArg BeRuntime.feClients hbe), hbe]
  have hstay {cond : Prop} (hcond : ¬ cond) :
      Advanced cond .prepare (s.be dpcm.be) (t.be dpcm.be) := by
    rw [hbe]
    exact ⟨.refl _, fun h => absurd h hcond, fun _ => rfl⟩
  split
  · next h => cases h
  split
  · next hcan =>
    refine ⟨rfl, fun _ _ => rfl, .inl ⟨rfl, id, hstay fun h => ?_⟩⟩
    rw [h.1] at hcan
    cases hcan
  next hcan =>
  split
  · next hstate =>
    refine ⟨rfl, fun _ _ => rfl, .inl ⟨rfl, id, hstay fun h => ?_⟩⟩
    simp [hstate] at h
  next hstate =>
  split
  · next herr => exact ⟨rfl, fun _ _ => rfl, .inr ⟨rfl, herr, hstay id⟩⟩
  · next hok =>
    refine ⟨rfl, fun b hb => by simp [hb], .inl ⟨rfl, fun _ => Int.not_lt.mp hok, ?_⟩⟩
    rw [Card.modBe_be_self, call_be, hbe]
    refine ⟨⟨rfl, rfl, rfl, rfl, rfl⟩, fun _ => rfl, fun h => absurd ?_ h⟩
    refine ⟨by simpa using hcan, ?_⟩
    simp only [List.mem_cons, List.not_mem_nil]
    tauto

/-! ## All back ends -/

/-- The back ends of `f` have got the state where `cond` holds. -/
structure AllAdvanced (f : F) (cond : B → Prop) (state : DpcmState) (s s' : Card F B P) : Prop where
  fe : s'.fe = s.fe
  on : ∀ b ∈ clients s f, Advanced (cond b) state (s.be b) (s'.be b)
  off : ∀ b ∉ clients s f, s'.be b = s.be b

/-- Some of the back ends of `f` that `cond` holds for have got the state. -/
structure SomeAdvanced (f : F) (cond : B → Prop) (state : DpcmState) (s s' : Card F B P) :
    Prop where
  fe : s'.fe = s.fe
  on : ∀ b ∈ clients s f, ∃ c : Prop, (c → cond b) ∧ Advanced c state (s.be b) (s'.be b)
  off : ∀ b ∉ clients s f, s'.be b = s.be b

theorem AllAdvanced.some {cond : B → Prop} {state : DpcmState} (h : AllAdvanced f cond state s t) :
    SomeAdvanced f cond state s t :=
  ⟨h.fe, fun b hb => ⟨cond b, id, h.on b hb⟩, h.off⟩

section Loops

variable {ε σ : Type*} (π : σ → Card F B P) {cond : B → Prop} {state : DpcmState} {r₀ : σ}
  {r : Ended (Link B) ε σ}

theorem allAdvanced_of_pointwise
    (h : Pointwise Link.be (fun r => (π r).be) (fun r => (π r).fe = s.fe)
      (fun b => Advanced (cond b) state) (fun _ => Advanced False state) (s.fe f).beClients r₀ r)
    (h₀ : (π r₀).be = s.be) (hleft : r.left = none) :
    AllAdvanced f cond state s (π r.state) := by
  refine ⟨h.frame, fun b hb => ?_, fun b hb => ?_⟩
  · rw [← h₀]
    exact (h.of_ended hleft b).1 hb
  · rw [← h₀]
    exact (h.of_ended hleft b).2 hb

theorem someAdvanced_of_pointwise
    (h : Pointwise Link.be (fun r => (π r).be) (fun r => (π r).fe = s.fe)
      (fun b => Advanced (cond b) state) (fun _ => Advanced False state) (s.fe f).beClients r₀ r)
    (h₀ : (π r₀).be = s.be) : SomeAdvanced f cond state s (π r.state) := by
  cases hleft : r.left with
  | none => exact (allAdvanced_of_pointwise π h h₀ hleft).some
  | some a =>
    obtain ⟨dpcm, err⟩ := a
    obtain ⟨rest, hcut, hS, hR⟩ := h.of_left hleft
    rw [h₀] at hS hR
    refine ⟨h.frame, fun b _ => ?_, fun b hb => ?_⟩
    · by_cases hv : b ∈ r.visited.map Link.be
      · exact ⟨_, id, (hR b).1 hv⟩
      · by_cases hd : dpcm.be = b
        · subst hd
          exact ⟨False, False.elim, hS⟩
        · refine ⟨False, False.elim, ?_⟩
          rw [show (π r.state).be b = s.be b from (hR b).2 hv hd]
          exact ⟨.refl _, False.elim, fun _ => rfl⟩
    · have hmem : b ∉ r.visited.map Link.be ∧ dpcm.be ≠ b := by
        rw [clients, hcut] at hb
        simp only [List.map_append, List.map_reverse, List.map_cons, List.mem_append,
          List.mem_reverse, List.mem_cons, not_or] at hb
        exact ⟨hb.1, Ne.symm hb.2.1⟩
      exact (hR b).2 hmem.1 hmem.2

end Loops

theorem dpcmBeDaiHwFree_spec (hupdate : (s.fe f).runtimeUpdate = .fe) (hl : (clients s f).Nodup) :
    AllAdvanced f (Freeable s f) .hwFree s (dpcmBeDaiHwFree e f s) := by
  have hleft : (each (dpcmBeDaiHwFreeBody e f) (s.fe f).beClients s).left = none := by
    rw [Option.eq_none_iff_forall_ne_some]
    intro ⟨dpcm, u⟩ hr
    obtain ⟨t, ht⟩ := each_left hr
    unfold dpcmBeDaiHwFreeBody at ht
    grind
  refine allAdvanced_of_pointwise id (each_pointwise hl (by rfl) ?_) rfl hleft
  intro dpcm _ t ht hsame
  obtain ⟨hnone, hfe, hne, hbe⟩ := dpcmBeDaiHwFreeBody_spec (e := e) ht hsame hupdate
  exact ⟨hfe.trans ht, fun b hb => hne b hb.symm, fun _ => hbe,
    fun u hu => absurd (hnone.symm.trans hu) (by simp)⟩

theorem dpcmBeDaiHwParams_pointwise (hupdate : (s.fe f).runtimeUpdate = .fe)
    (hl : (clients s f).Nodup) :
    Pointwise Link.be (fun t : Card F B P => t.be) (fun t => t.fe = s.fe)
      (fun b => Advanced (Configurable s f b) .hwParams) (fun _ => Advanced False .hwParams)
      (s.fe f).beClients s (each (dpcmBeDaiHwParamsBody e f) (s.fe f).beClients s) := by
  refine each_pointwise hl (by rfl) ?_
  intro dpcm _ t ht hsame
  obtain ⟨hfe, hne, ⟨hleft, hbe⟩ | ⟨⟨err, -, hleft⟩, hbe⟩⟩ :=
    dpcmBeDaiHwParamsBody_spec (e := e) ht hsame hupdate
  · exact ⟨hfe.trans ht, fun b hb => hne b hb.symm, fun _ => hbe, by simp [hleft]⟩
  · exact ⟨hfe.trans ht, fun b hb => hne b hb.symm, by simp [hleft], fun _ _ => hbe⟩

/-- The rollback changes nothing but the drivers. -/
theorem dpcmBeDaiHwParamsUnwind_spec {l : List (Link B)} :
    (each (dpcmBeDaiHwParamsUnwindBody e f) l t).state.fe = t.fe ∧
    (each (dpcmBeDaiHwParamsUnwindBody e f) l t).state.be = t.be := by
  refine each_keeps (P := fun t' : Card F B P => t'.fe = t.fe ∧ t'.be = t.be) ⟨rfl, rfl⟩ ?_
  intro dpcm _ t' ⟨hfe, hbe⟩
  obtain ⟨hfe', hbe'⟩ := dpcmBeDaiHwParamsUnwindBody_spec (e := e) (f := f) (t := t') dpcm
  exact ⟨hfe'.trans hfe, hbe'.trans hbe⟩

theorem dpcmBeDaiHwParamsBody_err {dpcm : Link B} {err : Int}
    (h : (dpcmBeDaiHwParamsBody e f dpcm t).1 = some err) : err < 0 := by
  unfold dpcmBeDaiHwParamsBody at h
  grind

theorem dpcmBeDaiHwParams_spec (hupdate : (s.fe f).runtimeUpdate = .fe)
    (hl : (clients s f).Nodup) :
    (dpcmBeDaiHwParams e f s).1 = 0 ∧
        AllAdvanced f (Configurable s f) .hwParams s (dpcmBeDaiHwParams e f s).2 ∨
      (dpcmBeDaiHwParams e f s).1 < 0 ∧
        SomeAdvanced f (Configurable s f) .hwParams s (dpcmBeDaiHwParams e f s).2 := by
  have hp := dpcmBeDaiHwParams_pointwise (e := e) hupdate hl
  unfold dpcmBeDaiHwParams
  dsimp only
  split
  · next hleft => exact .inl ⟨rfl, allAdvanced_of_pointwise id hp rfl hleft⟩
  · next dpcm err hleft =>
    obtain ⟨t, ht⟩ := each_left hleft
    refine .inr ⟨dpcmBeDaiHwParamsBody_err ht, ?_⟩
    have hsome : SomeAdvanced f (Configurable s f) .hwParams s _ :=
      someAdvanced_of_pointwise id hp rfl
    generalize each (dpcmBeDaiHwParamsBody e f) (s.fe f).beClients s = r at hsome
    obtain ⟨hfe, hbe⟩ :=
      dpcmBeDaiHwParamsUnwind_spec (e := e) (f := f) (l := r.visited) (t := r.state)
    refine ⟨hfe.trans hsome.fe, ?_, ?_⟩
    · rw [hbe]
      exact hsome.on
    · rw [hbe]
      exact hsome.off

theorem dpcmBeDaiPrepareBody_ret (dpcm : Link B) (r : Int × Card F B P) :
    ((dpcmBeDaiPrepareBody e f dpcm r).1 = none → 0 ≤ r.1 →
      0 ≤ (dpcmBeDaiPrepareBody e f dpcm r).2.1) ∧
    (∀ u, (dpcmBeDaiPrepareBody e f dpcm r).1 = some u →
      (dpcmBeDaiPrepareBody e f dpcm r).2.1 < 0) := by
  unfold dpcmBeDaiPrepareBody
  grind

theorem dpcmBeDaiPrepare_spec (hupdate : (s.fe f).runtimeUpdate = .fe) (hl : (clients s f).Nodup) :
    0 ≤ (dpcmBeDaiPrepare e f s).1 ∧
        AllAdvanced f (Preparable s f) .prepare s (dpcmBeDaiPrepare e f s).2 ∨
      (dpcmBeDaiPrepare e f s).1 < 0 ∧
        SomeAdvanced f (Preparable s f) .prepare s (dpcmBeDaiPrepare e f s).2 := by
  have hp : Pointwise Link.be (fun r : Int × Card F B P => r.2.be) (fun r => r.2.fe = s.fe)
      (fun b => Advanced (Preparable s f b) .prepare) (fun _ => Advanced False .prepare)
      (s.fe f).beClients (0, s) (each (dpcmBeDaiPrepareBody e f) (s.fe f).beClients (0, s)) := by
    refine each_pointwise hl (by rfl) ?_
    intro dpcm _ ⟨ret, t⟩ ht hsame
    obtain ⟨hfe, hne, ⟨hleft, -, hbe⟩ | ⟨hleft, -, hbe⟩⟩ :=
      dpcmBeDaiPrepareBody_spec (e := e) ret ht hsame hupdate
    · exact ⟨hfe.trans ht, fun b hb => hne b hb.symm, fun _ => hbe, by simp [hleft]⟩
    · exact ⟨hfe.trans ht, fun b hb => hne b hb.symm, by simp [hleft], fun _ _ => hbe⟩
  have hrun : Run (fun _ (r : Int × Card F B P) => 0 ≤ r.1)
      (fun _ _ (_ : Unit) _ (r : Int × Card F B P) => r.1 < 0) (s.fe f).beClients
      (each (dpcmBeDaiPrepareBody e f) (s.fe f).beClients (0, s)) := by
    apply each_run (Int.le_refl 0)
    · intro done dpcm rest r r' _ hr hbody
      have := (dpcmBeDaiPrepareBody_ret (e := e) (f := f) dpcm r).1
      rw [hbody] at this
      exact this rfl hr
    · intro done dpcm rest r r' u _ _ hbody
      have := (dpcmBeDaiPrepareBody_ret (e := e) (f := f) dpcm r).2 u
      rw [hbody] at this
      exact this rfl
  unfold dpcmBeDaiPrepare
  have hsome := someAdvanced_of_pointwise Prod.snd hp rfl
  have hall := allAdvanced_of_pointwise Prod.snd hp rfl
  generalize each (dpcmBeDaiPrepareBody e f) (s.fe f).beClients (0, s) = r at hrun hsome hall
  cases hrun with
  | ended hret => exact .inl ⟨hret, hall rfl⟩
  | left _ hret => exact .inr ⟨hret, hsome⟩

/-! ## The front end -/

/-- An operation by `f` that changed its parameters and state, and back ends by `on`. -/
structure Handled (f : F) (state : DpcmState) (on : B → BeRuntime F P → BeRuntime F P → Prop)
    (s s' : Card F B P) : Prop where
  fe : ∃ params, s'.fe = Function.update s.fe f { s.fe f with hwParams := params, state := state }
  on : ∀ b ∈ clients s f, on b (s.be b) (s'.be b)
  off : ∀ b ∉ clients s f, s'.be b = s.be b

/-- The end of an operation by `f`. -/
theorem Handled.finish (params : P) {state : DpcmState}
    {on : B → BeRuntime F P → BeRuntime F P → Prop} (hq : (s.fe f).Quiet)
    (hfe : t.fe = Function.update s.fe f
      { s.fe f with hwParams := params, state := state, runtimeUpdate := .fe })
    (hon : ∀ b ∈ clients s f, on b (s.be b) (t.be b)) (hoff : ∀ b ∉ clients s f, t.be b = s.be b) :
    Handled f state on s (dpcmSetFeUpdateState e f .no t) := by
  have htf : t.fe f = { s.fe f with hwParams := params, state := state, runtimeUpdate := .fe } := by
    rw [hfe, Function.update_self]
  rw [dpcmSetFeUpdateState_no (by rw [htf]; exact hq.triggerPending)]
  refine ⟨⟨params, ?_⟩, hon, hoff⟩
  rw [Card.modFe_fe, htf, hfe, Function.update_idem, ← hq.runtimeUpdate]

theorem Advanced.congr {c c' : Prop} {state : DpcmState} {x x' : BeRuntime F P} (hc : c ↔ c')
    (h : Advanced c state x x') : Advanced c' state x x' :=
  ⟨h.restated, fun h' => h.of_cond (hc.mpr h'), fun h' => h.of_not fun hc' => h' (hc.mp hc')⟩

theorem dpcmFeDaiHwFree_spec (hq : (s.fe f).Quiet) (hl : (clients s f).Nodup) :
    (dpcmFeDaiHwFree e f s).1 = 0 ∧
      Handled f .hwFree (fun b => Advanced (Freeable s f b) .hwFree) s
        (dpcmFeDaiHwFree e f s).2 := by
  unfold dpcmFeDaiHwFree
  rw [dpcmSetFeUpdateState_fe]
  refine ⟨rfl, ?_⟩
  dsimp only
  set s₁ := (call e (.fe f .hwFree) (s.modFe f fun x => { x with runtimeUpdate := .fe })).2 with hs₁
  have hfe₁ : s₁.fe = Function.update s.fe f { s.fe f with runtimeUpdate := .fe } := rfl
  have hclients : clients s₁ f = clients s f := clients_of_fe hfe₁ rfl
  have hothers : ∀ g ≠ f, (s₁.fe g).state = (s.fe g).state := fun g hg => state_of_ne hfe₁ hg
  have hfree := dpcmBeDaiHwFree_spec (e := e) (s := s₁) (f := f)
    (by rw [hfe₁, Function.update_self]) (by rwa [hclients])
  refine Handled.finish (s.fe f).hwParams hq ?_ ?_ ?_
  · rw [Card.modFe_fe, hfree.fe, hfe₁, Function.update_idem, Function.update_self]
  · rw [← hclients]
    exact fun b hb => (hfree.on b hb).congr (freeable_congr hothers rfl)
  · rw [← hclients]
    exact fun b hb => hfree.off b hb

/-- What is left of a back end where configuring failed: one that only `f` uses may be free. -/
structure Unconfigured (s : Card F B P) (f : F) (b : B) (x x' : BeRuntime F P) : Prop where
  restated : Restated x x'
  state : x'.state = x.state ∨ Configurable s f b ∧ x'.state = .hwParams ∨
    x.users ≤ 1 ∧ x.state ∉ [.new, .close, .start] ∧ x'.state = .hwFree

theorem Unconfigured.of_advanced {c : Prop} {x x' : BeRuntime F P} (hc : c → Configurable s f b)
    (h : Advanced c .hwParams x x') : Unconfigured s f b x x' := by
  refine ⟨h.restated, ?_⟩
  by_cases h' : c
  · exact .inr (.inl ⟨hc h', h.of_cond h'⟩)
  · exact .inl (h.of_not h')

/-- Freeing back ends that have just been configured. -/
theorem Unconfigured.of_freed {x y : BeRuntime F P} (hbe : t.be b = x) (hx : s.be b = y)
    (h : Advanced (Configurable s f b) .hwParams y x) {x' : BeRuntime F P}
    (h' : Advanced (Freeable t f b) .hwFree x x') : Unconfigured s f b y x' := by
  refine ⟨h.restated.trans h'.restated, ?_⟩
  subst hbe hx
  by_cases hfree : Freeable t f b
  · refine .inr (.inr ⟨h.restated.users ▸ hfree.2.1, ?_, h'.of_cond hfree⟩)
    by_cases hconf : Configurable s f b
    · have := hconf.2
      intro hmem
      revert this hmem
      cases (s.be b).state <;> simp
    · have := hfree.2.2
      rw [h.of_not hconf] at this
      intro hmem
      revert this hmem
      cases (s.be b).state <;> simp
  · rw [h'.of_not hfree]
    exact (Unconfigured.of_advanced id h).state

theorem dpcmFeDaiHwParams_spec (params : P) (hq : (s.fe f).Quiet) (hl : (clients s f).Nodup) :
    0 ≤ (dpcmFeDaiHwParams e f params s).1 ∧
        Handled f .hwParams (fun b => Advanced (Configurable s f b) .hwParams) s
          (dpcmFeDaiHwParams e f params s).2 ∨
      (dpcmFeDaiHwParams e f params s).1 < 0 ∧
        Handled f (s.fe f).state (fun b => Unconfigured s f b) s
          (dpcmFeDaiHwParams e f params s).2 := by
  unfold dpcmFeDaiHwParams
  rw [dpcmSetFeUpdateState_fe]
  dsimp only
  set s₁ := (s.modFe f fun x => { x with runtimeUpdate := .fe }).modFe f
    fun x => { x with hwParams := params } with hs₁
  have hfe₁ : s₁.fe =
      Function.update s.fe f { s.fe f with hwParams := params, runtimeUpdate := .fe } := by
    rw [hs₁, Card.modFe_fe, Card.modFe_fe, Function.update_idem, Function.update_self]
  have hclients : clients s₁ f = clients s f := clients_of_fe hfe₁ rfl
  have hothers : ∀ g ≠ f, (s₁.fe g).state = (s.fe g).state := fun g hg => state_of_ne hfe₁ hg
  have hcond (b : B) : Configurable s₁ f b ↔ Configurable s f b := configurable_congr hothers rfl
  rcases dpcmBeDaiHwParams_spec (e := e) (s := s₁) (f := f) (by rw [hfe₁, Function.update_self])
      (by rwa [hclients]) with ⟨hret, hall⟩ | ⟨hret, hsome⟩
  · rw [if_neg (by omega)]
    generalize (dpcmBeDaiHwParams e f s₁).2 = t at hall
    have htfe : t.fe = s₁.fe := hall.fe
    have hon := hall.on
    have hoff := hall.off
    rw [hclients] at hon hoff
    split
    · next hfail =>
      refine .inr ⟨hfail, ?_⟩
      set t' := (call e (.fe f (.hwParams params)) t).2 with ht'
      have htclients : clients t' f = clients s f := by
        rw [clients, ht', call_fe, htfe, ← clients, hclients]
      have hfree := dpcmBeDaiHwFree_spec (e := e) (s := t') (f := f)
        (by rw [ht', call_fe, htfe, hfe₁, Function.update_self]) (by rwa [htclients])
      refine Handled.finish params hq ?_ ?_ ?_
      · rw [hfree.fe, ht', call_fe, htfe, hfe₁]
      · intro b hb
        refine .of_freed (t := t') rfl rfl ((hon b hb).congr (hcond b)) ?_
        exact hfree.on b (by rwa [htclients])
      · intro b hb
        rw [hfree.off b (by rwa [htclients])]
        exact hoff b hb
    · next hok =>
      refine .inl ⟨Int.not_lt.mp hok, ?_⟩
      refine Handled.finish params hq ?_ (fun b hb => (hon b hb).congr (hcond b)) hoff
      rw [Card.modFe_fe, call_fe, htfe, hfe₁, Function.update_idem, Function.update_self]
  · rw [if_pos hret]
    refine .inr ⟨hret, ?_⟩
    have hon := hsome.on
    have hoff := hsome.off
    rw [hclients] at hon hoff
    refine Handled.finish params hq ?_ (fun b hb => ?_) hoff
    · rw [hsome.fe, hfe₁]
    · obtain ⟨c, hc, hadv⟩ := hon b hb
      exact .of_advanced (fun h => (hcond b).mp (hc h)) hadv

/-- Some of the back ends that can be prepared may have been, where preparing failed. -/
theorem dpcmFeDaiPrepare_spec (hq : (s.fe f).Quiet) (hl : (clients s f).Nodup) :
    0 ≤ (dpcmFeDaiPrepare e f s).1 ∧ clients s f ≠ [] ∧
        Handled f .prepare (fun b => Advanced (Preparable s f b) .prepare) s
          (dpcmFeDaiPrepare e f s).2 ∨
      (dpcmFeDaiPrepare e f s).1 < 0 ∧
        Handled f (s.fe f).state
          (fun b x x' => ∃ c : Prop, (c → Preparable s f b) ∧ Advanced c .prepare x x') s
          (dpcmFeDaiPrepare e f s).2 := by
  unfold dpcmFeDaiPrepare
  rw [dpcmSetFeUpdateState_fe]
  dsimp only
  set s₁ := s.modFe f fun x => { x with runtimeUpdate := .fe } with hs₁
  have hfe₁ : s₁.fe = Function.update s.fe f { s.fe f with runtimeUpdate := .fe } := rfl
  have hclients : clients s₁ f = clients s f := clients_of_fe hfe₁ rfl
  have hothers : ∀ g ≠ f, (s₁.fe g).state = (s.fe g).state := fun g hg => state_of_ne hfe₁ hg
  have hcond (b : B) : Preparable s₁ f b ↔ Preparable s f b := preparable_congr hothers rfl
  split
  · next hnone =>
    have hempty : clients s f = [] := by
      rw [← hclients]
      exact List.map_eq_nil_iff.mpr hnone
    refine .inr ⟨by simp [EINVAL], ?_⟩
    refine Handled.finish (s.fe f).hwParams hq hfe₁ ?_ fun _ _ => rfl
    simp [hempty]
  next hsome =>
  have hne : clients s f ≠ [] := by
    rw [← hclients]
    exact fun h => hsome (List.map_eq_nil_iff.mp h)
  rcases dpcmBeDaiPrepare_spec (e := e) (s := s₁) (f := f) (by rw [hfe₁, Function.update_self])
      (by rwa [hclients]) with ⟨hret, hall⟩ | ⟨hret, hpart⟩
  · rw [if_neg (Int.not_lt.mpr hret)]
    generalize (dpcmBeDaiPrepare e f s₁).2 = t at hall
    have htfe : t.fe = s₁.fe := hall.fe
    have hon := hall.on
    have hoff := hall.off
    rw [hclients] at hon hoff
    split
    · next hfail =>
      refine .inr ⟨hfail, ?_⟩
      refine Handled.finish (s.fe f).hwParams hq ?_ (fun b hb => ?_) hoff
      · rw [call_fe, htfe, hfe₁]
      · exact ⟨_, (hcond b).mp, hon b hb⟩
    · next hok =>
      refine .inl ⟨Int.not_lt.mp hok, hne, ?_⟩
      refine Handled.finish (s.fe f).hwParams hq ?_
        (fun b hb => (hon b hb).congr (hcond b)) hoff
      rw [Card.modFe_fe, call_fe, htfe, hfe₁, Function.update_idem, Function.update_self]
  · rw [if_pos hret]
    refine .inr ⟨hret, ?_⟩
    have hon := hpart.on
    have hoff := hpart.off
    rw [hclients] at hon hoff
    refine Handled.finish (s.fe f).hwParams hq ?_ (fun b hb => ?_) hoff
    · rw [hpart.fe, hfe₁]
    · obtain ⟨c, hc, hadv⟩ := hon b hb
      exact ⟨c, fun h => (hcond b).mp (hc h), hadv⟩

end NoteNew.Dpcm
