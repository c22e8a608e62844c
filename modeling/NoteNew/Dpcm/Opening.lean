import NoteNew.Dpcm.FrontEnds

/-!
# What opening and closing do

The loops of `dpcm_be_dai_startup` and `dpcm_be_dai_stop`, and those that link a front end to its
back ends, by what they do to each back end. An opening that fails leaves every back end as it was,
but that one nobody uses may have been opened and closed again: `Restored`.
-/

namespace NoteNew.Dpcm

open Iteration

set_option linter.unusedSectionVars false

variable {F B P : Type*} [DecidableEq F] [DecidableEq B]

/-- The back ends a front end is linked to. -/
def clients (s : Card F B P) (f : F) : List B :=
  (s.fe f).beClients.map Link.be

/-- The state of a back end that is not open. -/
def BeRuntime.Closed (x : BeRuntime F P) : Prop :=
  x.state = .new ∨ x.state = .close

instance (x : BeRuntime F P) : Decidable x.Closed :=
  inferInstanceAs (Decidable (x.state = .new ∨ x.state = .close))

namespace BeRuntime

/-- A back end that one of its users leaves. -/
def stopped (x : BeRuntime F P) (doHwFree : Bool) : BeRuntime F P :=
  if x.users = 0 then x
  else if x.users - 1 ≠ 0 then { x with users := x.users - 1 }
  else if x.state ≠ .opened ∧ !doHwFree then { x with users := x.users - 1 }
  else { x with users := x.users - 1, substreamRuntime := none, state := .close }

/-- A back end that one more user has. -/
def started (x : BeRuntime F P) : BeRuntime F P :=
  if x.users ≠ 0 ∨ ¬ x.Closed then { x with users := x.users + 1 }
  else
    { x with users := x.users + 1, substreamRuntime := x.runtime, beStart := 0, state := .opened }

theorem started_inUse {x : BeRuntime F P} (hu : x.users ≠ 0) :
    x.started = { x with users := x.users + 1 } :=
  if_pos (.inl hu)

theorem started_unused {x : BeRuntime F P} (hu : x.users = 0) (hc : x.Closed) :
    x.started =
      { x with
        users := x.users + 1, substreamRuntime := x.runtime, beStart := 0, state := .opened } :=
  if_neg (not_or.mpr ⟨not_not.mpr hu, not_not.mpr hc⟩)

/-- A back end that can have one more user. -/
structure Fit (x : BeRuntime F P) : Prop where
  nonneg : 0 ≤ x.users
  room : x.users ≠ DPCM_MAX_BE_USERS
  closed : x.users = 0 → x.Closed

/-- A back end without users that could not be opened. -/
def startFailed (x : BeRuntime F P) : BeRuntime F P :=
  { x with substreamRuntime := x.runtime, state := .close }

end BeRuntime

/-- Nothing has changed, or the back end is closed as it was. -/
def Restored (x x' : BeRuntime F P) : Prop :=
  x' = x ∨ x.users = 0 ∧ ∃ substream beStart, (beStart = 0 ∨ beStart = x.beStart) ∧
    x' = { x with substreamRuntime := substream, beStart := beStart, state := .close }

variable {e : Env F B P} {s t : Card F B P} {f : F} {b : B}

/-! ## Closing -/

theorem dpcmBeDaiStopBody_spec (doHwFree : Bool) {last : Option B} {dpcm : Link B}
    (hfe : (t.fe f).runtimeUpdate = .fe) (hlast : some dpcm.be ≠ last) :
    (dpcmBeDaiStopBody e f doHwFree last dpcm t).1 = none ∧
    (dpcmBeDaiStopBody e f doHwFree last dpcm t).2.fe = t.fe ∧
    (dpcmBeDaiStopBody e f doHwFree last dpcm t).2.be =
      Function.update t.be dpcm.be ((t.be dpcm.be).stopped doHwFree) := by
  unfold dpcmBeDaiStopBody BeRuntime.stopped
  simp only [Card.modBe_be_self, sndSocDpcmBeCanUpdate_of_fe hfe, if_neg hlast]
  simp only [Bool.not_true, Bool.false_eq_true, if_false]
  split
  · exact ⟨rfl, rfl, (Function.update_eq_self _ _).symm⟩
  split
  · exact ⟨rfl, rfl, rfl⟩
  split
  · exact ⟨rfl, rfl, rfl⟩
  refine ⟨rfl, ?_, ?_⟩
  · dsimp only
    split <;> rfl
  · dsimp only
    split <;> simp [Card.modBe_be]

theorem dpcmBeDaiStop_pointwise (hfe : (s.fe f).runtimeUpdate = .fe) (hl : (clients s f).Nodup)
    (doHwFree : Bool) (last : Option B) :
    Pointwise Link.be Card.be (fun t => t.fe = s.fe)
      (fun b x x' => some b ≠ last ∧ x' = x.stopped doHwFree) (fun b x x' => some b = last ∧ x' = x)
      (s.fe f).beClients s (each (dpcmBeDaiStopBody e f doHwFree last) (s.fe f).beClients s) := by
  refine each_pointwise hl (by rfl) ?_
  intro dpcm _ t ht hsame
  by_cases hlast : some dpcm.be = last
  · have hbody : dpcmBeDaiStopBody e f doHwFree last dpcm t = (some (), t) := by
      simp [dpcmBeDaiStopBody, hlast]
    rw [hbody]
    exact ⟨ht, fun _ _ => rfl, by simp, fun _ _ => ⟨hlast, hsame⟩⟩
  · obtain ⟨hleft, hfe', hbe⟩ :=
      dpcmBeDaiStopBody_spec (e := e) (t := t) doHwFree (by rw [ht, hfe]) hlast
    refine ⟨hfe'.trans ht, fun b hne => ?_, fun _ => ⟨hlast, ?_⟩, by simp [hleft]⟩
    · rw [hbe, Function.update_of_ne hne.symm]
    · rw [hbe, Function.update_self, hsame]

/-- Leaving all back ends of a front end. -/
theorem dpcmBeDaiStop_all (hfe : (s.fe f).runtimeUpdate = .fe) (hl : (clients s f).Nodup)
    (doHwFree : Bool) : (dpcmBeDaiStop e f doHwFree none s).fe = s.fe ∧
    ∀ b, (b ∈ clients s f →
        (dpcmBeDaiStop e f doHwFree none s).be b = (s.be b).stopped doHwFree) ∧
      (b ∉ clients s f → (dpcmBeDaiStop e f doHwFree none s).be b = s.be b) := by
  have h := dpcmBeDaiStop_pointwise (e := e) hfe hl doHwFree none
  have hleft : (each (dpcmBeDaiStopBody e f doHwFree none) (s.fe f).beClients s).left = none := by
    rw [Option.eq_none_iff_forall_ne_some]
    intro ⟨dpcm, u⟩ hr
    exact absurd (h.left dpcm u hr).1 (by simp)
  exact ⟨h.frame, fun b => ⟨fun hb => ((h.of_ended hleft b).1 hb).2, (h.of_ended hleft b).2⟩⟩

/-- Leaving the back ends in front of one. -/
theorem dpcmBeDaiStop_upTo (hfe : (s.fe f).runtimeUpdate = .fe) (hl : (clients s f).Nodup)
    (doHwFree : Bool) {pre post : List (Link B)} {dpcm : Link B}
    (hcut : (s.fe f).beClients = pre ++ dpcm :: post) :
    (dpcmBeDaiStop e f doHwFree (some dpcm.be) s).fe = s.fe ∧
    ∀ b, (b ∈ pre.map Link.be →
        (dpcmBeDaiStop e f doHwFree (some dpcm.be) s).be b = (s.be b).stopped doHwFree) ∧
      (b ∉ pre.map Link.be → (dpcmBeDaiStop e f doHwFree (some dpcm.be) s).be b = s.be b) := by
  have h := dpcmBeDaiStop_pointwise (e := e) hfe hl doHwFree (some dpcm.be)
  refine ⟨h.frame, ?_⟩
  cases hleft :
      (each (dpcmBeDaiStopBody e f doHwFree (some dpcm.be)) (s.fe f).beClients s).left with
  | none =>
    have hmem : dpcm.be ∈ clients s f := by simp [clients, hcut]
    exact absurd rfl ((h.of_ended hleft dpcm.be).1 hmem).1
  | some r =>
    obtain ⟨a, u⟩ := r
    obtain ⟨rest, hcut', hS, hR⟩ := h.of_left hleft
    have ha : a.be = dpcm.be := Option.some.inj hS.1
    have hpre := cut_unique hl hcut hcut' ha.symm
    intro b
    rw [hpre]
    refine ⟨fun hb => ((hR b).1 (by simpa using hb)).2, fun hb => ?_⟩
    by_cases hab : a.be = b
    · exact hab ▸ hS.2
    · exact (hR b).2 (by simpa using hb) hab

/-! ## Opening -/

theorem dpcmBeDaiStartupBody_spec {dpcm : Link B} (count : Int)
    (hfe : (t.fe f).runtimeUpdate = .fe) (hroom : (t.be dpcm.be).users ≠ DPCM_MAX_BE_USERS) :
    (dpcmBeDaiStartupBody e f dpcm (count, t)).2.2.fe = t.fe ∧
    ((dpcmBeDaiStartupBody e f dpcm (count, t)).1 = none ∧
        count ≤ (dpcmBeDaiStartupBody e f dpcm (count, t)).2.1 ∧
        (dpcmBeDaiStartupBody e f dpcm (count, t)).2.2.be =
          Function.update t.be dpcm.be (t.be dpcm.be).started ∨
      (∃ err < 0, (dpcmBeDaiStartupBody e f dpcm (count, t)).1 = some err) ∧
        count ≤ (dpcmBeDaiStartupBody e f dpcm (count, t)).2.1 ∧ (t.be dpcm.be).users = 0 ∧
        (dpcmBeDaiStartupBody e f dpcm (count, t)).2.2.be =
          Function.update t.be dpcm.be (t.be dpcm.be).startFailed) := by
  unfold dpcmBeDaiStartupBody BeRuntime.started BeRuntime.startFailed
  simp only [Card.modBe_be_self, sndSocDpcmBeCanUpdate_of_fe hfe, if_neg hroom]
  simp only [Bool.not_true, Bool.false_eq_true, if_false]
  split
  · next hu =>
    refine ⟨rfl, .inl ⟨rfl, Int.le_refl _, ?_⟩⟩
    rw [if_pos (Or.inl hu), Card.modBe_be]
  next hu =>
  split
  · next hopen =>
    refine ⟨rfl, .inl ⟨rfl, Int.le_refl _, ?_⟩⟩
    rw [if_pos (Or.inr fun hc => hc.elim hopen.1 hopen.2), Card.modBe_be]
  next hclosed =>
  have hnot : ¬ ((t.be dpcm.be).users ≠ 0 ∨ ¬ (t.be dpcm.be).Closed) := by
    rintro (h | h)
    · exact hu h
    · exact hclosed (not_or.mp h)
  rw [if_neg hnot]
  split
  · next hret =>
    refine ⟨rfl, .inr ⟨⟨_, hret, rfl⟩, Int.le_refl _, not_not.mp hu, ?_⟩⟩
    simp [Card.modBe_be]
  · refine ⟨rfl, .inl ⟨rfl, Int.le_add_one (Int.le_refl _), ?_⟩⟩
    simp [Card.modBe_be]

theorem BeRuntime.stopped_started {x : BeRuntime F P} (hx : x.Fit) (doHwFree : Bool) :
    Restored x (x.started.stopped doHwFree) := by
  unfold BeRuntime.started
  split
  · next h =>
    have hu : x.users ≠ 0 := h.elim id fun hopen hu => hopen (hx.closed hu)
    have hnonneg := hx.nonneg
    left
    simp [BeRuntime.stopped, hu, show x.users + 1 ≠ 0 by omega]
  · next h =>
    rw [not_or, not_not] at h
    right
    exact ⟨h.1, none, 0, .inl rfl, by simp [BeRuntime.stopped, h.1]⟩

theorem BeRuntime.startFailed_restored {x : BeRuntime F P} (hu : x.users = 0) :
    Restored x x.startFailed :=
  .inr ⟨hu, x.runtime, x.beStart, .inr rfl, rfl⟩

theorem dpcmBeDaiStartup_pointwise (hfe : (s.fe f).runtimeUpdate = .fe) (hl : (clients s f).Nodup)
    (hfit : ∀ b ∈ clients s f, (s.be b).Fit) :
    Pointwise Link.be (fun r : Int × Card F B P => r.2.be) (fun r => r.2.fe = s.fe ∧ 0 ≤ r.1)
      (fun _ x x' => x' = x.started) (fun _ x x' => x.users = 0 ∧ x' = x.startFailed)
      (s.fe f).beClients (0, s) (each (dpcmBeDaiStartupBody e f) (s.fe f).beClients (0, s)) := by
  refine each_pointwise hl ⟨rfl, Int.le_refl 0⟩ ?_
  intro dpcm hdpcm ⟨count, t⟩ ⟨ht, hcount⟩ hsame
  have hroom : (t.be dpcm.be).users ≠ DPCM_MAX_BE_USERS := by
    rw [show t.be dpcm.be = s.be dpcm.be from hsame]
    exact (hfit _ (List.mem_map_of_mem hdpcm)).room
  have htfe : (t.fe f).runtimeUpdate = .fe := by rw [show t.fe = s.fe from ht, hfe]
  obtain ⟨hframe, ⟨hleft, hle, hbe⟩ | ⟨⟨err, -, hleft⟩, hle, hu, hbe⟩⟩ :=
    dpcmBeDaiStartupBody_spec (e := e) count htfe hroom
  · refine ⟨⟨hframe.trans ht, Int.le_trans hcount hle⟩, fun b hne => ?_, fun _ => ?_, ?_⟩
    · rw [hbe, Function.update_of_ne hne.symm]
    · rw [hbe, Function.update_self]
      exact congrArg BeRuntime.started hsame
    · simp [hleft]
  · refine ⟨⟨hframe.trans ht, Int.le_trans hcount hle⟩, fun b hne => ?_, ?_, fun _ _ => ⟨?_, ?_⟩⟩
    · rw [hbe, Function.update_of_ne hne.symm]
    · simp [hleft]
    · rw [← show t.be dpcm.be = s.be dpcm.be from hsame]
      exact hu
    · rw [hbe, Function.update_self]
      exact congrArg BeRuntime.startFailed hsame

theorem dpcmBeDaiStartup_of_ended
    (hleft : (each (dpcmBeDaiStartupBody e f) (s.fe f).beClients (0, s)).left = none) :
    dpcmBeDaiStartup e f s = (each (dpcmBeDaiStartupBody e f) (s.fe f).beClients (0, s)).state := by
  simp only [dpcmBeDaiStartup, hleft]

theorem dpcmBeDaiStartup_of_left {dpcm : Link B} {err : Int}
    (hleft : (each (dpcmBeDaiStartupBody e f) (s.fe f).beClients (0, s)).left = some (dpcm, err)) :
    dpcmBeDaiStartup e f s = (err, dpcmBeDaiStop e f e.startupRollbackHwFree (some dpcm.be)
      (each (dpcmBeDaiStartupBody e f) (s.fe f).beClients (0, s)).state.2) := by
  simp only [dpcmBeDaiStartup, dpcmBeDaiStartupRollback, hleft]

theorem dpcmBeDaiStartupBody_err {dpcm : Link B} {r : Int × Card F B P} {err : Int}
    (h : (dpcmBeDaiStartupBody e f dpcm r).1 = some err) : err < 0 := by
  unfold dpcmBeDaiStartupBody at h
  simp only at h
  split at h
  · cases h
  split at h
  · cases h
  split at h
  · cases h
  split at h
  · cases h
  split at h
  · next hret =>
    cases h
    exact hret
  · cases h

/-- Either every back end of the front end has one more user, or all are as they were. -/
theorem dpcmBeDaiStartup_spec (hfe : (s.fe f).runtimeUpdate = .fe) (hl : (clients s f).Nodup)
    (hfit : ∀ b ∈ clients s f, (s.be b).Fit) :
    (dpcmBeDaiStartup e f s).2.fe = s.fe ∧
    (∀ b ∉ clients s f, (dpcmBeDaiStartup e f s).2.be b = s.be b) ∧
    (0 ≤ (dpcmBeDaiStartup e f s).1 ∧
        (∀ b ∈ clients s f, (dpcmBeDaiStartup e f s).2.be b = (s.be b).started) ∨
      (dpcmBeDaiStartup e f s).1 < 0 ∧
        ∀ b ∈ clients s f, Restored (s.be b) ((dpcmBeDaiStartup e f s).2.be b)) := by
  have h := dpcmBeDaiStartup_pointwise (e := e) hfe hl hfit
  cases hleft : (each (dpcmBeDaiStartupBody e f) (s.fe f).beClients (0, s)).left with
  | none =>
    rw [dpcmBeDaiStartup_of_ended hleft]
    have hend := h.of_ended hleft
    exact ⟨h.frame.1, fun b => (hend b).2, .inl ⟨h.frame.2, fun b => (hend b).1⟩⟩
  | some r =>
    obtain ⟨dpcm, err⟩ := r
    obtain ⟨t, ht⟩ := each_left hleft
    obtain ⟨rest, hcut, ⟨hu, hfailed⟩, hR⟩ := h.of_left hleft
    have hrfe := h.frame.1
    rw [dpcmBeDaiStartup_of_left hleft]
    generalize each (dpcmBeDaiStartupBody e f) (s.fe f).beClients (0, s) = r at *
    have hmem : ∀ b, b ∈ clients s f ↔
        b ∈ r.visited.reverse.map Link.be ∨ b = dpcm.be ∨ b ∈ rest.map Link.be := by
      simp [clients, hcut]
    have hdpcm : dpcm.be ∉ r.visited.reverse.map Link.be := by
      rw [clients, hcut, List.map_append, List.map_cons, List.nodup_append] at hl
      exact fun hmem => hl.2.2 _ hmem _ List.mem_cons_self rfl
    -- the rollback leaves the back ends in front of the one that failed
    obtain ⟨hback, hbe⟩ := dpcmBeDaiStop_upTo (e := e) (by rw [hrfe, hfe])
      (by rwa [clients, hrfe]) e.startupRollbackHwFree
      (show (r.state.2.fe f).beClients = r.visited.reverse ++ dpcm :: rest by rw [hrfe, hcut])
    refine ⟨hback.trans hrfe, fun b hb => ?_, .inr ⟨dpcmBeDaiStartupBody_err ht, fun b hb => ?_⟩⟩
    · rw [hmem, not_or, not_or] at hb
      rw [(hbe b).2 hb.1]
      exact (hR b).2 (by simpa using hb.1) (Ne.symm hb.2.1)
    · by_cases hpre : b ∈ r.visited.reverse.map Link.be
      · rw [(hbe b).1 hpre, (hR b).1 (by simpa using hpre)]
        exact BeRuntime.stopped_started (hfit b hb) _
      · rw [(hbe b).2 hpre]
        by_cases hb' : dpcm.be = b
        · subst hb'
          rw [hfailed]
          exact BeRuntime.startFailed_restored hu
        · exact .inl ((hR b).2 (by simpa using hpre) hb')

/-! ## The front end -/

/-- No operation is at work on the front end, and no command waits for one. -/
structure FeRuntime.Quiet (x : FeRuntime F B P) : Prop where
  runtimeUpdate : x.runtimeUpdate = .no
  triggerPending : x.triggerPending = none

theorem dpcmSetFeUpdateState_fe :
    dpcmSetFeUpdateState e f .fe s = s.modFe f fun x => { x with runtimeUpdate := .fe } := by
  cases (s.fe f).triggerPending <;> simp [dpcmSetFeUpdateState]

theorem dpcmSetFeUpdateState_no (h : (s.fe f).triggerPending = none) :
    dpcmSetFeUpdateState e f .no s = s.modFe f fun x => { x with runtimeUpdate := .no } := by
  simp [dpcmSetFeUpdateState, h]

/-- The front end has opened its back ends. -/
structure Opened (f : F) (s s' : Card F B P) : Prop where
  fe : s'.fe = Function.update s.fe f { s.fe f with state := .opened }
  on : ∀ b ∈ clients s f, s'.be b = (s.be b).started
  off : ∀ b ∉ clients s f, s'.be b = s.be b

/-- The front end could not be opened, or one of its back ends. -/
structure NotOpened (f : F) (s s' : Card F B P) : Prop where
  fe : ∃ state, (state = (s.fe f).state ∨ state = .opened) ∧
    s'.fe = Function.update s.fe f { s.fe f with state := state }
  on : ∀ b ∈ clients s f, Restored (s.be b) (s'.be b)
  off : ∀ b ∉ clients s f, s'.be b = s.be b

theorem dpcmBeDaiStartupUnwind_spec {state : DpcmState} (hq : (s.fe f).Quiet)
    (hl : (clients s f).Nodup) (hfit : ∀ b ∈ clients s f, (s.be b).Fit)
    (hstate : state = (s.fe f).state ∨ state = .opened)
    (hfe : t.fe = Function.update s.fe f { s.fe f with state := state, runtimeUpdate := .fe })
    (hon : ∀ b ∈ clients s f, t.be b = (s.be b).started)
    (hoff : ∀ b ∉ clients s f, t.be b = s.be b) :
    NotOpened f s (dpcmSetFeUpdateState e f .no (dpcmBeDaiStartupUnwind e f t)) := by
  have htf : t.fe f = { s.fe f with state := state, runtimeUpdate := .fe } := by
    rw [hfe, Function.update_self]
  have hclients : clients t f = clients s f := by
    rw [clients, htf]
    rfl
  obtain ⟨hback, hbe⟩ := dpcmBeDaiStop_all (e := e) (s := t) (by rw [htf]) (by rwa [hclients])
    e.startupUnwindHwFree
  rw [hclients] at hbe
  unfold dpcmBeDaiStartupUnwind
  rw [dpcmSetFeUpdateState_no (by rw [hback, htf]; exact hq.triggerPending)]
  refine ⟨⟨state, hstate, ?_⟩, fun b hb => ?_, fun b hb => ?_⟩
  · rw [Card.modFe_fe, hback, htf, hfe, Function.update_idem, ← hq.runtimeUpdate]
  · rw [Card.modFe_be, (hbe b).1 hb, hon b hb]
    exact BeRuntime.stopped_started (hfit b hb) _
  · rw [Card.modFe_be, (hbe b).2 hb, hoff b hb]

theorem dpcmFeDaiStartup_spec (hq : (s.fe f).Quiet) (hl : (clients s f).Nodup)
    (hfit : ∀ b ∈ clients s f, (s.be b).Fit) :
    0 ≤ (dpcmFeDaiStartup e f s).1 ∧ Opened f s (dpcmFeDaiStartup e f s).2 ∨
      (dpcmFeDaiStartup e f s).1 < 0 ∧ NotOpened f s (dpcmFeDaiStartup e f s).2 := by
  unfold dpcmFeDaiStartup
  rw [dpcmSetFeUpdateState_fe]
  dsimp only
  set s₁ := s.modFe f fun x => { x with runtimeUpdate := .fe } with hs₁
  have hfe₁ : s₁.fe = Function.update s.fe f { s.fe f with runtimeUpdate := .fe } := rfl
  have hclients : clients s₁ f = clients s f := by simp [clients, hs₁]
  obtain ⟨hfe, hoff, hret⟩ := dpcmBeDaiStartup_spec (e := e) (s := s₁) (f := f)
    (by simp [hs₁]) (by rwa [hclients]) (by rwa [hclients])
  rw [hclients] at hoff hret
  rw [hfe₁] at hfe
  generalize dpcmBeDaiStartup e f s₁ = r at hfe hoff hret ⊢
  have hself : r.2.fe f = { s.fe f with runtimeUpdate := .fe } := by
    rw [hfe, Function.update_self]
  rcases hret with ⟨hret, hon⟩ | ⟨hret, hon⟩
  · rw [if_neg (Int.not_lt.mpr hret)]
    split
    · next hopn =>
      exact .inr ⟨hopn, dpcmBeDaiStartupUnwind_spec hq hl hfit (.inl rfl) hfe hon hoff⟩
    · set t := (call e (.fe f .opn) r.2).2.modFe f fun x => { x with state := .opened } with ht
      have htfe : t.fe =
          Function.update s.fe f { s.fe f with state := .opened, runtimeUpdate := .fe } := by
        rw [ht, Card.modFe_fe, call_fe, hself, hfe, Function.update_idem]
      by_cases hsym : (call e (.applySymmetry f) t).1 < 0
      · rw [if_pos hsym]
        exact .inr ⟨hsym, dpcmBeDaiStartupUnwind_spec hq hl hfit (.inr rfl) htfe hon hoff⟩
      · rw [if_neg hsym]
        refine .inl ⟨Int.not_lt.mp hsym, ?_⟩
        have htself := congrFun htfe f
        rw [Function.update_self] at htself
        rw [dpcmSetFeUpdateState_no (by rw [call_fe, htself]; exact hq.triggerPending)]
        refine ⟨?_, hon, hoff⟩
        rw [Card.modFe_fe, call_fe, htself, htfe, Function.update_idem, ← hq.runtimeUpdate]
  · rw [if_pos hret]
    refine .inr ⟨hret, ?_⟩
    rw [dpcmSetFeUpdateState_no (by rw [hself]; exact hq.triggerPending)]
    refine ⟨⟨(s.fe f).state, .inl rfl, ?_⟩, hon, hoff⟩
    rw [Card.modFe_fe, hself, hfe, Function.update_idem, ← hq.runtimeUpdate]

end NoteNew.Dpcm
