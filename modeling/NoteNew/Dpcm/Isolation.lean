import NoteNew.Dpcm.Accounting

/-!
# A running front end keeps its back ends

While a front end runs or is paused, nothing that other front ends do opens, closes, configures,
frees or prepares a back end it is linked to: all that the driver there can be asked is a trigger,
and that only by a trigger of another front end. The guards that hold off each call are the counts
of users, for opening and closing, and the checks of the states of the other front ends, for the
rest. `Spared` says what one operation leaves alone, and `isolated_run` what a run does.

Opening goes further: it calls no back end in use at all, running or not, and one that fails is
undone (`open_run`). All this is for tidy runs: without room for another user at a back end, the
counts no longer hold off the calls.
-/

namespace NoteNew.Dpcm

open Iteration

set_option linter.unusedSectionVars false

variable {F B P : Type*} [DecidableEq F] [DecidableEq B]

/-- The front end an operation is called for. -/
def Op.frontEnd : Op F B P → F
  | .opn f _ _ | .close f | .hwParams f _ | .hwFree f | .prepare f | .trigger f _
  | .runtimeUpdate f _ _ _ => f

/-- The front end runs or is paused. -/
def FeRuntime.Active (x : FeRuntime F B P) : Prop :=
  x.state = .start ∨ x.state = .paused

/-- What an operation on `f` leaves alone for `g` at its back end `b`: it asks the driver nothing
but what `Q` allows. -/
structure Spared (e : Env F B P) (Q : PcmOp P → Prop) (f g : F) (b : B) (s t : Card F B P) :
    Prop where
  asked : ∃ l, history e b t.calls = l ++ history e b s.calls ∧ ∀ x ∈ l, Q x.1
  fe : t.fe g = s.fe g
  linked : g ∈ (t.be b).feClients
  pending : (t.fe f).triggerPending = (s.fe f).triggerPending

variable {e : Env F B P} {Q : PcmOp P → Prop} {s t u : Card F B P} {f g : F} {a b : B}

theorem history_of_forall_ne {c : Call F B P} (hc : ∀ op, c ≠ .be b op)
    (past : List (Call F B P)) : history e b (c :: past) = history e b past := by
  cases c with
  | be b' op =>
    have hne : b ≠ b' := fun h => hc op (h ▸ rfl)
    exact history_be_of_ne hne op past
  | _ => rfl

namespace Spared

theorem refl (h : g ∈ (s.be b).feClients) : Spared e Q f g b s s :=
  ⟨⟨[], rfl, by simp⟩, rfl, h, rfl⟩

theorem trans (h : Spared e Q f g b s t) (h' : Spared e Q f g b t u) : Spared e Q f g b s u := by
  obtain ⟨l, hl, hQ⟩ := h.asked
  obtain ⟨l', hl', hQ'⟩ := h'.asked
  refine ⟨⟨l' ++ l, by rw [hl', hl, List.append_assoc], fun x hx => ?_⟩, h'.fe.trans h.fe,
    h'.linked, h'.pending.trans h.pending⟩
  exact (List.mem_append.mp hx).elim (hQ' x) (hQ x)

theorem modFe (h : Spared e Q f g b s t) (hg : g ≠ f) {k : FeRuntime F B P → FeRuntime F B P}
    (hk : ∀ x, (k x).triggerPending = x.triggerPending) : Spared e Q f g b s (t.modFe f k) where
  asked := h.asked
  fe := by rw [Card.modFe_fe_of_ne _ _ hg, h.fe]
  linked := h.linked
  pending := by rw [Card.modFe_fe_self, hk, h.pending]

theorem modBe (h : Spared e Q f g b s t) {k : BeRuntime F P → BeRuntime F P}
    (hk : ∀ x, g ∈ x.feClients → g ∈ (k x).feClients) : Spared e Q f g b s (t.modBe a k) where
  asked := h.asked
  fe := h.fe
  linked := by
    by_cases hb : b = a
    · subst hb
      rw [Card.modBe_be_self]
      exact hk _ h.linked
    · rw [Card.modBe_be_of_ne _ _ hb]
      exact h.linked
  pending := h.pending

/-- A call that is not for the back end. -/
theorem call (h : Spared e Q f g b s t) {c : Call F B P} (hc : ∀ op, c ≠ .be b op) :
    Spared e Q f g b s (call e c t).2 := by
  obtain ⟨l, hl, hQ⟩ := h.asked
  exact ⟨⟨l, by rw [call_calls, history_of_forall_ne hc, hl], hQ⟩, h.fe, h.linked, h.pending⟩

/-- A call that is allowed for the back end. -/
theorem ask (h : Spared e Q f g b s t) {op : PcmOp P} (hop : Q op) :
    Spared e Q f g b s (Dpcm.call e (.be a op) t).2 := by
  by_cases hb : a = b
  · subst hb
    obtain ⟨l, hl, hQ⟩ := h.asked
    refine ⟨⟨_ :: l, by rw [call_calls, history_be_self, hl]; rfl, fun x hx => ?_⟩, h.fe,
      h.linked, h.pending⟩
    rcases List.mem_cons.mp hx with rfl | hx
    · exact hop
    · exact hQ x hx
  · exact h.call fun op h => hb (Call.be.inj h).1

end Spared

/-- A check against the states of an active front end fails at its back ends. -/
theorem checkState_of_active {states : List DpcmState} (hg : g ≠ f)
    (hlink : g ∈ (t.be b).feClients) (hactive : (t.fe g).Active) (hstart : .start ∈ states)
    (hpaused : .paused ∈ states) : sndSocDpcmCheckState t f b states = false := by
  rw [← Bool.not_eq_true, sndSocDpcmCheckState_iff]
  intro h
  rcases hactive with hstate | hstate
  · exact h g hlink hg (hstate ▸ hstart)
  · exact h g hlink hg (hstate ▸ hpaused)

/-! ## Configuring -/

section Configuring

variable (hg : g ≠ f) (hactive : (s.fe g).Active)
include hg hactive

theorem Spared.ne_of_check (h : Spared e Q f g b s t) {states : List DpcmState} {a : B}
    (hcheck : sndSocDpcmCheckState t f a states = true) (hstart : .start ∈ states)
    (hpaused : .paused ∈ states) (op op' : PcmOp P) : Call.be (F := F) a op ≠ .be b op' := by
  intro hb
  cases hb
  rw [checkState_of_active hg h.linked (by rw [h.fe]; exact hactive) hstart hpaused] at hcheck
  cases hcheck

theorem dpcmBeDaiHwFreeBody_spared (h : Spared e Q f g b s t) (dpcm : Link B) :
    Spared e Q f g b s (dpcmBeDaiHwFreeBody e f dpcm t).2 := by
  unfold dpcmBeDaiHwFreeBody sndSocDpcmCanBeFreeStop
  dsimp only
  split
  · exact h
  split
  · exact h
  next hcheck =>
  split
  · exact h
  split
  · exact h
  · dsimp only
    apply Spared.modBe
    · exact h.call (h.ne_of_check hg hactive (by simpa using hcheck) (by decide) (by decide) _)
    · exact fun _ hx => hx

theorem dpcmBeDaiHwFree_spared (h : Spared e Q f g b s t) :
    Spared e Q f g b s (dpcmBeDaiHwFree e f t) :=
  each_keeps (P := Spared e Q f g b s) h fun dpcm _ _ h =>
    dpcmBeDaiHwFreeBody_spared hg hactive h dpcm

theorem dpcmBeDaiHwParamsBody_spared (h : Spared e Q f g b s t) (dpcm : Link B) :
    Spared e Q f g b s (dpcmBeDaiHwParamsBody e f dpcm t).2 := by
  unfold dpcmBeDaiHwParamsBody sndSocDpcmCanBeParams
  dsimp only
  split
  · exact h
  split
  · exact h
  have hparams : Spared e Q f g b s (t.modBe dpcm.be fun x =>
      { x with hwParams := (e.beHwParamsFixup dpcm.be (t.fe f).hwParams).2 }) :=
    h.modBe fun _ hx => hx
  split
  · exact hparams
  next hcheck =>
  split
  · exact hparams
  have hne := hparams.ne_of_check hg hactive (by simpa using hcheck) (by decide) (by decide)
    (.hwParams (e.beHwParamsFixup dpcm.be (t.fe f).hwParams).2)
  split
  · exact hparams.call hne
  · dsimp only
    apply Spared.modBe
    · exact hparams.call hne
    · exact fun _ hx => hx

theorem dpcmBeDaiHwParamsUnwindBody_spared (h : Spared e Q f g b s t) (dpcm : Link B) :
    Spared e Q f g b s (dpcmBeDaiHwParamsUnwindBody e f dpcm t).2 := by
  unfold dpcmBeDaiHwParamsUnwindBody sndSocDpcmCanBeFreeStop
  dsimp only
  split
  · exact h
  split
  · exact h
  next hcheck =>
  split
  · exact h
  · exact h.call (h.ne_of_check hg hactive (by simpa using hcheck) (by decide) (by decide) .hwFree)

theorem dpcmBeDaiHwParams_spared (h : Spared e Q f g b s t) :
    Spared e Q f g b s (dpcmBeDaiHwParams e f t).2 := by
  have hloop : Spared e Q f g b s
      (each (dpcmBeDaiHwParamsBody e f) (t.fe f).beClients t).state :=
    each_keeps (P := Spared e Q f g b s) h fun dpcm _ _ h =>
      dpcmBeDaiHwParamsBody_spared hg hactive h dpcm
  unfold dpcmBeDaiHwParams
  dsimp only
  split
  · exact hloop
  · exact each_keeps (P := Spared e Q f g b s) hloop fun dpcm _ _ h =>
      dpcmBeDaiHwParamsUnwindBody_spared hg hactive h dpcm

theorem dpcmBeDaiPrepareBody_spared {ret : Int} (h : Spared e Q f g b s t) (dpcm : Link B) :
    Spared e Q f g b s (dpcmBeDaiPrepareBody e f dpcm (ret, t)).2.2 := by
  unfold dpcmBeDaiPrepareBody sndSocDpcmCanBePrepared
  dsimp only
  split
  · exact h
  split
  · exact h
  next hcheck =>
  split
  · exact h
  have hne := h.ne_of_check hg hactive (by simpa using hcheck) (by decide) (by decide) .prepare
  split
  · exact h.call hne
  · dsimp only
    apply Spared.modBe
    · exact h.call hne
    · exact fun _ hx => hx

theorem dpcmBeDaiPrepare_spared (h : Spared e Q f g b s t) :
    Spared e Q f g b s (dpcmBeDaiPrepare e f t).2 :=
  each_keeps (P := fun r : Int × Card F B P => Spared e Q f g b s r.2) h fun dpcm _ _ h =>
    dpcmBeDaiPrepareBody_spared hg hactive h dpcm

end Configuring

/-! ## Opening and closing -/

theorem dpcmBeDaiStopBody_spared (doHwFree : Bool) {last : Option B} {dpcm : Link B}
    (h : Spared e Q f g b s t)
    (hmany : some dpcm.be ≠ last → dpcm.be = b → 2 ≤ (t.be b).users) :
    Spared e Q f g b s (dpcmBeDaiStopBody e f doHwFree last dpcm t).2 := by
  unfold dpcmBeDaiStopBody
  dsimp only
  split
  · exact h
  next hlast =>
  split
  · exact h
  split
  · exact h
  have hless : Spared e Q f g b s (t.modBe dpcm.be fun x => { x with users := x.users - 1 }) :=
    h.modBe fun _ hx => hx
  split
  · exact hless
  next hnone =>
  -- the last user has gone, so the back end is another one
  have hne : ∀ op op' : PcmOp P, Call.be (F := F) dpcm.be op ≠ .be b op' := by
    intro op op' hb
    have hb' := (Call.be.inj hb).1
    have h2 := hmany hlast hb'
    rw [Card.modBe_be_self, hb'] at hnone
    exact hnone (by simp only; omega)
  split
  · exact hless
  have hfreed : Spared e Q f g b s
      (if ((t.modBe dpcm.be fun x => { x with users := x.users - 1 }).be dpcm.be).state ≠ .opened ∧
          ((t.modBe dpcm.be fun x => { x with users := x.users - 1 }).be dpcm.be).state ≠ .hwFree
        then (call e (.be dpcm.be .hwFree)
            (t.modBe dpcm.be fun x => { x with users := x.users - 1 })).2.modBe dpcm.be
          fun x => { x with state := .hwFree }
        else t.modBe dpcm.be fun x => { x with users := x.users - 1 }) := by
    split
    · exact (hless.call (hne .hwFree)).modBe fun _ hx => hx
    · exact hless
  dsimp only
  apply Spared.modBe
  · exact hfreed.call (hne .close)
  · exact fun _ hx => hx

theorem dpcmBeDaiStopBody_be_of_ne (doHwFree : Bool) (last : Option B) {dpcm : Link B}
    (hb : b ≠ dpcm.be) : (dpcmBeDaiStopBody e f doHwFree last dpcm t).2.be b = t.be b := by
  unfold dpcmBeDaiStopBody
  dsimp only
  split
  · rfl
  split
  · rfl
  split
  · rfl
  split
  · simp [hb]
  split
  · simp [hb]
  split <;> simp [hb]

/-- Where `b` is left, somebody else still uses it. -/
theorem dpcmBeDaiStop_spared {doHwFree : Bool} {last : Option B} (hl : (clients t f).Nodup)
    (h : Spared e Q f g b s t)
    (hmany : ∀ pre dpcm post, (t.fe f).beClients = pre ++ dpcm :: post →
      (∀ d ∈ pre, some d.be ≠ last) → some dpcm.be ≠ last → dpcm.be = b → 2 ≤ (t.be b).users) :
    Spared e Q f g b s (dpcmBeDaiStop e f doHwFree last t) := by
  let I : List (Link B) → Card F B P → Prop := fun done u =>
    Spared e Q f g b s u ∧ (∀ d ∈ done, some d.be ≠ last) ∧
      ((∀ d ∈ done, d.be ≠ b) → u.be b = t.be b)
  have hmany' : ∀ (done : List (Link B)) (dpcm : Link B) (rest : List (Link B)) (u : Card F B P),
      (t.fe f).beClients = done.reverse ++ dpcm :: rest → I done u →
      some dpcm.be ≠ last → dpcm.be = b → 2 ≤ (u.be b).users := by
    rintro done dpcm rest u hcut ⟨-, hdone, hsame⟩ hlast hb
    have hnew : ∀ d ∈ done, d.be ≠ b := by
      intro d hd hdb
      rw [clients, hcut, List.map_append, List.map_cons, List.nodup_append] at hl
      exact hl.2.2 d.be (List.mem_map_of_mem (List.mem_reverse.mpr hd)) dpcm.be
        List.mem_cons_self (hdb.trans hb.symm)
    rw [hsame hnew]
    exact hmany _ dpcm rest hcut (by simpa using hdone) hlast hb
  have hrun : Run I (fun _ _ (_ : Unit) _ u => Spared e Q f g b s u) (t.fe f).beClients
      (each (dpcmBeDaiStopBody e f doHwFree last) (t.fe f).beClients t) := by
    apply each_run
    · exact ⟨h, by simp, fun _ => rfl⟩
    · intro done dpcm rest u u' hcut hu hbody
      have hlast : some dpcm.be ≠ last := by
        intro hlast
        simp [dpcmBeDaiStopBody, hlast] at hbody
      have hspared := dpcmBeDaiStopBody_spared doHwFree hu.1 (hmany' done dpcm rest u hcut hu)
      rw [hbody] at hspared
      refine ⟨hspared, fun d hd => ?_, fun hd => ?_⟩
      · rcases List.mem_cons.mp hd with rfl | hd
        · exact hlast
        · exact hu.2.1 d hd
      · have hsame := dpcmBeDaiStopBody_be_of_ne (e := e) (f := f) (t := u) doHwFree last
          (hd dpcm List.mem_cons_self).symm
        rw [hbody] at hsame
        rw [hsame]
        exact hu.2.2 fun d hd' => hd d (List.mem_cons_of_mem dpcm hd')
    · intro done dpcm rest u u' err hcut hu hbody
      have hspared := dpcmBeDaiStopBody_spared doHwFree hu.1 (hmany' done dpcm rest u hcut hu)
      rwa [hbody] at hspared
  unfold dpcmBeDaiStop
  generalize each (dpcmBeDaiStopBody e f doHwFree last) (t.fe f).beClients t = r at hrun ⊢
  cases hrun with
  | ended h => exact h.1
  | left _ h => exact h

theorem dpcmBeDaiStartupBody_spared {count : Int} (dpcm : Link B) (h : Spared e Q f g b s t)
    (hused : 0 < (t.be b).users) :
    Spared e Q f g b s (dpcmBeDaiStartupBody e f dpcm (count, t)).2.2 ∧
      0 < ((dpcmBeDaiStartupBody e f dpcm (count, t)).2.2.be b).users := by
  unfold dpcmBeDaiStartupBody
  dsimp only
  split
  · exact ⟨h, hused⟩
  split
  · exact ⟨h, hused⟩
  have hmore : Spared e Q f g b s (t.modBe dpcm.be fun x => { x with users := x.users + 1 }) :=
    h.modBe fun _ hx => hx
  have hpos : 0 < ((t.modBe dpcm.be fun x => { x with users := x.users + 1 }).be b).users := by
    by_cases hb : b = dpcm.be
    · rw [hb, Card.modBe_be_self]
      rw [hb] at hused
      simp only
      omega
    · rw [Card.modBe_be_of_ne _ _ hb]
      exact hused
  split
  · exact ⟨hmore, hpos⟩
  next hzero =>
  have hb : b ≠ dpcm.be := by
    rintro rfl
    exact hzero (by omega)
  split
  · exact ⟨hmore, hpos⟩
  have hopn := (hmore.modBe (a := dpcm.be) (k := fun x => { x with substreamRuntime := x.runtime })
    fun _ hx => hx).call (c := .be dpcm.be .opn) fun op hop => hb (Call.be.inj hop).1.symm
  split
  · refine ⟨?_, by simpa [hb] using hused⟩
    dsimp only
    apply hopn.modBe
    exact fun _ hx => hx
  · refine ⟨?_, by simpa [hb] using hused⟩
    dsimp only
    apply hopn.modBe
    exact fun _ hx => hx

/-- A back end in use is not opened again, and not closed by the rollback. -/
theorem dpcmBeDaiStartup_spared (hfe : (t.fe f).runtimeUpdate = .fe) (hl : (clients t f).Nodup)
    (hfit : ∀ b ∈ clients t f, (t.be b).Fit) (h : Spared e Q f g b s t)
    (hused : 0 < (t.be b).users) : Spared e Q f g b s (dpcmBeDaiStartup e f t).2 := by
  have hloop : Spared e Q f g b s
        (each (dpcmBeDaiStartupBody e f) (t.fe f).beClients (0, t)).state.2 ∧
      0 < ((each (dpcmBeDaiStartupBody e f) (t.fe f).beClients (0, t)).state.2.be b).users :=
    each_keeps (P := fun r : Int × Card F B P => Spared e Q f g b s r.2 ∧ 0 < (r.2.be b).users)
      ⟨h, hused⟩ fun dpcm _ r hr => dpcmBeDaiStartupBody_spared dpcm hr.1 hr.2
  have hspec := dpcmBeDaiStartup_pointwise (e := e) hfe hl hfit
  cases hleft : (each (dpcmBeDaiStartupBody e f) (t.fe f).beClients (0, t)).left with
  | none =>
    rw [dpcmBeDaiStartup_of_ended hleft]
    exact hloop.1
  | some r =>
    obtain ⟨dpcm, err⟩ := r
    obtain ⟨rest, hcut, -, hR⟩ := hspec.of_left hleft
    have hrfe : _ = t.fe := hspec.frame.1
    rw [dpcmBeDaiStartup_of_left hleft]
    generalize each (dpcmBeDaiStartupBody e f) (t.fe f).beClients (0, t) = r at *
    refine dpcmBeDaiStop_spared (by rwa [clients, hrfe]) hloop.1 ?_
    intro pre d post hcut' hpre hd hdb
    -- the rollback comes to `b` only where the loop has counted one more user
    have hvisited : b ∈ r.visited.map Link.be := by
      rw [hrfe] at hcut'
      have hmem : d ∈ r.visited.reverse ++ dpcm :: rest := by simp [← hcut, hcut']
      rcases List.mem_append.mp hmem with hmem | hmem
      · exact hdb ▸ List.mem_map_of_mem (List.mem_reverse.mp hmem)
      rcases List.mem_cons.mp hmem with rfl | hmem
      · exact absurd rfl hd
      obtain ⟨mid, post', rfl⟩ := List.append_of_mem hmem
      have hcut'' : (t.fe f).beClients = (r.visited.reverse ++ dpcm :: mid) ++ d :: post' := by
        simp [hcut]
      have hpre' : pre = r.visited.reverse ++ dpcm :: mid := cut_unique hl hcut' hcut'' rfl
      exact absurd rfl (hpre dpcm (by simp [hpre']))
    have hstarted := (hR b).1 hvisited
    simp only at hstarted
    rw [hstarted, BeRuntime.started_inUse (Int.ne_of_gt hused)]
    simp only
    omega

/-- The end of an operation, where no command waits. -/
theorem Spared.finish (h : Spared e Q f g b s t) (hg : g ≠ f)
    (hq : (s.fe f).triggerPending = none) :
    Spared e Q f g b s (dpcmSetFeUpdateState e f .no t) := by
  rw [dpcmSetFeUpdateState_no (h.pending.trans hq)]
  exact h.modFe hg fun _ => by rfl

/-- The back ends just opened are left again. -/
theorem dpcmBeDaiStop_started {doHwFree : Bool} (hl : (clients t f).Nodup)
    (h : Spared e Q f g b s t) (hused : 0 < (s.be b).users)
    (hon : ∀ b ∈ clients t f, t.be b = (s.be b).started) :
    Spared e Q f g b s (dpcmBeDaiStop e f doHwFree none t) := by
  refine dpcmBeDaiStop_spared hl h fun pre dpcm post hcut _ _ hb => ?_
  have hmem : b ∈ clients t f := by simp [clients, hcut, hb]
  rw [hon b hmem, BeRuntime.started_inUse (Int.ne_of_gt hused)]
  simp only
  omega

theorem dpcmFeDaiStartup_spared (hg : g ≠ f) (hq : (s.fe f).Quiet) (hl : (clients s f).Nodup)
    (hfit : ∀ b ∈ clients s f, (s.be b).Fit) (hlink : g ∈ (s.be b).feClients)
    (hused : 0 < (s.be b).users) : Spared e Q f g b s (dpcmFeDaiStartup e f s).2 := by
  unfold dpcmFeDaiStartup
  rw [dpcmSetFeUpdateState_fe]
  dsimp only
  set s₁ := s.modFe f fun x => { x with runtimeUpdate := .fe } with hs₁
  have hset : Spared e Q f g b s s₁ := (Spared.refl hlink).modFe hg fun _ => by rfl
  have hfe₁ : (s₁.fe f).runtimeUpdate = .fe := by simp [hs₁]
  have hclients : clients s₁ f = clients s f := by simp [clients, hs₁]
  obtain ⟨hfe, -, hret⟩ := dpcmBeDaiStartup_spec (e := e) hfe₁ (by rwa [hclients])
    (by rwa [hclients])
  have hbe := dpcmBeDaiStartup_spared hfe₁ (by rwa [hclients]) (by rwa [hclients]) hset hused
  generalize dpcmBeDaiStartup e f s₁ = r at hfe hret hbe ⊢
  split
  · exact hbe.finish hg hq.triggerPending
  next hok =>
  obtain ⟨-, hon⟩ := hret.resolve_right fun h => hok h.1
  have hclients₂ : clients r.2 f = clients s f := by rw [clients, hfe, ← hclients, clients]
  have hopen := hbe.call (c := .fe f .opn) (by simp)
  have hunwind {u : Card F B P} (hu : Spared e Q f g b s u)
      (hlinks : (u.fe f).beClients = (r.2.fe f).beClients) (hube : u.be = r.2.be) :
      Spared e Q f g b s (dpcmBeDaiStartupUnwind e f u) := by
    have hclients₃ : clients u f = clients s f := by rw [clients, hlinks, ← hclients₂, clients]
    refine dpcmBeDaiStop_started (by rwa [hclients₃]) hu hused fun c hc => ?_
    rw [hube, hon c (by rwa [hclients, ← hclients₃])]
    rfl
  split
  · exact (hunwind hopen rfl rfl).finish hg hq.triggerPending
  have hopened := (hopen.modFe hg (k := fun x => { x with state := .opened }) fun _ => by rfl).call
    (c := .applySymmetry f) (by simp)
  split
  · refine (hunwind hopened ?_ rfl).finish hg hq.triggerPending
    simp
  · exact hopened.finish hg hq.triggerPending

/-! ## Links -/

theorem dpcmBeConnect_spared (hg : g ≠ f) (h : Spared e Q f g b s t) :
    Spared e Q f g b s (dpcmBeConnect e f a t).2 := by
  unfold dpcmBeConnect
  dsimp only
  split
  · exact h
  split
  · exact h
  have halloc : Spared e Q f g b s (call e (.kzalloc f a) (t.modBe a fun x =>
      if e.feNonatomic f && !x.nonatomic then { x with nonatomic := true } else x)).2 := by
    apply Spared.call
    · apply h.modBe
      intro x hx
      split <;> exact hx
    · simp
  split
  · exact halloc
  · dsimp only
    apply Spared.modFe
    · apply halloc.modBe
      exact fun x hx => List.mem_cons_of_mem f hx
    · exact hg
    · exact fun _ => rfl

theorem dpcmAddPaths_spared (hg : g ≠ f) (list : List B) (h : Spared e Q f g b s t) :
    Spared e Q f g b s (dpcmAddPaths e f list t).2 := by
  unfold dpcmAddPaths
  split
  · exact h
  refine each_keeps (P := fun r : Int × Card F B P => Spared e Q f g b s r.2) h ?_
  intro c _ ⟨new, u⟩ hu
  have hconnect := dpcmBeConnect_spared (a := c) hg hu
  unfold dpcmAddPathsBody
  dsimp only
  split
  · exact hu
  split
  · exact hconnect
  split
  · exact hconnect
  · dsimp only
    apply hconnect.modBe
    exact fun _ hx => hx

theorem dpcmBeReparent_spared (h : Spared e Q f g b s t) :
    Spared e Q f g b s (dpcmBeReparent f a t) := by
  unfold dpcmBeReparent
  split
  · exact h
  split
  · exact h
  · apply h.modBe
    exact fun _ hx => hx

theorem dpcmBeDisconnectBody_spared (hg : g ≠ f) (dpcm : Link B) (h : Spared e Q f g b s t) :
    Spared e Q f g b s (dpcmBeDisconnectBody f dpcm t) := by
  unfold dpcmBeDisconnectBody
  split
  · exact h
  · dsimp only
    apply Spared.modBe
    · exact (dpcmBeReparent_spared h).modFe hg fun _ => by rfl
    · exact fun x hx => List.mem_filter.mpr ⟨hx, by simpa using hg⟩

theorem dpcmBeDisconnect_spared (hg : g ≠ f) (h : Spared e Q f g b s t) :
    Spared e Q f g b s (dpcmBeDisconnect f t) := by
  unfold dpcmBeDisconnect
  induction (t.fe f).beClients generalizing t with
  | nil => exact h
  | cons dpcm l ih => exact ih (dpcmBeDisconnectBody_spared hg dpcm h)

theorem dpcmFeDaiCleanup_spared (hg : g ≠ f) (h : Spared e Q f g b s t) :
    Spared e Q f g b s (dpcmFeDaiCleanup f t) := by
  unfold dpcmFeDaiCleanup
  dsimp only
  apply Spared.modFe
  · exact dpcmBeDisconnect_spared hg (h.modFe hg fun _ => by rfl)
  · exact hg
  · exact fun _ => rfl

theorem dpcmClearPendingState_spared (h : Spared e Q f g b s t) :
    Spared e Q f g b s (dpcmClearPendingState f t) := by
  unfold dpcmClearPendingState
  induction (t.fe f).beClients generalizing t with
  | nil => exact h
  | cons dpcm l ih =>
    apply ih
    apply h.modBe
    exact fun _ hx => hx

/-! ## The operations -/

theorem dpcmFeDaiOpen_spared {paths : Int} {list : List B} (hg : g ≠ f) (hq : (s.fe f).Quiet)
    (hnone : clients s f = []) (hfit : ∀ b ∈ list, (s.be b).Fit)
    (hlink : g ∈ (s.be b).feClients) (hused : 0 < (s.be b).users) :
    Spared e Q f g b s (dpcmFeDaiOpen e f paths list s).2 := by
  have hlinks : (s.fe f).beClients = [] := List.map_eq_nil_iff.mp hnone
  unfold dpcmFeDaiOpen dpcmProcessPaths
  set s₀ := s.modFe f fun x => { x with runtime := some f } with hs₀
  have hset : Spared e Q f g b s s₀ := (Spared.refl hlink).modFe hg fun _ => by rfl
  have hnone₀ : clients s₀ f = [] := by rw [clients, hs₀, Card.modFe_fe_self, hlinks, List.map_nil]
  dsimp only
  split
  · exact hset
  rw [if_pos rfl]
  have hlinked := dpcmAddPaths_linked (e := e) (s := s₀) (f := f) list (by simp [hs₀]) hnone₀
  have hadd := dpcmAddPaths_spared hg list hset
  generalize (dpcmAddPaths e f list s₀).2 = t at hlinked hadd ⊢
  have hbe : ∀ c, (t.be c).users = (s.be c).users ∧ (t.be c).state = (s.be c).state := by
    intro c
    by_cases hc : c ∈ clients t f
    · obtain ⟨nonatomic, hon⟩ := hlinked.on c hc
      rw [hon]
      exact ⟨rfl, rfl⟩
    · obtain ⟨nonatomic, hoff⟩ := hlinked.off c hc
      rw [hoff]
      exact ⟨rfl, rfl⟩
  have hquiet : (t.fe f).Quiet := by
    obtain ⟨links, hfe⟩ := hlinked.fe
    rw [hfe, Function.update_self, hs₀, Card.modFe_fe_self]
    exact ⟨hq.runtimeUpdate, hq.triggerPending⟩
  have hfit' : ∀ c ∈ clients t f, (t.be c).Fit := by
    intro c hc
    have hx := hfit c (hlinked.sub c hc)
    refine ⟨?_, ?_, ?_⟩
    · rw [(hbe c).1]
      exact hx.nonneg
    · rw [(hbe c).1]
      exact hx.room
    · rw [(hbe c).1, BeRuntime.Closed, (hbe c).2]
      exact hx.closed
  have hstart := hadd.trans (dpcmFeDaiStartup_spared (e := e) (Q := Q) hg hquiet hlinked.nodup hfit'
    hadd.linked (by rwa [(hbe b).1]))
  apply dpcmClearPendingState_spared
  split
  · exact dpcmFeDaiCleanup_spared hg hstart
  · exact hstart

/-- Where `f` leaves `b`, somebody else still uses it. -/
theorem dpcmFeDaiClose_spared (hg : g ≠ f) (hq : (s.fe f).Quiet) (hl : (clients s f).Nodup)
    (hlink : g ∈ (s.be b).feClients) (hmany : b ∈ clients s f → 2 ≤ (s.be b).users) :
    Spared e Q f g b s (dpcmFeDaiClose e f s).2 := by
  unfold dpcmFeDaiClose dpcmFeDaiShutdown
  rw [dpcmSetFeUpdateState_fe]
  dsimp only
  set s₁ := s.modFe f fun x => { x with runtimeUpdate := .fe } with hs₁
  have hset : Spared e Q f g b s s₁ := (Spared.refl hlink).modFe hg fun _ => by rfl
  have hclients : clients s₁ f = clients s f := by simp [clients, hs₁]
  have hstop : Spared e Q f g b s (dpcmBeDaiShutdown e f s₁) := by
    refine dpcmBeDaiStop_spared (by rwa [hclients]) hset fun pre dpcm post hcut _ _ hb => ?_
    refine hmany ?_
    rw [← hclients]
    simp [clients, hcut, hb]
  have hclose := (hstop.call (c := .fe f .close) (by simp)).modFe hg
    (k := fun x => { x with state := .close }) fun _ => by rfl
  exact dpcmFeDaiCleanup_spared hg (hclose.finish hg hq.triggerPending)

theorem dpcmFeDaiHwFree_spared (hg : g ≠ f) (hq : (s.fe f).Quiet) (hlink : g ∈ (s.be b).feClients)
    (hactive : (s.fe g).Active) : Spared e Q f g b s (dpcmFeDaiHwFree e f s).2 := by
  unfold dpcmFeDaiHwFree
  rw [dpcmSetFeUpdateState_fe]
  have hcall := ((Spared.refl hlink).modFe hg (e := e) (Q := Q)
    (k := fun x => { x with runtimeUpdate := .fe }) fun _ => by rfl).call (c := .fe f .hwFree)
    (by simp)
  dsimp only
  exact ((dpcmBeDaiHwFree_spared hg hactive hcall).modFe hg fun _ => by rfl).finish hg
    hq.triggerPending

theorem dpcmFeDaiHwParams_spared {params : P} (hg : g ≠ f) (hq : (s.fe f).Quiet)
    (hlink : g ∈ (s.be b).feClients) (hactive : (s.fe g).Active) :
    Spared e Q f g b s (dpcmFeDaiHwParams e f params s).2 := by
  unfold dpcmFeDaiHwParams
  rw [dpcmSetFeUpdateState_fe]
  dsimp only
  have hset : Spared e Q f g b s ((s.modFe f fun x => { x with runtimeUpdate := .fe }).modFe f
      fun x => { x with hwParams := params }) :=
    ((Spared.refl hlink).modFe hg fun _ => by rfl).modFe hg fun _ => by rfl
  have hbe := dpcmBeDaiHwParams_spared hg hactive hset
  split
  · exact hbe.finish hg hq.triggerPending
  have hcall := hbe.call (c := .fe f (.hwParams params)) (by simp)
  split
  · exact (dpcmBeDaiHwFree_spared hg hactive hcall).finish hg hq.triggerPending
  · exact (hcall.modFe hg fun _ => by rfl).finish hg hq.triggerPending

theorem dpcmFeDaiPrepare_spared (hg : g ≠ f) (hq : (s.fe f).Quiet)
    (hlink : g ∈ (s.be b).feClients) (hactive : (s.fe g).Active) :
    Spared e Q f g b s (dpcmFeDaiPrepare e f s).2 := by
  unfold dpcmFeDaiPrepare
  rw [dpcmSetFeUpdateState_fe]
  dsimp only
  have hset : Spared e Q f g b s (s.modFe f fun x => { x with runtimeUpdate := .fe }) :=
    (Spared.refl hlink).modFe hg fun _ => by rfl
  split
  · exact hset.finish hg hq.triggerPending
  have hbe := dpcmBeDaiPrepare_spared hg hactive hset
  split
  · exact hbe.finish hg hq.triggerPending
  have hcall := hbe.call (c := .fe f .prepare) (by simp)
  split
  · exact hcall.finish hg hq.triggerPending
  · exact (hcall.modFe hg fun _ => by rfl).finish hg hq.triggerPending

/-! ## Triggering -/

section Triggering

variable (hQ : ∀ cmd, Q (.trigger cmd))
include hQ

theorem beTry_spared {cmd : TriggerCmd} {failed done : Card F B P → Card F B P}
    (h : Spared e Q f g b s t)
    (hfailed : ∀ u, Spared e Q f g b s u → Spared e Q f g b s (failed u))
    (hdone : ∀ u, Spared e Q f g b s u → Spared e Q f g b s (done u)) :
    Spared e Q f g b s (beTry e a cmd failed done t).2 := by
  unfold beTry
  dsimp only
  split
  · exact hfailed _ (h.ask (hQ cmd))
  · exact hdone _ (h.ask (hQ cmd))

theorem beStartOne_spared {cmd : TriggerCmd} (h : Spared e Q f g b s t) :
    Spared e Q f g b s (beStartOne e a cmd t).2 := by
  have hcount : Spared e Q f g b s (t.modBe a fun x => { x with beStart := x.beStart + 1 }) :=
    h.modBe fun _ hx => hx
  unfold beStartOne
  dsimp only
  split
  · exact hcount
  · exact beTry_spared hQ hcount (fun _ hu => hu.modBe fun _ hx => hx)
      fun _ hu => hu.modBe fun _ hx => hx

theorem beStopOne_spared {cmd : TriggerCmd} {state : DpcmState} (h : Spared e Q f g b s t) :
    Spared e Q f g b s (beStopOne e a cmd state t).2 := by
  have hcount : Spared e Q f g b s (t.modBe a fun x => { x with beStart := x.beStart - 1 }) :=
    h.modBe fun _ hx => hx
  unfold beStopOne
  dsimp only
  split
  · exact hcount
  · exact beTry_spared hQ hcount (fun _ hu => hu.modBe fun _ hx => hx)
      fun _ hu => hu.modBe fun _ hx => hx

theorem beTriggerStopLast_spared (hg : g ≠ f) (h : Spared e Q f g b s t) :
    Spared e Q f g b s (beTriggerStopLast e f a t).2 := by
  have hundo : ∀ u, Spared e Q f g b s u → Spared e Q f g b s
      (u.modBe a fun x => if x.state = .start then { x with beStart := x.beStart + 1 } else x) := by
    intro u hu
    apply hu.modBe
    intro x hx
    split <;> exact hx
  have hpause : ∀ u, Spared e Q f g b s u → ∀ (fePause : Bool) (count : Int → Int),
      Spared e Q f g b s ((u.modFe f fun x => { x with fePause := fePause }).modBe a
        fun x => { x with bePause := count x.bePause }) :=
    fun u hu _ _ => (hu.modFe hg fun _ => by rfl).modBe fun _ hx => hx
  have hstate : ∀ state u, Spared e Q f g b s u →
      Spared e Q f g b s (u.modBe a fun x => { x with state := state }) :=
    fun _ u hu => hu.modBe fun _ hx => hx
  unfold beTriggerStopLast
  dsimp only
  split
  · have hfailed := fun u hu => hpause _ (hundo u hu) true fun n => n + 1
    have hless := hpause t h false fun n => n - 1
    split
    · exact beTry_spared hQ hless hfailed (hstate _)
    · exact beTry_spared hQ hless hfailed (hstate _)
  · split
    · exact beTry_spared hQ h hundo (hstate _)
    · exact beTry_spared hQ h hundo (hstate _)

theorem beTrigger_spared (hg : g ≠ f) (cmd : TriggerCmd) (h : Spared e Q f g b s t) :
    Spared e Q f g b s (beTrigger e f a cmd t).2 := by
  unfold beTrigger
  cases cmd with
  | start =>
    dsimp only
    split
    · exact h
    · exact beStartOne_spared hQ h
  | resume =>
    dsimp only
    split
    · exact h
    · exact beStartOne_spared hQ h
  | pauseRelease =>
    dsimp only
    split
    · exact h
    · exact beStartOne_spared hQ ((h.modFe hg fun _ => by rfl).modBe fun _ hx => hx)
  | stop =>
    dsimp only
    unfold beTriggerStop
    split
    · exact h
    have hcount : Spared e Q f g b s (t.modBe a fun x =>
        if x.state = .start then { x with beStart := x.beStart - 1 } else x) := by
      apply h.modBe
      intro x hx
      split <;> exact hx
    dsimp only
    split
    · exact hcount
    · exact beTriggerStopLast_spared hQ hg hcount
  | suspend =>
    dsimp only
    split
    · exact h
    · exact beStopOne_spared hQ h
  | pausePush =>
    dsimp only
    split
    · exact h
    · exact beStopOne_spared hQ ((h.modFe hg fun _ => by rfl).modBe fun _ hx => hx)
  | drain => exact h

theorem dpcmBeDaiTrigger_spared (hg : g ≠ f) (cmd : TriggerCmd) (h : Spared e Q f g b s t) :
    Spared e Q f g b s (dpcmBeDaiTrigger e f cmd t).2 := by
  have hloop : Spared e Q f g b s
      (each (dpcmBeDaiTriggerBody e f cmd) (t.fe f).beClients t).state := by
    refine each_keeps (P := Spared e Q f g b s) h fun dpcm _ u hu => ?_
    unfold dpcmBeDaiTriggerBody
    dsimp only
    split
    · exact hu
    · exact beTrigger_spared hQ hg cmd hu
  unfold dpcmBeDaiTrigger
  dsimp only
  split <;> exact hloop

theorem dpcmFeDaiTriggerOrder_spared (hg : g ≠ f) (cmd : TriggerCmd)
    (h : Spared e Q f g b s t) : Spared e Q f g b s (dpcmFeDaiTriggerOrder e f cmd t).2 := by
  have hfebe (feFirst : Bool) : Spared e Q f g b s (dpcmDaiTriggerFeBe e f cmd feFirst t).2 := by
    have hfe := h.call (c := .fe f (.trigger cmd)) (by simp)
    have hbe := dpcmBeDaiTrigger_spared hQ hg cmd h
    unfold dpcmDaiTriggerFeBe
    dsimp only
    split
    · split
      · exact hfe
      · exact dpcmBeDaiTrigger_spared hQ hg cmd hfe
    · split
      · exact hbe
      · exact hbe.call (by simp)
  unfold dpcmFeDaiTriggerOrder
  split
  · exact hfebe _
  · exact hfebe _
  · exact h.call (by simp)

theorem dpcmFeDaiTrigger_spared (hg : g ≠ f) (hq : (s.fe f).Quiet) (cmd : TriggerCmd)
    (hlink : g ∈ (s.be b).feClients) : Spared e Q f g b s (dpcmFeDaiTrigger e f cmd s).2 := by
  unfold dpcmFeDaiTrigger
  rw [if_neg (not_not.mpr hq.runtimeUpdate)]
  have hset : Spared e Q f g b s (s.modFe f fun x => { x with runtimeUpdate := .fe }) :=
    (Spared.refl hlink).modFe hg fun _ => by rfl
  have horder := dpcmFeDaiTriggerOrder_spared hQ hg cmd hset
  unfold dpcmFeDaiDoTrigger
  dsimp only
  refine Spared.modFe ?_ hg fun _ => by rfl
  split
  · exact horder
  · exact horder.modFe hg fun _ => by rfl

end Triggering

/-! ## Runs -/

/-- What an operation may ask the drivers of the back ends of an active front end for. -/
def Op.Asks (op : Op F B P) (asked : PcmOp P) : Prop :=
  (∃ cmd, asked = .trigger cmd) ∧ ∃ f cmd, op = .trigger f cmd

theorem BeAccount.two_le_users (h : BeAccount s b) (hf : f ∈ (s.be b).feClients)
    (hg : g ∈ (s.be b).feClients) (hne : g ≠ f) : 2 ≤ (s.be b).users := by
  have hmem : f ∈ (s.be b).feClients.erase g := (List.mem_erase_of_ne hne.symm).mpr hf
  have hpos := List.length_pos_of_mem hmem
  have hlength := List.length_erase_of_mem hg
  have husers := h.users
  omega

theorem isolated_step {op : Op F B P} (h : Accounts s) (htidy : Tidy s op (step e s op).1)
    (hg : g ≠ op.frontEnd) (hb : b ∈ clients s g) (hactive : (s.fe g).Active) :
    Spared e op.Asks op.frontEnd g b s (step e s op).2 := by
  have hlink := ((h.be b).linked g).mp hb
  cases op with
  | opn f paths list =>
    obtain ⟨hnone, hroom⟩ := htidy
    exact dpcmFeDaiOpen_spared hg (h.quiet f) hnone (fun c hc => h.fit (hroom c hc)) hlink
      (h.users_pos hb)
  | close f =>
    refine dpcmFeDaiClose_spared hg (h.quiet f) (h.nodup f) hlink fun hbf => ?_
    exact (h.be b).two_le_users (((h.be b).linked f).mp hbf) hlink hg
  | hwParams f params => exact dpcmFeDaiHwParams_spared hg (h.quiet f) hlink hactive
  | hwFree f => exact dpcmFeDaiHwFree_spared hg (h.quiet f) hlink hactive
  | prepare f => exact dpcmFeDaiPrepare_spared hg (h.quiet f) hlink hactive
  | trigger f cmd =>
    exact dpcmFeDaiTrigger_spared (fun cmd' => ⟨⟨cmd', rfl⟩, f, cmd, rfl⟩) hg (h.quiet f) cmd hlink
  | runtimeUpdate f new paths list => exact htidy.elim

theorem run_append (ops ops' : List (Op F B P)) :
    run e s (ops ++ ops') = run e (run e s ops) ops' := by
  rw [run, run, run, List.foldl_append]

theorem Legal.append {legal : Card F B P → Op F B P → Int → Prop} {ops ops' : List (Op F B P)}
    (h : Legal e legal s (ops ++ ops')) :
    Legal e legal s ops ∧ Legal e legal (run e s ops) ops' := by
  induction ops generalizing s with
  | nil => exact ⟨trivial, h⟩
  | cons op ops ih =>
    obtain ⟨hops, hops'⟩ := ih h.2
    exact ⟨⟨h.1, hops⟩, hops'⟩

theorem isolated_of_accounts (he : e.shutdownHwFree = true) {ops : List (Op F B P)}
    (h : Accounts s) (hlegal : Legal e Tidy s ops) (hothers : ∀ op ∈ ops, g ≠ op.frontEnd)
    (hb : b ∈ clients s g) (hactive : (s.fe g).Active) :
    (run e s ops).fe g = s.fe g ∧
      ∃ l, history e b (run e s ops).calls = l ++ history e b s.calls ∧
        ∀ x ∈ l, ∃ op ∈ ops, op.Asks x.1 := by
  induction ops generalizing s with
  | nil => exact ⟨rfl, [], rfl, by simp⟩
  | cons op ops ih =>
    obtain ⟨htidy, hlegal⟩ := hlegal
    have hstep := isolated_step h htidy (hothers op List.mem_cons_self) hb hactive
    have hb' : b ∈ clients (step e s op).2 g := by rwa [clients, hstep.fe]
    obtain ⟨hfe, l', hl', hasks'⟩ := ih (h.step he op htidy) hlegal
      (fun op' hop' => hothers op' (List.mem_cons_of_mem op hop')) hb'
      (by rw [hstep.fe]; exact hactive)
    obtain ⟨l, hl, hasks⟩ := hstep.asked
    refine ⟨hfe.trans hstep.fe, l' ++ l, ?_, fun x hx => ?_⟩
    · rw [List.append_assoc, ← hl, ← hl']
      rfl
    · rcases List.mem_append.mp hx with hx | hx
      · obtain ⟨op', hop', hask⟩ := hasks' x hx
        exact ⟨op', List.mem_cons_of_mem op hop', hask⟩
      · exact ⟨op, List.mem_cons_self, hasks x hx⟩

/-- **A running front end keeps its back ends**: in a tidy run, from a state in which `g` runs or is
paused, and for as long as only other front ends are operated on, the driver of a back end of `g` is
asked for triggers only, and for none unless a front end is triggered. -/
theorem isolated_run [Inhabited P] (e : Env F B P) (he : e.shutdownHwFree = true)
    (nonatomic : B → Bool) (ops ops' : List (Op F B P))
    (h : Legal e Tidy (Card.new nonatomic) (ops ++ ops')) (g : F) (b : B)
    (hothers : ∀ op ∈ ops', g ≠ op.frontEnd) : let s := run e (Card.new nonatomic) ops
    let s' := run e (Card.new nonatomic) (ops ++ ops')
    b ∈ clients s g → (s.fe g).Active →
      s'.fe g = s.fe g ∧ ∃ l, history e b s'.calls = l ++ history e b s.calls ∧
        ∀ x ∈ l, (∃ cmd, x.1 = .trigger cmd) ∧ ∃ f cmd, Op.trigger f cmd ∈ ops' := by
  intro s s' hb hactive
  obtain ⟨hops, hops'⟩ := h.append
  obtain ⟨hfe, l, hl, hasks⟩ :=
    isolated_of_accounts he (accounts_run he hops) hops' hothers hb hactive
  rw [← run_append] at hfe hl
  refine ⟨hfe, l, hl, fun x hx => ?_⟩
  obtain ⟨op, hop, hcmd, f, cmd, rfl⟩ := hasks x hx
  exact ⟨hcmd, f, cmd, hop⟩

/-- Two front ends on one back end, the first of which runs while the other is opened, configured
and closed. -/
theorem isolated_run_shared :
    let ops : List (Op Bool Unit Unit) :=
      [.opn false 1 [()], .hwParams false (), .prepare false, .trigger false .start]
    let ops' : List (Op Bool Unit Unit) := [.opn true 1 [()], .hwParams true (), .close true]
    let s := run .obliging (Card.new fun _ => false) ops
    let s' := run .obliging (Card.new fun _ => false) (ops ++ ops')
    s'.fe false = s.fe false ∧
      ∃ l, history .obliging () s'.calls = l ++ history .obliging () s.calls ∧
        ∀ x ∈ l, (∃ cmd, x.1 = .trigger cmd) ∧ ∃ f cmd, Op.trigger f cmd ∈ ops' :=
  isolated_run .obliging rfl _
    [.opn false 1 [()], .hwParams false (), .prepare false, .trigger false .start]
    [.opn true 1 [()], .hwParams true (), .close true] (by decide) false () (by decide)
    (by decide) (.inl rfl)

/-! ## Openings that fail -/

theorem Spared.quiet (h : Spared e (fun _ => False) f g b s t) :
    history e b t.calls = history e b s.calls := by
  obtain ⟨l, hl, hQ⟩ := h.asked
  obtain rfl : l = [] := List.eq_nil_iff_forall_not_mem.mpr hQ
  exact hl

theorem dpcmFeDaiCleanup_clients : clients (dpcmFeDaiCleanup f s) f = [] := by
  have hfree : ∀ d ∈ ((s.modFe f fun x =>
      { x with beClients := x.beClients.map fun d => { d with state := .free } }).fe f).beClients,
      d.state = .free := by simp
  unfold dpcmFeDaiCleanup
  dsimp only
  rw [clients, Card.modFe_fe_self, dpcmBeDisconnect, dpcmBeDisconnect_fe hfree,
    Function.update_self, List.map_eq_nil_iff, List.filter_eq_nil_iff]
  intro d hd
  simpa using List.mem_map_of_mem (f := Link.be) hd

theorem dpcmFeDaiOpen_failed {paths : Int} {list : List B} (hnone : clients s f = [])
    (h : (dpcmFeDaiOpen e f paths list s).1 < 0) :
    clients (dpcmFeDaiOpen e f paths list s).2 f = [] := by
  unfold dpcmFeDaiOpen at h ⊢
  dsimp only at h ⊢
  split at h
  · next hpaths =>
    rw [if_pos hpaths, clients, Card.modFe_fe_self]
    exact hnone
  · next hpaths =>
    rw [if_neg hpaths, if_pos h, clients, dpcmClearPendingState_spec.1]
    exact dpcmFeDaiCleanup_clients

/-- **An opening is all or nothing**: in a tidy run, it makes no call to the driver of a back end in
use, and one that fails leaves the links, the counts of users and the phases of all drivers as they
were. -/
theorem open_run [Inhabited P] (e : Env F B P) (he : e.shutdownHwFree = true)
    (nonatomic : B → Bool) (ops : List (Op F B P)) (f : F) (paths : Int) (list : List B)
    (h : Legal e Tidy (Card.new nonatomic) (ops ++ [.opn f paths list])) :
    let s := run e (Card.new nonatomic) ops
    let r := step e s (.opn f paths list)
    (∀ b, (s.be b).users ≠ 0 → history e b r.2.calls = history e b s.calls) ∧
      (r.1 < 0 → (∀ g, clients r.2 g = clients s g) ∧
        ∀ b, (r.2.be b).users = (s.be b).users ∧ (r.2.be b).feClients = (s.be b).feClients ∧
          driverPhase (history e b r.2.calls) = driverPhase (history e b s.calls)) := by
  intro s r
  obtain ⟨hops, ⟨⟨hnone, hroom⟩, -⟩⟩ := h.append
  have hacc : Accounts s := accounts_run he hops
  have hf := hacc.not_linked hnone
  have hfit : ∀ b ∈ list, (s.be b).Fit := fun b hb => hacc.fit (hroom b hb)
  refine ⟨fun b hu => ?_, fun hret => ⟨fun g => ?_, fun b => ?_⟩⟩
  · obtain ⟨g, hg⟩ := List.exists_mem_of_ne_nil _ (mt (hacc.be b).unlinked_iff.mpr hu)
    have hne : g ≠ f := fun hgf => hf b (hgf ▸ hg)
    have hpos : 0 < (s.be b).users := by
      have := (hacc.be b).users_nonneg
      omega
    exact (dpcmFeDaiOpen_spared hne (hacc.quiet f) hnone hfit hg hpos).quiet
  · obtain ⟨links, runtime, state, -, -, hfe⟩ :=
      (dpcmFeDaiOpen_spec (e := e) (hacc.quiet f) hnone hfit hf).fe
    by_cases hg : g = f
    · subst hg
      exact (dpcmFeDaiOpen_failed hnone hret).trans hnone.symm
    · exact clients_of_ne hfe hg
  · have hkept : Kept (s.be b) (r.2.be b) := by
      apply (dpcmFeDaiOpen_spec (e := e) (hacc.quiet f) hnone hfit hf).off
      rw [dpcmFeDaiOpen_failed hnone hret]
      exact List.not_mem_nil
    refine ⟨hkept.users, hkept.feClients, ?_⟩
    have hphase : driverPhase (history e b s.calls) = some (s.be b).state.phase :=
      (tracked_run e nonatomic ops b).phase
    have hphase' : driverPhase (history e b r.2.calls) = some (r.2.be b).state.phase := by
      have htracked := tracked_run e nonatomic (ops ++ [.opn f paths list]) b
      rw [run_append] at htracked
      exact htracked.phase
    rw [hphase, hphase']
    by_cases hu : (s.be b).users = 0
    · have hclosed := (hacc.be b).closed.mp hu
      rw [phase_eq_closed_iff.mpr hclosed, phase_eq_closed_iff.mpr (hkept.unused hu hclosed)]
    · rw [(hkept.inUse hu).1]

/-- A front end that cannot be opened, on a back end that another one has opened. -/
theorem open_run_shared : let e : Env Bool Unit Unit :=
      { Env.obliging with
        reply := fun calls => if calls.head? = some (.fe true .opn) then -1 else 0 }
    let s := run e (Card.new fun _ => false) [.opn false 1 [()]]
    let r := step e s (.opn true 1 [()])
    (∀ b, (s.be b).users ≠ 0 → history e b r.2.calls = history e b s.calls) ∧
      (r.1 < 0 → (∀ g, clients r.2 g = clients s g) ∧
        ∀ b, (r.2.be b).users = (s.be b).users ∧ (r.2.be b).feClients = (s.be b).feClients ∧
          driverPhase (history e b r.2.calls) = driverPhase (history e b s.calls)) :=
  open_run _ rfl _ [.opn false 1 [()]] true 1 [()] (by decide)

end NoteNew.Dpcm
