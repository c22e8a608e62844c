import NoteNew.Dpcm.Configuring

/-!
# What triggering does

A trigger changes the state of a back end and its two counts, never its users and links, and leaves
it open or closed as it was: `SameUse`. One that succeeds, on back ends whose counts are right, adds
what `TriggerCmd.deltas` says to the counts, and the state of the back end is read off them.
-/

namespace NoteNew.Dpcm

open Iteration

set_option linter.unusedSectionVars false

variable {F B P : Type*} [DecidableEq F] [DecidableEq B]

/-- The users and links of a back end are as they were, and it is open or closed as it was. -/
structure SameUse (x x' : BeRuntime F P) : Prop where
  users : x'.users = x.users
  feClients : x'.feClients = x.feClients
  substreamRuntime : x'.substreamRuntime = x.substreamRuntime
  closed : x'.Closed ↔ x.Closed

theorem SameUse.refl (x : BeRuntime F P) : SameUse x x :=
  ⟨rfl, rfl, rfl, .rfl⟩

theorem SameUse.trans {x x' x'' : BeRuntime F P} (h : SameUse x x') (h' : SameUse x' x'') :
    SameUse x x'' where
  users := h'.users.trans h.users
  feClients := h'.feClients.trans h.feClients
  substreamRuntime := h'.substreamRuntime.trans h.substreamRuntime
  closed := h'.closed.trans h.closed

theorem Restated.sameUse {x x' : BeRuntime F P} (h : Restated x x')
    (hclosed : x'.Closed ↔ x.Closed) : SameUse x x' :=
  ⟨h.users, h.feClients, h.substreamRuntime, hclosed⟩

/-- While a trigger of `f` is at work, the back end `b` and what `f` knows of its pause change. -/
structure Touched (f : F) (b : B) (s s' : Card F B P) : Prop where
  fe : ∃ fePause, s'.fe = Function.update s.fe f { s.fe f with fePause := fePause }
  use : SameUse (s.be b) (s'.be b)
  off : ∀ b' ≠ b, s'.be b' = s.be b'

variable {e : Env F B P} {s t t' : Card F B P} {f : F} {b : B} {cmd : TriggerCmd}

namespace Touched

theorem refl (s : Card F B P) : Touched f b s s :=
  ⟨⟨(s.fe f).fePause, (Function.update_eq_self f s.fe).symm⟩, .refl _, fun _ _ => rfl⟩

theorem modBe (h : Touched f b s t) {g : BeRuntime F P → BeRuntime F P}
    (hg : SameUse (t.be b) (g (t.be b))) : Touched f b s (t.modBe b g) where
  fe := h.fe
  use := by
    rw [Card.modBe_be_self]
    exact h.use.trans hg
  off b' hb' := by rw [Card.modBe_be_of_ne _ _ hb', h.off b' hb']

/-- The counts may change in any way. -/
theorem count (h : Touched f b s t) {g : BeRuntime F P → BeRuntime F P}
    (hg : ∀ x, ∃ beStart bePause, g x = { x with beStart := beStart, bePause := bePause }) :
    Touched f b s (t.modBe b g) := by
  apply h.modBe
  obtain ⟨beStart, bePause, hx⟩ := hg (t.be b)
  rw [hx]
  exact ⟨rfl, rfl, rfl, .rfl⟩

/-- The state may change where it is not for closed back ends. -/
theorem state (h : Touched f b s t) (hopen : ¬ (s.be b).Closed) {state : DpcmState}
    (hstate : state ∉ [.new, .close]) :
    Touched f b s (t.modBe b fun x => { x with state := state }) := by
  refine h.modBe ⟨rfl, rfl, rfl, iff_of_false ?_ ((not_congr h.use.closed).mpr hopen)⟩
  simpa [BeRuntime.Closed, not_or] using hstate

theorem pause (h : Touched f b s t) (fePause : Bool) :
    Touched f b s (t.modFe f fun x => { x with fePause := fePause }) where
  fe := by
    obtain ⟨p, hp⟩ := h.fe
    exact ⟨fePause, by rw [Card.modFe_fe, hp, Function.update_idem, Function.update_self]⟩
  use := h.use
  off := h.off

theorem call (h : Touched f b s t) (c : Call F B P) : Touched f b s (call e c t).2 :=
  ⟨h.fe, h.use, h.off⟩

end Touched

theorem beTry_touched {failed done : Card F B P → Card F B P} (h : Touched f b s t)
    (hfailed : ∀ t, Touched f b s t → Touched f b s (failed t))
    (hdone : ∀ t, Touched f b s t → Touched f b s (done t)) :
    Touched f b s (beTry e b cmd failed done t).2 := by
  unfold beTry
  dsimp only
  split
  · exact hfailed _ (h.call _)
  · exact hdone _ (h.call _)

theorem beStartOne_touched (h : Touched f b s t)
    (hopen : (t.be b).beStart = 0 → ¬ (s.be b).Closed) :
    Touched f b s (beStartOne e b cmd t).2 := by
  unfold beStartOne
  have hcount : Touched f b s (t.modBe b fun x => { x with beStart := x.beStart + 1 }) :=
    h.count fun x => ⟨_, x.bePause, rfl⟩
  dsimp only
  split
  · exact hcount
  next hfirst =>
  rw [Card.modBe_be_self] at hfirst
  have hzero : (t.be b).beStart = 0 := by
    simp only [ne_eq, not_not] at hfirst
    omega
  apply beTry_touched hcount
  · exact fun t ht => ht.count fun x => ⟨_, x.bePause, rfl⟩
  · exact fun t ht => ht.state (hopen hzero) (by simp)

theorem beStopOne_touched {state : DpcmState} (h : Touched f b s t) (hopen : ¬ (s.be b).Closed)
    (hstate : state ∉ [.new, .close]) : Touched f b s (beStopOne e b cmd state t).2 := by
  unfold beStopOne
  have hcount : Touched f b s (t.modBe b fun x => { x with beStart := x.beStart - 1 }) :=
    h.count fun x => ⟨_, x.bePause, rfl⟩
  dsimp only
  split
  · exact hcount
  apply beTry_touched hcount
  · exact fun t ht => ht.count fun x => ⟨_, x.bePause, rfl⟩
  · exact fun t ht => ht.state hopen hstate

theorem beTriggerStopLast_touched (h : Touched f b s t) (hopen : ¬ (s.be b).Closed) :
    Touched f b s (beTriggerStopLast e f b t).2 := by
  unfold beTriggerStopLast
  dsimp only
  have hleave : Touched f b s (if (t.fe f).fePause = true then
      (t.modFe f fun x => { x with fePause := false }).modBe b
        fun x => { x with bePause := x.bePause - 1 } else t) := by
    split
    · exact (h.pause false).count fun x => ⟨x.beStart, _, rfl⟩
    · exact h
  have hfailed (t' : Card F B P) (ht' : Touched f b s t') : Touched f b s
      (if (t.fe f).fePause = true then
        ((t'.modBe b fun x =>
              if x.state = .start then { x with beStart := x.beStart + 1 } else x).modFe
            f fun x => { x with fePause := true }).modBe b
          fun x => { x with bePause := x.bePause + 1 }
      else
        t'.modBe b fun x =>
          if x.state = .start then { x with beStart := x.beStart + 1 } else x) := by
    have hcount : Touched f b s
        (t'.modBe b fun x =>
          if x.state = .start then { x with beStart := x.beStart + 1 } else x) := by
      apply ht'.count
      intro x
      split
      · exact ⟨_, x.bePause, rfl⟩
      · exact ⟨x.beStart, x.bePause, rfl⟩
    split
    · exact (hcount.pause true).count fun x => ⟨x.beStart, _, rfl⟩
    · exact hcount
  generalize (if (t.fe f).fePause = true then
      (t.modFe f fun x => { x with fePause := false }).modBe b
        fun x => { x with bePause := x.bePause - 1 } else t) = t₁ at hleave ⊢
  split
  · exact beTry_touched hleave hfailed fun t ht => ht.state hopen (by simp)
  · exact beTry_touched hleave hfailed fun t ht => ht.state hopen (by simp)

theorem beTrigger_touched (cmd : TriggerCmd) (t : Card F B P) :
    Touched f b t (beTrigger e f b cmd t).2 := by
  cases cmd with
  | start =>
    unfold beTrigger
    dsimp only
    split
    · exact .refl t
    next hready =>
    refine beStartOne_touched (.refl t) fun hzero hclosed => hready ⟨hzero, ?_⟩
    rcases hclosed with h | h <;> simp [h]
  | resume =>
    unfold beTrigger
    dsimp only
    split
    · exact .refl t
    next hready =>
    refine beStartOne_touched (.refl t) fun _ hclosed => hready ?_
    rcases hclosed with h | h <;> simp [h]
  | pauseRelease =>
    unfold beTrigger
    dsimp only
    split
    · exact .refl t
    next hready =>
    refine beStartOne_touched ?_ fun hzero hclosed => hready ⟨?_, ?_⟩
    · exact ((Touched.refl t).pause false).count fun x => ⟨x.beStart, _, rfl⟩
    · simpa using hzero
    · rcases hclosed with h | h <;> simp [h]
  | drain => exact .refl t
  | stop =>
    unfold beTrigger beTriggerStop
    dsimp only
    split
    · exact .refl t
    next hready =>
    have hopen : ¬ (t.be b).Closed := by
      intro hclosed
      apply hready
      rcases hclosed with h | h <;> simp [h]
    have hcount : Touched f b t
        (t.modBe b fun x =>
          if x.state = .start then { x with beStart := x.beStart - 1 } else x) := by
      apply (Touched.refl t).count
      intro x
      split
      · exact ⟨_, x.bePause, rfl⟩
      · exact ⟨x.beStart, x.bePause, rfl⟩
    split
    · exact hcount
    · exact beTriggerStopLast_touched hcount hopen
  | suspend =>
    unfold beTrigger
    dsimp only
    split
    · exact .refl t
    next hready =>
    have hopen : ¬ (t.be b).Closed := by
      intro hclosed
      apply hready
      rcases hclosed with h | h <;> simp [h]
    exact beStopOne_touched (.refl t) hopen (by simp)
  | pausePush =>
    unfold beTrigger
    dsimp only
    split
    · exact .refl t
    next hready =>
    have hopen : ¬ (t.be b).Closed := by
      intro hclosed
      apply hready
      rcases hclosed with h | h <;> simp [h]
    refine beStopOne_touched ?_ hopen (by simp)
    exact ((Touched.refl t).pause true).count fun x => ⟨x.beStart, _, rfl⟩

/-! ## The counts -/

/-- What a command adds to `be_start` and `be_pause` of each back end. -/
def TriggerCmd.deltas : TriggerCmd → Int × Int
  | .start => (1, 0)
  | .pauseRelease => (1, -1)
  | .pausePush => (-1, 1)
  | .stop => (-1, 0)
  | .resume | .suspend | .drain => (0, 0)

/-- The states a back end takes a command in. -/
def TriggerCmd.readyStates : TriggerCmd → List DpcmState
  | .start => [.prepare, .start, .stop, .paused]
  | .pauseRelease => [.start, .paused]
  | .pausePush | .stop => [.start]
  | .resume | .suspend | .drain => []

/-- `fe_pause` behind a command that back ends were given. -/
def TriggerCmd.fePause : TriggerCmd → Bool → Bool
  | .pausePush, _ => true
  | .pauseRelease, _ => false
  | _, fePause => fePause

/-- The state of a back end that was triggered, by its counts. -/
def DpcmState.ofCounts (beStart bePause : Int) : DpcmState :=
  if beStart = 0 then if bePause = 0 then .stop else .paused else .start

/-- A back end with right counts that takes the command. -/
structure Ready (cmd : TriggerCmd) (x : BeRuntime F P) : Prop where
  beStart : 0 ≤ x.beStart
  bePause : 0 ≤ x.bePause
  start : x.beStart ≠ 0 ↔ x.state = .start
  state : x.state ∈ cmd.readyStates

/-- A back end that took the command. -/
structure Counted (cmd : TriggerCmd) (x x' : BeRuntime F P) : Prop where
  use : SameUse x x'
  beStart : x'.beStart = x.beStart + cmd.deltas.1
  bePause : x'.bePause = x.bePause + cmd.deltas.2
  state : x'.state = .ofCounts x'.beStart x'.bePause

/-- With one more front end running, the back end runs. -/
theorem Ready.up {x : BeRuntime F P} (h : Ready cmd x) (bePause : Int) :
    (if x.beStart = 0 then DpcmState.start else x.state) = .ofCounts (x.beStart + 1) bePause := by
  have := h.beStart
  rw [DpcmState.ofCounts, if_neg (show x.beStart + 1 ≠ 0 by omega)]
  exact ite_eq_left_iff.mpr fun hne => h.start.mp hne

theorem beTry_ok {failed done : Card F B P → Card F B P}
    (h : (beTry e b cmd failed done t).1 = 0) :
    (beTry e b cmd failed done t).2 = done (call e (.be b (.trigger cmd)) t).2 := by
  unfold beTry at h ⊢
  dsimp only at h ⊢
  split
  · next hret =>
    rw [if_pos hret] at h
    exact absurd h hret
  · rfl

theorem beStartOne_fe : (beStartOne e b cmd t).2.fe = t.fe := by
  unfold beStartOne beTry
  dsimp only
  split
  · rfl
  · split <;> rfl

theorem beStartOne_ok (h : (beStartOne e b cmd t).1 = 0) :
    (beStartOne e b cmd t).2.be b =
      { t.be b with
        beStart := (t.be b).beStart + 1
        state := if (t.be b).beStart = 0 then .start else (t.be b).state } := by
  unfold beStartOne at h ⊢
  simp only [Card.modBe_be_self] at h ⊢
  by_cases hzero : (t.be b).beStart = 0
  · have hfirst : ¬ (t.be b).beStart + 1 ≠ 1 := by omega
    rw [if_neg hfirst] at h ⊢
    rw [beTry_ok h, if_pos hzero]
    simp
  · have hfirst : (t.be b).beStart + 1 ≠ 1 := by omega
    rw [if_pos hfirst, if_neg hzero, Card.modBe_be_self]

theorem beStopOne_fe {state : DpcmState} : (beStopOne e b cmd state t).2.fe = t.fe := by
  unfold beStopOne beTry
  dsimp only
  split
  · rfl
  · split <;> rfl

theorem beStopOne_ok {state : DpcmState} (h : (beStopOne e b cmd state t).1 = 0) :
    (beStopOne e b cmd state t).2.be b =
      { t.be b with
        beStart := (t.be b).beStart - 1
        state := if (t.be b).beStart - 1 = 0 then state else (t.be b).state } := by
  unfold beStopOne at h ⊢
  simp only [Card.modBe_be_self] at h ⊢
  by_cases hzero : (t.be b).beStart - 1 = 0
  · rw [if_neg (not_not.mpr hzero)] at h ⊢
    rw [beTry_ok h, if_pos hzero]
    simp
  · rw [if_pos hzero, if_neg hzero, Card.modBe_be_self]

section Ready

variable (hready : Ready cmd (t.be b)) (hpause : cmd = .stop → (t.fe f).fePause = false)
include hready hpause

theorem beTrigger_fe : (beTrigger e f b cmd t).2.fe = Function.update t.fe f
    { t.fe f with fePause := cmd.fePause (t.fe f).fePause } := by
  have hstate := hready.state
  have hsame : t.fe = Function.update t.fe f (t.fe f) := (Function.update_eq_self f t.fe).symm
  cases cmd with
  | start =>
    have hnot : ¬ ((t.be b).beStart = 0 ∧ (t.be b).state ≠ .prepare ∧ (t.be b).state ≠ .stop ∧
        (t.be b).state ≠ .paused) := by
      rintro ⟨hzero, h⟩
      have := mt hready.start.mpr (not_not.mpr hzero)
      simp [TriggerCmd.readyStates, this, h] at hstate
    rw [beTrigger, if_neg hnot, beStartOne_fe]
    exact hsame
  | pauseRelease =>
    have hnot : ¬ ((t.be b).beStart = 0 ∧ (t.be b).state ≠ .start ∧ (t.be b).state ≠ .paused) := by
      rintro ⟨-, h⟩
      simp [TriggerCmd.readyStates, h] at hstate
    rw [beTrigger, if_neg hnot, beStartOne_fe]
    rfl
  | pausePush =>
    have hstart : (t.be b).state = .start := by simpa [TriggerCmd.readyStates] using hstate
    rw [beTrigger, if_neg (not_not.mpr hstart), beStopOne_fe]
    rfl
  | stop =>
    have hstart : (t.be b).state = .start := by simpa [TriggerCmd.readyStates] using hstate
    have hfalse := hpause rfl
    refine Eq.trans ?_ hsame
    rw [beTrigger, beTriggerStop, if_neg (by simp [hstart])]
    simp only [beTriggerStopLast, hstart, Card.modBe_be_self, Card.modBe_fe, hfalse]
    simp only [Bool.false_eq_true, if_false, if_true, beTry]
    split
    · rfl
    · split
      · split <;> rfl
      · split <;> rfl
  | resume => simp [TriggerCmd.readyStates] at hstate
  | suspend => simp [TriggerCmd.readyStates] at hstate
  | drain => simp [TriggerCmd.readyStates] at hstate

theorem beTrigger_counted (hret : (beTrigger e f b cmd t).1 = 0) :
    Counted cmd (t.be b) ((beTrigger e f b cmd t).2.be b) := by
  have hstate := hready.state
  have huse := (beTrigger_touched (e := e) (f := f) (b := b) cmd t).use
  have hnonneg := hready.beStart
  have hnonneg' := hready.bePause
  cases cmd with
  | start =>
    have hnot : ¬ ((t.be b).beStart = 0 ∧ (t.be b).state ≠ .prepare ∧ (t.be b).state ≠ .stop ∧
        (t.be b).state ≠ .paused) := by
      rintro ⟨hzero, h⟩
      have := mt hready.start.mpr (not_not.mpr hzero)
      simp [TriggerCmd.readyStates, this, h] at hstate
    rw [beTrigger, if_neg hnot] at hret huse ⊢
    rw [beStartOne_ok hret] at huse ⊢
    exact ⟨huse, rfl, (Int.add_zero _).symm, hready.up _⟩
  | pauseRelease =>
    have hnot : ¬ ((t.be b).beStart = 0 ∧ (t.be b).state ≠ .start ∧ (t.be b).state ≠ .paused) := by
      rintro ⟨-, h⟩
      simp [TriggerCmd.readyStates, h] at hstate
    rw [beTrigger, if_neg hnot] at hret huse ⊢
    rw [beStartOne_ok hret] at huse ⊢
    simp only [Card.modBe_be_self] at huse ⊢
    exact ⟨huse, rfl, rfl, hready.up _⟩
  | pausePush =>
    have hstart : (t.be b).state = .start := by simpa [TriggerCmd.readyStates] using hstate
    rw [beTrigger, if_neg (not_not.mpr hstart)] at hret huse ⊢
    rw [beStopOne_ok hret] at huse ⊢
    simp only [Card.modBe_be_self] at huse ⊢
    refine ⟨huse, rfl, rfl, ?_⟩
    have hpaused : (t.be b).bePause + 1 ≠ 0 := by omega
    by_cases hlast : (t.be b).beStart - 1 = 0
    · simp [DpcmState.ofCounts, hlast, hpaused]
    · simp [DpcmState.ofCounts, hlast, hstart]
  | stop =>
    have hstart : (t.be b).state = .start := by simpa [TriggerCmd.readyStates] using hstate
    have hfalse := hpause rfl
    rw [beTrigger, beTriggerStop, if_neg (by simp [hstart])] at hret huse ⊢
    simp only [beTriggerStopLast, hstart, Card.modBe_be_self, Card.modBe_fe, hfalse,
      Bool.false_eq_true, if_false, if_true] at hret huse ⊢
    by_cases hlast : (t.be b).beStart - 1 = 0
    · rw [if_neg (not_not.mpr hlast)] at hret huse ⊢
      by_cases hnone : (t.be b).bePause = 0
      · rw [if_neg (not_not.mpr hnone)] at hret huse ⊢
        rw [beTry_ok hret] at huse ⊢
        simp only [Card.modBe_be_self, call_be, hstart, if_true] at huse ⊢
        refine ⟨huse, rfl, (Int.add_zero _).symm, ?_⟩
        simp [DpcmState.ofCounts, hlast, hnone]
      · rw [if_pos hnone] at hret huse ⊢
        rw [beTry_ok hret] at huse ⊢
        simp only [Card.modBe_be_self, call_be, hstart, if_true] at huse ⊢
        refine ⟨huse, rfl, (Int.add_zero _).symm, ?_⟩
        simp [DpcmState.ofCounts, hlast, hnone]
    · rw [if_pos hlast, Card.modBe_be_self, if_pos hstart] at huse ⊢
      refine ⟨huse, rfl, (Int.add_zero _).symm, ?_⟩
      rw [DpcmState.ofCounts, if_neg hlast]
      exact hstart
  | resume => simp [TriggerCmd.readyStates] at hstate
  | suspend => simp [TriggerCmd.readyStates] at hstate
  | drain => simp [TriggerCmd.readyStates] at hstate

end Ready

/-! ## All back ends -/

/-- A trigger of `f` has touched its back ends. -/
structure Used (f : F) (state : DpcmState) (on : BeRuntime F P → BeRuntime F P → Prop)
    (s s' : Card F B P) : Prop where
  fe : ∃ fePause, s'.fe = Function.update s.fe f { s.fe f with state := state, fePause := fePause }
  on : ∀ b ∈ clients s f, on (s.be b) (s'.be b)
  off : ∀ b ∉ clients s f, s'.be b = s.be b

theorem Used.trans_touched (h : Used f (s.fe f).state SameUse s t) (hb : b ∈ clients s f)
    (h' : Touched f b t t') : Used f (s.fe f).state SameUse s t' := by
  obtain ⟨p, hp⟩ := h.fe
  obtain ⟨p', hp'⟩ := h'.fe
  refine ⟨⟨p', ?_⟩, fun c hc => ?_, fun c hc => ?_⟩
  · rw [hp', hp, Function.update_idem, Function.update_self]
  · by_cases hcb : c = b
    · subst hcb
      exact (h.on c hc).trans h'.use
    · rw [h'.off c hcb]
      exact h.on c hc
  · rw [h'.off c fun hcb => hc (hcb ▸ hb), h.off c hc]

theorem dpcmBeDaiTrigger_state :
    (dpcmBeDaiTrigger e f cmd s).2 =
      (each (dpcmBeDaiTriggerBody e f cmd) (s.fe f).beClients s).state := by
  unfold dpcmBeDaiTrigger
  dsimp only
  split <;> rfl

theorem dpcmBeDaiTrigger_used (cmd : TriggerCmd) :
    Used f (s.fe f).state SameUse s (dpcmBeDaiTrigger e f cmd s).2 := by
  rw [dpcmBeDaiTrigger_state]
  refine each_keeps (P := Used f (s.fe f).state SameUse s) ?_ ?_
  · exact ⟨⟨(s.fe f).fePause, (Function.update_eq_self f s.fe).symm⟩, fun _ _ => .refl _,
      fun _ _ => rfl⟩
  · intro dpcm hdpcm t ht
    unfold dpcmBeDaiTriggerBody
    dsimp only
    split
    · exact ht
    · exact ht.trans_touched (List.mem_map_of_mem hdpcm) (beTrigger_touched cmd t)

/-- The front end, when all its back ends took a command: `fe_pause` is set where there are any. -/
def TriggerCmd.onFe (cmd : TriggerCmd) (x : FeRuntime F B P) : FeRuntime F B P :=
  { x with fePause := if x.beClients = [] then x.fePause else cmd.fePause x.fePause }

theorem TriggerCmd.fePause_idem (cmd : TriggerCmd) (p : Bool) :
    cmd.fePause (cmd.fePause p) = cmd.fePause p := by
  cases cmd <;> rfl

theorem dpcmBeDaiTriggerBody_err {dpcm : Link B} {err : Int}
    (h : (dpcmBeDaiTriggerBody e f cmd dpcm t).1 = some err) :
    err = (beTrigger e f dpcm.be cmd t).1 ∧ err ≠ 0 := by
  unfold dpcmBeDaiTriggerBody at h
  grind

theorem dpcmBeDaiTrigger_ended (h : (dpcmBeDaiTrigger e f cmd s).1 = 0) :
    (each (dpcmBeDaiTriggerBody e f cmd) (s.fe f).beClients s).left = none := by
  unfold dpcmBeDaiTrigger at h
  cases hleft : (each (dpcmBeDaiTriggerBody e f cmd) (s.fe f).beClients s).left with
  | none => rfl
  | some r =>
    obtain ⟨dpcm, err⟩ := r
    obtain ⟨t, ht⟩ := each_left hleft
    simp only [hleft] at h
    exact absurd h (dpcmBeDaiTriggerBody_err ht).2

theorem Ready.moves {x x' : BeRuntime F P} (h : Ready cmd x) (h' : Counted cmd x x') : x' ≠ x := by
  have hdelta : cmd.deltas.1 ≠ 0 := by
    have hstate := h.state
    cases cmd <;> simp [TriggerCmd.readyStates, TriggerCmd.deltas] at hstate ⊢
  rintro rfl
  have := h'.beStart
  omega

theorem dpcmBeDaiTrigger_counted (hupdate : (s.fe f).runtimeUpdate = .fe)
    (hl : (clients s f).Nodup) (hready : ∀ b ∈ clients s f, Ready cmd (s.be b))
    (hpause : cmd = .stop → (s.fe f).fePause = false) (hret : (dpcmBeDaiTrigger e f cmd s).1 = 0) :
    (dpcmBeDaiTrigger e f cmd s).2.fe = Function.update s.fe f (cmd.onFe (s.fe f)) ∧
    ∀ b, (b ∈ clients s f → Counted cmd (s.be b) ((dpcmBeDaiTrigger e f cmd s).2.be b)) ∧
      (b ∉ clients s f → (dpcmBeDaiTrigger e f cmd s).2.be b = s.be b) := by
  let paused := Function.update s.fe f { s.fe f with fePause := cmd.fePause (s.fe f).fePause }
  have hp : Pointwise Link.be Card.be
      (fun t => t.fe = s.fe ∧ t.be = s.be ∨ t.fe = paused) (fun _ => Counted cmd)
      (fun _ _ _ => True) (s.fe f).beClients s
      (each (dpcmBeDaiTriggerBody e f cmd) (s.fe f).beClients s) := by
    refine each_pointwise hl (.inl ⟨rfl, rfl⟩) ?_
    intro dpcm hdpcm t ht hsame
    have htf : ∃ p, t.fe f = { s.fe f with fePause := p } ∧
        cmd.fePause p = cmd.fePause (s.fe f).fePause ∧ (cmd = .stop → p = false) := by
      rcases ht with ⟨ht, -⟩ | ht
      · exact ⟨(s.fe f).fePause, by rw [ht], rfl, hpause⟩
      · refine ⟨_, by rw [ht]; exact Function.update_self .., cmd.fePause_idem _, ?_⟩
        rintro rfl
        exact hpause rfl
    obtain ⟨p, htf, hp, hstop⟩ := htf
    have hreadyt : Ready cmd (t.be dpcm.be) := by
      rw [hsame]
      exact hready _ (List.mem_map_of_mem hdpcm)
    have hpauset : cmd = .stop → (t.fe f).fePause = false := by
      rw [htf]
      exact hstop
    have hcan : sndSocDpcmBeCanUpdate t f dpcm.be = true := by
      apply sndSocDpcmBeCanUpdate_of_fe
      rw [htf]
      exact hupdate
    have hfe := beTrigger_fe (e := e) hreadyt hpauset
    have hbody : dpcmBeDaiTriggerBody e f cmd dpcm t =
        (if (beTrigger e f dpcm.be cmd t).1 ≠ 0 then some (beTrigger e f dpcm.be cmd t).1 else none,
          (beTrigger e f dpcm.be cmd t).2) := by
      simp only [dpcmBeDaiTriggerBody, hcan, Bool.not_true, Bool.false_eq_true, if_false]
    rw [hbody]
    refine ⟨.inr ?_, fun b hb => ?_, fun hnone => ?_, fun _ _ => trivial⟩
    · rw [hfe, htf, hp]
      rcases ht with ⟨ht, -⟩ | ht
      · rw [ht]
      · rw [ht, Function.update_idem]
    · exact (beTrigger_touched cmd t).off b hb.symm
    · rw [← hsame]
      refine beTrigger_counted hreadyt hpauset ?_
      by_contra hne
      simp [hne] at hnone
  have hleft := dpcmBeDaiTrigger_ended hret
  rw [dpcmBeDaiTrigger_state]
  refine ⟨?_, fun b => hp.of_ended hleft b⟩
  by_cases hnone : (s.fe f).beClients = []
  · have hend : (each (dpcmBeDaiTriggerBody e f cmd) (s.fe f).beClients s).state = s := by
      rw [hnone]
      rfl
    rw [hend, TriggerCmd.onFe, if_pos hnone]
    exact (Function.update_eq_self f s.fe).symm
  · rw [TriggerCmd.onFe, if_neg hnone]
    refine hp.frame.resolve_left fun ⟨_, hbe⟩ => ?_
    obtain ⟨dpcm, hdpcm⟩ := List.exists_mem_of_ne_nil _ hnone
    have hmem : dpcm.be ∈ clients s f := List.mem_map_of_mem hdpcm
    exact (hready _ hmem).moves ((hp.of_ended hleft _).1 hmem) (congrFun hbe _)

/-! ## The front end -/

/-- A driver answers a trigger with zero or an error. -/
def Env.TriggerReplies (e : Env F B P) : Prop :=
  ∀ b cmd past, e.reply (.be b (.trigger cmd) :: past) ≤ 0

theorem beTry_nonpos (he : e.TriggerReplies) {failed done : Card F B P → Card F B P} :
    (beTry e b cmd failed done t).1 ≤ 0 := by
  unfold beTry
  dsimp only
  split
  · exact he b cmd t.calls
  · exact Int.le_refl 0

theorem beTrigger_nonpos (he : e.TriggerReplies) : (beTrigger e f b cmd t).1 ≤ 0 := by
  have hstart (cmd : TriggerCmd) (t : Card F B P) : (beStartOne e b cmd t).1 ≤ 0 := by
    unfold beStartOne
    dsimp only
    split
    · exact Int.le_refl 0
    · exact beTry_nonpos he
  have hstop (cmd : TriggerCmd) (state : DpcmState) (t : Card F B P) :
      (beStopOne e b cmd state t).1 ≤ 0 := by
    unfold beStopOne
    dsimp only
    split
    · exact Int.le_refl 0
    · exact beTry_nonpos he
  have hlast (t : Card F B P) : (beTriggerStopLast e f b t).1 ≤ 0 := by
    unfold beTriggerStopLast
    dsimp only
    generalize (if (t.fe f).fePause = true then
        (t.modFe f fun x => { x with fePause := false }).modBe b
          fun x => { x with bePause := x.bePause - 1 } else t) = t₁
    split
    · exact beTry_nonpos he
    · exact beTry_nonpos he
  unfold beTrigger beTriggerStop
  grind

theorem dpcmBeDaiTrigger_nonpos (he : e.TriggerReplies) : (dpcmBeDaiTrigger e f cmd s).1 ≤ 0 := by
  unfold dpcmBeDaiTrigger
  dsimp only
  split
  · exact Int.le_refl 0
  · next dpcm err hleft =>
    obtain ⟨t, ht⟩ := each_left hleft
    rw [(dpcmBeDaiTriggerBody_err ht).1]
    exact beTrigger_nonpos he

theorem dpcmFeDaiTriggerOrder_used (cmd : TriggerCmd) :
    Used f (s.fe f).state SameUse s (dpcmFeDaiTriggerOrder e f cmd s).2 := by
  have hcall (c : Call F B P) (t : Card F B P) (h : Used f (s.fe f).state SameUse s t) :
      Used f (s.fe f).state SameUse s (call e c t).2 :=
    ⟨h.fe, h.on, h.off⟩
  have hself : Used f (s.fe f).state SameUse s s :=
    ⟨⟨(s.fe f).fePause, (Function.update_eq_self f s.fe).symm⟩, fun _ _ => .refl _, fun _ _ => rfl⟩
  have horder (feFirst : Bool) :
      Used f (s.fe f).state SameUse s (dpcmDaiTriggerFeBe e f cmd feFirst s).2 := by
    unfold dpcmDaiTriggerFeBe
    dsimp only
    split
    · split
      · exact hcall _ s hself
      · have hbe := dpcmBeDaiTrigger_used (e := e) (f := f) cmd
          (s := (call e (.fe f (.trigger cmd)) s).2)
        exact ⟨hbe.fe, hbe.on, hbe.off⟩
    · split
      · exact dpcmBeDaiTrigger_used cmd
      · exact hcall _ _ (dpcmBeDaiTrigger_used cmd)
  unfold dpcmFeDaiTriggerOrder
  split
  · exact horder _
  · exact horder _
  · exact hcall _ s hself

theorem dpcmFeDaiTrigger_used (hq : (s.fe f).Quiet) :
    Used f (if (dpcmFeDaiTrigger e f cmd s).1 < 0 then (s.fe f).state
      else cmd.feState (s.fe f).state) SameUse s (dpcmFeDaiTrigger e f cmd s).2 := by
  unfold dpcmFeDaiTrigger
  rw [if_neg (not_not.mpr hq.runtimeUpdate)]
  unfold dpcmFeDaiDoTrigger
  dsimp only
  set s₁ := s.modFe f fun x => { x with runtimeUpdate := .fe } with hs₁
  have hfe₁ : s₁.fe = Function.update s.fe f { s.fe f with runtimeUpdate := .fe } := rfl
  have hclients : clients s₁ f = clients s f := by
    rw [clients, hfe₁, Function.update_self, clients]
  obtain ⟨⟨p, hp⟩, hon, hoff⟩ := dpcmFeDaiTriggerOrder_used (e := e) (f := f) (s := s₁) cmd
  rw [hclients] at hon hoff
  rw [hfe₁, Function.update_idem, Function.update_self] at hp
  generalize dpcmFeDaiTriggerOrder e f cmd s₁ = r at hp hon hoff
  split
  · refine ⟨⟨p, ?_⟩, hon, hoff⟩
    rw [Card.modFe_fe, hp, Function.update_idem, Function.update_self, ← hq.runtimeUpdate]
  · refine ⟨⟨p, ?_⟩, hon, hoff⟩
    rw [Card.modFe_fe, Card.modFe_fe, hp, Function.update_idem, Function.update_idem,
      Function.update_self, Function.update_self, ← hq.runtimeUpdate]

/-- Whichever comes first, where a trigger succeeds the back ends took the command. -/
theorem dpcmFeDaiTriggerOrder_ok (horder : e.trigger f ≠ .bespoke) (he : e.TriggerReplies)
    (hret : 0 ≤ (dpcmFeDaiTriggerOrder e f cmd s).1) :
    ∃ t : Card F B P, t.fe = s.fe ∧ t.be = s.be ∧ (dpcmBeDaiTrigger e f cmd t).1 = 0 ∧
      (dpcmFeDaiTriggerOrder e f cmd s).2.fe = (dpcmBeDaiTrigger e f cmd t).2.fe ∧
      (dpcmFeDaiTriggerOrder e f cmd s).2.be = (dpcmBeDaiTrigger e f cmd t).2.be := by
  obtain ⟨feFirst, hfirst⟩ : ∃ feFirst,
      dpcmFeDaiTriggerOrder e f cmd s = dpcmDaiTriggerFeBe e f cmd feFirst s := by
    unfold dpcmFeDaiTriggerOrder
    cases h : e.trigger f with
    | pre => exact ⟨_, rfl⟩
    | post => exact ⟨_, rfl⟩
    | bespoke => exact absurd h horder
  rw [hfirst] at hret ⊢
  unfold dpcmDaiTriggerFeBe at hret ⊢
  dsimp only at hret ⊢
  cases feFirst with
  | true =>
    rw [if_pos rfl] at hret ⊢
    by_cases hfe : (call e (.fe f (.trigger cmd)) s).1 < 0
    · rw [if_pos hfe] at hret
      exact absurd hfe (Int.not_lt.mpr hret)
    · rw [if_neg hfe] at hret ⊢
      exact ⟨(call e (.fe f (.trigger cmd)) s).2, rfl, rfl,
        Int.le_antisymm (dpcmBeDaiTrigger_nonpos he) hret, rfl, rfl⟩
  | false =>
    rw [if_neg Bool.false_ne_true] at hret ⊢
    by_cases hbe : (dpcmBeDaiTrigger e f cmd s).1 < 0
    · rw [if_pos hbe] at hret
      exact absurd hbe (Int.not_lt.mpr hret)
    · rw [if_neg hbe]
      exact ⟨s, rfl, rfl, Int.le_antisymm (dpcmBeDaiTrigger_nonpos he) (Int.not_lt.mp hbe),
        rfl, rfl⟩

/-- A trigger that succeeds, of a front end whose back ends are ready for it. -/
theorem dpcmFeDaiTrigger_counted (hq : (s.fe f).Quiet) (hl : (clients s f).Nodup)
    (hready : ∀ b ∈ clients s f, Ready cmd (s.be b))
    (hpause : cmd = .stop → (s.fe f).fePause = false) (horder : e.trigger f ≠ .bespoke)
    (he : e.TriggerReplies) (hret : 0 ≤ (dpcmFeDaiTrigger e f cmd s).1) :
    (dpcmFeDaiTrigger e f cmd s).2.fe = Function.update s.fe f
      { cmd.onFe (s.fe f) with state := cmd.feState (s.fe f).state } ∧
    ∀ b, (b ∈ clients s f → Counted cmd (s.be b) ((dpcmFeDaiTrigger e f cmd s).2.be b)) ∧
      (b ∉ clients s f → (dpcmFeDaiTrigger e f cmd s).2.be b = s.be b) := by
  unfold dpcmFeDaiTrigger at hret ⊢
  rw [if_neg (not_not.mpr hq.runtimeUpdate)] at hret ⊢
  unfold dpcmFeDaiDoTrigger at hret ⊢
  dsimp only at hret ⊢
  set s₁ := s.modFe f fun x => { x with runtimeUpdate := .fe } with hs₁
  have hfe₁ : s₁.fe = Function.update s.fe f { s.fe f with runtimeUpdate := .fe } := rfl
  have hclients : clients s₁ f = clients s f := by
    rw [clients, hfe₁, Function.update_self, clients]
  obtain ⟨t, htfe, htbe, hzero, hfe', hbe'⟩ := dpcmFeDaiTriggerOrder_ok horder he hret
  have htclients : clients t f = clients s f := by rw [clients, htfe, ← clients, hclients]
  have htf : t.fe f = { s.fe f with runtimeUpdate := .fe } := by
    rw [htfe, hfe₁, Function.update_self]
  obtain ⟨hcfe, hcbe⟩ := dpcmBeDaiTrigger_counted (e := e) (s := t) (f := f)
    (by rw [htf]) (by rwa [htclients])
    (by rw [htclients, htbe]; exact hready) (by rw [htf]; exact hpause) hzero
  rw [htclients, htbe] at hcbe
  rw [htf, htfe, hfe₁, Function.update_idem] at hcfe
  rw [if_neg (Int.not_lt.mpr hret)]
  constructor
  · rw [Card.modFe_fe, Card.modFe_fe, hfe', hcfe, Function.update_idem, Function.update_idem,
      Function.update_self, Function.update_self, ← hq.runtimeUpdate]
    rfl
  · rw [Card.modFe_be, Card.modFe_be, hbe']
    exact hcbe

end NoteNew.Dpcm
