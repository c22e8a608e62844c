import NoteNew.Dpcm.Opening

/-!
# What linking does

A front end is linked to its back ends when it is opened, and to none when it is closed or could not
be opened.
-/

namespace NoteNew.Dpcm

open Iteration

set_option linter.unusedSectionVars false

variable {F B P : Type*} [DecidableEq F] [DecidableEq B]

namespace BeRuntime

/-- A back end that is linked to `f`. -/
def linked (x : BeRuntime F P) (f : F) (nonatomic : Bool) : BeRuntime F P :=
  { x with
    nonatomic := nonatomic, runtime := some f, feClients := f :: x.feClients,
    runtimeUpdate := .be }

/-- A back end that the link to `f` is taken from. If it stays in use, its substream has the runtime
of another front end. -/
def unlinked (x : BeRuntime F P) (f : F) : BeRuntime F P :=
  { x with
    substreamRuntime :=
      if x.users = 0 then x.substreamRuntime
      else (x.feClients.find? fun g => g != f).or x.substreamRuntime
    feClients := x.feClients.filter fun g => g != f }

end BeRuntime

variable {e : Env F B P} {s t : Card F B P} {f : F} {b : B} {list : List B}

/-! ## Linking -/

theorem mem_clients_iff : b ∈ clients s f ↔ ∃ dpcm ∈ (s.fe f).beClients, dpcm.be = b := by
  simp [clients]

theorem dpcmBeConnect_spec :
    (dpcmBeConnect e f b t).1 ≤ 0 ∧ (dpcmBeConnect e f b t).2.fe = t.fe ∧
      (∃ nonatomic, (dpcmBeConnect e f b t).2.be =
        Function.update t.be b { t.be b with nonatomic := nonatomic }) ∨
    (dpcmBeConnect e f b t).1 = 1 ∧ b ∉ clients t f ∧
      (dpcmBeConnect e f b t).2.fe =
        Function.update t.fe f { t.fe f with beClients := ⟨b, .new⟩ :: (t.fe f).beClients } ∧
      ∃ nonatomic, (dpcmBeConnect e f b t).2.be =
        Function.update t.be b
          { t.be b with
            nonatomic := nonatomic, runtime := (t.fe f).runtime
            feClients := f :: (t.be b).feClients } := by
  unfold dpcmBeConnect
  have hsame : t.be = Function.update t.be b { t.be b with nonatomic := (t.be b).nonatomic } :=
    (Function.update_eq_self b t.be).symm
  split
  · exact .inl ⟨Int.le_refl 0, rfl, _, hsame⟩
  next hnew =>
  split
  · exact .inl ⟨by simp [EINVAL], rfl, _, hsame⟩
  have hatomic : ∃ nonatomic,
      (if (e.feNonatomic f && !(t.be b).nonatomic) = true then { t.be b with nonatomic := true }
        else t.be b) = { t.be b with nonatomic := nonatomic } := by
    split
    · exact ⟨true, rfl⟩
    · exact ⟨_, rfl⟩
  obtain ⟨nonatomic, hna⟩ := hatomic
  dsimp only
  split
  · refine .inl ⟨by simp [ENOMEM], rfl, nonatomic, ?_⟩
    rw [call_be, Card.modBe_be, hna]
  · refine .inr ⟨rfl, ?_, rfl, nonatomic, ?_⟩
    · simpa [mem_clients_iff] using hnew
    · rw [Card.modFe_be, Card.modBe_be, call_be, Card.modBe_be, hna, Function.update_idem,
        Function.update_self]
      rfl

/-- `f` has been linked to back ends of the list, and each of these to `f`. -/
structure Linked (f : F) (list : List B) (s s' : Card F B P) : Prop where
  fe : ∃ links, s'.fe = Function.update s.fe f { s.fe f with beClients := links }
  nodup : (clients s' f).Nodup
  sub : ∀ b ∈ clients s' f, b ∈ list
  on : ∀ b ∈ clients s' f, ∃ nonatomic, s'.be b = (s.be b).linked f nonatomic
  off : ∀ b ∉ clients s' f, ∃ nonatomic, s'.be b = { s.be b with nonatomic := nonatomic }

theorem Linked.refl (h : clients s f = []) : Linked f list s s where
  fe := ⟨_, (Function.update_eq_self f s.fe).symm⟩
  nodup := by simp [h]
  sub := by simp [h]
  on := by simp [h]
  off b _ := ⟨(s.be b).nonatomic, rfl⟩

/-- A back end that the front end has no link to may have become nonatomic. -/
theorem Linked.atomic {t' : Card F B P} {nonatomic : Bool} (h : Linked f list s t)
    (hfe : t'.fe = t.fe)
    (hbe : t'.be = Function.update t.be b { t.be b with nonatomic := nonatomic }) :
    Linked f list s t' := by
  have hclients : clients t' f = clients t f := by rw [clients, hfe, clients]
  refine ⟨by rw [hfe]; exact h.fe, by rw [hclients]; exact h.nodup,
    by rw [hclients]; exact h.sub, fun c hc => ?_, fun c hc => ?_⟩
  · rw [hclients] at hc
    obtain ⟨na, hon⟩ := h.on c hc
    by_cases hcb : c = b
    · subst hcb
      exact ⟨nonatomic, by rw [hbe, Function.update_self, hon]; rfl⟩
    · exact ⟨na, by rw [hbe, Function.update_of_ne hcb, hon]⟩
  · rw [hclients] at hc
    obtain ⟨na, hoff⟩ := h.off c hc
    by_cases hcb : c = b
    · subst hcb
      exact ⟨nonatomic, by rw [hbe, Function.update_self, hoff]⟩
    · exact ⟨na, by rw [hbe, Function.update_of_ne hcb, hoff]⟩

theorem Linked.link {t' : Card F B P} (nonatomic : Bool) (h : Linked f list s t) (hb : b ∈ list)
    (hnew : b ∉ clients t f)
    (hfe : t'.fe =
      Function.update t.fe f { t.fe f with beClients := ⟨b, .new⟩ :: (t.fe f).beClients })
    (hbe : t'.be = Function.update t.be b ((t.be b).linked f nonatomic)) :
    Linked f list s t' := by
  have hclients : clients t' f = b :: clients t f := by
    rw [clients, hfe, Function.update_self]
    rfl
  obtain ⟨links, htfe⟩ := h.fe
  obtain ⟨na, hoff⟩ := h.off b hnew
  refine ⟨?_, ?_, fun c hc => ?_, fun c hc => ?_, fun c hc => ?_⟩
  · refine ⟨⟨b, .new⟩ :: links, ?_⟩
    rw [hfe, htfe, Function.update_idem, Function.update_self]
  · rw [hclients]
    exact List.nodup_cons.mpr ⟨hnew, h.nodup⟩
  · rw [hclients] at hc
    rcases List.mem_cons.mp hc with rfl | hc
    · exact hb
    · exact h.sub c hc
  · rw [hclients] at hc
    by_cases hcb : c = b
    · subst hcb
      exact ⟨nonatomic, by rw [hbe, Function.update_self, hoff]; rfl⟩
    · obtain ⟨na', hon⟩ := h.on c ((List.mem_cons.mp hc).resolve_left hcb)
      exact ⟨na', by rw [hbe, Function.update_of_ne hcb, hon]⟩
  · rw [hclients, List.mem_cons, not_or] at hc
    obtain ⟨na', hoff'⟩ := h.off c hc.2
    exact ⟨na', by rw [hbe, Function.update_of_ne hc.1, hoff']⟩

theorem dpcmAddPathsBody_linked {new : Int} (hr : (s.fe f).runtime = some f) (hb : b ∈ list)
    (h : Linked f list s t) : Linked f list s (dpcmAddPathsBody e f b (new, t)).2.2 := by
  unfold dpcmAddPathsBody
  simp only
  split
  · exact h
  rcases dpcmBeConnect_spec (e := e) (f := f) (b := b) (t := t) with
    ⟨hret, hfe, nonatomic, hbe⟩ | ⟨hret, hnew, hfe, nonatomic, hbe⟩
  · split
    · exact h.atomic hfe hbe
    · rw [if_pos (by omega)]
      exact h.atomic hfe hbe
  · have htr : (t.fe f).runtime = some f := by
      obtain ⟨links, htfe⟩ := h.fe
      rw [htfe, Function.update_self]
      exact hr
    rw [if_neg (by omega), if_neg (by omega)]
    refine h.link nonatomic hb hnew hfe ?_
    rw [dpcmSetBeUpdateState, Card.modBe_be, hbe, Function.update_idem, Function.update_self, htr]
    rfl

theorem dpcmAddPaths_linked (list : List B) (hr : (s.fe f).runtime = some f)
    (h : clients s f = []) :
    Linked f list s (dpcmAddPaths e f list s).2 := by
  unfold dpcmAddPaths
  rw [if_neg (by rw [hr]; simp)]
  refine each_keeps (P := fun r : Int × Card F B P => Linked f list s r.2) (.refl h) ?_
  intro b hb ⟨new, t⟩ ht
  exact dpcmAddPathsBody_linked hr hb ht

/-! ## Taking the links away -/

theorem dpcmBeReparent_spec : (dpcmBeReparent f b t).fe = t.fe ∧
    (dpcmBeReparent f b t).be = Function.update t.be b
      { t.be b with
        substreamRuntime :=
          if (t.be b).users = 0 then (t.be b).substreamRuntime
          else ((t.be b).feClients.find? fun g => g != f).or (t.be b).substreamRuntime } := by
  unfold dpcmBeReparent
  by_cases hu : (t.be b).users = 0
  · rw [if_pos hu, if_pos hu]
    exact ⟨rfl, (Function.update_eq_self b t.be).symm⟩
  · cases hfind : (t.be b).feClients.find? fun g => g != f <;> simp [hu, Card.modBe_be]

theorem dpcmBeDisconnectBody_spec {dpcm : Link B} (hfree : dpcm.state = .free) :
    (dpcmBeDisconnectBody f dpcm t).fe = Function.update t.fe f
      { t.fe f with beClients := (t.fe f).beClients.filter fun d => d.be != dpcm.be } ∧
    (dpcmBeDisconnectBody f dpcm t).be =
      Function.update t.be dpcm.be ((t.be dpcm.be).unlinked f) := by
  obtain ⟨hfe, hbe⟩ := dpcmBeReparent_spec (f := f) (b := dpcm.be) (t := t)
  unfold dpcmBeDisconnectBody
  rw [if_neg (not_not.mpr hfree)]
  constructor
  · rw [Card.modBe_fe, Card.modFe_fe, hfe]
  · rw [Card.modBe_be, Card.modFe_be, hbe, Function.update_idem, Function.update_self]
    rfl

theorem dpcmBeDisconnect_fe {l : List (Link B)} (hfree : ∀ d ∈ l, d.state = .free) :
    (l.foldl (fun s dpcm => dpcmBeDisconnectBody f dpcm s) s).fe = Function.update s.fe f
      { s.fe f with
        beClients := (s.fe f).beClients.filter fun d => decide (d.be ∉ l.map Link.be) } := by
  induction l generalizing s with
  | nil => simp
  | cons dpcm l ih =>
    obtain ⟨hfe, -⟩ := dpcmBeDisconnectBody_spec (f := f) (t := s) (hfree dpcm List.mem_cons_self)
    rw [List.foldl_cons, ih fun d hd => hfree d (List.mem_cons_of_mem _ hd), hfe,
      Function.update_self, Function.update_idem, List.filter_filter]
    have hfilter : ((s.fe f).beClients.filter fun d =>
          decide (d.be ∉ l.map Link.be) && d.be != dpcm.be) =
        (s.fe f).beClients.filter fun d => decide (d.be ∉ (dpcm :: l).map Link.be) := by
      refine List.filter_congr fun d _ => ?_
      rw [Bool.eq_iff_iff]
      simp [and_comm]
    simp only [hfilter]

theorem dpcmBeDisconnect_all (hfree : ∀ d ∈ (s.fe f).beClients, d.state = .free)
    (hl : (clients s f).Nodup) :
    (dpcmBeDisconnect f s).fe = Function.update s.fe f { s.fe f with beClients := [] } ∧
    ∀ b, (b ∈ clients s f → (dpcmBeDisconnect f s).be b = (s.be b).unlinked f) ∧
      (b ∉ clients s f → (dpcmBeDisconnect f s).be b = s.be b) := by
  constructor
  · rw [dpcmBeDisconnect, dpcmBeDisconnect_fe hfree, List.filter_eq_nil_iff.mpr]
    intro d hd
    simp only [decide_eq_true_eq, not_not]
    exact List.mem_map_of_mem hd
  · have hfold := foldl_pointwise (s := s) Card.be (fun _ => True)
      (fun t dpcm => dpcmBeDisconnectBody f dpcm t) (fun x => x.unlinked f) hl trivial
    refine (hfold ?_).2
    intro d hd t _
    obtain ⟨-, hbe⟩ := dpcmBeDisconnectBody_spec (f := f) (t := t) (hfree d hd)
    refine ⟨trivial, by rw [hbe, Function.update_self], fun b hne => ?_⟩
    rw [hbe, Function.update_of_ne hne.symm]

theorem dpcmFeDaiCleanup_spec (hl : (clients s f).Nodup) :
    (dpcmFeDaiCleanup f s).fe =
      Function.update s.fe f { s.fe f with beClients := [], runtime := none } ∧
    ∀ b, (b ∈ clients s f → (dpcmFeDaiCleanup f s).be b = (s.be b).unlinked f) ∧
      (b ∉ clients s f → (dpcmFeDaiCleanup f s).be b = s.be b) := by
  unfold dpcmFeDaiCleanup
  dsimp only
  set t := s.modFe f fun x =>
    { x with beClients := x.beClients.map fun d => { d with state := .free } } with ht
  have hclients : clients t f = clients s f := by
    simp [clients, ht, Function.comp_def]
  obtain ⟨hfe, hbe⟩ := dpcmBeDisconnect_all (s := t) (f := f) (by simp [ht]) (by rwa [hclients])
  rw [hclients] at hbe
  constructor
  · rw [Card.modFe_fe, hfe, Function.update_self, Function.update_idem, ht, Card.modFe_fe,
      Function.update_idem, Function.update_self]
  · exact hbe

theorem dpcmClearPendingState_spec : (dpcmClearPendingState f s).fe = s.fe ∧
    ∀ b, (dpcmClearPendingState f s).be b = s.be b ∨
      (dpcmClearPendingState f s).be b = { s.be b with runtimeUpdate := .no } := by
  unfold dpcmClearPendingState
  generalize (s.fe f).beClients = l
  induction l generalizing s with
  | nil => exact ⟨rfl, fun b => .inl rfl⟩
  | cons dpcm l ih =>
    obtain ⟨hfe, hbe⟩ := ih (s := dpcmSetBeUpdateState dpcm.be .no s)
    refine ⟨hfe, fun b => ?_⟩
    rw [List.foldl_cons]
    by_cases hb : b = dpcm.be
    · subst hb
      have hself : (dpcmSetBeUpdateState dpcm.be .no s).be dpcm.be =
          { s.be dpcm.be with runtimeUpdate := .no } := by
        rw [dpcmSetBeUpdateState, Card.modBe_be_self]
      right
      rcases hbe dpcm.be with h | h <;> rw [h, hself]
    · have hne : (dpcmSetBeUpdateState dpcm.be .no s).be b = s.be b := by
        rw [dpcmSetBeUpdateState, Card.modBe_be_of_ne _ _ hb]
      rw [← hne]
      exact hbe b

/-! ## Opening and closing -/

/-- What is left of a back end whose users and links have not changed. One in use may be driven by
the runtime of another of its front ends. -/
structure Kept (x x' : BeRuntime F P) : Prop where
  users : x'.users = x.users
  feClients : x'.feClients = x.feClients
  bePause : x'.bePause = x.bePause
  inUse : x.users ≠ 0 → x'.state = x.state ∧ x'.beStart = x.beStart
  unused : x.users = 0 → x.Closed → x'.Closed
  unstarted : x.beStart = 0 → x'.beStart = 0
  substream : x.users ≠ 0 → x'.substreamRuntime = x.substreamRuntime ∨
    ∃ g ∈ x.feClients, x'.substreamRuntime = some g

/-- A back end that `f` has come to. -/
structure Joined (f : F) (x x' : BeRuntime F P) : Prop where
  users : x'.users = x.users + 1
  feClients : x'.feClients = f :: x.feClients
  bePause : x'.bePause = x.bePause
  inUse : x.users ≠ 0 → x'.state = x.state ∧ x'.beStart = x.beStart ∧
    x'.substreamRuntime = x.substreamRuntime
  unused : x.users = 0 → x'.state = .opened ∧ x'.beStart = 0 ∧ x'.substreamRuntime = some f

/-- A back end that `f` has gone from, while others stay or as the last one. -/
structure Gone (f : F) (x x' : BeRuntime F P) : Prop where
  users : x'.users = x.users - 1
  feClients : x'.feClients = x.feClients.filter fun g => g != f
  bePause : x'.bePause = x.bePause
  beStart : x'.beStart = x.beStart
  inUse : x.users ≠ 1 → x'.state = x.state ∧ ∀ g ∈ x.feClients, g ≠ f →
    ∃ g' ∈ x'.feClients, x'.substreamRuntime = some g'
  unused : x.users = 1 → x'.state = .close

theorem Kept.of_atomic {x x' : BeRuntime F P} {nonatomic : Bool}
    (h : x' = { x with nonatomic := nonatomic }) : Kept x x' := by
  subst h
  exact ⟨rfl, rfl, rfl, fun _ => ⟨rfl, rfl⟩, fun _ => id, id, fun _ => .inl rfl⟩

theorem Kept.clear {x x' x'' : BeRuntime F P} (h : Kept x x')
    (hclear : x'' = x' ∨ x'' = { x' with runtimeUpdate := .no }) : Kept x x'' := by
  rcases hclear with rfl | rfl
  · exact h
  · exact ⟨h.users, h.feClients, h.bePause, h.inUse, h.unused, h.unstarted, h.substream⟩

theorem Joined.clear {x x' x'' : BeRuntime F P} (h : Joined f x x')
    (hclear : x'' = x' ∨ x'' = { x' with runtimeUpdate := .no }) : Joined f x x'' := by
  rcases hclear with rfl | rfl
  · exact h
  · exact ⟨h.users, h.feClients, h.bePause, h.inUse, h.unused⟩

theorem Joined.of_started {x : BeRuntime F P} {nonatomic : Bool} (hx : x.Fit) :
    Joined f x ((x.linked f nonatomic).started) := by
  by_cases hu : x.users = 0
  · rw [BeRuntime.started_unused (x := x.linked f nonatomic) hu (hx.closed hu)]
    exact ⟨rfl, rfl, rfl, fun h => absurd hu h, fun _ => ⟨rfl, rfl, rfl⟩⟩
  · rw [BeRuntime.started_inUse (x := x.linked f nonatomic) hu]
    exact ⟨rfl, rfl, rfl, fun _ => ⟨rfl, rfl, rfl⟩, fun h => absurd h hu⟩

theorem filter_ne_of_not_mem {l : List F} (h : f ∉ l) : (l.filter fun g => g != f) = l := by
  rw [List.filter_eq_self]
  intro g hg
  simpa using fun hgf : g = f => h (hgf ▸ hg)

/-- In use, the substream has the runtime of another front end as soon as there is one. -/
theorem BeRuntime.unlinked_substream {x : BeRuntime F P} (hu : x.users ≠ 0) :
    (x.unlinked f).substreamRuntime = x.substreamRuntime ∧ (∀ g ∈ x.feClients, g = f) ∨
      ∃ g ∈ x.feClients, g ≠ f ∧ (x.unlinked f).substreamRuntime = some g := by
  cases hfind : x.feClients.find? fun g => g != f with
  | none =>
    left
    constructor
    · simp [BeRuntime.unlinked, hu, hfind]
    · simpa using List.find?_eq_none.mp hfind
  | some g =>
    right
    refine ⟨g, List.mem_of_find?_eq_some hfind, ?_, ?_⟩
    · simpa using List.find?_some hfind
    · simp [BeRuntime.unlinked, hu, hfind]

/-- A back end that was linked, and that could not be opened or was left again. -/
theorem Kept.of_restored {x y : BeRuntime F P} {nonatomic : Bool}
    (hf : f ∉ x.feClients) (h : Restored (x.linked f nonatomic) y) : Kept x (y.unlinked f) := by
  have hclients : ((f :: x.feClients).filter fun g => g != f) = x.feClients := by
    rw [List.filter_cons_of_neg (by simp), filter_ne_of_not_mem hf]
  rcases h with rfl | ⟨hu, substream, beStart, hbeStart, rfl⟩
  · refine ⟨rfl, hclients, rfl, fun _ => ⟨rfl, rfl⟩, fun _ => id, id, fun hu => ?_⟩
    rcases BeRuntime.unlinked_substream (f := f) (x := x.linked f nonatomic) hu with
      ⟨hsub, -⟩ | ⟨g, hg, hgf, hsub⟩
    · exact .inl hsub
    · exact .inr ⟨g, (List.mem_cons.mp hg).resolve_left hgf, hsub⟩
  · have hu' : x.users = 0 := hu
    refine ⟨rfl, hclients, rfl, fun h => absurd hu' h, fun _ _ => .inr rfl, fun h => ?_,
      fun h => absurd hu' h⟩
    rcases hbeStart with h0 | h0
    · exact h0
    · exact h0.trans h

/-- A back end that was left and that the link is then taken from. -/
theorem Gone.of_stopped {x : BeRuntime F P} (hu : 0 < x.users) :
    Gone f x ((x.stopped true).unlinked f) := by
  have hne : x.users ≠ 0 := by omega
  by_cases hone : x.users = 1
  · have hstopped : x.stopped true =
        { x with users := x.users - 1, substreamRuntime := none, state := .close } := by
      simp [BeRuntime.stopped, hone]
    rw [hstopped]
    exact ⟨rfl, rfl, rfl, rfl, fun h => absurd hone h, fun _ => rfl⟩
  · have hrest : x.users - 1 ≠ 0 := by omega
    have hstopped : x.stopped true = { x with users := x.users - 1 } := by
      rw [BeRuntime.stopped, if_neg hne, if_pos hrest]
    rw [hstopped]
    refine ⟨rfl, rfl, rfl, rfl, fun _ => ⟨rfl, fun g hg hgf => ?_⟩, fun h => absurd h hone⟩
    rcases BeRuntime.unlinked_substream (f := f) (x := { x with users := x.users - 1 }) hrest with
      ⟨-, hall⟩ | ⟨g', hg', hne', hsub⟩
    · exact absurd (hall g hg) hgf
    · exact ⟨g', by simpa [BeRuntime.unlinked] using ⟨hg', hne'⟩, hsub⟩

/-- Opening links the front end to back ends of the list and comes to each, or leaves all as they
were. -/
structure OpenedOn (f : F) (list : List B) (s s' : Card F B P) : Prop where
  fe : ∃ links runtime state, (links = [] ∨ state = .opened ∧ runtime = some f) ∧
    (state = (s.fe f).state ∨ state = .opened) ∧ s'.fe = Function.update s.fe f
      { s.fe f with beClients := links, runtime := runtime, state := state }
  nodup : (clients s' f).Nodup
  sub : ∀ b ∈ clients s' f, b ∈ list
  on : ∀ b ∈ clients s' f, Joined f (s.be b) (s'.be b)
  off : ∀ b ∉ clients s' f, Kept (s.be b) (s'.be b)

theorem OpenedOn.clear (h : OpenedOn f list s t) :
    OpenedOn f list s (dpcmClearPendingState f t) := by
  obtain ⟨hfe, hbe⟩ := dpcmClearPendingState_spec (f := f) (s := t)
  have hclients : clients (dpcmClearPendingState f t) f = clients t f := by
    rw [clients, hfe, clients]
  refine ⟨by rw [hfe]; exact h.fe, by rw [hclients]; exact h.nodup, ?_, ?_, ?_⟩
  · rw [hclients]
    exact h.sub
  · rw [hclients]
    exact fun b hb => (h.on b hb).clear (hbe b)
  · rw [hclients]
    exact fun b hb => (h.off b hb).clear (hbe b)

theorem dpcmFeDaiOpen_spec {paths : Int} (hq : (s.fe f).Quiet) (hnone : clients s f = [])
    (hfit : ∀ b ∈ list, (s.be b).Fit) (hf : ∀ b, f ∉ (s.be b).feClients) :
    OpenedOn f list s (dpcmFeDaiOpen e f paths list s).2 := by
  have hlinks : (s.fe f).beClients = [] := List.map_eq_nil_iff.mp hnone
  unfold dpcmFeDaiOpen dpcmProcessPaths
  set s₀ := s.modFe f fun x => { x with runtime := some f } with hs₀
  have hnone₀ : clients s₀ f = [] := by rw [clients, hs₀, Card.modFe_fe_self, hlinks, List.map_nil]
  dsimp only
  split
  · refine ⟨⟨[], some f, (s.fe f).state, .inl rfl, .inl rfl, ?_⟩, ?_, ?_, ?_, fun b _ => ?_⟩
    · rw [hs₀, Card.modFe_fe, ← hlinks]
    · simp [hnone₀]
    · simp [hnone₀]
    · simp [hnone₀]
    · exact .of_atomic (show _ = { s.be b with nonatomic := (s.be b).nonatomic } from rfl)
  rw [if_pos rfl]
  have hlinked := dpcmAddPaths_linked (e := e) (s := s₀) (f := f) list (by simp [hs₀])
    hnone₀
  generalize (dpcmAddPaths e f list s₀).2 = t at hlinked ⊢
  obtain ⟨links, hfe⟩ := hlinked.fe
  rw [hs₀, Card.modFe_fe, Function.update_idem, Function.update_self] at hfe
  have htf : t.fe f = { s.fe f with beClients := links, runtime := some f } := by
    rw [hfe, Function.update_self]
  have hfit' : ∀ b ∈ clients t f, (t.be b).Fit := by
    intro b hb
    obtain ⟨nonatomic, hbe⟩ := hlinked.on b hb
    rw [hbe]
    have hb := hfit b (hlinked.sub b hb)
    exact ⟨hb.nonneg, hb.room, hb.closed⟩
  refine OpenedOn.clear ?_
  rcases dpcmFeDaiStartup_spec (e := e) (s := t) (f := f)
      (by rw [htf]; exact ⟨hq.runtimeUpdate, hq.triggerPending⟩) hlinked.nodup hfit' with
    ⟨hret, hopened⟩ | ⟨hret, hnot⟩
  · rw [if_neg (Int.not_lt.mpr hret)]
    generalize (dpcmFeDaiStartup e f t).2 = s' at hopened
    have hclients : clients s' f = clients t f := by
      rw [clients, hopened.fe, Function.update_self, clients]
    refine ⟨⟨links, some f, .opened, .inr ⟨rfl, rfl⟩, .inr rfl, ?_⟩, ?_, ?_, ?_, ?_⟩
    · rw [hopened.fe, htf, hfe, Function.update_idem]
    · rw [hclients]
      exact hlinked.nodup
    · rw [hclients]
      exact hlinked.sub
    · rw [hclients]
      intro b hb
      obtain ⟨nonatomic, hbe⟩ := hlinked.on b hb
      rw [hopened.on b hb, hbe]
      exact .of_started (hfit b (hlinked.sub b hb))
    · rw [hclients]
      intro b hb
      obtain ⟨nonatomic, hbe⟩ := hlinked.off b hb
      rw [hopened.off b hb]
      exact .of_atomic hbe
  · rw [if_pos hret]
    obtain ⟨state, hstate, hfe'⟩ := hnot.fe
    have hon := hnot.on
    have hoff := hnot.off
    generalize (dpcmFeDaiStartup e f t).2 = s' at hfe' hon hoff
    have hclients : clients s' f = clients t f := by
      rw [clients, hfe', Function.update_self, clients]
    obtain ⟨hcleanup, hbe⟩ := dpcmFeDaiCleanup_spec (s := s') (f := f)
      (by rw [hclients]; exact hlinked.nodup)
    have hempty : clients (dpcmFeDaiCleanup f s') f = [] := by
      rw [clients, hcleanup, Function.update_self, List.map_nil]
    refine ⟨⟨[], none, state, .inl rfl, ?_, ?_⟩, ?_, ?_, ?_, fun b _ => ?_⟩
    · rwa [htf] at hstate
    · rw [hcleanup, hfe', Function.update_idem, Function.update_self, htf, hfe,
        Function.update_idem]
    · simp [hempty]
    · simp [hempty]
    · simp [hempty]
    · by_cases hb : b ∈ clients t f
      · obtain ⟨nonatomic, hlink⟩ := hlinked.on b hb
        rw [(hbe b).1 (by rwa [hclients])]
        have hrest := hon b hb
        rw [hlink] at hrest
        exact .of_restored (hf b) hrest
      · obtain ⟨nonatomic, hlink⟩ := hlinked.off b hb
        rw [(hbe b).2 (by rwa [hclients]), hoff b hb]
        exact .of_atomic hlink

/-- Closing takes all links from the front end, which goes from each of its back ends. -/
theorem dpcmFeDaiClose_spec (he : e.shutdownHwFree = true) (hq : (s.fe f).Quiet)
    (hl : (clients s f).Nodup) (hu : ∀ b ∈ clients s f, 0 < (s.be b).users) :
    (dpcmFeDaiClose e f s).2.fe = Function.update s.fe f
      { s.fe f with beClients := [], runtime := none, state := .close } ∧
    ∀ b, (b ∈ clients s f → Gone f (s.be b) ((dpcmFeDaiClose e f s).2.be b)) ∧
      (b ∉ clients s f → (dpcmFeDaiClose e f s).2.be b = s.be b) := by
  unfold dpcmFeDaiClose dpcmFeDaiShutdown dpcmBeDaiShutdown
  rw [dpcmSetFeUpdateState_fe, he]
  dsimp only
  set s₁ := s.modFe f fun x => { x with runtimeUpdate := .fe } with hs₁
  have hclients₁ : clients s₁ f = clients s f := by simp [clients, hs₁]
  obtain ⟨hstop, hbe₁⟩ := dpcmBeDaiStop_all (e := e) (s := s₁) (f := f) (by simp [hs₁])
    (by rwa [hclients₁]) true
  rw [hclients₁] at hbe₁
  set s₂ := (call e (.fe f .close) (dpcmBeDaiStop e f true none s₁)).2.modFe f
    fun x => { x with state := .close } with hs₂
  have hfe₂ : s₂.fe = Function.update s.fe f
      { s.fe f with state := .close, runtimeUpdate := .fe } := by
    rw [hs₂, Card.modFe_fe, call_fe, hstop, hs₁, Card.modFe_fe, Function.update_idem,
      Function.update_self]
  rw [dpcmSetFeUpdateState_no (by rw [hfe₂, Function.update_self]; exact hq.triggerPending)]
  set s₃ := s₂.modFe f fun x => { x with runtimeUpdate := .no } with hs₃
  have hfe₃ : s₃.fe = Function.update s.fe f { s.fe f with state := .close } := by
    rw [hs₃, Card.modFe_fe, hfe₂, Function.update_idem, Function.update_self, ← hq.runtimeUpdate]
  have hclients₃ : clients s₃ f = clients s f := by
    rw [clients, hfe₃, Function.update_self, clients]
  obtain ⟨hcleanup, hbe₃⟩ := dpcmFeDaiCleanup_spec (s := s₃) (f := f) (by rwa [hclients₃])
  rw [hclients₃] at hbe₃
  refine ⟨?_, fun b => ⟨fun hb => ?_, fun hb => ?_⟩⟩
  · rw [hcleanup, hfe₃, Function.update_idem, Function.update_self]
  · rw [(hbe₃ b).1 hb, show s₃.be b = (s.be b).stopped true from (hbe₁ b).1 hb]
    exact .of_stopped (hu b hb)
  · rw [(hbe₃ b).2 hb]
    exact (hbe₁ b).2 hb

end NoteNew.Dpcm
