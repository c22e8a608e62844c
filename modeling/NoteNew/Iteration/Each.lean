import Mathlib.Data.List.Nodup

/-!
# Loops that can be left

`each` runs a body over a list and is left at the first element whose body says so. Its rule is
`each_run`, one step of which is one run of the body. Where every run of the body touches one
component of the state and the list names no component twice, the whole loop acts on each component
by itself: `each_pointwise`.
-/

namespace NoteNew.Iteration

variable {α ε σ : Type*}

/-- The end of a loop: the element at which it was left and why, the elements whose body ran to its
end, the last one first, and the state. -/
structure Ended (α ε σ : Type*) where
  left : Option (α × ε)
  visited : List α
  state : σ

/-- The loop, behind the elements `done`. -/
def eachFrom (body : α → σ → Option ε × σ) : List α → List α → σ → Ended α ε σ
  | [], done, s => ⟨none, done, s⟩
  | a :: l, done, s =>
    match body a s with
    | (none, s') => eachFrom body l (a :: done) s'
    | (some e, s') => ⟨some (a, e), done, s'⟩

def each (body : α → σ → Option ε × σ) (l : List α) (s : σ) : Ended α ε σ :=
  eachFrom body l [] s

variable {body : α → σ → Option ε × σ} {l done : List α} {s : σ}

/-- The loop ran to the end of its list, with `I`, or was left at an element, with `F`. -/
inductive Run (I : List α → σ → Prop) (F : List α → α → ε → List α → σ → Prop) (l : List α) :
    Ended α ε σ → Prop where
  | ended {s : σ} (h : I l.reverse s) : Run I F l ⟨none, l.reverse, s⟩
  | left {done rest : List α} {a : α} {e : ε} {s : σ} (hl : l = done.reverse ++ a :: rest)
      (h : F done a e rest s) : Run I F l ⟨some (a, e), done, s⟩

variable {I : List α → σ → Prop} {F : List α → α → ε → List α → σ → Prop}

theorem eachFrom_run {whole : List α} (hwhole : whole = done.reverse ++ l) (hs : I done s)
    (hgo : ∀ done a rest s s', whole = done.reverse ++ a :: rest → I done s →
      body a s = (none, s') → I (a :: done) s')
    (hleave : ∀ done a rest s s' e, whole = done.reverse ++ a :: rest → I done s →
      body a s = (some e, s') → F done a e rest s') :
    Run I F whole (eachFrom body l done s) := by
  induction l generalizing done s with
  | nil =>
    have hdone : done = whole.reverse := by simp [hwhole]
    rw [eachFrom, hdone]
    exact .ended (hdone ▸ hs)
  | cons a l ih =>
    rw [eachFrom]
    split
    · next s' hbody =>
      apply ih
      · simp [hwhole]
      · exact hgo done a l s s' hwhole hs hbody
    · next e s' hbody =>
      exact .left hwhole (hleave done a l s s' e hwhole hs hbody)

/-- What one run of the body does, the whole loop does. -/
theorem each_run (hs : I [] s)
    (hgo : ∀ done a rest s s', l = done.reverse ++ a :: rest → I done s →
      body a s = (none, s') → I (a :: done) s')
    (hleave : ∀ done a rest s s' e, l = done.reverse ++ a :: rest → I done s →
      body a s = (some e, s') → F done a e rest s') :
    Run I F l (each body l s) :=
  eachFrom_run rfl hs hgo hleave

/-- A property of the state that every run of the body keeps. -/
theorem each_keeps {P : σ → Prop} (hs : P s) (hbody : ∀ a ∈ l, ∀ s, P s → P (body a s).2) :
    P (each body l s).state := by
  have hrun : Run (fun _ => P) (fun _ _ (_ : ε) _ => P) l (each body l s) := by
    apply each_run hs
    · intro done a rest s s' hl hs h
      have := hbody a (by simp [hl]) s hs
      rwa [h] at this
    · intro done a rest s s' e hl hs h
      have := hbody a (by simp [hl]) s hs
      rwa [h] at this
  generalize each body l s = r at hrun ⊢
  cases hrun with
  | ended h => exact h
  | left _ h => exact h

/-- A loop is left with what its body answers. -/
theorem each_left {a : α} {err : ε} (h : (each body l s).left = some (a, err)) :
    ∃ t, (body a t).1 = some err := by
  have hrun : Run (fun _ _ => True) (fun _ a err _ _ => ∃ t, (body a t).1 = some err) l
      (each body l s) := by
    apply each_run
    · trivial
    · exact fun _ _ _ _ _ _ _ _ => trivial
    · intro done a rest t t' err hl _ ht
      exact ⟨t, by rw [ht]⟩
  generalize each body l s = r at hrun h
  cases hrun with
  | ended _ => cases h
  | left _ ht =>
    cases h
    exact ht

section Pointwise

variable {κ X : Type*} (key : α → κ) (get : σ → κ → X)

/-- A loop by components: those visited are related by `R`, the one it was left at by `S`, and the
others are as they were. `Fr` says what else is known of the state. -/
structure Pointwise (Fr : σ → Prop) (R S : κ → X → X → Prop) (l : List α) (s : σ)
    (r : Ended α ε σ) : Prop where
  frame : Fr r.state
  visited : ∀ a ∈ r.visited, R (key a) (get s (key a)) (get r.state (key a))
  left : ∀ a e, r.left = some (a, e) → S (key a) (get s (key a)) (get r.state (key a))
  untouched : ∀ k, (∀ a ∈ r.visited, key a ≠ k) → (∀ a e, r.left = some (a, e) → key a ≠ k) →
    get r.state k = get s k
  all : r.left = none → r.visited = l.reverse
  upTo : ∀ a e, r.left = some (a, e) → ∃ rest, l = r.visited.reverse ++ a :: rest

variable {key get} {Fr : σ → Prop} {R S : κ → X → X → Prop}

theorem Pointwise.of_ended {r : Ended α ε σ} (h : Pointwise key get Fr R S l s r)
    (hleft : r.left = none) (k : κ) : (k ∈ l.map key → R k (get s k) (get r.state k)) ∧
      (k ∉ l.map key → get r.state k = get s k) := by
  have hall := h.all hleft
  constructor
  · intro hk
    obtain ⟨a, ha, rfl⟩ := List.mem_map.mp hk
    exact h.visited a (by rw [hall]; exact List.mem_reverse.mpr ha)
  · intro hk
    refine h.untouched k (fun a ha hka => hk ?_) (by simp [hleft])
    rw [hall] at ha
    exact hka ▸ List.mem_map_of_mem (List.mem_reverse.mp ha)

theorem Pointwise.of_left {r : Ended α ε σ} (h : Pointwise key get Fr R S l s r) {a : α} {e : ε}
    (hleft : r.left = some (a, e)) : ∃ rest, l = r.visited.reverse ++ a :: rest ∧
      S (key a) (get s (key a)) (get r.state (key a)) ∧
      ∀ k, (k ∈ r.visited.map key → R k (get s k) (get r.state k)) ∧
        (k ∉ r.visited.map key → key a ≠ k → get r.state k = get s k) := by
  obtain ⟨rest, hl⟩ := h.upTo a e hleft
  refine ⟨rest, hl, h.left a e hleft, fun k => ⟨fun hk => ?_, fun hk hne => ?_⟩⟩
  · obtain ⟨c, hc, rfl⟩ := List.mem_map.mp hk
    exact h.visited c hc
  · refine h.untouched k (fun c hc hck => hk (hck ▸ List.mem_map_of_mem hc)) fun c e' hc => ?_
    rw [hleft] at hc
    cases hc
    exact hne

theorem each_pointwise (hl : (l.map key).Nodup) (hs : Fr s)
    (hbody : ∀ a ∈ l, ∀ t, Fr t → get t (key a) = get s (key a) →
      Fr (body a t).2 ∧ (∀ k, key a ≠ k → get (body a t).2 k = get t k) ∧
      ((body a t).1 = none → R (key a) (get s (key a)) (get (body a t).2 (key a))) ∧
      (∀ e, (body a t).1 = some e → S (key a) (get s (key a)) (get (body a t).2 (key a)))) :
    Pointwise key get Fr R S l s (each body l s) := by
  let I : List α → σ → Prop := fun done t =>
    Fr t ∧ (∀ a ∈ done, R (key a) (get s (key a)) (get t (key a))) ∧
      ∀ k, (∀ a ∈ done, key a ≠ k) → get t k = get s k
  let F : List α → α → ε → List α → σ → Prop := fun done a _ _ t =>
    Fr t ∧ (∀ a ∈ done, R (key a) (get s (key a)) (get t (key a))) ∧
      S (key a) (get s (key a)) (get t (key a)) ∧
      ∀ k, (∀ a ∈ done, key a ≠ k) → key a ≠ k → get t k = get s k
  -- an element still to come names a component that none of those visited names
  have hnew : ∀ (done : List α) (a : α) (rest : List α), l = done.reverse ++ a :: rest →
      ∀ c ∈ done, key c ≠ key a := by
    intro done a rest h c hc heq
    rw [h, List.map_append, List.map_cons, List.nodup_append] at hl
    refine hl.2.2 (key c) ?_ (key a) List.mem_cons_self heq
    exact List.mem_map_of_mem (by simpa using hc)
  have hrun : Run I F l (each body l s) := by
    apply each_run
    · exact ⟨hs, by simp, by simp⟩
    · intro done a rest t t' h ⟨hf, hR, hrest⟩ ht
      have hta : get t (key a) = get s (key a) := hrest _ (hnew done a rest h)
      obtain ⟨hf', hk, hnone, -⟩ := hbody a (by simp [h]) t hf hta
      rw [ht] at hf' hk hnone
      refine ⟨hf', ?_, ?_⟩
      · intro c hc
        rcases List.mem_cons.mp hc with rfl | hc
        · exact hnone rfl
        · simp only at hk
          rw [hk _ (hnew done a rest h c hc).symm]
          exact hR c hc
      · intro k hkeys
        simp only at hk
        rw [hk k (hkeys a List.mem_cons_self)]
        exact hrest k fun c hc => hkeys c (List.mem_cons_of_mem a hc)
    · intro done a rest t t' e h ⟨hf, hR, hrest⟩ ht
      have hta : get t (key a) = get s (key a) := hrest _ (hnew done a rest h)
      obtain ⟨hf', hk, -, hsome⟩ := hbody a (by simp [h]) t hf hta
      rw [ht] at hf' hk hsome
      refine ⟨hf', ?_, hsome e rfl, ?_⟩
      · intro c hc
        simp only at hk
        rw [hk _ (hnew done a rest h c hc).symm]
        exact hR c hc
      · intro k hkeys hka
        simp only at hk
        rw [hk k hka]
        exact hrest k hkeys
  generalize each body l s = r at hrun ⊢
  cases hrun with
  | ended h =>
    obtain ⟨hf, hR, hrest⟩ := h
    exact ⟨hf, hR, by simp, fun k hk _ => hrest k hk, fun _ => rfl, by simp⟩
  | @left done rest a e t hl h =>
    obtain ⟨hf, hR, hS, hrest⟩ := h
    refine ⟨hf, hR, ?_, ?_, by simp, ?_⟩
    · intro c e' hc
      cases hc
      exact hS
    · intro k hk hka
      exact hrest k hk (hka a e rfl)
    · intro c e' hc
      cases hc
      exact ⟨rest, hl⟩

variable (get Fr) in
/-- A loop that is never left and acts on each component by `h`. -/
theorem foldl_pointwise (step : σ → α → σ) (h : X → X) (hl : (l.map key).Nodup) (hs : Fr s)
    (hstep : ∀ a ∈ l, ∀ t, Fr t → Fr (step t a) ∧ get (step t a) (key a) = h (get t (key a)) ∧
      ∀ k, key a ≠ k → get (step t a) k = get t k) :
    Fr (l.foldl step s) ∧ ∀ k, (k ∈ l.map key → get (l.foldl step s) k = h (get s k)) ∧
      (k ∉ l.map key → get (l.foldl step s) k = get s k) := by
  induction l generalizing s with
  | nil => exact ⟨hs, fun k => ⟨fun hk => absurd hk List.not_mem_nil, fun _ => rfl⟩⟩
  | cons a l ih =>
    rw [List.map_cons, List.nodup_cons] at hl
    obtain ⟨hf, hself, hne⟩ := hstep a List.mem_cons_self s hs
    obtain ⟨hf', hrest⟩ := ih hl.2 hf fun c hc => hstep c (List.mem_cons_of_mem a hc)
    refine ⟨hf', fun k => ⟨fun hk => ?_, fun hk => ?_⟩⟩
    · rw [List.foldl_cons]
      rcases List.mem_cons.mp hk with rfl | hk
      · rw [(hrest (key a)).2 hl.1, hself]
      · rw [(hrest k).1 hk, hne k fun h => hl.1 (h ▸ hk)]
    · rw [List.map_cons, List.mem_cons, not_or] at hk
      rw [List.foldl_cons, (hrest k).2 hk.2, hne k (Ne.symm hk.1)]

/-- A list that names no component twice is cut in one way at the element that names `k`. -/
theorem cut_unique {pre pre' post post' : List α} {a a' : α} (hl : (l.map key).Nodup)
    (h : l = pre ++ a :: post) (h' : l = pre' ++ a' :: post') (hkey : key a = key a') :
    pre = pre' := by
  induction pre generalizing l pre' with
  | nil =>
    cases pre' with
    | nil => rfl
    | cons c pre' =>
      obtain ⟨rfl, rfl⟩ := List.cons.inj (h.symm.trans h')
      rw [h, List.nil_append, List.map_cons, List.nodup_cons] at hl
      refine absurd ?_ hl.1
      simp [hkey]
  | cons c pre ih =>
    cases pre' with
    | nil =>
      obtain ⟨rfl, rfl⟩ := List.cons.inj (h.symm.trans h')
      rw [h, List.cons_append, List.map_cons, List.nodup_cons] at hl
      refine absurd ?_ hl.1
      simp [← hkey]
    | cons c' pre' =>
      obtain ⟨rfl, htail⟩ := List.cons.inj (h.symm.trans h')
      rw [h, List.cons_append, List.map_cons, List.nodup_cons] at hl
      rw [ih hl.2 rfl htail]

end Pointwise

end NoteNew.Iteration
