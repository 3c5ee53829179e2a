import Mathlib.Data.Nat.Notation

/-!
# Computations that may stop with a fault

* `div`, `mod`: division with its check.
* `Avoids`: a computation does not stop with a certain fault. A sequence avoids it if its parts do.
* `EachStep`: each step of a run that may stop with a fault has a property (`EachStep.of_inv`).
-/

namespace Resch.Lib

/-- What ends a computation before its result: a division by zero, an index that is outside an
array, or a loop that has had all the turns it may have. -/
inductive Fault
  | divideByZero
  | outOfBounds
  | outOfFuel
  deriving DecidableEq

def div (x y : ℕ) : Except Fault ℕ := if y = 0 then .error .divideByZero else .ok (x / y)

def mod (x y : ℕ) : Except Fault ℕ := if y = 0 then .error .divideByZero else .ok (x % y)

variable {ε α β γ : Type} {f : ε} {x : Except ε α} {g : α → Except ε β} {b : β} {y z : ℕ}

theorem bind_eq_ok : x >>= g = .ok b ↔ ∃ a, x = .ok a ∧ g a = .ok b := by
  cases x with
  | error e => simp [bind, Except.bind]
  | ok a => simp [bind, Except.bind]

/-- A result that there is. -/
theorem eq_ok_getD (a : α) (h : x.toOption.isSome = true) : x = .ok (x.toOption.getD a) := by
  cases x with
  | error e => cases h
  | ok b => rfl

theorem div_of_ne (h : z ≠ 0) : div y z = .ok (y / z) := if_neg h

theorem div_eq_ok {x : ℕ} : div y z = .ok x ↔ z ≠ 0 ∧ x = y / z := by
  unfold div
  split
  · rename_i hz
    exact ⟨nofun, fun h => absurd hz h.1⟩
  · rename_i hz
    rw [Except.ok.injEq, eq_comm]
    exact (and_iff_right hz).symm

theorem mod_of_ne (h : z ≠ 0) : mod y z = .ok (y % z) := if_neg h

/-! ## Faults that do not happen -/

/-- The computation does not stop with the fault `f`. -/
def Avoids (f : ε) (x : Except ε α) : Prop := x ≠ .error f

theorem Avoids.pure (a : α) : Avoids f (pure a) := nofun

theorem Avoids.ok (a : α) : Avoids f (Except.ok a) := nofun

theorem Avoids.throw {e : ε} (h : e ≠ f) : Avoids f (Except.error e : Except ε α) := by
  intro he
  exact h (Except.error.inj he)

theorem Avoids.bind (hx : Avoids f x) (hg : ∀ a, x = .ok a → Avoids f (g a)) :
    Avoids f (x >>= g) := by
  cases x with
  | error e =>
    intro he
    exact hx (congrArg Except.error (Except.error.inj he))
  | ok a => exact hg a rfl

/-- The fault that a computation stops with, if it stops with one -/
def faultOf : Except ε α → Option ε
  | .ok _ => none
  | .error e => some e

theorem Avoids.faultOf_ne (h : Avoids f x) : faultOf x ≠ some f := by
  cases x with
  | error e =>
    intro he
    exact h (congrArg Except.error (Option.some.inj he))
  | ok a => nofun

/-- A division has one fault only. -/
theorem Avoids.div {f : Fault} (h : f = .divideByZero → z ≠ 0) : Avoids f (div y z) := by
  unfold Lib.div
  split
  · rename_i hz
    refine .throw ?_
    rintro rfl
    exact h rfl hz
  · exact .ok _

theorem Avoids.mod {f : Fault} (h : f = .divideByZero → z ≠ 0) : Avoids f (mod y z) := by
  unfold Lib.mod
  split
  · rename_i hz
    refine .throw ?_
    rintro rfl
    exact h rfl hz
  · exact .ok _

theorem Avoids.ite {p : Prop} [Decidable p] {x' : Except ε α} (h : p → Avoids f x)
    (h' : ¬p → Avoids f x') : Avoids f (if p then x else x') := by
  split
  · rename_i hp
    exact h hp
  · rename_i hp
    exact h' hp

/-- A check that is made only if the one before it accepts -/
theorem Avoids.andThen {x y : Except ε Bool} (hx : Avoids f x) (hy : Avoids f y) :
    Avoids f (x >>= fun b => if b = true then y else .ok false) :=
  hx.bind fun _ _ => .ite (fun _ => hy) fun _ => .pure _

/-- A loop with fuel that goes on as long as its check accepts -/
theorem Avoids.loop {g : ℕ → γ → Except ε Bool} {p : γ → Prop} [DecidablePred p]
    {check : γ → Except ε Bool} {next : γ → γ} {e : ε} (he : e ≠ f) (hzero : ∀ c, g 0 c = .error e)
    (hsucc : ∀ n c, g (n + 1) c =
      if p c then check c >>= fun b => if b = true then g n (next c) else .ok false else .ok true)
    (hcheck : ∀ c, Avoids f (check c)) (n : ℕ) (c : γ) : Avoids f (g n c) := by
  induction n generalizing c with
  | zero =>
    rw [hzero]
    exact .throw he
  | succ n ih =>
    rw [hsucc]
    exact .ite (fun _ => (hcheck c).andThen (ih _)) fun _ => .pure _

/-- A loop over a list avoids what each of its turns avoids. -/
theorem Avoids.foldlM {g : γ → α → Except ε γ} {l : List α}
    (h : ∀ a ∈ l, ∀ c, Avoids f (g c a)) (c : γ) : Avoids f (l.foldlM g c) := by
  induction l generalizing c with
  | nil => exact .pure c
  | cons a l ih =>
    rw [List.foldlM_cons]
    exact (h a List.mem_cons_self c).bind fun c' _ =>
      ih (fun a ha => h a (List.mem_cons_of_mem _ ha)) c'

/-- The same with what the turns preserve. -/
theorem Avoids.foldlM_of_inv {g : γ → α → Except ε γ} {P : γ → Prop} {l : List α}
    (h : ∀ a ∈ l, ∀ c, P c → Avoids f (g c a)) (hP : ∀ c a c', P c → g c a = .ok c' → P c') (c : γ)
    (hc : P c) : Avoids f (l.foldlM g c) := by
  induction l generalizing c with
  | nil => exact .pure c
  | cons a l ih =>
    rw [List.foldlM_cons]
    exact (h a List.mem_cons_self c hc).bind fun c' hc' =>
      ih (fun a ha => h a (List.mem_cons_of_mem _ ha)) c' (hP c a c' hc hc')

/-- A loop over a list whose turns all have results, with what they preserve. -/
theorem foldlM_eq_ok_of_inv {g : γ → α → Except ε γ} {g' : γ → α → γ} {P : γ → Prop} {l : List α}
    (h : ∀ a ∈ l, ∀ c, P c → g c a = .ok (g' c a) ∧ P (g' c a)) {c : γ} (hc : P c) :
    l.foldlM g c = .ok (l.foldl g' c) := by
  induction l generalizing c with
  | nil => rw [List.foldlM_nil, List.foldl_nil]; rfl
  | cons a l ih =>
    obtain ⟨hok, hP⟩ := h a List.mem_cons_self c hc
    rw [List.foldlM_cons, List.foldl_cons, hok]
    exact ih (fun a ha => h a (List.mem_cons_of_mem _ ha)) hP

theorem foldlM_eq_ok {g : γ → α → Except ε γ} {g' : γ → α → γ} {l : List α}
    (h : ∀ a ∈ l, ∀ c, g c a = .ok (g' c a)) (c : γ) : l.foldlM g c = .ok (l.foldl g' c) :=
  foldlM_eq_ok_of_inv (P := fun _ => True) (fun a ha c _ => ⟨h a ha c, trivial⟩) trivial

/-- A loop that has a result has that of the loop without faults. -/
theorem foldlM_ok_eq {g : γ → α → Except ε γ} {g' : γ → α → γ} {l : List α} {r t : γ}
    (h : ∀ a ∈ l, ∀ c c', g c a = .ok c' → c' = g' c a) (hl : l.foldlM g r = .ok t) :
    t = l.foldl g' r := by
  induction l generalizing r with
  | nil => exact (Except.ok.inj hl).symm
  | cons a l ih =>
    rw [List.foldlM_cons] at hl
    obtain ⟨r', hr', hl⟩ := bind_eq_ok.1 hl
    rw [List.foldl_cons, ← h a List.mem_cons_self r r' hr']
    exact ih (fun a ha => h a (List.mem_cons_of_mem _ ha)) hl

/-- Two loops whose turns are the same. -/
theorem foldlM_congr {g g' : γ → α → Except ε γ} {l : List α} {c : γ}
    (h : ∀ a ∈ l, ∀ c, g c a = g' c a) : l.foldlM g c = l.foldlM g' c := by
  induction l generalizing c with
  | nil => rfl
  | cons a l ih =>
    rw [List.foldlM_cons, List.foldlM_cons, h a List.mem_cons_self]
    congr 1
    funext c'
    exact ih fun a ha => h a (List.mem_cons_of_mem _ ha)

/-- What each turn of a loop preserves holds of its result. -/
theorem foldlM_inv {g : γ → α → Except ε γ} {P : γ → Prop}
    (h : ∀ r a t, P r → g r a = .ok t → P t) {l : List α} {r t : γ} (hr : P r)
    (hl : l.foldlM g r = .ok t) : P t := by
  induction l generalizing r with
  | nil =>
    cases hl
    exact hr
  | cons a l ih =>
    rw [List.foldlM_cons] at hl
    obtain ⟨r', hr', hl⟩ := bind_eq_ok.1 hl
    exact ih (h r a r' hr hr') hl

/-- If a loop has a result, each of its turns has one. -/
theorem foldlM_ok_mem {g : γ → α → Except ε γ} {l : List α} {r t : γ} {a : α}
    (h : l.foldlM g r = .ok t) (ha : a ∈ l) : ∃ r' t', g r' a = .ok t' := by
  induction l generalizing r with
  | nil => cases ha
  | cons b l ih =>
    rw [List.foldlM_cons] at h
    obtain ⟨r', hr', h⟩ := bind_eq_ok.1 h
    rcases List.mem_cons.1 ha with rfl | ha
    · exact ⟨r, r', hr'⟩
    · exact ih h ha

/-! ## Runs of steps that may fault -/

/-- Each step of the run of `as` from `s` has the property `C` in the state before it. A step with a
fault is the last one. -/
def EachStep {σ α : Type} (step : σ → α → Except ε σ) (C : σ → α → Prop) : σ → List α → Prop
  | _, [] => True
  | s, a :: as => C s a ∧ ∀ s', step s a = .ok s' → EachStep step C s' as

/-- The same for a test that can be computed -/
def checkSteps {σ α : Type} (step : σ → α → Except ε σ) (test : σ → α → Bool) : σ → List α → Bool
  | _, [] => true
  | s, a :: as => test s a && match step s a with
    | .ok s' => checkSteps step test s' as
    | .error _ => true

/-- **The run rule.** With an invariant that its condition keeps, each step has a further property. -/
theorem EachStep.of_inv {σ α : Type} {step : σ → α → Except ε σ} {I : σ → Prop} {C D : σ → α → Prop}
    (hD : ∀ s a, I s → C s a → D s a) (hI : ∀ s a s', I s → C s a → step s a = .ok s' → I s') :
    ∀ (as : List α) (s : σ), I s → EachStep step C s as → EachStep step D s as := by
  intro as
  induction as with
  | nil => exact fun _ _ _ => trivial
  | cons a as ih =>
    rintro s hi ⟨hc, hrun⟩
    exact ⟨hD s a hi hc, fun s' hs => ih s' (hI s a s' hi hc hs) (hrun s' hs)⟩

/-- An invariant that the condition keeps holds at the end of the run. -/
theorem EachStep.inv {σ α : Type} {step : σ → α → Except ε σ} {I : σ → Prop} {C : σ → α → Prop}
    (hI : ∀ s a s', I s → C s a → step s a = .ok s' → I s') :
    ∀ (as : List α) (s s' : σ), I s → EachStep step C s as → as.foldlM step s = .ok s' → I s' := by
  intro as
  induction as with
  | nil =>
    intro s s' hi _ hs
    cases hs
    exact hi
  | cons a as ih =>
    rintro s s' hi ⟨hc, hrun⟩ hs
    rw [List.foldlM_cons] at hs
    obtain ⟨s₁, hs₁, hs⟩ := bind_eq_ok.1 hs
    exact ih s₁ s' (hI s a s₁ hi hc hs₁) (hrun s₁ hs₁) hs

/-- A property of each step, by a test that can be computed. -/
theorem EachStep.of_check {σ α : Type} {step : σ → α → Except ε σ} {C : σ → α → Prop}
    {test : σ → α → Bool} (hC : ∀ s a, test s a = true → C s a) :
    ∀ (as : List α) (s : σ), checkSteps step test s as = true → EachStep step C s as := by
  intro as
  induction as with
  | nil => exact fun _ _ => trivial
  | cons a as ih =>
    intro s h
    rw [checkSteps, Bool.and_eq_true] at h
    refine ⟨hC s a h.1, fun s' hs => ih s' ?_⟩
    have hrest := h.2
    rw [hs] at hrest
    exact hrest

/-- A run whose steps all avoid a fault avoids it. -/
theorem EachStep.avoids {σ α : Type} {step : σ → α → Except ε σ} : ∀ (as : List α) (s : σ),
    EachStep step (fun s a => Avoids f (step s a)) s as → Avoids f (as.foldlM step s) := by
  intro as
  induction as with
  | nil => exact fun s _ => .pure s
  | cons a as ih =>
    rintro s ⟨ha, hrun⟩
    rw [List.foldlM_cons]
    exact ha.bind fun s' hs => ih s' (hrun s' hs)

end Resch.Lib
