import Mathlib.Logic.Basic

/-!
# Runs of a partial step function

A system is a step function `step : σ → α → Option σ`; `none` means that the step
is not enabled in the state. `Always` says that every state of a run has a
property, `Each` that every step taken satisfies a condition on the state before
it.

* `Always.of_each`: a property that every step with its condition preserves holds
  along every run whose steps all meet the condition.
* `always_iff_each`: if the condition is exact for one step, it is exact for runs.
* `Reach`: the states a run can reach, with the invariant rule `Reach.inv`.
-/

namespace Resch.Lib

variable {σ α : Type*} {step : σ → α → Option σ}

/-- Every state of the run of `as` from `s` satisfies `P`. -/
def Always (step : σ → α → Option σ) (P : σ → Prop) : σ → List α → Prop
  | s, [] => P s
  | s, a :: as => P s ∧ ∀ s', step s a = some s' → Always step P s' as

/-- Every step taken in the run of `as` from `s` satisfies `C` in the state before it. -/
def Each (step : σ → α → Option σ) (C : σ → α → Prop) : σ → List α → Prop
  | _, [] => True
  | s, a :: as => ∀ s', step s a = some s' → C s a ∧ Each step C s' as

/-- The state that the run of `as` from `s` ends in, if all its steps are enabled. -/
def final (step : σ → α → Option σ) : σ → List α → Option σ
  | s, [] => some s
  | s, a :: as => (step s a).bind fun s' => final step s' as

theorem final_append (s : σ) (as bs : List α) :
    final step s (as ++ bs) = (final step s as).bind fun s' => final step s' bs := by
  induction as generalizing s with
  | nil => rfl
  | cons a as ih =>
    rw [List.cons_append, final, final, Option.bind_assoc]
    exact congrArg _ (funext fun s' => ih s')

theorem Always.final {P : σ → Prop} {s s' : σ} {as : List α} (h : Always step P s as)
    (hs : final step s as = some s') : P s' := by
  induction as generalizing s with
  | nil =>
    rw [Lib.final, Option.some.injEq] at hs
    subst hs; exact h
  | cons a as ih =>
    obtain ⟨s₁, hs₁, hs⟩ := Option.bind_eq_some_iff.1 hs
    exact ih (h.2 s₁ hs₁) hs

/-- A run whose last state passes a test has a state that passes it and has the property. -/
theorem Always.final_test {P : σ → Prop} {s : σ} {as : List α} (h : Always step P s as)
    (test : σ → Bool) (ht : (Lib.final step s as).any test = true) : ∃ s', P s' ∧ test s' = true := by
  obtain ⟨s', hs', ht⟩ := (Option.any_eq_true ..).1 ht
  exact ⟨s', h.final hs', ht⟩

theorem Each.cons {C : σ → α → Prop} {s s' : σ} {a : α} {as : List α} (hs : step s a = some s')
    (hc : C s a) (h : Each step C s' as) : Each step C s (a :: as) := by
  intro s'' hs''
  rw [hs, Option.some.injEq] at hs''
  subst hs''
  exact ⟨hc, h⟩

theorem Each.append {C : σ → α → Prop} {s s' : σ} {as bs : List α} (h : Each step C s as)
    (hs : Lib.final step s as = some s') (hb : Each step C s' bs) : Each step C s (as ++ bs) := by
  induction as generalizing s with
  | nil =>
    rw [Lib.final, Option.some.injEq] at hs
    subst hs
    exact hb
  | cons a as ih =>
    intro s₁ hs₁
    obtain ⟨hc, he⟩ := h s₁ hs₁
    rw [Lib.final, hs₁] at hs
    exact ⟨hc, ih he hs⟩

/-- `Each` for a condition that can be computed. -/
def checkEach (step : σ → α → Option σ) (test : σ → α → Bool) : σ → List α → Bool
  | _, [] => true
  | s, a :: as => (step s a).all fun s' => test s a && checkEach step test s' as

theorem Each.of_check {C : σ → α → Prop} {test : σ → α → Bool} (hC : ∀ s a, test s a = true → C s a)
    {s : σ} {as : List α} (h : checkEach step test s as = true) : Each step C s as := by
  induction as generalizing s with
  | nil => trivial
  | cons a as ih =>
    intro s' hs'
    rw [checkEach, hs', Option.all_some, Bool.and_eq_true] at h
    exact ⟨hC s a h.1, ih h.2⟩

theorem Each.check {C : σ → α → Prop} {s : σ} {as : List α} (h : Each step C s as)
    (test : σ → α → Bool) (hC : ∀ s a, C s a → test s a = true) : checkEach step test s as = true := by
  induction as generalizing s with
  | nil => rfl
  | cons a as ih =>
    rw [checkEach, Option.all_eq_true]
    intro s' hs'
    obtain ⟨hc, he⟩ := h s' hs'
    rw [hC s a hc, ih he]
    rfl

theorem Always.head {P : σ → Prop} {s : σ} {as : List α} (h : Always step P s as) : P s := by
  cases as with
  | nil => exact h
  | cons a as => exact h.1

theorem Always.mono {P Q : σ → Prop} (hPQ : ∀ s, P s → Q s) :
    ∀ (as : List α) (s : σ), Always step P s as → Always step Q s as := by
  intro as
  induction as with
  | nil => exact fun s h => hPQ s h
  | cons a as ih => exact fun s h => ⟨hPQ s h.1, fun s' hs => ih s' (h.2 s' hs)⟩

/-- **The run rule.** A property that each step keeps when its condition holds
is kept along every run whose steps all meet the condition. -/
theorem Always.of_each {P : σ → Prop} {C : σ → α → Prop}
    (hstep : ∀ s a s', P s → C s a → step s a = some s' → P s') :
    ∀ (as : List α) (s : σ), P s → Each step C s as → Always step P s as := by
  intro as
  induction as with
  | nil => exact fun s h _ => h
  | cons a as ih =>
    intro s h he
    refine ⟨h, fun s' hs => ?_⟩
    obtain ⟨hc, he'⟩ := he s' hs
    exact ih s' (hstep s a s' h hc hs) he'

/-- A property that every step keeps. -/
theorem Always.of_inv {P : σ → Prop} (hstep : ∀ s a s', P s → step s a = some s' → P s') :
    ∀ (as : List α) (s : σ), P s → Always step P s as := by
  intro as
  induction as with
  | nil => exact fun s h => h
  | cons a as ih => exact fun s h => ⟨h, fun s' hs => ih s' (hstep s a s' h hs)⟩

/-- With the invariant that its condition keeps, each step has a further property. -/
theorem Each.of_inv {I : σ → Prop} {C D : σ → α → Prop}
    (hstep : ∀ s a s', I s → C s a → step s a = some s' → I s' ∧ D s a) :
    ∀ (as : List α) (s : σ), I s → Each step C s as → Each step D s as := by
  intro as
  induction as with
  | nil => exact fun _ _ _ => trivial
  | cons a as ih =>
    intro s hi he s' hs
    obtain ⟨hc, he'⟩ := he s' hs
    obtain ⟨hi', hd⟩ := hstep s a s' hi hc hs
    exact ⟨hd, ih s' hi' he'⟩

theorem Each.and_iff {C D : σ → α → Prop} : ∀ {as : List α} {s : σ},
    Each step C s as ∧ Each step D s as ↔ Each step (fun s a => C s a ∧ D s a) s as := by
  intro as
  induction as with
  | nil => exact ⟨fun _ => trivial, fun _ => ⟨trivial, trivial⟩⟩
  | cons a as ih =>
    intro s
    constructor
    · rintro ⟨hc, hd⟩ s' hs
      exact ⟨⟨(hc s' hs).1, (hd s' hs).1⟩, ih.1 ⟨(hc s' hs).2, (hd s' hs).2⟩⟩
    · intro h
      refine ⟨fun s' hs => ?_, fun s' hs => ?_⟩
      · exact ⟨(h s' hs).1.1, (ih.2 (h s' hs).2).1⟩
      · exact ⟨(h s' hs).1.2, (ih.2 (h s' hs).2).2⟩

/-- Two conditions that agree on every step from a state with an invariant, which is kept as long as
they hold. -/
theorem Each.iff_of_kept {I : σ → Prop} {C D : σ → α → Prop}
    (hI : ∀ s a s', I s → D s a → step s a = some s' → I s')
    (h : ∀ s a s', I s → step s a = some s' → (C s a ↔ D s a)) (as : List α) (s : σ) (hs : I s) :
    Each step C s as ↔ Each step D s as := by
  constructor
  · refine Each.of_inv (fun s a s' hi hc he => ?_) as s hs
    have hd := (h s a s' hi he).1 hc
    exact ⟨hI s a s' hi hd he, hd⟩
  · exact Each.of_inv (fun s a s' hi hd he => ⟨hI s a s' hi hd he, (h s a s' hi he).2 hd⟩) as s hs

/-- The same with an invariant of all steps -/
theorem Each.iff_of_inv {I : σ → Prop} {C D : σ → α → Prop}
    (hI : ∀ s a s', I s → step s a = some s' → I s')
    (h : ∀ s a s', I s → step s a = some s' → (C s a ↔ D s a)) (as : List α) (s : σ) (hs : I s) :
    Each step C s as ↔ Each step D s as :=
  Each.iff_of_kept (fun s a s' hi _ he => hI s a s' hi he) h as s hs

/-- **Exactness of a step condition carries over to runs.** `I` is an auxiliary
invariant that holds as long as the property does. -/
theorem always_iff_each {I P : σ → Prop} {C : σ → α → Prop}
    (hI : ∀ s a s', I s → P s → step s a = some s' → P s' → I s')
    (hC : ∀ s a s', I s → P s → step s a = some s' → (P s' ↔ C s a)) :
    ∀ (as : List α) (s : σ), I s → P s → (Always step P s as ↔ Each step C s as) := by
  intro as
  induction as with
  | nil => exact fun s _ hP => ⟨fun _ => trivial, fun _ => hP⟩
  | cons a as ih =>
    intro s hi hp
    constructor
    · rintro ⟨-, h⟩ s' hs
      have hp' : P s' := (h s' hs).head
      exact ⟨(hC s a s' hi hp hs).1 hp', (ih s' (hI s a s' hi hp hs hp') hp').1 (h s' hs)⟩
    · intro h
      refine ⟨hp, fun s' hs => ?_⟩
      obtain ⟨hc, he⟩ := h s' hs
      have hp' : P s' := (hC s a s' hi hp hs).2 hc
      exact (ih s' (hI s a s' hi hp hs hp') hp').2 he

/-- The states that runs from `s₀` reach. -/
inductive Reach (step : σ → α → Option σ) (s₀ : σ) : σ → Prop
  | init : Reach step s₀ s₀
  | next {s s' : σ} (a : α) : Reach step s₀ s → step s a = some s' → Reach step s₀ s'

/-- **The invariant rule** for reachable states. -/
theorem Reach.inv {P : σ → Prop} {s₀ s : σ} (h : Reach step s₀ s) (h₀ : P s₀)
    (hstep : ∀ s a s', P s → step s a = some s' → P s') : P s := by
  induction h with
  | init => exact h₀
  | next a _ hs ih => exact hstep _ a _ ih hs

theorem Reach.of_final {s₀ s s' : σ} (h : Reach step s₀ s) {as : List α}
    (hs : Lib.final step s as = some s') : Reach step s₀ s' := by
  induction as generalizing s with
  | nil =>
    rw [Lib.final, Option.some.injEq] at hs
    exact hs ▸ h
  | cons a as ih =>
    obtain ⟨s₁, hs₁, hs⟩ := Option.bind_eq_some_iff.1 hs
    exact ih (.next a h hs₁) hs

/-- A run whose steps are all taken reaches its last state. -/
theorem Reach.of_isSome {s : σ} {as : List α} (h : (Lib.final step s as).isSome = true) :
    Reach step s ((Lib.final step s as).getD s) := by
  obtain ⟨s', hs'⟩ := Option.isSome_iff_exists.1 h
  rw [hs']
  exact .of_final .init hs'

end Resch.Lib
