import Mathlib.Data.List.Basic
import Mathlib.Data.List.Pairwise
import Resch.Spec.SplitJob

/-!
# What a job of a split task does

* `Route`: the CPUs that a job has been on increase from the first one, and each later one has a
  share.
* `JobInv`: where the timer, the migration lists and the route of one job stand.
* `splitStep_inv`: every step keeps `JobInv` for all tasks, with a relation `R` between the CPUs
  visited and the plugin's data that the plugin's own steps keep.
-/

namespace Resch

open Lib

variable {δ : Type} {p : SplitPlugin δ} {R : ℕ → List ℕ → δ → Prop} {s s' : SplitState δ}
  {rt cpu k : ℕ} {l : List ℕ} {j : SplitJob δ} {queued : ℕ → ℕ}

/-- The CPUs `l` that a job has been on, up to the one where it is. -/
structure Route (p : SplitPlugin δ) (rt : ℕ) (l : List ℕ) (cpu : ℕ) : Prop where
  increasing : l.Pairwise (· < ·)
  first : l.head? = some (p.firstCpu rt)
  last : l.getLast? = some cpu
  share : ∀ k ∈ l.tail, 0 < p.runtime rt k ∧ k < p.nrRtCpus

/-- The states of a job; `queued` says how often the task is in the list of each thread. -/
structure JobInv (p : SplitPlugin δ) (R : ℕ → List ℕ → δ → Prop) (rt : ℕ) (j : SplitJob δ)
    (queued : ℕ → ℕ) : Prop where
  unsplit : p.isSplit rt = false → j.timer = none ∧ j.asleep = false
  idle : j.active = false → j.asleep = false ∧
    (p.isSplit rt = true → j.cpu = p.firstCpu rt ∧ j.timer = none)
  awake : j.asleep = false → ∀ cpu, queued cpu = 0
  asleep : j.asleep = true → j.timer = none ∧ ∃ cpu, j.cpu < cpu ∧ 0 < p.runtime rt cpu ∧
    cpu < p.nrRtCpus ∧ ∀ k, queued k = if k = cpu then 1 else 0
  route : p.isSplit rt = true → j.active = true → Route p rt j.visits j.cpu ∧ R rt j.visits j.data
  timer : ∀ cpu, j.timer = some cpu → cpu = j.cpu ∧ (j.visits.tail = [] ∨ j.cpu ≠ p.lastCpu rt)

/-- What the plugin's own steps have to keep. -/
structure SplitPlugin.Keeps (p : SplitPlugin δ) (R : ℕ → List ℕ → δ → Prop) : Prop where
  start : ∀ rt t d, p.isSplit rt = true →
    R rt [p.firstCpu rt] (p.startTimer rt (p.firstCpu rt) (p.jobStart rt t d))
  goesOn : ∀ rt l cpu d, p.isSplit rt = true → R rt l d → p.lastCpu rt ≠ cpu →
    R rt (l ++ [cpu]) (p.startTimer rt cpu (p.migrate rt cpu d))
  stays : ∀ rt l cpu d, p.isSplit rt = true → R rt l d → p.lastCpu rt = cpu →
    R rt (l ++ [cpu]) (p.migrate rt cpu d)

theorem nextCpu_eq_some (h : p.nextCpu rt cpu = some k) :
    cpu < k ∧ 0 < p.runtime rt k ∧ k < p.nrRtCpus := by
  unfold SplitPlugin.nextCpu at h
  have hm := List.mem_of_find?_eq_some h
  rw [List.mem_range'_1] at hm
  have hr := List.find?_some h
  exact ⟨by omega, of_decide_eq_true hr, by omega⟩

/-- A job is on the greatest CPU so far. -/
theorem Route.le (h : Route p rt l cpu) (hk : k ∈ l) : k ≤ cpu := by
  obtain ⟨m, hm⟩ := List.getLast?_eq_some_iff.1 h.last
  have hi := h.increasing
  rw [hm] at hi hk
  rcases List.mem_append.1 hk with hk | hk
  · have := (List.pairwise_append.1 hi).2.2 k hk cpu (List.mem_singleton.2 rfl)
    omega
  · rw [List.mem_singleton] at hk
    omega

theorem Route.ne_nil (h : Route p rt l cpu) : l ≠ [] := by
  rintro rfl
  cases h.first

/-- A job moves on to a CPU after the one where it is. -/
theorem Route.snoc (h : Route p rt l cpu) (hlt : cpu < k) (hr : 0 < p.runtime rt k)
    (hn : k < p.nrRtCpus) : Route p rt (l ++ [k]) k := by
  refine ⟨?_, ?_, ?_, fun x hx => ?_⟩
  · rw [List.pairwise_append]
    refine ⟨h.increasing, List.pairwise_singleton _ _, fun a ha b hb => ?_⟩
    rw [List.mem_singleton] at hb
    have := h.le ha
    omega
  · rw [List.head?_append_of_ne_nil _ h.ne_nil]
    exact h.first
  · rw [List.getLast?_append, List.getLast?_singleton]
    rfl
  · rw [List.tail_append_of_ne_nil h.ne_nil] at hx
    rcases List.mem_append.1 hx with hx | hx
    · exact h.share x hx
    · rw [List.mem_singleton] at hx
      subst hx
      exact ⟨hr, hn⟩

/-! ## The steps of one job -/

namespace JobInv

theorem active_of_timer (h : JobInv p R rt j queued) (ht : j.timer = some cpu) :
    p.isSplit rt = true ∧ j.active = true ∧ j.asleep = false := by
  have hs : p.isSplit rt = true := by
    by_contra hn
    rw [(h.unsplit (by simpa using hn)).1] at ht
    cases ht
  refine ⟨hs, ?_, ?_⟩
  · by_contra hn
    rw [((h.idle (by simpa using hn)).2 hs).2] at ht
    cases ht
  · by_contra hn
    rw [(h.asleep (by simpa using hn)).1] at ht
    cases ht

theorem start (h : JobInv p R rt j queued) (hk : p.Keeps R) (ha : j.active = false) (t : ℕ) :
    let j' := { j with active := true, visits := [j.cpu], data := p.jobStart rt t j.data }
    JobInv p R rt (if p.isSplit rt then j'.startTimer p rt else j') queued := by
  obtain ⟨hsleep, hidle⟩ := h.idle ha
  dsimp only
  split
  · rename_i hs
    obtain ⟨hc, -⟩ := hidle hs
    refine ⟨fun hn => ?_, nofun, h.awake, fun hsl => ?_, fun _ _ => ⟨?_, ?_⟩, fun cpu ht => ?_⟩
    · rw [hs] at hn
      cases hn
    · cases hsleep.symm.trans hsl
    · refine ⟨List.pairwise_singleton _ _, congrArg some hc, rfl, nofun⟩
    · have := hk.start rt t j.data hs
      rw [← hc] at this
      exact this
    · exact ⟨(Option.some.inj ht).symm, Or.inl rfl⟩
  · rename_i hs
    have hs : p.isSplit rt = false := by simpa using hs
    refine ⟨h.unsplit, nofun, h.awake, h.asleep, fun hn => ?_, fun cpu ht => ?_⟩
    · rw [hs] at hn
      cases hn
    · cases (h.unsplit hs).1.symm.trans ht

/-- The timer expires, and no CPU with a share is left. -/
theorem expire_none (h : JobInv p R rt j queued) (ht : j.timer = some cpu) :
    JobInv p R rt { j with timer := none } queued := by
  obtain ⟨hs, ha, hsl⟩ := h.active_of_timer ht
  refine ⟨fun hn => ?_, fun hn => ?_, h.awake, fun hn => ?_, h.route, nofun⟩
  · cases hs.symm.trans hn
  · cases ha.symm.trans hn
  · cases hsl.symm.trans hn

/-- The timer expires, and the migration to the next CPU is requested. -/
theorem expire_some (h : JobInv p R rt j queued) (ht : j.timer = some cpu)
    (hn : p.nextCpu rt cpu = some k) :
    JobInv p R rt { j with timer := none, asleep := true }
      fun x => queued x + if x = k then 1 else 0 := by
  obtain ⟨hs, ha, hsl⟩ := h.active_of_timer ht
  obtain ⟨hc, -⟩ := h.timer cpu ht
  obtain ⟨hlt, hr, hk⟩ := nextCpu_eq_some hn
  refine ⟨fun hn => ?_, fun hn => ?_, nofun, fun _ => ⟨rfl, k, hc ▸ hlt, hr, hk, fun x => ?_⟩,
    h.route, nofun⟩
  · cases hs.symm.trans hn
  · cases ha.symm.trans hn
  · rw [h.awake hsl, Nat.zero_add]

/-- The thread of a CPU moves the task there. -/
theorem migrated (h : JobInv p R rt j queued) (hk : p.Keeps R) (queued' : ℕ → ℕ)
    (hq : 0 < queued cpu) (hq' : ∀ x, queued' x + (if x = cpu then 1 else 0) = queued x) :
    let j' := { j with
      cpu := cpu
      asleep := false
      visits := j.visits ++ [cpu]
      data := p.migrate rt cpu j.data }
    JobInv p R rt (if p.lastCpu rt ≠ cpu then j'.startTimer p rt else j') queued' := by
  -- somebody in a queue of migrations sleeps, is split and has an active job
  have hsl : j.asleep = true := by
    by_contra hn
    rw [h.awake (by simpa using hn)] at hq
    cases hq
  have hs : p.isSplit rt = true := by
    by_contra hn
    cases hsl.symm.trans (h.unsplit (by simpa using hn)).2
  have ha : j.active = true := by
    by_contra hn
    cases hsl.symm.trans (h.idle (by simpa using hn)).1
  obtain ⟨htimer, k, hlt, hr, hn, hcount⟩ := h.asleep hsl
  -- it is in one queue only
  have hck : cpu = k := by
    by_contra hne
    rw [hcount, if_neg hne] at hq
    cases hq
  subst hck
  have hzero : ∀ x, queued' x = 0 := by
    intro x
    have := hq' x
    rw [hcount x] at this
    omega
  obtain ⟨hroute, hR⟩ := h.route hs ha
  dsimp only
  -- before its last CPU, the timer is armed again
  split
  · rename_i hlast
    refine ⟨fun hn => ?_, fun hn => ?_, fun _ => hzero, nofun, fun _ _ => ⟨?_, ?_⟩, fun x hx => ?_⟩
    · cases hs.symm.trans hn
    · cases ha.symm.trans hn
    · exact hroute.snoc hlt hr hn
    · exact hk.goesOn rt _ cpu _ hs hR hlast
    · exact ⟨(Option.some.inj hx).symm, Or.inr (Ne.symm hlast)⟩
  · rename_i hlast
    rw [not_not] at hlast
    refine ⟨fun hn => ?_, fun hn => ?_, fun _ => hzero, nofun, fun _ _ => ⟨?_, ?_⟩, fun x hx => ?_⟩
    · cases hs.symm.trans hn
    · cases ha.symm.trans hn
    · exact hroute.snoc hlt hr hn
    · exact hk.stays rt _ cpu _ hs hR hlast
    · cases htimer.symm.trans hx

theorem complete (h : JobInv p R rt j queued) (hsl : j.asleep = false) :
    let j' := { j with active := false }
    JobInv p R rt (if p.isSplit rt then
      { j' with timer := none, cpu := if j'.cpu ≠ p.firstCpu rt then p.firstCpu rt else j'.cpu }
      else j') queued := by
  dsimp only
  split
  · rename_i hs
    refine ⟨fun hn => ?_, fun _ => ⟨hsl, fun _ => ⟨?_, rfl⟩⟩, h.awake, fun hn => ?_, nofun, nofun⟩
    · cases hs.symm.trans hn
    · dsimp only
      split
      · rfl
      · rename_i hc
        exact not_not.1 hc
    · cases hsl.symm.trans hn
  · rename_i hs
    have hs : p.isSplit rt = false := by simpa using hs
    refine ⟨h.unsplit, fun _ => ⟨hsl, fun hn => ?_⟩, h.awake, h.asleep, nofun, fun x hx => ?_⟩
    · cases hs.symm.trans hn
    · cases (h.unsplit hs).1.symm.trans hx

end JobInv

/-! ## Runs -/

/-- All jobs -/
def SplitInv (p : SplitPlugin δ) (R : ℕ → List ℕ → δ → Prop) (s : SplitState δ) : Prop :=
  ∀ rt, JobInv p R rt (s.job rt) fun cpu => (s.kthread cpu).count rt

/-- A step that changes one job, and the place of its task in the lists. -/
theorem SplitInv.update (h : SplitInv p R s) (rt : ℕ) (hjob : ∀ q, q ≠ rt → s'.job q = s.job q)
    (hqueue : ∀ q, q ≠ rt → ∀ cpu, (s'.kthread cpu).count q = (s.kthread cpu).count q)
    (hrt : JobInv p R rt (s'.job rt) fun cpu => (s'.kthread cpu).count rt) : SplitInv p R s' := by
  intro q
  by_cases hq : q = rt
  · subst hq
    exact hrt
  · have hcount : (fun cpu => (s'.kthread cpu).count q) = fun cpu => (s.kthread cpu).count q :=
      funext (hqueue q hq)
    rw [hjob q hq, hcount]
    exact h q

theorem SplitInv.jobStart (h : SplitInv p R s) (hk : p.Keeps R) (ha : (s.job rt).active = false)
    (t : ℕ) : SplitInv p R (s.jobStart p rt t) := by
  refine h.update rt (fun q hq => Function.update_of_ne hq ..) (fun _ _ _ => rfl) ?_
  have hstart := (h rt).start hk ha t
  unfold SplitState.jobStart SplitState.setJob
  dsimp only at hstart ⊢
  rw [Function.update_self]
  exact hstart

theorem SplitInv.timer (h : SplitInv p R s) (hs : s.timerExpire p rt = some s') :
    SplitInv p R s' := by
  obtain ⟨cpu, ht, rfl⟩ := Option.map_eq_some_iff.1 hs
  -- no CPU with a share comes after this one
  split
  · refine h.update rt (fun q hq => Function.update_of_ne hq ..) (fun _ _ _ => rfl) ?_
    have hexp := (h rt).expire_none ht
    unfold SplitState.setJob
    dsimp only
    rw [Function.update_self]
    exact hexp
  · rename_i k hnext
    have hexp := (h rt).expire_some ht hnext
    refine h.update rt (fun q hq => ?_) (fun q hq x => ?_) ?_
    · exact (Function.update_of_ne hq ..).trans (Function.update_of_ne hq ..)
    · unfold SplitState.requestMigration SplitState.setKthread
      dsimp only
      by_cases hx : x = k
      · subst hx
        rw [Function.update_self, List.count_append]
        simp [SplitState.setJob, Ne.symm hq]
      · rw [Function.update_of_ne hx]
        rfl
    · have hcount : (fun x => ((SplitState.requestMigration
          (s.setJob rt { s.job rt with timer := none }) rt k).kthread x).count rt) =
          fun x => (s.kthread x).count rt + if x = k then 1 else 0 := by
        funext x
        unfold SplitState.requestMigration SplitState.setKthread SplitState.setJob
        dsimp only
        by_cases hx : x = k
        · subst hx
          rw [Function.update_self, List.count_append, if_pos rfl, List.count_singleton_self]
        · rw [Function.update_of_ne hx, if_neg hx]
          rfl
      rw [hcount]
      unfold SplitState.requestMigration SplitState.setKthread SplitState.setJob
      dsimp only
      rw [Function.update_self, Function.update_self]
      exact hexp

theorem SplitInv.thread (h : SplitInv p R s) (hk : p.Keeps R)
    (hs : s.migrationThread p cpu = some s') : SplitInv p R s' := by
  unfold SplitState.migrationThread at hs
  split at hs
  · cases hs
  · rename_i rt rest hlist
    rw [Option.some.injEq] at hs
    subst hs
    refine h.update rt (fun q hq => Function.update_of_ne hq ..) (fun q hq x => ?_) ?_
    · unfold SplitState.setJob SplitState.setKthread
      dsimp only
      by_cases hx : x = cpu
      · subst hx
        rw [Function.update_self, hlist, List.count_cons_of_ne (Ne.symm hq)]
      · rw [Function.update_of_ne hx]
    · have hq : 0 < (s.kthread cpu).count rt := by
        rw [hlist]
        exact List.count_pos_iff.2 List.mem_cons_self
      have hmig := (h rt).migrated hk (fun x => (Function.update s.kthread cpu rest x).count rt) hq
        fun x => by
          by_cases hx : x = cpu
          · subst hx
            rw [Function.update_self, if_pos rfl, hlist, List.count_cons_self]
          · rw [Function.update_of_ne hx, if_neg hx]
            rfl
      unfold SplitState.setJob SplitState.setKthread
      dsimp only at hmig ⊢
      rw [Function.update_self]
      exact hmig

theorem SplitInv.jobComplete (h : SplitInv p R s) (hsl : (s.job rt).asleep = false) :
    SplitInv p R (s.jobComplete p rt) := by
  refine h.update rt (fun q hq => Function.update_of_ne hq ..) (fun _ _ _ => rfl) ?_
  have hdone := (h rt).complete hsl
  unfold SplitState.jobComplete SplitState.setJob
  dsimp only at hdone ⊢
  rw [Function.update_self]
  exact hdone

/-- **One step.** -/
theorem splitStep_inv (hk : p.Keeps R) (op : SplitOp) (h : SplitInv p R s)
    (hs : splitStep p s op = some s') : SplitInv p R s' := by
  cases op with
  | jobStart rt t =>
    rw [splitStep] at hs
    split at hs
    · cases hs
    · rename_i ha
      cases hs
      exact h.jobStart hk (by simpa using ha) t
  | timer rt => exact h.timer hs
  | thread cpu => exact h.thread hk hs
  | jobComplete rt =>
    rw [splitStep] at hs
    split at hs
    · rename_i ha
      rw [Bool.and_eq_true] at ha
      cases hs
      exact h.jobComplete (by simpa using ha.2)
    · cases hs

theorem splitInit_inv (p : SplitPlugin δ) (R : ℕ → List ℕ → δ → Prop) (cpu : ℕ → ℕ)
    (data : ℕ → δ) : SplitInv p R (splitInit p cpu data) := by
  intro rt
  refine ⟨fun _ => ⟨rfl, rfl⟩, fun _ => ⟨rfl, fun hs => ⟨?_, rfl⟩⟩, fun _ _ => rfl, nofun, nofun, nofun⟩
  exact if_pos hs

/-- **All runs.** -/
theorem split_run (hk : p.Keeps R) (cpu : ℕ → ℕ) (data : ℕ → δ) (ops : List SplitOp) :
    Always (splitStep p) (SplitInv p R) (splitInit p cpu data) ops :=
  Always.of_inv (fun _ op _ h hs => splitStep_inv hk op h hs) ops _ (splitInit_inv p R cpu data)

end Resch
