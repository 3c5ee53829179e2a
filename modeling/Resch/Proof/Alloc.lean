import Resch.Proof.PidMap
import Resch.Spec.AllocRun

/-!
# Ids are taken from the arrays

The bitmaps have whole words, and the searches go through all of their bits.

* `reschFfz_free`, `reschFfz_full`: with a free id below the bound the search finds one, and otherwise
  it finds the bound itself, unless this is where the words end.
* `AllocOk`: what `api_init` and `api_component_create` are to do.
* `alloc_iff`: so they do in a run iff `AllocCond` holds of each call.
-/

namespace Resch

open Lib

variable {c : Config} {k : Kernel} {s s' : AllocState} {b : Bitmap 64} {n p rid : ℕ}

/-- An `api_init` that fails leaves the ids in use taken, and another one takes a free id of a
descriptor. -/
def InitOk (c : Config) (s : PidState) : Prop :=
  ((apiInitTake c s.core).2 < 0 ∧
    ∀ q rid, s.held q rid = true → testBit (rid : ℤ) (apiInitTake c s.core).1.pidMap = true) ∨
  ∃ rid : ℕ, (apiInitTake c s.core).2 = rid ∧ rid < c.nrRtTasks ∧
    testBit (rid : ℤ) s.core.pidMap = false ∧
    testBit (rid : ℤ) (apiInitTake c s.core).1.pidMap = true

/-- `api_component_create` takes a free id of a component, or returns none and leaves the bitmap and
the components as they are. -/
def CreateOk (c : Config) (s : ComponentState) : Prop :=
  (∃ cid : ℕ, (s.apiComponentCreate c).2 = cid ∧ cid < c.nrRtComponents ∧
    testBit (cid : ℤ) s.cidMap = false ∧
    testBit (cid : ℤ) (s.apiComponentCreate c).1.cidMap = true) ∨
  ¬ (0 ≤ (s.apiComponentCreate c).2 ∧ (s.apiComponentCreate c).2 < c.nrRtComponents) ∧
    (s.apiComponentCreate c).1.cidMap = s.cidMap ∧
    ∀ cid : ℕ, cid < c.nrRtComponents →
      (s.apiComponentCreate c).1.next (.head cid) = s.next (.head cid) ∧
      (s.apiComponentCreate c).1.prev (.head cid) = s.prev (.head cid)

def AllocOk (c : Config) (s : AllocState) : AllocOp → Prop
  | .pid (.initTake _) _ => InitOk c s.pid
  | .component .create => CreateOk c s.component
  | _ => True

/-- One of the first `n` bits is clear. -/
def HasFree (b : Bitmap 64) (n : ℕ) : Prop := ∃ j < n, testBit (j : ℤ) b = false

/-- `api_init` finds a free id, or the words end with the descriptors and no id in use is that of a
stopped process; and `api_component_create` finds a free id. -/
def AllocCond (c : Config) (s : AllocState) : AllocOp → Prop
  | .pid (.initTake _) _ => HasFree s.pid.core.pidMap c.nrRtTasks ∨
      64 ∣ c.nrRtTasks ∧ ∀ q rid, s.pid.held q rid = true → (s.pid.core.task rid).task ≠ 0 →
        (s.pid.core.proc (s.pid.core.task rid).task).state ≠ .stopped
  | .component .create => HasFree s.component.cidMap c.nrRtComponents
  | _ => True

/-! ## Searching whole words -/

theorem bitsToLongs_le (n : ℕ) : n ≤ bitsToLongs 64 n * 64 := by
  unfold bitsToLongs
  omega

/-- A free id is found before the bits beyond the bound. -/
theorem reschFfz_free (h : HasFree b n) : ∃ m : ℕ, reschFfz b (bitsToLongs 64 n) = m ∧ m < n ∧
    testBit (m : ℤ) b = false := by
  obtain ⟨j, hj, hclear⟩ := h
  have hspec := reschFfz_spec b (bitsToLongs 64 n)
  have hle := bitsToLongs_le n
  by_cases hneg : reschFfz b (bitsToLongs 64 n) < 0
  · have := hspec.of_neg hneg j (by omega)
    simp [hclear] at this
  · obtain ⟨m, hm, -, hbit, hleast⟩ := hspec.of_nonneg hneg
    refine ⟨m, hm, ?_, by simpa using hbit⟩
    by_contra hge
    have := hleast j (by omega)
    simp [hclear] at this

/-- Without one, the bound is taken for an id, unless the words end there. -/
theorem reschFfz_full (h : ¬ HasFree b n) (hbeyond : ∀ j, n ≤ j → testBit (j : ℤ) b = false) :
    if 64 ∣ n then reschFfz b (bitsToLongs 64 n) < 0 else reschFfz b (bitsToLongs 64 n) = n := by
  have hset : ∀ j < n, testBit (j : ℤ) b = true := by
    intro j hj
    by_contra hb
    exact h ⟨j, hj, by simpa using hb⟩
  have hspec := reschFfz_spec b (bitsToLongs 64 n)
  split
  · rename_i hdvd
    by_contra hneg
    obtain ⟨m, -, hlt, hbit, -⟩ := hspec.of_nonneg hneg
    have hm : m < n := by
      unfold bitsToLongs at hlt
      omega
    simp [hset m hm] at hbit
  · rename_i hdvd
    by_cases hneg : reschFfz b (bitsToLongs 64 n) < 0
    · have := hspec.of_neg hneg n (by unfold bitsToLongs; omega)
      simp [hbeyond n le_rfl] at this
    · obtain ⟨m, hm, -, hbit, hleast⟩ := hspec.of_nonneg hneg
      have hge : ¬ m < n := by
        intro hlt
        simp [hset m hlt] at hbit
      have hle : ¬ n < m := by
        intro hlt
        have := hleast n hlt
        simp [hbeyond n le_rfl] at this
      omega

/-! ## Bits that are cleared -/

/-- Every bit of `b'` is one of `b`. -/
def Fewer (b b' : Bitmap 64) : Prop := ∀ j : ℕ, testBit (j : ℤ) b' = true → testBit (j : ℤ) b = true

theorem Fewer.refl (b : Bitmap 64) : Fewer b b := fun _ h => h

theorem fewer_clearBit (i : ℤ) (b : Bitmap 64) : Fewer b (clearBit i b) := by
  intro j hj
  by_cases hi : 0 ≤ i
  · rw [testBit_clearBit (by decide) hi, Bool.and_eq_true] at hj
    exact hj.2
  · unfold clearBit at hj
    rw [if_neg hi] at hj
    exact hj

/-- The process that `resch_task[rid]` points to is stopped. -/
def Dead (s : State) (rid : ℕ) : Prop :=
  (s.task rid).task ≠ 0 ∧ (s.proc (s.task rid).task).state = .stopped

instance (s : State) (rid : ℕ) : Decidable (Dead s rid) := inferInstanceAs (Decidable (_ ∧ _))

/-- `clear_dead_tasks` clears the ids of stopped processes. -/
theorem testBit_clearDeadTasks (c : Config) (s : State) (rid : ℕ) :
    testBit (rid : ℤ) (clearDeadTasks c s).pidMap =
      (testBit (rid : ℤ) s.pidMap && !decide (rid < c.nrRtTasks ∧ Dead s rid)) := by
  have hloop : ∀ (l : List ℕ) (s₁ : State), s₁.task = s.task → s₁.proc = s.proc →
      testBit (rid : ℤ) (l.foldl clearDeadTask s₁).pidMap =
        (testBit (rid : ℤ) s₁.pidMap && !decide (rid ∈ l ∧ Dead s rid)) := by
    intro l
    induction l with
    | nil =>
      intro s₁ _ _
      simp
    | cons i l ih =>
      intro s₁ ht hp
      have hbit : testBit (rid : ℤ) (clearDeadTask s₁ i).pidMap =
          (testBit (rid : ℤ) s₁.pidMap && !decide (rid = i ∧ Dead s rid)) := by
        unfold clearDeadTask Dead
        dsimp only
        rw [ht, hp]
        split
        · rename_i hdead
          rw [testBit_clearBit (by decide) (by omega)]
          by_cases hri : rid = i
          · subst hri
            simp [hdead]
          · simp [hri]
        · rename_i hdead
          by_cases hri : rid = i
          · subst hri
            simp [hdead]
          · simp [hri]
      have hsame : (clearDeadTask s₁ i).task = s₁.task ∧ (clearDeadTask s₁ i).proc = s₁.proc := by
        unfold clearDeadTask
        dsimp only
        split <;> exact ⟨rfl, rfl⟩
      have hmem : decide (rid ∈ i :: l ∧ Dead s rid) =
          (decide (rid = i ∧ Dead s rid) || decide (rid ∈ l ∧ Dead s rid)) := by
        rw [Bool.eq_iff_iff, Bool.or_eq_true, decide_eq_true_iff, decide_eq_true_iff,
          decide_eq_true_iff, List.mem_cons, or_and_right]
      rw [List.foldl_cons, ih _ (hsame.1.trans ht) (hsame.2.trans hp), hbit, hmem, Bool.not_or,
        Bool.and_assoc]
  unfold clearDeadTasks
  rw [hloop _ s rfl rfl]
  simp only [List.mem_range]

/-- A step of a process clears bits, or takes an id. -/
theorem PidOp.fewer (c : Config) (k : Kernel) (s : PidState) {op : PidOp}
    (h : ∀ p, op = .initTake p → reschFfz s.core.pidMap c.pidMapLong < 0) :
    Fewer s.core.pidMap (op.exec c k s).core.pidMap ∧
      ∀ q rid, (op.exec c k s).held q rid = true → s.held q rid = true := by
  cases op with
  | initTake p =>
    have hneg := h p rfl
    have htake : apiInitTake c s.core = (clearDeadTasks c s.core, reschFfz s.core.pidMap c.pidMapLong) :=
      if_pos hneg
    unfold PidOp.exec
    dsimp only
    rw [htake]
    dsimp only
    rw [if_pos hneg]
    refine ⟨fun j hj => ?_, fun q rid hq => hq⟩
    dsimp only at hj
    rw [testBit_clearDeadTasks, Bool.and_eq_true] at hj
    exact hj.1
  | initDesc p rid =>
    obtain ⟨t, proc, heq, -⟩ := reschTaskInit_eq c k s.core rid p
    refine ⟨fun j hj => ?_, fun q r hq => hq⟩
    have hmap : (reschTaskInit c k s.core rid p).pidMap = s.core.pidMap := by rw [heq]
    rw [← hmap]
    exact hj
  | exitDetach p rid =>
    refine ⟨fun j hj => ?_, fun q r hq => hq⟩
    have hmap := (apiExitDetach_updates c k s.core rid).rest.2.1
    rw [← hmap]
    exact hj
  | exitClear p rid => exact ⟨fewer_clearBit _ _, fun q r hq => hq⟩
  | exitPolicy p rid =>
    refine ⟨fun j hj => ?_, fun q r hq => ?_⟩
    · have hmap := (apiExitPolicy_rest c k s.core rid).2
      rw [← hmap]
      exact hj
    · have hheld : ((PidOp.exitPolicy p rid).exec c k s).held q r =
          if q = p ∧ r = rid then false else s.held q r := held_setHeld _ p rid q r false
      rw [hheld] at hq
      split at hq
      · cases hq
      · exact hq
  | stop p => exact ⟨Fewer.refl _, fun q r hq => hq⟩
  | cont p => exact ⟨Fewer.refl _, fun q r hq => hq⟩

theorem ComponentOp.fewer (c : Config) (s : ComponentState) {op : ComponentOp} (h : op ≠ .create) :
    Fewer s.cidMap (op.exec c s).1.cidMap := by
  cases op with
  | create => exact absurd rfl h
  | destroy cid => exact fewer_clearBit _ _
  | compose rid cid =>
    have hmap : (s.apiCompose c rid cid).1.cidMap = s.cidMap := by
      unfold ComponentState.apiCompose ComponentState.listAddTail
      dsimp only
      split
      · rfl
      split
      · rfl
      split
      · rfl
      split <;> rfl
    intro j hj
    rw [← hmap]
    exact hj
  | decompose rid =>
    have hmap : (s.apiDecompose rid).1.cidMap = s.cidMap := by
      unfold ComponentState.apiDecompose ComponentState.listDelInit
      dsimp only
      split
      · rfl
      split <;> rfl
    intro j hj
    rw [← hmap]
    exact hj

/-! ## The invariant -/

/-- No bit beyond the arrays is set, and the ids that processes hold are those of descriptors. -/
structure AllocInv (c : Config) (s : AllocState) : Prop where
  pidBits : ∀ j, c.nrRtTasks ≤ j → testBit (j : ℤ) s.pid.core.pidMap = false
  cidBits : ∀ j, c.nrRtComponents ≤ j → testBit (j : ℤ) s.component.cidMap = false
  held : ∀ q rid, s.pid.held q rid = true → rid < c.nrRtTasks

theorem Fewer.beyond {b' : Bitmap 64} (h : Fewer b b') (hb : ∀ j, n ≤ j → testBit (j : ℤ) b = false) :
    ∀ j, n ≤ j → testBit (j : ℤ) b' = false := by
  intro j hj
  by_contra hc
  have := h j (by simpa using hc)
  rw [hb j hj] at this
  cases this

/-- A bit below the bound is set. -/
theorem setBit_beyond {m : ℕ} (hm : m < n) (hb : ∀ j, n ≤ j → testBit (j : ℤ) b = false) :
    ∀ j, n ≤ j → testBit (j : ℤ) (setBit (m : ℤ) b) = false := by
  intro j hj
  have hne : ¬ (j : ℤ) = m := by omega
  rw [testBit_setBit (by decide) (by omega), hb j hj, decide_eq_false hne]
  rfl

/-- What `api_init` takes from a map with a free id -/
theorem apiInitTake_hasFree {s : State} (h : HasFree s.pidMap c.nrRtTasks) :
    ∃ m : ℕ, apiInitTake c s = ({ s with pidMap := setBit m s.pidMap }, (m : ℤ)) ∧
      m < c.nrRtTasks ∧ testBit (m : ℤ) s.pidMap = false := by
  obtain ⟨m, hm, hlt, hclear⟩ := reschFfz_free h
  have hm' : reschFfz s.pidMap c.pidMapLong = m := hm
  refine ⟨m, ?_, hlt, hclear⟩
  unfold apiInitTake
  rw [hm']
  exact if_neg (by omega)

/-- What `api_component_create` takes from a map with a free id -/
theorem apiComponentCreate_hasFree {s : ComponentState} (h : HasFree s.cidMap c.nrRtComponents) :
    ∃ m : ℕ, (s.apiComponentCreate c).2 = m ∧
      (s.apiComponentCreate c).1.cidMap = setBit (m : ℤ) s.cidMap ∧
      m < c.nrRtComponents ∧ testBit (m : ℤ) s.cidMap = false := by
  obtain ⟨m, hm, hlt, hclear⟩ := reschFfz_free h
  have hcreate : s.apiComponentCreate c =
      (({ s with cidMap := setBit (m : ℤ) s.cidMap, live := Function.update s.live m true }).initListHead
        (.head m), (m : ℤ)) := by
    unfold ComponentState.apiComponentCreate
    rw [hm]
    exact if_neg (by omega)
  rw [hcreate]
  exact ⟨m, rfl, rfl, hlt, hclear⟩

theorem pidStep_eq_some {s s' : PidState} {a : PidOp × Kernel} (h : pidStep c s a = some s') :
    a.1.enabled s = true ∧ s' = a.1.exec c a.2 s := by
  unfold pidStep at h
  split at h
  · exact ⟨‹_›, (Option.some.inj h).symm⟩
  · cases h

/-- **The step lemma.** -/
theorem AllocInv.step {op : AllocOp} (h : AllocInv c s) (hc : AllocCond c s op)
    (hs : allocStep c s op = some s') : AllocInv c s' := by
  obtain ⟨hp, hcid, hheld⟩ := h
  cases op with
  | pid op k =>
    obtain ⟨pid, hpid, rfl⟩ := Option.map_eq_some_iff.1 hs
    obtain ⟨-, rfl⟩ := pidStep_eq_some hpid
    by_cases hfree : ∃ p, op = .initTake p ∧ HasFree s.pid.core.pidMap c.nrRtTasks
    · obtain ⟨p, rfl, hfree⟩ := hfree
      obtain ⟨m, htake, hlt, -⟩ := apiInitTake_hasFree hfree
      have hexec : (PidOp.initTake p).exec c k s.pid =
          (({ s.pid with core := { s.pid.core with pidMap := setBit m s.pid.core.pidMap } }.setCall p
            (.initDesc m)).setHeld p m true) := by
        unfold PidOp.exec
        dsimp only
        rw [htake]
        exact if_neg (by omega)
      dsimp only
      rw [hexec]
      refine ⟨setBit_beyond hlt hp, hcid, fun q rid hq => ?_⟩
      dsimp only at hq
      rw [held_setHeld] at hq
      split at hq
      · rename_i hqm
        rw [hqm.2]
        exact hlt
      · exact hheld q rid hq
    · -- a full map, or another step
      have hneg : ∀ p, op = .initTake p → reschFfz s.pid.core.pidMap c.pidMapLong < 0 := by
        rintro p rfl
        have hfull : ¬ HasFree s.pid.core.pidMap c.nrRtTasks := fun hf => hfree ⟨p, rfl, hf⟩
        obtain ⟨hdvd, -⟩ := hc.resolve_left hfull
        have := reschFfz_full hfull hp
        rw [if_pos hdvd] at this
        exact this
      obtain ⟨hfew, hheld'⟩ := PidOp.fewer c k s.pid hneg
      exact ⟨hfew.beyond hp, hcid, fun q rid hq => hheld q rid (hheld' q rid hq)⟩
  | component op =>
    obtain rfl : s' = { s with component := (op.exec c s.component).1 } := (Option.some.inj hs).symm
    by_cases hcreate : op = .create
    · subst hcreate
      obtain ⟨m, -, hmap, hlt, -⟩ := apiComponentCreate_hasFree hc
      have hbits := setBit_beyond hlt hcid
      rw [← hmap] at hbits
      exact ⟨hp, hbits, hheld⟩
    · exact ⟨hp, (ComponentOp.fewer c s.component hcreate).beyond hcid, hheld⟩

/-! ## The calls -/

/-- `api_init` is right exactly under its condition. -/
theorem AllocInv.initOk_iff (h : AllocInv c s) (p : ℕ) (k : Kernel) :
    InitOk c s.pid ↔ AllocCond c s (.pid (.initTake p) k) := by
  unfold AllocCond
  dsimp only
  by_cases hfree : HasFree s.pid.core.pidMap c.nrRtTasks
  · obtain ⟨m, htake, hlt, hclear⟩ := apiInitTake_hasFree hfree
    refine ⟨fun _ => Or.inl hfree, fun _ => Or.inr ⟨m, ?_, hlt, hclear, ?_⟩⟩
    · rw [htake]
    · rw [htake]
      dsimp only
      rw [testBit_setBit (by decide) (by omega)]
      simp
  have hset : ∀ j < c.nrRtTasks, testBit (j : ℤ) s.pid.core.pidMap = true := by
    intro j hj
    by_contra hb
    exact hfree ⟨j, hj, by simpa using hb⟩
  have hfull := reschFfz_full hfree h.pidBits
  by_cases hdvd : 64 ∣ c.nrRtTasks
  · -- the call fails, and clears the ids of stopped processes
    rw [if_pos hdvd] at hfull
    have htake : apiInitTake c s.pid.core =
        (clearDeadTasks c s.pid.core, reschFfz s.pid.core.pidMap c.pidMapLong) := if_pos hfull
    -- an id is lost when its process has stopped
    have hbits : (∀ q rid, s.pid.held q rid = true →
          testBit (rid : ℤ) (clearDeadTasks c s.pid.core).pidMap = true) ↔
        ∀ q rid, s.pid.held q rid = true → (s.pid.core.task rid).task ≠ 0 →
          (s.pid.core.proc (s.pid.core.task rid).task).state ≠ .stopped := by
      refine forall_congr' fun q => forall_congr' fun rid => forall_congr' fun hq => ?_
      have hlt := h.held q rid hq
      rw [testBit_clearDeadTasks, hset rid hlt, Bool.true_and, Bool.not_eq_true',
        decide_eq_false_iff_not]
      unfold Dead
      constructor
      · intro hd ht hstop
        exact hd ⟨hlt, ht, hstop⟩
      · rintro hd ⟨-, ht, hstop⟩
        exact hd ht hstop
    unfold InitOk
    rw [htake]
    dsimp only
    rw [hbits]
    constructor
    · rintro (⟨-, hok⟩ | ⟨rid, hrid, -⟩)
      · exact Or.inr ⟨hdvd, hok⟩
      · have : reschFfz s.pid.core.pidMap c.pidMapLong < 0 := hfull
        omega
    · rintro (hf | ⟨-, hok⟩)
      · exact absurd hf hfree
      · exact Or.inl ⟨hfull, hok⟩
  · -- the bit found is past the last id, and the call takes it for one
    rw [if_neg hdvd] at hfull
    have hid : (apiInitTake c s.pid.core).2 = c.nrRtTasks := by
      unfold apiInitTake
      dsimp only
      split <;> exact hfull
    unfold InitOk
    rw [hid]
    constructor
    · rintro (⟨hneg, -⟩ | ⟨rid, hrid, hlt, -⟩)
      · omega
      · omega
    · rintro (hf | ⟨hd, -⟩)
      · exact absurd hf hfree
      · exact absurd hd hdvd

/-- `api_component_create` is right exactly with a free id: its error is the id of a component, and
the id it finds otherwise is that of none. -/
theorem AllocInv.createOk_iff (h : AllocInv c s) (hpos : 0 < c.nrRtComponents) :
    CreateOk c s.component ↔ HasFree s.component.cidMap c.nrRtComponents := by
  constructor
  · intro hok
    by_contra hfree
    have hfull := reschFfz_full hfree h.cidBits
    by_cases hdvd : 64 ∣ c.nrRtComponents
    · rw [if_pos hdvd] at hfull
      have hcreate : s.component.apiComponentCreate c =
          (s.component.initListHead (.head resFault), resFault) := if_pos hfull
      have hge := Nat.le_of_dvd hpos hdvd
      unfold CreateOk at hok
      rw [hcreate] at hok
      unfold resFault at hok
      rcases hok with ⟨cid, hcid, hlt, hclear, -⟩ | ⟨hbad, -⟩
      · exact hfree ⟨cid, hlt, hclear⟩
      · dsimp only at hbad
        omega
    · rw [if_neg hdvd] at hfull
      have hid : (s.component.apiComponentCreate c).2 = c.nrRtComponents ∧
          (s.component.apiComponentCreate c).1.cidMap =
            setBit (c.nrRtComponents : ℤ) s.component.cidMap := by
        unfold ComponentState.apiComponentCreate
        rw [hfull]
        dsimp only
        rw [if_neg (by omega)]
        exact ⟨rfl, rfl⟩
      rcases hok with ⟨cid, hcid, hlt, -⟩ | ⟨-, hmap, -⟩
      · omega
      · -- the bit beyond the array has been set
        have hclear := h.cidBits c.nrRtComponents le_rfl
        rw [← hmap, hid.2, testBit_setBit (by decide) (by omega)] at hclear
        simp at hclear
  · intro hfree
    obtain ⟨m, hid, hmap, hlt, hclear⟩ := apiComponentCreate_hasFree hfree
    refine Or.inl ⟨m, hid, hlt, hclear, ?_⟩
    rw [hmap, testBit_setBit (by decide) (by omega)]
    simp

/-! ## Runs -/

theorem AllocInv.allocOk_iff (h : AllocInv c s) (hpos : 0 < c.nrRtComponents) (op : AllocOp) :
    AllocOk c s op ↔ AllocCond c s op := by
  cases op with
  | pid op k =>
    cases op with
    | initTake p => exact h.initOk_iff p k
    | initDesc p rid => exact Iff.rfl
    | exitDetach p rid => exact Iff.rfl
    | exitClear p rid => exact Iff.rfl
    | exitPolicy p rid => exact Iff.rfl
    | stop p => exact Iff.rfl
    | cont p => exact Iff.rfl
  | component op =>
    cases op with
    | create => exact h.createOk_iff hpos
    | destroy cid => exact Iff.rfl
    | compose rid cid => exact Iff.rfl
    | decompose rid => exact Iff.rfl

theorem allocInit_inv (c : Config) (jiffies : ℕ) (proc : ℕ → Proc) (before : ℤ → Bool)
    (stray : ℤ → Option ListNode × Option ListNode) :
    AllocInv c (allocInit c jiffies proc before stray) := by
  have hzero : ∀ j : ℕ, testBit (j : ℤ) (fun _ => 0 : Bitmap 64) = false := by
    intro j
    simp [testBit]
  exact ⟨fun j _ => hzero j, fun j _ => hzero j, fun q rid hq => Bool.noConfusion hq⟩

/-- **Ids are taken from the arrays, and failures are clean**, in a run iff every
`api_component_create` finds a free id below the bound, and every `api_init` does or fails in a map
whose words end with the descriptors and none of whose ids in use is that of a stopped process. -/
theorem alloc_iff (c : Config) (hpos : 0 < c.nrRtComponents) (jiffies : ℕ) (proc : ℕ → Proc)
    (before : ℤ → Bool) (stray : ℤ → Option ListNode × Option ListNode) (ops : List AllocOp) :
    Each (allocStep c) (AllocOk c) (allocInit c jiffies proc before stray) ops ↔
      Each (allocStep c) (AllocCond c) (allocInit c jiffies proc before stray) ops :=
  Each.iff_of_kept (fun _ _ _ h hc hs => h.step hc hs) (fun _ op _ h _ => h.allocOk_iff hpos op) ops _
    (allocInit_inv c jiffies proc before stray)

/-- A process and a component with one descriptor and one component -/
theorem alloc_iff_small :
    Each (allocStep (.small false)) (AllocOk (.small false))
        (allocInit (.small false) 0 (fun _ => .fair) (fun _ => false) fun _ => (none, none))
        [.pid (.initTake 1) .accepting, .component .create] ↔
      Each (allocStep (.small false)) (AllocCond (.small false))
        (allocInit (.small false) 0 (fun _ => .fair) (fun _ => false) fun _ => (none, none))
        [.pid (.initTake 1) .accepting, .component .create] :=
  alloc_iff (.small false) (by decide) 0 (fun _ => .fair) (fun _ => false) (fun _ => (none, none)) _

/-- With one descriptor, a second process gets the id of none. -/
theorem alloc_not : ¬ ∀ (c : Config), 0 < c.nrRtComponents → ∀ (jiffies : ℕ) (proc : ℕ → Proc)
    (before : ℤ → Bool) (stray : ℤ → Option ListNode × Option ListNode) (ops : List AllocOp),
    Each (allocStep c) (AllocOk c) (allocInit c jiffies proc before stray) ops := by
  intro h
  have hrun := h (.small false) (by decide) 0 (fun _ => .fair) (fun _ => false) (fun _ => (none, none))
    [.pid (.initTake 1) .accepting, .pid (.initTake 2) .accepting]
  have hok : InitOk (.small false) ((PidOp.initTake 1).exec (.small false) .accepting
      (pidInit 0 fun _ => .fair)) := (((hrun _ rfl).2) _ rfl).1
  have hid : (apiInitTake (.small false) ((PidOp.initTake 1).exec (.small false) .accepting
      (pidInit 0 fun _ => .fair)).core).2 = 1 := by decide +kernel
  rcases hok with ⟨hneg, -⟩ | ⟨rid, hrid, hlt, -⟩
  · rw [hid] at hneg
    omega
  · rw [hid] at hrid
    have : rid < 1 := hlt
    omega

end Resch
