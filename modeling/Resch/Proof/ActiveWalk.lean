import Resch.Lib.Walk
import Resch.Proof.Fields
import Resch.Proof.Place

/-!
# Walking an active queue (`sched.c`)

* `activeTasks`: the tasks of an active queue, by levels and in the order of each level.
* `Walks`: the walks forward and backward and the count see these tasks, each once.
* `active_walks_iff`: they do iff level 63 is empty. The search for the level after it looks at
  bit 64 and on, for which `resch_fns` shifts its mask by the width of a word, so that it finds the
  levels before it again.
-/

namespace Resch

open Lib

variable {s : State} {cpu rt x y i m n : ℕ} {l a b : List ℕ}

/-- The levels from `i` on, one after the other -/
def levelsFrom (s : State) (cpu i : ℕ) : List ℕ :=
  (List.range' i (reschPrioMax.toNat - i)).flatMap fun j : ℕ => (s.lo cpu).queue j

/-- The tasks of an active queue, by levels and in the order of each level -/
def activeTasks (s : State) (cpu : ℕ) : List ℕ := levelsFrom s cpu 0

/-- The active queue of a CPU is well formed. -/
structure ActiveOk (s : State) (cpu : ℕ) : Prop where
  bits : ∀ i, 0 ≤ i → (testBit i (s.lo cpu).bitmap = true ↔ (s.lo cpu).queue i ≠ [])
  nodup : ∀ i, ((s.lo cpu).queue i).Nodup
  level : ∀ i rt, rt ∈ (s.lo cpu).queue i → 0 ≤ i ∧ i < reschPrioMax ∧
    prioIndex (s.task rt).prio = i ∧ (s.task rt).cpuId = cpu ∧ s.isActive rt = true
  active : ∀ rt, s.isActive rt = true → (s.task rt).cpuId = cpu →
    rt ∈ (s.lo cpu).queue (prioIndex (s.task rt).prio)

/-- What the walks of an active queue are to see. -/
structure Walks (s : State) (cpu : ℕ) : Prop where
  all : ∀ rt, rt ∈ activeTasks s cpu ↔ s.isActive rt = true ∧ (s.task rt).cpuId = cpu
  once : (activeTasks s cpu).Nodup
  ordered : (activeTasks s cpu).Pairwise fun x y => (s.task y).prio ≤ (s.task x).prio
  forward : ∀ n, visited (activeNextPrioTask s) n (activeHighestPrioTask s cpu) =
    (activeTasks s cpu).take n
  inverse : ∀ x ∈ activeTasks s cpu, ∀ y ∈ activeTasks s cpu,
    activeNextPrioTask s x = some y ↔ activePrevPrioTask s y = some x
  number : ∀ n, 1 ≤ n → activeNumberTask s cpu n = (activeTasks s cpu)[n - 1]?

/-- The agreement of queues and descriptors that the core keeps is enough. -/
theorem Queued.activeOk (h : Queued s s.place) (cpu : ℕ) : ActiveOk s cpu := by
  have hplace : ∀ i rt, rt ∈ (s.lo cpu).queue i → s.isActive rt = true ∧
      (s.task rt).cpuId = cpu ∧ prioIndex (s.task rt).prio = i := by
    intro i rt hrt
    rw [h.mem_iff] at hrt
    unfold State.place State.placeAt at hrt
    split at hrt
    · rename_i hact
      rw [Option.some.injEq, Prod.mk.injEq] at hrt
      exact ⟨hact, hrt⟩
    · cases hrt
  refine ⟨h.bits cpu, fun i => h.placed.nodup (cpu, i), fun i rt hrt => ?_, fun rt hact hcpu => ?_⟩
  · obtain ⟨hact, hcpu, hidx⟩ := hplace i rt hrt
    obtain ⟨h0, hmax⟩ := h.range rt (cpu, i) (h.mem_iff.1 hrt)
    exact ⟨h0, hmax, hidx, hcpu, hact⟩
  · refine h.mem_iff.2 ((place_of_active hact).trans ?_)
    rw [hcpu]

/-! ## Levels -/

theorem nextIn_append (hx : x ∉ a) : nextIn (a ++ x :: b) x = b.head? := by
  have hidx : (a ++ x :: b).idxOf x = a.length := by
    rw [List.idxOf_append_of_notMem hx, List.idxOf_cons_self, Nat.add_zero]
  unfold nextIn
  rw [hidx, List.getElem?_append_right (by omega), Nat.add_sub_cancel_left, List.getElem?_cons_succ,
    List.head?_eq_getElem?]

theorem prevIn_append (hx : x ∉ a) : prevIn (a ++ x :: b) x = a.getLast? := by
  have hidx : (a ++ x :: b).idxOf x = a.length := by
    rw [List.idxOf_append_of_notMem hx, List.idxOf_cons_self, Nat.add_zero]
  unfold prevIn
  rw [hidx]
  by_cases ha : a = []
  · subst ha
    rfl
  · have hpos : 0 < a.length := List.length_pos_iff.2 ha
    rw [if_neg (by omega), List.getElem?_append_left (by omega), List.getLast?_eq_getElem?]

theorem levelsFrom_of_lt (hi : i < reschPrioMax.toNat) :
    levelsFrom s cpu i = (s.lo cpu).queue i ++ levelsFrom s cpu (i + 1) := by
  unfold levelsFrom
  rw [show reschPrioMax.toNat - i = reschPrioMax.toNat - (i + 1) + 1 by omega, List.range'_succ,
    List.flatMap_cons]

theorem levelsFrom_of_le (hi : reschPrioMax.toNat ≤ i) : levelsFrom s cpu i = [] := by
  unfold levelsFrom
  rw [Nat.sub_eq_zero_of_le hi]
  rfl

/-- Empty levels make no difference. -/
theorem levelsFrom_skip (hm : i ≤ m) (he : ∀ j : ℕ, i ≤ j → j < m → (s.lo cpu).queue j = []) :
    levelsFrom s cpu i = levelsFrom s cpu m := by
  induction m, hm using Nat.le_induction with
  | base => rfl
  | succ m hm ih =>
    rw [ih fun j hij hjm => he j hij (by omega)]
    rcases lt_or_ge m reschPrioMax.toNat with h | h
    · rw [levelsFrom_of_lt h, he m hm (by omega), List.nil_append]
    · rw [levelsFrom_of_le h, levelsFrom_of_le (by omega)]

theorem mem_levelsFrom (h : ActiveOk s cpu) :
    rt ∈ levelsFrom s cpu i ↔ s.isActive rt = true ∧ (s.task rt).cpuId = cpu ∧
      i ≤ prioIndex (s.task rt).prio := by
  unfold levelsFrom
  rw [List.mem_flatMap]
  constructor
  · rintro ⟨j, hj, hrt⟩
    rw [List.mem_range'_1] at hj
    obtain ⟨-, -, hidx, hcpu, hact⟩ := h.level j rt hrt
    refine ⟨hact, hcpu, ?_⟩
    omega
  · rintro ⟨hact, hcpu, hle⟩
    have hmem := h.active rt hact hcpu
    obtain ⟨h0, hmax, -⟩ := h.level _ rt hmem
    refine ⟨(prioIndex (s.task rt).prio).toNat, ?_, ?_⟩
    · rw [List.mem_range'_1]
      omega
    · rw [Int.toNat_of_nonneg h0]
      exact hmem

/-- The tasks of the levels from `i` on have at most the priority of level `i`, highest first. -/
theorem levelsFrom_ordered (h : ActiveOk s cpu) : ∀ n i, i + n = reschPrioMax.toNat →
    (levelsFrom s cpu i).Nodup ∧
      (levelsFrom s cpu i).Pairwise fun x y => (s.task y).prio ≤ (s.task x).prio := by
  intro n
  induction n with
  | zero =>
    intro i hi
    rw [levelsFrom_of_le (by omega)]
    exact ⟨List.nodup_nil, List.Pairwise.nil⟩
  | succ n ih =>
    intro i hi
    obtain ⟨hnodup, hsort⟩ := ih (i + 1) (by omega)
    have hlevel : ∀ x ∈ (s.lo cpu).queue i, prioIndex (s.task x).prio = i :=
      fun x hx => (h.level i x hx).2.2.1
    have hlater : ∀ y ∈ levelsFrom s cpu (i + 1), (i + 1 : ℕ) ≤ prioIndex (s.task y).prio :=
      fun y hy => ((mem_levelsFrom h).1 hy).2.2
    rw [levelsFrom_of_lt (by omega), List.nodup_append, List.pairwise_append]
    refine ⟨⟨h.nodup i, hnodup, fun x hx y hy hxy => ?_⟩, ?_, hsort, fun x hx y hy => ?_⟩
    · subst hxy
      have h1 := hlevel x hx
      have h2 := hlater x hy
      omega
    · refine List.pairwise_of_forall_mem_list fun x hx y hy => ?_
      have h1 := hlevel x hx
      have h2 := hlevel y hy
      unfold prioIndex at h1 h2
      omega
    · have h1 := hlevel x hx
      have h2 := hlater y hy
      unfold prioIndex at h1 h2
      omega

/-! ## The searches for a level -/

/-- What a search finds that starts at level `i`: the levels from there on are those from the
result on. -/
def Finds (s : State) (cpu i : ℕ) (r : ℤ) : Prop :=
  (r < 0 ∧ levelsFrom s cpu i = []) ∨ ∃ m : ℕ, r = m ∧ i ≤ m ∧ (s.lo cpu).queue m ≠ [] ∧
    levelsFrom s cpu i = (s.lo cpu).queue m ++ levelsFrom s cpu (m + 1)

theorem ActiveOk.finds (h : ActiveOk s cpu) {r : ℤ}
    (hr : IsLeastBit (fun j => testBit (j : ℤ) (s.lo cpu).bitmap && decide (i ≤ j))
      (reschPrioLong * 64) r) : Finds s cpu i r := by
  have hempty : ∀ j : ℕ, i ≤ j → (testBit (j : ℤ) (s.lo cpu).bitmap && decide (i ≤ j)) = false →
      (s.lo cpu).queue j = [] := by
    intro j hij hj
    by_contra hne
    rw [(h.bits j (Int.natCast_nonneg j)).2 hne] at hj
    simp [hij] at hj
  have hmax : reschPrioMax.toNat ≤ reschPrioLong * 64 := by decide
  rcases hr with ⟨rfl, hnone⟩ | ⟨m, rfl, hm, hbit, hbefore⟩
  · refine Or.inl ⟨by omega, ?_⟩
    rcases le_or_gt i reschPrioMax.toNat with hi | hi
    · rw [levelsFrom_skip hi fun j hij hj => hempty j hij (hnone j (by omega)),
        levelsFrom_of_le le_rfl]
    · exact levelsFrom_of_le hi.le
  · rw [Bool.and_eq_true, decide_eq_true_iff] at hbit
    obtain ⟨hset, him⟩ := hbit
    have hne := (h.bits m (Int.natCast_nonneg m)).1 hset
    obtain ⟨x, hx⟩ := List.exists_mem_of_ne_nil _ hne
    obtain ⟨-, hlt, -⟩ := h.level m x hx
    refine Or.inr ⟨m, rfl, him, hne, ?_⟩
    rw [levelsFrom_skip him fun j hij hj => hempty j hij (hbefore j hj),
      levelsFrom_of_lt (by omega)]

theorem ActiveOk.finds_ffs (h : ActiveOk s cpu) :
    Finds s cpu 0 (reschFfs (s.lo cpu).bitmap reschPrioLong) := by
  refine h.finds ?_
  simpa using reschFfs_spec (s.lo cpu).bitmap reschPrioLong

/-- `resch_fns` is right except at the first bit of a word that is not the first one. -/
theorem ActiveOk.finds_fns (h : ActiveOk s cpu) (hi : i ≤ reschPrioMax.toNat) (hw : i ≠ 64) :
    Finds s cpu i (reschFns (s.lo cpu).bitmap i reschPrioLong) := by
  have hmax : reschPrioMax.toNat = 98 := rfl
  refine h.finds ?_
  rcases Nat.eq_zero_or_pos i with rfl | hpos
  · simpa using reschFns_zero (s.lo cpu).bitmap reschPrioLong
  · refine reschFns_spec (by omega) ?_
    calc i ≤ 98 := by omega
      _ < reschPrioLong * 64 := by decide

theorem activeHighest_eq (h : ActiveOk s cpu) :
    activeHighestPrioTask s cpu = (activeTasks s cpu).head? := by
  unfold activeHighestPrioTask activeTasks
  dsimp only
  rcases h.finds_ffs with ⟨hneg, hl⟩ | ⟨m, hr, -, hne, hl⟩
  · rw [if_pos hneg, hl]
    rfl
  · rw [hr, if_neg (by omega), hl, List.head?_append_of_ne_nil _ hne]

/-! ## Forward -/

theorem ActiveOk.notMem_left (h : ActiveOk s cpu) {j : ℤ} (hq : (s.lo cpu).queue j = a ++ x :: b) :
    x ∉ a := by
  intro hx
  have hn := h.nodup j
  rw [hq, List.nodup_append] at hn
  exact hn.2.2 x hx x List.mem_cons_self rfl

/-- The step to the next task, from a task in level `i`. -/
theorem activeNext_eq (h : ActiveOk s cpu) (hi : i < reschPrioMax.toNat) (hw : i ≠ 63)
    (hq : (s.lo cpu).queue i = a ++ x :: b) :
    activeNextPrioTask s x = (b ++ levelsFrom s cpu (i + 1)).head? := by
  have hx : x ∈ (s.lo cpu).queue i := by
    rw [hq]
    exact List.mem_append_right _ List.mem_cons_self
  obtain ⟨-, -, hidx, hcpu, -⟩ := h.level i x hx
  unfold activeNextPrioTask
  rw [hidx, hcpu]
  dsimp only
  rw [hq, nextIn_append (h.notMem_left hq)]
  cases b with
  | cons y b => rfl
  | nil =>
    rw [List.nil_append]
    dsimp only [List.head?_nil]
    have hfind := h.finds_fns (i := i + 1) (by omega) (by omega)
    rw [Int.natCast_succ] at hfind
    rcases hfind with ⟨hneg, hl⟩ | ⟨m, hr, -, hne, hl⟩
    · rw [if_pos hneg, hl]
      rfl
    · rw [hr, if_neg (by omega), hl, List.head?_append_of_ne_nil _ hne]

theorem follows_levelsFrom (h : ActiveOk s cpu) (he : (s.lo cpu).queue 63 = []) :
    ∀ n i, i + n = reschPrioMax.toNat → Follows (activeNextPrioTask s) (levelsFrom s cpu i) := by
  intro n
  induction n with
  | zero =>
    intro i hi
    rw [levelsFrom_of_le (by omega)]
    trivial
  | succ n ih =>
    intro i hi
    rw [levelsFrom_of_lt (by omega)]
    refine (ih (i + 1) (by omega)).append fun a x b hq => activeNext_eq h (by omega) ?_ hq
    rintro rfl
    have he : (s.lo cpu).queue ((63 : ℕ) : ℤ) = [] := he
    rw [he] at hq
    simp at hq

/-! ## Backward -/

/-- The levels before `i`, from the last task on -/
def levelsBefore (s : State) (cpu i : ℕ) : List ℕ :=
  ((List.range i).flatMap fun j : ℕ => (s.lo cpu).queue j).reverse

theorem levelsBefore_succ : levelsBefore s cpu (i + 1) =
    ((s.lo cpu).queue i).reverse ++ levelsBefore s cpu i := by
  unfold levelsBefore
  rw [List.range_succ, List.flatMap_append, List.reverse_append]
  simp

theorem levelsBefore_skip (hm : m ≤ i) (he : ∀ j : ℕ, m ≤ j → j < i → (s.lo cpu).queue j = []) :
    levelsBefore s cpu i = levelsBefore s cpu m := by
  induction i, hm using Nat.le_induction with
  | base => rfl
  | succ i hm ih =>
    rw [levelsBefore_succ, he i hm (by omega), ih fun j hmj hji => he j hmj (by omega)]
    rfl

theorem activePrev_eq (h : ActiveOk s cpu) (hi : i < reschPrioMax.toNat)
    (hq : (s.lo cpu).queue i = b.reverse ++ x :: a) :
    activePrevPrioTask s x = (b ++ levelsBefore s cpu i).head? := by
  have hx : x ∈ (s.lo cpu).queue i := by
    rw [hq]
    exact List.mem_append_right _ List.mem_cons_self
  obtain ⟨-, -, hidx, hcpu, -⟩ := h.level i x hx
  unfold activePrevPrioTask
  rw [hidx, hcpu]
  dsimp only
  rw [hq, prevIn_append (h.notMem_left hq), List.getLast?_reverse]
  cases b with
  | cons y b => rfl
  | nil =>
    rw [List.nil_append]
    dsimp only [List.head?_nil]
    have hmax : reschPrioMax.toNat = 98 := rfl
    have hempty : ∀ j : ℕ, testBit (j : ℤ) (s.lo cpu).bitmap = false → (s.lo cpu).queue j = [] := by
      intro j hj
      by_contra hne
      rw [(h.bits j (Int.natCast_nonneg j)).2 hne] at hj
      cases hj
    cases i with
    | zero => rfl
    | succ i =>
      have hlen : i < reschPrioLong * 64 := by
        have : reschPrioLong * 64 = 128 := rfl
        omega
      rw [Int.natCast_succ, Int.add_sub_cancel]
      rcases reschFps_spec (b := (s.lo cpu).bitmap) hlen with ⟨hr, hnone⟩ | ⟨m, hr, hm, hset, hlater⟩
      · rw [hr, if_pos (by omega),
          levelsBefore_skip (Nat.zero_le _) fun j _ hj => hempty j (hnone j (by omega))]
        rfl
      · have hne := (h.bits m (Int.natCast_nonneg m)).1 hset
        rw [hr, if_neg (by omega), levelsBefore_skip (show m + 1 ≤ i + 1 by omega)
          fun j hmj hj => hempty j (hlater j hmj (by omega)), levelsBefore_succ,
          List.head?_append_of_ne_nil _ (by simpa using hne), List.head?_reverse]

theorem follows_levelsBefore (h : ActiveOk s cpu) (hi : i ≤ reschPrioMax.toNat) :
    Follows (activePrevPrioTask s) (levelsBefore s cpu i) := by
  induction i with
  | zero => trivial
  | succ i ih =>
    rw [levelsBefore_succ]
    refine (ih (by omega)).append fun a x b hq => activePrev_eq (a := a.reverse) h (by omega) ?_
    rw [← List.reverse_reverse ((s.lo cpu).queue i), hq]
    simp

theorem activeTasks_reverse :
    (activeTasks s cpu).reverse = levelsBefore s cpu reschPrioMax.toNat := by
  unfold activeTasks levelsFrom levelsBefore
  rw [List.range_eq_range', Nat.sub_zero]

/-! ## The n-th task -/

theorem activeNumberLoop_eq (h : ActiveOk s cpu) (he : (s.lo cpu).queue 63 = []) :
    ∀ turns i idx : ℕ, i < n → n - i ≤ turns → idx ≤ reschPrioMax.toNat → idx ≠ 64 →
      activeNumberLoop (s.lo cpu) n turns i idx = (levelsFrom s cpu idx)[n - i - 1]? := by
  intro turns
  induction turns with
  | zero =>
    intro i idx hi hturns
    omega
  | succ turns ih =>
    intro i idx hi hturns hidx hw
    rw [activeNumberLoop, if_pos hi]
    dsimp only
    rcases h.finds_fns hidx hw with ⟨hneg, hl⟩ | ⟨m, hr, -, hne, hl⟩
    · rw [if_pos hneg, hl]
      rfl
    · rw [hr, if_neg (by omega), hl]
      obtain ⟨x, hx⟩ := List.exists_mem_of_ne_nil _ hne
      obtain ⟨-, hlt, -⟩ := h.level m x hx
      have hlen : 0 < ((s.lo cpu).queue m).length := List.length_pos_of_mem hx
      rcases lt_or_ge (n - i - 1) ((s.lo cpu).queue m).length with hin | hout
      · rw [List.getElem?_append_left hin, List.getElem?_eq_getElem hin]
      · have hm : m ≠ 63 := by
          rintro rfl
          exact hne he
        rw [List.getElem?_append_right hout, List.getElem?_eq_none hout]
        dsimp only
        have := ih (i + ((s.lo cpu).queue m).length) (m + 1) (by omega) (by omega) (by omega)
          (by omega)
        rw [Int.natCast_succ] at this
        rw [this, show n - (i + ((s.lo cpu).queue m).length) - 1 =
          n - i - 1 - ((s.lo cpu).queue m).length by omega]

/-! ## All walks -/

/-- After the last task of level 63 the walk goes on with the first task of all. -/
theorem activeNext_back (h : ActiveOk s cpu) (hq : (s.lo cpu).queue 63 = a ++ [x]) :
    activeNextPrioTask s x = (activeTasks s cpu).head? := by
  have hx : x ∈ (s.lo cpu).queue 63 := by
    rw [hq]
    exact List.mem_append_right _ (List.mem_singleton.2 rfl)
  obtain ⟨-, -, hidx, hcpu, -⟩ := h.level 63 x hx
  have hword : (s.lo cpu).bitmap 0 ≠ 0 := by
    intro hzero
    have hbit := (h.bits 63 (by decide)).2 (List.ne_nil_of_mem hx)
    have hword := getLsbD_word (s.lo cpu).bitmap (i := 0) (show 63 < 64 by decide)
    rw [hzero] at hword
    rw [show ((0 * 64 + 63 : ℕ) : ℤ) = 63 by decide, hbit] at hword
    simp at hword
  have hfns : reschFns (s.lo cpu).bitmap ((0 + 1) * 64 : ℕ) reschPrioLong =
      (ffsWord ((s.lo cpu).bitmap 0) + 0 * 64 : ℕ) :=
    reschFns_word (by decide) (by decide) (fun j hj => by omega) hword
  have hffs : reschFfs (s.lo cpu).bitmap reschPrioLong =
      (ffsWord ((s.lo cpu).bitmap 0) + 0 * 64 : ℕ) := by
    unfold reschFfs
    rw [show List.range reschPrioLong = 0 :: [1] from rfl, List.findSome?_cons, if_pos hword]
    rfl
  have hhigh := activeHighest_eq h
  unfold activeHighestPrioTask at hhigh
  unfold activeNextPrioTask
  rw [hidx, hcpu, ← hhigh]
  dsimp only
  rw [hq, nextIn_append (h.notMem_left hq)]
  dsimp only [List.head?_nil]
  rw [show (63 : ℤ) + 1 = ((0 + 1) * 64 : ℕ) by decide, hfns, hffs]

/-- **Walking an active queue**, on a machine with words of 64 bits that takes the count of a shift
modulo 64. -/
theorem active_walks_iff (s : State) (cpu : ℕ) (h : ActiveOk s cpu) :
    Walks s cpu ↔ (s.lo cpu).queue 63 = [] := by
  obtain ⟨honce, hordered⟩ := levelsFrom_ordered h reschPrioMax.toNat 0 (Nat.zero_add _)
  constructor
  · intro hw
    by_contra hne
    obtain ⟨x, hlast⟩ := List.getLast?_isSome.2 hne |> Option.isSome_iff_exists.1
    obtain ⟨a, hq⟩ := List.getLast?_eq_some_iff.1 hlast
    have hfollows : Follows (activeNextPrioTask s) (activeTasks s cpu) := by
      refine visited_eq_take_iff.1 fun n => ?_
      rw [← activeHighest_eq h]
      exact hw.forward n
    have hmem : x ∈ activeTasks s cpu := by
      have hx : x ∈ (s.lo cpu).queue 63 := by
        rw [hq]
        exact List.mem_append_right _ (List.mem_singleton.2 rfl)
      obtain ⟨-, -, -, hcpu, hact⟩ := h.level 63 x hx
      exact (hw.all x).2 ⟨hact, hcpu⟩
    obtain ⟨b, b', hsplit⟩ := List.append_of_mem hmem
    -- the first task of all comes no later than `x`
    obtain ⟨y, hy⟩ : ∃ y, (activeTasks s cpu).head? = some y := by
      rw [hsplit]
      cases b with
      | nil => exact ⟨x, rfl⟩
      | cons z b => exact ⟨z, rfl⟩
    have hyb : y ∈ b ++ [x] := by
      rw [hsplit] at hy
      cases b with
      | nil => exact List.mem_singleton.2 (Option.some.inj hy).symm
      | cons z b =>
        rw [← Option.some.inj hy]
        exact List.mem_cons_self
    exact hfollows.not_back hw.once hsplit hyb ((activeNext_back h hq).trans hy)
  · intro he
    have hfollows := follows_levelsFrom h he reschPrioMax.toNat 0 (Nat.zero_add _)
    refine ⟨fun rt => ?_, honce, hordered, fun n => ?_, fun x hx y hy => ?_, fun n hn => ?_⟩
    · unfold activeTasks
      rw [mem_levelsFrom h]
      refine ⟨fun hr => ⟨hr.1, hr.2.1⟩, fun hr => ⟨hr.1, hr.2, ?_⟩⟩
      exact (h.level _ rt (h.active rt hr.1 hr.2)).1
    · rw [activeHighest_eq h]
      exact hfollows.visited_eq n
    · refine hfollows.inverse ?_ hx hy
      unfold activeTasks at *
      rw [show (levelsFrom s cpu 0).reverse = levelsBefore s cpu reschPrioMax.toNat from
        activeTasks_reverse]
      exact follows_levelsBefore h le_rfl
    · unfold activeNumberTask
      exact activeNumberLoop_eq h he n 0 0 hn le_rfl (Nat.zero_le _) (by omega)

/-- A task gets a priority and is put into the active queue of its CPU. -/
def activate (s : State) (rt : ℕ) (prio : ℤ) : State :=
  fpEnqueueTask (s.setPrio rt prio) rt prio (s.task rt).cpuId

theorem Queued.activate {s : State} {rt : ℕ} {prio : ℤ} (h : Queued s s.place)
    (hi : s.isActive rt = false) (hr : 0 ≤ prioIndex prio ∧ prioIndex prio < reschPrioMax) :
    Queued (activate s rt prio) (activate s rt prio).place := by
  have hset : Queued (s.setPrio rt prio) (s.setPrio rt prio).place := h.setTask_inactive hi hi
  have hidx : prioIndex prio = prioIndex ((s.setPrio rt prio).task rt).prio := by
    rw [task_setPrio_self]
  have hcpu : (s.task rt).cpuId = ((s.setPrio rt prio).task rt).cpuId := by
    rw [task_setPrio_self]
  refine hset.enter ?_ hcpu hidx hr (addsOnce_append rt)
  exact (congrArg Task.activeEntry (task_setPrio_self ..)).trans hi

/-- Two tasks of one priority, and one that a level in the next word of the bitmap has -/
def threeActive : State :=
  activate (activate (activate (schedInit 0 fun _ => .fair) 0 50) 1 20) 2 50

theorem active_walks_three : activeTasks threeActive 0 = [0, 2, 1] ∧ Walks threeActive 0 := by
  have hqueued : Queued threeActive threeActive.place :=
    (((schedInit_queued 0 fun _ => .fair).activate rfl (by decide)).activate rfl (by decide)).activate
      rfl (by decide)
  exact ⟨by decide, (active_walks_iff threeActive 0 (hqueued.activeOk 0)).2 rfl⟩

/-- A task with priority 35, alone -/
def lastOfWord : State := activate (schedInit 0 fun _ => .fair) 0 35

/-- The task with priority 35 comes after itself. -/
theorem active_not_walks : ¬ ∀ (s : State) (cpu : ℕ), ActiveOk s cpu → Walks s cpu := by
  intro hall
  have hqueued : Queued lastOfWord lastOfWord.place :=
    (schedInit_queued 0 fun _ => .fair).activate rfl (by decide)
  have hwalk := (hall lastOfWord 0 (hqueued.activeOk 0)).forward 2
  revert hwalk
  decide +kernel

end Resch
