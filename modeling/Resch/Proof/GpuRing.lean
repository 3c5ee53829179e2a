import Resch.Spec.GpuRing
import Mathlib.Data.List.Perm.Subperm

/-!
# The wait queues stay well formed

A context that a signal wakes may come back to `__gdev_enqueue_compute` while it is still linked.
The priorities of the entities of one device are equal, so the loop finds no entity to insert
before, and the check that follows sees the link.

* `bandStep_queues`: a step of the scheduler does nothing to the queues but its action.
* `enqueue_inv`, `dequeue_inv`: what the two functions make of the rings.
* `rings_well_formed`: the rings of all runs.
-/

namespace Resch

open Lib

variable {n e d : ℕ} {s s' : RingState} {b b' : BandState}

/-! ## The queues of the band scheduler -/

/-- The queues after an action -/
def QueueAction.on (b : BandState) : QueueAction → BandState
  | none => b
  | enqueue e => b.enqueueCompute e
  | dequeue e => b.dequeueCompute e

/-- The same devices and queues. -/
def SameQueues (b b' : BandState) : Prop := b'.gdev = b.gdev ∧ b'.comList = b.comList

theorem SameQueues.ite {c : Prop} [Decidable c] {b₁ b₂ : BandState} (h₁ : SameQueues b b₁)
    (h₂ : SameQueues b b₂) : SameQueues b (if c then b₁ else b₂) := by
  split
  · exact h₁
  · exact h₂

theorem ctxStep_queues {overrun : Bool} (hs : b.ctxStep e overrun = some b') :
    SameQueues (((BandOp.ctx e overrun).action b).on b) b' := by
  unfold BandState.ctxStep at hs
  unfold BandOp.action
  cases hc : b.ctx e with
  | outside | asleep => simp [hc] at hs
  | resched =>
    simp only [hc, Option.some.injEq] at hs ⊢
    subst hs
    exact SameQueues.ite ⟨rfl, rfl⟩ ⟨rfl, rfl⟩
  | yielding =>
    simp only [hc, Option.some.injEq] at hs ⊢
    subst hs
    have hr : SameQueues b (if b.physCur = none then b.setPhysCur (some (b.gdev e)) else b) :=
      SameQueues.ite ⟨rfl, rfl⟩ ⟨rfl, rfl⟩
    exact hr
  | check =>
    simp only [hc, Option.some.injEq] at hs ⊢
    subst hs
    exact SameQueues.ite ⟨rfl, rfl⟩ ⟨rfl, rfl⟩
  | enqueue =>
    simp only [hc, Option.some.injEq] at hs ⊢
    subst hs
    exact ⟨rfl, rfl⟩
  | compute =>
    simp only [hc, Option.some.injEq] at hs ⊢
    subst hs
    unfold BandState.localCompute
    split <;> exact ⟨rfl, rfl⟩
  | launch =>
    simp only [hc] at hs ⊢
    split at hs
    · rw [Option.some.injEq] at hs
      subst hs
      exact ⟨rfl, rfl⟩
    · cases hs

theorem selectStart_queues : SameQueues b (b.selectStart e d) := by
  unfold BandState.selectStart
  cases b.cur d with
  | none => exact ⟨rfl, rfl⟩
  | some x =>
    dsimp only
    split <;> split <;> exact ⟨rfl, rfl⟩

theorem selectScan_queues {se : Option ℕ} {old : ℤ} {exhausted overrun : Bool} :
    SameQueues b (b.selectScan d se old exhausted overrun) := by
  unfold BandState.selectScan
  have hr : SameQueues b (b.reinsert d exhausted) := SameQueues.ite ⟨rfl, rfl⟩ ⟨rfl, rfl⟩
  dsimp only
  split
  · exact hr
  · exact SameQueues.ite hr hr

theorem switchInstances_queues {se : Option ℕ} {old : ℤ} :
    SameQueues b (b.switchInstances d se old) := by
  unfold BandState.switchInstances
  cases se with
  | none => cases b.cur d <;> exact ⟨rfl, rfl⟩
  | some x => exact SameQueues.ite ⟨rfl, rfl⟩ ⟨rfl, rfl⟩

theorem dequeueCompute_queues (h : SameQueues b b') :
    SameQueues (b.dequeueCompute e) (b'.dequeueCompute e) := by
  refine ⟨h.1, ?_⟩
  unfold BandState.dequeueCompute
  rw [h.1, h.2]

theorem selectSwitch_queues {se : Option ℕ} {old : ℤ} {next : ℕ} {exhausted overrun : Bool}
    (hc : b.com d = .switch se old next) :
    SameQueues (((BandOp.com d exhausted overrun).action b).on b) (b.selectSwitch d se old next) := by
  unfold BandState.selectSwitch BandOp.action
  by_cases hn : next ≠ d
  · have hi : SameQueues b ((b.switchInstances d se old).setCur d none) := switchInstances_queues
    simp only [hc, if_pos hn, hi.2]
    cases (b.comList next).head? with
    | none => exact hi
    | some x => exact dequeueCompute_queues hi
  · simp only [hc, if_neg hn]
    cases se with
    | none => exact ⟨rfl, rfl⟩
    | some x => exact ⟨rfl, rfl⟩

theorem comStep_queues {exhausted overrun : Bool} (hs : b.comStep d exhausted overrun = some b') :
    SameQueues (((BandOp.com d exhausted overrun).action b).on b) b' := by
  unfold BandState.comStep at hs
  cases hc : b.com d with
  | idle => simp [hc] at hs
  | switch se old next =>
    simp only [hc, Option.some.injEq] at hs
    subst hs
    exact selectSwitch_queues hc
  | start e =>
    simp only [BandOp.action, hc, Option.some.injEq] at hs ⊢
    subst hs
    exact selectStart_queues
  | early se old | other se old =>
    simp only [BandOp.action, hc, Option.some.injEq] at hs ⊢
    subst hs
    exact ⟨rfl, rfl⟩
  | scan se old =>
    simp only [BandOp.action, hc, Option.some.injEq] at hs ⊢
    subst hs
    exact selectScan_queues
  | yielding se old next =>
    simp only [BandOp.action, hc, Option.some.injEq] at hs ⊢
    subst hs
    unfold BandState.selectRegain
    split <;> exact ⟨rfl, rfl⟩

/-- **A step of the scheduler** does nothing to the queues but its action. -/
theorem bandStep_queues {op : BandOp} (hs : bandStep b op = some b') :
    SameQueues ((op.action b).on b) b' := by
  cases op with
  | schedule e | wake e | complete e =>
    simp only [bandStep] at hs
    split at hs
    · rw [Option.some.injEq] at hs
      subst hs
      exact ⟨rfl, rfl⟩
    · cases hs
  | ctx e overrun => exact ctxStep_queues hs
  | com d exhausted overrun => exact comStep_queues hs

/-! ## The rings -/

/-- The queue of device `d` -/
def RingState.queue (s : RingState) (d : ℕ) : List ℕ := s.band.comList d

/-- **Well-formed queues**: each is a ring of entities of its device, in the order of falling
priorities and, among equal ones, of arrival. A ring has no node twice. -/
def RingState.WellFormed (s : RingState) : Prop :=
  ∀ d, s.links.IsRing (.head d) ((s.queue d).map .entry) ∧ (∀ e ∈ s.queue d, s.band.gdev e = d) ∧
    (s.queue d).Pairwise fun x y =>
      s.prio y < s.prio x ∨ s.prio y = s.prio x ∧ s.arrival x < s.arrival y

/-- `e` is linked. -/
def RingState.Linked (s : RingState) (e : ℕ) : Prop := e ∈ s.queue (s.band.gdev e)

structure RingInv (n : ℕ) (s : RingState) : Prop where
  ring : ∀ d, s.links.IsRing (.head d) ((s.queue d).map .entry)
  own : ∀ d, ∀ e ∈ s.queue d, s.band.gdev e = d
  among : ∀ d, ∀ e ∈ s.queue d, e < n
  alone : ∀ e, ¬ s.Linked e → s.links.next (.entry e) = .entry e ∧ s.links.prev (.entry e) = .entry e
  order : ∀ d, (s.queue d).Pairwise fun x y => s.arrival x < s.arrival y
  arrived : ∀ d, ∀ e ∈ s.queue d, s.arrival e < s.clock

theorem RingInv.wellFormed (h : RingInv n s) : s.WellFormed := by
  refine fun d => ⟨h.ring d, h.own d, ?_⟩
  refine (h.order d).imp_of_mem fun {x y} hx hy hxy => Or.inr ⟨?_, hxy⟩
  unfold RingState.prio
  rw [h.own d x hx, h.own d y hy]

theorem RingInv.nodup (h : RingInv n s) (d : ℕ) : (s.queue d).Nodup :=
  (List.nodup_cons.1 (h.ring d).nodup).2.of_map _

theorem RingInv.length_lt (h : RingInv n s) (d : ℕ) : (s.queue d).length < n + 1 := by
  have hsub : s.queue d ⊆ List.range n := fun e he => List.mem_range.2 (h.among d e he)
  have := ((h.nodup d).subperm hsub).length_le
  rw [List.length_range] at this
  omega

/-- The loop of `__gdev_enqueue_compute` finds no entity of lower priority. -/
theorem RingInv.find_none (h : RingInv n s) (e : ℕ) :
    s.links.find QueueNode.container (fun p => s.prio p < s.prio e) (n + 1)
      (.head (s.band.gdev e)) = some none := by
  have hc : ((s.queue (s.band.gdev e)).map QueueNode.entry).map QueueNode.container =
      (s.queue (s.band.gdev e)).map some := by
    rw [List.map_map]
    exact List.map_congr_left fun _ _ => rfl
  rw [(h.ring _).find hc rfl (h.length_lt _), Option.some.injEq, List.find?_eq_none]
  intro p hp
  unfold RingState.prio
  simp [h.own _ p hp]

theorem RingInv.isEmpty_iff (h : RingInv n s) (e : ℕ) :
    s.links.isEmpty (.entry e) = true ↔ ¬ s.Linked e := by
  unfold Links.isEmpty
  rw [decide_eq_true_eq]
  constructor
  · rintro ⟨-, hn⟩ hl
    exact (h.ring _).next_ne (List.mem_map_of_mem hl) hn
  · intro hl
    obtain ⟨hn, hp⟩ := h.alone e hl
    exact ⟨hn.trans hp.symm, hn⟩

/-! ## What the two functions make of the rings -/

/-- A state with the same rings. -/
theorem RingInv.congr (h : RingInv n s) (hb : SameQueues s.band b) : RingInv n { s with band := b } := by
  obtain ⟨hg, hl⟩ := hb
  have hq : ∀ d, RingState.queue { s with band := b } d = s.queue d := fun d => congrFun hl d
  refine ⟨fun d => ?_, fun d e he => ?_, fun d e he => ?_, fun e he => h.alone e ?_, fun d => ?_,
    fun d e he => ?_⟩
  · rw [hq]
    exact h.ring d
  · rw [hq] at he
    exact (congrFun hg e).trans (h.own d e he)
  · rw [hq] at he
    exact h.among d e he
  · intro hl
    apply he
    unfold RingState.Linked
    rw [hq, hg]
    exact hl
  · rw [hq]
    exact h.order d
  · rw [hq] at he
    exact h.arrived d e he

/-- The nodes of different queues are different. -/
theorem RingInv.apart (h : RingInv n s) {d' : ℕ} (hd : d ≠ d') {y : QueueNode}
    (hy : y ∈ QueueNode.head d :: (s.queue d).map .entry) :
    y ∉ QueueNode.head d' :: (s.queue d').map .entry := by
  intro hy'
  cases y with
  | head c =>
    have h₁ : c = d := by simpa using hy
    have h₂ : c = d' := by simpa using hy'
    exact hd (h₁.symm.trans h₂)
  | entry x =>
    have h₁ : x ∈ s.queue d := by simpa using hy
    have h₂ : x ∈ s.queue d' := by simpa using hy'
    exact hd ((h.own d x h₁).symm.trans (h.own d' x h₂))

/-- An entity that is not linked is on no ring. -/
theorem RingInv.notMem (h : RingInv n s) (he : ¬ s.Linked e) (d : ℕ) :
    QueueNode.entry e ∉ QueueNode.head d :: (s.queue d).map .entry := by
  intro hm
  have hq : e ∈ s.queue d := by simpa using hm
  apply he
  unfold RingState.Linked
  rwa [h.own d e hq]

/-- The queues when one of them has changed. -/
theorem queue_update {l : List ℕ} (hl : s'.band.comList = Function.update s.band.comList d l) (d' : ℕ) :
    s'.queue d' = if d' = d then l else s.queue d' := by
  unfold RingState.queue
  rw [hl, Function.update_apply]

/-- An entity that arrives is linked at the end of its queue. -/
theorem RingInv.link (h : RingInv n s) (he : e < n) (hlink : ¬ s.Linked e)
    (hg : s'.band.gdev = s.band.gdev)
    (hl : s'.band.comList =
      Function.update s.band.comList (s.band.gdev e) (s.queue (s.band.gdev e) ++ [e]))
    (hlinks : s'.links = s.links.addPrev (.entry e) (.head (s.band.gdev e)))
    (ha : s'.arrival = Function.update s.arrival e s.clock) (hc : s'.clock = s.clock + 1) :
    RingInv n s' := by
  have hq := queue_update hl
  have hmem : ∀ d, ∀ x ∈ s'.queue d, x ∈ s.queue d ∨ x = e ∧ d = s.band.gdev e := by
    intro d x hx
    rw [hq] at hx
    split at hx
    · next hd =>
      rw [List.mem_append, List.mem_singleton, ← hd] at hx
      exact hx.imp id fun hx => ⟨hx, hd⟩
    · exact Or.inl hx
  have hout := h.notMem hlink
  have hne : ∀ d, ∀ x ∈ s.queue d, x ≠ e := by
    rintro d x hx rfl
    exact hout d (List.mem_cons_of_mem _ (List.mem_map_of_mem hx))
  have harr : ∀ d, ∀ x ∈ s.queue d, s'.arrival x = s.arrival x := by
    intro d x hx
    rw [ha]
    exact Function.update_of_ne (hne d x hx) ..
  -- no pointers of other entities or queues have moved
  have hframe : ∀ y, y ∉ QueueNode.head (s.band.gdev e) :: (s.queue (s.band.gdev e)).map .entry →
      y ≠ .entry e → s'.links.next y = s.links.next y ∧ s'.links.prev y = s.links.prev y := by
    intro y hy hye
    rw [hlinks]
    exact (h.ring _).addPrev_frame List.mem_cons_self hy hye
  refine ⟨fun d => ?_, fun d x hx => ?_, fun d x hx => ?_, fun x hx => ?_, fun d => ?_,
    fun d x hx => ?_⟩
  · rw [hq]
    split
    · next hd =>
      subst hd
      rw [List.map_append, hlinks]
      exact (h.ring _).addTail (hout _)
    · next hd =>
      have hye : ∀ y ∈ QueueNode.head d :: (s.queue d).map .entry, y ≠ .entry e := by
        rintro y hy rfl
        exact hout d hy
      exact (h.ring d).congr (fun y hy => (hframe y (h.apart hd hy) (hye y hy)).1)
        fun y hy => (hframe y (h.apart hd hy) (hye y hy)).2
  · rw [hg]
    rcases hmem d x hx with hx | ⟨rfl, hd⟩
    · exact h.own d x hx
    · exact hd.symm
  · rcases hmem d x hx with hx | ⟨rfl, -⟩
    · exact h.among d x hx
    · exact he
  · unfold RingState.Linked at hx
    rw [hq, hg] at hx
    have hxe : x ≠ e := by
      rintro rfl
      rw [if_pos rfl] at hx
      exact hx (List.mem_append_right _ (List.mem_singleton.2 rfl))
    have hx : ¬ s.Linked x := by
      intro hxl
      apply hx
      unfold RingState.Linked at hxl
      split
      · next hd =>
        rw [hd] at hxl
        exact List.mem_append_left _ hxl
      · exact hxl
    obtain ⟨h₁, h₂⟩ := hframe (.entry x) (h.notMem hx _) fun hc => hxe (QueueNode.entry.inj hc)
    obtain ⟨ha₁, ha₂⟩ := h.alone x hx
    exact ⟨h₁.trans ha₁, h₂.trans ha₂⟩
  · have hold : ∀ d, (s.queue d).Pairwise fun x y => s'.arrival x < s'.arrival y := by
      intro d
      refine (h.order d).imp_of_mem fun {x y} hx hy hxy => ?_
      rw [harr d x hx, harr d y hy]
      exact hxy
    rw [hq]
    split
    · rw [List.pairwise_append]
      refine ⟨hold _, List.pairwise_singleton _ _, fun x hx y hy => ?_⟩
      -- the last arrival is the latest
      rw [List.mem_singleton.1 hy, harr _ x hx, ha, Function.update_self]
      exact h.arrived _ x hx
    · exact hold d
  · rw [hc]
    rcases hmem d x hx with hx | ⟨rfl, -⟩
    · rw [harr d x hx]
      exact Nat.lt_succ_of_lt (h.arrived d x hx)
    · rw [ha, Function.update_self]
      exact Nat.lt_succ_self _

/-- **`__gdev_enqueue_compute`** leaves an entity that is linked where it is, and puts another
at the end. -/
theorem RingInv.enqueue (h : RingInv n s) (he : e < n) (hb : SameQueues (s.band.enqueueCompute e) b) :
    ∃ s', s.enqueue e b (n + 1) = some s' ∧ RingInv n s' := by
  obtain ⟨hg, hl⟩ := hb
  have hg : b.gdev = s.band.gdev := by
    rw [hg]
    unfold BandState.enqueueCompute
    split <;> rfl
  unfold BandState.enqueueCompute at hl
  unfold RingState.enqueue RingState.enqueueCompute
  simp only [h.find_none e, Option.map_some, Option.elim_none]
  by_cases hlink : s.Linked e
  · have hempty : s.links.isEmpty (.entry e) = false := by
      rw [Bool.eq_false_iff]
      exact fun hc => (h.isEmpty_iff e).1 hc hlink
    have hmem : e ∈ s.band.comList (s.band.gdev e) := hlink
    rw [if_pos hmem] at hl
    simp only [hempty, Bool.false_eq_true, if_false]
    exact ⟨_, rfl, h.congr ⟨hg, hl⟩⟩
  · have hempty := (h.isEmpty_iff e).2 hlink
    have hmem : e ∉ s.band.comList (s.band.gdev e) := hlink
    rw [if_neg hmem] at hl
    simp only [hempty, if_true]
    exact ⟨_, rfl, h.link he hlink hg hl rfl rfl rfl⟩

/-- **`__gdev_dequeue_compute`** takes an entity out of its queue, if it is there. -/
theorem RingInv.dequeue (h : RingInv n s) (hb : SameQueues (s.band.dequeueCompute e) b) :
    RingInv n (s.dequeue e b) := by
  obtain ⟨hg, hl⟩ := hb
  have hg : b.gdev = s.band.gdev := hg
  have hl : b.comList = Function.update s.band.comList (s.band.gdev e)
    ((s.queue (s.band.gdev e)).filter (· ≠ e)) := hl
  by_cases hlink : s.Linked e
  · have hq : ∀ d, (s.dequeue e b).queue d = _ := queue_update hl
    have hsub : ∀ d, List.Sublist ((s.dequeue e b).queue d) (s.queue d) := by
      intro d
      rw [hq]
      split
      · next hd =>
        rw [hd]
        exact List.filter_sublist
      · exact List.Sublist.refl _
    -- a node out of the ring of `e` keeps both its links
    have hframe := fun y hy => (h.ring (s.band.gdev e)).del_frame (y := y)
      (List.mem_map_of_mem (f := QueueNode.entry) hlink) hy
    refine ⟨fun d => ?_, fun d x hx => ?_, fun d x hx => ?_, fun x hx => ?_, fun d => ?_,
      fun d x hx => ?_⟩
    · rw [hq]
      split
      · next hd =>
        subst hd
        -- the ring is cut at `e`
        obtain ⟨l₁, l₂, hsplit⟩ := List.append_of_mem hlink
        have hnd := h.nodup (s.band.gdev e)
        have hring := h.ring (s.band.gdev e)
        rw [hsplit] at hnd hring
        rw [List.map_append, List.map_cons] at hring
        have hfilter : (s.queue (s.band.gdev e)).filter (· ≠ e) = l₁ ++ l₂ := by
          have hnot : e ∉ l₁ ++ l₂ := (List.nodup_middle.1 hnd).notMem
          rw [hsplit, List.filter_append, List.filter_cons_of_neg (by simp), ← List.filter_append]
          refine List.filter_eq_self.2 fun x hx => ?_
          rw [decide_eq_true_eq]
          rintro rfl
          exact hnot hx
        rw [hfilter, List.map_append]
        exact hring.del
      · -- the ring of another device
        next hd =>
        exact (h.ring d).congr (fun y hy => (hframe y (h.apart hd hy)).1)
          fun y hy => (hframe y (h.apart hd hy)).2
    · have hown := h.own d x ((hsub d).subset hx)
      rw [← hown]
      exact congrFun hg x
    · exact h.among d x ((hsub d).subset hx)
    · -- `__gdev_list_del` links the node it takes out to itself
      by_cases hxe : x = e
      · subst hxe
        exact ⟨Links.next_del_self, Links.prev_del_self⟩
      · have hx : ¬ s.Linked x := by
          intro hxl
          apply hx
          unfold RingState.Linked at hxl ⊢
          rw [hq, show (s.dequeue e b).band.gdev x = s.band.gdev x from congrFun hg x]
          split
          · next hd =>
            rw [hd] at hxl
            exact List.mem_filter.2 ⟨hxl, by simpa using hxe⟩
          · exact hxl
        obtain ⟨h₁, h₂⟩ := hframe (.entry x) (h.notMem hx _)
        obtain ⟨ha₁, ha₂⟩ := h.alone x hx
        exact ⟨h₁.trans ha₁, h₂.trans ha₂⟩
    · exact (h.order d).sublist (hsub d)
    · exact h.arrived d x ((hsub d).subset hx)
  · -- not in a list: its links lead to itself, and nothing changes
    obtain ⟨hn, hp⟩ := h.alone e hlink
    have hlinks : s.dequeue e b = { s with band := b } := by
      unfold RingState.dequeue
      rw [Links.del_of_alone hn hp]
    rw [hlinks]
    refine h.congr ⟨hg, ?_⟩
    have hfilter : (s.queue (s.band.gdev e)).filter (· ≠ e) = s.band.comList (s.band.gdev e) := by
      refine List.filter_eq_self.2 fun x hx => ?_
      rw [decide_eq_true_eq]
      rintro rfl
      exact hlink hx
    rw [hl, hfilter, Function.update_eq_self]

/-! ## Runs -/

theorem action_among {op : BandOp} (hn : op.Among n) (ha : op.action b = .enqueue e) : e < n := by
  cases op with
  | schedule x | wake x | complete x => simp [BandOp.action] at ha
  | ctx x overrun =>
    have hx : x < n := hn
    simp only [BandOp.action] at ha
    split at ha
    · rw [QueueAction.enqueue.injEq] at ha
      rwa [← ha]
    · split at ha
      · rw [QueueAction.enqueue.injEq] at ha
        rwa [← ha]
      · cases ha
    · cases ha
  | com d exhausted overrun =>
    simp only [BandOp.action] at ha
    split at ha
    · next se old next _ =>
      split at ha
      · cases h : (b.comList next).head? <;> simp [h] at ha
      · cases se <;> simp at ha
    · cases ha

theorem ringStep_inv {op : RingOp} (h : RingInv n s) (hs : ringStep n s op = some s') :
    RingInv n s' := by
  cases op with
  | sync e d =>
    simp only [ringStep] at hs
    split at hs
    · rw [Option.some.injEq] at hs
      rw [← hs]
      exact h.congr ⟨rfl, rfl⟩
    · cases hs
  | band op =>
    simp only [ringStep] at hs
    split at hs
    · next hamong =>
      obtain ⟨b, hb, hs⟩ := Option.bind_eq_some_iff.1 hs
      have hqueues := bandStep_queues hb
      cases ha : op.action s.band with
      | none =>
        rw [ha] at hs hqueues
        rw [← Option.some.inj hs]
        exact h.congr hqueues
      | enqueue e =>
        rw [ha] at hs hqueues
        have he : e < n := action_among hamong ha
        obtain ⟨s₁, hs₁, hi⟩ := h.enqueue he hqueues
        rw [show s.enqueue e b (n + 1) = some s' from hs, Option.some.injEq] at hs₁
        rwa [hs₁]
      | dequeue e =>
        rw [ha] at hs hqueues
        rw [← Option.some.inj hs]
        exact h.dequeue hqueues
    · cases hs

/-- **Every step of the scheduler is taken**: the loops over the queues end. -/
theorem RingInv.progress (h : RingInv n s) {op : BandOp} (hn : op.Among n)
    (hs : bandStep s.band op ≠ none) : ringStep n s (.band op) ≠ none := by
  obtain ⟨b, hb⟩ := Option.ne_none_iff_exists'.1 hs
  simp only [ringStep, if_pos hn, hb, Option.bind_some]
  cases ha : op.action s.band with
  | none | dequeue e => exact Option.some_ne_none _
  | enqueue e =>
    have hqueues := bandStep_queues hb
    rw [ha] at hqueues
    obtain ⟨s₁, hs₁, -⟩ := h.enqueue (action_among hn ha) hqueues
    simp only [hs₁]
    exact Option.some_ne_none _

theorem ringInit_inv (devices : List ℕ) (gdev : ℕ → ℕ) : RingInv n (ringInit devices gdev) where
  ring d := ⟨List.nodup_singleton _, rfl, rfl⟩
  own d e he := by cases he
  among d e he := by cases he
  alone e he := ⟨rfl, rfl⟩
  order d := List.Pairwise.nil
  arrived d e he := by cases he

/-- **The wait queues stay well formed** in every run of any number of contexts, whatever wakes
them, and no step hangs in a loop. -/
theorem rings_well_formed (n : ℕ) (devices : List ℕ) (gdev : ℕ → ℕ) (ops : List RingOp) :
    Always (ringStep n) (fun s => s.WellFormed ∧ ∀ op : BandOp, op.Among n → bandStep s.band op ≠ none →
      ringStep n s (.band op) ≠ none) (ringInit devices gdev) ops := by
  refine Always.mono (P := RingInv n) (fun s h => ⟨h.wellFormed, fun op => h.progress⟩) ops _ ?_
  exact Always.of_inv (fun s op s' h hs => ringStep_inv h hs) ops _ (ringInit_inv devices gdev)

end Resch
