import Resch.Lib.Runs
import Resch.Spec.ServerRun

/-!
# The server object and what its handler adds

A server belongs to its timer and to `rt->server`. Completion, suspension and preemption drop the
server that `rt->server` points to, and nothing writes the capacity of a server.

* `Drops`: what all functions but `server_handler` and `api_server_run` do with the servers.
* `servers_ok_iff`: in a run, the handlers add what was charged and `rt->server` is the only armed
  server iff servers run one at a time, and the memory of each whose timer expires held by chance
  what was charged.
-/

namespace Resch

open Lib

variable {s s' s₁ s₂ : ServerState} {b : ℕ}

namespace ServerState

/-- The server `rt->server` and the blocks are the same, or `rt->server` is dropped. -/
inductive Drops (s s' : ServerState) : Prop
  | keep (server : s'.server = s.server) (block : s'.block = s.block)
  | free (b : ℕ) (server : s.server = some b) (server' : s'.server = none)
      (block : s'.block = (s.free b).block)

theorem Drops.refl : Drops s s := .keep rfl rfl

theorem Drops.trans (h : Drops s s₁) (h' : Drops s₁ s₂) : Drops s s₂ := by
  cases h with
  | keep hserver hblock =>
    cases h' with
    | keep hserver' hblock' => exact .keep (hserver'.trans hserver) (hblock'.trans hblock)
    | free b hb hnone hblock' =>
      refine .free b (hserver.symm.trans hb) hnone ?_
      unfold ServerState.free setBlock at hblock' ⊢
      rw [hblock', hblock]
  | free b hb hnone hblock =>
    cases h' with
    | keep hserver' hblock' => exact .free b hb (hserver'.trans hnone) (hblock'.trans hblock)
    | free b' hb' => cases hnone.symm.trans hb'

theorem updateTick_drops : Drops s s.updateTick := by
  unfold updateTick
  split <;> exact .keep rfl rfl

theorem startAccount_drops : Drops s s.startAccount := by
  unfold startAccount
  split <;> exact .keep rfl rfl

theorem stopAccount_drops : Drops s s.stopAccount := by
  unfold stopAccount
  generalize hs₁ : (if s.accounting = true then
    { s with budget := s.reserveTime - min s.execTime s.reserveTime, accounting := false }
      else s) = s₁
  have hkeep : Drops s s₁ := by
    rw [← hs₁]
    split <;> exact .keep rfl rfl
  refine hkeep.trans ?_
  dsimp only
  split
  case h_1 b hb => exact .free b hb rfl rfl
  case h_2 => exact .refl

/-- After `stop_account` there is no server whose capacity `suspend_account` could write. -/
theorem server_stopAccount : s.stopAccount.server = none := by
  unfold stopAccount
  dsimp only
  split
  · rfl
  · assumption

theorem suspendAccount_drops : Drops s s.suspendAccount := by
  unfold suspendAccount
  split
  · dsimp only
    rw [server_stopAccount]
    exact stopAccount_drops
  · exact .keep rfl rfl

theorem preemptAccount_drops : Drops s s.preemptAccount := by
  unfold preemptAccount
  split
  · exact stopAccount_drops
  · exact .refl

theorem preempt_drops : Drops s s.preempt := by
  refine updateTick_drops.trans ?_
  unfold preempt
  dsimp only
  split
  · exact preemptAccount_drops.trans (.keep rfl rfl)
  · exact .keep rfl rfl

theorem preemptSelf_drops : Drops s s.preemptSelf := by
  refine updateTick_drops.trans ?_
  unfold preemptSelf
  dsimp only
  split
  · exact suspendAccount_drops.trans (.keep rfl rfl)
  · exact .keep rfl rfl

theorem resume_drops : Drops s s.resume := by
  refine updateTick_drops.trans ?_
  unfold resume
  dsimp only
  split
  · exact startAccount_drops.trans (.keep rfl rfl)
  · exact .keep rfl rfl

theorem jobStart_drops (gets : Bool) : Drops s (s.jobStart gets) := by
  have hreset : Drops s s.resetExecTime := .keep rfl rfl
  refine (hreset.trans updateTick_drops).trans ?_
  unfold jobStart
  dsimp only
  split
  · refine Drops.trans ?_ startAccount_drops
    exact .keep rfl rfl
  · exact .keep rfl rfl

theorem reserveReplenish_drops : Drops s s.reserveReplenish := by
  unfold reserveReplenish
  split <;> exact .keep rfl rfl

theorem jobComplete_drops : Drops s s.jobComplete := by
  refine preemptSelf_drops.trans ?_
  unfold jobComplete
  dsimp only
  split
  · exact stopAccount_drops.trans reserveReplenish_drops
  · exact .refl

end ServerState

/-! ## Blocks -/

/-- The timer of a block that has been freed is not pending, nobody has written the capacity of a
server, and `rt->server` is armed. -/
structure BlocksOk (s : ServerState) : Prop where
  timer : ∀ b, (s.block b).timer ≠ none → (s.block b).allocated = true
  capacity : ∀ b, (s.block b).timer ≠ none → (s.block b).capacity = (s.block b).content
  server : ∀ b, s.server = some b → (s.block b).timer ≠ none

theorem serverInit_blocksOk (cls : SchedClass) (period reserveTime : ℕ) :
    BlocksOk (serverInit cls period reserveTime) where
  timer := fun _ h => absurd rfl h
  capacity := fun _ h => absurd rfl h
  server := by
    rintro b ⟨⟩

/-- A block without a timer is not armed. -/
theorem timer_free (x : ℕ) :
    ((s.free b).block x).timer ≠ none ↔ x ≠ b ∧ (s.block x).timer ≠ none := by
  unfold ServerState.free ServerState.setBlock
  by_cases hx : x = b
  · subst hx
    simp
  · simp [hx]

theorem block_free {x : ℕ} (hx : x ≠ b) : (s.free b).block x = s.block x := by
  unfold ServerState.free ServerState.setBlock
  exact Function.update_of_ne hx _ _

theorem timer_of_enabled (h : (ServerOp.serverTimer b).enabled s = true) :
    (s.block b).timer ≠ none := by
  intro hnone
  have hdue : (s.block b).timer.any (fun t => decide (t ≤ s.jiffies)) = true := h
  rw [hnone] at hdue
  cases hdue

/-- What a step does to the servers. -/
inductive ServersStep (s : ServerState) (op : ServerOp) (s' : ServerState) : Prop
  | same (server : s'.server = s.server) (block : s'.block = s.block)
      (op : ∀ m, op ≠ .serverRun (some m))
  | freed (b : ℕ) (timer : (s.block b).timer ≠ none) (server : s'.server = none)
      (block : s'.block = (s.free b).block) (op : ∀ m, op ≠ .serverRun (some m))
  | armed (b content : ℕ) (op : op = .serverRun (some (b, content)))
      (allocated : (s.block b).allocated = false) (server : s'.server = some b)
      (block : s'.block = Function.update s.block b
        ⟨content, some (s.jiffies + s.period), true, content, s.charged⟩)

theorem serversStep_of_drops {op : ServerOp} (hI : BlocksOk s) (h : s.Drops s')
    (hop : ∀ m, op ≠ .serverRun (some m)) : ServersStep s op s' := by
  cases h with
  | keep hserver hblock => exact .same hserver hblock hop
  | free b hb hnone hblock => exact .freed b (hI.server b hb) hnone hblock hop

theorem serverStep_servers {op : ServerOp} (hI : BlocksOk s) (hs : serverStep s op = some s') :
    ServersStep s op s' := by
  unfold serverStep at hs
  split at hs
  case isFalse => cases hs
  case isTrue hen =>
    rw [Option.some.injEq] at hs
    subst hs
    cases op with
    | time jiffies => exact serversStep_of_drops hI (.keep rfl rfl) (by simp)
    | tick => exact serversStep_of_drops hI ServerState.updateTick_drops (by simp)
    | jobStart gets => exact serversStep_of_drops hI (ServerState.jobStart_drops gets) (by simp)
    | jobComplete => exact serversStep_of_drops hI ServerState.jobComplete_drops (by simp)
    | suspend => exact serversStep_of_drops hI ServerState.preemptSelf_drops (by simp)
    | resume => exact serversStep_of_drops hI ServerState.resume_drops (by simp)
    | preempt => exact serversStep_of_drops hI ServerState.preempt_drops (by simp)
    | serverRun mem =>
      cases mem with
      | none => exact serversStep_of_drops hI .refl (by simp)
      | some m =>
        obtain ⟨b, content⟩ := m
        have halloc : (!(s.block b).allocated) = true := hen
        exact .armed b content rfl (by simpa using halloc) rfl rfl
    | serverTimer b =>
      exact .freed b (timer_of_enabled hen) rfl rfl (by simp)

theorem serverStep_blocksOk {op : ServerOp} (hI : BlocksOk s) (hs : serverStep s op = some s') :
    BlocksOk s' := by
  obtain ⟨hserver, hblock, -⟩ | ⟨b, -, hnone, hblock, -⟩ | ⟨b, content, -, -, hserver, hblock⟩ :=
    serverStep_servers hI hs
  · exact ⟨by rw [hblock]; exact hI.timer, by rw [hblock]; exact hI.capacity,
      by rw [hserver, hblock]; exact hI.server⟩
  · refine ⟨fun x hx => ?_, fun x hx => ?_, fun x hx => ?_⟩
    · rw [hblock] at hx ⊢
      obtain ⟨hne, hx⟩ := (timer_free x).1 hx
      rw [block_free hne]
      exact hI.timer x hx
    · rw [hblock] at hx ⊢
      obtain ⟨hne, hx⟩ := (timer_free x).1 hx
      rw [block_free hne]
      exact hI.capacity x hx
    · rw [hnone] at hx
      cases hx
  · refine ⟨fun x hx => ?_, fun x hx => ?_, fun x hx => ?_⟩ <;> rw [hblock] at *
    · by_cases hne : x = b
      · rw [hne, Function.update_self]
      · rw [Function.update_of_ne hne] at hx ⊢
        exact hI.timer x hx
    · by_cases hne : x = b
      · rw [hne, Function.update_self]
      · rw [Function.update_of_ne hne] at hx ⊢
        exact hI.capacity x hx
    · rw [hserver, Option.some.injEq] at hx
      rw [← hx, Function.update_self]
      simp

/-! ## Servers of runs -/

/-- `rt->server` is null or the only armed server. -/
def OnlyServer (s : ServerState) : Prop :=
  ∀ b, s.server = some b → ∀ x, (s.block x).timer ≠ none ↔ x = b

/-- Execution time charged to the reserve since the server in block `b` was armed. -/
def ServerState.chargedSince (s : ServerState) (b : ℕ) : ℕ := s.charged - (s.block b).armedAt

/-- A handler runs on a block that is allocated, and adds what was charged. -/
def ServerOp.Replenishes (s : ServerState) (op : ServerOp) : Prop :=
  ∀ b, op = serverTimer b → (s.block b).allocated = true ∧
    (s.serverHandler b).budget = s.budget + s.chargedSince b

/-- A server is run when there is none. -/
def ServerOp.RunsAlone (s : ServerState) (op : ServerOp) : Prop :=
  ∀ m, op = serverRun (some m) → s.server = none

/-- The memory of a server whose timer expires held what was charged. -/
def ServerOp.HeldCharged (s : ServerState) (op : ServerOp) : Prop :=
  ∀ b, op = serverTimer b → (s.block b).content = s.chargedSince b

/-- Armed servers are not lost. -/
def Kept (s : ServerState) : Prop := s.server = none → ∀ x, (s.block x).timer = none

theorem serverStep_kept {op : ServerOp} (hI : BlocksOk s) (hk : Kept s) (ho : OnlyServer s)
    (hs : serverStep s op = some s') : Kept s' := by
  obtain ⟨hserver, hblock, -⟩ | ⟨b, harmed, -, hblock, -⟩ | ⟨b, content, -, -, hserver, -⟩ :=
    serverStep_servers hI hs
  · intro hnone x
    rw [hblock]
    exact hk (hserver.symm.trans hnone) x
  · intro _ x
    by_contra hx
    rw [hblock] at hx
    obtain ⟨hne, hx⟩ := (timer_free x).1 hx
    -- both `x` and `b` are armed before the step
    cases hserver : s.server with
    | none => exact harmed (hk hserver b)
    | some y => exact hne (((ho y hserver x).1 hx).trans ((ho y hserver b).1 harmed).symm)
  · intro hnone
    cases hserver.symm.trans hnone

theorem serverStep_onlyServer {op : ServerOp} (hI : BlocksOk s) (hk : Kept s) (ho : OnlyServer s)
    (hs : serverStep s op = some s') :
    OnlyServer s' ↔ op.RunsAlone s := by
  obtain ⟨hserver, hblock, hop⟩ | ⟨b, -, hnone, -, hop⟩ |
    ⟨b, content, rfl, halloc, hserver, hblock⟩ := serverStep_servers hI hs
  · refine iff_of_true ?_ fun m hm => absurd hm (hop m)
    unfold OnlyServer
    rw [hserver, hblock]
    exact ho
  · refine iff_of_true (fun x hx => ?_) fun m hm => absurd hm (hop m)
    cases hnone.symm.trans hx
  · constructor
    · intro h m _
      by_contra hsome
      obtain ⟨y, hy⟩ := Option.ne_none_iff_exists'.1 hsome
      -- the old server is still armed, and the new one is in another block
      have harmed : (s.block y).timer ≠ none := hI.server y hy
      have hne : y ≠ b := by
        rintro rfl
        exact absurd (hI.timer y harmed) (by rw [halloc]; exact Bool.false_ne_true)
      refine hne ((h b hserver y).1 ?_)
      rw [hblock, Function.update_of_ne hne]
      exact harmed
    · intro hnone y hy x
      rw [hserver, Option.some.injEq] at hy
      subst hy
      rw [hblock]
      by_cases hx : x = b
      · subst hx
        simp
      · rw [Function.update_of_ne hx]
        exact iff_of_false (fun harmed => harmed (hk (hnone _ rfl) x)) hx

theorem replenishes_iff {op : ServerOp} (hI : BlocksOk s) (hs : serverStep s op = some s') :
    op.Replenishes s ↔ op.HeldCharged s := by
  have harmed : ∀ b, op = .serverTimer b → (s.block b).timer ≠ none := by
    rintro b rfl
    unfold serverStep at hs
    split at hs
    case isTrue hen => exact timer_of_enabled hen
    case isFalse => cases hs
  constructor
  · intro h b hb
    have hbudget : s.budget + (s.block b).capacity = s.budget + s.chargedSince b := (h b hb).2
    rw [← hI.capacity b (harmed b hb)]
    exact Nat.add_left_cancel hbudget
  · intro h b hb
    refine ⟨hI.timer b (harmed b hb), ?_⟩
    have hcap : (s.block b).capacity = s.chargedSince b :=
      (hI.capacity b (harmed b hb)).trans (h b hb)
    rw [← hcap]
    rfl

/-- **Sporadic servers in runs.** Every handler runs on an allocated server and adds the
execution time charged since it was armed, and `rt->server` is always null or the only armed
server, iff no server is run while there is one, and what memory held at `kmalloc` is what was
charged, for each server whose timer expires. -/
theorem servers_ok_iff (cls : SchedClass) (period reserveTime : ℕ) (ops : List ServerOp) :
    (Always serverStep OnlyServer (serverInit cls period reserveTime) ops ∧
      Each serverStep (fun s op => op.Replenishes s) (serverInit cls period reserveTime) ops) ↔
    Each serverStep (fun s op => op.RunsAlone s ∧ op.HeldCharged s)
      (serverInit cls period reserveTime) ops := by
  have hI := serverInit_blocksOk cls period reserveTime
  have honly : Always serverStep OnlyServer (serverInit cls period reserveTime) ops ↔
      Each serverStep (fun s op => op.RunsAlone s) (serverInit cls period reserveTime) ops := by
    refine always_iff_each (I := fun s => BlocksOk s ∧ Kept s) (fun s op s' hI ho hs _ => ?_)
      (fun s op s' hI ho hs => ?_) ops _ ⟨hI, fun _ _ => rfl⟩ (by rintro b ⟨⟩)
    · exact ⟨serverStep_blocksOk hI.1 hs, serverStep_kept hI.1 hI.2 ho hs⟩
    · exact serverStep_onlyServer hI.1 hI.2 ho hs
  have hadds : Each serverStep (fun s op => op.Replenishes s)
        (serverInit cls period reserveTime) ops ↔
      Each serverStep (fun s op => op.HeldCharged s) (serverInit cls period reserveTime) ops :=
    Each.iff_of_inv (I := BlocksOk) (fun s op s' hI hs => serverStep_blocksOk hI hs)
      (fun s op s' hI hs => replenishes_iff hI hs) ops _ hI
  rw [honly, hadds]
  exact Each.and_iff

/-- A server runs out its period, of which the task has used three jiffies. -/
def oneServer : List ServerOp :=
  [.jobStart true, .serverRun (some (0, 0)), .time 3, .tick, .time 5, .serverTimer 0]

/-- A job runs two servers. -/
def twoServers : List ServerOp :=
  [.jobStart true, .serverRun (some (0, 0)), .serverRun (some (1, 0))]

/-- The handler of the first run adds nothing, and in the second `rt->server` is not the only
armed server. -/
theorem servers_not_ok :
    ¬ Each serverStep (fun s op => op.Replenishes s) (serverInit .fp 5 10) oneServer ∧
      ¬ Always serverStep OnlyServer (serverInit .fp 5 10) twoServers := by
  constructor
  · intro h
    refine absurd (h.check (fun s op => match op with
      | .serverTimer b => decide ((s.serverHandler b).budget = s.budget + s.chargedSince b)
      | _ => true) (fun s op hop => ?_)) (by decide +kernel)
    cases op with
    | serverTimer b => exact decide_eq_true (hop b rfl).2
    | _ => rfl
  · intro h
    have hlast : OnlyServer _ := h.final rfl
    exact absurd ((hlast 1 rfl 0).1 (by decide +kernel)) (by decide)

end Resch
