import Resch.Spec.EdfFf

/-!
# Faults that the demand-bound test avoids

The overheads and the test of EDF-FF stop with no other fault than a division by zero, and with
that one only if the period of a task that they look at is zero in microseconds. The loops over
deadlines also stop when they have had all their turns, which is not for a lemma of this module.
-/

namespace Resch.Checked

open Lib

variable {c : Config} {s : TaskSet} {f : Fault} {rt cpu p x y L interval : ℕ}

/-- Both its operations divide by the same number. -/
theorem divRoundUp_avoids (h : f = .divideByZero → y ≠ 0) : Avoids f (divRoundUp x y) := by
  unfold divRoundUp
  refine (Avoids.mod h).bind fun r _ => .ite (fun _ => Avoids.div h) fun _ => ?_
  exact (Avoids.div h).bind fun q _ => .pure _

/-- The number of jobs is a quotient by the period. -/
theorem schedOverheadTask_avoids (h : f = .divideByZero → c.usecs (s.task rt).period ≠ 0) :
    Avoids f (schedOverheadTask c s rt interval) := by
  unfold schedOverheadTask
  exact (divRoundUp_avoids h).bind fun n _ => .pure _

/-- The tasks on a CPU have periods. -/
def Periods (c : Config) (s : TaskSet) (cpu : ℕ) : Prop :=
  ∀ p ∈ s.list, (s.task p).cpuId = cpu → c.usecs (s.task p).period ≠ 0

/-- The loop looks at the tasks of the CPU only. -/
theorem schedOverheadCpu_avoids (h : f = .divideByZero → Periods c s cpu) :
    Avoids f (schedOverheadCpu c s cpu interval) := by
  unfold schedOverheadCpu
  refine Avoids.bind (Avoids.foldlM (fun p hp sum => ?_) 0) fun sum _ => .pure _
  refine .ite (fun hcpu => ?_) fun _ => .pure _
  exact (schedOverheadTask_avoids fun hf => h hf p hp hcpu).bind fun o _ => .pure _

/-- A period of zero jiffies is one of zero microseconds. -/
theorem period_ne_zero (h : c.usecs (s.task p).period ≠ 0) : (s.task p).period ≠ 0 := by
  intro h0
  apply h
  rw [h0]
  unfold Config.usecs Config.jiffiesToUsecs
  rw [Nat.mul_zero, Nat.zero_mod]

namespace EdfFf

theorem util_avoids (h : f = .divideByZero → c.usecs (s.task p).period ≠ 0) :
    Avoids f (util c s p) := Avoids.div h

/-- It divides by the period in jiffies. -/
theorem dbfTask_avoids (h : f = .divideByZero → c.usecs (s.task p).period ≠ 0) :
    Avoids f (dbfTask c s p L) := by
  unfold dbfTask
  refine .ite (fun _ => .pure _) fun _ => ?_
  exact (Avoids.div fun hf => period_ne_zero (h hf)).bind fun q _ => .pure _

/-- The loop looks at the tasks of the CPU only. -/
theorem dbfCpu_avoids (h : f = .divideByZero → Periods c s cpu) :
    Avoids f (dbfCpu c s cpu L) := by
  unfold dbfCpu
  refine Avoids.foldlM (fun p hp sum => ?_) 0
  refine .ite (fun hcpu => ?_) fun _ => .pure _
  exact (dbfTask_avoids fun hf => h hf p hp (of_decide_eq_true hcpu)).bind fun d _ => .pure _

/-- The tasks on the CPU and the new one -/
theorem overhead_avoids (h : f = .divideByZero → Periods c s cpu)
    (hrt : f = .divideByZero → c.usecs (s.task rt).period ≠ 0) :
    Avoids f (overhead c s rt cpu L) := by
  unfold overhead
  refine (schedOverheadCpu_avoids h).bind fun o _ => ?_
  exact (schedOverheadTask_avoids hrt).bind fun o' _ => .pure _

/-- **The comparison at a deadline** divides by nothing else. -/
theorem fits_avoids (h : f = .divideByZero → Periods c s cpu)
    (hrt : f = .divideByZero → c.usecs (s.task rt).period ≠ 0) :
    Avoids f (fits c s rt cpu L) := by
  unfold fits
  refine (dbfCpu_avoids h).bind fun d _ => ?_
  refine (dbfTask_avoids hrt).bind fun d' _ => ?_
  exact (overhead_avoids h hrt).bind fun o _ => .pure _

end EdfFf

end Resch.Checked
