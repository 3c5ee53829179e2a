import Resch.Spec.Component
import Resch.Spec.PidRun

/-!
# The two bitmaps of ids

The steps of `api_init` and `api_exit` of any processes, and the calls for components. A step of
the ones leaves the others alone.
-/

namespace Resch

structure AllocState where
  pid : PidState
  component : ComponentState

inductive AllocOp
  | pid (op : PidOp) (k : Kernel)
  | component (op : ComponentOp)

def allocStep (c : Config) (s : AllocState) : AllocOp → Option AllocState
  | .pid op k => (pidStep c s.pid (op, k)).map fun pid => { s with pid := pid }
  | .component op => (componentStep c s.component op).map fun component => { s with component := component }

/-- The module has been loaded. -/
def allocInit (c : Config) (jiffies : ℕ) (proc : ℕ → Proc) (before : ℤ → Bool)
    (stray : ℤ → Option ListNode × Option ListNode) : AllocState where
  pid := pidInit jiffies proc
  component := componentInit c before stray

end Resch
