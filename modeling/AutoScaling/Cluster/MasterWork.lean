import AutoScaling.Cluster.Launches

/-! # That the master works

The main thread serves a request, starts a VM or drops the head of its queue every few
steps, and the one call in which it can wait is `SL.getNextRequest()` on an empty queue.
While VM 2 boots and all requests allowed then are processed it goes round dropping heads,
whether there is one or not.
-/
namespace AutoScaling
/-- What a step of the main thread gets done: a request is taken from the queue, a VM is
started, or the pass of `handleBooting` only drops the head. -/
inductive Deed
  | takes
  | startsVM
  | dropsHead
  | nothing
  deriving DecidableEq

def Deed.price : Deed → ℕ
  | .takes => 5
  | .startsVM => 1
  | .dropsHead => 3
  | .nothing => 0

namespace MainPc
variable {R : Type*}

/-- The steps that the main thread can take at most before it gets something done. -/
def distance : MainPc R → ℕ
  | .startMid => 3
  | .startFront => 3
  | .loop => 3
  | .bootScaleOut _ _ => 2
  | .bootProcess _ => 1
  | .bootProcessing _ _ => 4
  | .next => 1
  | .addRequest _ => 5
  | .scaleCheck => 4
  | .scaleFront _ => 3

end MainPc

namespace Cluster
variable {R : Type*}

end Cluster
end AutoScaling
