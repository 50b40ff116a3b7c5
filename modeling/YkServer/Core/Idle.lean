import YkServer.Core.Timer
import YkServer.Lib.Word

/-!
# Waiting for Events

The model of the wait loop of `IOManager::idle` in `yk/iomanager.cc`: how long a thread
without work waits in `epoll_wait`. The time until the next timer is a 64-bit word. Where
it is compared with the limit, and where it is handed to the kernel, its low 32 bits are
taken as an `int`.

A signal ends a call of `epoll_wait` early, and the loop calls it again. How often that
happens is up to the environment.

## Main definitions

* `IOManager.waitLoop`: The timeouts of the calls of `epoll_wait`.
* `IOManager.idleRound`: One round of `idle` up to there.
-/

namespace YkServer

open Lib

namespace IOManager

def MAX_TIMEOUT : UInt64 := 3000

/-- `(int)next_timeout > MAX_TIMEOUT ? MAX_TIMEOUT : next_timeout`, for a timeout that is
    not the largest word. -/
def limitTimeout (nextTimeout : UInt64) : UInt64 :=
  if nextTimeout ≠ 0 - 1 then
    if intOfWord nextTimeout.toNat > MAX_TIMEOUT.toNat then MAX_TIMEOUT else nextTimeout
  else MAX_TIMEOUT

/-- The loop around `epoll_wait`, which is interrupted the given number of times: the
    timeouts of the calls. -/
def waitLoop : Nat → UInt64 → List Int
  | 0, nextTimeout => [intOfWord (limitTimeout nextTimeout).toNat]
  | interrupts + 1, nextTimeout =>
    intOfWord (limitTimeout nextTimeout).toNat :: waitLoop interrupts (limitTimeout nextTimeout)

/-- A round of `idle` up to the reports. `pendingEventCount` and what `Scheduler::stopping`
    says decide whether it is the last one, which does not wait. -/
def idleRound (pendingEventCount : Int) (schedulerStopping : Bool) (interrupts : Nat)
    (now : UInt64) : Prog Empty TimerManager (List Int) := do
  let nextTimeout ← TimerManager.getNextTimer now
  if nextTimeout = 0 - 1 && pendingEventCount = 0 && schedulerStopping then pure []
  else pure (waitLoop interrupts nextTimeout)

end IOManager

end YkServer
