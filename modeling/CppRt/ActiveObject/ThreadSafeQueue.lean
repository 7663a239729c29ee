import CppRt.Library.Monitor
import CppRt.Queue.Fifo

/-!
The thread_safe_queue of the active object. Its mutex is a plain one, locked and
unlocked by hand, is_empty does not lock, and push signals while it still holds the
mutex. A try_pop that finds the queue empty returns without unlocking.
-/

namespace CppRt.ActiveObject.ThreadSafeQueue
open Library Concurrent Queue

/-- The operation that will take the front item. A pop remembers whether it has been
woken from its wait. -/
inductive Taker (Item : Type*) where
  | pop (woken : Bool)
  | tryPop (item : Item)

/-- Where a thread is: the next statement it will execute. The monitor takes a thread from
`asleep` to `woken` and from `pushSignal` to `pushUnlock`. -/
inductive Pc (Item : Type*) where
  | outside
  | popLock
  | popTest (woken : Bool)
  | condWait (woken : Bool)
  | asleep
  | woken
  | tryLock (item : Item)
  | tryTest (item : Item)
  | take (taker : Taker Item)
  | unlock (ret : Ret Item)
  | pushLock (item : Item)
  | pushEnqueue (item : Item)
  | pushSignal
  | pushUnlock
  | emptyTest
  | returning (ret : Ret Item)

structure Shared (Thread Item : Type*) where
  q : List Item
  mtx : Mutex Thread

variable {Thread Item : Type*}

def entry : Call Item → Pc Item
  | .push item => .pushLock item
  | .pop => .popLock
  | .tryPop item => .tryLock item
  | .isEmpty => .emptyTest

def Taker.call : Taker Item → Call Item
  | .pop _ => .pop
  | .tryPop item => .tryPop item

def Taker.answer : Taker Item → Item → Ret Item
  | .pop _, front => .popped front
  | .tryPop _, front => .tried true front

variable [DecidableEq Thread]

inductive Local (thread : Thread) (shared : Shared Thread Item) :
    Pc Item → Option (Action (Call Item) (Ret Item)) → Shared Thread Item → Pc Item → Prop where
  | popLock {mtx : Mutex Thread} (locked : shared.mtx.lockPlain thread = some mtx) :
      Local thread shared .popLock none { shared with mtx } (.popTest false)
  | popTest {woken : Bool} :
      Local thread shared (.popTest woken) none shared
        (if shared.q.isEmpty then .condWait woken else .take (.pop woken))
  | condWait {woken : Bool} {mtx : Mutex Thread} (unlocked : shared.mtx.unlock thread = some mtx) :
      Local thread shared (.condWait woken) none { shared with mtx } .asleep
  | relock {mtx : Mutex Thread} (locked : shared.mtx.lockPlain thread = some mtx) :
      Local thread shared .woken none { shared with mtx } (.popTest true)
  | tryLock {item : Item} {mtx : Mutex Thread} (locked : shared.mtx.lockPlain thread = some mtx) :
      Local thread shared (.tryLock item) none { shared with mtx } (.tryTest item)
  -- return false without pthread_mutex_unlock
  | tryFails {item : Item} (shape : shared.q = []) :
      Local thread shared (.tryTest item) (some (.commit (.tryPop item) (.tried false item))) shared
        (.returning (.tried false item))
  | tryTest {item : Item} (shape : shared.q ≠ []) :
      Local thread shared (.tryTest item) none shared (.take (.tryPop item))
  | take {taker : Taker Item} {front : Item} {rest : List Item} (shape : shared.q = front :: rest) :
      Local thread shared (.take taker) (some (.commit taker.call (taker.answer front)))
        { shared with q := rest } (.unlock (taker.answer front))
  -- front() and pop() of an empty std::queue are undefined
  | takeEmpty {taker : Taker Item} (shape : shared.q = []) :
      Local thread shared (.take taker) (some .fault) shared (.take taker)
  | unlock {ret : Ret Item} {mtx : Mutex Thread} (unlocked : shared.mtx.unlock thread = some mtx) :
      Local thread shared (.unlock ret) none { shared with mtx } (.returning ret)
  | pushLock {item : Item} {mtx : Mutex Thread} (locked : shared.mtx.lockPlain thread = some mtx) :
      Local thread shared (.pushLock item) none { shared with mtx } (.pushEnqueue item)
  | pushEnqueue {item : Item} :
      Local thread shared (.pushEnqueue item) (some (.commit (.push item) .pushed))
        { shared with q := shared.q ++ [item] } .pushSignal
  | pushUnlock {mtx : Mutex Thread} (unlocked : shared.mtx.unlock thread = some mtx) :
      Local thread shared .pushUnlock none { shared with mtx } (.returning .pushed)
  | emptyTest :
      Local thread shared .emptyTest (some (.commit .isEmpty (.emptiness shared.q.isEmpty))) shared
        (.returning (.emptiness shared.q.isEmpty))

def monitor : Monitor Thread (Shared Thread Item) (Pc Item) (Call Item) (Ret Item) where
  initial := ⟨[], .free⟩
  outside := .outside
  entry := entry
  returning := .returning
  asleep := .asleep
  woken := .woken
  signals := .pushSignal
  signalled := .pushUnlock
  moves := Local

abbrev State (Thread Item : Type*) := Monitor.State Thread (Shared Thread Item) (Pc Item)

def machine : Object Thread (State Thread Item) (Call Item) (Ret Item) := monitor.object

end CppRt.ActiveObject.ThreadSafeQueue
