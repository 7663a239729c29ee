import CppRt.Library.Monitor
import CppRt.Queue.Fifo

/-!
The blocking thread_safe_queue of the thread pool, one step per lock, unlock,
emptiness test, wait, wake-up, removal, insertion and signal. The mutex is
recursive because pop and try_pop hold it while they call is_empty, which locks
it again; push signals after its lock_guard has gone out of scope. Whether copying
an item may throw is a parameter; an exception leaves through the lock_guard.
-/

namespace CppRt.ThreadPool.ThreadSafeQueue
open Library Concurrent Queue

/-- The operation that will take the front item. A pop remembers whether it has been
woken from its wait, a try_pop the value its argument refers to. -/
inductive Taker (Item : Type*) where
  | pop (woken : Bool)
  | tryPop (item : Item)

inductive Caller (Item : Type*) where
  | client
  | within (taker : Taker Item)

/-- Where a thread is: the next statement it will execute. The monitor takes a thread from
`asleep` to `woken` and from `pushSignal` to its return. -/
inductive Pc (Item : Type*) where
  | outside
  | popLock
  | tryLock (item : Item)
  | emptyLock (caller : Caller Item)
  | emptyTest (caller : Caller Item)
  | emptyUnlock (caller : Caller Item) (empty : Bool)
  | condWait (woken : Bool)
  | asleep
  | woken
  | take (taker : Taker Item)
  | unlock (ret : Ret Item)
  | pushLock (item : Item)
  | pushEnqueue (item : Item)
  | pushUnlock
  | pushSignal
  | returning (ret : Ret Item)

structure Shared (Thread Item : Type*) where
  q : List Item
  mtx : Mutex Thread

variable {Thread Item : Type*}

def entry : Call Item → Pc Item
  | .push item => .pushLock item
  | .pop => .popLock
  | .tryPop item => .tryLock item
  | .isEmpty => .emptyLock .client

def Taker.call : Taker Item → Call Item
  | .pop _ => .pop
  | .tryPop item => .tryPop item

def Taker.answer : Taker Item → Item → Ret Item
  | .pop _, front => .popped front
  | .tryPop _, front => .tried true front

def Caller.resume : Caller Item → Bool → Pc Item
  | .client, empty => .returning (.emptiness empty)
  | .within (.pop woken), true => .condWait woken
  | .within (.tryPop item), true => .unlock (.tried false item)
  | .within taker, false => .take taker

/-- The test by which an operation is over takes effect; the others leave it open. -/
def Caller.observes : Caller Item → Bool → Option (Action (Call Item) (Ret Item))
  | .client, empty => some (.commit .isEmpty (.emptiness empty))
  | .within (.tryPop item), true => some (.commit (.tryPop item) (.tried false item))
  | .within _, _ => none

variable [DecidableEq Thread]

inductive Local (throws : Prop) (thread : Thread) (shared : Shared Thread Item) :
    Pc Item → Option (Action (Call Item) (Ret Item)) → Shared Thread Item → Pc Item → Prop where
  | popLock {mtx : Mutex Thread} (locked : shared.mtx.lockRecursive thread = some mtx) :
      Local throws thread shared .popLock none { shared with mtx } (.emptyLock (.within (.pop false)))
  | tryLock {item : Item} {mtx : Mutex Thread} (locked : shared.mtx.lockRecursive thread = some mtx) :
      Local throws thread shared (.tryLock item) none { shared with mtx } (.emptyLock (.within (.tryPop item)))
  | emptyLock {caller : Caller Item} {mtx : Mutex Thread}
      (locked : shared.mtx.lockRecursive thread = some mtx) :
      Local throws thread shared (.emptyLock caller) none { shared with mtx } (.emptyTest caller)
  | emptyTest {caller : Caller Item} :
      Local throws thread shared (.emptyTest caller) (caller.observes shared.q.isEmpty) shared
        (.emptyUnlock caller shared.q.isEmpty)
  | emptyUnlock {caller : Caller Item} {empty : Bool} {mtx : Mutex Thread}
      (unlocked : shared.mtx.unlock thread = some mtx) :
      Local throws thread shared (.emptyUnlock caller empty) none { shared with mtx } (caller.resume empty)
  | condWait {woken : Bool} {mtx : Mutex Thread} (unlocked : shared.mtx.unlock thread = some mtx) :
      Local throws thread shared (.condWait woken) none { shared with mtx } .asleep
  | relock {mtx : Mutex Thread} (locked : shared.mtx.lockRecursive thread = some mtx) :
      Local throws thread shared .woken none { shared with mtx } (.emptyLock (.within (.pop true)))
  | take {taker : Taker Item} {front : Item} {rest : List Item} (shape : shared.q = front :: rest) :
      Local throws thread shared (.take taker) (some (.commit taker.call (taker.answer front)))
        { shared with q := rest } (.unlock (taker.answer front))
  -- front() and pop() of an empty std::queue are undefined
  | takeEmpty {taker : Taker Item} (shape : shared.q = []) :
      Local throws thread shared (.take taker) (some .fault) shared (.take taker)
  | takeThrows {taker : Taker Item} (may : throws) :
      Local throws thread shared (.take taker) none shared (.unlock .threw)
  | unlock {ret : Ret Item} {mtx : Mutex Thread} (unlocked : shared.mtx.unlock thread = some mtx) :
      Local throws thread shared (.unlock ret) none { shared with mtx } (.returning ret)
  | pushLock {item : Item} {mtx : Mutex Thread} (locked : shared.mtx.lockRecursive thread = some mtx) :
      Local throws thread shared (.pushLock item) none { shared with mtx } (.pushEnqueue item)
  | pushEnqueue {item : Item} :
      Local throws thread shared (.pushEnqueue item) (some (.commit (.push item) .pushed))
        { shared with q := shared.q ++ [item] } .pushUnlock
  | pushThrows {item : Item} (may : throws) :
      Local throws thread shared (.pushEnqueue item) none shared (.unlock .threw)
  | pushUnlock {mtx : Mutex Thread} (unlocked : shared.mtx.unlock thread = some mtx) :
      Local throws thread shared .pushUnlock none { shared with mtx } .pushSignal

def monitor (throws : Prop) : Monitor Thread (Shared Thread Item) (Pc Item) (Call Item) (Ret Item) where
  initial := ⟨[], .free⟩
  outside := .outside
  entry := entry
  returning := .returning
  asleep := .asleep
  woken := .woken
  signals := .pushSignal
  signalled := .returning .pushed
  moves := Local throws

abbrev State (Thread Item : Type*) := Monitor.State Thread (Shared Thread Item) (Pc Item)

def machine (throws : Prop) : Object Thread (State Thread Item) (Call Item) (Ret Item) :=
  (monitor throws).object

end CppRt.ThreadPool.ThreadSafeQueue
