import Asyncband.Transition
import Asyncband.Table
import Asyncband.WaitList
import Asyncband.WakerBatch

/-! The internal semaphore as a transition system.
One step of a call is one atomic operation on the permit count or the contention
flag, or one stretch of work under the queue lock that contains none. Any number
of calls and acquire futures are interleaved. The fields marked ghost record what
happened; no modelled code reads them. -/
namespace Asyncband

/-- Task wakers. `willWake` is the standard library's test that two wakers wake
the same task. -/
class Wake (W : Type) where
  willWake : W → W → Bool

/-- Tasks known by number, each woken by its own number only. -/
instance : Wake ℕ where
  willWake := (· == ·)

/-- `register_waker`, without the replaced waker that it hands back to be dropped. -/
def registerWaker {W : Type} [Wake W] (slot : Option W) (waker : W) : Option W :=
  match slot with
  | some current => if Wake.willWake current waker then some current else some waker
  | none => some waker

def usizeMax : ℕ := 2^64-1

namespace Semaphore

structure WaitNode (W : Type) where
  neededPermits : ℕ
  /-- A linked node without a waker is permit debt. -/
  waker : Option W
  /-- Ghost: the acquire future that enqueued the node. -/
  owner : Option ℕ

/-- `unpolled`, `ready` and `dropped` futures have no waiter index. A future that
completed stays `ready`, so that `dropped` means cancelled. -/
inductive Phase
  | unpolled | queued (id : WaiterId) | ready | dropped
  deriving DecidableEq

structure Acquire (W : Type) where
  requestedPermits : ℕ
  phase : Phase
  /-- The call that borrows the future mutably. -/
  busy : Option ℕ
  /-- Ghost: the waker of the latest poll that returned pending. -/
  lastWaker : Option W

inductive Op (W : Type)
  | tryAcquire (n : ℕ) | drainPermits (upTo : ℕ) | reducePermits (n : ℕ)
  | release (n : ℕ) | releaseWithLock (n : ℕ) | releaseIfWaiters (n : ℕ) | notifyAll
  | poll (future : ℕ) (waker : W) | drop (future : ℕ)

inductive Outcome
  | acquired | refused | drained (n : ℕ) | pending | returned
  deriving DecidableEq

/-- Where a call stands between two of its atomic operations. -/
inductive Call (W : Type)
  | started (op : Op W)
  | tryAcquire (n available : ℕ)
  | drainPermits (upTo available : ℕ)
  /-- `owner` is `none` for `reduce_permits`; `lock` says whether the queue lock is held. -/
  | acquiredOrEnqueue (requested available : ℕ) (owner : Option (ℕ × W)) (lock : Bool)
  | release (n available : ℕ)
  | releaseExchange (n available : ℕ)
  | releaseLock (n : ℕ)
  /-- In `distribute_permits` with the lock held and no waiter left. -/
  | surplusLoad (remaining : ℕ) (batch : List W)
  | surplusAdd (remaining : ℕ) (batch : List W)
  | surplusExchange (remaining available : ℕ) (batch : List W)
  | surplusContended (remaining actual : ℕ) (batch : List W)
  | surplusSettled (batch : List W)
  | wakeAll (batch : List W) (remaining : ℕ)
  | relock (remaining : ℕ)
  | finished (outcome : Outcome)
  | panicked (message : String) (remaining : ℕ)

/-- Ghost totals since the semaphore was created. -/
structure Ledger where
  acquired : ℕ
  released : ℕ
  reduced : ℕ
  drained : ℕ
  /-- Needs that `notify_all` cancelled without any permit. -/
  notified : ℕ

structure State (W : Type) where
  available : ℕ
  contentionDetected : Bool
  waiters : WaitList (WaitNode W)
  /-- The call that holds the queue lock. -/
  lock : Option ℕ
  acquires : List (Acquire W)
  calls : List (Call W)
  ledger : Ledger
  /-- Ghost: the futures that entered the queue, in that order. -/
  enqueued : List ℕ
  /-- Ghost: the futures whose need reached zero in the queue, in that order, each
  with the waker taken for it. -/
  granted : List (ℕ × W)

def new (W : Type) (permits : ℕ) : State W :=
  ⟨permits,false,.new,none,[],[],⟨0,0,0,0,0⟩,[],[]⟩

variable {W : Type}

namespace State

def setCall (s : State W) (c : ℕ) (call : Call W) : State W := {s with calls := s.calls.set c call}

def finish (s : State W) (c : ℕ) (outcome : Outcome) : State W := s.setCall c (.finished outcome)

/-- A panic drops the lock guard while unwinding. -/
def panic (s : State W) (c : ℕ) (message : String) (remaining : ℕ) : State W :=
  {s.setCall c (.panicked message remaining) with
    lock := if s.lock = some c then none else s.lock}

def setAcquire (s : State W) (f : ℕ) (a : Acquire W) : State W :=
  {s with acquires := s.acquires.set f a}

end State

/-- The local variables of `distribute_permits` together with the queue. -/
structure Distribution (W : Type) where
  waiters : WaitList (WaitNode W)
  remaining : ℕ
  batch : List W
  granted : List (ℕ × W)

/-- The closure given to `unlink_first_waiter`. -/
def assignTo (remaining : ℕ) (node : WaitNode W) : Bool × WaitNode W :=
  let assigned := min node.neededPermits remaining
  (node.neededPermits-assigned == 0,{node with neededPermits := node.neededPermits-assigned})

/-- What the closure takes from its captured `remaining`; it runs on the head only. -/
def headNeed (w : WaitList (WaitNode W)) : ℕ :=
  (w.order.head?.bind w.get?).elim 0 WaitNode.neededPermits

/-- The inner loop. Every round that does not leave it detaches one waiter, so
the number of linked waiters bounds the rounds. -/
def assignPermits : ℕ → Distribution W → Except String (Distribution W)
  | 0, d => .ok d
  | rounds+1, d =>
    if 0 < d.remaining ∧ d.batch.length < WakerBatch.stackSize then
      let remaining := d.remaining - min (headNeed d.waiters) d.remaining
      match d.waiters.unlinkFirstWaiter (assignTo d.remaining) with
      | (none,waiters) => .ok {d with waiters := waiters,remaining := remaining}
      | (some (id,node),waiters) =>
        match node.waker with
        | some waker => do
          let waiters ← waiters.setWaiter id {node with waker := none}
          assignPermits rounds ⟨waiters,remaining,d.batch++[waker],
            d.granted++node.owner.toList.map (·,waker)⟩
        | none => do
          let (_,waiters) ← waiters.removeUnlinkedWaiter id
          assignPermits rounds ⟨waiters,remaining,d.batch,d.granted⟩
    else .ok d

/-- `distribute_permits` from the moment the lock is held until it is released or
the permit count is needed. -/
def distribute (s : State W) (c : ℕ) (remaining : ℕ) : State W :=
  match assignPermits s.waiters.order.length ⟨s.waiters,remaining,[],[]⟩ with
  | .error message => {s with lock := some c}.panic c message remaining
  | .ok d =>
    let s := {s with waiters := d.waiters,granted := s.granted++d.granted}
    if 0 < d.remaining ∧ d.waiters.isEmpty then
      {s.setCall c (.surplusLoad d.remaining d.batch) with lock := some c}
    else {s.setCall c (.wakeAll d.batch d.remaining) with lock := none}

/-- The loop of `notify_all`; its batch may spill. -/
def notifyWaiters : ℕ → Distribution W → Except String (Distribution W)
  | 0, d => .ok d
  | rounds+1, d =>
    let remaining := d.remaining + headNeed d.waiters
    match d.waiters.unlinkFirstWaiter fun node => (true,{node with neededPermits := 0}) with
    | (none,waiters) => .ok {d with waiters := waiters}
    | (some (id,node),waiters) =>
      match node.waker with
      | some waker => do
        let waiters ← waiters.setWaiter id {node with waker := none}
        notifyWaiters rounds ⟨waiters,remaining,d.batch++[waker],
          d.granted++node.owner.toList.map (·,waker)⟩
      | none => do
        let (_,waiters) ← waiters.removeUnlinkedWaiter id
        notifyWaiters rounds ⟨waiters,remaining,d.batch,d.granted⟩

/-- `notify_all` under the lock. The field `remaining` only counts, as a ghost, the
needs that are cancelled. -/
def notifyAll (s : State W) (c : ℕ) : State W :=
  match notifyWaiters s.waiters.order.length ⟨s.waiters,0,[],[]⟩ with
  | .error message => s.panic c message 0
  | .ok d =>
    {s.setCall c (.wakeAll d.batch 0) with
      waiters := d.waiters
      granted := s.granted++d.granted
      ledger := {s.ledger with notified := s.ledger.notified+d.remaining}}

/-- `poll_once` on a registered future, under the lock. -/
def pollQueued [Wake W] (s : State W) (c f : ℕ) (a : Acquire W) (id : WaiterId) (waker : W) :
    State W :=
  match s.waiters.get? id with
  | none => s.panic c "waiter id must refer to an occupied node" 0
  | some node =>
    if 0 < node.neededPermits then
      match s.waiters.setWaiter id {node with waker := registerWaker node.waker waker} with
      | .error message => s.panic c message 0
      | .ok waiters =>
        {s with waiters := waiters}.setAcquire f {a with busy := none,lastWaker := some waker}
          |>.finish c .pending
    else
      match s.waiters.removeUnlinkedWaiter id with
      | .error message => s.panic c message 0
      | .ok (_,waiters) =>
        {s with
          waiters := waiters
          ledger := {s.ledger with acquired := s.ledger.acquired+a.requestedPermits}}.setAcquire f
            {a with phase := .ready,busy := none} |>.finish c .acquired

def dropQueued (s : State W) (c f : ℕ) (a : Acquire W) (id : WaiterId) : State W :=
  match s.waiters.get? id with
  | none => s.panic c "waiter id must refer to an occupied node" 0
  | some node =>
    if a.requestedPermits < node.neededPermits then
      s.panic c "attempt to subtract with overflow" 0
    else
      let acquired := a.requestedPermits-node.neededPermits
      let removed := do
        let (_,waiters) ← s.waiters.unlinkWaiter id fun node => (true,{node with neededPermits := 0})
        waiters.removeUnlinkedWaiter id
      match removed with
      | .error message => s.panic c message 0
      | .ok (_,waiters) =>
        let s := {s with waiters := waiters}.setAcquire f {a with phase := .dropped,busy := none}
        if 0 < acquired then distribute s c acquired else s.finish c .returned

def begin [Wake W] (s : State W) (c : ℕ) : Op W → Option (State W)
  | .tryAcquire n => some (s.setCall c (.tryAcquire n s.available))
  | .drainPermits upTo =>
    if upTo = 0 then some (s.finish c (.drained 0))
    else some (s.setCall c (.drainPermits upTo s.available))
  | .reducePermits n => some (s.setCall c (.acquiredOrEnqueue n s.available none false))
  | .release n =>
    if n = 0 then some (s.finish c .returned)
    else if s.available ≠ 0 then some (s.setCall c (.release n s.available))
    else some (s.setCall c (.releaseLock n))
  | .releaseWithLock n =>
    if n = 0 then some (s.finish c .returned) else some (s.setCall c (.releaseLock n))
  | .releaseIfWaiters n =>
    if s.lock ≠ none then none
    else if s.waiters.isEmpty then some (s.finish c .returned)
    else
      some (distribute {s with ledger := {s.ledger with released := s.ledger.released+n}} c n)
  | .notifyAll => if s.lock ≠ none then none else some (notifyAll s c)
  | .poll f waker =>
    match s.acquires[f]? with
    | none => none
    | some a =>
      match a.phase with
      | .queued id => if s.lock ≠ none then none else some (pollQueued s c f a id waker)
      | _ => some (s.setCall c
          (.acquiredOrEnqueue a.requestedPermits s.available (some (f,waker)) false))
  | .drop f =>
    match s.acquires[f]? with
    | none => none
    | some a =>
      match a.phase with
      | .queued id => if s.lock ≠ none then none else some (dropQueued s c f a id)
      | .ready => some (s.setAcquire f {a with busy := none} |>.finish c .returned)
      | _ => some (s.setAcquire f {a with phase := .dropped,busy := none} |>.finish c .returned)

/-- The exchange of `acquired_or_enqueue` took everything it needs. -/
def takeAll (s : State W) (c requested : ℕ) (owner : Option (ℕ × W)) (lock : Bool) : State W :=
  let s := {s with
    available := s.available-requested
    lock := if lock then none else s.lock}
  match owner with
  | none =>
    {s with ledger := {s.ledger with reduced := s.ledger.reduced+requested}}.finish c .returned
  | some (f,_) =>
    {s with
      ledger := {s.ledger with acquired := s.ledger.acquired+requested}
      acquires := s.acquires.modify f fun a => {a with phase := .ready,busy := none}}.finish c
        .acquired

/-- The exchange took what there was; the missing rest is enqueued. -/
def takeAndEnqueue (s : State W) (c requested : ℕ) (owner : Option (ℕ × W)) : State W :=
  let needed := requested-s.available
  let s := {s with available := 0,lock := none}
  match owner with
  | none =>
    let (_,waiters) := s.waiters.pushFront ⟨needed,none,none⟩
    {s with
      waiters := waiters
      ledger := {s.ledger with reduced := s.ledger.reduced+requested}}.finish c .returned
  | some (f,waker) =>
    let (id,waiters) := s.waiters.pushBack ⟨needed,some waker,some f⟩
    {s with
      waiters := waiters
      acquires := s.acquires.modify f fun a =>
        {a with phase := .queued id,busy := none,lastWaker := some waker}
      enqueued := s.enqueued++[f]}.finish c .pending

def overflowMessage (released expected : ℕ) : String :=
  s!"number of added permits ({released}) would overflow usize::MAX (prev: {expected})"

/-- One step of call `c`; `none` while it waits for the lock or has ended. The flag
makes a weak compare-exchange fail spuriously. -/
def advance [Wake W] (s : State W) (c : ℕ) (spurious : Bool) : Option (State W) :=
  match s.calls[c]? with
  | none | some (.finished _) | some (.panicked _ _) => none
  | some (.started op) => begin s c op
  | some (.tryAcquire n available) =>
    if available < n then some (s.finish c .refused)
    else if s.available = available then
      some ({s with
        available := available-n
        ledger := {s.ledger with acquired := s.ledger.acquired+n}}.finish c .acquired)
    else some (s.setCall c (.tryAcquire n s.available))
  | some (.drainPermits upTo available) =>
    if s.available = available ∧ spurious = false then
      some ({s with
        available := available-upTo
        ledger := {s.ledger with drained := s.ledger.drained+min upTo available}}.finish c
          (.drained (min upTo available)))
    else some (s.setCall c (.drainPermits upTo s.available))
  | some (.acquiredOrEnqueue requested available owner lock) =>
    if available < requested ∧ lock = false then
      if s.lock ≠ none then none
      else some {s.setCall c (.acquiredOrEnqueue requested available owner true) with lock := some c}
    else if s.available ≠ available then
      some (s.setCall c (.acquiredOrEnqueue requested s.available owner lock))
    else if requested ≤ available then some (takeAll s c requested owner lock)
    else some (takeAndEnqueue s c requested owner)
  | some (.release n available) =>
    if s.contentionDetected then some (s.setCall c (.releaseLock n))
    else some (s.setCall c (.releaseExchange n available))
  | some (.releaseExchange n available) =>
    let counted := {s with ledger := {s.ledger with released := s.ledger.released+n}}
    if usizeMax < available+n then some (counted.panic c (overflowMessage n available) n)
    else if s.available = available then
      some ({counted with available := available+n}.finish c .returned)
    else some (s.setCall c (.releaseLock n))
  | some (.releaseLock n) =>
    if s.lock ≠ none then none
    else
      some (distribute {s with ledger := {s.ledger with released := s.ledger.released+n}} c n)
  | some (.relock remaining) => if s.lock ≠ none then none else some (distribute s c remaining)
  | some (.surplusLoad remaining batch) =>
    if s.available = 0 then some (s.setCall c (.surplusAdd remaining batch))
    else some (s.setCall c (.surplusExchange remaining s.available batch))
  | some (.surplusAdd remaining batch) =>
    -- `fetch_add` wraps around
    some {s.setCall c (.wakeAll batch 0) with
      available := (s.available+remaining) % 2^64
      lock := none}
  | some (.surplusExchange remaining available batch) =>
    if usizeMax < available+remaining then
      some (s.panic c (overflowMessage remaining available) remaining)
    else if s.available = available then
      some {s.setCall c (.surplusSettled batch) with available := available+remaining}
    else some (s.setCall c (.surplusContended remaining s.available batch))
  | some (.surplusContended remaining actual batch) =>
    some {s.setCall c (.surplusExchange remaining actual batch) with contentionDetected := true}
  | some (.surplusSettled batch) =>
    some {s.setCall c (.wakeAll batch 0) with contentionDetected := false,lock := none}
  | some (.wakeAll (_::batch) remaining) => some (s.setCall c (.wakeAll batch remaining))
  | some (.wakeAll [] remaining) =>
    if remaining = 0 then some (s.finish c .returned) else some (s.setCall c (.relock remaining))

/-- The calls that a program can make: numbers are `usize` values, and a future is
polled or dropped by one owner at a time and never polled again once it is ready. -/
def startable (s : State W) : Op W → Bool
  | .tryAcquire n | .drainPermits n | .reducePermits n | .release n | .releaseWithLock n
  | .releaseIfWaiters n => decide (n ≤ usizeMax)
  | .notifyAll => true
  | .poll f _ => (s.acquires[f]?).any fun a =>
      a.busy.isNone && decide (a.phase ≠ .ready) && decide (a.phase ≠ .dropped)
  | .drop f => (s.acquires[f]?).any fun a => a.busy.isNone && decide (a.phase ≠ .dropped)

/-- A poll and a drop borrow their future mutably until they end. -/
def borrow (s : State W) (c : ℕ) : Op W → State W
  | .poll f _ | .drop f => {s with acquires := s.acquires.modify f fun a => {a with busy := some c}}
  | _ => s

inductive Action (W : Type)
  | acquire (n : ℕ)
  | call (op : Op W)
  | advance (c : ℕ) (spurious : Bool)

def next [Wake W] (s : State W) : Action W → Option (State W)
  | .acquire n =>
    if n ≤ usizeMax then some {s with acquires := s.acquires++[⟨n,.unpolled,none,none⟩]} else none
  | .call op =>
    if startable s op then
      let s' := borrow s s.calls.length op
      some {s' with calls := s'.calls++[.started op]}
    else none
  | .advance c spurious => advance s c spurious

def machine (W : Type) [Wake W] : Transition.Machine (State W) (Action W) where
  init s := ∃ permits, permits ≤ usizeMax ∧ s = new W permits
  next := next

end Semaphore
end Asyncband
