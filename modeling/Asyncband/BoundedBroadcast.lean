import Asyncband.Backlog
import Asyncband.Semaphore

/-! The bounded broadcast channel with its waiting producers.
A party is a `send` future or the part of a receive, or of a receiver's drop, that runs
after the channel lock is released. Critical sections, operations on the number of
blocked senders and steps inside the semaphore are separate steps. The wakers of
receivers and the number of senders play no part in it and are left out. -/
namespace Asyncband
namespace BoundedBroadcast

/-- Where a party stands. Futures and calls are those of `tx_permits`. -/
inductive Stage (T W : Type)
  /-- `send` found the channel full and is about to count itself. -/
  | announcing (value : T) (waker : W)
  /-- In `poll_send`, until the recheck: `acquire` is being polled, or has been. -/
  | polling (value : T) (waker : W) (future call : ℕ)
  | parked (value : T) (future : ℕ)
  /-- `SendState` is about to be dropped, after success, cancellation or a panic. -/
  | leaving (future : ℕ)
  /-- The count is down and `acquire` is being dropped. -/
  | dropping (future call : ℕ)
  | reclaimed (freed : ℕ)
  | drained
  | releasing (call : ℕ)
  | notifying (call : ℕ)
  | done

structure State (T W : Type) where
  capacity : ℕ
  log : Backlog T
  txPermits : Semaphore.State W
  /-- Each unit is a future in memory, so the count cannot reach `usize::MAX`. -/
  blockedSenders : ℕ
  parties : List (Stage T W)

variable {T W : Type}

namespace Stage

def future : Stage T W → Option ℕ
  | .polling _ _ f _ | .parked _ f | .leaving f | .dropping f _ => some f
  | _ => none

def call : Stage T W → Option ℕ
  | .polling _ _ _ c | .dropping _ c | .releasing c | .notifying c => some c
  | _ => none

def blocked : Stage T W → Bool
  | .polling _ _ _ _ | .parked _ _ | .leaving _ => true
  | _ => false

end Stage

def bounded (T W : Type) (capacity : ℕ) : Except String (SlotId × State T W) :=
  if 0 < capacity then
    let (key,log) := Backlog.fixed.subscribe
    .ok (key,⟨capacity,log,Semaphore.new W 0,0,[]⟩)
  else .error "broadcast bounded channel requires capacity > 0"

namespace State

def setParty (s : State T W) (p : ℕ) (stage : Stage T W) : State T W :=
  {s with parties := s.parties.set p stage}

def addParty (s : State T W) (stage : Stage T W) : State T W :=
  {s with parties := s.parties++[stage]}

end State

/-- `publish` under the channel lock; `false` hands the payload back. -/
def publish (s : State T W) (value : T) : Except String (Bool × State T W) :=
  if s.log.hasReceivers = false then
    s.log.publishDiscarded.map fun log => (true,{s with log := log})
  else if s.log.retained = s.capacity then .ok (false,s)
  else (s.log.publishRetained value).map fun log => (true,{s with log := log})

def enter [Wake W] (s : State T W) (p : ℕ) (op : Semaphore.Op W) (stage : ℕ → Stage T W) :
    Option (State T W) :=
  (Semaphore.next s.txPermits (.call op)).map fun sem =>
    {s with txPermits := sem}.setParty p (stage s.txPermits.calls.length)

def pollAcquire [Wake W] (s : State T W) (p : ℕ) (value : T) (waker : W) (future : ℕ) :
    Option (State T W) :=
  enter s p (.poll future waker) (.polling value waker future)

def acquireAndPoll [Wake W] (s : State T W) (p : ℕ) (value : T) (waker : W) :
    Option (State T W) :=
  (Semaphore.next s.txPermits (.acquire 1)).bind fun sem =>
    pollAcquire {s with txPermits := sem} p value waker s.txPermits.acquires.length

/-- `try_publish` in `poll_send` and what follows it. -/
def recheck [Wake W] (s : State T W) (p : ℕ) (value : T) (waker : W) (future : ℕ)
    (outcome : Semaphore.Outcome) : Option (State T W) :=
  match publish s value with
  -- the panic unwinds through `SendState`
  | .error _ => some (s.setParty p (.leaving future))
  | .ok (true,s) => some (s.setParty p (.leaving future))
  | .ok (false,s) =>
    -- the completed future that is replaced has no waiter index, so dropping it does nothing
    if outcome = .acquired then acquireAndPoll s p value waker
    else some (s.setParty p (.parked value future))

/-- `release_reclaimed` from the load of the count on. -/
def releaseReclaimed [Wake W] (s : State T W) (p freed : ℕ) : Option (State T W) :=
  if 0 < s.blockedSenders then
    enter s p (.releaseIfWaiters (min freed s.blockedSenders)) .releasing
  else some (s.setParty p .done)

def releaseAll [Wake W] (s : State T W) (p : ℕ) : Option (State T W) :=
  if 0 < s.blockedSenders then enter s p .notifyAll .notifying else some (s.setParty p .done)

/-- The critical section of `try_receive` and `poll_receive`. -/
def receive (s : State T W) (key : SlotId) : Option (State T W) :=
  if (s.log.cursor key).isSome then
    match s.log.receive key with
    | .error _ => none
    | .ok (received,log) =>
      let s := {s with log := log}
      if (received.any fun r => r.reclaimed) then some (s.addParty (.reclaimed 1)) else some s
  else none

/-- The critical section of `BoundedReceiver::drop`. -/
def dropReceiver (s : State T W) (key : SlotId) : Option (State T W) :=
  if (s.log.cursor key).isSome then
    match s.log.removeReceiver key with
    | .error _ => none
    | .ok (reclaimed,log) =>
      let s := {s with log := log}
      if log.hasReceivers = false then some (s.addParty .drained)
      else if reclaimed.len = 0 then some s
      else some (s.addParty (.reclaimed reclaimed.len))
  else none

inductive Action (T W : Type)
  | send (value : T) (waker : W)
  | trySend (value : T)
  | announce (p : ℕ)
  | poll (p : ℕ) (waker : W)
  | recheck (p : ℕ)
  | cancel (p : ℕ)
  | leave (p : ℕ)
  | subscribe
  | receive (key : SlotId)
  | dropReceiver (key : SlotId)
  | load (p : ℕ)
  | advance (p : ℕ) (spurious : Bool)

def next [Wake W] (s : State T W) : Action T W → Option (State T W)
  | .send value waker =>
    match publish s value with
    | .error _ => some s
    | .ok (true,s) => some s
    | .ok (false,s) => some (s.addParty (.announcing value waker))
  | .trySend value =>
    match publish s value with
    | .error _ => some s
    | .ok (_,s) => some s
  | .announce p =>
    match s.parties[p]? with
    | some (.announcing value waker) =>
      acquireAndPoll {s with blockedSenders := s.blockedSenders+1} p value waker
    | _ => none
  | .poll p waker =>
    match s.parties[p]? with
    | some (.parked value future) => pollAcquire s p value waker future
    | _ => none
  | .recheck p =>
    match s.parties[p]? with
    | some (.polling value waker future call) =>
      match s.txPermits.calls[call]? with
      | some (.finished outcome) => recheck s p value waker future outcome
      | _ => none
    | _ => none
  | .cancel p =>
    match s.parties[p]? with
    | some (.parked _ future) => some (s.setParty p (.leaving future))
    | _ => none
  | .leave p =>
    match s.parties[p]? with
    | some (.leaving future) =>
      enter {s with blockedSenders := s.blockedSenders-1} p (.drop future) (.dropping future)
    | _ => none
  | .subscribe => some {s with log := s.log.subscribe.2}
  | .receive key => receive s key
  | .dropReceiver key => dropReceiver s key
  | .load p =>
    match s.parties[p]? with
    | some (.reclaimed freed) => releaseReclaimed s p freed
    | some .drained => releaseAll s p
    | _ => none
  | .advance p spurious =>
    match (s.parties[p]?).bind Stage.call with
    | some c => (Semaphore.next s.txPermits (.advance c spurious)).map fun sem =>
        {s with txPermits := sem}
    | none => none

def machine (T W : Type) [Wake W] : Transition.Machine (State T W) (Action T W) where
  init s := ∃ capacity key, capacity ≤ usizeMax ∧ bounded T W capacity = .ok (key,s)
  next := next

end BoundedBroadcast
end Asyncband
