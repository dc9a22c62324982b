import Asyncband.Roster
import Asyncband.Transition

/-! The manual-reset event as a transition system.
The flag is written under the waiter lock, and a first poll also reads it before it takes
the lock. That probe is a step of its own, as is every critical section; between its two
steps a first poll is `probed`. `wait_owned` is `wait` on a shared handle. -/
namespace Asyncband
namespace ManualResetEvent

structure Waiter (W : Type) where
  notified : Bool
  waker : Option W
  /-- Ghost: the wait that registered the node. -/
  owner : ℕ

/-- A future that completed stays `completed` when it is dropped. -/
inductive Stage (W : Type)
  | unpolled
  /-- The first poll found the event unset and has not taken the lock yet. -/
  | probed (waker : W)
  | waiting (id : WaiterId)
  | completed
  | cancelled
  deriving DecidableEq

structure Wait (W : Type) where
  stage : Stage W
  /-- Ghost: the waker of the latest poll that returned pending. -/
  lastWaker : Option W

def Wait.waiter {W : Type} (c : Wait W) : Option WaiterId :=
  match c.stage with
  | .waiting id => some id
  | _ => none

structure State (W : Type) where
  isSet : Bool
  waiters : WaitList (Waiter W)
  waits : List (Wait W)
  /-- Ghost: the wakers that were handed out to be woken. -/
  woken : List W
  panicked : Option String

def withState (W : Type) (isSet : Bool) : State W := ⟨isSet,.new,[],[],none⟩

/-- What the predicate of `set` does to a node. -/
def Waiter.mark {W : Type} (r : Waiter W) : Waiter W := {r with notified := true}

def Waiter.takeWaker {W : Type} (r : Waiter W) : Except String (Option W × Waiter W) :=
  .ok (r.waker,{r with waker := none})

namespace State

variable {W : Type}

def setWait (s : State W) (f : ℕ) (c : Wait W) : State W := {s with waits := s.waits.set f c}

def set (s : State W) : Except String (State W) :=
  if s.isSet then .ok s
  else do
    let (wakers,waiters) ← WaitList.selectAll Waiter.mark Waiter.takeWaker s.waiters.order.length
      s.waiters
    .ok {s with isSet := true,waiters := waiters,woken := s.woken++wakers.reduceOption}

def reset (s : State W) : State W := {s with isSet := false}

/-- The probe at the start of a first poll. -/
def probe (s : State W) (f : ℕ) (c : Wait W) (waker : W) : State W :=
  if s.isSet then s.setWait f {c with stage := .completed}
  else s.setWait f {c with stage := .probed waker}

def pollWait [Wake W] (s : State W) (f : ℕ) (c : Wait W) (waiterId : Option WaiterId) (waker : W) :
    Except String (State W) :=
  match waiterId with
  | some id => do
    let r ← s.waiters.waiterMut id
    if r.notified then do
      let (_,waiters) ← s.waiters.removeUnlinkedWaiter id
      .ok {s.setWait f {c with stage := .completed} with waiters := waiters}
    else if s.isSet then .error "a linked waiter must belong to an unset event"
    else do
      let waiters ← s.waiters.setWaiter id {r with waker := registerWaker r.waker waker}
      .ok {s.setWait f {c with lastWaker := some waker} with waiters := waiters}
  | none =>
    if s.isSet then .ok (s.setWait f {c with stage := .completed})
    else
      let (id,waiters) := s.waiters.pushBack ⟨false,some waker,f⟩
      .ok {s.setWait f ⟨.waiting id,some waker⟩ with waiters := waiters}

def unregisterWaiter (s : State W) (id : WaiterId) : Except String (State W) := do
  let (_,waiters) ← s.waiters.removeWaiter id
  .ok {s with waiters := waiters}

def poll [Wake W] (s : State W) (f : ℕ) (c : Wait W) (waker : W) : Option (Except String (State W)) :=
  match c.stage with
  | .unpolled => some (.ok (s.probe f c waker))
  | .waiting id => some (s.pollWait f c (some id) waker)
  | _ => none

/-- A first poll that was not answered by its probe goes on. -/
def advance [Wake W] (s : State W) (f : ℕ) (c : Wait W) : Option (Except String (State W)) :=
  match c.stage with
  | .probed waker => some (s.pollWait f c none waker)
  | _ => none

/-- A future is not dropped while it is polled. -/
def drop (s : State W) (f : ℕ) (c : Wait W) : Option (Except String (State W)) :=
  match c.stage with
  | .unpolled => some (.ok (s.setWait f {c with stage := .cancelled}))
  | .waiting id => some ((s.setWait f {c with stage := .cancelled}).unregisterWaiter id)
  | .completed => some (.ok s)
  | _ => none

end State

/-- `tryWait` is `try_wait` or `is_set`, which only read the flag. -/
inductive Action (W : Type)
  | set | reset | tryWait | wait | poll (f : ℕ) (waker : W) | advance (f : ℕ) | drop (f : ℕ)

namespace State

variable {W : Type}

def act [Wake W] (s : State W) : Action W → Option (Except String (State W))
  | .set => some s.set
  | .reset => some (.ok s.reset)
  | .tryWait => some (.ok s)
  | .wait => some (.ok {s with waits := s.waits++[⟨.unpolled,none⟩]})
  | .poll f waker => s.waits[f]?.bind fun c => s.poll f c waker
  | .advance f => s.waits[f]?.bind fun c => s.advance f c
  | .drop f => s.waits[f]?.bind fun c => s.drop f c

instance : Transition.Faulty (State W) String :=
  ⟨panicked,fun s message => {s with panicked := some message}⟩

abbrev next [Wake W] (s : State W) (a : Action W) : Option (State W) := Transition.step act s a

/-- The wait has a node, which `notified` says was released or is still in line. -/
def Holds (s : State W) (f : ℕ) (notified : Bool) : Prop :=
  ∃ c id r, s.waits[f]? = some c ∧ c.stage = .waiting id ∧ s.waiters.get? id = some r ∧
    r.owner = f ∧ r.notified = notified

def Completed (s : State W) (f : ℕ) : Prop := ∃ c, s.waits[f]? = some c ∧ c.stage = .completed

def Polled (s : State W) (f : ℕ) : Prop := ∃ c, s.waits[f]? = some c ∧ c.stage ≠ .unpolled

def cohort (s : State W) : List ℕ := s.waiters.queue.map Waiter.owner

end State

def machine (W : Type) [Wake W] (isSet : Bool) : Transition.Machine (State W) (Action W) where
  init s := s = withState W isSet
  next := State.next

end ManualResetEvent
end Asyncband
