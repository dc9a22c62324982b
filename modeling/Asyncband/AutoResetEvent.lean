import Asyncband.Fifo
import Asyncband.Roster
import Asyncband.Transition

/-! The auto-reset event as a transition system.
Every method is one critical section of the state lock, so one step is one method call or
one poll or drop of a wait future; the table holds every `wait` call that was ever made.
`wait_owned` is `wait` on a shared handle. The ghost counters say where signals went. -/
namespace Asyncband
namespace AutoResetEvent

/-- `waiting` is the only stage in which the future has a waiter id. A future that
completed stays `completed` when it is dropped, so that `cancelled` means cancelled. -/
inductive Stage
  | unpolled | waiting (id : WaiterId) | completed | cancelled
  deriving DecidableEq

structure Wait (W : Type) where
  stage : Stage
  /-- Ghost: the waker of the latest poll that returned pending. -/
  lastWaker : Option W

namespace Wait

variable {W : Type}

def waiter (c : Wait W) : Option WaiterId :=
  match c.stage with
  | .waiting id => some id
  | _ => none

def completed (c : Wait W) : ℕ := if c.stage = .completed then 1 else 0

def live (c : Wait W) : Bool := c.stage != .cancelled

def fresh (c : Wait W) : Bool := c.stage == .unpolled

end Wait

structure State (W : Type) where
  isSet : Bool
  waiters : Waiters W
  waits : List (Wait W)
  sets : ℕ
  /-- Ghost: the answers of the `try_wait` calls. -/
  answers : List Bool
  /-- Ghost: the signals that found another one stored. -/
  merged : ℕ
  /-- Ghost: the stored signals that `reset` cleared. -/
  cleared : ℕ
  /-- Ghost: the waits that joined the queue, in that order. -/
  registered : List ℕ
  /-- Ghost: the waits that were selected, in that order. -/
  assigned : List ℕ
  /-- Ghost: the wakers that were handed out to be woken. -/
  woken : List W
  panicked : Option String

def withState (W : Type) (isSet : Bool) : State W := ⟨isSet,.new,[],0,[],0,0,[],[],[],none⟩

/-- `mem::replace(waiter, Notified)`, which also tells whose waker it was. -/
def select {W : Type} : Registration W → Except String ((ℕ × W) × Registration W)
  | ⟨.waiting waker,f⟩ => .ok ((f,waker),⟨.notified,f⟩)
  | ⟨.notified,_⟩ => .error "only unselected waits remain queued"

namespace State

variable {W : Type}

def setWait (s : State W) (f : ℕ) (c : Wait W) : State W := {s with waits := s.waits.set f c}

def signal (s : State W) : Except String (State W) := do
  match ← s.waiters.selectFirst (fun r => r) select with
  | (some (f,waker),waiters) =>
    .ok {s with waiters := waiters,assigned := s.assigned++[f],woken := s.woken++[waker]}
  | (none,waiters) =>
    .ok {s with waiters := waiters,isSet := true,merged := s.merged+s.isSet.toNat}

def set (s : State W) : Except String (State W) := {s with sets := s.sets+1}.signal

def reset (s : State W) : State W := {s with isSet := false,cleared := s.cleared+s.isSet.toNat}

/-- `mem::take` of the flag. -/
def tryWait (s : State W) : Bool × State W := (s.isSet,{s with isSet := false})

def pollWait [Wake W] (s : State W) (f : ℕ) (c : Wait W) (waiterId : Option WaiterId) (waker : W) :
    Except String (State W) :=
  match waiterId with
  | some id => do
    let r ← s.waiters.waiterMut id
    match r.waiter with
    | .notified => do
      let (_,waiters) ← s.waiters.removeUnlinkedWaiter id
      .ok {s.setWait f {c with stage := .completed} with waiters := waiters}
    | .waiting current => do
      let (_,waiters) ← s.waiters.refresh id r current waker
      .ok {s.setWait f {c with lastWaker := some waker} with waiters := waiters}
  | none =>
    if s.isSet then .ok {s.setWait f {c with stage := .completed} with isSet := false}
    else
      let (id,waiters) := s.waiters.pushBack ⟨.waiting waker,f⟩
      .ok {s.setWait f ⟨.waiting id,some waker⟩ with
        waiters := waiters,registered := s.registered++[f]}

def unregisterWaiter (s : State W) (id : WaiterId) : Except String (State W) := do
  let (r,waiters) ← s.waiters.removeWaiter id
  let s := {s with waiters := waiters}
  match r.waiter with
  | .notified => s.signal
  | .waiting _ => .ok s

/-- An async function that returned is not polled again. -/
def poll [Wake W] (s : State W) (f : ℕ) (c : Wait W) (waker : W) : Option (Except String (State W)) :=
  match c.stage with
  | .unpolled => some (s.pollWait f c none waker)
  | .waiting id => some (s.pollWait f c (some id) waker)
  | _ => none

def drop (s : State W) (f : ℕ) (c : Wait W) : Option (Except String (State W)) :=
  match c.stage with
  | .unpolled => some (.ok (s.setWait f {c with stage := .cancelled}))
  | .waiting id => some ((s.setWait f {c with stage := .cancelled}).unregisterWaiter id)
  | .completed => some (.ok s)
  | .cancelled => none

end State

inductive Action (W : Type)
  | set | reset | isSet | tryWait | wait | poll (f : ℕ) (waker : W) | drop (f : ℕ)

def Action.sets {W : Type} : Action W → ℕ
  | .set => 1
  | _ => 0

def Action.tries {W : Type} : Action W → ℕ
  | .tryWait => 1
  | _ => 0

namespace State

variable {W : Type}

def act [Wake W] (s : State W) : Action W → Option (Except String (State W))
  | .set => some s.set
  | .reset => some (.ok s.reset)
  | .isSet => some (.ok s)
  | .tryWait => some (.ok {s.tryWait.2 with answers := s.answers++[s.tryWait.1]})
  | .wait => some (.ok {s with waits := s.waits++[⟨.unpolled,none⟩]})
  | .poll f waker => s.waits[f]?.bind fun c => s.poll f c waker
  | .drop f => s.waits[f]?.bind fun c => s.drop f c

instance : Transition.Faulty (State W) String :=
  ⟨panicked,fun s message => {s with panicked := some message}⟩

abbrev next [Wake W] (s : State W) (a : Action W) : Option (State W) := Transition.step act s a

/-- The wait was selected and neither polled nor dropped since. -/
def Selected (s : State W) (f : ℕ) : Prop :=
  ∃ c id, s.waits[f]? = some c ∧ c.stage = .waiting id ∧ s.waiters.get? id = some ⟨.notified,f⟩

def selected (s : State W) : ℕ :=
  Table.total (fun c => (c.waiter.bind s.waiters.get?).elim 0 fun r => r.waiter.mark) s.waits

end State

def machine (W : Type) [Wake W] (isSet : Bool) : Transition.Machine (State W) (Action W) where
  init s := s = withState W isSet
  next := State.next

end AutoResetEvent
end Asyncband
