import Asyncband.Transition
import Asyncband.Receiving

/-! The SPMC value queue as a transition system.
As in the MPMC queue, one step is one critical section of the queue lock. There is a
single sending endpoint, and `send` borrows it mutably: while a send future is alive
no other sending call starts and the endpoint is not dropped. A notified sender owns no
slot; it looks for room again when it is polled. -/
namespace Asyncband
namespace Spmc

inductive Outcome (T : Type)
  | sent
  | full (value : T)
  | disconnected (value : T)
  | failed (value : T)
  deriving DecidableEq

inductive SendStage (T : Type)
  | unsent (value : T)
  | sending (value : Option T) (waiter : Option WaiterId)
  | done (outcome : Outcome T)
  | cancelled
  deriving DecidableEq

structure SendCall (T W : Type) where
  stage : SendStage T
  /-- Ghost: the value that the caller gave away. -/
  given : T
  /-- Ghost: the waker of the latest poll that returned pending. -/
  lastWaker : Option W

namespace SendCall

variable {T W : Type}

def waiter (c : SendCall T W) : Option WaiterId :=
  match c.stage with
  | .sending _ waiter => waiter
  | _ => none

/-- The future borrows the sending endpoint. -/
def isLive (c : SendCall T W) : Bool :=
  match c.stage with
  | .unsent _ => true
  | .sending _ _ => true
  | _ => false

end SendCall

structure State (T W : Type) where
  values : List T
  capacity : Option ℕ
  senderAlive : Bool
  receivers : ℕ
  recvWaiters : Waiters W
  sendWaiters : Waiters W
  sends : List (SendCall T W)
  recvs : List (RecvCall T W)
  /-- Ghost: the queued values in order, with the calls that sent them. -/
  published : List (ℕ × T)
  /-- Ghost: the received values in order, with the calls that got them. -/
  taken : List (ℕ × T)
  /-- Ghost: the values that went with the last receiver. -/
  discarded : List T
  /-- Ghost: the wakers that were handed out to be woken. -/
  woken : List W
  panicked : Option String

def new (T W : Type) (capacity : Option ℕ) : State T W :=
  ⟨[],capacity,true,1,.new,.new,[],[],[],[],[],[],none⟩

def bounded (T W : Type) (capacity : ℕ) : Except String (State T W) :=
  if 0 < capacity then .ok (new T W (some capacity))
  else .error "spmc bounded queue requires capacity > 0"

def unbounded (T W : Type) : State T W := new T W none

namespace State

variable {T W : Type}

def setSend (s : State T W) (p : ℕ) (c : SendCall T W) : State T W :=
  {s with sends := s.sends.set p c}

def setRecv (s : State T W) (r : ℕ) (c : RecvCall T W) : State T W :=
  {s with recvs := s.recvs.set r c}

def hasCapacity (s : State T W) : Bool :=
  match s.capacity with
  | none => true
  | some capacity => s.values.length < capacity

def push (s : State T W) (p : ℕ) (value : T) : Except String (State T W) := do
  let (selected,waiters) ← s.recvWaiters.notifyOne
  .ok {s with values := s.values++[value],recvWaiters := waiters,
              published := s.published++[(p,value)],
              woken := s.woken++selected.toList.map Prod.snd}

def pop (s : State T W) (r : ℕ) : Except String (Received T × State T W) :=
  match s.values with
  | value::values => do
    let (selected,waiters) ← s.sendWaiters.notifyOne
    .ok (.value value,{s with values := values,sendWaiters := waiters,
                              taken := s.taken++[(r,value)],
                              woken := s.woken++selected.toList.map Prod.snd})
  | [] => .ok (if s.senderAlive then .empty else .disconnected,s)

def dropSender (s : State T W) : Except String (State T W) := do
  let wakers ← Waiters.drain Waiters.notifyOne (s.recvWaiters.order.length+1) s.recvWaiters
  .ok {s with senderAlive := false,recvWaiters := .new,woken := s.woken++wakers}

def dropReceiver (s : State T W) : Except String (State T W) :=
  let s := {s with receivers := s.receivers-1}
  if s.receivers ≠ 0 then .ok s
  else do
    let wakers ← Waiters.drain Waiters.notifyOne (s.sendWaiters.order.length+1) s.sendWaiters
    .ok {s with values := [],discarded := s.discarded++s.values,sendWaiters := .new,
                woken := s.woken++wakers}

def trySend (s : State T W) (p : ℕ) (value : T) : Except String (Outcome T × State T W) :=
  if s.receivers = 0 then .ok (.disconnected value,s)
  else if !s.hasCapacity then .ok (.full value,s)
  else do
    let s ← s.push p value
    .ok (.sent,s)

/-- The part of `send` before its `Send` future. -/
def pollTrySend (s : State T W) (p : ℕ) (c : SendCall T W) (value : T) :
    Except String (State T W) := do
  match ← s.trySend p value with
  | (.full value,s) => .ok (s.setSend p {c with stage := .sending (some value) none})
  | (.disconnected value,s) => .ok (s.setSend p {c with stage := .done (.failed value)})
  | (outcome,s) => .ok (s.setSend p {c with stage := .done outcome})

def takeValue (value : Option T) : Except String T :=
  match value with
  | some value => .ok value
  | none => .error "pending send must own its value"

def pollSend [Wake W] (s : State T W) (p : ℕ) (c : SendCall T W) (value : Option T)
    (waiter : Option WaiterId) (waker : W) : Except String (State T W) :=
  if s.receivers = 0 then do
    let value ← takeValue value
    .ok (s.setSend p {c with stage := .done (.failed value)})
  else if s.hasCapacity then do
    let value ← takeValue value
    let s ← s.push p value
    let s := s.setSend p {c with stage := .done .sent}
    match waiter with
    | none => .ok s
    | some id => do
      let (_,waiters) ← s.sendWaiters.removeWaiter id
      .ok {s with sendWaiters := waiters}
  else do
    let (id,waiters) ← s.sendWaiters.register p waiter waker
    .ok {s.setSend p {c with stage := .sending value (some id),lastWaker := some waker} with
      sendWaiters := waiters}

def dropSend (s : State T W) (p : ℕ) (c : SendCall T W) (waiter : Option WaiterId) :
    Except String (State T W) :=
  let s := s.setSend p {c with stage := .cancelled}
  match waiter with
  | none => .ok s
  | some id =>
    if s.receivers = 0 then .ok s
    else do
      let (_,waiters) ← s.sendWaiters.removeWaiter id
      .ok {s with sendWaiters := waiters}

def pollTryRecv (s : State T W) (r : ℕ) (c : RecvCall T W) : Except String (State T W) := do
  match ← s.pop r with
  | (.empty,s) => .ok (s.setRecv r {c with stage := .receiving none})
  | (result,s) => .ok (s.setRecv r {c with stage := .done result})

def pollRecv [Wake W] (s : State T W) (r : ℕ) (c : RecvCall T W) (waiter : Option WaiterId)
    (waker : W) : Except String (State T W) := do
  let waiter := if s.senderAlive then waiter else none
  match ← s.pop r with
  | (.empty,s) => do
    let (id,waiters) ← s.recvWaiters.register r waiter waker
    .ok {s.setRecv r ⟨.receiving (some id),some waker⟩ with recvWaiters := waiters}
  | (result,s) => do
    let s := s.setRecv r {c with stage := .done result}
    match waiter with
    | none => .ok s
    | some id => do
      let (_,waiters) ← s.recvWaiters.removeWaiter id
      .ok {s with recvWaiters := waiters}

def dropRecv (s : State T W) (r : ℕ) (c : RecvCall T W) (waiter : Option WaiterId) :
    Except String (State T W) :=
  let s := s.setRecv r {c with stage := .cancelled}
  match waiter with
  | none => .ok s
  | some id =>
    if s.senderAlive then do
      let (selected,waiters) ← s.recvWaiters.dropRecv s.values id
      .ok {s with recvWaiters := waiters,woken := s.woken++selected.toList.map Prod.snd}
    else .ok s

/-- The sending endpoint is there and nobody borrows it. -/
def senderFree (s : State T W) : Bool := s.senderAlive && !s.sends.any SendCall.isLive

end State

/-- `advance` runs the next critical section of a call, with the waker of the poll that
reaches it; `drop` destroys a future. -/
inductive Action (T W : Type)
  | cloneReceiver | dropReceiver | dropSender
  | trySend (value : T) | send (value : T) | advance (p : ℕ) (waker : W) | drop (p : ℕ)
  | tryRecv | recv | advanceRecv (r : ℕ) (waker : W) | dropRecv (r : ℕ)

namespace State

variable {T W : Type}

def advance [Wake W] (s : State T W) (p : ℕ) (c : SendCall T W) (waker : W) :
    Option (Except String (State T W)) :=
  match c.stage with
  | .unsent value => some (s.pollTrySend p c value)
  | .sending value waiter => some (s.pollSend p c value waiter waker)
  | _ => none

def drop (s : State T W) (p : ℕ) (c : SendCall T W) : Option (Except String (State T W)) :=
  match c.stage with
  | .unsent _ => some (.ok (s.setSend p {c with stage := .cancelled}))
  | .sending _ waiter => some (s.dropSend p c waiter)
  | _ => none

def advanceRecv [Wake W] (s : State T W) (r : ℕ) (c : RecvCall T W) (waker : W) :
    Option (Except String (State T W)) :=
  match c.stage with
  | .unpolled => some (s.pollTryRecv r c)
  | .receiving waiter => some (s.pollRecv r c waiter waker)
  | _ => none

def cancelRecv (s : State T W) (r : ℕ) (c : RecvCall T W) : Option (Except String (State T W)) :=
  match c.stage with
  | .unpolled => some (.ok (s.setRecv r {c with stage := .cancelled}))
  | .receiving waiter => some (s.dropRecv r c waiter)
  | _ => none

/-- `none` when the action is not possible: its endpoint is gone or borrowed, or its call
is not at that point. -/
def act [Wake W] (s : State T W) : Action T W → Option (Except String (State T W))
  | .cloneReceiver => if s.receivers = 0 then none else some (.ok {s with receivers := s.receivers+1})
  | .dropReceiver => if s.receivers = 0 then none else some s.dropReceiver
  | .dropSender => if s.senderFree then some s.dropSender else none
  | .trySend value =>
    if s.senderFree then
      some do
        let (outcome,s) ← s.trySend s.sends.length value
        .ok {s with sends := s.sends++[⟨.done outcome,value,none⟩]}
    else none
  | .send value =>
    if s.senderFree then some (.ok {s with sends := s.sends++[⟨.unsent value,value,none⟩]})
    else none
  | .advance p waker => s.sends[p]?.bind fun c => s.advance p c waker
  | .drop p => s.sends[p]?.bind fun c => s.drop p c
  | .tryRecv =>
    if s.receivers = 0 then none
    else some do
      let (result,s) ← s.pop s.recvs.length
      .ok {s with recvs := s.recvs++[⟨.done result,none⟩]}
  | .recv => if s.receivers = 0 then none else some (.ok {s with recvs := s.recvs++[⟨.unpolled,none⟩]})
  | .advanceRecv r waker => s.recvs[r]?.bind fun c => s.advanceRecv r c waker
  | .dropRecv r => s.recvs[r]?.bind fun c => s.cancelRecv r c

instance : Transition.Faulty (State T W) String :=
  ⟨panicked,fun s message => {s with panicked := some message}⟩

abbrev next [Wake W] (s : State T W) (a : Action T W) : Option (State T W) :=
  Transition.step act s a

end State

def Created {T W : Type} (capacity : Option ℕ) (s : State T W) : Prop :=
  match capacity with
  | some n => bounded T W n = .ok s
  | none => s = unbounded T W

def machine (T W : Type) [Wake W] (capacity : Option ℕ) :
    Transition.Machine (State T W) (Action T W) where
  init := Created capacity
  next := State.next

end Spmc
end Asyncband
