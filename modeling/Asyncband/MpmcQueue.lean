import Asyncband.Transition
import Asyncband.Receiving

/-! The MPMC value queue as a transition system.
One step is one critical section of the queue lock, together with what its caller
does before it next takes the lock; the tables hold every call that was ever made, so
any number of them interleave. Endpoints are counted as in the source. A call borrows
its endpoint, so real programs cannot drop the last one under a pending call; the steps
below do not rely on that. -/
namespace Asyncband
namespace Mpmc

inductive TrySendError
  | full | disconnected
  deriving DecidableEq

/-- What a sending call returned. Errors carry what they hand back; `none` is the unit
of `TrySendError<()>` and `SendError<()>`. -/
inductive Outcome (T : Type)
  | sent
  /-- A permit that was dropped without sending. -/
  | released
  | refused (error : TrySendError) (value : Option T)
  | failed (value : Option T)
  deriving DecidableEq

/-- Where a sending call stands between two critical sections. `payload` is the value a
reservation is made for, `none` for `reserve` and `try_reserve`. -/
inductive SendStage (T : Type)
  | unsent (value : T)
  | reserving (payload : Option T) (waiter : Option WaiterId)
  | permit (payload : Option T)
  /-- `Permit::send` found no receiver and has not dropped the permit yet. -/
  | rejecting (value : T)
  | done (outcome : Outcome T)
  | cancelled
  deriving DecidableEq

structure SendCall (T W : Type) where
  stage : SendStage T
  /-- Ghost: the value that the caller gave away. -/
  given : Option T
  /-- Ghost: the waker of the latest poll that returned pending. -/
  lastWaker : Option W

def SendCall.waiter {T W : Type} (c : SendCall T W) : Option WaiterId :=
  match c.stage with
  | .reserving _ waiter => waiter
  | _ => none

structure State (T W : Type) where
  values : List T
  /-- `none` is an unbounded queue. -/
  available : Option ℕ
  senders : ℕ
  receivers : ℕ
  recvWaiters : Waiters W
  sendWaiters : Waiters W
  sends : List (SendCall T W)
  recvs : List (RecvCall T W)
  /-- Ghost: the calls that joined the send waiters, in that order. -/
  registered : List ℕ
  /-- Ghost: the calls that were granted capacity while they waited, in that order. -/
  granted : List ℕ
  /-- Ghost: the wakers that were handed out to be woken. -/
  woken : List W
  panicked : Option String

def new (T W : Type) (capacity : Option ℕ) : State T W :=
  ⟨[],capacity,1,1,.new,.new,[],[],[],[],[],none⟩

def bounded (T W : Type) (capacity : ℕ) : Except String (State T W) :=
  if 0 < capacity then .ok (new T W (some capacity))
  else .error "mpmc bounded queue requires capacity > 0"

def unbounded (T W : Type) : State T W := new T W none

namespace State

variable {T W : Type}

def setSend (s : State T W) (p : ℕ) (c : SendCall T W) : State T W :=
  {s with sends := s.sends.set p c}

def setRecv (s : State T W) (r : ℕ) (c : RecvCall T W) : State T W :=
  {s with recvs := s.recvs.set r c}

def hasCapacity (s : State T W) : Bool := s.available != some 0

/-- Take one slot out of `available`. -/
def claim (s : State T W) : State T W := {s with available := s.available.map (·-1)}

def acquire (s : State T W) : Except TrySendError (State T W) :=
  if s.receivers = 0 then .error .disconnected
  else if !s.hasCapacity then .error .full
  else .ok s.claim

def release (s : State T W) : Except String (State T W) :=
  if s.receivers = 0 then .ok s
  else
    match s.available with
    | none => .ok s
    | some available => do
      match ← s.sendWaiters.notifyOne with
      | (some (p,waker),waiters) =>
        .ok {s with sendWaiters := waiters,granted := s.granted++[p],woken := s.woken++[waker]}
      | (none,waiters) => .ok {s with sendWaiters := waiters,available := some (available+1)}

def push (s : State T W) (value : T) : Except String (State T W) := do
  let (selected,waiters) ← s.recvWaiters.notifyOne
  .ok {s with values := s.values++[value],recvWaiters := waiters,
              woken := s.woken++selected.toList.map Prod.snd}

def pop (s : State T W) : Except String (Received T × State T W) :=
  match s.values with
  | value::values => do
    let s ← {s with values := values}.release
    .ok (.value value,s)
  | [] => .ok (if s.senders = 0 then .disconnected else .empty,s)

def dropSender (s : State T W) : Except String (State T W) :=
  let s := {s with senders := s.senders-1}
  if s.senders ≠ 0 then .ok s
  else do
    let wakers ← Waiters.drain Waiters.notifyOne (s.recvWaiters.order.length+1) s.recvWaiters
    .ok {s with recvWaiters := .new,woken := s.woken++wakers}

def dropReceiver (s : State T W) : Except String (State T W) :=
  let s := {s with receivers := s.receivers-1}
  if s.receivers ≠ 0 then .ok s
  else do
    let wakers ← Waiters.drain Waiters.takeWaitingWaker (s.sendWaiters.order.length+1) s.sendWaiters
    .ok {s with values := [],sendWaiters := .new,woken := s.woken++wakers}

def trySend (s : State T W) (value : T) : Except String (Outcome T × State T W) :=
  match s.acquire with
  | .ok s => do
    let s ← s.push value
    .ok (.sent,s)
  | .error error => .ok (.refused error (some value),s)

def tryReserve (s : State T W) : State T W :=
  match s.acquire with
  | .ok s => {s with sends := s.sends++[⟨.permit none,none,none⟩]}
  | .error error => {s with sends := s.sends++[⟨.done (.refused error none),none,none⟩]}

/-- The part of `send` before `reserve`. -/
def pollSend (s : State T W) (p : ℕ) (c : SendCall T W) (value : T) : Except String (State T W) := do
  match ← s.trySend value with
  | (.refused .full value,s) => .ok (s.setSend p {c with stage := .reserving value none})
  | (.refused .disconnected value,s) => .ok (s.setSend p {c with stage := .done (.failed value)})
  | (outcome,s) => .ok (s.setSend p {c with stage := .done outcome})

/-- The pending end of `Reserve::poll`. -/
def await [Wake W] (s : State T W) (p : ℕ) (c : SendCall T W) (payload : Option T)
    (waiter : Option WaiterId) (waker : W) : Except String (State T W) := do
  let (id,waiters) ← s.sendWaiters.registerWaiter p waiter waker
  .ok {s.setSend p {c with stage := .reserving payload (some id),lastWaker := some waker} with
    sendWaiters := waiters,
    registered := if waiter.isNone then s.registered++[p] else s.registered}

def pollReserve [Wake W] (s : State T W) (p : ℕ) (c : SendCall T W) (payload : Option T)
    (waiter : Option WaiterId) (waker : W) : Except String (State T W) :=
  if s.receivers = 0 then .ok (s.setSend p {c with stage := .done (.failed payload)})
  else
    match waiter with
    | some id => do
      let r ← s.sendWaiters.waiterMut id
      match r.waiter with
      | .notified => do
        let (_,waiters) ← s.sendWaiters.removeUnlinkedWaiter id
        .ok {s.setSend p {c with stage := .permit payload} with sendWaiters := waiters}
      | .waiting _ => s.await p c payload (some id) waker
    | none =>
      if s.hasCapacity then .ok (s.claim.setSend p {c with stage := .permit payload})
      else s.await p c payload none waker

def dropReserve (s : State T W) (p : ℕ) (c : SendCall T W) (waiter : Option WaiterId) :
    Except String (State T W) :=
  let s := s.setSend p {c with stage := .cancelled}
  match waiter with
  | none => .ok s
  | some id =>
    if s.receivers = 0 then .ok s
    else do
      let (retired,waiters) ← s.sendWaiters.removeWaiter id
      let s := {s with sendWaiters := waiters}
      match retired.waiter with
      | .notified => s.release
      | .waiting _ => .ok s

def permitSend (s : State T W) (p : ℕ) (c : SendCall T W) (value : T) : Except String (State T W) :=
  if s.receivers = 0 then .ok (s.setSend p {c with stage := .rejecting value})
  else (s.setSend p {c with stage := .done .sent}).push value

def dropPermit (s : State T W) (p : ℕ) (c : SendCall T W) (outcome : Outcome T) :
    Except String (State T W) :=
  (s.setSend p {c with stage := .done outcome}).release

/-- The part of `recv` before its `Recv` future. -/
def pollTryRecv (s : State T W) (r : ℕ) (c : RecvCall T W) : Except String (State T W) := do
  match ← s.pop with
  | (.empty,s) => .ok (s.setRecv r {c with stage := .receiving none})
  | (result,s) => .ok (s.setRecv r {c with stage := .done result})

def pollRecv [Wake W] (s : State T W) (r : ℕ) (c : RecvCall T W) (waiter : Option WaiterId)
    (waker : W) : Except String (State T W) := do
  let waiter := if s.senders = 0 then none else waiter
  match ← s.pop with
  | (.empty,s) => do
    let (id,waiters) ← s.recvWaiters.register r waiter waker
    .ok {s.setRecv r ⟨.receiving (some id),some waker⟩ with recvWaiters := waiters}
  | (result,s) => do
    let s := s.setRecv r {c with stage := .done result}
    match waiter with
    | none => .ok s
    | some id => do
      let (_,waiters) ← s.recvWaiters.removeWaiter id
      .ok {s with recvWaiters := waiters}

def dropRecv (s : State T W) (r : ℕ) (c : RecvCall T W) (waiter : Option WaiterId) :
    Except String (State T W) :=
  let s := s.setRecv r {c with stage := .cancelled}
  match waiter with
  | none => .ok s
  | some id =>
    if s.senders = 0 then .ok s
    else do
      let (selected,waiters) ← s.recvWaiters.dropRecv s.values id
      .ok {s with recvWaiters := waiters,woken := s.woken++selected.toList.map Prod.snd}

end State

/-- `advance` runs the next critical section of a call, with the waker of the poll that
reaches it; `drop` destroys a future or a permit. -/
inductive Action (T W : Type)
  | cloneSender | dropSender | cloneReceiver | dropReceiver
  | trySend (value : T) | tryReserve | send (value : T) | reserve
  | sendPermit (p : ℕ) (value : T) | advance (p : ℕ) (waker : W) | drop (p : ℕ)
  | tryRecv | recv | advanceRecv (r : ℕ) (waker : W) | dropRecv (r : ℕ)

namespace State

variable {T W : Type}

/-- A permit is used up by `Permit::send`, which names the value. -/
def sendPermit (s : State T W) (p : ℕ) (c : SendCall T W) (value : T) :
    Option (Except String (State T W)) :=
  match c.stage with
  | .permit none => some (.ok (s.setSend p {c with stage := .permit (some value),given := some value}))
  | _ => none

def advance [Wake W] (s : State T W) (p : ℕ) (c : SendCall T W) (waker : W) :
    Option (Except String (State T W)) :=
  match c.stage with
  | .unsent value => some (s.pollSend p c value)
  | .reserving payload waiter => some (s.pollReserve p c payload waiter waker)
  | .permit (some value) => some (s.permitSend p c value)
  | .rejecting value => some (s.dropPermit p c (.failed (some value)))
  | _ => none

def drop (s : State T W) (p : ℕ) (c : SendCall T W) : Option (Except String (State T W)) :=
  match c.stage with
  | .unsent _ => some (.ok (s.setSend p {c with stage := .cancelled}))
  | .reserving _ waiter => some (s.dropReserve p c waiter)
  | .permit none => some (s.dropPermit p c .released)
  | _ => none

def advanceRecv [Wake W] (s : State T W) (r : ℕ) (c : RecvCall T W) (waker : W) :
    Option (Except String (State T W)) :=
  match c.stage with
  | .unpolled => some (s.pollTryRecv r c)
  | .receiving waiter => some (s.pollRecv r c waiter waker)
  | _ => none

def cancelRecv (s : State T W) (r : ℕ) (c : RecvCall T W) : Option (Except String (State T W)) :=
  match c.stage with
  | .unpolled => some (.ok (s.setRecv r {c with stage := .cancelled}))
  | .receiving waiter => some (s.dropRecv r c waiter)
  | _ => none

/-- `none` when the action is not possible: its endpoint is gone, or its call is not at
that point. -/
def act [Wake W] (s : State T W) : Action T W → Option (Except String (State T W))
  | .cloneSender => if s.senders = 0 then none else some (.ok {s with senders := s.senders+1})
  | .dropSender => if s.senders = 0 then none else some s.dropSender
  | .cloneReceiver => if s.receivers = 0 then none else some (.ok {s with receivers := s.receivers+1})
  | .dropReceiver => if s.receivers = 0 then none else some s.dropReceiver
  | .trySend value =>
    if s.senders = 0 then none
    else some do
      let (outcome,s) ← s.trySend value
      .ok {s with sends := s.sends++[⟨.done outcome,some value,none⟩]}
  | .tryReserve => if s.senders = 0 then none else some (.ok s.tryReserve)
  | .send value =>
    if s.senders = 0 then none
    else some (.ok {s with sends := s.sends++[⟨.unsent value,some value,none⟩]})
  | .reserve =>
    if s.senders = 0 then none
    else some (.ok {s with sends := s.sends++[⟨.reserving none none,none,none⟩]})
  | .sendPermit p value => s.sends[p]?.bind fun c => s.sendPermit p c value
  | .advance p waker => s.sends[p]?.bind fun c => s.advance p c waker
  | .drop p => s.sends[p]?.bind fun c => s.drop p c
  | .tryRecv =>
    if s.receivers = 0 then none
    else some do
      let (result,s) ← s.pop
      .ok {s with recvs := s.recvs++[⟨.done result,none⟩]}
  | .recv => if s.receivers = 0 then none else some (.ok {s with recvs := s.recvs++[⟨.unpolled,none⟩]})
  | .advanceRecv r waker => s.recvs[r]?.bind fun c => s.advanceRecv r c waker
  | .dropRecv r => s.recvs[r]?.bind fun c => s.cancelRecv r c

instance : Transition.Faulty (State T W) String :=
  ⟨panicked,fun s message => {s with panicked := some message}⟩

abbrev next [Wake W] (s : State T W) (a : Action T W) : Option (State T W) :=
  Transition.step act s a

end State

def Created {T W : Type} (capacity : Option ℕ) (s : State T W) : Prop :=
  match capacity with
  | some n => bounded T W n = .ok s
  | none => s = unbounded T W

def machine (T W : Type) [Wake W] (capacity : Option ℕ) :
    Transition.Machine (State T W) (Action T W) where
  init := Created capacity
  next := State.next

end Mpmc
end Asyncband
