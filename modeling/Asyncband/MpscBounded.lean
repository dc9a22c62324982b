import Asyncband.MpmcQueue
import Asyncband.MpscInbox

/-! The bounded MPSC channel as a transition system.
One step is one critical section of the channel lock, together with what its caller does
before it next takes the lock. A sending call borrows its endpoint, so an endpoint is
dropped only when no future or permit of it is left; `recv` borrows the receiver in the
same way. The stages of a sending call are those of the MPMC queue. -/
namespace Asyncband
namespace Mpsc
namespace Bounded

open Mpmc (TrySendError Outcome SendStage)

structure Waiter (W : Type) where
  grant : Bool
  waker : Option W
  /-- Ghost: the call that registered the waiter. -/
  owner : ℕ

structure SendCall (T W : Type) where
  sender : ℕ
  stage : SendStage T
  /-- Ghost: the waker of the latest poll that returned pending. -/
  lastWaker : Option W

namespace SendCall

variable {T W : Type}

def waiter (c : SendCall T W) : Option WaiterId :=
  match c.stage with
  | .reserving _ waiter => waiter
  | _ => none

def permits (c : SendCall T W) : ℕ :=
  match c.stage with
  | .permit _ => 1
  | .rejecting _ => 1
  | _ => 0

def isLive (c : SendCall T W) : Bool :=
  match c.stage with
  | .done _ => false
  | .cancelled => false
  | _ => true

end SendCall

structure State (T W : Type) extends Inbox T W where
  queue : List T
  available : ℕ
  sendWaiters : WaitList (Waiter W)
  sends : List (SendCall T W)
  /-- Ghost: the calls that joined the send waiters, in that order. -/
  registered : List ℕ
  /-- Ghost: the calls that were granted capacity while they waited, in that order. -/
  granted : List ℕ
  panicked : Option String

def new (T W : Type) (buffer : ℕ) : State T W :=
  ⟨Inbox.new T W,[],buffer,.new,[],[],[],none⟩

def bounded (T W : Type) (buffer : ℕ) : Except String (State T W) :=
  if 0 < buffer then .ok (new T W buffer)
  else .error s!"mpsc bounded channel capacity {buffer} must be nonzero"

/-- The detached node owns capacity until its future claims or cancels the grant. -/
def Waiter.take {W : Type} (r : Waiter W) : Except String ((ℕ × Option W) × Waiter W) :=
  .ok ((r.owner,r.waker),{r with grant := true,waker := none})

/-- `waker.take()` on a waiter of a channel that was closed. -/
def Waiter.takeWaker {W : Type} (r : Waiter W) : Except String (Option W × Waiter W) :=
  .ok (r.waker,{r with waker := none})

namespace State

variable {T W : Type}

def setSend (s : State T W) (p : ℕ) (c : SendCall T W) : State T W :=
  {s with sends := s.sends.set p c}

def acquire (s : State T W) : Except TrySendError (State T W) :=
  if !s.receiver then .error .disconnected
  else if s.available = 0 then .error .full
  else .ok {s with available := s.available-1}

def release (s : State T W) : Except String (State T W) :=
  if !s.receiver then .ok s
  else do
    match ← s.sendWaiters.selectFirst (fun r => r) Waiter.take with
    | (some (p,waker),waiters) =>
      .ok {s with sendWaiters := waiters,granted := s.granted++[p],woken := s.woken++waker.toList}
    | (none,waiters) => .ok {s with sendWaiters := waiters,available := s.available+1}

def pop (s : State T W) : Except String (Received T × State T W) :=
  match s.queue with
  | value::queue => do
    let s ← {s with queue := queue}.release
    .ok (.value value,s)
  | [] => .ok (if s.senders = 0 then .disconnected else .empty,s)

/-- `queue.push_back(value)`, then `recv_waker.take()` for the wake behind the lock. -/
def push (s : State T W) (value : T) : State T W :=
  {s with toInbox := s.toInbox.publish value,queue := s.queue++[value]}

def trySend (s : State T W) (value : T) : Outcome T × State T W :=
  match s.acquire with
  | .ok s => (.sent,s.push value)
  | .error error => (.refused error (some value),s)

def tryReserve (s : State T W) (h : ℕ) : State T W :=
  match s.acquire with
  | .ok s => {s with sends := s.sends++[⟨h,.permit none,none⟩]}
  | .error error => {s with sends := s.sends++[⟨h,.done (.refused error none),none⟩]}

/-- The part of `send` before `reserve`. -/
def pollSend (s : State T W) (p : ℕ) (c : SendCall T W) (value : T) : State T W :=
  match s.trySend value with
  | (.refused .full value,s) => s.setSend p {c with stage := .reserving value none}
  | (.refused .disconnected value,s) => s.setSend p {c with stage := .done (.failed value)}
  | (outcome,s) => s.setSend p {c with stage := .done outcome}

def pollReserve [Wake W] (s : State T W) (p : ℕ) (c : SendCall T W) (payload : Option T)
    (waiter : Option WaiterId) (waker : W) : Except String (State T W) :=
  if !s.receiver then .ok (s.setSend p {c with stage := .done (.failed payload)})
  else
    match waiter with
    | some index => do
      let r ← s.sendWaiters.waiterMut index
      if r.grant then do
        let (_,waiters) ← s.sendWaiters.removeUnlinkedWaiter index
        .ok {s.setSend p {c with stage := .permit payload} with sendWaiters := waiters}
      else do
        let waiters ← s.sendWaiters.setWaiter index {r with waker := registerWaker r.waker waker}
        .ok {s.setSend p {c with lastWaker := some waker} with sendWaiters := waiters}
    | none =>
      if s.available ≠ 0 then
        .ok {s.setSend p {c with stage := .permit payload} with available := s.available-1}
      else
        let (index,waiters) := s.sendWaiters.pushBack ⟨false,some waker,p⟩
        .ok {s.setSend p {c with stage := .reserving payload (some index),lastWaker := some waker} with
          sendWaiters := waiters,registered := s.registered++[p]}

def dropReserve (s : State T W) (p : ℕ) (c : SendCall T W) (waiter : Option WaiterId) :
    Except String (State T W) :=
  let s := s.setSend p {c with stage := .cancelled}
  match waiter with
  | none => .ok s
  | some index =>
    if !s.receiver then .ok s
    else do
      let (r,waiters) ← s.sendWaiters.removeWaiter index
      let s := {s with sendWaiters := waiters}
      if r.grant then s.release else .ok s

def permitSend (s : State T W) (p : ℕ) (c : SendCall T W) (value : T) : State T W :=
  if !s.receiver then s.setSend p {c with stage := .rejecting value}
  else (s.setSend p {c with stage := .done .sent}).push value

def dropPermit (s : State T W) (p : ℕ) (c : SendCall T W) (outcome : Outcome T) :
    Except String (State T W) :=
  (s.setSend p {c with stage := .done outcome}).release

def tryRecv (s : State T W) : Except String (State T W) := do
  let (result,s) ← s.pop
  .ok {s with toInbox := s.toInbox.answer result}

def pollRecv [Wake W] (s : State T W) (waker : W) : Except String (State T W) := do
  match ← s.pop with
  | (.empty,s) => .ok {s with toInbox := s.toInbox.pending waker}
  | (.disconnected,s) => .ok {s with toInbox := {s.toInbox.ready .disconnected with recvWaker := none}}
  | (.value value,s) => .ok {s with toInbox := s.toInbox.ready (.value value)}

/-- The receiver takes the queue and the waiters with it and wakes the linked ones. -/
def dropReceiver (s : State T W) : Except String (State T W) := do
  let (wakers,_) ← WaitList.selectAll (fun r => r) Waiter.takeWaker s.sendWaiters.order.length
    s.sendWaiters
  .ok {s with toInbox := {s.toInbox.dropReceiver with woken := s.woken++wakers.reduceOption},
              queue := [],sendWaiters := .new}

end State

/-- `advance` runs the next critical section of a sending call, with the waker of the poll
that reaches it; `drop` destroys a future or a permit. `h` is a sending endpoint. -/
inductive Action (T W : Type)
  | cloneSender (h : ℕ) | dropSender (h : ℕ) | dropReceiver
  | trySend (h : ℕ) (value : T) | tryReserve (h : ℕ) | send (h : ℕ) (value : T) | reserve (h : ℕ)
  | sendPermit (p : ℕ) (value : T) | advance (p : ℕ) (waker : W) | drop (p : ℕ)
  | tryRecv | recv | pollRecv (waker : W) | dropRecv

def Action.polled {T W : Type} : Action T W → Option W
  | .pollRecv waker => some waker
  | _ => none

namespace State

variable {T W : Type}

/-- A permit is used up by `Permit::send`, which names the value. -/
def sendPermit (s : State T W) (p : ℕ) (c : SendCall T W) (value : T) :
    Option (Except String (State T W)) :=
  match c.stage with
  | .permit none => some (.ok (s.setSend p {c with stage := .permit (some value)}))
  | _ => none

def advance [Wake W] (s : State T W) (p : ℕ) (c : SendCall T W) (waker : W) :
    Option (Except String (State T W)) :=
  match c.stage with
  | .unsent value => some (.ok (s.pollSend p c value))
  | .reserving payload waiter => some (s.pollReserve p c payload waiter waker)
  | .permit (some value) => some (.ok (s.permitSend p c value))
  | .rejecting value => some (s.dropPermit p c (.failed (some value)))
  | _ => none

def drop (s : State T W) (p : ℕ) (c : SendCall T W) : Option (Except String (State T W)) :=
  match c.stage with
  | .unsent _ => some (.ok (s.setSend p {c with stage := .cancelled}))
  | .reserving _ waiter => some (s.dropReserve p c waiter)
  | .permit none => some (s.dropPermit p c .released)
  | _ => none

def unborrowed (s : State T W) (h : ℕ) : Bool := s.sends.all fun c => !(c.sender == h && c.isLive)

def idle (s : State T W) : Bool := s.receiver && s.recv.isNone

/-- `none` when the action is not possible: its endpoint is gone or borrowed, or its call
is not at that point. -/
def act [Wake W] (s : State T W) : Action T W → Option (Except String (State T W))
  | .cloneSender h => if s.holds h then some (.ok {s with toInbox := s.toInbox.cloneSender}) else none
  | .dropSender h =>
    if s.holds h && s.unborrowed h then some (.ok {s with toInbox := s.toInbox.dropSender h}) else none
  | .dropReceiver => if s.idle then some s.dropReceiver else none
  | .trySend h value =>
    if s.holds h then
      let (outcome,s) := s.trySend value
      some (.ok {s with sends := s.sends++[⟨h,.done outcome,none⟩]})
    else none
  | .tryReserve h => if s.holds h then some (.ok (s.tryReserve h)) else none
  | .send h value =>
    if s.holds h then some (.ok {s with sends := s.sends++[⟨h,.unsent value,none⟩]}) else none
  | .reserve h =>
    if s.holds h then some (.ok {s with sends := s.sends++[⟨h,.reserving none none,none⟩]}) else none
  | .sendPermit p value => s.sends[p]?.bind fun c => s.sendPermit p c value
  | .advance p waker => s.sends[p]?.bind fun c => s.advance p c waker
  | .drop p => s.sends[p]?.bind fun c => s.drop p c
  | .tryRecv => if s.idle then some s.tryRecv else none
  | .recv => if s.idle then some (.ok {s with recv := some none}) else none
  | .pollRecv waker => if s.recv.isSome then some (s.pollRecv waker) else none
  | .dropRecv => if s.recv.isSome then some (.ok {s with recv := none}) else none

instance : Transition.Faulty (State T W) String :=
  ⟨panicked,fun s message => {s with panicked := some message}⟩

abbrev next [Wake W] (s : State T W) (a : Action T W) : Option (State T W) :=
  Transition.step act s a

def waiting (s : State T W) : List ℕ := s.sendWaiters.queue.map Waiter.owner

def permits (s : State T W) : ℕ := Table.total SendCall.permits s.sends

def grants (s : State T W) : ℕ := s.sendWaiters.total fun r => r.grant.toNat

end State

def machine (T W : Type) [Wake W] (buffer : ℕ) : Transition.Machine (State T W) (Action T W) where
  init s := bounded T W buffer = .ok s
  next := State.next

end Bounded
end Mpsc
end Asyncband
