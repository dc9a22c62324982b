import Asyncband.BacklogRefinement
import Asyncband.WakerSet

/-! The part of a broadcast channel that the bounded and the unbounded one have in common.
Next to the locked backlog and waker set there is the number of senders, an atomic that is
read under the lock but changed outside of it. Sender handles, receivers, `recv` futures and
`send` calls are rows of tables. A `recv` future borrows its receiver mutably, a pending
`send` borrows its handle. -/
namespace Asyncband

def Backlog.unread {T : Type} (b : Backlog T) (key : SlotId) : Except String ℕ :=
  match b.cursor key with
  | none => .error "active broadcast receiver must be registered"
  | some head => .ok (b.tail-head)

namespace Broadcast


structure Inner (T W : Type) where
  log : Backlog T
  waiters : WakerSet W

inductive TryRecvError
  | empty
  | disconnected
  deriving DecidableEq

section Common

variable {T W : Type}

/-- The wakers to wake, and the set that stays behind. -/
def disconnect (inner : Inner T W) : List W × Inner T W :=
  (inner.waiters.wakeAll,{inner with waiters := .new})

def unregister (inner : Inner T W) (senders : ℕ) (key : SlotId) (token : Option SlotId) :
    Except String (Inner T W) := do
  let unread ← inner.log.unread key
  if unread ≠ 0 ∨ senders = 0 then .ok inner
  else
    let waiters ← inner.waiters.unregister token
    .ok {inner with waiters := waiters}

def tryReceive (inner : Inner T W) (senders : ℕ) (key : SlotId) :
    Except String (Except TryRecvError (Backlog.Received T) × Inner T W) := do
  match ← inner.log.receive key with
  | (some received,log) => .ok (.ok received,{inner with log := log})
  | (none,log) =>
    .ok (.error (if senders = 0 then .disconnected else .empty),{inner with log := log})

inductive Polled (T : Type)
  | pending (token : SlotId)
  | received (r : Backlog.Received T)
  | disconnected

def pollReceive [Wake W] (inner : Inner T W) (senders : ℕ) (key : SlotId) (token : Option SlotId)
    (waker : W) : Except String (Polled T × Inner T W) := do
  match ← inner.log.receive key with
  | (some received,log) => .ok (.received received,{inner with log := log})
  | (none,log) =>
    if senders = 0 then .ok (.disconnected,{inner with log := log})
    else
      let (id,waiters) ← inner.waiters.register token waker
      .ok (.pending id,⟨log,waiters⟩)

end Common

inductive SenderStage
  | live
  /-- The drop found that it was the last one and has not called `disconnect` yet. -/
  | disconnecting
  | gone
  deriving DecidableEq

def SenderStage.weight : SenderStage → ℕ
  | .live => 1
  | _ => 0

structure Receiver (T : Type) where
  key : SlotId
  live : Bool
  /-- Ghost: how many values had been published at the subscription. -/
  since : ℕ
  received : List T
  /-- Ghost: a call returned `Disconnected`. -/
  ended : Bool

inductive RecvStage (T : Type)
  | live (token : Option SlotId)
  | received (msg : T)
  | disconnected
  | cancelled

structure Recv (T W : Type) where
  receiver : ℕ
  stage : RecvStage T
  /-- Ghost: the waker of the latest poll, which returned pending. -/
  lastWaker : Option W
  /-- Ghost: how many wakers had been taken to be woken at that poll. -/
  mark : ℕ

inductive SendStage (T : Type)
  | waiting (party : ℕ)
  | completed
  | full (value : T)
  | cancelled
  | panicked

structure Send (T : Type) where
  handle : ℕ
  value : T
  stage : SendStage T

section Rows

variable {T W : Type}

def Recv.token (c : Recv T W) : Option SlotId :=
  match c.stage with
  | .live token => token
  | _ => none

def Recv.isLive (c : Recv T W) : Bool :=
  match c.stage with
  | .live _ => true
  | _ => false

def Send.party (c : Send T) : Option ℕ :=
  match c.stage with
  | .waiting party => some party
  | _ => none

end Rows

structure Channel (T W : Type) where
  inner : Inner T W
  senders : ℕ
  handles : List SenderStage
  receivers : List (Receiver T)
  recvs : List (Recv T W)
  sends : List (Send T)
  /-- Ghost: what was published, with the call. -/
  published : List (ℕ × T)
  /-- Ghost: the wakers that were taken to be woken. -/
  woken : List W

/-- Capacity that a receiver gives back, for the bounded channel to hand on. -/
structure Freed where
  len : ℕ
  drainedLast : Bool

def Freed.nothing : Freed := ⟨0,false⟩

def withFirstSubscription {T : Type} (W : Type) (log : Backlog T) : Channel T W :=
  ⟨⟨log.subscribe.2,.new⟩,1,[.live],[⟨log.subscribe.1,true,0,[],false⟩],[],[],[],[]⟩

namespace Channel

variable {T W : Type}

def setReceiver (s : Channel T W) (r : ℕ) (x : Receiver T) : Channel T W :=
  {s with receivers := s.receivers.set r x}

def setRecv (s : Channel T W) (f : ℕ) (c : Recv T W) : Channel T W :=
  {s with recvs := s.recvs.set f c}

def setSend (s : Channel T W) (i : ℕ) (c : Send T) : Channel T W :=
  {s with sends := s.sends.set i c}

def addSend (s : Channel T W) (c : Send T) : Channel T W := {s with sends := s.sends++[c]}

/-- The rest of a critical section that published `value` for call `i`. -/
def commit (s : Channel T W) (i : ℕ) (value : T) (log : Backlog T) : Channel T W :=
  {s with inner := ⟨log,s.inner.waiters.takeAll.2⟩,published := s.published++[(i,value)],
          woken := s.woken++s.inner.waiters.takeAll.1}

def isFree (s : Channel T W) (r : ℕ) : Bool := s.recvs.all fun c => !(c.isLive && c.receiver == r)

def idle (s : Channel T W) (r : ℕ) : Option (Receiver T) :=
  s.receivers[r]?.filter fun x => x.live && s.isFree r

def isLive (s : Channel T W) (h : ℕ) : Bool := s.handles[h]? == some .live

def unborrowed (s : Channel T W) (h : ℕ) : Bool :=
  s.sends.all fun c => !(c.party.isSome && c.handle == h)

def clone (s : Channel T W) : Channel T W :=
  {s with senders := s.senders+1,handles := s.handles++[.live]}

/-- `Drop` of a sender, up to the decrement. -/
def dropSender (s : Channel T W) (h : ℕ) : Channel T W :=
  {s with senders := s.senders-1,
          handles := s.handles.set h (if s.senders = 1 then .disconnecting else .gone)}

/-- The rest of the drop of the last sender. -/
def finishDrop (s : Channel T W) (h : ℕ) : Channel T W :=
  {s with inner := (disconnect s.inner).2,handles := s.handles.set h .gone,
          woken := s.woken++(disconnect s.inner).1}

/-- `subscribe` and `resubscribe`. -/
def subscribe (s : Channel T W) : Channel T W :=
  {s with inner := {s.inner with log := s.inner.log.subscribe.2},
          receivers := s.receivers++[⟨s.inner.log.subscribe.1,true,s.published.length,[],false⟩]}

/-- `try_recv`, and `try_recv_cloned`, which returns the same value. -/
def tryRecv (s : Channel T W) (r : ℕ) (x : Receiver T) : Except String (Freed × Channel T W) := do
  match ← tryReceive s.inner s.senders x.key with
  | (.ok received,inner) =>
    .ok (⟨received.reclaimed.toNat,false⟩,
      {s with inner := inner}.setReceiver r {x with received := x.received++[received.msg]})
  | (.error .empty,inner) => .ok (.nothing,{s with inner := inner})
  | (.error .disconnected,inner) =>
    .ok (.nothing,{s with inner := inner}.setReceiver r {x with ended := true})

/-- `Recv::poll`, for `recv` and `recv_cloned`. -/
def pollRecv [Wake W] (s : Channel T W) (f : ℕ) (c : Recv T W) (x : Receiver T) (waker : W) :
    Except String (Freed × Channel T W) := do
  match ← pollReceive s.inner s.senders x.key c.token waker with
  | (.pending id,inner) =>
    .ok (.nothing,{s with inner := inner}.setRecv f
      ⟨c.receiver,.live (some id),some waker,s.woken.length⟩)
  | (.received received,inner) =>
    .ok (⟨received.reclaimed.toNat,false⟩,
      ({s with inner := inner}.setReceiver c.receiver
        {x with received := x.received++[received.msg]}).setRecv f
          {c with stage := .received received.msg})
  | (.disconnected,inner) =>
    .ok (.nothing,({s with inner := inner}.setReceiver c.receiver {x with ended := true}).setRecv f
      {c with stage := .disconnected})

def dropRecv (s : Channel T W) (f : ℕ) (c : Recv T W) (x : Receiver T) :
    Except String (Freed × Channel T W) :=
  let t := s.setRecv f {c with stage := .cancelled}
  if c.token.isNone then .ok (.nothing,t)
  else do
    let inner ← unregister s.inner s.senders x.key c.token
    .ok (.nothing,{t with inner := inner})

def dropReceiver (s : Channel T W) (r : ℕ) (x : Receiver T) : Except String (Freed × Channel T W) := do
  let (reclaimed,log) ← s.inner.log.removeReceiver x.key
  .ok (⟨reclaimed.len,!log.hasReceivers⟩,
    {s with inner := {s.inner with log := log}}.setReceiver r {x with live := false})

end Channel

inductive Common (W : Type)
  | clone (h : ℕ)
  | dropSender (h : ℕ)
  | finishDrop (h : ℕ)
  | subscribe (h : ℕ)
  | resubscribe (r : ℕ)
  | tryRecv (r : ℕ)
  | recv (r : ℕ)
  | pollRecv (f : ℕ) (waker : W)
  | cancelRecv (f : ℕ)
  | dropReceiver (r : ℕ)

namespace Channel

variable {T W : Type}

def liveRecv (s : Channel T W) (f : ℕ) : Option (Recv T W × Receiver T) :=
  (s.recvs[f]?.filter Recv.isLive).bind fun c => s.receivers[c.receiver]?.map fun x => (c,x)

def act [Wake W] (s : Channel T W) : Common W → Option (Except String (Freed × Channel T W))
  | .clone h => if s.isLive h then some (.ok (.nothing,s.clone)) else none
  | .dropSender h =>
    if s.isLive h && s.unborrowed h then some (.ok (.nothing,s.dropSender h)) else none
  | .finishDrop h =>
    if s.handles[h]? = some .disconnecting then some (.ok (.nothing,s.finishDrop h)) else none
  | .subscribe h => if s.isLive h then some (.ok (.nothing,s.subscribe)) else none
  | .resubscribe r => (s.idle r).map fun _ => .ok (.nothing,s.subscribe)
  | .tryRecv r => (s.idle r).map fun x => s.tryRecv r x
  | .recv r => (s.idle r).map fun _ => .ok (.nothing,{s with recvs := s.recvs++[⟨r,.live none,none,0⟩]})
  | .pollRecv f waker => (s.liveRecv f).map fun cx => s.pollRecv f cx.1 cx.2 waker
  | .cancelRecv f => (s.liveRecv f).map fun cx => s.dropRecv f cx.1 cx.2
  | .dropReceiver r => (s.idle r).map fun x => s.dropReceiver r x

end Channel

end Broadcast
end Asyncband
