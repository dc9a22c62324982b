import Asyncband.MpscInbox
import Asyncband.Transition

/-! The unbounded MPSC channel as a transition system.
Values are stored in segments whose capacity depends on the size of a value; the receiver
moves one segment at a time into a batch of its own. One step is one critical section of
the channel lock, together with what the receiver does with its batch. Retired allocations
are not modelled. `is_empty` borrows the receiver and reads the batch and the shared buffer
one after the other; any number of such calls may be between the two reads. -/
namespace Asyncband
namespace Mpsc
namespace Unbounded

def usizeBits : ℕ := 64

def segmentBytes : ℕ := 32*1024

def leadingZeros (n : ℕ) : ℕ := usizeBits-n.size

def segmentCapacity (size : ℕ) : ℕ :=
  if size = 0 then 2^usizeBits-1
  else if size > segmentBytes then 1
  else 1 <<< (usizeBits-1-leadingZeros (segmentBytes/size))

structure Buffer (T : Type) where
  writable : List T
  sealed : List (List T)

namespace Buffer

variable {T : Type}

def new : Buffer T := ⟨[],[]⟩

def isEmpty (b : Buffer T) : Bool := b.writable.isEmpty && b.sealed.isEmpty

def push (size : ℕ) (b : Buffer T) (value : T) : Buffer T :=
  if b.writable.length = segmentCapacity size then ⟨[value],b.sealed++[b.writable]⟩
  else {b with writable := b.writable++[value]}

/-- The new batch and the buffer that it was taken from. -/
def refill (b : Buffer T) (batch : List T) : Except String (List T × Buffer T) :=
  if !batch.isEmpty then .error "assertion failed: batch.is_empty()"
  else
    match b.sealed with
    | segment::rest => .ok (segment,{b with sealed := rest})
    | [] =>
      if !b.writable.isEmpty then .ok (b.writable,{b with writable := batch})
      else .ok (batch,b)

end Buffer

def popBatch {T : Type} (size : ℕ) (batch : List T) : Except String (T × List T) :=
  if size > segmentBytes then
    if batch.length ≠ 1 then .error "assertion `left == right` failed"
    else
      match batch with
      | value::_ => .ok (value,[])
      | [] => .error "receiver batch must not be empty"
  else
    match batch with
    | value::batch => .ok (value,batch)
    | [] => .error "receiver batch must not be empty"

structure State (T W : Type) extends Inbox T W where
  buffer : Buffer T
  batch : List T
  /-- The `is_empty` calls that found the batch empty and have not read the buffer yet. -/
  checks : ℕ
  emptiness : List Bool
  /-- Ghost: the values that failed sends returned. -/
  rejected : List T
  panicked : Option String

def unbounded (T W : Type) : State T W := ⟨Inbox.new T W,.new,[],0,[],[],none⟩

namespace State

variable {T W : Type}

def send (size : ℕ) (s : State T W) (value : T) : State T W :=
  if !s.receiver then {s with rejected := s.rejected++[value]}
  else {s with toInbox := s.toInbox.publish value,buffer := s.buffer.push size value}

def refill (s : State T W) : Except String (State T W) :=
  if s.batch.isEmpty then do
    let (batch,buffer) ← s.buffer.refill s.batch
    .ok {s with batch := batch,buffer := buffer}
  else .ok s

def tryRecv (size : ℕ) (s : State T W) : Except String (State T W) := do
  let s ← s.refill
  if s.batch.isEmpty then
    .ok {s with toInbox := s.toInbox.answer (if s.senders = 0 then .disconnected else .empty)}
  else do
    let (value,batch) ← popBatch size s.batch
    .ok {s with toInbox := s.toInbox.answer (.value value),batch := batch}

def pollRecv [Wake W] (size : ℕ) (s : State T W) (waker : W) : Except String (State T W) := do
  let s ← s.refill
  if !s.batch.isEmpty then do
    let (value,batch) ← popBatch size s.batch
    .ok {s with toInbox := s.toInbox.ready (.value value),batch := batch}
  else if s.senders = 0 then
    .ok {s with toInbox := {s.toInbox.ready .disconnected with recvWaker := none}}
  else .ok {s with toInbox := s.toInbox.pending waker}

def dropReceiver (s : State T W) : State T W :=
  {s with toInbox := s.toInbox.dropReceiver,batch := [],buffer := .new}

/-- The first read of `is_empty`. -/
def readBatch (s : State T W) : State T W :=
  if s.batch.isEmpty then {s with checks := s.checks+1} else {s with emptiness := s.emptiness++[false]}

/-- The second read of `is_empty`. -/
def readBuffer (s : State T W) : State T W :=
  {s with checks := s.checks-1,emptiness := s.emptiness++[s.buffer.isEmpty]}

end State

inductive Action (T W : Type)
  | cloneSender (h : ℕ) | dropSender (h : ℕ) | dropReceiver
  | send (h : ℕ) (value : T)
  | tryRecv | recv | pollRecv (waker : W) | dropRecv
  | readBatch | readBuffer

def Action.polled {T W : Type} : Action T W → Option W
  | .pollRecv waker => some waker
  | _ => none

namespace State

variable {T W : Type}

def shared (s : State T W) : Bool := s.receiver && s.recv.isNone

def idle (s : State T W) : Bool := s.shared && s.checks == 0

/-- `none` when the action is not possible: its endpoint is gone or borrowed. -/
def act [Wake W] (size : ℕ) (s : State T W) : Action T W → Option (Except String (State T W))
  | .cloneSender h => if s.holds h then some (.ok {s with toInbox := s.toInbox.cloneSender}) else none
  | .dropSender h => if s.holds h then some (.ok {s with toInbox := s.toInbox.dropSender h}) else none
  | .dropReceiver => if s.idle then some (.ok s.dropReceiver) else none
  | .send h value => if s.holds h then some (.ok (s.send size value)) else none
  | .tryRecv => if s.idle then some (s.tryRecv size) else none
  | .recv => if s.idle then some (.ok {s with recv := some none}) else none
  | .pollRecv waker => if s.recv.isSome then some (s.pollRecv size waker) else none
  | .dropRecv => if s.recv.isSome then some (.ok {s with recv := none}) else none
  | .readBatch => if s.shared then some (.ok s.readBatch) else none
  | .readBuffer => if s.checks ≠ 0 then some (.ok s.readBuffer) else none

instance : Transition.Faulty (State T W) String :=
  ⟨panicked,fun s message => {s with panicked := some message}⟩

abbrev next [Wake W] (size : ℕ) (s : State T W) (a : Action T W) : Option (State T W) :=
  Transition.step (act size) s a

def values (s : State T W) : List T := s.batch++s.buffer.sealed.flatten++s.buffer.writable

end State

def machine (T W : Type) [Wake W] (size : ℕ) : Transition.Machine (State T W) (Action T W) where
  init s := s = unbounded T W
  next := State.next size

end Unbounded
end Mpsc
end Asyncband
