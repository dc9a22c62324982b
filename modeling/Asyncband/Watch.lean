import Asyncband.Checked
import Asyncband.Semaphore
import Asyncband.Transition
import Asyncband.WakerSet

/-! The watch channel as a transition system.
One step is one critical section of the channel's lock. A call of `changed` is one `Change`
future; `recv` reads the value in a second critical section behind it, and anything may
happen in between. A receiver has at most one call at a time, and while it has one, the
call borrows it. -/
namespace Asyncband
namespace Watch

def u64Max : ℕ := 2^64-1

inductive RecvError
  | disconnected
  deriving DecidableEq

inductive Outcome (T : Type)
  | changed
  | received (value : T)
  | failed (error : RecvError)
  | cancelled
  | unwound
  deriving DecidableEq

inductive Call (T : Type)
  | idle (last : Option (Outcome T))
  | waiting (recv : Bool) (seen : ℕ) (token : Option SlotId)
  /-- The `Change` of a `recv` was ready; the value is not read yet. -/
  | reading
  deriving DecidableEq

structure Receiver (T W : Type) where
  alive : Bool
  seen : ℕ
  call : Call T
  /-- Ghost: the waker of the latest poll that returned pending, -/
  lastWaker : Option W
  /-- Ghost: and how many wakers had been woken before it. -/
  mark : ℕ

namespace Receiver

variable {T W : Type}

def free (c : Receiver T W) : Bool :=
  match c.call with
  | .idle _ => c.alive
  | _ => false

def token (version senders : ℕ) (c : Receiver T W) : Option SlotId :=
  match c.call with
  | .waiting _ seen token => if seen = version ∧ senders ≠ 0 then token else none
  | _ => none

end Receiver

structure State (T W : Type) where
  value : T
  version : ℕ
  senders : ℕ
  receivers : ℕ
  waiters : WakerSet W
  handles : List Bool
  observers : List (Receiver T W)
  /-- Ghost: the values of all versions. -/
  published : List T
  /-- Ghost: the wakers that were handed out to be woken. -/
  woken : List W
  /-- Ghost: the answers of `get`. -/
  answers : List T
  panicked : Option String

def channel {T : Type} (W : Type) (initial : T) : State T W :=
  ⟨initial,0,1,1,.new,[true],[⟨true,0,.idle none,none,0⟩],[initial],[],[],none⟩

namespace State

variable {T W : Type}

def setReceiver (s : State T W) (r : ℕ) (c : Receiver T W) : State T W :=
  {s with observers := s.observers.set r c}

def cloneSender (s : State T W) : Except String (State T W) :=
  if s.senders < usizeMax then
    .ok {s with senders := s.senders+1,handles := s.handles++[true]}
  else .error "watch sender count overflowed"

def dropSender (s : State T W) (i : ℕ) : Except String (State T W) := do
  let senders ← Checked.sub s.senders 1
  let s := {s with senders := senders,handles := s.handles.set i false}
  if senders ≠ 0 then .ok s
  else .ok {s with waiters := .new,woken := s.woken++s.waiters.wakeAll}

/-- The part that `send` and `send_replace` share. -/
def publish (s : State T W) (value : T) : Except String (State T W) :=
  if s.version < u64Max then
    let (wakers,waiters) := s.waiters.takeAll
    .ok {s with value := value,version := s.version+1,waiters := waiters,
                published := s.published++[value],woken := s.woken++wakers}
  else .error "watch channel version counter overflowed"

def send (s : State T W) (value : T) : Except String (Option T × State T W) :=
  if s.receivers = 0 then .ok (some value,s)
  else do
    let s ← s.publish value
    .ok (none,s)

def sendReplace (s : State T W) (value : T) : Except String (T × State T W) := do
  let t ← s.publish value
  .ok (s.value,t)

def addReceiver (s : State T W) (seen : ℕ) : Except String (State T W) :=
  if s.receivers < usizeMax then
    .ok {s with receivers := s.receivers+1,observers := s.observers++[⟨true,seen,.idle none,none,0⟩]}
  else .error "watch receiver count overflowed"

def subscribe (s : State T W) : Except String (State T W) := s.addReceiver s.version

def cloneReceiver (s : State T W) (c : Receiver T W) : Except String (State T W) :=
  s.addReceiver c.seen

def dropReceiver (s : State T W) (r : ℕ) (c : Receiver T W) : Except String (State T W) := do
  let receivers ← Checked.sub s.receivers 1
  .ok {s.setReceiver r {c with alive := false} with receivers := receivers}

def get (s : State T W) : T := s.value

def hasChanged (s : State T W) (c : Receiver T W) : Except RecvError Bool :=
  if s.version ≠ c.seen then .ok true
  else if s.senders = 0 then .error .disconnected
  else .ok false

/-- The poll of a `Change`, and what its call does with the answer. -/
def pollChange [Wake W] (s : State T W) (r : ℕ) (c : Receiver T W) (recv : Bool) (seen : ℕ)
    (token : Option SlotId) (waker : W) : Except String (State T W) :=
  if s.version ≠ seen then
    .ok (s.setReceiver r (if recv then {c with call := .reading}
      else {c with seen := s.version,call := .idle (some .changed)}))
  else if s.senders = 0 then .ok (s.setReceiver r {c with call := .idle (some (.failed .disconnected))})
  else do
    let (token,waiters) ← s.waiters.register token waker
    .ok {s.setReceiver r {c with
      call := .waiting recv seen (some token),lastWaker := some waker,mark := s.woken.length} with
        waiters := waiters}

/-- The second critical section of `recv`. -/
def readValue (s : State T W) (r : ℕ) (c : Receiver T W) (clonePanics : Bool) : State T W :=
  if clonePanics then s.setReceiver r {c with call := .idle (some .unwound)}
  else s.setReceiver r {c with seen := s.version,call := .idle (some (.received s.value))}

def dropChange (s : State T W) (r : ℕ) (c : Receiver T W) (seen : ℕ) (token : Option SlotId) :
    Except String (State T W) :=
  let t := s.setReceiver r {c with call := .idle (some .cancelled)}
  if token = none then .ok t
  else if s.version ≠ seen ∨ s.senders = 0 then .ok t
  else do
    let waiters ← s.waiters.unregister token
    .ok {t with waiters := waiters}

end State

/-- `i` is a sender, `r` a receiver. `has_changed` changes nothing. -/
inductive Action (T W : Type)
  | send (i : ℕ) (value : T) | sendReplace (i : ℕ) (value : T) | subscribe (i : ℕ)
  | cloneSender (i : ℕ) | dropSender (i : ℕ)
  | cloneReceiver (r : ℕ) | dropReceiver (r : ℕ) | get (r : ℕ) | hasChanged (r : ℕ)
  | changed (r : ℕ) | recv (r : ℕ)
  | poll (r : ℕ) (waker : W) | read (r : ℕ) (clonePanics : Bool) | cancel (r : ℕ)

namespace State

variable {T W : Type}

def bySender (s : State T W) (i : ℕ) (x : Except String (State T W)) :
    Option (Except String (State T W)) :=
  if s.handles[i]? = some true then some x else none

def byReceiver (s : State T W) (r : ℕ) (x : Receiver T W → Except String (State T W)) :
    Option (Except String (State T W)) :=
  s.observers[r]?.bind fun c => if c.free then some (x c) else none

def start (s : State T W) (r : ℕ) (recv : Bool) : Option (Except String (State T W)) :=
  s.byReceiver r fun c => .ok (s.setReceiver r {c with call := .waiting recv c.seen none})

def poll [Wake W] (s : State T W) (r : ℕ) (c : Receiver T W) (waker : W) :
    Option (Except String (State T W)) :=
  match c.call with
  | .waiting recv seen token => some (s.pollChange r c recv seen token waker)
  | _ => none

def read (s : State T W) (r : ℕ) (c : Receiver T W) (clonePanics : Bool) :
    Option (Except String (State T W)) :=
  match c.call with
  | .reading => some (.ok (s.readValue r c clonePanics))
  | _ => none

def cancel (s : State T W) (r : ℕ) (c : Receiver T W) : Option (Except String (State T W)) :=
  match c.call with
  | .waiting _ seen token => some (s.dropChange r c seen token)
  | _ => none

def act [Wake W] (s : State T W) : Action T W → Option (Except String (State T W))
  | .send i value => s.bySender i ((s.send value).map Prod.snd)
  | .sendReplace i value => s.bySender i ((s.sendReplace value).map Prod.snd)
  | .subscribe i => s.bySender i s.subscribe
  | .cloneSender i => s.bySender i s.cloneSender
  | .dropSender i => s.bySender i (s.dropSender i)
  | .cloneReceiver r => s.byReceiver r s.cloneReceiver
  | .dropReceiver r => s.byReceiver r (s.dropReceiver r)
  | .get r => s.byReceiver r fun _ => .ok {s with answers := s.answers++[s.get]}
  | .hasChanged r => s.byReceiver r fun _ => .ok s
  | .changed r => s.start r false
  | .recv r => s.start r true
  | .poll r waker => s.observers[r]?.bind fun c => s.poll r c waker
  | .read r clonePanics => s.observers[r]?.bind fun c => s.read r c clonePanics
  | .cancel r => s.observers[r]?.bind fun c => s.cancel r c

instance : Transition.Faulty (State T W) String :=
  ⟨panicked,fun s message => {s with panicked := some message}⟩

abbrev next [Wake W] (s : State T W) (a : Action T W) : Option (State T W) :=
  Transition.step act s a

end State

def machine (T W : Type) [Wake W] : Transition.Machine (State T W) (Action T W) where
  init s := ∃ initial, s = channel W initial
  next := State.next

end Watch
end Asyncband
