import Asyncband.Transition
import Asyncband.Roster

/-! The oneshot channel as a protocol between one sender and one receiver.
Both sides work on one heap allocation that holds a state byte, a message slot and a
waker slot. Every atomic operation on the byte, every access to a slot and the release of
the allocation is a step of its own, and the steps of the two sides are interleaved in
any order, sequentially consistent. What would be undefined behaviour in the source is a
`Fault` here, and so is an `unreachable!` arm or a failed `debug_assert!`. -/
namespace Asyncband
namespace Oneshot

/-! ### The state byte -/

namespace Byte

def empty : UInt8 := 0b011

def receiving : UInt8 := 0b000

def awaking : UInt8 := 0b001

def message : UInt8 := 0b100

def disconnected : UInt8 := 0b010

theorem empty_xor : empty^^^0b001 = disconnected := by
  decide

theorem receiving_xor : receiving^^^0b001 = awaking := by
  decide

theorem disconnected_xor : disconnected^^^0b001 = empty := by
  decide

end Byte

inductive Side
  | sender
  | receiver
  deriving DecidableEq

/-- A waker that was written to the slot. Ghost: `id` numbers the writes. -/
structure Stored (W : Type) where
  id : ℕ
  waker : W
  deriving DecidableEq

structure Channel (T W : Type) where
  state : UInt8
  message : Option T
  waker : Option (Stored W)

/-- Ghost: the side that may access each slot. A published waker belongs to nobody
until one of the sides claims it. -/
structure Ownership where
  message : Side
  waker : Option Side
  deriving DecidableEq

/-- What a change of the state byte hands over: `EMPTY` to `RECEIVING` publishes the
waker, the way back reclaims it, `RECEIVING` to `AWAKING` claims it for the sender, and
`MESSAGE` gives the message to a receiver that is still there. -/
def Ownership.handOver (o : Ownership) (old new : UInt8) : Ownership :=
  if old = Byte.empty ∧ new = Byte.receiving then {o with waker := none}
  else if old = Byte.receiving ∧ new = Byte.empty then {o with waker := some .receiver}
  else if old = Byte.receiving ∧ new = Byte.awaking then {o with waker := some .sender}
  else if new = Byte.message ∧ (old = Byte.empty ∨ old = Byte.awaking) then
    {o with message := .receiver}
  else o

theorem Ownership.handOver_self (o : Ownership) (state : UInt8) : o.handOver state state = o := by
  have hne : Byte.empty ≠ Byte.receiving ∧ Byte.receiving ≠ Byte.awaking ∧
      Byte.message ≠ Byte.empty ∧ Byte.message ≠ Byte.awaking := by
    decide
  simp only [Ownership.handOver]
  rw [if_neg fun h => hne.1 (h.1.symm.trans h.2),if_neg fun h => hne.1 (h.2.symm.trans h.1),
    if_neg fun h => hne.2.1 (h.1.symm.trans h.2),if_neg]
  rintro ⟨hm,he | ha⟩
  · exact hne.2.2.1 (hm.symm.trans he)
  · exact hne.2.2.2 (hm.symm.trans ha)

inductive Fault
  | freed
  | uninitialised
  | occupied
  | notOwner
  | unreachable (message : String)
  | debugAssert (message : String)
  deriving DecidableEq

def Fault.unexpected (state : UInt8) : Fault :=
  .unreachable s!"unexpected channel state: {state}"

/-! ### Program points -/

/-- The two callers of `finish_sender_awakening`. -/
inductive SenderCall
  | send
  | drop
  deriving DecidableEq

def SenderCall.finalState : SenderCall → UInt8
  | .send => Byte.message
  | .drop => Byte.disconnected

/-- What the sender's side still has to do once the allocation is freed. -/
inductive Cleanup (T W : Type)
  | leave
  | inner (message : T)
  | awoken (call : SenderCall) (waker : Stored W)
  deriving DecidableEq

inductive SenderStage (T W : Type)
  | sender
  | writeMessage (message : T)
  | fetchAdd
  | fetchXor
  | takeWaker (call : SenderCall)
  | swap (call : SenderCall) (waker : Stored W)
  | wake (call : SenderCall) (waker : Stored W)
  | dropMessage (cleanup : Cleanup T W)
  | free (cleanup : Cleanup T W)
  | dropWaker (call : SenderCall) (waker : Stored W)
  | error
  | takeMessage
  | done
  deriving DecidableEq

inductive RecvMode
  | tryRecv
  | poll
  deriving DecidableEq

inductive ReceiverStage (W : Type)
  | receiver
  | storeDisconnected (mode : RecvMode)
  | takeMessage (mode : RecvMode)
  | swap
  | future
  | completed
  | load (waker : W)
  | writeWaker (waker : W)
  | publish (waker : W)
  /-- `publish_waker` lost the race against the sender, which published a message
  or disconnected. -/
  | dropRaced (message : Bool)
  | reclaim (waker : W)
  | compare (waker : W)
  | dropStale (waker : W)
  | wakeByRef (waker : W)
  | dropLoad
  | dropExchange (expected : UInt8)
  | dropWaker
  | dropMessage
  | free
  | done
  deriving DecidableEq

inductive SendResult
  | ok
  | err
  deriving DecidableEq

/-- What `try_recv` or a poll that is ready returns. -/
inductive Reply (T : Type)
  | value (message : T)
  | empty
  | disconnected
  deriving DecidableEq

def Reply.message {T : Type} : Reply T → Option T
  | .value message => some message
  | .empty => none
  | .disconnected => none

structure State (T W : Type) where
  channel : Option (Channel T W)
  sender : SenderStage T W
  receiver : ReceiverStage W
  sendResult : Option SendResult
  ownership : Ownership
  /-- Ghost: how often the allocation was freed. -/
  frees : ℕ
  /-- Ghost: the message that `send` wrote. -/
  written : Option T
  replies : List (Reply T)
  /-- Ghost: the messages that `into_inner` returned. -/
  refused : List T
  /-- Ghost: the messages that were dropped. -/
  dropped : List T
  /-- Ghost: the wakers that were written to the slot. -/
  stored : List (Stored W)
  /-- Ghost: the stored wakers that were woken. -/
  woken : List (Stored W)
  /-- Ghost: the stored wakers that were dropped unused. -/
  discarded : List (Stored W)
  /-- Ghost: the wake calls since the latest poll started. -/
  wakes : List W
  /-- Ghost: the waker of the latest poll and the byte it saw last, once that poll has
  returned pending. -/
  pending : Option (W × UInt8)
  fault : Option Fault

def channel (T W : Type) : State T W :=
  ⟨some ⟨Byte.empty,none,none⟩,.sender,.receiver,none,⟨.sender,some .receiver⟩,0,
    none,[],[],[],[],[],[],[],none,none⟩

namespace State

variable {T W : Type}

def received (s : State T W) : List T := s.replies.filterMap Reply.message

/-! ### Accesses to the allocation -/

def load (s : State T W) : Except Fault UInt8 :=
  match s.channel with
  | none => .error .freed
  | some c => .ok c.state

/-- An atomic read-modify-write of the state byte; the result holds the byte it read. -/
def exchange (s : State T W) (f : UInt8 → UInt8) : Except Fault (UInt8 × State T W) :=
  match s.channel with
  | none => .error .freed
  | some c => .ok (c.state,{s with channel := some {c with state := f c.state},
                                   ownership := s.ownership.handOver c.state (f c.state)})

def compareExchange (s : State T W) (expected new : UInt8) : Except Fault (UInt8 × State T W) :=
  s.exchange fun state => if state = expected then new else state

def messageRef (s : State T W) (side : Side) : Except Fault T :=
  match s.channel with
  | none => .error .freed
  | some c =>
    if s.ownership.message ≠ side then .error .notOwner
    else match c.message with
      | none => .error .uninitialised
      | some message => .ok message

def takeMessage (s : State T W) (side : Side) : Except Fault (T × State T W) :=
  match s.channel with
  | none => .error .freed
  | some c =>
    if s.ownership.message ≠ side then .error .notOwner
    else match c.message with
      | none => .error .uninitialised
      | some message => .ok (message,{s with channel := some {c with message := none}})

def dropMessage (s : State T W) (side : Side) : Except Fault (State T W) := do
  let (message,s) ← s.takeMessage side
  .ok {s with dropped := s.dropped++[message]}

def writeMessage (s : State T W) (side : Side) (message : T) : Except Fault (State T W) :=
  match s.channel with
  | none => .error .freed
  | some c =>
    if s.ownership.message ≠ side then .error .notOwner
    else match c.message with
      | some _ => .error .occupied
      | none => .ok {s with channel := some {c with message := some message},written := some message}

def wakerRef (s : State T W) (side : Side) : Except Fault (Stored W) :=
  match s.channel with
  | none => .error .freed
  | some c =>
    if s.ownership.waker ≠ some side then .error .notOwner
    else match c.waker with
      | none => .error .uninitialised
      | some stored => .ok stored

def takeWaker (s : State T W) (side : Side) : Except Fault (Stored W × State T W) :=
  match s.channel with
  | none => .error .freed
  | some c =>
    if s.ownership.waker ≠ some side then .error .notOwner
    else match c.waker with
      | none => .error .uninitialised
      | some stored => .ok (stored,{s with channel := some {c with waker := none}})

def dropWaker (s : State T W) (side : Side) : Except Fault (State T W) := do
  let (stored,s) ← s.takeWaker side
  .ok {s with discarded := s.discarded++[stored]}

def writeWaker (s : State T W) (side : Side) (waker : W) : Except Fault (State T W) :=
  match s.channel with
  | none => .error .freed
  | some c =>
    if s.ownership.waker ≠ some side then .error .notOwner
    else match c.waker with
      | some _ => .error .occupied
      | none => .ok {s with channel := some {c with waker := some ⟨s.stored.length,waker⟩},
                            stored := s.stored++[⟨s.stored.length,waker⟩]}

def deallocate (s : State T W) : Except Fault (State T W) :=
  match s.channel with
  | none => .error .freed
  | some _ => .ok {s with channel := none,frees := s.frees+1}

/-! ### The sender's side -/

/-- A call of the sender returns; only `send` has a result. -/
def returnSender (s : State T W) (call : SenderCall) : State T W :=
  match call with
  | .send => {s with sender := .done,sendResult := some .ok}
  | .drop => {s with sender := .done}

def afterFree (s : State T W) : Cleanup T W → State T W
  | .leave => {s with sender := .done}
  | .inner message => {s with sender := .done,refused := s.refused++[message]}
  | .awoken call waker => {s with sender := .dropWaker call waker}

/-- `finish_sender_awakening` up to the move of the waker. -/
def startAwakening (s : State T W) (call : SenderCall) : Except Fault (State T W) :=
  if call.finalState ≠ Byte.message ∧ call.finalState ≠ Byte.disconnected then
    .error (.debugAssert "matches!(final_state, MESSAGE | DISCONNECTED)")
  else do
    let (waker,s) ← s.takeWaker .sender
    .ok {s with sender := .swap call waker}

/-- The swap of `finish_sender_awakening` and its caller's choice of how to go on. -/
def finishAwakening (s : State T W) (call : SenderCall) (waker : Stored W) :
    Except Fault (State T W) := do
  let (previous,s) ← s.exchange fun _ => call.finalState
  if previous = Byte.awaking then .ok {s with sender := .wake call waker}
  else if previous ≠ Byte.disconnected then .error (.debugAssert "previous_state == DISCONNECTED")
  else match call with
    | .send => .ok {s with sender := .dropMessage (.awoken call waker)}
    | .drop => .ok {s with sender := .free (.awoken call waker)}

def senderStep (s : State T W) : Option (Except Fault (State T W)) :=
  match s.sender with
  | .writeMessage message => some do
    let s ← s.writeMessage .sender message
    .ok {s with sender := .fetchAdd}
  | .fetchAdd => some do
    let (previous,s) ← s.exchange (·+1)
    if previous = Byte.empty then .ok (s.returnSender .send)
    else if previous = Byte.receiving then .ok {s with sender := .takeWaker .send}
    else if previous = Byte.disconnected then .ok {s with sender := .error,sendResult := some .err}
    else .error (.unexpected previous)
  | .fetchXor => some do
    let (previous,s) ← s.exchange (·^^^0b001)
    if previous = Byte.empty then .ok (s.returnSender .drop)
    else if previous = Byte.receiving then .ok {s with sender := .takeWaker .drop}
    else if previous = Byte.disconnected then .ok {s with sender := .free .leave}
    else .error (.unexpected previous)
  | .takeWaker call => some (s.startAwakening call)
  | .swap call waker => some (s.finishAwakening call waker)
  | .wake call waker =>
    some (.ok ({s with woken := s.woken++[waker],wakes := s.wakes++[waker.waker]}.returnSender call))
  | .dropMessage cleanup => some do
    let s ← s.dropMessage .sender
    .ok {s with sender := .free cleanup}
  | .free cleanup => some do
    let s ← s.deallocate
    .ok (s.afterFree cleanup)
  | .dropWaker call waker =>
    some (.ok ({s with discarded := s.discarded++[waker]}.returnSender call))
  | .takeMessage => some do
    let (message,s) ← s.takeMessage .sender
    .ok {s with sender := .free (.inner message)}
  | .sender => none
  | .error => none
  | .done => none

/-! ### The receiver's side -/

def reply (s : State T W) (stage : ReceiverStage W) (reply : Reply T) : State T W :=
  {s with receiver := stage,replies := s.replies++[reply]}

/-- A poll returns pending; `state` is the byte that it saw last. -/
def returnPending (s : State T W) (waker : W) (state : UInt8) : State T W :=
  {s with receiver := .future,pending := some (waker,state)}

/-- `try_recv` up to its load. -/
def tryRecv (s : State T W) : Except Fault (State T W) := do
  let state ← s.load
  if state = Byte.message then .ok {s with receiver := .storeDisconnected .tryRecv}
  else if state = Byte.empty then .ok (s.reply .receiver .empty)
  else if state = Byte.disconnected then .ok (s.reply .receiver .disconnected)
  else .error (.unexpected state)

def pollLoad (s : State T W) (waker : W) : Except Fault (State T W) := do
  let state ← s.load
  if state = Byte.empty then .ok {s with receiver := .writeWaker waker}
  else if state = Byte.message then .ok {s with receiver := .storeDisconnected .poll}
  else if state = Byte.receiving then .ok {s with receiver := .reclaim waker}
  else if state = Byte.awaking then .ok {s with receiver := .wakeByRef waker}
  else if state = Byte.disconnected then .ok (s.reply .completed .disconnected)
  else .error (.unexpected state)

def publishWaker (s : State T W) (waker : W) : Except Fault (State T W) := do
  let (previous,s) ← s.compareExchange Byte.empty Byte.receiving
  if previous = Byte.empty then .ok (s.returnPending waker previous)
  else if previous = Byte.message then .ok {s with receiver := .dropRaced true}
  else if previous = Byte.disconnected then .ok {s with receiver := .dropRaced false}
  else .error (.unexpected previous)

def reclaimWaker (s : State T W) (waker : W) : Except Fault (State T W) := do
  let (previous,s) ← s.compareExchange Byte.receiving Byte.empty
  if previous = Byte.receiving then .ok {s with receiver := .compare waker}
  else if previous = Byte.message then .ok {s with receiver := .storeDisconnected .poll}
  else if previous = Byte.awaking then .ok {s with receiver := .wakeByRef waker}
  else if previous = Byte.disconnected then .ok (s.reply .completed .disconnected)
  else .error (.unexpected previous)

def afterReceive (mode : RecvMode) : ReceiverStage W :=
  match mode with
  | .tryRecv => .receiver
  | .poll => .completed

/-- The swap of `Receiver::drop`. -/
def dropReceiver (s : State T W) : Except Fault (State T W) := do
  let (previous,s) ← s.exchange fun _ => Byte.disconnected
  if previous = Byte.empty then .ok {s with receiver := .done}
  else if previous = Byte.message then .ok {s with receiver := .dropMessage}
  else if previous = Byte.disconnected then .ok {s with receiver := .free}
  else .error (.unexpected previous)

/-- The load at the head of the loop in `Recv::drop`. -/
def dropLoad (s : State T W) : Except Fault (State T W) := do
  let state ← s.load
  if state = Byte.empty then .ok {s with receiver := .dropExchange state}
  else if state = Byte.message then .ok {s with receiver := .dropMessage}
  else if state = Byte.receiving then .ok {s with receiver := .dropExchange state}
  else if state = Byte.awaking then .ok {s with receiver := .dropExchange state}
  else if state = Byte.disconnected then .ok {s with receiver := .free}
  else .error (.unexpected state)

/-- The exchange in the loop of `Recv::drop`. From `RECEIVING` the byte goes back to
`EMPTY` and the loop goes on; a failed exchange starts the loop again. -/
def dropExchange (s : State T W) (expected : UInt8) : Except Fault (State T W) := do
  let (previous,s) ← s.compareExchange expected
    (if expected = Byte.receiving then Byte.empty else Byte.disconnected)
  if previous ≠ expected then .ok {s with receiver := .dropLoad}
  else if expected = Byte.receiving then .ok {s with receiver := .dropWaker}
  else .ok {s with receiver := .done}

theorem dropExchange_of_ne {s : State T W} {c : Channel T W} {expected : UInt8}
    (hc : s.channel = some c) (hne : c.state ≠ expected) :
    s.dropExchange expected = .ok {s with receiver := .dropLoad} := by
  have hx : s.compareExchange expected
      (if expected = Byte.receiving then Byte.empty else Byte.disconnected) = .ok (c.state,s) := by
    simp only [compareExchange,exchange,hc,if_neg hne,Ownership.handOver_self]
    rw [← hc]
  simp only [dropExchange,hx,bind,Except.bind,if_pos hne]

def receiverStep [Wake W] (s : State T W) : Option (Except Fault (State T W)) :=
  match s.receiver with
  | .storeDisconnected mode => some do
    let (_,s) ← s.exchange fun _ => Byte.disconnected
    .ok {s with receiver := .takeMessage mode}
  | .takeMessage mode => some do
    let (message,s) ← s.takeMessage .receiver
    .ok (s.reply (afterReceive mode) (.value message))
  | .swap => some s.dropReceiver
  | .load waker => some (s.pollLoad waker)
  | .writeWaker waker => some do
    let s ← s.writeWaker .receiver waker
    .ok {s with receiver := .publish waker}
  | .publish waker => some (s.publishWaker waker)
  | .dropRaced message => some do
    let s ← s.dropWaker .receiver
    .ok (if message then {s with receiver := .storeDisconnected .poll}
         else s.reply .completed .disconnected)
  | .reclaim waker => some (s.reclaimWaker waker)
  | .compare waker => some do
    let stored ← s.wakerRef .receiver
    .ok {s with receiver := if Wake.willWake stored.waker waker then .publish waker
                            else .dropStale waker}
  | .dropStale waker => some do
    let s ← s.dropWaker .receiver
    .ok {s with receiver := .writeWaker waker}
  | .wakeByRef waker =>
    some (.ok ({s with wakes := s.wakes++[waker]}.returnPending waker Byte.awaking))
  | .dropLoad => some s.dropLoad
  | .dropExchange expected => some (s.dropExchange expected)
  | .dropWaker => some do
    let s ← s.dropWaker .receiver
    .ok {s with receiver := .dropLoad}
  | .dropMessage => some do
    let s ← s.dropMessage .receiver
    .ok {s with receiver := .free}
  | .free => some do
    let s ← s.deallocate
    .ok {s with receiver := .done}
  | .receiver => none
  | .future => none
  | .completed => none
  | .done => none

end State

/-! ### Steps -/

inductive SenderAction (T : Type)
  | isDisconnected
  | send (message : T)
  | drop
  | asInner
  | intoInner
  | dropError
  | step

inductive ReceiverAction (W : Type)
  | isDisconnected
  | hasMessage
  | tryRecv
  | intoFuture
  | poll (waker : W)
  | drop
  | step

inductive Action (T W : Type)
  | sender (action : SenderAction T)
  | receiver (action : ReceiverAction W)

section Steps

variable {T W : Type}

namespace State

def isDisconnected (s : State T W) : Except Fault Bool := do
  let state ← s.load
  .ok (state == Byte.disconnected)

def hasMessage (s : State T W) : Except Fault Bool := do
  let state ← s.load
  .ok (state == Byte.message)

def actSender (s : State T W) : SenderAction T → Option (Except Fault (State T W))
  | .isDisconnected =>
    match s.sender with
    | .sender => some do
      let _ ← s.isDisconnected
      .ok s
    | _ => none
  | .send message =>
    match s.sender with
    | .sender => some (.ok {s with sender := .writeMessage message})
    | _ => none
  | .drop =>
    match s.sender with
    | .sender => some (.ok {s with sender := .fetchXor})
    | _ => none
  | .asInner =>
    match s.sender with
    | .error => some do
      let _ ← s.messageRef .sender
      .ok s
    | _ => none
  | .intoInner =>
    match s.sender with
    | .error => some (.ok {s with sender := .takeMessage})
    | _ => none
  | .dropError =>
    match s.sender with
    | .error => some (.ok {s with sender := .dropMessage .leave})
    | _ => none
  | .step => s.senderStep

def actReceiver [Wake W] (s : State T W) : ReceiverAction W → Option (Except Fault (State T W))
  | .isDisconnected =>
    match s.receiver with
    | .receiver => some do
      let _ ← s.isDisconnected
      .ok s
    | _ => none
  | .hasMessage =>
    match s.receiver with
    | .receiver => some do
      let _ ← s.hasMessage
      .ok s
    | _ => none
  | .tryRecv =>
    match s.receiver with
    | .receiver => some s.tryRecv
    | _ => none
  | .intoFuture =>
    match s.receiver with
    | .receiver => some (.ok {s with receiver := .future})
    | _ => none
  | .poll waker =>
    match s.receiver with
    | .future => some (.ok {s with receiver := .load waker,pending := none,wakes := []})
    | _ => none
  | .drop =>
    match s.receiver with
    | .receiver => some (.ok {s with receiver := .swap})
    | .future => some (.ok {s with receiver := .dropLoad})
    | .completed => some (.ok {s with receiver := .dropLoad})
    | _ => none
  | .step => s.receiverStep

def act [Wake W] (s : State T W) : Action T W → Option (Except Fault (State T W))
  | .sender action => s.actSender action
  | .receiver action => s.actReceiver action

instance : Transition.Faulty (State T W) Fault :=
  ⟨fault,fun s fault => {s with fault := some fault}⟩

abbrev next [Wake W] (s : State T W) (a : Action T W) : Option (State T W) :=
  Transition.step act s a

def Complete (s : State T W) : Prop := s.sender = .done ∧ s.receiver = .done

end State

def machine (T W : Type) [Wake W] : Transition.Machine (State T W) (Action T W) where
  init := fun s => s = channel T W
  next := State.next

end Steps
end Oneshot
end Asyncband
