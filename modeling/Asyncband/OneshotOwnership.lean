import Asyncband.Oneshot

/-! Ownership in the oneshot protocol.
`Agree` lists the situations that the two program points and the channel can be in
together: which byte is stored, which slots are filled, and who owns them. Each step of
either side leads from one of these situations to another without a fault, so the
allocation is freed exactly once and every message and every stored waker has one
place at any time. -/
namespace Asyncband
namespace Oneshot

section Situations

variable {T W : Type} {r : ReceiverStage W} {b : UInt8} {m : Option T} {side : Side}

/-- Before the sender's read-modify-write: only the sender uses the message slot. -/
inductive Unpublished : SenderStage T W → Option T → Prop
  | sender : Unpublished .sender none
  | writeMessage (message : T) : Unpublished (.writeMessage message) none
  | fetchAdd (message : T) : Unpublished .fetchAdd (some message)
  | fetchXor : Unpublished .fetchXor none

/-- The sender has claimed the waker and is about to publish the final byte. -/
inductive Awakening : SenderStage T W → Option T → Option (Stored W) → Prop
  | takeForSend (message : T) (waker : Stored W) :
    Awakening (.takeWaker .send) (some message) (some waker)
  | takeForDrop (waker : Stored W) : Awakening (.takeWaker .drop) none (some waker)
  | swapForSend (message : T) (waker : Stored W) : Awakening (.swap .send waker) (some message) none
  | swapForDrop (waker : Stored W) : Awakening (.swap .drop waker) none none

/-- The sender's side has the allocation to itself and will free it. -/
inductive Cleaning : SenderStage T W → Option T → Prop
  | error (message : T) : Cleaning .error (some message)
  | takeMessage (message : T) : Cleaning .takeMessage (some message)
  | dropError (message : T) : Cleaning (.dropMessage .leave) (some message)
  | dropMessage (call : SenderCall) (waker : Stored W) (message : T) :
    Cleaning (.dropMessage (.awoken call waker)) (some message)
  | free (cleanup : Cleanup T W) : Cleaning (.free cleanup) none

/-- The sender is past its last access and has left the allocation to the receiver. -/
inductive Departed : SenderStage T W → Prop
  | wake (call : SenderCall) (waker : Stored W) : Departed (.wake call waker)
  | done : Departed .done

/-- The allocation is freed; at most a waker is left in the sender's hands. -/
inductive Gone : SenderStage T W → Prop
  | wake (call : SenderCall) (waker : Stored W) : Gone (.wake call waker)
  | dropWaker (call : SenderCall) (waker : Stored W) : Gone (.dropWaker call waker)
  | done : Gone .done

/-- Receiver stages in which the byte may be `EMPTY` with no waker stored. -/
inductive Idle : ReceiverStage W → Prop
  | receiver : Idle .receiver
  | swap : Idle .swap
  | future : Idle .future
  | load (waker : W) : Idle (.load waker)
  | writeWaker (waker : W) : Idle (.writeWaker waker)
  | dropLoad : Idle .dropLoad
  | dropExchange : Idle (.dropExchange Byte.empty)

/-- The receiver holds the stored waker and will publish or drop it. -/
inductive Holding : ReceiverStage W → Prop
  | publish (waker : W) : Holding (.publish waker)
  | compare (waker : W) : Holding (.compare waker)
  | dropStale (waker : W) : Holding (.dropStale waker)
  | dropWaker : Holding .dropWaker

/-- Receiver stages in which the byte may be `RECEIVING`. -/
inductive Parked : ReceiverStage W → Prop
  | future : Parked .future
  | load (waker : W) : Parked (.load waker)
  | reclaim (waker : W) : Parked (.reclaim waker)
  | dropLoad : Parked .dropLoad
  | dropExchange : Parked (.dropExchange Byte.receiving)

/-- Receiver stages in which the byte may be `AWAKING`. -/
inductive Awaiting : ReceiverStage W → Prop
  | parked {r : ReceiverStage W} (h : Parked r) : Awaiting r
  | wakeByRef (waker : W) : Awaiting (.wakeByRef waker)
  | dropExchange : Awaiting (.dropExchange Byte.awaking)

/-- The receiver while the sender is unpublished, with the byte, the waker slot and the
owner of that slot. -/
inductive Open : ReceiverStage W → UInt8 → Option (Stored W) → Option Side → Prop
  | idle {r : ReceiverStage W} (hr : Idle r) : Open r Byte.empty none (some .receiver)
  | holding {r : ReceiverStage W} (stored : Stored W) (hr : Holding r) :
    Open r Byte.empty (some stored) (some .receiver)
  | parked {r : ReceiverStage W} (stored : Stored W) (hr : Parked r) :
    Open r Byte.receiving (some stored) none
  | left : Open .done Byte.disconnected none (some .receiver)

/-- The receiver while the sender is awakening it, with the byte. -/
inductive Awaited : ReceiverStage W → UInt8 → Prop
  | awaking {r : ReceiverStage W} (hr : Awaiting r) : Awaited r Byte.awaking
  | left : Awaited .done Byte.disconnected

/-- What a departed sender left behind: the byte, the message and its owner. -/
inductive Final : UInt8 → Option T → Side → Prop
  | message (message : T) : Final Byte.message (some message) .receiver
  | disconnected (side : Side) : Final Byte.disconnected none side

/-- Receiver stages that use no slot when the sender has departed. -/
inductive Resting : ReceiverStage W → Prop
  | receiver : Resting .receiver
  | swap : Resting .swap
  | dropEmpty : Resting (.dropExchange Byte.empty)
  | awaiting {r : ReceiverStage W} (h : Awaiting r) : Resting r

/-- The receiver stages that only a departed sender leads to, with the channel and the
owners of the slots. -/
inductive Closing : ReceiverStage W → Channel T W → Ownership → Prop
  | racedMessage (message : T) (stored : Stored W) :
    Closing (.dropRaced true) ⟨Byte.message,some message,some stored⟩ ⟨.receiver,some .receiver⟩
  | racedDisconnected (side : Side) (stored : Stored W) :
    Closing (.dropRaced false) ⟨Byte.disconnected,none,some stored⟩ ⟨side,some .receiver⟩
  | store (mode : RecvMode) (message : T) (o : Option Side) :
    Closing (.storeDisconnected mode) ⟨Byte.message,some message,none⟩ ⟨.receiver,o⟩
  | take (mode : RecvMode) (message : T) (o : Option Side) :
    Closing (.takeMessage mode) ⟨Byte.disconnected,some message,none⟩ ⟨.receiver,o⟩
  | completed (o : Ownership) : Closing .completed ⟨Byte.disconnected,none,none⟩ o
  | dropMessage (b : UInt8) (message : T) (o : Option Side) :
    Closing .dropMessage ⟨b,some message,none⟩ ⟨.receiver,o⟩
  | free (b : UInt8) (o : Ownership) : Closing .free ⟨b,none,none⟩ o

/-- The receiver after the sender has departed. -/
inductive Finishing : ReceiverStage W → Channel T W → Ownership → Prop
  | resting {r : ReceiverStage W} {b : UInt8} {m : Option T} {side : Side} {o : Option Side}
    (hr : Resting r) (hf : Final b m side) : Finishing r ⟨b,m,none⟩ ⟨side,o⟩
  | writeWaker {b : UInt8} {m : Option T} {side : Side} (waker : W) (hf : Final b m side) :
    Finishing (.writeWaker waker) ⟨b,m,none⟩ ⟨side,some .receiver⟩
  | holding {r : ReceiverStage W} {b : UInt8} {m : Option T} {side : Side} (stored : Stored W)
    (hr : Holding r) (hf : Final b m side) : Finishing r ⟨b,m,some stored⟩ ⟨side,some .receiver⟩
  | closing {r : ReceiverStage W} {c : Channel T W} {o : Ownership} (hc : Closing r c o) :
    Finishing r c o

inductive Agree : Option (Channel T W) → Ownership → SenderStage T W → ReceiverStage W → Prop
  | unpublished {s : SenderStage T W} {r : ReceiverStage W} {b : UInt8} {m : Option T}
    {w : Option (Stored W)} {o : Option Side} (hs : Unpublished s m) (hr : Open r b w o) :
    Agree (some ⟨b,m,w⟩) ⟨.sender,o⟩ s r
  | awakening {s : SenderStage T W} {r : ReceiverStage W} {b : UInt8} {m : Option T}
    {w : Option (Stored W)} (hs : Awakening s m w) (hr : Awaited r b) :
    Agree (some ⟨b,m,w⟩) ⟨.sender,some .sender⟩ s r
  | cleaning {s : SenderStage T W} {m : Option T} (b : UInt8) (o : Option Side)
    (hs : Cleaning s m) : Agree (some ⟨b,m,none⟩) ⟨.sender,o⟩ s .done
  | finishing {s : SenderStage T W} {r : ReceiverStage W} {c : Channel T W} {o : Ownership}
    (hs : Departed s) (hr : Finishing r c o) : Agree (some c) o s r
  | freed {s : SenderStage T W} (o : Ownership) (hs : Gone s) : Agree none o s .done

theorem Idle.finishing (h : Idle r) (hf : Final b m side) :
    Finishing r ⟨b,m,none⟩ ⟨side,some .receiver⟩ := by
  cases h with
  | receiver => exact .resting .receiver hf
  | swap => exact .resting .swap hf
  | future => exact .resting (.awaiting (.parked .future)) hf
  | load waker => exact .resting (.awaiting (.parked (.load waker))) hf
  | writeWaker waker => exact .writeWaker waker hf
  | dropLoad => exact .resting (.awaiting (.parked .dropLoad)) hf
  | dropExchange => exact .resting .dropEmpty hf

inductive Ending : ReceiverStage W → Prop
  | dropRaced (message : Bool) : Ending (.dropRaced message)
  | store (mode : RecvMode) : Ending (.storeDisconnected mode)
  | take (mode : RecvMode) : Ending (.takeMessage mode)
  | completed : Ending .completed
  | dropMessage : Ending .dropMessage
  | free : Ending .free

theorem Awaiting.not_ending (h : Awaiting r) : ¬Ending r := by
  intro hr
  cases h with
  | parked hp => cases hr <;> cases hp
  | wakeByRef => cases hr
  | dropExchange => cases hr

theorem Awaiting.not_holding (h : Awaiting r) : ¬Holding r := by
  intro hr
  cases h with
  | parked hp => cases hr <;> cases hp
  | wakeByRef => cases hr
  | dropExchange => cases hr

theorem Resting.ne_expected {expected : UInt8} (h : Resting (.dropExchange expected : ReceiverStage W))
    (hf : Final b m side) : b ≠ expected := by
  have hexpected : expected = Byte.empty ∨ expected = Byte.receiving ∨ expected = Byte.awaking := by
    cases h with
    | dropEmpty => exact .inl rfl
    | awaiting ha =>
      cases ha with
      | parked hp => cases hp; exact .inr (.inl rfl)
      | dropExchange => exact .inr (.inr rfl)
  cases hf with
  | message => rcases hexpected with rfl | rfl | rfl <;> decide
  | disconnected => rcases hexpected with rfl | rfl | rfl <;> decide

theorem Departed.gone {s : SenderStage T W} (h : Departed s) : Gone s := by
  cases h with
  | wake call waker => exact .wake call waker
  | done => exact .done

/-- What the receiver may find when no waker is published: the sender has not acted yet,
or it has departed. -/
inductive Unshared : SenderStage T W → UInt8 → Option T → Side → Prop
  | unpublished {s : SenderStage T W} {m : Option T} (hs : Unpublished s m) :
    Unshared s Byte.empty m .sender
  | departed {s : SenderStage T W} {b : UInt8} {m : Option T} {side : Side} (hs : Departed s)
    (hf : Final b m side) : Unshared s b m side

namespace Agree

variable {c : Option (Channel T W)} {o : Ownership} {s : SenderStage T W} {r : ReceiverStage W}

theorem of_ending (h : Agree c o s r) (hr : Ending r) :
    ∃ d, c = some d ∧ Departed s ∧ Closing r d o := by
  cases h with
  | unpublished _ ho =>
    cases ho with
    | idle hi => cases hr <;> cases hi
    | holding _ hh => cases hr <;> cases hh
    | parked _ hp => cases hr <;> cases hp
    | left => cases hr
  | awakening _ ha =>
    cases ha with
    | awaking ha => exact absurd hr ha.not_ending
    | left => cases hr
  | cleaning => cases hr
  | finishing hs hf =>
    cases hf with
    | resting hrest =>
      cases hrest with
      | awaiting ha => exact absurd hr ha.not_ending
      | _ => cases hr
    | writeWaker => cases hr
    | holding _ hh => cases hr <;> cases hh
    | closing hc => exact ⟨_,rfl,hs,hc⟩
  | freed => cases hr

theorem of_holding (h : Agree c o s r) (hr : Holding r) :
    ∃ b m side stored, c = some ⟨b,m,some stored⟩ ∧ o = ⟨side,some .receiver⟩ ∧
      Unshared s b m side := by
  cases h with
  | unpublished hs ho =>
    cases ho with
    | idle hi => cases hr <;> cases hi
    | holding stored _ => exact ⟨_,_,_,stored,rfl,rfl,.unpublished hs⟩
    | parked _ hp => cases hr <;> cases hp
    | left => cases hr
  | awakening _ ha =>
    cases ha with
    | awaking ha => exact absurd hr ha.not_holding
    | left => cases hr
  | cleaning => cases hr
  | finishing hs hf =>
    cases hf with
    | resting hrest =>
      cases hrest with
      | awaiting ha => exact absurd hr ha.not_holding
      | _ => cases hr
    | writeWaker => cases hr
    | holding stored _ hf => exact ⟨_,_,_,stored,rfl,rfl,.departed hs hf⟩
    | closing hc => cases hr <;> cases hc
  | freed => cases hr

theorem of_writeWaker {waker : W} (h : Agree c o s (.writeWaker waker)) :
    ∃ b m side, c = some ⟨b,m,none⟩ ∧ o = ⟨side,some .receiver⟩ ∧ Unshared s b m side := by
  cases h with
  | unpublished hs ho =>
    cases ho with
    | idle => exact ⟨_,_,_,rfl,rfl,.unpublished hs⟩
    | _ => contradiction
  | awakening _ ha =>
    cases ha with
    | awaking ha => cases ha with | parked hp => cases hp
  | finishing hs hf =>
    cases hf with
    | resting hrest => cases hrest with | awaiting ha => cases ha with | parked hp => cases hp
    | writeWaker _ hf => exact ⟨_,_,_,rfl,rfl,.departed hs hf⟩
    | _ => contradiction

theorem of_receiver (h : Agree c o s .receiver) :
    ∃ b m side w, c = some ⟨b,m,none⟩ ∧ o = ⟨side,w⟩ ∧ Unshared s b m side ∧
      ∀ r, Idle r → Resting r → Agree c o s r := by
  cases h with
  | unpublished hs ho =>
    cases ho with
    | idle => exact ⟨_,_,_,_,rfl,rfl,.unpublished hs,fun r hi _ => .unpublished hs (.idle hi)⟩
    | _ => contradiction
  | awakening _ ha => cases ha with | awaking ha => cases ha with | parked hp => cases hp
  | finishing hs hf =>
    cases hf with
    | resting _ hf =>
      exact ⟨_,_,_,_,rfl,rfl,.departed hs hf,fun r _ hrest => .finishing hs (.resting hrest hf)⟩
    | _ => contradiction

theorem of_future (h : Agree c o s .future) (hi : Idle r) (hp : Parked r) : Agree c o s r := by
  cases h with
  | unpublished hs ho =>
    cases ho with
    | idle => exact .unpublished hs (.idle hi)
    | holding _ hh => cases hh
    | parked stored => exact .unpublished hs (.parked stored hp)
  | awakening hs ha => cases ha with | awaking ha => exact .awakening hs (.awaking (.parked hp))
  | finishing hs hf =>
    cases hf with
    | resting _ hf => exact .finishing hs (.resting (.awaiting (.parked hp)) hf)
    | _ => contradiction

theorem of_completed (h : Agree c o s .completed) : Agree c o s .dropLoad := by
  obtain ⟨d,rfl,hs,hc⟩ := h.of_ending .completed
  cases hc
  exact .finishing hs (.resting (.awaiting (.parked .dropLoad)) (.disconnected _))

end Agree

namespace Unshared

variable {s : SenderStage T W} {b : UInt8} {m : Option T} {side : Side}

theorem holding (h : Unshared s b m side) (hr : Holding r) (stored : Stored W) :
    Agree (some ⟨b,m,some stored⟩) ⟨side,some .receiver⟩ s r := by
  cases h with
  | unpublished hs => exact .unpublished hs (.holding stored hr)
  | departed hs hf => exact .finishing hs (.holding stored hr hf)

theorem idle (h : Unshared s b m side) (hr : Idle r) :
    Agree (some ⟨b,m,none⟩) ⟨side,some .receiver⟩ s r := by
  cases h with
  | unpublished hs => exact .unpublished hs (.idle hr)
  | departed hs hf => exact .finishing hs (hr.finishing hf)

end Unshared
end Situations

section Accounts

variable {T W : Type}

/-- Where the message that `send` wrote is: returned by a receive, returned by
`into_inner`, dropped, in the slot, or moved out of it by an `into_inner` that is
still running. -/
structure MessageAccount (received refused dropped : List T) (slot inner written : Option T) :
    Prop where
  places : received++(refused++(dropped++(slot.toList++inner.toList))) = written.toList

namespace MessageAccount

variable {received refused dropped : List T} {inner written : Option T} {message : T}

theorem write (h : MessageAccount received refused dropped none none none) :
    MessageAccount received refused dropped (some message) none (some message) := by
  have hall := h.places
  simp only [Option.toList_none,List.append_nil,List.append_eq_nil_iff] at hall
  obtain ⟨rfl,rfl,rfl⟩ := hall
  exact ⟨rfl⟩

section

variable (h : MessageAccount received refused dropped (some message) inner written)
include h

theorem sole :
    received = [] ∧ refused = [] ∧ dropped = [] ∧ inner = none ∧ written = some message := by
  have hl := congrArg List.length h.places
  simp only [List.length_append,Option.toList_some,List.length_cons,List.length_nil] at hl
  have hw : written.toList.length ≤ 1 := by cases written <;> simp
  have hreceived : received = [] := List.eq_nil_of_length_eq_zero (by omega)
  have hrefused : refused = [] := List.eq_nil_of_length_eq_zero (by omega)
  have hdropped : dropped = [] := List.eq_nil_of_length_eq_zero (by omega)
  have hinner : inner = none := by
    cases inner with
    | none => rfl
    | some m => simp only [Option.toList_some,List.length_singleton] at hl; omega
  have hplaces := h.places
  subst hreceived hrefused hdropped hinner
  cases written with
  | none => simp at hplaces
  | some m => simpa [eq_comm] using hplaces

theorem receive : MessageAccount (received++[message]) refused dropped none inner written := by
  obtain ⟨rfl,rfl,rfl,rfl,rfl⟩ := h.sole
  exact ⟨rfl⟩

end

theorem unanswered {slot : Option T} (h : MessageAccount received refused dropped slot inner written) :
    MessageAccount (received++[]) refused dropped slot inner written := by
  rw [List.append_nil]
  exact h

theorem drop (h : MessageAccount received refused dropped (some message) inner written) :
    MessageAccount received refused (dropped++[message]) none inner written := by
  obtain ⟨rfl,rfl,rfl,rfl,rfl⟩ := h.sole
  exact ⟨rfl⟩

theorem take (h : MessageAccount received refused dropped (some message) none written) :
    MessageAccount received refused dropped none (some message) written :=
  ⟨h.places⟩

theorem refuse (h : MessageAccount received refused dropped none (some message) written) :
    MessageAccount received (refused++[message]) dropped none none written := by
  obtain ⟨rfl,rfl,rfl,-,rfl⟩ := (⟨h.places⟩ :
    MessageAccount received refused dropped (some message) none written).sole
  exact ⟨rfl⟩

end MessageAccount

/-- Where the stored wakers are: woken, dropped unused, in the slot, or in the hands of
the sender. Every write to the slot has its own number. -/
structure WakerAccount (woken discarded : List (Stored W)) (slot held : Option (Stored W))
    (stored : List (Stored W)) : Prop where
  places : (woken++(discarded++(slot.toList++held.toList))).Perm stored
  ids : stored.map Stored.id = List.range stored.length

namespace WakerAccount

variable {woken discarded stored : List (Stored W)} {slot held : Option (Stored W)}
  {waker : Stored W}

theorem store (h : WakerAccount woken discarded none held stored) (waker : W) :
    WakerAccount woken discarded (some ⟨stored.length,waker⟩) held
      (stored++[⟨stored.length,waker⟩]) := by
  refine ⟨?_,by simp [h.ids,List.range_succ]⟩
  have hp := h.places.append_right [⟨stored.length,waker⟩]
  refine List.Perm.trans ?_ hp
  simp only [Option.toList_none,Option.toList_some,List.nil_append,List.append_assoc]
  exact (List.perm_append_comm.append_left discarded).append_left woken

theorem take (h : WakerAccount woken discarded (some waker) none stored) :
    WakerAccount woken discarded none (some waker) stored :=
  ⟨h.places,h.ids⟩

theorem drop (h : WakerAccount woken discarded (some waker) held stored) :
    WakerAccount woken (discarded++[waker]) none held stored :=
  ⟨by simpa using h.places,h.ids⟩

theorem wake (h : WakerAccount woken discarded slot (some waker) stored) :
    WakerAccount (woken++[waker]) discarded slot none stored := by
  refine ⟨List.Perm.trans ?_ h.places,h.ids⟩
  simp only [Option.toList_none,Option.toList_some,List.append_nil,List.append_assoc]
  apply List.Perm.append_left
  rw [← List.append_assoc discarded]
  exact List.perm_append_comm

theorem discard (h : WakerAccount woken discarded none (some waker) stored) :
    WakerAccount woken (discarded++[waker]) none none stored :=
  ⟨by simpa using h.places,h.ids⟩

end WakerAccount

/-- The waker that the sender has moved out of the slot. -/
def SenderStage.held : SenderStage T W → Option (Stored W)
  | .swap _ waker => some waker
  | .wake _ waker => some waker
  | .dropMessage (.awoken _ waker) => some waker
  | .free (.awoken _ waker) => some waker
  | .dropWaker _ waker => some waker
  | _ => none

def SenderStage.inner : SenderStage T W → Option T
  | .free (.inner message) => some message
  | _ => none

inductive Fresh : SenderStage T W → Prop
  | sender : Fresh .sender
  | writeMessage (message : T) : Fresh (.writeMessage message)

def State.message (s : State T W) : Option T := s.channel.bind Channel.message

def State.waker (s : State T W) : Option (Stored W) := s.channel.bind Channel.waker

theorem State.received_reply (s : State T W) (stage : ReceiverStage W) (reply : Reply T) :
    (s.reply stage reply).received = s.received++reply.message.toList := by
  simp only [State.reply,State.received,List.filterMap_append]
  cases reply <;> rfl

structure Ok (s : State T W) : Prop where
  agree : Agree s.channel s.ownership s.sender s.receiver
  frees : s.frees = if s.channel.isSome then 0 else 1
  messages : MessageAccount s.received s.refused s.dropped s.message s.sender.inner s.written
  fresh : Fresh s.sender → s.written = none
  wakers : WakerAccount s.woken s.discarded s.waker s.sender.held s.stored
  refusal : s.sendResult = some .err → s.receiver = .done ∧ s.received = []
  fault : s.fault = none

end Accounts

namespace Agree

variable {T W : Type} {c : Option (Channel T W)} {o : Ownership} {r : ReceiverStage W}

theorem done_of_wake {call : SenderCall} {waker : Stored W} (h : Agree c o (.wake call waker) r) :
    Agree c o .done r := by
  cases h with
  | finishing hs hr => exact .finishing .done hr
  | freed o hs => exact .freed o .done
  | _ => contradiction

theorem of_sender (h : Agree c o .sender r) {stage : SenderStage T W}
    (hstage : Unpublished stage none) : c.isSome ∧ Agree c o stage r := by
  cases h with
  | unpublished hs hr =>
    cases hs
    exact ⟨rfl,.unpublished hstage hr⟩
  | _ => contradiction

theorem of_error (h : Agree c o .error r) :
    o.message = .sender ∧ ∃ b m, c = some ⟨b,some m,none⟩ ∧
      ∀ stage, Cleaning stage (some m) → Agree c o stage r := by
  cases h with
  | cleaning b o hs =>
    cases hs with
    | error m => exact ⟨rfl,b,m,rfl,fun _ hc => .cleaning b o hc⟩
  | _ => contradiction

end Agree

namespace Ok

variable {T W : Type} {s : State T W}

/-! ### The sender's steps -/

section Sender

theorem writeMessage (h : Ok s) {message : T} (hs : s.sender = .writeMessage message) :
    ∃ t, s.senderStep = some (.ok t) ∧ Ok t := by
  obtain ⟨agree,frees,messages,fresh,wakers,refusal,fault⟩ := h
  cases s
  subst hs
  cases agree with
  | unpublished hs hr =>
    cases hs
    have hwritten := fresh (.writeMessage message)
    subst hwritten
    exact ⟨_,rfl,⟨.unpublished (.fetchAdd message) hr,frees,messages.write,by rintro ⟨⟩,wakers,
      refusal,fault⟩⟩
  | _ => contradiction

theorem fetchAdd (h : Ok s) (hs : s.sender = .fetchAdd) :
    ∃ t, s.senderStep = some (.ok t) ∧ Ok t := by
  obtain ⟨agree,frees,messages,fresh,wakers,refusal,fault⟩ := h
  cases s
  subst hs
  cases agree with
  | unpublished hs hr =>
    cases hs with
    | fetchAdd m =>
      cases hr with
      | idle hr =>
        exact ⟨_,rfl,⟨.finishing .done (hr.finishing (.message m)),frees,messages,by rintro ⟨⟩,
          wakers,by rintro ⟨⟩,fault⟩⟩
      | holding stored hr =>
        exact ⟨_,rfl,⟨.finishing .done (.holding stored hr (.message m)),frees,messages,by rintro ⟨⟩,
          wakers,by rintro ⟨⟩,fault⟩⟩
      | parked stored hr =>
        exact ⟨_,rfl,⟨.awakening (.takeForSend m stored) (.awaking (.parked hr)),frees,messages,
          by rintro ⟨⟩,wakers,refusal,fault⟩⟩
      | left =>
        exact ⟨_,rfl,⟨.cleaning _ _ (.error m),frees,messages,by rintro ⟨⟩,wakers,
          fun _ => ⟨rfl,messages.sole.1⟩,fault⟩⟩
  | _ => contradiction

theorem fetchXor (h : Ok s) (hs : s.sender = .fetchXor) :
    ∃ t, s.senderStep = some (.ok t) ∧ Ok t := by
  obtain ⟨agree,frees,messages,fresh,wakers,refusal,fault⟩ := h
  cases s
  subst hs
  cases agree with
  | unpublished hs hr =>
    cases hs
    cases hr with
    | idle hr =>
      apply Exists.intro
      constructor
      · simp only [State.senderStep,State.exchange,Byte.empty_xor]
        rfl
      · exact ⟨.finishing .done (hr.finishing (.disconnected .sender)),frees,messages,by rintro ⟨⟩,
          wakers,refusal,fault⟩
    | holding stored hr =>
      apply Exists.intro
      constructor
      · simp only [State.senderStep,State.exchange,Byte.empty_xor]
        rfl
      · exact ⟨.finishing .done (.holding stored hr (.disconnected .sender)),frees,messages,
          by rintro ⟨⟩,wakers,refusal,fault⟩
    | parked stored hr =>
      apply Exists.intro
      constructor
      · simp only [State.senderStep,State.exchange,Byte.receiving_xor]
        rfl
      · exact ⟨.awakening (.takeForDrop stored) (.awaking (.parked hr)),frees,messages,
          by rintro ⟨⟩,wakers,refusal,fault⟩
    | left =>
      apply Exists.intro
      constructor
      · simp only [State.senderStep,State.exchange,Byte.disconnected_xor]
        rfl
      · exact ⟨.cleaning Byte.empty (some .receiver) (.free .leave),frees,messages,by rintro ⟨⟩,
          wakers,refusal,fault⟩
  | _ => contradiction

variable {call : SenderCall} {cleanup : Cleanup T W} {x : Except Fault (State T W)}

theorem takeWaker (h : Ok s) (hs : s.sender = .takeWaker call) :
    ∃ t, s.senderStep = some (.ok t) ∧ Ok t := by
  obtain ⟨agree,frees,messages,fresh,wakers,refusal,fault⟩ := h
  cases s
  subst hs
  cases agree with
  | awakening hs hr =>
    cases hs with
    | takeForSend m stored =>
      exact ⟨_,rfl,⟨.awakening (.swapForSend m stored) hr,frees,messages,by rintro ⟨⟩,wakers.take,
        refusal,fault⟩⟩
    | takeForDrop stored =>
      exact ⟨_,rfl,⟨.awakening (.swapForDrop stored) hr,frees,messages,by rintro ⟨⟩,wakers.take,
        refusal,fault⟩⟩
  | _ => contradiction

theorem swap (h : Ok s) {waker : Stored W} (hs : s.sender = .swap call waker) :
    ∃ t, s.senderStep = some (.ok t) ∧ Ok t := by
  obtain ⟨agree,frees,messages,fresh,wakers,refusal,fault⟩ := h
  cases s
  subst hs
  cases agree with
  | awakening hs hr =>
    cases hs with
    | swapForSend m stored =>
      cases hr with
      | awaking hr =>
        exact ⟨_,rfl,⟨.finishing (.wake _ _) (.resting (.awaiting hr) (.message m)),frees,messages,
          by rintro ⟨⟩,wakers,refusal,fault⟩⟩
      | left =>
        exact ⟨_,rfl,⟨.cleaning _ _ (.dropMessage _ _ m),frees,messages,by rintro ⟨⟩,wakers,
          refusal,fault⟩⟩
    | swapForDrop stored =>
      cases hr with
      | awaking hr =>
        exact ⟨_,rfl,⟨.finishing (.wake _ _) (.resting (.awaiting hr) (.disconnected .sender)),frees,
          messages,by rintro ⟨⟩,wakers,refusal,fault⟩⟩
      | left =>
        exact ⟨_,rfl,⟨.cleaning _ _ (.free _),frees,messages,by rintro ⟨⟩,wakers,refusal,fault⟩⟩
  | _ => contradiction

theorem wake (h : Ok s) {waker : Stored W} (hs : s.sender = .wake call waker) :
    ∃ t, s.senderStep = some (.ok t) ∧ Ok t := by
  obtain ⟨agree,frees,messages,fresh,wakers,refusal,fault⟩ := h
  cases s
  subst hs
  have hagree := agree.done_of_wake
  cases call with
  | send => exact ⟨_,rfl,⟨hagree,frees,messages,by rintro ⟨⟩,wakers.wake,by rintro ⟨⟩,fault⟩⟩
  | drop => exact ⟨_,rfl,⟨hagree,frees,messages,by rintro ⟨⟩,wakers.wake,refusal,fault⟩⟩

theorem dropMessage (h : Ok s) (hs : s.sender = .dropMessage cleanup) :
    ∃ t, s.senderStep = some (.ok t) ∧ Ok t := by
  obtain ⟨agree,frees,messages,fresh,wakers,refusal,fault⟩ := h
  cases s
  subst hs
  cases agree with
  | cleaning b o hs =>
    cases hs with
    | dropError | dropMessage =>
      exact ⟨_,rfl,⟨.cleaning b o (.free _),frees,messages.drop,by rintro ⟨⟩,wakers,refusal,fault⟩⟩
  | _ => contradiction

theorem takeMessage (h : Ok s) (hs : s.sender = .takeMessage) :
    ∃ t, s.senderStep = some (.ok t) ∧ Ok t := by
  obtain ⟨agree,frees,messages,fresh,wakers,refusal,fault⟩ := h
  cases s
  subst hs
  cases agree with
  | cleaning b o hs =>
    cases hs
    exact ⟨_,rfl,⟨.cleaning b o (.free _),frees,messages.take,by rintro ⟨⟩,wakers,refusal,fault⟩⟩
  | _ => contradiction

theorem free (h : Ok s) (hs : s.sender = .free cleanup) : ∃ t, s.senderStep = some (.ok t) ∧ Ok t := by
  obtain ⟨agree,frees,messages,fresh,wakers,refusal,fault⟩ := h
  cases s
  subst hs
  cases agree with
  | cleaning b o hs =>
    cases hs
    have hfrees : _ = 1 := congrArg (·+1) frees
    cases cleanup with
    | leave =>
      exact ⟨_,rfl,⟨.freed _ .done,hfrees,messages,by rintro ⟨⟩,wakers,refusal,fault⟩⟩
    | inner message =>
      exact ⟨_,rfl,⟨.freed _ .done,hfrees,messages.refuse,by rintro ⟨⟩,wakers,refusal,fault⟩⟩
    | awoken call waker =>
      exact ⟨_,rfl,⟨.freed _ (.dropWaker _ _),hfrees,messages,by rintro ⟨⟩,wakers,refusal,fault⟩⟩
  | _ => contradiction

theorem dropWaker (h : Ok s) {waker : Stored W} (hs : s.sender = .dropWaker call waker) :
    ∃ t, s.senderStep = some (.ok t) ∧ Ok t := by
  obtain ⟨agree,frees,messages,fresh,wakers,refusal,fault⟩ := h
  cases s
  subst hs
  cases agree with
  | freed _ hs =>
    cases call with
    | send =>
      exact ⟨_,rfl,⟨.freed _ .done,frees,messages,by rintro ⟨⟩,wakers.discard,by rintro ⟨⟩,fault⟩⟩
    | drop =>
      exact ⟨_,rfl,⟨.freed _ .done,frees,messages,by rintro ⟨⟩,wakers.discard,refusal,fault⟩⟩
  | _ => contradiction

theorem senderStep (h : Ok s) (hx : s.senderStep = some x) : ∃ t, x = .ok t ∧ Ok t := by
  have hstep : ∃ t, s.senderStep = some (.ok t) ∧ Ok t := by
    cases hs : s.sender with
    | sender | error | done => simp [State.senderStep,hs] at hx
    | writeMessage message => exact h.writeMessage hs
    | fetchAdd => exact h.fetchAdd hs
    | fetchXor => exact h.fetchXor hs
    | takeWaker call => exact h.takeWaker hs
    | swap call waker => exact h.swap hs
    | wake call waker => exact h.wake hs
    | dropMessage cleanup => exact h.dropMessage hs
    | free cleanup => exact h.free hs
    | dropWaker call waker => exact h.dropWaker hs
    | takeMessage => exact h.takeMessage hs
  obtain ⟨t,ht,hok⟩ := hstep
  rw [ht] at hx
  exact ⟨t,(Option.some.inj hx).symm,hok⟩

theorem setSender (h : Ok s) {stage : SenderStage T W}
    (hagree : Agree s.channel s.ownership stage s.receiver) (hinner : stage.inner = s.sender.inner)
    (hheld : stage.held = s.sender.held) (hfresh : Fresh stage → Fresh s.sender) :
    Ok {s with sender := stage} := by
  obtain ⟨agree,frees,messages,fresh,wakers,refusal,fault⟩ := h
  rw [← hinner] at messages
  rw [← hheld] at wakers
  exact ⟨hagree,frees,messages,fun hf => fresh (hfresh hf),wakers,refusal,fault⟩

theorem actSender (h : Ok s) {a : SenderAction T} (hx : s.actSender a = some x) :
    ∃ t, x = .ok t ∧ Ok t := by
  have hagree := h.agree
  cases a with
  | isDisconnected =>
    simp only [State.actSender] at hx
    split at hx <;> cases hx
    rename_i hs
    rw [hs] at hagree
    obtain ⟨c,hc⟩ := Option.isSome_iff_exists.mp (hagree.of_sender .sender).1
    refine ⟨s,?_,h⟩
    simp only [State.isDisconnected,State.load,hc]
    rfl
  | send message =>
    simp only [State.actSender] at hx
    split at hx <;> cases hx
    rename_i hs
    rw [hs] at hagree
    exact ⟨_,rfl,h.setSender (hagree.of_sender (.writeMessage message)).2 (by rw [hs]; rfl)
      (by rw [hs]; rfl) fun _ => hs ▸ .sender⟩
  | drop =>
    simp only [State.actSender] at hx
    split at hx <;> cases hx
    rename_i hs
    rw [hs] at hagree
    exact ⟨_,rfl,h.setSender (hagree.of_sender .fetchXor).2 (by rw [hs]; rfl) (by rw [hs]; rfl)
      fun _ => hs ▸ .sender⟩
  | asInner =>
    simp only [State.actSender] at hx
    split at hx <;> cases hx
    rename_i hs
    rw [hs] at hagree
    obtain ⟨howner,b,m,hc,-⟩ := hagree.of_error
    refine ⟨s,?_,h⟩
    simp only [State.messageRef,hc,howner]
    rfl
  | intoInner =>
    simp only [State.actSender] at hx
    split at hx <;> cases hx
    rename_i hs
    rw [hs] at hagree
    obtain ⟨-,b,m,-,hstage⟩ := hagree.of_error
    exact ⟨_,rfl,h.setSender (hstage _ (.takeMessage m)) (by rw [hs]; rfl) (by rw [hs]; rfl)
      (by rintro ⟨⟩)⟩
  | dropError =>
    simp only [State.actSender] at hx
    split at hx <;> cases hx
    rename_i hs
    rw [hs] at hagree
    obtain ⟨-,b,m,-,hstage⟩ := hagree.of_error
    exact ⟨_,rfl,h.setSender (hstage _ (.dropError m)) (by rw [hs]; rfl) (by rw [hs]; rfl)
      (by rintro ⟨⟩)⟩
  | step => exact h.senderStep hx

end Sender

/-! ### The receiver's steps -/

section Receiver

/-- A step of the receiver, which is not done, has no refusal behind it. -/
theorem receive (h : Ok s) (hr : s.receiver ≠ .done) {t : State T W}
    (hagree : Agree t.channel t.ownership t.sender t.receiver)
    (hsame : (t.sender,t.channel.isSome,t.frees,t.written,t.sendResult,t.fault) =
      (s.sender,s.channel.isSome,s.frees,s.written,s.sendResult,s.fault))
    (hmessages : MessageAccount t.received t.refused t.dropped t.message t.sender.inner t.written)
    (hwakers : WakerAccount t.woken t.discarded t.waker t.sender.held t.stored) : Ok t := by
  simp only [Prod.mk.injEq] at hsame
  obtain ⟨hsender,halive,hfrees,hwritten,hresult,hfault⟩ := hsame
  refine ⟨hagree,?_,hmessages,?_,hwakers,?_,hfault.trans h.fault⟩
  · rw [hfrees,halive]
    exact h.frees
  · rw [hsender,hwritten]
    exact h.fresh
  · rw [hresult]
    exact fun he => absurd (h.refusal he).1 hr

/-- Starting a call of the receiver touches its stage and what is recorded of its polls. -/
theorem setReceiver (h : Ok s) {stage : ReceiverStage W}
    (hagree : Agree s.channel s.ownership s.sender stage) (hr : s.receiver ≠ .done)
    (pending : Option (W × UInt8)) (wakes : List W) :
    Ok {s with receiver := stage,pending := pending,wakes := wakes} :=
  h.receive hr hagree rfl h.messages h.wakers

theorem tryRecv (h : Ok s) (hr : s.receiver = .receiver) : ∃ t, s.tryRecv = .ok t ∧ Ok t := by
  have agree := h.agree
  cases s
  subst hr
  obtain ⟨b,m,side,w,rfl,rfl,hu,-⟩ := agree.of_receiver
  cases hu with
  | unpublished hs =>
    refine ⟨_,rfl,h.receive nofun agree rfl ?_ h.wakers⟩
    rw [State.received_reply]
    exact h.messages.unanswered
  | departed hs hf =>
    cases hf with
    | message m =>
      exact ⟨_,rfl,h.receive nofun (.finishing hs (.closing (.store .tryRecv m w))) rfl h.messages h.wakers⟩
    | disconnected side =>
      refine ⟨_,rfl,h.receive nofun agree rfl ?_ h.wakers⟩
      rw [State.received_reply]
      exact h.messages.unanswered

variable [Wake W] {mode : RecvMode} {x : Except Fault (State T W)}

section

variable (h : Ok s)
include h

theorem storeDisconnected (hr : s.receiver = .storeDisconnected mode) :
    ∃ t, s.receiverStep = some (.ok t) ∧ Ok t := by
  have agree := h.agree
  cases s
  subst hr
  obtain ⟨d,rfl,hs,hc⟩ := agree.of_ending (.store mode)
  cases hc with
  | store mode message o =>
    exact ⟨_,rfl,h.receive nofun (.finishing hs (.closing (.take mode message o))) rfl h.messages h.wakers⟩

theorem takeReceived (hr : s.receiver = .takeMessage mode) :
    ∃ t, s.receiverStep = some (.ok t) ∧ Ok t := by
  have agree := h.agree
  cases s
  subst hr
  obtain ⟨d,rfl,hs,hc⟩ := agree.of_ending (.take mode)
  cases hc with
  | take mode message o =>
    have hmessages := h.messages.receive
    cases mode with
    | tryRecv =>
      refine ⟨_,rfl,h.receive nofun (.finishing hs (.resting .receiver (.disconnected _))) rfl ?_ h.wakers⟩
      rw [State.received_reply]
      exact hmessages
    | poll =>
      refine ⟨_,rfl,h.receive nofun (.finishing hs (.closing (.completed _))) rfl ?_ h.wakers⟩
      rw [State.received_reply]
      exact hmessages

theorem dropReceiver (hr : s.receiver = .swap) : ∃ t, s.receiverStep = some (.ok t) ∧ Ok t := by
  have agree := h.agree
  cases s
  subst hr
  cases agree with
  | unpublished hs ho =>
    cases ho with
    | idle =>
      exact ⟨_,rfl,h.receive nofun (.unpublished hs .left) rfl h.messages h.wakers⟩
    | _ => contradiction
  | awakening _ ha => cases ha with | awaking ha => cases ha with | parked hp => cases hp
  | finishing hs hf =>
    cases hf with
    | resting _ hf =>
      cases hf with
      | message m =>
        exact ⟨_,rfl,h.receive nofun (.finishing hs (.closing (.dropMessage _ m _))) rfl h.messages h.wakers⟩
      | disconnected side =>
        exact ⟨_,rfl,h.receive nofun (.finishing hs (.closing (.free _ _))) rfl h.messages h.wakers⟩
    | _ => contradiction

theorem load {waker : W} (hr : s.receiver = .load waker) :
    ∃ t, s.receiverStep = some (.ok t) ∧ Ok t := by
  have agree := h.agree
  cases s
  subst hr
  cases agree with
  | unpublished hs ho =>
    cases ho with
    | idle =>
      exact ⟨_,rfl,h.receive nofun (.unpublished hs (.idle (.writeWaker waker))) rfl h.messages h.wakers⟩
    | holding _ hh => cases hh
    | parked stored =>
      exact ⟨_,rfl,h.receive nofun (.unpublished hs (.parked stored (.reclaim waker))) rfl h.messages h.wakers⟩
  | awakening hs ha =>
    cases ha with
    | awaking =>
      exact ⟨_,rfl,h.receive nofun (.awakening hs (.awaking (.wakeByRef waker))) rfl h.messages h.wakers⟩
  | finishing hs hf =>
    cases hf with
    | resting _ hf =>
      cases hf with
      | message m =>
        exact ⟨_,rfl,h.receive nofun (.finishing hs (.closing (.store .poll m _))) rfl h.messages h.wakers⟩
      | disconnected side =>
        refine ⟨_,rfl,h.receive nofun (.finishing hs (.closing (.completed _))) rfl ?_ h.wakers⟩
        rw [State.received_reply]
        exact h.messages.unanswered
    | _ => contradiction

theorem writeWaker {waker : W} (hr : s.receiver = .writeWaker waker) :
    ∃ t, s.receiverStep = some (.ok t) ∧ Ok t := by
  have agree := h.agree
  cases s
  subst hr
  obtain ⟨b,m,side,rfl,rfl,hu⟩ := agree.of_writeWaker
  exact ⟨_,rfl,h.receive nofun (hu.holding (.publish waker) _) rfl h.messages (h.wakers.store waker)⟩

theorem publish {waker : W} (hr : s.receiver = .publish waker) :
    ∃ t, s.receiverStep = some (.ok t) ∧ Ok t := by
  have agree := h.agree
  cases s
  subst hr
  obtain ⟨b,m,side,stored,rfl,rfl,hu⟩ := agree.of_holding (.publish waker)
  cases hu with
  | unpublished hs =>
    exact ⟨_,rfl,h.receive nofun (.unpublished hs (.parked stored .future)) rfl h.messages h.wakers⟩
  | departed hs hf =>
    cases hf with
    | message m =>
      exact ⟨_,rfl,h.receive nofun (.finishing hs (.closing (.racedMessage m stored))) rfl h.messages h.wakers⟩
    | disconnected side =>
      exact ⟨_,rfl,h.receive nofun (.finishing hs (.closing (.racedDisconnected side stored))) rfl h.messages h.wakers⟩

theorem dropRaced {message : Bool} (hr : s.receiver = .dropRaced message) :
    ∃ t, s.receiverStep = some (.ok t) ∧ Ok t := by
  have agree := h.agree
  cases s
  subst hr
  obtain ⟨d,rfl,hs,hc⟩ := agree.of_ending (.dropRaced message)
  cases hc with
  | racedMessage message stored =>
    exact ⟨_,rfl,h.receive nofun (.finishing hs (.closing (.store .poll message _))) rfl h.messages h.wakers.drop⟩
  | racedDisconnected side stored =>
    refine ⟨_,rfl,h.receive nofun (.finishing hs (.closing (.completed _))) rfl ?_ h.wakers.drop⟩
    rw [if_neg Bool.false_ne_true,State.received_reply]
    exact h.messages.unanswered

theorem reclaim {waker : W} (hr : s.receiver = .reclaim waker) :
    ∃ t, s.receiverStep = some (.ok t) ∧ Ok t := by
  have agree := h.agree
  cases s
  subst hr
  cases agree with
  | unpublished hs ho =>
    cases ho with
    | parked stored =>
      exact ⟨_,rfl,h.receive nofun (.unpublished hs (.holding stored (.compare waker))) rfl h.messages h.wakers⟩
    | _ => contradiction
  | awakening hs ha =>
    cases ha with
    | awaking =>
      exact ⟨_,rfl,h.receive nofun (.awakening hs (.awaking (.wakeByRef waker))) rfl h.messages h.wakers⟩
  | finishing hs hf =>
    cases hf with
    | resting _ hf =>
      cases hf with
      | message m =>
        exact ⟨_,rfl,h.receive nofun (.finishing hs (.closing (.store .poll m _))) rfl h.messages h.wakers⟩
      | disconnected side =>
        refine ⟨_,rfl,h.receive nofun (.finishing hs (.closing (.completed _))) rfl ?_ h.wakers⟩
        rw [State.received_reply]
        exact h.messages.unanswered
    | _ => contradiction

theorem compare {waker : W} (hr : s.receiver = .compare waker) :
    ∃ t, s.receiverStep = some (.ok t) ∧ Ok t := by
  have agree := h.agree
  cases s
  subst hr
  obtain ⟨b,m,side,stored,rfl,rfl,hu⟩ := agree.of_holding (.compare waker)
  refine ⟨_,rfl,h.receive nofun (hu.holding ?_ stored) rfl h.messages h.wakers⟩
  show Holding (if Wake.willWake stored.waker waker then .publish waker else .dropStale waker)
  split
  · exact .publish waker
  · exact .dropStale waker

theorem dropStale {waker : W} (hr : s.receiver = .dropStale waker) :
    ∃ t, s.receiverStep = some (.ok t) ∧ Ok t := by
  have agree := h.agree
  cases s
  subst hr
  obtain ⟨b,m,side,stored,rfl,rfl,hu⟩ := agree.of_holding (.dropStale waker)
  exact ⟨_,rfl,h.receive nofun (hu.idle (.writeWaker waker)) rfl h.messages h.wakers.drop⟩

theorem wakeByRef {waker : W} (hr : s.receiver = .wakeByRef waker) :
    ∃ t, s.receiverStep = some (.ok t) ∧ Ok t := by
  have agree := h.agree
  cases s
  subst hr
  cases agree with
  | unpublished _ ho =>
    cases ho with
    | _ => contradiction
  | awakening hs ha =>
    cases ha with
    | awaking =>
      exact ⟨_,rfl,h.receive nofun (.awakening hs (.awaking (.parked .future))) rfl h.messages h.wakers⟩
  | finishing hs hf =>
    cases hf with
    | resting _ hf =>
      exact ⟨_,rfl,h.receive nofun (.finishing hs (.resting (.awaiting (.parked .future)) hf)) rfl h.messages h.wakers⟩
    | _ => contradiction

theorem dropLoad (hr : s.receiver = .dropLoad) : ∃ t, s.receiverStep = some (.ok t) ∧ Ok t := by
  have agree := h.agree
  cases s
  subst hr
  cases agree with
  | unpublished hs ho =>
    cases ho with
    | idle =>
      exact ⟨_,rfl,h.receive nofun (.unpublished hs (.idle .dropExchange)) rfl h.messages h.wakers⟩
    | holding _ hh => cases hh
    | parked stored =>
      exact ⟨_,rfl,h.receive nofun (.unpublished hs (.parked stored .dropExchange)) rfl h.messages h.wakers⟩
  | awakening hs ha =>
    cases ha with
    | awaking =>
      exact ⟨_,rfl,h.receive nofun (.awakening hs (.awaking .dropExchange)) rfl h.messages h.wakers⟩
  | finishing hs hf =>
    cases hf with
    | resting _ hf =>
      cases hf with
      | message m =>
        exact ⟨_,rfl,h.receive nofun (.finishing hs (.closing (.dropMessage _ m _))) rfl h.messages h.wakers⟩
      | disconnected side =>
        exact ⟨_,rfl,h.receive nofun (.finishing hs (.closing (.free _ _))) rfl h.messages h.wakers⟩
    | _ => contradiction

end

theorem dropExchange (h : Ok s) {expected : UInt8} (hr : s.receiver = .dropExchange expected) :
    ∃ t, s.receiverStep = some (.ok t) ∧ Ok t := by
  have agree := h.agree
  cases s
  subst hr
  cases agree with
  | unpublished hs ho =>
    cases ho with
    | idle hi =>
      cases hi
      exact ⟨_,rfl,h.receive nofun (.unpublished hs .left) rfl h.messages h.wakers⟩
    | holding _ hh => cases hh
    | parked stored hp =>
      cases hp
      exact ⟨_,rfl,h.receive nofun (.unpublished hs (.holding stored .dropWaker)) rfl h.messages h.wakers⟩
  | awakening hs ha =>
    cases ha with
    | awaking ha =>
      cases ha with
      | parked hp =>
        cases hp
        exact ⟨_,rfl,h.receive nofun (.awakening hs (.awaking (.parked .dropLoad))) rfl h.messages h.wakers⟩
      | dropExchange =>
        exact ⟨_,rfl,h.receive nofun (.awakening hs .left) rfl h.messages h.wakers⟩
  | finishing hs hf =>
    cases hf with
    | resting hrest hf =>
      refine ⟨_,congrArg some (State.dropExchange_of_ne rfl (hrest.ne_expected hf)),?_⟩
      exact h.receive nofun (.finishing hs (.resting (.awaiting (.parked .dropLoad)) hf)) rfl h.messages h.wakers
    | _ => contradiction

theorem dropParked (h : Ok s) (hr : s.receiver = .dropWaker) :
    ∃ t, s.receiverStep = some (.ok t) ∧ Ok t := by
  have agree := h.agree
  cases s
  subst hr
  obtain ⟨b,m,side,stored,rfl,rfl,hu⟩ := agree.of_holding .dropWaker
  exact ⟨_,rfl,h.receive nofun (hu.idle .dropLoad) rfl h.messages h.wakers.drop⟩

theorem dropUnread (h : Ok s) (hr : s.receiver = .dropMessage) :
    ∃ t, s.receiverStep = some (.ok t) ∧ Ok t := by
  have agree := h.agree
  cases s
  subst hr
  obtain ⟨d,rfl,hs,hc⟩ := agree.of_ending .dropMessage
  cases hc with
  | dropMessage b message o =>
    exact ⟨_,rfl,h.receive nofun (.finishing hs (.closing (.free _ _))) rfl h.messages.drop h.wakers⟩

theorem freeReceiver (h : Ok s) (hr : s.receiver = .free) :
    ∃ t, s.receiverStep = some (.ok t) ∧ Ok t := by
  have agree := h.agree
  cases s
  subst hr
  obtain ⟨d,rfl,hs,hc⟩ := agree.of_ending .free
  have hfrees : _ = 1 := congrArg (·+1) h.frees
  cases hc with
  | free b o =>
    exact ⟨_,rfl,⟨.freed _ hs.gone,hfrees,h.messages,h.fresh,h.wakers,
      fun he => absurd (h.refusal he).1 nofun,h.fault⟩⟩

theorem receiverStep (h : Ok s) (hx : s.receiverStep = some x) : ∃ t, x = .ok t ∧ Ok t := by
  have hstep : ∃ t, s.receiverStep = some (.ok t) ∧ Ok t := by
    cases hr : s.receiver with
    | receiver | future | completed | done => simp [State.receiverStep,hr] at hx
    | storeDisconnected mode => exact h.storeDisconnected hr
    | takeMessage mode => exact h.takeReceived hr
    | swap => exact h.dropReceiver hr
    | load waker => exact h.load hr
    | writeWaker waker => exact h.writeWaker hr
    | publish waker => exact h.publish hr
    | dropRaced message => exact h.dropRaced hr
    | reclaim waker => exact h.reclaim hr
    | compare waker => exact h.compare hr
    | dropStale waker => exact h.dropStale hr
    | wakeByRef waker => exact h.wakeByRef hr
    | dropLoad => exact h.dropLoad hr
    | dropExchange expected => exact h.dropExchange hr
    | dropWaker => exact h.dropParked hr
    | dropMessage => exact h.dropUnread hr
    | free => exact h.freeReceiver hr
  obtain ⟨t,ht,hok⟩ := hstep
  rw [ht] at hx
  exact ⟨t,(Option.some.inj hx).symm,hok⟩

theorem actReceiver (h : Ok s) {a : ReceiverAction W} (hx : s.actReceiver a = some x) :
    ∃ t, x = .ok t ∧ Ok t := by
  have hagree := h.agree
  cases a with
  | isDisconnected =>
    simp only [State.actReceiver] at hx
    split at hx <;> cases hx
    rename_i hr
    rw [hr] at hagree
    obtain ⟨_,_,_,_,hc,-⟩ := hagree.of_receiver
    refine ⟨s,?_,h⟩
    simp only [State.isDisconnected,State.load,hc]
    rfl
  | hasMessage =>
    simp only [State.actReceiver] at hx
    split at hx <;> cases hx
    rename_i hr
    rw [hr] at hagree
    obtain ⟨_,_,_,_,hc,-⟩ := hagree.of_receiver
    refine ⟨s,?_,h⟩
    simp only [State.hasMessage,State.load,hc]
    rfl
  | tryRecv =>
    simp only [State.actReceiver] at hx
    split at hx <;> cases hx
    rename_i hr
    exact h.tryRecv hr
  | intoFuture =>
    simp only [State.actReceiver] at hx
    split at hx <;> cases hx
    rename_i hr
    rw [hr] at hagree
    obtain ⟨_,_,_,_,-,-,-,hstage⟩ := hagree.of_receiver
    exact ⟨_,rfl,h.setReceiver (hstage _ .future (.awaiting (.parked .future))) (by simp [hr]) _ _⟩
  | poll waker =>
    simp only [State.actReceiver] at hx
    split at hx <;> cases hx
    rename_i hr
    rw [hr] at hagree
    exact ⟨_,rfl,h.setReceiver (hagree.of_future (.load waker) (.load waker)) (by simp [hr]) _ _⟩
  | drop =>
    simp only [State.actReceiver] at hx
    split at hx <;> cases hx <;> rename_i hr <;> rw [hr] at hagree
    · obtain ⟨_,_,_,_,-,-,-,hstage⟩ := hagree.of_receiver
      exact ⟨_,rfl,h.setReceiver (hstage _ .swap .swap) (by simp [hr]) _ _⟩
    · exact ⟨_,rfl,h.setReceiver (hagree.of_future .dropLoad .dropLoad) (by simp [hr]) _ _⟩
    · exact ⟨_,rfl,h.setReceiver hagree.of_completed (by simp [hr]) _ _⟩
  | step => exact h.receiverStep hx

end Receiver

section Runs

variable [Wake W] {a : Action T W}

theorem channel_ok (T W : Type) : Ok (channel T W) :=
  ⟨.unpublished .sender (.idle .receiver),rfl,⟨rfl⟩,fun _ => rfl,⟨.refl _,rfl⟩,by rintro ⟨⟩,rfl⟩

theorem act (h : Ok s) {x : Except Fault (State T W)} (hx : s.act a = some x) :
    ∃ t, x = .ok t ∧ Ok t := by
  cases a with
  | sender action => exact h.actSender hx
  | receiver action => exact h.actReceiver hx

theorem next (h : Ok s) {t : State T W} (hn : s.next a = some t) : Ok t :=
  (Transition.step_ok (fun _ => h.act) hn).2

end Runs
end Ok

theorem reachable_ok {T W : Type} [Wake W] {s : State T W} (h : (machine T W).Reachable s) : Ok s :=
  (machine T W).invariant Ok (fun _ hs => hs ▸ Ok.channel_ok T W) (fun _ _ _ hs hn => hs.next hn) h

/-- What holds in every state of every interleaving. -/
structure Sound {T W : Type} [Wake W] (s : State T W) : Prop where
  /-- No access to a freed allocation, to an empty or foreign slot, no `unreachable!` and
  no failed `debug_assert!` so far, -/
  fault : s.fault = none
  /-- and none in the next step of either side. -/
  step : ∀ a x, s.act a = some x → ∃ t, x = .ok t
  frees : s.frees = if s.channel.isSome then 0 else 1
  messages : s.received++(s.refused++(s.dropped++(s.message.toList++s.sender.inner.toList))) =
    s.written.toList
  wakers : (s.woken++(s.discarded++(s.waker.toList++s.sender.held.toList))).Perm s.stored
  nodup : s.stored.Nodup
  /-- `send` fails exactly when the receiver is gone at its `fetch_add`. -/
  refuses : s.sender = .fetchAdd → ∀ t, s.next (.sender .step) = some t →
    (t.sendResult = some .err ↔ s.receiver = .done)
  refused : s.sendResult = some .err → s.receiver = .done ∧ s.received = []
  complete : s.Complete → s.channel = none ∧ s.frees = 1 ∧
    s.received++(s.refused++s.dropped) = s.written.toList ∧ (s.woken++s.discarded).Perm s.stored

namespace Ok

variable {T W : Type} {s : State T W}

theorem refuses_iff [Wake W] (h : Ok s) (hs : s.sender = .fetchAdd) {t : State T W}
    (ht : s.next (.sender .step) = some t) : t.sendResult = some .err ↔ s.receiver = .done := by
  obtain ⟨agree,frees,messages,fresh,wakers,refusal,fault⟩ := h
  cases s
  subst hs
  subst fault
  cases agree with
  | unpublished hs hr =>
    cases hs with
    | fetchAdd m =>
      cases hr with
      | idle hr | holding _ hr =>
        obtain rfl := Option.some.inj ht
        exact iff_of_false (by rintro ⟨⟩) (by rintro ⟨⟩; cases hr)
      | parked stored hr =>
        obtain rfl := Option.some.inj ht
        have hlive : ∀ r : ReceiverStage W, Parked r → r ≠ .done := by
          rintro r hp rfl
          cases hp
        exact iff_of_false (fun he => hlive _ hr (refusal he).1) (hlive _ hr)
      | left =>
        obtain rfl := Option.some.inj ht
        exact iff_of_true rfl rfl
  | _ => contradiction

theorem complete (h : Ok s) (hc : s.Complete) : s.channel = none ∧ s.frees = 1 ∧
    s.received++(s.refused++s.dropped) = s.written.toList ∧
      (s.woken++s.discarded).Perm s.stored := by
  obtain ⟨hs,hr⟩ := hc
  have hchannel : s.channel = none := by
    have hagree := h.agree
    rw [hs,hr] at hagree
    generalize s.channel = c at hagree
    generalize s.ownership = o at hagree
    cases hagree with
    | finishing _ hf =>
      cases hf with
      | resting hrest => cases hrest with | awaiting ha => cases ha with | parked hp => cases hp
      | _ => contradiction
    | freed => rfl
    | _ => contradiction
  have hmessage : s.message = none := by rw [State.message,hchannel]; rfl
  have hwaker : s.waker = none := by rw [State.waker,hchannel]; rfl
  have hfrees := h.frees
  have hmessages := h.messages.places
  have hwakers := h.wakers.places
  simp only [hchannel,hmessage,hwaker,hs] at hfrees hmessages hwakers
  exact ⟨hchannel,hfrees,by simpa [SenderStage.inner] using hmessages,
    by simpa [SenderStage.held] using hwakers⟩

end Ok

theorem ownership_protocol {T W : Type} [Wake W] {s : State T W} (h : (machine T W).Reachable s) :
    Sound s := by
  have hok := reachable_ok h
  refine ⟨hok.fault,?_,hok.frees,hok.messages.places,hok.wakers.places,?_,?_,hok.refusal,hok.complete⟩
  · intro a x hx
    obtain ⟨t,rfl,-⟩ := hok.act hx
    exact ⟨t,rfl⟩
  · apply List.Nodup.of_map Stored.id
    rw [hok.wakers.ids]
    exact List.nodup_range
  · intro hs t ht
    exact hok.refuses_iff hs ht

/-- The receiver parks, the sender claims its waker, and the receiver is dropped before
the message is published: the sender is left with everything. -/
def cancelRun : List (Action ℕ ℕ) :=
  [.receiver .intoFuture,.receiver (.poll 7),.receiver .step,.receiver .step,.receiver .step,
   .sender (.send 42),.sender .step,.sender .step,
   .receiver .drop,.receiver .step,.receiver .step,
   .sender .step,.sender .step,.sender .step,.sender .step,.sender .step]

theorem ownership_protocol_cancelRun :
    ∃ s, (machine ℕ ℕ).exec (channel ℕ ℕ) cancelRun = some s ∧ s.Complete ∧ s.dropped = [42] ∧
      s.discarded = [⟨0,7⟩] ∧ s.frees = 1 ∧ s.sendResult = some .ok ∧ Sound s := by
  refine ⟨_,rfl,⟨rfl,rfl⟩,rfl,rfl,rfl,rfl,?_⟩
  have hreach : (machine ℕ ℕ).Reachable _ :=
    ⟨channel ℕ ℕ,cancelRun,rfl,fun _ _ => trivial,rfl⟩
  exact ownership_protocol hreach

end Oneshot
end Asyncband
