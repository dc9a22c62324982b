import Asyncband.Checked
import Asyncband.Transition
import Asyncband.WakerSet

/-! The phaser as a transition system.
One step is one critical section of the state lock. Participants, the iterators over
registered batches and the wait futures are rows of tables, so that calls of any number
of tasks are interleaved. A participant is borrowed mutably by its own wait: while that
future is alive the participant does not arrive, withdraw or start another wait. -/
namespace Asyncband
namespace Phaser

def phaseCount : ℕ := 2^64

inductive Completion
  | ok (phase : ℕ)
  | closed
  deriving DecidableEq

structure PhaserParticipant where
  pending : Option ℕ
  registered : Bool
  deriving DecidableEq

/-- The iterator over a batch. A dropped one has nothing remaining. -/
structure PhaserParticipants where
  remaining : ℕ
  deriving DecidableEq

inductive WaitStage
  /-- `PhaserParticipant::wait` before it looks at the pending observation. -/
  | unpolled
  | waiting (observed : ℕ) (token : Option SlotId)
  /-- Ghost: `observed` is what the wait looked out for; there is none when its arrival
  failed. -/
  | done (observed : Option ℕ) (completion : Completion)
  | cancelled
  deriving DecidableEq

structure WaitCall (W : Type) where
  owner : Option ℕ
  stage : WaitStage
  /-- Ghost: the waker of the latest poll that returned pending. -/
  lastWaker : Option W

namespace WaitCall

variable {W : Type}

def isLive (c : WaitCall W) : Bool :=
  match c.stage with
  | .unpolled => true
  | .waiting _ _ => true
  | _ => false

end WaitCall

structure State (W : Type) where
  phase : ℕ
  closed : Bool
  registered : ℕ
  unarrived : ℕ
  waiters : WakerSet W
  participants : List PhaserParticipant
  iterators : List PhaserParticipants
  waits : List (WaitCall W)
  /-- Ghost: how often the phase advanced. -/
  advances : ℕ
  /-- Ghost: the counted arrivals, with the participant and the phase. -/
  arrivals : List (ℕ × ℕ)
  /-- Ghost: the wakers that were handed out to be woken. -/
  woken : List W
  panicked : Option String

def new (W : Type) : State W :=
  ⟨0,false,0,0,.new,[],[],[],0,[],[],none⟩

inductive RegisterError
  | closed
  | panicked (message : String)
  deriving DecidableEq

namespace State

variable {W : Type}

def setParticipant (s : State W) (p : ℕ) (q : PhaserParticipant) : State W :=
  {s with participants := s.participants.set p q}

def setWait (s : State W) (w : ℕ) (c : WaitCall W) : State W :=
  {s with waits := s.waits.set w c}

/-- The wakers that it returns are woken once the lock is released. -/
def advanceIfReady (s : State W) : State W :=
  if s.closed ∨ s.unarrived ≠ 0 then s
  else
    {s with phase := (s.phase+1)%phaseCount,unarrived := s.registered,waiters := s.waiters.takeAll.2,
            advances := s.advances+1,woken := s.woken++s.waiters.takeAll.1}

def completion (s : State W) (observed : ℕ) : Option Completion :=
  if s.phase ≠ observed then some (.ok s.phase)
  else if s.closed then some .closed
  else none

def close (s : State W) : State W :=
  if s.closed then s
  else {s with closed := true,waiters := .new,woken := s.woken++s.waiters.wakeAll}

/-- The state is the one left behind, also by a panic. -/
def doRegister (s : State W) (parties : ℕ) : Except RegisterError Unit × State W :=
  if s.closed then (.error .closed,s)
  else if usizeMax < s.registered+parties then
    (.error (.panicked "Phaser registered-party count overflow"),s)
  else
    let s := {s with registered := s.registered+parties}
    match Checked.add usizeMax s.unarrived parties with
    | .error message => (.error (.panicked message),s)
    | .ok unarrived => (.ok (),{s with unarrived := unarrived})

def registerOne (s : State W) : Except RegisterError Unit × State W :=
  match s.doRegister 1 with
  | (.ok _,s) => (.ok (),{s with participants := s.participants++[⟨none,true⟩]})
  | (.error e,s) => (.error e,s)

def register (s : State W) (parties : ℕ) : Except RegisterError Unit × State W :=
  match s.doRegister parties with
  | (.ok _,s) => (.ok (),{s with iterators := s.iterators++[⟨parties⟩]})
  | (.error e,s) => (.error e,s)

def yield (s : State W) (i : ℕ) (b : PhaserParticipants) : State W :=
  if b.remaining = 0 then s
  else {s with iterators := s.iterators.set i ⟨b.remaining-1⟩,
               participants := s.participants++[⟨none,true⟩]}

def dropParticipants (s : State W) (i : ℕ) (b : PhaserParticipants) : Except String (State W) :=
  if b.remaining = 0 then .ok s
  else do
    let registered ← Checked.sub s.registered b.remaining
    let unarrived ← Checked.sub s.unarrived b.remaining
    .ok {s with registered := registered,unarrived := unarrived,
                iterators := s.iterators.set i ⟨0⟩}.advanceIfReady

def outstanding (s : State W) (q : PhaserParticipant) : Bool := q.pending != some s.phase

def discharge (s : State W) (q : PhaserParticipant) : Except String ℕ :=
  if s.outstanding q then Checked.sub s.unarrived 1 else .ok s.unarrived

def arrive (s : State W) (p : ℕ) (q : PhaserParticipant) : Except String (Completion × State W) :=
  if s.closed then .ok (.closed,s)
  else do
    let unarrived ← s.discharge q
    .ok (.ok s.phase,
      {s with unarrived := unarrived,
              participants := s.participants.set p {q with pending := some s.phase},
              arrivals := if s.outstanding q then s.arrivals++[(p,s.phase)]
                          else s.arrivals}.advanceIfReady)

def doDeregister (s : State W) (p : ℕ) (q : PhaserParticipant) :
    Except String (Completion × State W) := do
  let registered ← Checked.sub s.registered 1
  let unarrived ← s.discharge q
  .ok (if s.closed then .closed else .ok s.phase,
    {s with registered := registered,unarrived := unarrived,
            participants := s.participants.set p {q with registered := false}}.advanceIfReady)

/-- `PhaserParticipant::wait` up to its `PhaserWait`, which is polled in a critical
section of its own. -/
def startWait (s : State W) (w : ℕ) (c : WaitCall W) (p : ℕ) (q : PhaserParticipant) :
    Except String (State W) :=
  match q.pending with
  | some phase => .ok (s.setWait w {c with stage := .waiting phase none})
  | none => do
    match ← s.arrive p q with
    | (.ok phase,s) => .ok (s.setWait w {c with stage := .waiting phase none})
    | (.closed,s) => .ok (s.setWait w {c with stage := .done none .closed})

/-- What `PhaserParticipant::wait` does with the completion of its `PhaserWait`. -/
def consume (s : State W) (owner : Option ℕ) (result : Completion) : State W :=
  match owner,result with
  | some p,.ok _ =>
    match s.participants[p]? with
    | some q => s.setParticipant p {q with pending := none}
    | none => s
  | _,_ => s

/-- `PhaserWait::poll`, with what follows its completion. -/
def pollWait [Wake W] (s : State W) (w : ℕ) (c : WaitCall W) (observed : ℕ)
    (token : Option SlotId) (waker : W) : Except String (State W) :=
  match s.completion observed with
  | some result =>
    .ok ((s.setWait w {c with stage := .done (some observed) result}).consume c.owner result)
  | none => do
    let (id,waiters) ← s.waiters.register token waker
    .ok {s.setWait w ⟨c.owner,.waiting observed (some id),some waker⟩ with waiters := waiters}

def dropWait (s : State W) (w : ℕ) (c : WaitCall W) (observed : ℕ) (token : Option SlotId) :
    Except String (State W) :=
  let s := s.setWait w {c with stage := .cancelled}
  if token.isNone then .ok s
  else if (s.completion observed).isSome then .ok s
  else do
    let waiters ← s.waiters.unregister token
    .ok {s with waiters := waiters}

def isFree (s : State W) (p : ℕ) : Bool := s.waits.all fun c => !(c.isLive && c.owner == some p)

end State

inductive Action (W : Type)
  | registerOne
  | register (parties : ℕ)
  | yield (i : ℕ)
  | dropParticipants (i : ℕ)
  | arrive (p : ℕ)
  | deregister (p : ℕ)
  | drop (p : ℕ)
  | wait (p : ℕ)
  | observe (observed : ℕ)
  | poll (w : ℕ) (waker : W)
  | cancel (w : ℕ)
  | close

section Steps

variable {W : Type}

namespace State

def idle (s : State W) (p : ℕ) : Option PhaserParticipant :=
  s.participants[p]?.filter fun q => q.registered && s.isFree p

def act [Wake W] (s : State W) : Action W → Option (Except String (State W))
  | .registerOne => some (.ok s.registerOne.2)
  | .register parties => some (.ok (s.register parties).2)
  | .yield i => s.iterators[i]?.map fun b => .ok (s.yield i b)
  | .dropParticipants i => s.iterators[i]?.map fun b => s.dropParticipants i b
  | .arrive p => (s.idle p).map fun q => (s.arrive p q).map Prod.snd
  | .deregister p => (s.idle p).map fun q => (s.doDeregister p q).map Prod.snd
  | .drop p => (s.idle p).map fun q => (s.doDeregister p q).map Prod.snd
  | .wait p => (s.idle p).map fun _ => .ok {s with waits := s.waits++[⟨some p,.unpolled,none⟩]}
  | .observe observed =>
    if observed ≤ s.advances ∧ observed < phaseCount then
      some (.ok {s with waits := s.waits++[⟨none,.waiting observed none,none⟩]})
    else none
  | .poll w waker =>
    s.waits[w]?.bind fun c =>
      match c.stage with
      | .unpolled => c.owner.bind fun p => s.participants[p]?.map fun q => s.startWait w c p q
      | .waiting observed token => some (s.pollWait w c observed token waker)
      | _ => none
  | .cancel w =>
    s.waits[w]?.bind fun c =>
      match c.stage with
      | .unpolled => some (.ok (s.setWait w {c with stage := .cancelled}))
      | .waiting observed token => some (s.dropWait w c observed token)
      | _ => none
  | .close => some (.ok s.close)

instance : Transition.Faulty (State W) String :=
  ⟨panicked,fun s message => {s with panicked := some message}⟩

abbrev next [Wake W] (s : State W) (a : Action W) : Option (State W) := Transition.step act s a

end State

def machine (W : Type) [Wake W] : Transition.Machine (State W) (Action W) where
  init := fun s => s = new W
  next := State.next

end Steps
end Phaser
end Asyncband
