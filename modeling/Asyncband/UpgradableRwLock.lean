import Asyncband.SemaphoreClient

/-! The upgradable readers-writer lock.
A party is one `async` call or `try_` call together with the guard that it returns. It
takes the reservation and the data permits in sequence, from two semaphores with
their own queues, and its tokens release them in the order in which the code
drops them. -/
namespace Asyncband
namespace UpgradableRwLock

/-- `reservation` has one permit and `inner.s` has `max_readers` permits. -/
inductive Which
  | reservation | data
  deriving DecidableEq

inductive Mode
  | read | write | upgradable
  deriving DecidableEq

inductive Kind
  | write | upgradable
  deriving DecidableEq

inductive Purpose
  | read
  | reserve (kind : Kind)
  | access (kind : Kind)
  | upgrade
  deriving DecidableEq

inductive Stage
  | waiting (purpose : Purpose) (future : ℕ)
  | trying (purpose : Purpose)
  | guard (mode : Mode)
  | cancelling (purpose : Purpose) (future : ℕ)
  /-- Tokens still to be dropped, the access token with its permits first, before the
  guard is returned. -/
  | releasing (access : Option ℕ) (reservation : Bool) (result : Option Mode)
  | done
  deriving DecidableEq

structure Party (W : Type) where
  stage : Stage
  call : Option (Which × ℕ)
  waker : Option W

structure State (V W : Type) where
  maxReaders : ℕ
  sem : Which → Semaphore.State W
  parties : List (Party W)
  value : V

def permits (maxReaders : ℕ) : Which → ℕ
  | .reservation => 1
  | .data => maxReaders

def withMaxReaders {V : Type} (W : Type) (value : V) (maxReaders : ℕ) : State V W :=
  ⟨maxReaders,fun which => Semaphore.new W (permits maxReaders which),[],value⟩

inductive Use (V W : Type)
  | poll (waker : W)
  | cancel
  | drop
  | upgrade
  | tryUpgrade
  | downgrade
  | store (value : V)

inductive Action (V W : Type)
  | request (mode : Mode)
  | tryLock (mode : Mode)
  | use (p : ℕ) (use : Use V W)
  | step (p : ℕ)
  | advance (p : ℕ) (spurious : Bool)

variable {V W : Type}

def Kind.permits (maxReaders : ℕ) : Kind → ℕ
  | .write => maxReaders
  | .upgradable => 1

def Mode.first : Mode → Purpose
  | .read => .read
  | .write => .reserve .write
  | .upgradable => .reserve .upgradable

namespace Purpose

def which : Purpose → Which
  | .reserve _ => .reservation
  | _ => .data

def permits (maxReaders : ℕ) : Purpose → ℕ
  | .read | .reserve _ => 1
  | .access kind => kind.permits maxReaders
  | .upgrade => maxReaders-1

/-- The code after the permits were acquired. `into_write` and `write` make the write
guard and then drop the reservation. -/
def granted : Purpose → Stage
  | .read => .guard .read
  | .reserve kind => .trying (.access kind)
  | .access .upgradable => .guard .upgradable
  | .access .write | .upgrade => .releasing none true (some .write)

def refused : Purpose → Stage
  | .read | .reserve _ => .done
  | .access _ => .releasing none true none
  | .upgrade => .guard .upgradable

/-- What is dropped after the acquire future: the reservation token, and for an upgrade
first the access token of the consumed guard. -/
def cancelled : Purpose → Stage
  | .read | .reserve _ => .done
  | .access _ => .releasing none true none
  | .upgrade => .releasing (some 1) true none

end Purpose

/-- The code after a call that brought no permits. -/
def Stage.ended : Stage → Stage
  | .trying purpose => purpose.refused
  | .cancelling purpose _ => purpose.cancelled
  | stage => stage

namespace State

def setSem (s : State V W) (which : Which) (sem : Semaphore.State W) : State V W :=
  {s with sem := Function.update s.sem which sem}

def setParty (s : State V W) (p : ℕ) (party : Party W) : State V W :=
  {s with parties := s.parties.set p party}

end State

def start [Wake W] (s : State V W) (p : ℕ) (stage : Stage) (waker : Option W) (which : Which)
    (op : Semaphore.Op W) : Option (State V W) :=
  (Semaphore.next (s.sem which) (.call op)).map fun sem =>
    (s.setSem which sem).setParty p ⟨stage,some (which,(s.sem which).calls.length),waker⟩

def acquire [Wake W] (s : State V W) (p : ℕ) (purpose : Purpose) (waker : Option W) :
    Option (State V W) :=
  (Semaphore.next (s.sem purpose.which) (.acquire (purpose.permits s.maxReaders))).map fun sem =>
    (s.setSem purpose.which sem).setParty p
      ⟨.waiting purpose (s.sem purpose.which).acquires.length,none,waker⟩

def resume [Wake W] (s : State V W) (p : ℕ) (party : Party W) :
    Semaphore.Outcome → Option (State V W)
  | .acquired =>
    match party.stage with
    -- the same poll goes on to the data permits
    | .waiting (.reserve kind) _ => acquire s p (.access kind) party.waker
    | .waiting purpose _ | .trying purpose => some (s.setParty p ⟨purpose.granted,none,none⟩)
    | stage => some (s.setParty p ⟨stage,none,none⟩)
  | _ => some (s.setParty p ⟨party.stage.ended,none,none⟩)

def advance [Wake W] (s : State V W) (p : ℕ) (party : Party W) (which : Which) (c : ℕ)
    (spurious : Bool) : Option (State V W) :=
  (Semaphore.advance (s.sem which) c spurious).bind fun (sem : Semaphore.State W) =>
    match sem.calls[c]? with
    | some (.finished outcome) => resume (s.setSem which sem) p party outcome
    | _ => some (s.setSem which sem)

/-- The next semaphore call of a party inside a poll or a `fn`. -/
def step [Wake W] (s : State V W) (p : ℕ) : Stage → Option W → Option (State V W)
  | .waiting purpose f, some waker =>
    start s p (.waiting purpose f) (some waker) purpose.which (.poll f waker)
  | .trying purpose, _ =>
    start s p (.trying purpose) none purpose.which (.tryAcquire (purpose.permits s.maxReaders))
  | .releasing (some n) reservation result, _ =>
    start s p (.releasing none reservation result) none .data (.release n)
  | .releasing none true result, _ =>
    start s p (.releasing none false result) none .reservation (.release 1)
  | .releasing none false (some mode), _ => some (s.setParty p ⟨.guard mode,none,none⟩)
  | .releasing none false none, _ => some (s.setParty p ⟨.done,none,none⟩)
  | _, _ => none

def act [Wake W] (s : State V W) (p : ℕ) : Stage → Use V W → Option (State V W)
  | .waiting purpose f, .poll waker =>
    start s p (.waiting purpose f) (some waker) purpose.which (.poll f waker)
  | .waiting purpose f, .cancel =>
    start s p (.cancelling purpose f) none purpose.which (.drop f)
  | .guard .read, .drop => some (s.setParty p ⟨.releasing (some 1) false none,none,none⟩)
  | .guard .write, .drop =>
    some (s.setParty p ⟨.releasing (some s.maxReaders) false none,none,none⟩)
  | .guard .upgradable, .drop => some (s.setParty p ⟨.releasing (some 1) true none,none,none⟩)
  | .guard .write, .downgrade =>
    some (s.setParty p ⟨.releasing (some (s.maxReaders-1)) false (some .read),none,none⟩)
  | .guard .upgradable, .downgrade =>
    some (s.setParty p ⟨.releasing none true (some .read),none,none⟩)
  | .guard .upgradable, .upgrade => acquire s p .upgrade none
  | .guard .upgradable, .tryUpgrade => some (s.setParty p ⟨.trying .upgrade,none,none⟩)
  | .guard .write, .store value => some {s with value := value}
  | _, _ => none

def next [Wake W] (s : State V W) : Action V W → Option (State V W)
  | .request mode =>
    acquire {s with parties := s.parties++[⟨.done,none,none⟩]} s.parties.length mode.first none
  | .tryLock mode => some {s with parties := s.parties++[⟨.trying mode.first,none,none⟩]}
  | .use p use =>
    match s.parties[p]? with
    | some ⟨stage,none,none⟩ => act s p stage use
    | _ => none
  | .step p =>
    match s.parties[p]? with
    | some ⟨stage,none,waker⟩ => step s p stage waker
    | _ => none
  | .advance p spurious =>
    match s.parties[p]? with
    | some ⟨stage,some (which,c),waker⟩ => advance s p ⟨stage,some (which,c),waker⟩ which c spurious
    | _ => none

def machine (V W : Type) [Wake W] : Transition.Machine (State V W) (Action V W) where
  init s := ∃ value maxReaders, 1 ≤ maxReaders ∧ maxReaders ≤ usizeMax ∧
    s = withMaxReaders W value maxReaders
  next := next

end UpgradableRwLock
end Asyncband
