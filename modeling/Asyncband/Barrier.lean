import Asyncband.Checked
import Asyncband.Semaphore
import Asyncband.Transition
import Asyncband.WakerSet

/-! The barrier as a transition system.
One step is one critical section of the barrier's lock. The first poll of a `wait` call
arrives in one of them, and unless it completes the generation it polls its `BarrierWait`
in another one; anything may happen in between. -/
namespace Asyncband
namespace Barrier

def u32Max : ℕ := 2^32-1

inductive Stage
  | unpolled
  /-- The first poll has arrived and has not polled its `BarrierWait` yet. -/
  | entering (generation : ℕ)
  | waiting (token : SlotId) (generation : ℕ)
  | done (leader : Bool)
  | cancelled
  deriving DecidableEq

structure Wait (W : Type) where
  stage : Stage
  /-- Ghost: the place of the call in the order of all arrivals. -/
  arrival : Option ℕ
  /-- Ghost: the waker of the latest poll that returned pending. -/
  lastWaker : Option W

/-- The token of a call as far as it belongs to the generation. -/
def Wait.token {W : Type} (generation : ℕ) (c : Wait W) : Option SlotId :=
  match c.stage with
  | .waiting token g => if g = generation then some token else none
  | _ => none

structure State (W : Type) where
  n : ℕ
  arrived : ℕ
  generation : ℕ
  waiters : WakerSet W
  waits : List (Wait W)
  /-- Ghost: how many calls have arrived. -/
  arrivals : ℕ
  /-- Ghost: the wakers that were handed out to be woken. -/
  woken : List W
  panicked : Option String

def new (W : Type) (n : ℕ) : State W :=
  ⟨if n > 0 then n else 1,0,0,.new,[],0,[],none⟩

namespace State

variable {W : Type}

def setWait (s : State W) (f : ℕ) (c : Wait W) : State W := {s with waits := s.waits.set f c}

def arrive (s : State W) (f : ℕ) (c : Wait W) : Except String (State W) := do
  let arrived ← Checked.add u32Max s.arrived 1
  let s := {s with arrivals := s.arrivals+1}
  let c := {c with arrival := some (s.arrivals-1)}
  if arrived = s.n then do
    let generation ← Checked.add usizeMax s.generation 1
    let (wakers,waiters) := s.waiters.takeAll
    .ok {s.setWait f {c with stage := .done true} with
      arrived := 0,generation := generation,waiters := waiters,woken := s.woken++wakers}
  else .ok {s.setWait f {c with stage := .entering s.generation} with arrived := arrived}

/-- The poll of a `BarrierWait`. -/
def pollWait [Wake W] (s : State W) (f : ℕ) (c : Wait W) (token : Option SlotId) (generation : ℕ)
    (waker : W) : Except String (State W) :=
  if generation < s.generation then .ok (s.setWait f {c with stage := .done false})
  else do
    let (token,waiters) ← s.waiters.register token waker
    .ok {s.setWait f {c with stage := .waiting token generation,lastWaker := some waker} with
      waiters := waiters}

def dropWait (s : State W) (f : ℕ) (c : Wait W) (token : SlotId) (generation : ℕ) :
    Except String (State W) :=
  let s := s.setWait f {c with stage := .cancelled}
  if generation ≠ s.generation then .ok s
  else do
    let waiters ← s.waiters.unregister (some token)
    .ok {s with waiters := waiters}

end State

inductive Action (W : Type)
  | wait | poll (f : ℕ) (waker : W) | drop (f : ℕ)

namespace State

variable {W : Type}

def poll [Wake W] (s : State W) (f : ℕ) (c : Wait W) (waker : W) : Option (Except String (State W)) :=
  match c.stage with
  | .unpolled => some (s.arrive f c)
  | .entering generation => some (s.pollWait f c none generation waker)
  | .waiting token generation => some (s.pollWait f c (some token) generation waker)
  | _ => none

def drop (s : State W) (f : ℕ) (c : Wait W) : Option (Except String (State W)) :=
  match c.stage with
  | .unpolled => some (.ok (s.setWait f {c with stage := .cancelled}))
  | .waiting token generation => some (s.dropWait f c token generation)
  | _ => none

def act [Wake W] (s : State W) : Action W → Option (Except String (State W))
  | .wait => some (.ok {s with waits := s.waits++[⟨.unpolled,none,none⟩]})
  | .poll f waker => s.waits[f]?.bind fun c => s.poll f c waker
  | .drop f => s.waits[f]?.bind fun c => s.drop f c

instance : Transition.Faulty (State W) String :=
  ⟨panicked,fun s message => {s with panicked := some message}⟩

abbrev next [Wake W] (s : State W) (a : Action W) : Option (State W) := Transition.step act s a

end State

def machine (W : Type) [Wake W] (n : ℕ) : Transition.Machine (State W) (Action W) where
  init s := n ≤ u32Max ∧ s = new W n
  next := State.next

end Barrier
end Asyncband
