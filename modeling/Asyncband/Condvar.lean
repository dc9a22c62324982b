import Asyncband.Custody
import Asyncband.Roster
import Asyncband.Transition

/-! The condition variable as a transition system.
One step is one critical section of the waiter lock or one operation on an associated
mutex. The mutexes are other components: here a mutex is a lock that is free or held, and
a pending `lock` call of a wait may take it whenever it is free. `wait_owned` is `wait`
with another kind of guard. Every selection made by `notify_one` gets a number, a ghost
that travels with the node, the baton and the destructors. -/
namespace Asyncband
namespace Condvar

inductive WaitState (W : Type)
  | waiting (waker : W)
  | notifiedOne
  | notifiedAll
  deriving DecidableEq

structure Node (W : Type) where
  state : WaitState W
  /-- Ghost: the wait that registered the node. -/
  owner : ℕ

inductive Stage
  | unpolled
  /-- The first poll has registered the node and has not dropped the guard yet. -/
  | releasing (id : WaiterId)
  | queued (id : WaiterId)
  /-- `mutex.lock().await`, with a baton if the wait was selected by `notify_one`. -/
  | relocking (baton : Bool)
  /-- Cancelled while relocking; the destructor of the baton has not run yet. -/
  | passing
  | returned
  | cancelled
  deriving DecidableEq

structure Wait (W : Type) where
  mutex : ℕ
  stage : Stage
  /-- Ghost: the selection that the wait holds or has consumed. -/
  selection : Option ℕ
  /-- Ghost: the waker of the latest poll that returned pending. -/
  lastWaker : Option W

namespace Wait

variable {W : Type}

def waiter (c : Wait W) : Option WaiterId :=
  match c.stage with
  | .releasing id => some id
  | .queued id => some id
  | _ => none

def guarding (c : Wait W) : Bool :=
  match c.stage with
  | .unpolled => true
  | .releasing _ => true
  | _ => false

end Wait

inductive Holder
  | free | task | wait (f : ℕ)
  deriving DecidableEq

structure State (W : Type) where
  waiters : WaitList (Node W)
  waits : List (Wait W)
  mutexes : List Holder
  /-- Ghost: the selections that `notify_one` calls made. -/
  issued : ℕ
  /-- Ghost: the selections that ended because nobody was left to take them. -/
  ended : List ℕ
  /-- Ghost: the waits in the order of their registration. -/
  registered : List ℕ
  /-- Ghost: the wakers that were handed out to be woken. -/
  woken : List W
  panicked : Option String

def new (W : Type) (mutexes : ℕ) : State W := ⟨.new,[],.replicate mutexes .free,0,[],[],[],none⟩

/-- `mem::replace(state, NotifiedOne)`, which also tells whose waker it was. -/
def selectOne {W : Type} : Node W → Except String ((ℕ × W) × Node W)
  | ⟨.waiting waker,f⟩ => .ok ((f,waker),⟨.notifiedOne,f⟩)
  | _ => .error "only waiting tasks remain linked"

def selectAll {W : Type} : Node W → Except String (W × Node W)
  | ⟨.waiting waker,f⟩ => .ok (waker,⟨.notifiedAll,f⟩)
  | _ => .error "only waiting tasks remain linked"

def notifyOneLocked {W : Type} (waiters : WaitList (Node W)) :
    Except String (Option (ℕ × W) × WaitList (Node W)) :=
  waiters.selectFirst (fun r => r) selectOne

namespace State

variable {W : Type}

def setWait (s : State W) (f : ℕ) (c : Wait W) : State W := {s with waits := s.waits.set f c}

def setMutex (s : State W) (m : ℕ) (holder : Holder) : State W :=
  {s with mutexes := s.mutexes.set m holder}

/-- The wait `g` was selected; the number of the selection is noted with it. -/
def select (s : State W) (g : ℕ) (waker : W) (waiters : WaitList (Node W)) (token : Option ℕ) :
    State W :=
  {s with waiters := waiters,woken := s.woken++[waker],
          waits := s.waits.modify g fun c => {c with selection := token}}

def notifyOne (s : State W) : Except String (State W) := do
  match ← notifyOneLocked s.waiters with
  | (some (g,waker),waiters) =>
    .ok ({s with issued := s.issued+1}.select g waker waiters (some s.issued))
  | (none,waiters) => .ok {s with waiters := waiters}

def notifyAll (s : State W) : Except String (State W) := do
  let (wakers,waiters) ← WaitList.selectAll (fun r => r) selectAll s.waiters.order.length s.waiters
  .ok {s with waiters := waiters,woken := s.woken++wakers}

/-- `notify_one_locked` in a destructor, for a selection that is handed on. -/
def passOn (s : State W) (token : Option ℕ) : Except String (State W) := do
  match ← notifyOneLocked s.waiters with
  | (some (g,waker),waiters) => .ok (s.select g waker waiters token)
  | (none,waiters) => .ok {s with waiters := waiters,ended := s.ended++token.toList}

/-- The first poll of `Wait`, up to the drop of the guard. -/
def register (s : State W) (f : ℕ) (c : Wait W) (waker : W) : State W :=
  let (id,waiters) := s.waiters.pushBack ⟨.waiting waker,f⟩
  {s.setWait f {c with stage := .releasing id,lastWaker := some waker} with
    waiters := waiters,registered := s.registered++[f]}

/-- A later poll of `Wait`. -/
def pollWait [Wake W] (s : State W) (f : ℕ) (c : Wait W) (id : WaiterId) (waker : W) :
    Except String (State W) := do
  let r ← s.waiters.waiterMut id
  match r.state with
  | .waiting current =>
    let s := s.setWait f {c with lastWaker := some waker}
    if Wake.willWake current waker then .ok s
    else do
      let waiters ← s.waiters.setWaiter id {r with state := .waiting waker}
      .ok {s with waiters := waiters}
  | .notifiedOne => do
    let (_,waiters) ← s.waiters.removeUnlinkedWaiter id
    .ok {s.setWait f {c with stage := .relocking true} with waiters := waiters}
  | .notifiedAll => do
    let (_,waiters) ← s.waiters.removeUnlinkedWaiter id
    .ok {s.setWait f {c with stage := .relocking false} with waiters := waiters}

/-- The destructor of a `Wait` that has a node. -/
def dropWait (s : State W) (f : ℕ) (c : Wait W) (id : WaiterId) : Except String (State W) := do
  let s := s.setWait f {c with stage := .cancelled,selection := none}
  let (r,waiters) ← s.waiters.removeWaiter id
  let s := {s with waiters := waiters}
  match r.state with
  | .notifiedOne => s.passOn c.selection
  | _ => .ok s

end State

/-- `lock` and `unlock` are those of other tasks; `release`, `relock` and `pass` continue
a wait behind its registration, behind its notification and in its destructor. -/
inductive Action (W : Type)
  | lock (m : ℕ) | unlock (m : ℕ) | wait (m : ℕ)
  | poll (f : ℕ) (waker : W) | release (f : ℕ) | relock (f : ℕ) | drop (f : ℕ) | pass (f : ℕ)
  | notifyOne | notifyAll

namespace State

variable {W : Type}

def poll [Wake W] (s : State W) (f : ℕ) (c : Wait W) (waker : W) : Option (Except String (State W)) :=
  match c.stage with
  | .unpolled => some (.ok (s.register f c waker))
  | .queued id => some (s.pollWait f c id waker)
  | _ => none

def release (s : State W) (f : ℕ) (c : Wait W) : Option (Except String (State W)) :=
  match c.stage with
  | .releasing id => some (.ok ((s.setWait f {c with stage := .queued id}).setMutex c.mutex .free))
  | _ => none

/-- `lock` returns, the baton is completed, and the caller gets the guard. -/
def relock (s : State W) (f : ℕ) (c : Wait W) : Option (Except String (State W)) :=
  match c.stage with
  | .relocking _ =>
    if s.mutexes[c.mutex]? = some .free then
      some (.ok ((s.setWait f {c with stage := .returned}).setMutex c.mutex .task))
    else none
  | _ => none

def drop (s : State W) (f : ℕ) (c : Wait W) : Option (Except String (State W)) :=
  match c.stage with
  | .unpolled => some (.ok ((s.setWait f {c with stage := .cancelled}).setMutex c.mutex .free))
  | .queued id => some (s.dropWait f c id)
  | .relocking true => some (.ok (s.setWait f {c with stage := .passing}))
  | .relocking false => some (.ok (s.setWait f {c with stage := .cancelled}))
  | _ => none

/-- The destructor of the baton. -/
def pass (s : State W) (f : ℕ) (c : Wait W) : Option (Except String (State W)) :=
  match c.stage with
  | .passing =>
    some ((s.setWait f {c with stage := .cancelled,selection := none}).passOn c.selection)
  | _ => none

def act [Wake W] (s : State W) : Action W → Option (Except String (State W))
  | .lock m => if s.mutexes[m]? = some .free then some (.ok (s.setMutex m .task)) else none
  | .unlock m => if s.mutexes[m]? = some .task then some (.ok (s.setMutex m .free)) else none
  | .wait m =>
    if s.mutexes[m]? = some .task then
      some (.ok {s.setMutex m (.wait s.waits.length) with
        waits := s.waits++[⟨m,.unpolled,none,none⟩]})
    else none
  | .poll f waker => s.waits[f]?.bind fun c => s.poll f c waker
  | .release f => s.waits[f]?.bind fun c => s.release f c
  | .relock f => s.waits[f]?.bind fun c => s.relock f c
  | .drop f => s.waits[f]?.bind fun c => s.drop f c
  | .pass f => s.waits[f]?.bind fun c => s.pass f c
  | .notifyOne => some s.notifyOne
  | .notifyAll => some s.notifyAll

instance : Transition.Faulty (State W) String :=
  ⟨panicked,fun s message => {s with panicked := some message}⟩

abbrev next [Wake W] (s : State W) (a : Action W) : Option (State W) := Transition.step act s a

def queue (s : State W) : List ℕ := s.waiters.queue.map Node.owner

end State

def machine (W : Type) [Wake W] : Transition.Machine (State W) (Action W) where
  init s := ∃ mutexes, s = new W mutexes
  next := State.next

end Condvar
end Asyncband
