import Asyncband.PoolState
import Asyncband.SemaphoreClient

/-! The bounded pool over its semaphore and its locked queue of idle objects.
A task is one call of `get` together with the object it may return, or one call of
`replenish_to`. One step is one critical section of the lock of `slots`, or one step of
a semaphore call, or the end of a future that the manager supplied. The pool stays alive,
so that a weak reference to it can always be upgraded. -/
namespace Asyncband
namespace BoundedPool

open Pool

structure PoolConfig where
  maxSize : ℕ
  queueStrategy : QueueStrategy
  recycleCancelledStrategy : RecycleCancelledStrategy
  deriving DecidableEq

structure PoolStatus where
  maxSize : ℕ
  currentSize : ℕ
  idleCount : ℕ
  deriving DecidableEq

/-- The permits that `replenish_to` took out of the semaphore. -/
structure ReplenishReservation where
  permits : ℕ
  deriving DecidableEq

/-- The part of `ReplenishReservation::release` before it calls the semaphore. -/
def ReplenishReservation.release (reservation : ReplenishReservation) (permits : ℕ) :
    Except String ReplenishReservation :=
  if permits ≤ reservation.permits then .ok ⟨reservation.permits-permits⟩
  else .error "cannot release more permits than this reservation holds"

inductive Owner
  | get | object | replenish
  deriving DecidableEq

inductive Stage (T : Type)
  | acquiring (future : ℕ)
  | selecting
  | creating
  | recycling (state : ObjectState T)
  | object (state : ObjectState T)
  | cancelling (future : ℕ)
  /-- What is left of a `get` without an object, or of an object that was dropped or
  detached: the permit, which is dropped next. -/
  | leaving (owner : Owner)
  | reserving (targetIdle : ℕ)
  | reserved (targetIdle : ℕ) (reservation : ReplenishReservation)
  /-- The number of objects to create is known, the excess is released next. -/
  | trimming (toCreate : ℕ) (reservation : ReplenishReservation)
  /-- At the head of the loop, or before it in the release of the excess. -/
  | filling (toCreate replenished : ℕ) (reservation : ReplenishReservation)
  | inserted (toCreate replenished : ℕ) (reservation : ReplenishReservation)
  /-- In the semaphore's `release`, after which the task has nothing left. The result is
  what a successful `replenish_to` returns. -/
  | releasing (owner : Owner) (result : Option ℕ)
  | done (result : Option ℕ)

structure Task (T : Type) where
  stage : Stage T
  call : Option ℕ

structure State (T W : Type) where
  config : PoolConfig
  permits : Semaphore.State W
  slots : PoolState T
  tasks : List (Task T)
  /-- Ghost: the number of objects created so far. -/
  created : ℕ
  /-- Ghost: what `status` returned. -/
  reported : List PoolStatus
  panicked : Option String

def new (T W : Type) (config : PoolConfig) : Except String (State T W) :=
  if 0 < config.maxSize then
    .ok ⟨config,Semaphore.new W config.maxSize,PoolState.new T,[],0,[],none⟩
  else .error "bounded pool max_size must be greater than zero"

/-- What happens to a task from outside, or that its thread goes on. -/
inductive Use (T W : Type)
  | poll (waker : W)
  | cancel
  | created (o : T) (now : ℕ)
  | failed
  | touch (o : T)
  | checked (recyclable : Bool)
  | drop (now : ℕ)
  | detach
  | proceed

inductive Action (T W : Type)
  | get
  | replenishTo (targetIdle : ℕ)
  | retain (f : ℕ → T → ObjectStatus → Option Bool × T)
  | status
  | use (i : ℕ) (use : Use T W)
  | advance (i : ℕ) (spurious : Bool)

variable {T W : Type}

def currentSizeMessage (currentSize maxSize : ℕ) : String :=
  s!"invariant broken: current_size <= max_size (actual: {currentSize} <= {maxSize})"

namespace State

def setTask (s : State T W) (i : ℕ) (stage : Stage T) : State T W :=
  {s with tasks := s.tasks.set i ⟨stage,none⟩}

def setSlots (s : State T W) (slots : PoolState T) : State T W := {s with slots := slots}

/-- `ObjectState::new`, for an object that enters the pool. -/
def newObject (s : State T W) (o : T) (now : ℕ) : ObjectState T := ⟨o,.default now,s.created⟩

def status (s : State T W) : PoolStatus :=
  ⟨s.config.maxSize,s.slots.currentSize,s.slots.idle.length⟩

def restoreIdle (s : State T W) (state : ObjectState T) : Except String (PoolState T) :=
  if s.slots.currentSize ≤ s.config.maxSize then .ok (s.slots.returnIdle state)
  else .error (currentSizeMessage s.slots.currentSize s.config.maxSize)

def returnObject (s : State T W) (state : ObjectState T) (now : ℕ) : Except String (PoolState T) :=
  s.restoreIdle {state with status := state.status.markReturned now}

def detachObject (s : State T W) : Except String (PoolState T) :=
  if s.slots.currentSize ≤ s.config.maxSize then s.slots.detach
  else .error (currentSizeMessage s.slots.currentSize s.config.maxSize)

def dropUnready (s : State T W) (state : ObjectState T) : Except String (PoolState T) :=
  match s.config.recycleCancelledStrategy with
  | .detach => s.detachObject
  | .returnToPool => s.restoreIdle state

/-- How many objects `replenish_to` creates. The available permits are loaded while the
queue is locked. -/
def toCreate (s : State T W) (targetIdle : ℕ) (reservation : ReplenishReservation) :
    Except String ℕ :=
  if s.permits.available+reservation.permits ≤ usizeMax then
    let availableSlots := s.permits.available+reservation.permits-s.slots.idle.length
    .ok (min (min (targetIdle-s.slots.idle.length) reservation.permits) availableSlots)
  else .error "invariant broken: semaphore capacity must not overflow"

def start [Wake W] (s : State T W) (i : ℕ) (stage : Stage T) (op : Semaphore.Op W) :
    Option (Except String (State T W)) :=
  (Semaphore.next s.permits (.call op)).map fun permits =>
    .ok {s with permits := permits,tasks := s.tasks.set i ⟨stage,some s.permits.calls.length⟩}

def releaseReserved [Wake W] (s : State T W) (i : ℕ) (reservation : ReplenishReservation)
    (permits : ℕ) (stage : ReplenishReservation → Stage T) : Option (Except String (State T W)) :=
  match reservation.release permits with
  | .ok reservation => s.start i (stage reservation) (.release permits)
  | .error message => some (.error message)

def act [Wake W] (s : State T W) (i : ℕ) : Stage T → Use T W → Option (Except String (State T W))
  | .acquiring f, .poll waker => s.start i (.acquiring f) (.poll f waker)
  | .acquiring f, .cancel => s.start i (.cancelling f) (.drop f)
  | .selecting, .proceed =>
    match s.slots.pop s.config.queueStrategy with
    | (none,slots) => some (.ok ((s.setSlots slots).setTask i .creating))
    | (some state,slots) => some (.ok ((s.setSlots slots).setTask i (.recycling state)))
  | .creating, .created o now => some do
    let slots ← s.slots.addActive
    .ok {(s.setSlots slots).setTask i (.object (s.newObject o now)) with created := s.created+1}
  | .creating, .failed => some (.ok (s.setTask i (.leaving .get)))
  | .creating, .cancel => some (.ok (s.setTask i (.leaving .get)))
  | .recycling state, .touch o => some (.ok (s.setTask i (.recycling {state with o := o})))
  | .recycling state, .checked true => some do
    let status ← state.status.markRecycled
    .ok (s.setTask i (.object {state with status := status}))
  | .recycling _, .checked false => some do
    let slots ← s.detachObject
    .ok ((s.setSlots slots).setTask i .selecting)
  | .recycling state, .cancel => some do
    let slots ← s.dropUnready state
    .ok ((s.setSlots slots).setTask i (.leaving .get))
  | .object state, .touch o => some (.ok (s.setTask i (.object {state with o := o})))
  | .object state, .drop now => some do
    let slots ← s.returnObject state now
    .ok ((s.setSlots slots).setTask i (.leaving .object))
  | .object _, .detach => some do
    let slots ← s.detachObject
    .ok ((s.setSlots slots).setTask i (.leaving .object))
  | .leaving owner, .proceed => s.start i (.releasing owner none) (.release 1)
  | .reserved targetIdle reservation, .proceed => some do
    let toCreate ← s.toCreate targetIdle reservation
    .ok (s.setTask i (.trimming toCreate reservation))
  | .trimming toCreate reservation, .proceed =>
    match Checked.sub reservation.permits toCreate with
    | .ok excess => s.releaseReserved i reservation excess (.filling toCreate 0)
    | .error message => some (.error message)
  | .filling (toCreate+1) replenished reservation, .created o now => some do
    let slots ← s.slots.addIdle (s.newObject o now)
    .ok {(s.setSlots slots).setTask i (.inserted toCreate (replenished+1) reservation) with
      created := s.created+1}
  | .filling (_+1) _ reservation, .failed =>
    s.start i (.releasing .replenish none) (.release reservation.permits)
  | .filling (_+1) _ reservation, .cancel =>
    s.start i (.releasing .replenish none) (.release reservation.permits)
  | .filling 0 replenished reservation, .proceed =>
    s.start i (.releasing .replenish (some replenished)) (.release reservation.permits)
  | .inserted toCreate replenished reservation, .proceed =>
    s.releaseReserved i reservation 1 (.filling toCreate replenished)
  | _, _ => none

/-- The code after a semaphore call that ended with `outcome`. -/
def resume : Stage T → Semaphore.Outcome → Stage T
  | .acquiring _, .acquired => .selecting
  | .reserving _, .drained 0 => .done (some 0)
  | .reserving targetIdle, .drained (n+1) => .reserved targetIdle ⟨n+1⟩
  | .cancelling _, _ => .done none
  | .releasing _ result, _ => .done result
  | stage, _ => stage

def advance [Wake W] (s : State T W) (i : ℕ) (stage : Stage T) (c : ℕ) (spurious : Bool) :
    Option (State T W) :=
  (Semaphore.advance s.permits c spurious).map fun (permits : Semaphore.State W) =>
    match permits.calls[c]? with
    | some (.finished outcome) =>
      {s with permits := permits,tasks := s.tasks.set i ⟨resume stage outcome,none⟩}
    | _ => {s with permits := permits}

instance : Transition.Faulty (State T W) String :=
  ⟨panicked,fun s message => {s with panicked := some message}⟩

def replenishTo [Wake W] (s : State T W) (targetIdle : ℕ) : Option (State T W) :=
  let targetIdle := min targetIdle s.config.maxSize
  (Semaphore.next s.permits (.call (.drainPermits targetIdle))).map fun permits =>
    {s with
      permits := permits
      tasks := s.tasks++[⟨.reserving targetIdle,some s.permits.calls.length⟩]}

def get [Wake W] (s : State T W) : Option (State T W) :=
  (Semaphore.next s.permits (.acquire 1)).map fun permits =>
    {s with permits := permits,tasks := s.tasks++[⟨.acquiring s.permits.acquires.length,none⟩]}

/-- The numbered calls of a predicate. -/
def numbered (f : ℕ → T → ObjectStatus → Option Bool × T) : Predicate ℕ T :=
  fun calls o status => ((f calls o status).1,(f calls o status).2,calls+1)

def retain (s : State T W) (f : ℕ → T → ObjectStatus → Option Bool × T) :
    Except String (State T W) :=
  (s.slots.retain (numbered f) 0).map fun (_,slots) => s.setSlots slots

def perform [Wake W] (s : State T W) : Action T W → Option (Except String (State T W))
  | .get => s.get.map .ok
  | .replenishTo targetIdle => (s.replenishTo targetIdle).map .ok
  | .retain f => some (s.retain f)
  | .status => some (.ok {s with reported := s.reported++[s.status]})
  | .use i use =>
    match s.tasks[i]? with
    | some ⟨stage,none⟩ => s.act i stage use
    | _ => none
  | .advance i spurious =>
    match s.tasks[i]? with
    | some ⟨stage,some c⟩ => (s.advance i stage c spurious).map .ok
    | _ => none

abbrev next [Wake W] (s : State T W) (a : Action T W) : Option (State T W) :=
  Transition.step perform s a

end State

/-- All interleavings of the users of one pool. `max_size` is a `usize`. -/
def machine (T W : Type) [Wake W] : Transition.Machine (State T W) (Action T W) where
  init s := ∃ config, config.maxSize ≤ usizeMax ∧ new T W config = .ok s
  next := State.next

end BoundedPool
end Asyncband
