import Asyncband.Transition
import Asyncband.Table

/-! Blocking waits on one thread.
The thread is in a stack of blocking calls, the innermost first: a call made inside of a poll
is on top of the call whose poll it is. A parker is an atomic word, a mutex and a condition
variable. Wakes run concurrently; one that the thread makes itself is one whose steps all
fall into a poll. One step is one operation on the word, the mutex or the condition variable,
and waiting on the condition variable releases the mutex and falls asleep in one step. -/
namespace Asyncband
namespace Blocking

def EMPTY : ℕ := 0
def PARKED : ℕ := 1
def NOTIFIED : ℕ := 2

inductive Holder
  | thread | unparker (i : ℕ)
  deriving DecidableEq

/-- `ParkerState`. Only the thread ever waits on the condition variable, so its stage tells
whether somebody does. -/
structure Parker where
  state : ℕ
  lock : Option Holder
  /-- Ghost: how often a wake found no notification and left one. -/
  stored : ℕ
  /-- Ghost: how many notifications the thread took. -/
  consumed : ℕ
  /-- Ghost: a wake stored a notification since the latest poll began, and it was not
  consumed. -/
  fresh : Bool
  deriving DecidableEq

namespace Parker

def new : Parker := ⟨EMPTY,none,0,0,false⟩

def swapEmpty (q : Parker) : Parker :=
  if q.state = NOTIFIED then {q with state := EMPTY,consumed := q.consumed+1,fresh := false}
  else {q with state := EMPTY}

def consume (q : Parker) : Option Parker := if q.state = NOTIFIED then some q.swapEmpty else none

def poll (q : Parker) : Parker := {q with fresh := false}

/-- `swap(NOTIFIED)`, by a wake. -/
def swapNotified (q : Parker) : Parker :=
  {q with
    state := NOTIFIED
    stored := if q.state = NOTIFIED then q.stored else q.stored+1
    fresh := true}

end Parker

/-- Where a blocking call stands. The timeout is that of the park it is in. -/
inductive Stage
  | polling
  | clock
  | token (timeout : Option ℕ)
  | yielding
  | locking (timeout : Option ℕ)
  /-- The mutex is held from here on. -/
  | publishing (timeout : Option ℕ)
  | swapping
  | waiting (timeout : Option ℕ)
  | asleep (timeout : Option ℕ)
  | relocking (timeout : Option ℕ)
  | checking (timeout : Option ℕ)
  | leaving
  deriving DecidableEq

/-- A call of `block_on`, or of `wait_timeout` when it has a deadline. -/
structure Frame where
  parker : ℕ
  deadline : Option ℕ
  stage : Stage
  /-- Ghost: how many of its parks have returned. -/
  parks : ℕ
  /-- Ghost: how many notifications its parks took. -/
  consumed : ℕ
  deriving DecidableEq

inductive UnparkStage
  | swapping | locking
  | locked
  | notifying | done
  deriving DecidableEq

structure Unparker where
  parker : ℕ
  stage : UnparkStage
  deriving DecidableEq

structure State where
  parkers : List Parker
  /-- `CACHE` is borrowed mutably; it holds the parker at 0. -/
  borrowed : Bool
  frames : List Frame
  unparkers : List Unparker
  panicked : Option String
  deriving DecidableEq

def new : State := ⟨[.new],false,[],[],none⟩

inductive Action
  | call (deadline : Option ℕ)
  | ready | pending
  | clock (now : ℕ)
  | proceed
  /-- The wait on the condition variable returns by itself: it expired, or for no reason. -/
  | rouse
  | wake (parker : ℕ)
  | unpark (i : ℕ)

namespace Frame

def enter (f : Frame) (stage : Stage) : Frame := {f with stage := stage}

/-- `park` returned, and the loop polls again. -/
def returned (f : Frame) : Frame := {f with stage := .polling,parks := f.parks+1}

def took (f : Frame) : Frame := {f with consumed := f.consumed+1}

/-- The next operation of `park`; `none` when it waits for the mutex or sleeps. -/
def park (f : Frame) (q : Parker) : Option (Except String (Frame × Parker)) :=
  match f.stage with
  | .polling | .clock | .asleep _ => none
  | .token timeout =>
    match q.consume,timeout with
    | some q,_ => some (.ok (f.took.returned,q.poll))
    | none,some 0 => some (.ok (f.returned,q.poll))
    | none,some (d+1) => some (.ok (f.enter (.locking (some (d+1))),q))
    | none,none => some (.ok (f.enter .yielding,q))
  | .yielding =>
    match q.consume with
    | some q => some (.ok (f.took.returned,q.poll))
    | none => some (.ok (f.enter (.locking none),q))
  | .locking timeout =>
    if q.lock = none then some (.ok (f.enter (.publishing timeout),{q with lock := some .thread}))
    else none
  | .publishing timeout =>
    let state := q.state
    if state = EMPTY then some (.ok (f.enter (.waiting timeout),{q with state := PARKED}))
    else if state = NOTIFIED then some (.ok (f.enter .swapping,q))
    else some (.error s!"inconsistent park state: {state}")
  | .swapping =>
    if q.state = NOTIFIED then some (.ok (f.took.enter .leaving,q.swapEmpty))
    else some (.error "park state changed unexpectedly")
  | .waiting timeout => some (.ok (f.enter (.asleep timeout),{q with lock := none}))
  | .relocking timeout =>
    if q.lock = none then some (.ok (f.enter (.checking timeout),{q with lock := some .thread}))
    else none
  | .checking none =>
    match q.consume with
    | some q => some (.ok (f.took.enter .leaving,q))
    | none => some (.ok (f.enter (.waiting none),q))
  | .checking (some _) =>
    let state := q.state
    if state = NOTIFIED then some (.ok (f.took.enter .leaving,q.swapEmpty))
    else if state = PARKED then some (.ok (f.enter .leaving,q.swapEmpty))
    else some (.error s!"inconsistent timed park state: {state}")
  | .leaving => some (.ok (f.returned,{q with lock := none}.poll))

end Frame

namespace State

instance : Transition.Faulty State String :=
  ⟨panicked,fun s message => {s with panicked := some message}⟩

/-- `with_parker`: the cached parker unless it is borrowed, otherwise a new one. -/
def call (s : State) (deadline : Option ℕ) : State :=
  if s.borrowed then
    {s with
      parkers := s.parkers++[.new]
      frames := ⟨s.parkers.length,deadline,.polling,0,0⟩::s.frames}
  else
    {s with
      parkers := s.parkers.modify 0 Parker.poll
      borrowed := true
      frames := ⟨0,deadline,.polling,0,0⟩::s.frames}

def leave (s : State) (f : Frame) (frames : List Frame) : State :=
  {s with frames := frames,borrowed := if f.parker = 0 then false else s.borrowed}

def notifyOne (s : State) (p : ℕ) : State :=
  match s.frames with
  | f::frames =>
    match f.stage with
    | .asleep timeout =>
      if f.parker = p then {s with frames := f.enter (.relocking timeout)::frames} else s
    | _ => s
  | [] => s

def unpark (s : State) (i : ℕ) (u : Unparker) : Option (Except String State) :=
  s.parkers[u.parker]?.bind fun q =>
    let stay (q : Parker) (stage : UnparkStage) : State :=
      {s with parkers := s.parkers.set u.parker q,unparkers := s.unparkers.set i ⟨u.parker,stage⟩}
    match u.stage with
    | .swapping =>
      let state := q.state
      if state = EMPTY ∨ state = NOTIFIED then some (.ok (stay q.swapNotified .done))
      else if state = PARKED then some (.ok (stay q.swapNotified .locking))
      else some (.error s!"inconsistent unpark state: {state}")
    | .locking =>
      if q.lock = none then some (.ok (stay {q with lock := some (.unparker i)} .locked)) else none
    | .locked => some (.ok (stay {q with lock := none} .notifying))
    | .notifying => some (.ok ((stay q .done).notifyOne u.parker))
    | .done => none

/-- One step of the innermost blocking call. -/
def act (s : State) : Action → Option (Except String State)
  | .call deadline =>
    match s.frames with
    | [] => some (.ok (s.call deadline))
    | f::_ => if f.stage = .polling then some (.ok (s.call deadline)) else none
  | .ready =>
    match s.frames with
    | [] => none
    | f::frames => if f.stage = .polling then some (.ok (s.leave f frames)) else none
  | .pending =>
    match s.frames with
    | [] => none
    | f::frames =>
      if f.stage = .polling then
        match f.deadline with
        | none => some (.ok {s with frames := f.enter (.token none)::frames})
        | some _ => some (.ok {s with frames := f.enter .clock::frames})
      else none
  | .clock now =>
    match s.frames with
    | [] => none
    | f::frames =>
      match f.stage,f.deadline with
      | .clock,some deadline =>
        if deadline ≤ now then some (.ok (s.leave f frames))
        else some (.ok {s with frames := f.enter (.token (some (deadline-now)))::frames})
      | _,_ => none
  | .proceed =>
    match s.frames with
    | [] => none
    | f::frames =>
      s.parkers[f.parker]?.bind fun q => (f.park q).map fun x =>
        x.map fun (g,q) => {s with frames := g::frames,parkers := s.parkers.set f.parker q}
  | .rouse =>
    match s.frames with
    | [] => none
    | f::frames =>
      match f.stage with
      | .asleep timeout => some (.ok {s with frames := f.enter (.relocking timeout)::frames})
      | _ => none
  | .wake p =>
    if p < s.parkers.length then some (.ok {s with unparkers := s.unparkers++[⟨p,.swapping⟩]})
    else none
  | .unpark i => s.unparkers[i]?.bind fun u => s.unpark i u

abbrev next (s : State) (a : Action) : Option State := Transition.step act s a

end State

def machine : Transition.Machine State Action where
  init s := s = new
  next := State.next

end Blocking
end Asyncband
