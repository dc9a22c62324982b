import Asyncband.Countdown
import Asyncband.SemaphoreHandover
import Asyncband.Transition

/-! One-time asynchronous initialization as a transition system.
`call_once` looks at the countdown, waits for the only permit of the semaphore, looks again,
runs its function, decrements the countdown from one to zero and wakes the waiters. What the
function does is the choice of the labels. `wait` is the shared one-shot future: its look in
front of the future is one more look that needs no lock. -/
namespace Asyncband
namespace Once

open OneShot

inductive Outcome
  | returned | unwound | cancelled
  deriving DecidableEq

inductive Stage
  | entered
  | acquiring
  | running
  | decrementing (stage : Countdown.Stage)
  /-- The call has its outcome; if it holds the permit then it gives it back. -/
  | ending (outcome : Outcome)
  deriving DecidableEq

def Stage.place : Stage → Turns.Place
  | .entered => .before
  | .acquiring => .acquiring
  | .ending _ => .after
  | _ => .inside

structure State (W : Type) where
  count : ℕ
  gate : Gate W
  turns : Turns.State Stage W
  panicked : Option String

def new (W : Type) : State W := ⟨1,.new W false,Turns.new Stage W,none⟩

/-- `complete` and `panic` end the function of a call, and `cancel` drops the future of a
call. -/
inductive Action (W : Type)
  | wait | future (a : WaitAction W)
  | callOnce | look (i : ℕ) | poll (i : ℕ) (waker : W) | recheck (i : ℕ)
  | complete (i : ℕ) | panic (i : ℕ) | cancel (i : ℕ)
  | load (i : ℕ) | cas (i : ℕ) (spurious : Bool) | wake (i : ℕ)
  | leave (i : ℕ) | advance (i : ℕ) (spurious : Bool)

abbrev Row := Turns.Task Stage

namespace State

variable {W : Type}

def isCompleted (s : State W) : Bool := s.count = 0

theorem isCompleted_iff {s : State W} : s.isCompleted = true ↔ s.count = 0 := decide_eq_true_iff

def setStage (s : State W) (i : ℕ) (task : Row) (stage : Stage) : State W :=
  {s with turns := s.turns.setTask i {task with payload := stage}}

/-- The look without the permit. -/
def look [Wake W] (s : State W) (i : ℕ) (task : Row) : Option (State W) :=
  match task.payload with
  | .entered =>
    if s.isCompleted then some (s.setStage i task (.ending .returned))
    else (s.turns.enter i .acquiring).map fun turns => {s with turns := turns}
  | _ => none

def poll [Wake W] (s : State W) (i : ℕ) (task : Row) (waker : W) : Option (State W) :=
  match task.payload with
  | .acquiring => (s.turns.poll i task waker).map fun turns => {s with turns := turns}
  | _ => none

/-- The look with the permit, and the start of the function. -/
def recheck (s : State W) (i : ℕ) (task : Row) : Option (State W) :=
  match task.payload,task.phase with
  | .acquiring,.holding =>
    some (s.setStage i task (if s.isCompleted then .ending .returned else .running))
  | _,_ => none

def complete (s : State W) (i : ℕ) (task : Row) : Option (State W) :=
  match task.payload with
  | .running => some (s.setStage i task (.decrementing .started))
  | _ => none

def panic (s : State W) (i : ℕ) (task : Row) : Option (State W) :=
  match task.payload with
  | .running => some (s.setStage i task (.ending .unwound))
  | _ => none

/-- A call can be dropped before its first poll and at its two awaits. -/
def cancel [Wake W] (s : State W) (i : ℕ) (task : Row) : Option (State W) :=
  match task.payload with
  | .entered => some (s.setStage i task (.ending .cancelled))
  | .acquiring => (s.turns.cancel i task (.ending .cancelled)).map fun turns => {s with turns := turns}
  | .running => some (s.setStage i task (.ending .cancelled))
  | _ => none

def load (s : State W) (i : ℕ) (task : Row) : Option (State W) :=
  match task.payload with
  | .decrementing stage =>
    (Countdown.load s.count stage).map fun stage => s.setStage i task (.decrementing stage)
  | _ => none

def completedTwice : String := "internal error: entered unreachable code: [BUG] Once completed more than once"

/-- A round of `decrement(1)`; a result other than the transition to zero is the unreachable
arm. -/
def cas (s : State W) (i : ℕ) (task : Row) (spurious : Bool) : Option (Except String (State W)) :=
  match task.payload with
  | .decrementing stage => (Countdown.cas s.count 1 spurious stage).map fun r =>
    if r.stage = .done then .error completedTwice
    else .ok {s.setStage i task (.decrementing r.stage) with count := r.count}
  | _ => none

def wake (s : State W) (i : ℕ) (task : Row) : Option (State W) :=
  match task.payload with
  | .decrementing stage => (Countdown.wakeAll s.gate stage).map fun gate =>
    {s.setStage i task (.ending .returned) with gate := gate}
  | _ => none

def leave [Wake W] (s : State W) (i : ℕ) (task : Row) : Option (State W) :=
  match task.payload with
  | .ending _ => (s.turns.leave i task task.payload).map fun turns => {s with turns := turns}
  | _ => none

def advance [Wake W] (s : State W) (i : ℕ) (task : Row) (spurious : Bool) : Option (State W) :=
  (s.turns.advance i task spurious).map fun turns => {s with turns := turns}

def act [Wake W] (s : State W) : Action W → Option (Except String (State W))
  | .wait => some (.ok {s with gate := s.gate.wait})
  | .future a => (s.gate.act false s.isCompleted a).map fun x => x.map fun g => {s with gate := g}
  | .callOnce => some (.ok {s with turns := s.turns.add .entered})
  | .look i => s.turns.tasks[i]?.bind fun task => (s.look i task).map .ok
  | .poll i waker => s.turns.tasks[i]?.bind fun task => (s.poll i task waker).map .ok
  | .recheck i => s.turns.tasks[i]?.bind fun task => (s.recheck i task).map .ok
  | .complete i => s.turns.tasks[i]?.bind fun task => (s.complete i task).map .ok
  | .panic i => s.turns.tasks[i]?.bind fun task => (s.panic i task).map .ok
  | .cancel i => s.turns.tasks[i]?.bind fun task => (s.cancel i task).map .ok
  | .load i => s.turns.tasks[i]?.bind fun task => (s.load i task).map .ok
  | .cas i spurious => s.turns.tasks[i]?.bind fun task => s.cas i task spurious
  | .wake i => s.turns.tasks[i]?.bind fun task => (s.wake i task).map .ok
  | .leave i => s.turns.tasks[i]?.bind fun task => (s.leave i task).map .ok
  | .advance i spurious => s.turns.tasks[i]?.bind fun task => (s.advance i task spurious).map .ok

instance : Transition.Faulty (State W) String :=
  ⟨panicked,fun s message => {s with panicked := some message}⟩

abbrev next [Wake W] (s : State W) (a : Action W) : Option (State W) := Transition.step act s a

end State

def machine (W : Type) [Wake W] : Transition.Machine (State W) (Action W) where
  init s := s = new W
  next := State.next

def Stage.Fits (count : ℕ) (notified : Bool) : Stage → Prop
  | .running => count = 1
  | .decrementing .started => count = 1
  | .decrementing (.trying cnt) => count = 1 ∧ cnt = 1
  | .decrementing .waking => count = 0 ∧ notified = false
  | .decrementing .done => False
  | .ending .returned => count = 0
  | _ => True

/-- The countdown, and the one call that owes the wake-up from zero on. -/
structure Ok {W : Type} [Wake W] (s : State W) : Prop where
  turns : Turns.Placed Stage.place s.turns
  gate : s.gate.Ok s.isCompleted
  fits : ∀ (i : ℕ) task, s.turns.tasks[i]? = some task → task.payload.Fits s.count s.gate.notified
  count : s.count ≤ 1
  owed : s.count = 0 → s.gate.notified = false →
    ∃ (i : ℕ) (task : Row), s.turns.tasks[i]? = some task ∧ task.payload = .decrementing .waking
  sound : s.panicked = none

namespace Ok

variable {W : Type} [Wake W] {s t : State W} {i : ℕ} {task : Row}
variable {turns : Turns.State Stage W} {phase : Turns.Phase} {call : Option ℕ} {stage : Stage}
    {outcome : Outcome} {spurious : Bool} {x : Except String (State W)} {a : Action W}

theorem new : Ok (new W) where
  turns := .new _
  gate := .new false
  fits i task hi := by cases hi
  count := Nat.le_refl 1
  owed h := by cases h
  sound := rfl

section

variable (h : Ok s) (hi : s.turns.tasks[i]? = some task)
include h hi

theorem change {new : Row} (hturns : Turns.Placed Stage.place turns)
    (htasks : turns.tasks = s.turns.tasks.set i new) (hfits : new.payload.Fits s.count s.gate.notified)
    (hkeep : task.payload = .decrementing .waking → new.payload = .decrementing .waking) : Ok {s with turns := turns} := by
  refine ⟨hturns,h.gate,?_,h.count,?_,h.sound⟩
  · intro j other hj
    rw [show turns.tasks = _ from htasks] at hj
    rcases Table.getElem?_set_cases hj with ⟨-,rfl⟩ | ⟨-,hj⟩
    · exact hfits
    · exact h.fits j other hj
  · intro hcount hn
    obtain ⟨j,other,hj,hstage⟩ := h.owed hcount hn
    show ∃ (i : ℕ) (task : Row), turns.tasks[i]? = some task ∧ _
    rw [htasks]
    by_cases hji : j = i
    · subst hji
      cases hi.symm.trans hj
      exact ⟨j,new,Table.getElem?_set_self' hi new,hkeep hstage⟩
    · exact ⟨j,other,(List.getElem?_set_ne (Ne.symm hji)).trans hj,hstage⟩

theorem carry (hturns : Turns.Placed Stage.place turns)
    (htasks : turns.tasks = s.turns.tasks.set i ⟨task.payload,phase,call⟩) :
    Ok {s with turns := turns} :=
  h.change hi hturns htasks (h.fits i task hi) fun hw => hw

theorem setStage (hplace : stage.place.Fits task.phase) (hfits : stage.Fits s.count s.gate.notified)
    (hkeep : task.payload ≠ .decrementing .waking) : Ok (s.setStage i task stage) :=
  h.change hi (h.turns.restage hi hplace) rfl hfits fun hw => absurd hw hkeep

end

theorem ended (h : Ok s) (hi : s.turns.tasks[i]? = some ⟨.entered,phase,call⟩)
    (hfits : (Stage.ending outcome).Fits s.count s.gate.notified) :
    Ok (s.setStage i ⟨.entered,phase,call⟩ (.ending outcome)) := by
  have houtside : phase = .outside := h.turns.fits i _ hi
  refine h.setStage hi ?_ hfits (by simp)
  intro f hf
  rw [houtside] at hf
  cases hf

section

variable (h : Ok s) (hi : s.turns.tasks[i]? = some task)
include h hi

theorem look (hx : s.look i task = some t) : Ok t ∧ t.count = s.count := by
  obtain ⟨stage,phase,call⟩ := task
  cases stage with
  | entered =>
    simp only [State.look] at hx
    split at hx
    · next hcompleted =>
      cases hx
      exact ⟨h.ended hi (State.isCompleted_iff.mp hcompleted),rfl⟩
    · obtain ⟨turns,hturns,rfl⟩ := Option.map_eq_some_iff.mp hx
      obtain ⟨hplaced,f,htasks⟩ := h.turns.enter hi rfl rfl hturns
      exact ⟨h.change hi hplaced htasks trivial (by simp),rfl⟩
  | _ => cases hx

theorem poll {waker : W} (hx : s.poll i task waker = some t) : Ok t ∧ t.count = s.count := by
  rw [State.poll] at hx
  split at hx
  · obtain ⟨turns,hturns,rfl⟩ := Option.map_eq_some_iff.mp hx
    obtain ⟨hplaced,call,htasks⟩ := h.turns.poll hi hturns
    exact ⟨h.carry hi hplaced htasks,rfl⟩
  · cases hx

theorem recheck (hx : s.recheck i task = some t) : Ok t ∧ t.count = s.count := by
  obtain ⟨stage,phase,call⟩ := task
  simp only [State.recheck] at hx
  split at hx
  · cases hx
    split
    · next hcompleted =>
      exact ⟨h.setStage hi (fun f hf => by cases hf) (State.isCompleted_iff.mp hcompleted) (by simp),rfl⟩
    · next hopen =>
      have hone : s.count = 1 := by
        have hne : s.count ≠ 0 := fun hz => hopen (State.isCompleted_iff.mpr hz)
        have hle := h.count
        omega
      exact ⟨h.setStage hi rfl hone (by simp),rfl⟩
  · cases hx

theorem complete (hx : s.complete i task = some t) : Ok t ∧ t.count = s.count := by
  obtain ⟨stage,phase,call⟩ := task
  cases stage with
  | running =>
    cases hx
    exact ⟨h.setStage hi (h.turns.fits i _ hi) (h.fits i _ hi) (by simp),rfl⟩
  | _ => cases hx

end

theorem interrupt (h : Ok s) (hi : s.turns.tasks[i]? = some ⟨.running,phase,call⟩)
    (hfits : (Stage.ending outcome).Fits s.count s.gate.notified) :
    Ok (s.setStage i ⟨.running,phase,call⟩ (.ending outcome)) := by
  have hholding : phase = .holding := h.turns.fits i _ hi
  refine h.setStage hi ?_ hfits (by simp)
  intro f hf
  rw [hholding] at hf
  cases hf

section

variable (h : Ok s) (hi : s.turns.tasks[i]? = some task)
include h hi

theorem panic (hx : s.panic i task = some t) : Ok t ∧ t.count = s.count := by
  obtain ⟨stage,phase,call⟩ := task
  cases stage with
  | running =>
    cases hx
    exact ⟨h.interrupt hi trivial,rfl⟩
  | _ => cases hx

theorem cancel (hx : s.cancel i task = some t) : Ok t ∧ t.count = s.count := by
  obtain ⟨stage,phase,call⟩ := task
  cases stage with
  | entered =>
    cases hx
    exact ⟨h.ended hi trivial,rfl⟩
  | acquiring =>
    obtain ⟨turns,hturns,rfl⟩ := Option.map_eq_some_iff.mp hx
    obtain ⟨hplaced,phase',call',htasks⟩ := h.turns.cancel hi rfl hturns
    exact ⟨h.change hi hplaced htasks trivial (by simp),rfl⟩
  | running =>
    cases hx
    exact ⟨h.interrupt hi trivial,rfl⟩
  | _ => cases hx

theorem load (hx : s.load i task = some t) : Ok t ∧ t.count = s.count := by
  obtain ⟨stage,phase,call⟩ := task
  cases stage with
  | decrementing stage =>
    obtain ⟨stage',hload,rfl⟩ := Option.map_eq_some_iff.mp hx
    obtain ⟨rfl,rfl⟩ := Countdown.load_eq_some hload
    have hone : s.count = 1 := h.fits i _ hi
    exact ⟨h.setStage hi (h.turns.fits i _ hi) ⟨hone,hone⟩ (by simp),rfl⟩
  | _ => cases hx

end

/-- The calls that do not hold the permit agree with a countdown that goes on. -/
theorem fits_outside (h : Ok s) (hi : s.turns.tasks[i]? = some ⟨stage,phase,call⟩)
    (hphase : phase ≠ .holding) {count : ℕ} (hcount : s.count = 0 → count = 0) (notified : Bool) :
    stage.Fits count notified := by
  have hplace := h.turns.fits i _ hi
  have hfits := h.fits i _ hi
  cases stage with
  | ending outcome =>
    cases outcome with
    | returned => exact hcount hfits
    | _ => trivial
  | entered => trivial
  | acquiring => trivial
  | _ => exact absurd hplace hphase

theorem setDone (h : Ok s) (hi : s.turns.tasks[i]? = some ⟨stage,.holding,call⟩) (stage' : Stage)
    (count : ℕ) (gate : Gate W) (hplace : stage'.place.Fits .holding)
    (hgate : gate.Ok (decide (count = 0))) (hstays : s.count = 0 → count = 0) (hle : count ≤ 1)
    (hfits : stage'.Fits count gate.notified)
    (howed : count = 0 → gate.notified = false → stage' = .decrementing .waking) :
    Ok {s.setStage i ⟨stage,.holding,call⟩ stage' with count := count,gate := gate} := by
  refine ⟨h.turns.restage hi hplace,hgate,?_,hle,?_,h.sound⟩
  · intro j other hj
    rcases Table.getElem?_set_cases hj with ⟨-,rfl⟩ | ⟨hji,hj⟩
    · exact hfits
    · obtain ⟨stage',phase',call'⟩ := other
      exact h.fits_outside hj (fun hphase => hji (h.turns.ok.exclusive hj hi hphase rfl)) hstays _
  · intro hcount hn
    exact ⟨i,_,Table.getElem?_set_self' hi _,howed hcount hn⟩

section

variable (h : Ok s) (hi : s.turns.tasks[i]? = some task)
include h hi

theorem cas (hx : s.cas i task spurious = some x) :
    ∃ t, x = .ok t ∧ Ok t ∧ (s.count = 0 → t.count = 0) := by
  obtain ⟨stage,phase,call⟩ := task
  cases stage with
  | decrementing stage =>
    obtain ⟨r,hround,rfl⟩ := Option.map_eq_some_iff.mp hx
    obtain rfl : phase = .holding := h.turns.fits i _ hi
    rcases Countdown.cas_eq_some hround with ⟨rfl,rfl⟩ | ⟨rfl,-,rfl⟩ | ⟨⟨cnt,rfl,-⟩,rfl⟩
    · exact absurd (h.fits i _ hi).2 (by decide)
    · obtain ⟨hone,-⟩ : s.count = 1 ∧ s.count = 1 := h.fits i _ hi
      have hgate := h.gate
      rw [State.isCompleted,decide_eq_false (by omega)] at hgate
      simp only [hone]
      exact ⟨_,rfl,h.setDone hi (.decrementing .waking) 0 s.gate rfl hgate.trip (fun _ => rfl) (by decide)
        ⟨rfl,hgate.open_of_unmet⟩ fun _ _ => rfl,fun _ => rfl⟩
    · obtain ⟨hone,-⟩ : s.count = 1 ∧ cnt = 1 := h.fits i _ hi
      exact ⟨_,rfl,h.setStage hi rfl ⟨hone,hone⟩ (by simp),fun hz => hz⟩
  | _ => cases hx

theorem wake (hx : s.wake i task = some t) : Ok t ∧ t.count = s.count := by
  obtain ⟨stage,phase,call⟩ := task
  cases stage with
  | decrementing stage =>
    obtain ⟨gate,hwake,rfl⟩ := Option.map_eq_some_iff.mp hx
    obtain ⟨rfl,hlock,rfl⟩ := Countdown.wakeAll_eq_some hwake
    obtain ⟨hzero,-⟩ : s.count = 0 ∧ s.gate.notified = false := h.fits i _ hi
    obtain rfl : phase = .holding := h.turns.fits i _ hi
    have hgate := h.gate
    rw [State.isCompleted_iff.mpr hzero] at hgate
    refine ⟨h.setDone hi (.ending .returned) s.count s.gate.wakeAll (fun f hf => by cases hf) ?_
      (fun hz => hz) h.count hzero (fun _ hn => by cases hn),rfl⟩
    rw [decide_eq_true hzero]
    exact hgate.wakeAll hlock
  | _ => cases hx

theorem leave (hx : s.leave i task = some t) : Ok t ∧ t.count = s.count := by
  rw [State.leave] at hx
  split at hx
  · next outcome hstage =>
    obtain ⟨turns,hturns,rfl⟩ := Option.map_eq_some_iff.mp hx
    obtain ⟨hplaced,phase,call,htasks⟩ := h.turns.leave hi (by rw [hstage]; rfl) hturns
    exact ⟨h.carry hi hplaced htasks,rfl⟩
  · cases hx

theorem advance (hx : s.advance i task spurious = some t) : Ok t ∧ t.count = s.count := by
  obtain ⟨turns,hturns,rfl⟩ := Option.map_eq_some_iff.mp hx
  obtain ⟨hplaced,phase,call,htasks⟩ := h.turns.advance hi hturns
  exact ⟨h.carry hi hplaced htasks,rfl⟩

end

theorem callOnce (h : Ok s) : Ok {s with turns := s.turns.add .entered} := by
  refine ⟨h.turns.add rfl,h.gate,?_,h.count,?_,h.sound⟩
  · exact Table.forall_push h.fits trivial
  · intro hcount hn
    obtain ⟨j,other,hj,hstage⟩ := h.owed hcount hn
    exact ⟨j,other,Table.getElem?_push_old hj _,hstage⟩

theorem setGate (h : Ok s) {gate : Gate W} (hgate : gate.Ok s.isCompleted)
    (hn : gate.notified = s.gate.notified) : Ok {s with gate := gate} := by
  refine ⟨h.turns,hgate,?_,h.count,?_,h.sound⟩
  · intro j other hj
    show other.payload.Fits s.count gate.notified
    rw [hn]
    exact h.fits j other hj
  · intro hcount hopen
    exact h.owed hcount (hn.symm.trans hopen)

theorem act (h : Ok s) (hx : s.act a = some x) :
    ∃ t, x = .ok t ∧ Ok t ∧ (s.count = 0 → t.count = 0) := by
  have hrow {i : ℕ} {f : Row → Option (State W)}
      (hx : (s.turns.tasks[i]?.bind fun task => (f task).map .ok) = some x)
      (hf : ∀ {task t}, s.turns.tasks[i]? = some task → f task = some t → Ok t ∧ t.count = s.count) :
      ∃ t, x = .ok t ∧ Ok t ∧ (s.count = 0 → t.count = 0) := by
    obtain ⟨task,t,hi,ht,rfl⟩ := Table.bind_ok hx
    obtain ⟨hok,hcount⟩ := hf hi ht
    exact ⟨t,rfl,hok,fun hz => hcount.trans hz⟩
  cases a with
  | wait =>
    cases hx
    exact ⟨_,rfl,h.setGate h.gate.wait rfl,fun hz => hz⟩
  | future a =>
    obtain ⟨y,hy,rfl⟩ := Option.map_eq_some_iff.mp hx
    obtain ⟨g,rfl,hg,hkeeps⟩ := h.gate.act hy
    exact ⟨_,rfl,h.setGate hg hkeeps.1,fun hz => hz⟩
  | callOnce =>
    cases hx
    exact ⟨_,rfl,h.callOnce,fun hz => hz⟩
  | look i => exact hrow hx h.look
  | poll i waker => exact hrow hx fun hi => h.poll hi
  | recheck i => exact hrow hx h.recheck
  | complete i => exact hrow hx h.complete
  | panic i => exact hrow hx h.panic
  | cancel i => exact hrow hx h.cancel
  | load i => exact hrow hx h.load
  | cas i spurious =>
    obtain ⟨task,hi,hx⟩ := Option.bind_eq_some_iff.mp hx
    exact h.cas hi hx
  | wake i => exact hrow hx h.wake
  | leave i => exact hrow hx h.leave
  | advance i spurious => exact hrow hx fun hi => h.advance hi

theorem next (h : Ok s) (hn : s.next a = some t) :
    Ok t ∧ (s.isCompleted = true → t.isCompleted = true) := by
  obtain ⟨-,ht,hstays⟩ := Transition.step_ok (fun _ => h.act) hn
  exact ⟨ht,fun hc => State.isCompleted_iff.mpr (hstays (State.isCompleted_iff.mp hc))⟩

end Ok

theorem reachable_ok {W : Type} [Wake W] {s : State W} (h : (machine W).Reachable s) : Ok s := by
  refine (machine W).invariant Ok ?_ (fun s a t hs hn => (hs.next hn).1) h
  rintro s rfl
  exact .new

theorem Stage.place_acquiring (stage : Stage) (h : stage.place = .acquiring) : stage = .acquiring := by
  cases stage <;> cases h
  rfl

theorem Stage.place_after (stage : Stage) (h : stage.place = .after) :
    ∃ outcome, stage = .ending outcome := by
  cases stage with
  | ending outcome => exact ⟨outcome,rfl⟩
  | _ => cases h

structure State.Contract {W : Type} [Wake W] (s : State W) : Prop where
  /-- At most one call is between the start of its function and the wake-up. -/
  exclusive : ∀ (i j : ℕ) task other, s.turns.tasks[i]? = some task → s.turns.tasks[j]? = some other →
    task.payload.place = .inside → other.payload.place = .inside → i = j
  /-- Behind the completion no function runs. -/
  closed : s.isCompleted = true → ∀ (i : ℕ) task, s.turns.tasks[i]? = some task →
    task.payload ≠ .running
  stays : ∀ a t, s.next a = some t → s.isCompleted = true → t.isCompleted = true
  /-- No run completes twice. -/
  once : ∀ as, (machine W).crossings State.isCompleted s as ≤ 1
  returned : ∀ (i : ℕ) task, s.turns.tasks[i]? = some task → task.payload = .ending .returned →
    s.isCompleted = true
  futures : s.gate.Contract s.isCompleted
  /-- Between the completion and the wake-up one call has the wake-up ahead. -/
  owed : s.isCompleted = true → s.gate.notified = false →
    ∃ (i : ℕ) (task : Row), s.turns.tasks[i]? = some task ∧ task.payload = .decrementing .waking
  /-- A panicked or cancelled attempt ends its call, which still holds the permit, -/
  interrupted : ∀ (i : ℕ) task a outcome t, s.turns.tasks[i]? = some task → task.payload = .running →
    a = .panic i ∧ outcome = .unwound ∨ a = .cancel i ∧ outcome = .cancelled → s.next a = some t →
    t.turns.tasks = s.turns.tasks.set i ⟨.ending outcome,.holding,none⟩
  /-- and the permit is handed on. -/
  permit : Turns.Handover State.next State.turns Stage.place .poll .leave .cancel .advance s
  sound : s.panicked = none

namespace Ok

variable {W : Type} [Wake W] {s : State W} {i : ℕ} {task : Row}

theorem interrupted (h : Ok s) (hi : s.turns.tasks[i]? = some task) {a : Action W} {t : State W}
    {outcome : Outcome}
    (hstage : task.payload = .running)
    (ha : a = .panic i ∧ outcome = .unwound ∨ a = .cancel i ∧ outcome = .cancelled)
    (hn : s.next a = some t) : t.turns.tasks = s.turns.tasks.set i ⟨.ending outcome,.holding,none⟩ := by
  obtain ⟨hact,-⟩ := Transition.step_ok (fun _ => h.act) hn
  obtain ⟨stage,phase,call⟩ := task
  obtain rfl : stage = .running := hstage
  obtain rfl : phase = .holding := h.turns.fits i _ hi
  obtain rfl : call = none := h.turns.ok.fits i _ hi
  rcases ha with ⟨rfl,rfl⟩ | ⟨rfl,rfl⟩ <;> simp only [State.act,hi,Option.bind_some] at hact <;>
    cases hact <;> rfl

theorem handover (h : Ok s) :
    Turns.Handover State.next State.turns Stage.place .poll .leave .cancel .advance s := by
  refine h.turns.handover (fun turns => {s with turns := turns}) (fun _ => rfl) ?_ ?_ ?_ ?_ ?_
  · intro i task waker turns hi hplace hx
    refine Transition.step_of_act h.sound ?_
    simp [State.act,hi,State.poll,task.payload.place_acquiring hplace,hx]
  · intro i task turns hi hplace hx
    obtain ⟨outcome,hstage⟩ := task.payload.place_after hplace
    rw [hstage] at hx
    refine Transition.step_of_act h.sound ?_
    simp [State.act,hi,State.leave,hstage,hx]
  · intro i task hi hplace
    refine ⟨.ending .cancelled,rfl,fun turns hx => ?_⟩
    refine Transition.step_of_act h.sound ?_
    simp [State.act,hi,State.cancel,task.payload.place_acquiring hplace,hx]
  · intro i task spurious turns hi hx
    refine Transition.step_of_act h.sound ?_
    simp [State.act,hi,State.advance,hx]
  · intro i spurious u hu
    obtain ⟨hact,-⟩ := Transition.step_ok (fun _ => h.act) hu
    obtain ⟨task,t,hi,ht,heq⟩ := Table.bind_ok hact
    cases heq
    obtain ⟨turns,hturns,rfl⟩ := Option.map_eq_some_iff.mp ht
    exact ⟨task,turns,hi,hturns,rfl⟩

theorem contract (h : Ok s) : s.Contract where
  exclusive i j task other hi hj := h.turns.inside_unique hi hj
  closed hc i task hi hstage := by
    have hfits := h.fits i task hi
    rw [hstage] at hfits
    have hone : s.count = 1 := hfits
    rw [State.isCompleted_iff.mp hc] at hone
    cases hone
  stays _ _ hn := (h.next hn).2
  once as := by
    refine ((machine W).crossings_le_one Ok (fun s a t hs hn => (hs.next hn).1)
      (fun s a t hs hn => (hs.next hn).2) h as).trans ?_
    split <;> decide
  returned i task hi hstage := by
    have hfits := h.fits i task hi
    rw [hstage] at hfits
    exact State.isCompleted_iff.mpr hfits
  futures := h.gate.contract
  owed hc := h.owed (State.isCompleted_iff.mp hc)
  interrupted i task a outcome t hi := h.interrupted hi
  permit := h.handover
  sound := h.sound

end Ok
end Once
end Asyncband
