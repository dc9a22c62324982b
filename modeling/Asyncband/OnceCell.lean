import Asyncband.SemaphoreHandover
import Asyncband.Transition
import Asyncband.ValueCell

/-! The once cell as a transition system.
A call looks at the cell, waits for the only permit of the semaphore, looks again, runs its
initializer, writes and publishes the value, and gives the permit back. What an initializer
does is the choice of the labels. `set` is `try_insert` with a shorter result. -/
namespace Asyncband
namespace OnceCell

inductive Kind (T : Type)
  | get | getOrInit | getOrTryInit | tryInsert (value : T)
  deriving DecidableEq

inductive Outcome (T : Type)
  | returned (value : T)
  | absent
  | failed | unwound | cancelled
  deriving DecidableEq

inductive Stage (T : Type)
  | entered
  | acquiring
  | running
  | writing (value : T)
  | publishing (value : T)
  /-- The call has its outcome; if it holds the permit then it gives it back. -/
  | ending (outcome : Outcome T)
  deriving DecidableEq

structure Payload (T : Type) where
  kind : Kind T
  stage : Stage T
  own : Option T

def Payload.place {T : Type} (p : Payload T) : Turns.Place :=
  match p.stage with
  | .entered => .before
  | .acquiring => .acquiring
  | .ending _ => .after
  | _ => .inside

structure State (T W : Type) where
  cell : ValueCell T
  turns : Turns.State (Payload T) W
  /-- Ghost: the call that wrote the slot. -/
  writer : Option ℕ
  panicked : Option String

def new (T W : Type) (value : Option T) : State T W := ⟨.new value,Turns.new (Payload T) W,none,none⟩

/-- `complete`, `fail` and `panic` end the initializer of a call, and `cancel` drops the
future of a call. -/
inductive Action (T W : Type)
  | call (kind : Kind T) | look (i : ℕ) | poll (i : ℕ) (waker : W) | recheck (i : ℕ)
  | complete (i : ℕ) (value : T) | fail (i : ℕ) | panic (i : ℕ) | cancel (i : ℕ)
  | write (i : ℕ) | publish (i : ℕ)
  | leave (i : ℕ) | advance (i : ℕ) (spurious : Bool)

def Kind.own {T : Type} : Kind T → Option T
  | .tryInsert value => some value
  | _ => none

namespace State

variable {T W : Type}

abbrev Row (T : Type) := Turns.Task (Payload T)

def setPayload (s : State T W) (i : ℕ) (task : Row T) (payload : Payload T) : State T W :=
  {s with turns := s.turns.setTask i {task with payload := payload}}

def setStage (s : State T W) (i : ℕ) (task : Row T) (stage : Stage T) : State T W :=
  s.setPayload i task {task.payload with stage := stage}

/-- The look without the permit. -/
def look [Wake W] (s : State T W) (i : ℕ) (task : Row T) : Option (State T W) :=
  match task.payload.stage with
  | .entered =>
    match s.cell.get,task.payload.kind with
    | some value,_ => some (s.setStage i task (.ending (.returned value)))
    | none,.get => some (s.setStage i task (.ending .absent))
    | none,_ => (s.turns.enter i {task.payload with stage := .acquiring}).map fun turns =>
        {s with turns := turns}
  | _ => none

def poll [Wake W] (s : State T W) (i : ℕ) (task : Row T) (waker : W) : Option (State T W) :=
  match task.payload.stage with
  | .acquiring => (s.turns.poll i task waker).map fun turns => {s with turns := turns}
  | _ => none

/-- The look with the permit, and the start of the initializer. -/
def recheck (s : State T W) (i : ℕ) (task : Row T) : Option (State T W) :=
  match task.payload.stage,task.phase with
  | .acquiring,.holding =>
    match s.cell.get with
    | some value => some (s.setStage i task (.ending (.returned value)))
    | none => some (s.setStage i task .running)
  | _,_ => none

/-- The initializer of `try_insert` takes the value of the call. -/
def complete (s : State T W) (i : ℕ) (task : Row T) (value : T) :
    Option (Except String (State T W)) :=
  match task.payload.stage,task.payload.kind with
  | .running,.tryInsert _ => some <|
    match task.payload.own with
    | some own => .ok (s.setPayload i task {task.payload with stage := .writing own,own := none})
    | none => .error "called `Option::unwrap()` on a `None` value"
  | .running,_ => some (.ok (s.setStage i task (.writing value)))
  | _,_ => none

def fail (s : State T W) (i : ℕ) (task : Row T) : Option (State T W) :=
  match task.payload.stage,task.payload.kind with
  | .running,.getOrTryInit => some (s.setStage i task (.ending .failed))
  | _,_ => none

def panic (s : State T W) (i : ℕ) (task : Row T) : Option (State T W) :=
  match task.payload.stage,task.payload.kind with
  | .running,.tryInsert _ => none
  | .running,_ => some (s.setStage i task (.ending .unwound))
  | _,_ => none

/-- A call can be dropped before its first poll and at its two awaits; the initializer of
`try_insert` has no await. -/
def cancel [Wake W] (s : State T W) (i : ℕ) (task : Row T) : Option (State T W) :=
  match task.payload.stage,task.payload.kind with
  | .entered,.get => none
  | .entered,_ => some (s.setStage i task (.ending .cancelled))
  | .acquiring,_ =>
    (s.turns.cancel i task {task.payload with stage := .ending .cancelled}).map fun turns =>
      {s with turns := turns}
  | .running,.tryInsert _ => none
  | .running,_ => some (s.setStage i task (.ending .cancelled))
  | _,_ => none

def write (s : State T W) (i : ℕ) (task : Row T) : Option (Except String (State T W)) :=
  match task.payload.stage with
  | .writing value => some do
    let cell ← s.cell.write value
    .ok {s.setStage i task (.publishing value) with cell := cell,writer := some i}
  | _ => none

def publish (s : State T W) (i : ℕ) (task : Row T) : Option (State T W) :=
  match task.payload.stage with
  | .publishing value =>
    some {s.setStage i task (.ending (.returned value)) with cell := s.cell.publish}
  | _ => none

def leave [Wake W] (s : State T W) (i : ℕ) (task : Row T) : Option (State T W) :=
  match task.payload.stage with
  | .ending _ => (s.turns.leave i task task.payload).map fun turns => {s with turns := turns}
  | _ => none

def advance [Wake W] (s : State T W) (i : ℕ) (task : Row T) (spurious : Bool) : Option (State T W) :=
  (s.turns.advance i task spurious).map fun turns => {s with turns := turns}

def act [Wake W] (s : State T W) : Action T W → Option (Except String (State T W))
  | .call kind => some (.ok {s with turns := s.turns.add ⟨kind,.entered,kind.own⟩})
  | .look i => s.turns.tasks[i]?.bind fun task => (s.look i task).map .ok
  | .poll i waker => s.turns.tasks[i]?.bind fun task => (s.poll i task waker).map .ok
  | .recheck i => s.turns.tasks[i]?.bind fun task => (s.recheck i task).map .ok
  | .complete i value => s.turns.tasks[i]?.bind fun task => s.complete i task value
  | .fail i => s.turns.tasks[i]?.bind fun task => (s.fail i task).map .ok
  | .panic i => s.turns.tasks[i]?.bind fun task => (s.panic i task).map .ok
  | .cancel i => s.turns.tasks[i]?.bind fun task => (s.cancel i task).map .ok
  | .write i => s.turns.tasks[i]?.bind fun task => s.write i task
  | .publish i => s.turns.tasks[i]?.bind fun task => (s.publish i task).map .ok
  | .leave i => s.turns.tasks[i]?.bind fun task => (s.leave i task).map .ok
  | .advance i spurious => s.turns.tasks[i]?.bind fun task => (s.advance i task spurious).map .ok

instance : Transition.Faulty (State T W) String :=
  ⟨panicked,fun s message => {s with panicked := some message}⟩

abbrev next [Wake W] (s : State T W) (a : Action T W) : Option (State T W) :=
  Transition.step act s a

end State

def machine (T W : Type) [Wake W] (value : Option T) : Transition.Machine (State T W) (Action T W) where
  init s := s = new T W value
  next := State.next

def Stage.Fits {T : Type} (cell : ValueCell T) : Stage T → Prop
  | .running => cell = .uninit
  | .writing _ => cell = .uninit
  | .publishing value => cell = .written value
  | .ending (.returned value) => cell = .ready value
  | _ => True

/-- A call of `try_insert` has its value, or the value is on its way to the cell. -/
def Payload.Owns {T : Type} (cell : ValueCell T) (writer : Option ℕ) (i : ℕ) (p : Payload T) : Prop :=
  ∀ value, p.kind = .tryInsert value →
    p.own = some value ∧ writer ≠ some i ∧ (∀ v, p.stage ≠ .writing v) ∨
    p.own = none ∧ (p.stage = .writing value ∨ writer = some i ∧ cell.stored = some value)

/-- The cell, and the one call that is about to publish what it wrote. -/
structure Ok {T W : Type} [Wake W] (s : State T W) : Prop where
  turns : Turns.Placed Payload.place s.turns
  fits : ∀ (i : ℕ) task, s.turns.tasks[i]? = some task → task.payload.stage.Fits s.cell
  owns : ∀ (i : ℕ) task, s.turns.tasks[i]? = some task → task.payload.Owns s.cell s.writer i
  unpublished : ∀ value, s.cell = .written value → ∃ (i : ℕ) (task : State.Row T),
    s.turns.tasks[i]? = some task ∧ task.payload.stage = .publishing value
  unwritten : s.cell = .uninit → s.writer = none
  recorded : ∀ i, s.writer = some i → i < s.turns.tasks.length
  sound : s.panicked = none

structure Moves {T W : Type} (s : State T W) (a : Action T W) (t : State T W) : Prop where
  stored : ∀ value, s.cell.stored = some value → t.cell.stored = some value
  get : ∀ value, s.cell.get = some value → t.cell.get = some value
  writer : ∀ i, s.writer = some i → t.writer = some i
  writes : ∀ i, a = .write i → s.cell = .uninit ∧ t.cell ≠ .uninit ∧ t.writer = some i

theorem Moves.of_eq {T W : Type} {s t : State T W} {a : Action T W} (hcell : t.cell = s.cell)
    (hwriter : t.writer = s.writer) (ha : ∀ i, a ≠ .write i) : Moves s a t := by
  refine ⟨fun value h => ?_,fun value h => ?_,fun i h => ?_,fun i h => absurd h (ha i)⟩
  · rwa [hcell]
  · rwa [hcell]
  · rwa [hwriter]

theorem Payload.Owns.restage {T : Type} {cell : ValueCell T} {writer : Option ℕ} {i : ℕ} {p : Payload T}
    (h : p.Owns cell writer i) (hp : ∀ v, p.stage ≠ .writing v) {stage : Stage T}
    (hstage : ∀ v, stage ≠ .writing v) : Payload.Owns cell writer i {p with stage := stage} := by
  intro value hkind
  rcases h value hkind with ⟨hown,hwriter,-⟩ | ⟨hown,hwriting | hwritten⟩
  · exact Or.inl ⟨hown,hwriter,hstage⟩
  · exact absurd hwriting (hp value)
  · exact Or.inr ⟨hown,Or.inr hwritten⟩

namespace Ok

variable {T W : Type} [Wake W] {s t : State T W} {i : ℕ} {task : State.Row T}
variable {turns : Turns.State (Payload T) W} {phase : Turns.Phase} {stage : Stage T} {kind : Kind T}
    {value : T} {x : Except String (State T W)} {a : Action T W}

theorem new (value : Option T) : Ok (new T W value) where
  turns := .new _
  fits i task hi := by cases hi
  owns i task hi := by cases hi
  unpublished v hv := by cases value <;> cases hv
  unwritten _ := rfl
  recorded i hi := by cases hi
  sound := rfl

section

variable (h : Ok s) (hi : s.turns.tasks[i]? = some task)
include h hi

theorem change {new : State.Row T} (hturns : Turns.Placed Payload.place turns)
    (htasks : turns.tasks = s.turns.tasks.set i new) (hfits : new.payload.stage.Fits s.cell)
    (howns : new.payload.Owns s.cell s.writer i)
    (hkeep : ∀ v, task.payload.stage = .publishing v → new.payload.stage = .publishing v) :
    Ok {s with turns := turns} := by
  refine ⟨hturns,?_,?_,?_,h.unwritten,?_,h.sound⟩
  · intro j other hj
    rw [show turns.tasks = _ from htasks] at hj
    rcases Table.getElem?_set_cases hj with ⟨-,rfl⟩ | ⟨-,hj⟩
    · exact hfits
    · exact h.fits j other hj
  · intro j other hj
    rw [show turns.tasks = _ from htasks] at hj
    rcases Table.getElem?_set_cases hj with ⟨rfl,rfl⟩ | ⟨-,hj⟩
    · exact howns
    · exact h.owns j other hj
  · intro value hcell
    obtain ⟨j,other,hj,hstage⟩ := h.unpublished value hcell
    show ∃ (i : ℕ) (task : State.Row T), turns.tasks[i]? = some task ∧ _
    rw [htasks]
    by_cases hji : j = i
    · subst hji
      cases hi.symm.trans hj
      exact ⟨j,new,Table.getElem?_set_self' hi new,hkeep value hstage⟩
    · exact ⟨j,other,(List.getElem?_set_ne (Ne.symm hji)).trans hj,hstage⟩
  · intro j hj
    show j < turns.tasks.length
    rw [htasks,List.length_set]
    exact h.recorded j hj

theorem carry {call : Option ℕ} (hturns : Turns.Placed Payload.place turns)
    (htasks : turns.tasks = s.turns.tasks.set i ⟨task.payload,phase,call⟩) :
    Ok {s with turns := turns} :=
  h.change hi hturns htasks (h.fits i task hi) (h.owns i task hi) fun _ hv => hv

theorem restage {call : Option ℕ} (hturns : Turns.Placed Payload.place turns)
    (htasks : turns.tasks = s.turns.tasks.set i ⟨{task.payload with stage := stage},phase,call⟩)
    (hold : ∀ v, task.payload.stage ≠ .writing v ∧ task.payload.stage ≠ .publishing v)
    (hfits : stage.Fits s.cell) (hstage : ∀ v, stage ≠ .writing v) : Ok {s with turns := turns} :=
  h.change hi hturns htasks hfits ((h.owns i task hi).restage (fun v => (hold v).1) hstage)
    fun v hv => absurd hv (hold v).2

theorem setStage (hplace : (Payload.place {task.payload with stage := stage}).Fits task.phase)
    (hold : ∀ v, task.payload.stage ≠ .writing v ∧ task.payload.stage ≠ .publishing v)
    (hfits : stage.Fits s.cell) (hstage : ∀ v, stage ≠ .writing v) : Ok (s.setStage i task stage) :=
  h.restage hi (h.turns.restage hi hplace) rfl hold hfits hstage

theorem look (hx : s.look i task = some t) : Ok t ∧ Moves s (.look i) t := by
  obtain ⟨⟨kind,stage,own⟩,phase,call⟩ := task
  cases stage with
  | entered =>
    have houtside : phase = .outside := h.turns.fits i _ hi
    have hafter (outcome : Outcome T) : (Payload.place ⟨kind,.ending outcome,own⟩).Fits phase := by
      intro f hf
      rw [houtside] at hf
      cases hf
    simp only [State.look] at hx
    split at hx
    · next value hget =>
      cases hx
      exact ⟨h.setStage hi (hafter _) (fun v => ⟨by simp,by simp⟩) (ValueCell.get_eq_some.mp hget) (by simp),
        .of_eq rfl rfl (by simp)⟩
    · cases hx
      exact ⟨h.setStage hi (hafter _) (fun v => ⟨by simp,by simp⟩) trivial (by simp),
        .of_eq rfl rfl (by simp)⟩
    · obtain ⟨turns,hturns,rfl⟩ := Option.map_eq_some_iff.mp hx
      obtain ⟨hplaced,f,htasks⟩ := h.turns.enter hi rfl rfl hturns
      exact ⟨h.restage hi hplaced htasks (fun v => ⟨by simp,by simp⟩) trivial (by simp),
        .of_eq rfl rfl (by simp)⟩
  | _ => cases hx

theorem poll {waker : W} (hx : s.poll i task waker = some t) : Ok t ∧ Moves s (.poll i waker) t := by
  rw [State.poll] at hx
  split at hx
  · obtain ⟨turns,hturns,rfl⟩ := Option.map_eq_some_iff.mp hx
    obtain ⟨hplaced,call,htasks⟩ := h.turns.poll hi hturns
    exact ⟨h.carry hi hplaced htasks,.of_eq rfl rfl (by simp)⟩
  · cases hx

/-- A call that holds the permit and finds no value is alone with an unwritten cell. -/
theorem recheck (hx : s.recheck i task = some t) : Ok t ∧ Moves s (.recheck i) t := by
  obtain ⟨⟨kind,stage,own⟩,phase,call⟩ := task
  simp only [State.recheck] at hx
  split at hx
  · split at hx
    · next value hget =>
      cases hx
      exact ⟨h.setStage hi (fun f hf => by cases hf) (fun v => ⟨by simp,by simp⟩)
        (ValueCell.get_eq_some.mp hget) (by simp),.of_eq rfl rfl (by simp)⟩
    · next hget =>
      cases hx
      have huninit : s.cell = .uninit := by
        refine (ValueCell.get_eq_none_cases hget).resolve_right ?_
        rintro ⟨v,hv⟩
        obtain ⟨j,⟨⟨kind',stage',own'⟩,phase',call'⟩,hj,hstage⟩ := h.unpublished v hv
        obtain rfl : stage' = .publishing v := hstage
        have hphase : phase' = .holding := h.turns.fits j _ hj
        obtain rfl := h.turns.ok.exclusive hi hj rfl hphase
        cases hi.symm.trans hj
      exact ⟨h.setStage hi rfl (fun v => ⟨by simp,by simp⟩) huninit (by simp),.of_eq rfl rfl (by simp)⟩
  · cases hx

end

theorem finish (h : Ok s) {own : Option T} {call : Option ℕ}
    (hi : s.turns.tasks[i]? = some ⟨⟨kind,.running,own⟩,phase,call⟩) {outcome : Outcome T}
    (hfits : (Stage.ending outcome).Fits s.cell) :
    Ok (s.setStage i ⟨⟨kind,.running,own⟩,phase,call⟩ (.ending outcome)) := by
  have hholding : phase = .holding := h.turns.fits i _ hi
  refine h.setStage hi ?_ (fun v => ⟨by simp,by simp⟩) hfits (by simp)
  intro f hf
  rw [hholding] at hf
  cases hf

/-- The value goes to the cell, and a call of `try_insert` no longer has it. -/
theorem produce (h : Ok s) {own own' : Option T} {call : Option ℕ}
    (hi : s.turns.tasks[i]? = some ⟨⟨kind,.running,own⟩,phase,call⟩)
    (hown : ∀ v, kind = .tryInsert v → own' = none ∧ value = v) :
    Ok (s.setPayload i ⟨⟨kind,.running,own⟩,phase,call⟩ ⟨kind,.writing value,own'⟩) := by
  have hfits : s.cell = .uninit := h.fits i _ hi
  refine h.change hi (h.turns.restage hi (h.turns.fits i _ hi)) rfl hfits ?_ (by simp)
  intro v hv
  obtain ⟨hnone,rfl⟩ := hown v hv
  exact Or.inr ⟨hnone,Or.inl rfl⟩

section

variable (h : Ok s) (hi : s.turns.tasks[i]? = some task)
include h hi

theorem complete (hx : s.complete i task value = some x) :
    ∃ t, x = .ok t ∧ Ok t ∧ Moves s (.complete i value) t := by
  obtain ⟨⟨kind,stage,own⟩,phase,call⟩ := task
  cases stage with
  | running =>
    have hcell : s.cell = .uninit := h.fits i _ hi
    cases kind with
    | tryInsert given =>
      cases hx
      have hown : own = some given := by
        rcases h.owns i _ hi given rfl with ⟨hown,-⟩ | ⟨-,hwriting | ⟨hwriter,-⟩⟩
        · exact hown
        · cases hwriting
        · rw [h.unwritten hcell] at hwriter
          cases hwriter
      subst hown
      refine ⟨_,rfl,h.produce hi fun v hv => ?_,.of_eq rfl rfl (by simp)⟩
      cases hv
      exact ⟨rfl,rfl⟩
    | _ =>
      cases hx
      exact ⟨_,rfl,h.produce hi (by simp),.of_eq rfl rfl (by simp)⟩
  | _ => cases hx

theorem fail (hx : s.fail i task = some t) : Ok t ∧ Moves s (.fail i) t := by
  obtain ⟨⟨kind,stage,own⟩,phase,call⟩ := task
  simp only [State.fail] at hx
  split at hx
  · cases hx
    exact ⟨h.finish hi trivial,.of_eq rfl rfl (by simp)⟩
  · cases hx

theorem panic (hx : s.panic i task = some t) : Ok t ∧ Moves s (.panic i) t := by
  obtain ⟨⟨kind,stage,own⟩,phase,call⟩ := task
  simp only [State.panic] at hx
  split at hx
  · cases hx
  · cases hx
    exact ⟨h.finish hi trivial,.of_eq rfl rfl (by simp)⟩
  · cases hx

theorem cancel (hx : s.cancel i task = some t) : Ok t ∧ Moves s (.cancel i) t := by
  obtain ⟨⟨kind,stage,own⟩,phase,call⟩ := task
  simp only [State.cancel] at hx
  split at hx
  · cases hx
  · cases hx
    have houtside : phase = .outside := h.turns.fits i _ hi
    refine ⟨h.setStage hi ?_ (fun v => ⟨by simp,by simp⟩) trivial (by simp),.of_eq rfl rfl (by simp)⟩
    intro f hf
    rw [houtside] at hf
    cases hf
  · obtain ⟨turns,hturns,rfl⟩ := Option.map_eq_some_iff.mp hx
    obtain ⟨hplaced,phase',call',htasks⟩ := h.turns.cancel hi rfl hturns
    exact ⟨h.restage hi hplaced htasks (fun v => ⟨by simp,by simp⟩) trivial (by simp),
      .of_eq rfl rfl (by simp)⟩
  · cases hx
  · cases hx
    exact ⟨h.finish hi trivial,.of_eq rfl rfl (by simp)⟩
  · cases hx

end

theorem fits_outside (h : Ok s) {own : Option T} {call : Option ℕ}
    (hi : s.turns.tasks[i]? = some ⟨⟨kind,stage,own⟩,phase,call⟩) (hphase : phase ≠ .holding)
    {cell : ValueCell T} (hcell : ∀ value, s.cell = .ready value → cell = .ready value) :
    stage.Fits cell := by
  have hplace := h.turns.fits i _ hi
  have hfits := h.fits i _ hi
  cases stage with
  | ending outcome =>
    cases outcome with
    | returned value => exact hcell value hfits
    | _ => trivial
  | entered => trivial
  | acquiring => trivial
  | _ => exact absurd hplace hphase

theorem setCell (h : Ok s) {own : Option T} {call : Option ℕ}
    (hi : s.turns.tasks[i]? = some ⟨⟨kind,stage,own⟩,.holding,call⟩) (stage' : Stage T)
    (cell : ValueCell T) (writer : Option ℕ) (hplace : (Payload.place ⟨kind,stage',own⟩).Fits .holding)
    (hcell : ∀ value, s.cell = .ready value → cell = .ready value)
    (hstored : ∀ value, s.cell.stored = some value → cell.stored = some value)
    (hwriter : ∀ j, j ≠ i → (writer = some j ↔ s.writer = some j)) (hfits : stage'.Fits cell)
    (howns : Payload.Owns cell writer i ⟨kind,stage',own⟩)
    (hopen : ∀ value, cell = .written value → stage' = .publishing value) (hinit : cell ≠ .uninit) :
    Ok {s.setStage i ⟨⟨kind,stage,own⟩,.holding,call⟩ stage' with cell := cell,writer := writer} := by
  refine ⟨h.turns.restage hi hplace,?_,?_,?_,fun hno => absurd hno hinit,?_,h.sound⟩
  · intro j other hj
    rcases Table.getElem?_set_cases hj with ⟨-,rfl⟩ | ⟨hji,hj⟩
    · exact hfits
    · obtain ⟨⟨kind',stage',own'⟩,phase',call'⟩ := other
      exact h.fits_outside hj (fun hphase => hji (h.turns.ok.exclusive hj hi hphase rfl)) hcell
  · intro j other hj
    rcases Table.getElem?_set_cases hj with ⟨rfl,rfl⟩ | ⟨hji,hj⟩
    · exact howns
    · intro v hv
      rcases h.owns j other hj v hv with ⟨hown,hw,hstage⟩ | ⟨hown,hwriting | ⟨hw,hs⟩⟩
      · exact Or.inl ⟨hown,fun heq => hw ((hwriter j hji).mp heq),hstage⟩
      · exact Or.inr ⟨hown,Or.inl hwriting⟩
      · exact Or.inr ⟨hown,Or.inr ⟨(hwriter j hji).mpr hw,hstored v hs⟩⟩
  · intro value hwritten
    exact ⟨i,_,Table.getElem?_set_self' hi _,hopen value hwritten⟩
  · intro j hj
    show j < (s.turns.tasks.set i _).length
    rw [List.length_set]
    by_cases hji : j = i
    · rw [hji]
      exact (List.getElem?_eq_some_iff.mp hi).1
    · exact h.recorded j ((hwriter j hji).mp hj)

section

variable (h : Ok s) (hi : s.turns.tasks[i]? = some task)
include h hi

theorem write (hx : s.write i task = some x) : ∃ t, x = .ok t ∧ Ok t ∧ Moves s (.write i) t := by
  obtain ⟨⟨kind,stage,own⟩,phase,call⟩ := task
  cases stage with
  | writing value =>
    cases hx
    have hcell : s.cell = .uninit := h.fits i _ hi
    have hwriter := h.unwritten hcell
    obtain rfl : phase = .holding := h.turns.fits i _ hi
    have hset : s.cell.write value = .ok (.written value) := by
      rw [hcell]
      rfl
    refine ⟨{s.setStage i ⟨⟨kind,.writing value,own⟩,.holding,call⟩ (.publishing value) with
      cell := .written value,writer := some i},?_,?_,?_⟩
    · simp only [hset,bind,Except.bind]
    · refine h.setCell hi (.publishing value) (.written value) (some i) rfl (by simp [hcell]) (by simp [hcell,ValueCell.stored])
        (fun j hj => ?_) rfl ?_ (fun v hv => by cases hv; rfl) (by simp)
      · rw [hwriter]
        simp [Ne.symm hj]
      · intro v hv
        rcases h.owns i _ hi v hv with ⟨-,-,hno⟩ | ⟨hown,hwriting | ⟨hw,-⟩⟩
        · exact absurd rfl (hno value)
        · cases hwriting
          exact Or.inr ⟨hown,Or.inr ⟨rfl,rfl⟩⟩
        · rw [hwriter] at hw
          cases hw
    · refine ⟨by simp [hcell,ValueCell.stored],by simp [hcell,ValueCell.get],by simp [hwriter],fun j hj => ?_⟩
      cases hj
      exact ⟨hcell,by simp,rfl⟩
  | _ => cases hx

theorem publish (hx : s.publish i task = some t) : Ok t ∧ Moves s (.publish i) t := by
  obtain ⟨⟨kind,stage,own⟩,phase,call⟩ := task
  cases stage with
  | publishing value =>
    cases hx
    have hcell : s.cell = .written value := h.fits i _ hi
    obtain rfl : phase = .holding := h.turns.fits i _ hi
    have hset : s.cell.publish = .ready value := by
      rw [hcell]
      rfl
    have hstored (v : T) (hv : s.cell.stored = some v) : (ValueCell.ready value).stored = some v := by
      rwa [hcell] at hv
    rw [hset]
    refine ⟨h.setCell hi (.ending (.returned value)) (.ready value) s.writer (fun f hf => by cases hf)
      (by simp [hcell]) hstored (fun _ _ => Iff.rfl) rfl ?_ (by simp) (by simp),hstored,by simp [hcell,ValueCell.get],fun _ hw => hw,by simp⟩
    intro v hv
    rcases h.owns i _ hi v hv with ⟨hown,hw,-⟩ | ⟨hown,hwriting | ⟨hw,hs⟩⟩
    · exact Or.inl ⟨hown,hw,by simp⟩
    · cases hwriting
    · exact Or.inr ⟨hown,Or.inr ⟨hw,hstored v hs⟩⟩
  | _ => cases hx

theorem leave (hx : s.leave i task = some t) : Ok t ∧ Moves s (.leave i) t := by
  rw [State.leave] at hx
  split at hx
  · next outcome hstage =>
    obtain ⟨turns,hturns,rfl⟩ := Option.map_eq_some_iff.mp hx
    obtain ⟨hplaced,phase,call,htasks⟩ := h.turns.leave hi (by rw [Payload.place,hstage]) hturns
    exact ⟨h.carry hi hplaced htasks,.of_eq rfl rfl (by simp)⟩
  · cases hx

theorem advance {spurious : Bool} (hx : s.advance i task spurious = some t) :
    Ok t ∧ Moves s (.advance i spurious) t := by
  obtain ⟨turns,hturns,rfl⟩ := Option.map_eq_some_iff.mp hx
  obtain ⟨hplaced,phase,call,htasks⟩ := h.turns.advance hi hturns
  exact ⟨h.carry hi hplaced htasks,.of_eq rfl rfl (by simp)⟩

end

theorem call (h : Ok s) (kind : Kind T) :
    Ok {s with turns := s.turns.add ⟨kind,.entered,kind.own⟩} := by
  refine ⟨h.turns.add rfl,?_,?_,?_,h.unwritten,?_,h.sound⟩
  · exact Table.forall_push h.fits trivial
  · intro j other hj
    rcases Table.getElem?_push hj with hj | ⟨rfl,rfl⟩
    · exact h.owns j other hj
    · intro v hv
      refine Or.inl ⟨?_,fun hw => absurd (h.recorded _ hw) (Nat.lt_irrefl _),by simp⟩
      rw [show kind = .tryInsert v from hv]
      rfl
  · intro value hcell
    obtain ⟨j,other,hj,hstage⟩ := h.unpublished value hcell
    exact ⟨j,other,Table.getElem?_push_old hj _,hstage⟩
  · intro j hj
    exact (h.recorded j hj).trans (by simp [Turns.State.add])

theorem act (h : Ok s) (hx : s.act a = some x) : ∃ t, x = .ok t ∧ Ok t ∧ Moves s a t := by
  have hrow {i : ℕ} {f : State.Row T → Option (State T W)}
      (hx : (s.turns.tasks[i]?.bind fun task => (f task).map .ok) = some x)
      (hf : ∀ {task t}, s.turns.tasks[i]? = some task → f task = some t → Ok t ∧ Moves s a t) :
      ∃ t, x = .ok t ∧ Ok t ∧ Moves s a t := by
    obtain ⟨task,t,hi,ht,rfl⟩ := Table.bind_ok hx
    exact ⟨t,rfl,hf hi ht⟩
  cases a with
  | call kind =>
    cases hx
    exact ⟨_,rfl,h.call kind,.of_eq rfl rfl (by simp)⟩
  | look i => exact hrow hx h.look
  | poll i waker => exact hrow hx fun hi => h.poll hi
  | recheck i => exact hrow hx h.recheck
  | complete i value =>
    obtain ⟨task,hi,hx⟩ := Option.bind_eq_some_iff.mp hx
    exact h.complete hi hx
  | fail i => exact hrow hx h.fail
  | panic i => exact hrow hx h.panic
  | cancel i => exact hrow hx h.cancel
  | write i =>
    obtain ⟨task,hi,hx⟩ := Option.bind_eq_some_iff.mp hx
    exact h.write hi hx
  | publish i => exact hrow hx h.publish
  | leave i => exact hrow hx h.leave
  | advance i spurious => exact hrow hx fun hi => h.advance hi

theorem next (h : Ok s) (hn : s.next a = some t) : Ok t ∧ Moves s a t :=
  (Transition.step_ok (fun _ => h.act) hn).2

end Ok

theorem reachable_ok {T W : Type} [Wake W] {value : Option T} {s : State T W}
    (h : (machine T W value).Reachable s) : Ok s := by
  refine (machine T W value).invariant Ok ?_ (fun s a t hs hn => (hs.next hn).1) h
  rintro s rfl
  exact .new value

def Payload.inserted {T : Type} (p : Payload T) : Option (Except (T × T) T) :=
  match p.kind,p.stage with
  | .tryInsert _,.ending (.returned value) =>
    some (match p.own with
      | none => .ok value
      | some own => .error (value,own))
  | _,_ => none

theorem Payload.place_acquiring {T : Type} (p : Payload T) (h : p.place = .acquiring) :
    p.stage = .acquiring := by
  obtain ⟨kind,stage,own⟩ := p
  cases stage <;> cases h
  rfl

theorem Payload.place_after {T : Type} (p : Payload T) (h : p.place = .after) :
    ∃ outcome, p.stage = .ending outcome := by
  obtain ⟨kind,stage,own⟩ := p
  cases stage with
  | ending outcome => exact ⟨outcome,rfl⟩
  | _ => cases h

structure State.Contract {T W : Type} [Wake W] (s : State T W) : Prop where
  /-- At most one call is between the start of its initializer and the publication. -/
  exclusive : ∀ (i j : ℕ) task other, s.turns.tasks[i]? = some task → s.turns.tasks[j]? = some other →
    task.payload.place = .inside → other.payload.place = .inside → i = j
  /-- Initializers run only in front of the write. -/
  closed : s.cell.stored ≠ none → ∀ (i : ℕ) task, s.turns.tasks[i]? = some task →
    task.payload.stage ≠ .running
  writes : ∀ i t, s.next (.write i) = some t →
    s.cell.stored = none ∧ t.cell.stored ≠ none ∧ t.writer = some i
  kept : ∀ a t, s.next a = some t → (∀ value, s.cell.stored = some value → t.cell.stored = some value) ∧
    (∀ value, s.cell.get = some value → t.cell.get = some value) ∧
    ∀ i, s.writer = some i → t.writer = some i
  returned : ∀ (i : ℕ) task value, s.turns.tasks[i]? = some task →
    task.payload.stage = .ending (.returned value) →
    s.cell.stored = some value ∧ s.cell.get = some value
  /-- The call whose value was stored gets `Ok`, and every other one gets its value back. -/
  inserted : ∀ (i : ℕ) task given result, s.turns.tasks[i]? = some task →
    task.payload.kind = .tryInsert given → task.payload.inserted = some result →
    ∃ value, s.cell.get = some value ∧
      (s.writer = some i ∧ value = given ∧ result = .ok value ∨
        s.writer ≠ some i ∧ result = .error (value,given))
  /-- A failed, panicked or cancelled attempt ends its call, which still holds the permit, -/
  interrupted : ∀ (i : ℕ) task a outcome t, s.turns.tasks[i]? = some task →
    task.payload.stage = .running → a = .fail i ∧ outcome = .failed ∨
      a = .panic i ∧ outcome = .unwound ∨ a = .cancel i ∧ outcome = .cancelled →
    s.next a = some t →
    t.turns.tasks = s.turns.tasks.set i ⟨{task.payload with stage := .ending outcome},.holding,none⟩
  /-- and the permit is handed on. -/
  permit : Turns.Handover State.next State.turns Payload.place .poll .leave .cancel .advance s
  sound : s.panicked = none

namespace Ok

variable {T W : Type} [Wake W] {s : State T W} {i : ℕ} {task : State.Row T}

theorem inserted (h : Ok s) (hi : s.turns.tasks[i]? = some task) {given : T}
    (hkind : task.payload.kind = .tryInsert given) {result : Except (T × T) T}
    (hresult : task.payload.inserted = some result) :
    ∃ value, s.cell.get = some value ∧
      (s.writer = some i ∧ value = given ∧ result = .ok value ∨
        s.writer ≠ some i ∧ result = .error (value,given)) := by
  have hfits := h.fits i task hi
  have howns := h.owns i task hi given hkind
  obtain ⟨⟨kind,stage,own⟩,phase,call⟩ := task
  simp only [Payload.inserted] at hresult
  split at hresult
  · next value =>
    have hcell : s.cell = .ready value := hfits
    refine ⟨value,by rw [hcell]; rfl,?_⟩
    rcases howns with ⟨rfl,hwriter,-⟩ | ⟨rfl,hwriting | ⟨hwriter,hstored⟩⟩
    · cases hresult
      exact Or.inr ⟨hwriter,rfl⟩
    · cases hwriting
    · cases hresult
      rw [hcell] at hstored
      exact Or.inl ⟨hwriter,Option.some.inj hstored,rfl⟩
  · cases hresult

theorem interrupted (h : Ok s) (hi : s.turns.tasks[i]? = some task) {a : Action T W} {t : State T W}
    {outcome : Outcome T} (hstage : task.payload.stage = .running) (ha : a = .fail i ∧ outcome = .failed ∨
      a = .panic i ∧ outcome = .unwound ∨ a = .cancel i ∧ outcome = .cancelled)
    (hn : s.next a = some t) : t.turns.tasks =
      s.turns.tasks.set i ⟨{task.payload with stage := .ending outcome},.holding,none⟩ := by
  obtain ⟨hact,-⟩ := Transition.step_ok (fun _ => h.act) hn
  obtain ⟨⟨kind,stage,own⟩,phase,call⟩ := task
  obtain rfl : stage = .running := hstage
  obtain rfl : phase = .holding := h.turns.fits i _ hi
  obtain rfl : call = none := h.turns.ok.fits i _ hi
  rcases ha with ⟨rfl,rfl⟩ | ⟨rfl,rfl⟩ | ⟨rfl,rfl⟩ <;>
    simp only [State.act,hi,Option.bind_some] at hact <;> cases kind <;> cases hact <;> rfl

theorem handover (h : Ok s) :
    Turns.Handover State.next State.turns Payload.place .poll .leave .cancel .advance s := by
  refine h.turns.handover (fun turns => {s with turns := turns}) (fun _ => rfl) ?_ ?_ ?_ ?_ ?_
  · intro i task waker turns hi hplace hx
    refine Transition.step_of_act h.sound ?_
    simp [State.act,hi,State.poll,task.payload.place_acquiring hplace,hx]
  · intro i task turns hi hplace hx
    obtain ⟨outcome,hstage⟩ := task.payload.place_after hplace
    refine Transition.step_of_act h.sound ?_
    simp [State.act,hi,State.leave,hstage,hx]
  · intro i task hi hplace
    refine ⟨{task.payload with stage := .ending .cancelled},rfl,fun turns hx => ?_⟩
    refine Transition.step_of_act h.sound ?_
    simp [State.act,hi,State.cancel,task.payload.place_acquiring hplace,hx]
  · intro i task spurious turns hi hx
    refine Transition.step_of_act h.sound ?_
    simp [State.act,hi,State.advance,hx]
  · intro i spurious u hu
    obtain ⟨hact,-⟩ := Transition.step_ok (fun _ => h.act) hu
    obtain ⟨task,t,hi,ht,heq⟩ := Table.bind_ok hact
    cases heq
    obtain ⟨turns,hturns,rfl⟩ := Option.map_eq_some_iff.mp ht
    exact ⟨task,turns,hi,hturns,rfl⟩

theorem contract (h : Ok s) : s.Contract where
  exclusive i j task other hi hj := h.turns.inside_unique hi hj
  closed hstored i task hi hstage := by
    have hfits := h.fits i task hi
    rw [hstage] at hfits
    exact hstored (ValueCell.stored_eq_none.mpr hfits)
  writes i t hn := by
    obtain ⟨hs,ht,hwriter⟩ := (h.next hn).2.writes i rfl
    exact ⟨ValueCell.stored_eq_none.mpr hs,fun hno => ht (ValueCell.stored_eq_none.mp hno),hwriter⟩
  kept a t hn := ⟨(h.next hn).2.stored,(h.next hn).2.get,(h.next hn).2.writer⟩
  returned i task value hi hstage := by
    have hfits := h.fits i task hi
    rw [hstage] at hfits
    rw [show s.cell = .ready value from hfits]
    exact ⟨rfl,rfl⟩
  inserted i task given result hi hkind := h.inserted hi hkind
  interrupted i task a outcome t hi := h.interrupted hi
  permit := h.handover
  sound := h.sound

end Ok
end OnceCell
end Asyncband
