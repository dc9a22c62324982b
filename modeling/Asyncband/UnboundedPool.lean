import Asyncband.PoolStock
import Asyncband.Transition

/-! The unbounded pool.
A task is one call on the pool together with the object it may return. One step is one
critical section of the lock of `slots`, one call of `on_detached`, or the end of a future that
the manager or the caller supplied. The pool stays alive, so that a weak reference to it can
always be upgraded. -/
namespace Asyncband
namespace UnboundedPool

open Pool

structure PoolConfig where
  queueStrategy : QueueStrategy
  recycleCancelledStrategy : RecycleCancelledStrategy
  deriving DecidableEq

inductive Call
  | get | tryGet | getOrCreate | extend | retain
  deriving DecidableEq

inductive Stage (T : Type)
  /-- The call locks the queue next; this is also the head of the loop of `get`. -/
  | entering (call : Call)
  | creating
  | recycling (state : ObjectState T)
  | object (state : ObjectState T)
  /-- Objects have left the pool and `on_detached` is called with one after the other. A `get`
  that rejected its object goes on behind that. -/
  | detaching (removed : List ℕ) (retry : Bool)
  | done

structure State (T : Type) where
  config : PoolConfig
  slots : PoolState T
  tasks : List (Stage T)
  /-- Ghost: the number of objects that entered the pool. -/
  created : ℕ
  /-- Ghost: the objects that `on_detached` was called with. -/
  detached : List ℕ
  panicked : Option String

/-- What happens to a task from outside, or that its thread goes on. -/
inductive Use (T : Type)
  | proceed
  /-- The items of `extend`, each with the instant at which it is wrapped. -/
  | items (items : List (T × ℕ))
  | predicate (f : Predicate ℕ T)
  | cancel
  | created (o : T) (now : ℕ)
  | failed
  | touch (o : T)
  | accepted | rejected
  | drop (now : ℕ)
  | detach

inductive Action (T : Type)
  | call (call : Call)
  | use (i : ℕ) (use : Use T)

variable {T : Type}

def new (T : Type) (config : PoolConfig) : State T := ⟨config,.new T,[],0,[],none⟩

/-- The rest of a task behind its calls of `on_detached`. -/
def Stage.after (removed : List ℕ) (retry : Bool) : Stage T :=
  match removed,retry with
  | [],true => .entering .get
  | [],false => .done
  | removed,retry => .detaching removed retry

namespace State

def put (s : State T) (i : ℕ) (slots : PoolState T) (stage : Stage T) : State T :=
  {s with slots := slots,tasks := s.tasks.set i stage}

/-- The first part of `get`, `try_get` and `get_or_create`. Only `get` asks the manager whether
the object may be used again. -/
def take (s : State T) (i : ℕ) (call : Call) : Except String (State T) :=
  match s.slots.pop s.config.queueStrategy with
  | (none,slots) => .ok (s.put i slots (if call = .tryGet then .done else .creating))
  | (some state,slots) =>
    if call = .get then .ok (s.put i slots (.recycling state))
    else state.status.markRecycled.map fun status =>
      s.put i slots (.object {state with status := status})

def detachObject (s : State T) (i : ℕ) (state : ObjectState T) (retry : Bool) :
    Except String (State T) :=
  s.slots.detach.map fun slots => s.put i slots (.detaching [state.id] retry)

def extend (slots : PoolState T) (created : ℕ) : List (T × ℕ) → Except String (PoolState T)
  | [] => .ok slots
  | (o,now)::items =>
    (slots.addIdle ⟨o,.default now,created⟩).bind fun slots => extend slots (created+1) items

def act (s : State T) (i : ℕ) : Stage T → Use T → Option (Except String (State T))
  | .entering .extend, .items items => some ((extend s.slots s.created items).map fun slots =>
    {s.put i slots .done with created := s.created+items.length})
  | .entering .retain, .predicate f => some ((s.slots.retain f 0).map fun (_,slots) =>
    s.put i slots (.after (s.slots.departed f 0) false))
  | .entering .get, .proceed => some (s.take i .get)
  | .entering .tryGet, .proceed => some (s.take i .tryGet)
  | .entering .getOrCreate, .proceed => some (s.take i .getOrCreate)
  | .entering _, .cancel | .creating, .failed | .creating, .cancel =>
    some (.ok (s.put i s.slots .done))
  | .creating, .created o now => some (s.slots.addActive.map fun slots =>
    {s.put i slots (.object ⟨o,.default now,s.created⟩) with created := s.created+1})
  | .recycling state, .touch o => some (.ok (s.put i s.slots (.recycling {state with o := o})))
  | .recycling state, .accepted =>
    some (state.status.markRecycled.map fun status =>
      s.put i s.slots (.object {state with status := status}))
  | .recycling state, .rejected => some (s.detachObject i state true)
  -- `UnreadyObject::drop`
  | .recycling state, .cancel =>
    match s.config.recycleCancelledStrategy with
    | .detach => some (s.detachObject i state false)
    | .returnToPool => some (.ok (s.put i (s.slots.returnIdle state) .done))
  | .object state, .touch o => some (.ok (s.put i s.slots (.object {state with o := o})))
  | .object state, .drop now => some (.ok (s.put i
    (s.slots.returnIdle {state with status := state.status.markReturned now}) .done))
  | .object state, .detach => some (s.detachObject i state false)
  | .detaching (id::removed) retry, .proceed =>
    some (.ok {s.put i s.slots (.after removed retry) with detached := s.detached++[id]})
  | _, _ => none

instance : Transition.Faulty (State T) String :=
  ⟨panicked,fun s message => {s with panicked := some message}⟩

def perform (s : State T) : Action T → Option (Except String (State T))
  | .call call => some (.ok {s with tasks := s.tasks++[.entering call]})
  | .use i use => s.tasks[i]?.bind fun stage => s.act i stage use

abbrev next (s : State T) (a : Action T) : Option (State T) := Transition.step perform s a

end State

def machine (T : Type) : Transition.Machine (State T) (Action T) where
  init s := ∃ config, s = new T config
  next := State.next

namespace Stage

def live : Stage T → List ℕ
  | .recycling state | .object state => [state.id]
  | _ => []

/-- The objects that `on_detached` has to be called with. -/
def leaving : Stage T → List ℕ
  | .detaching removed _ => removed
  | _ => []

def ids (stage : Stage T) : List ℕ := stage.live++stage.leaving

@[simp] theorem live_after (removed : List ℕ) (retry : Bool) :
    (after removed retry : Stage T).live = [] := by
  cases removed <;> cases retry <;> rfl

@[simp] theorem leaving_after (removed : List ℕ) (retry : Bool) :
    (after removed retry : Stage T).leaving = removed := by
  cases removed <;> cases retry <;> rfl

end Stage

structure Ok (s : State T) : Prop where
  stock : Stock Stage.ids s.slots.idle s.tasks s.detached s.created
  size : s.slots.currentSize = s.slots.idle.length+Table.total (·.live.length) s.tasks
  sound : ∀ message, s.panicked = some message → message = "attempt to add with overflow"

def State.Gone (s : State T) (id : ℕ) : Prop :=
  0 < Table.total (·.leaving.count id) s.tasks+s.detached.count id

variable {s t : State T} {i : ℕ} {old new : Stage T} {slots : PoolState T}

theorem extend_cases (items : List (T × ℕ)) (slots : PoolState T) (created : ℕ) :
    (∃ slots', State.extend slots created items = .ok slots' ∧
      numbers slots'.idle = numbers slots.idle++List.range' created items.length ∧
      slots'.currentSize = slots.currentSize+items.length) ∨
    State.extend slots created items = .error "attempt to add with overflow" := by
  induction items generalizing slots created with
  | nil => exact .inl ⟨slots,rfl,(List.append_nil _).symm,rfl⟩
  | cons item items ih =>
    rcases Checked.add_cases usizeMax slots.currentSize 1 with hadd | hadd
    · simp only [State.extend,PoolState.addIdle,hadd,bind,Except.bind]
      refine (ih _ _).imp_left fun ⟨slots',hx,hids,hsize⟩ => ⟨slots',hx,?_,?_⟩
      · simpa [numbers,List.range'_succ] using hids
      · rw [hsize,List.length_cons,Nat.add_assoc,Nat.add_comm 1]
    · exact .inr (by rw [State.extend,PoolState.addIdle,hadd]; rfl)

/-- What a step leaves behind: the pool is in order, and no object comes back. -/
structure Steps (s t : State T) : Prop where
  ok : Ok t
  gone : ∀ id, s.Gone id → t.Gone id

namespace Ok

variable (h : Ok s) (hi : s.tasks[i]? = some old)
include h hi

theorem put (n : ℕ) (detached : List ℕ)
    (hcount : ∀ id, (numbers slots.idle).count id+new.ids.count id+detached.count id =
      (numbers s.slots.idle).count id+old.ids.count id+s.detached.count id+
        (List.range' s.created n).count id)
    (hsize : slots.currentSize+(s.slots.idle.length+old.live.length) =
      s.slots.currentSize+(slots.idle.length+new.live.length))
    (hgone : ∀ id, old.leaving.count id+s.detached.count id ≤ new.leaving.count id+detached.count id) :
    Steps s {s.put i slots new with created := s.created+n,detached := detached} := by
  refine ⟨⟨h.stock.set hi hcount,?_,h.sound⟩,fun id hg => ?_⟩
  · have hset := Table.total_set (fun stage : Stage T => stage.live.length) hi new
    have hold := h.size
    simp only [State.put]
    omega
  · have hset := Table.total_set (fun stage : Stage T => stage.leaving.count id) hi new
    have hle := hgone id
    simp only [State.Gone,State.put] at hg ⊢
    omega

theorem restage (hold : old.leaving = [])
    (hcount : ∀ id, (numbers slots.idle).count id+new.ids.count id =
      (numbers s.slots.idle).count id+old.live.count id)
    (hsize : slots.currentSize+(s.slots.idle.length+old.live.length) =
      s.slots.currentSize+(slots.idle.length+new.live.length)) : Steps s (s.put i slots new) := by
  refine h.put hi 0 s.detached (fun id => ?_) hsize fun id => ?_
  · rw [hcount id,Stage.ids,hold,List.append_nil]
    rfl
  · rw [hold]
    exact Nat.add_le_add_right (Nat.zero_le _) _

theorem same (hold : old.leaving = []) (hlive : new.live = old.live) (hnew : new.leaving = []) :
    Steps s (s.put i s.slots new) := by
  refine h.restage hi hold (fun id => ?_) (by rw [hlive])
  rw [Stage.ids,hlive,hnew,List.append_nil]

theorem detachObject {state : ObjectState T} {retry : Bool} (hold : old.leaving = [])
    (hlive : old.live = [state.id]) : ∃ t, s.detachObject i state retry = .ok t ∧ Steps s t := by
  have hone : old.live.length = 1 := by rw [hlive]; rfl
  have hpos := Table.le_total (fun stage : Stage T => stage.live.length) hi
  have hsize := h.size
  refine ⟨s.put i {s.slots with currentSize := s.slots.currentSize-1} (.detaching [state.id] retry),?_,
    h.restage hi hold (fun id => by rw [hlive]; rfl) ?_⟩
  · rw [State.detachObject,PoolState.detach,if_neg (by omega)]
    rfl
  · show s.slots.currentSize-1+_ = s.slots.currentSize+(s.slots.idle.length+0)
    omega

theorem giveBack {state state' : ObjectState T} (hold : old.leaving = []) (hlive : old.live = [state.id])
    (hid : state'.id = state.id) : Steps s (s.put i (s.slots.returnIdle state') .done) := by
  refine h.restage hi hold (fun id => ?_) ?_
  · rw [hlive]
    show (numbers (s.slots.idle++[state'])).count id = _
    rw [numbers,List.map_append,List.count_append,List.map_singleton,hid]
    rfl
  · rw [hlive,PoolState.returnIdle,List.length_append]
    rfl

omit hi

theorem take (call : Call) (hi : s.tasks[i]? = some (.entering call)) :
    (∃ t, s.take i call = .ok t ∧ Steps s t) ∨
      s.take i call = .error "attempt to add with overflow" := by
  unfold State.take
  split
  · next slots hpop =>
    obtain ⟨-,rfl⟩ := PoolState.pop_none hpop
    refine .inl ⟨_,rfl,?_⟩
    split <;> exact h.same hi rfl rfl rfl
  · next state slots hpop =>
    obtain ⟨hlen,hsame⟩ := PoolState.pop_some hpop
    have hsteps {new : Stage T} (hlive : new.live = [state.id]) (hnew : new.leaving = []) :
        Steps s (s.put i slots new) := by
      refine h.restage hi rfl (fun id => ?_) ?_
      · rw [Stage.ids,hlive,hnew]
        exact (PoolState.pop_count hpop id).symm
      · rw [hlive]
        show slots.currentSize+(s.slots.idle.length+0) = s.slots.currentSize+(slots.idle.length+1)
        omega
    split
    · exact .inl ⟨_,rfl,hsteps rfl rfl⟩
    · rcases state.status.markRecycled_cases with ⟨status,hstatus⟩ | hstatus <;> rw [hstatus]
      · exact .inl ⟨_,rfl,hsteps rfl rfl⟩
      · exact .inr rfl

theorem extend {items : List (T × ℕ)} (hi : s.tasks[i]? = some (.entering .extend))
    (hids : numbers slots.idle = numbers s.slots.idle++List.range' s.created items.length)
    (hsize : slots.currentSize = s.slots.currentSize+items.length) :
    Steps s {s.put i slots .done with created := s.created+items.length} := by
  have hlen := congrArg List.length hids
  simp only [numbers,List.length_map,List.length_append,List.length_range'] at hlen
  refine h.put hi items.length s.detached (fun id => ?_) ?_ fun _ => Nat.le_refl _
  · rw [hids,List.count_append]
    show _+0+_ = _+0+_+_
    omega
  · show _+(_+0) = _+(_+0)
    omega

theorem created (hi : s.tasks[i]? = some .creating) (o : T) (now : ℕ) :
    Steps s {s.put i {s.slots with currentSize := s.slots.currentSize+1}
      (.object ⟨o,.default now,s.created⟩) with created := s.created+1} := by
  refine h.put hi 1 s.detached (fun id => ?_) ?_ fun _ => Nat.le_refl _
  · show (numbers s.slots.idle).count id+[s.created].count id+_ = _+0+_+[s.created].count id
    omega
  · show s.slots.currentSize+1+(_+0) = _+(s.slots.idle.length+1)
    omega

theorem retain (f : Predicate ℕ T) (hi : s.tasks[i]? = some (.entering .retain)) :
    ∃ result slots, s.slots.retain f 0 = .ok (result,slots) ∧
      Steps s (s.put i slots (.after (s.slots.departed f 0) false)) := by
  obtain ⟨result,slots,hretain,hperm,hsize⟩ :=
    PoolState.retain_departed f 0 (h.size ▸ Nat.le_add_right _ _)
  have hlen := hperm.length_eq
  simp only [List.length_append,numbers,List.length_map] at hlen
  refine ⟨result,slots,hretain,h.restage hi rfl (fun id => ?_) ?_⟩
  · rw [Stage.ids,Stage.live_after,Stage.leaving_after,← List.count_append]
    exact hperm.count_eq id
  · rw [Stage.live_after]
    show _+(_+0) = _+(_+0)
    omega

theorem detached {id : ℕ} {removed : List ℕ} {retry : Bool}
    (hi : s.tasks[i]? = some (.detaching (id::removed) retry)) :
    Steps s {s.put i s.slots (.after removed retry) with detached := s.detached++[id]} := by
  have hmoved (id' : ℕ) : removed.count id'+(s.detached++[id]).count id' =
      (id::removed).count id'+s.detached.count id' := by
    rw [List.count_append,List.count_cons,List.count_cons,List.count_nil]
    omega
  refine h.put hi 0 (s.detached++[id]) (fun id' => ?_) (by rw [Stage.live_after]; rfl) fun id' => ?_
  · rw [Stage.ids,Stage.live_after,Stage.leaving_after,List.nil_append,Nat.add_assoc,hmoved id',← Nat.add_assoc]
    rfl
  · rw [Stage.leaving_after,hmoved id']
    rfl

theorem act {use : Use T} {x : Except String (State T)} (hi : s.tasks[i]? = some old)
    (hx : s.act i old use = some x) :
    (∃ t, x = .ok t ∧ Steps s t) ∨ x = .error "attempt to add with overflow" := by
  cases old with
  | entering call =>
    cases use with
    | proceed =>
      cases call with
      | get | tryGet | getOrCreate =>
        cases hx
        exact h.take _ hi
      | _ => cases hx
    | items items =>
      cases call with
      | extend =>
        cases hx
        rcases extend_cases items s.slots s.created with ⟨slots,heq,hids,hsize⟩ | heq
        · exact .inl ⟨_,by rw [heq]; rfl,h.extend hi hids hsize⟩
        · exact .inr (by rw [heq]; rfl)
      | _ => cases hx
    | predicate f =>
      cases call with
      | retain =>
        cases hx
        obtain ⟨result,slots,heq,hsteps⟩ := h.retain f hi
        exact .inl ⟨_,by rw [heq]; rfl,hsteps⟩
      | _ => cases hx
    | cancel =>
      have hx : some (.ok (s.put i s.slots .done)) = some x := by cases call <;> exact hx
      cases hx
      exact .inl ⟨_,rfl,h.same hi rfl rfl rfl⟩
    | _ => cases call <;> cases hx
  | creating =>
    cases use with
    | cancel | failed =>
      cases hx
      exact .inl ⟨_,rfl,h.same hi rfl rfl rfl⟩
    | created o now =>
      cases hx
      rcases Checked.add_cases usizeMax s.slots.currentSize 1 with hadd | hadd
      · exact .inl ⟨_,by rw [PoolState.addActive,hadd]; rfl,h.created hi o now⟩
      · exact .inr (by rw [PoolState.addActive,hadd]; rfl)
    | _ => cases hx
  | recycling state =>
    cases use with
    | touch o =>
      cases hx
      exact .inl ⟨_,rfl,h.same hi rfl rfl rfl⟩
    | accepted =>
      cases hx
      rcases state.status.markRecycled_cases with ⟨status,hstatus⟩ | hstatus <;> rw [hstatus]
      · exact .inl ⟨_,rfl,h.same hi rfl rfl rfl⟩
      · exact .inr rfl
    | rejected =>
      cases hx
      exact .inl (h.detachObject hi rfl rfl)
    | cancel =>
      simp only [State.act] at hx
      split at hx
      · cases hx
        exact .inl (h.detachObject hi rfl rfl)
      · cases hx
        exact .inl ⟨_,rfl,h.giveBack hi rfl rfl rfl⟩
    | _ => cases hx
  | object state =>
    cases use with
    | touch o =>
      cases hx
      exact .inl ⟨_,rfl,h.same hi rfl rfl rfl⟩
    | drop now =>
      cases hx
      exact .inl ⟨_,rfl,h.giveBack hi rfl rfl rfl⟩
    | detach =>
      cases hx
      exact .inl (h.detachObject hi rfl rfl)
    | _ => cases hx
  | detaching removed retry =>
    cases use with
    | proceed =>
      cases removed with
      | nil => cases hx
      | cons id removed =>
        cases hx
        exact .inl ⟨_,rfl,h.detached hi⟩
    | _ => cases removed <;> cases hx
  | done => cases use <;> cases hx

theorem next {a : Action T} (hn : s.next a = some t) : Steps s t := by
  obtain ⟨-,x,hx,rfl⟩ := Transition.step_eq_some hn
  cases a with
  | call call =>
    cases hx
    refine ⟨⟨h.stock.push rfl,?_,h.sound⟩,fun id hg => ?_⟩
    · simpa [Transition.settle,Stage.live] using h.size
    · simpa [Transition.settle,State.Gone,Stage.leaving] using hg
  | use i use =>
    obtain ⟨old,hi,hx⟩ := Option.bind_eq_some_iff.mp hx
    rcases h.act hi hx with ⟨t,rfl,hsteps⟩ | rfl
    · exact hsteps
    · exact ⟨⟨h.stock,h.size,fun _ hm => (Option.some.inj hm).symm⟩,fun _ hg => hg⟩

end Ok

theorem reachable_ok (h : (machine T).Reachable s) : Ok s := by
  apply (machine T).invariant Ok _ (fun _ _ _ hs hn => (hs.next hn).ok) h
  rintro s ⟨config,rfl⟩
  exact ⟨fun id => rfl,rfl,nofun⟩

structure State.Contract (s : State T) : Prop where
  /-- An object that entered the pool is idle, or with one task, or was given to `on_detached`. -/
  placed : Stock Stage.ids s.slots.idle s.tasks s.detached s.created
  size : s.slots.currentSize = s.slots.idle.length+Table.total (·.live.length) s.tasks
  /-- No two tasks have the same object, and what a task has is not idle. -/
  exclusive : ∀ (i j : ℕ) x y id, s.tasks[i]? = some x → s.tasks[j]? = some y → id ∈ x.ids →
    id ∈ y.ids → i = j ∧ id ∉ numbers s.slots.idle
  gone : ∀ as t id, (machine T).exec s as = some t → s.Gone id → t.Gone id
  /-- Nothing fails but the count of the objects, or of the uses of one. -/
  sound : ∀ message, s.panicked = some message → message = "attempt to add with overflow"

/-- Every object of the pool is accounted for, in all interleavings. -/
theorem objects_accounted (h : (machine T).Reachable s) : s.Contract where
  placed := (reachable_ok h).stock
  size := (reachable_ok h).size
  exclusive _ _ _ _ _ := (reachable_ok h).stock.exclusive
  gone as t id hrun hg := by
    have hend := (machine T).exec_invariant (fun _ => True) (fun t => Ok t ∧ t.Gone id)
      (fun t a u _ ⟨hok,hg⟩ hn => ⟨(hok.next hn).ok,(hok.next hn).gone id hg⟩)
      (fun _ _ => trivial) ⟨reachable_ok h,hg⟩ hrun
    exact hend.2
  sound := (reachable_ok h).sound

/-- Two objects are taken, one is rejected, and the other one comes back and is swept out while
the first task makes a third one. -/
def sweepRun : List (Action ℕ) :=
  [.call .extend,.use 0 (.items [(10,1),(11,1)]),.call .get,.call .get,.use 1 .proceed,.use 2 .proceed,
   .use 1 .rejected,.use 2 .accepted,.use 1 .proceed,.use 1 .proceed,.use 2 (.drop 5),
   .call .retain,.use 3 (.predicate fun n _ _ => (some false,12,n)),.use 1 (.created 13 6),.use 3 .proceed]

theorem objects_accounted_sweepRun : ∃ s, (machine ℕ).exec (UnboundedPool.new ℕ ⟨.lifo,.detach⟩) sweepRun = some s ∧
    s.Contract ∧ s.detached = [1,0] ∧ s.created = 3 ∧ s.slots.currentSize = 1 := by
  have hrun : ((machine ℕ).exec (UnboundedPool.new ℕ ⟨.lifo,.detach⟩) sweepRun).map (fun s =>
      (s.detached,s.created,s.slots.currentSize)) = some ([1,0],3,1) := by
    decide +kernel
  obtain ⟨s,hs,hend⟩ := Option.map_eq_some_iff.mp hrun
  simp only [Prod.mk.injEq] at hend
  exact ⟨s,hs,objects_accounted ((machine ℕ).reachable_of_exec ⟨_,rfl⟩ hs),hend⟩

end UnboundedPool
end Asyncband
