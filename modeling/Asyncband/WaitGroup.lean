import Asyncband.OneShotWait
import Asyncband.Transition

/-! The wait group as a transition system.
A handle is released by its destructor or by `into_future`; the release that takes the
counter to zero takes the waiters in a later step. -/
namespace Asyncband
namespace WaitGroup

open OneShot

inductive Handle
  | live
  /-- The handle was the last one and owns the wake-up. `into` : it becomes a `Wait`. -/
  | waking (into : Bool)
  | released
  deriving DecidableEq

/-- The registration step of the handle has run and its release step has not. -/
def Handle.counts (c : Handle) : ℕ := if c = .live then 1 else 0

def Handle.owes : Handle → ℕ
  | .waking _ => 1
  | _ => 0

structure State (W : Type) where
  handles : ℕ
  gate : Gate W
  owners : List Handle
  panicked : Option String

def new (W : Type) : State W := ⟨1,.new W false,[.live],none⟩

inductive Action (W : Type)
  | clone (i : ℕ) | release (i : ℕ) (into : Bool) | wake (i : ℕ)
  | cloneWait (f : ℕ) | future (a : WaitAction W)

namespace State

variable {W : Type}

def zero (s : State W) : Bool := s.handles = 0

def setOwner (s : State W) (i : ℕ) (c : Handle) : State W := {s with owners := s.owners.set i c}

/-- `into_future` goes on to build the `Wait`. -/
def finish (s : State W) (into : Bool) : State W :=
  if into then {s with gate := s.gate.wait} else s

/-- `Clone` of a handle; the counter cannot wrap before the reference count of the state. -/
def clone (s : State W) (c : Handle) : Option (State W) :=
  match c with
  | .live => some {s with handles := s.handles+1,owners := s.owners++[.live]}
  | _ => none

/-- `release_handle` up to the lock. -/
def release (s : State W) (i : ℕ) (c : Handle) (into : Bool) : Option (Except String (State W)) :=
  match c with
  | .live =>
    some (if s.handles = 0 then .error "a live handle must own one count"
      else
        let previous := s.handles
        let s := {s with handles := previous-1}
        .ok (if previous ≠ 1 then (s.setOwner i .released).finish into
          else s.setOwner i (.waking into)))
  | _ => none

def wake (s : State W) (i : ℕ) (c : Handle) : Option (State W) :=
  match c with
  | .waking into =>
    if s.gate.lock = none then
      some ({s.setOwner i .released with gate := s.gate.wakeAll}.finish into)
    else none
  | _ => none

/-- A `Wait` that is neither being polled nor dropped may be cloned. -/
def cloneWait (s : State W) (c : Wait W) : Option (State W) :=
  match c.stage with
  | .idle _ => some {s with gate := s.gate.wait}
  | .ready => some {s with gate := s.gate.wait}
  | _ => none

def act [Wake W] (s : State W) : Action W → Option (Except String (State W))
  | .clone i => s.owners[i]?.bind fun c => (s.clone c).map .ok
  | .release i into => s.owners[i]?.bind fun c => s.release i c into
  | .wake i => s.owners[i]?.bind fun c => (s.wake i c).map .ok
  | .cloneWait f => s.gate.waits[f]?.bind fun c => (s.cloneWait c).map .ok
  | .future a => (s.gate.act false s.zero a).map fun x => x.map fun g => {s with gate := g}

instance : Transition.Faulty (State W) String :=
  ⟨panicked,fun s message => {s with panicked := some message}⟩

abbrev next [Wake W] (s : State W) (a : Action W) : Option (State W) := Transition.step act s a

end State

def machine (W : Type) [Wake W] : Transition.Machine (State W) (Action W) where
  init s := s = new W
  next := State.next

/-- The counter counts the live handles, and one released handle owes the wake-up from zero
on. -/
structure Ok {W : Type} [Wake W] (s : State W) : Prop where
  gate : s.gate.Ok s.zero
  count : s.handles = Table.total Handle.counts s.owners
  owed : Table.total Handle.owes s.owners = s.gate.due s.zero
  sound : s.panicked = none

/-- What a step does to the condition and to the wake-up. -/
structure Moves {W : Type} (s : State W) (a : Action W) (t : State W) : Prop where
  stays : s.zero = true → t.zero = true
  notifies : s.gate.notified = false → t.gate.notified = true → ∃ i, a = .wake i

theorem Moves.of_eq {W : Type} {s t : State W} {a : Action W}
    (hstays : s.zero = true → t.zero = true)
    (hnotified : t.gate.notified = s.gate.notified) : Moves s a t := by
  refine ⟨hstays,fun hs ht => ?_⟩
  rw [hnotified,hs] at ht
  cases ht

theorem Moves.finish {W : Type} {s t : State W} {a : Action W} (h : Moves s a t) (into : Bool) :
    Moves s a (t.finish into) := by
  rw [State.finish]
  split
  · exact ⟨h.stays,h.notifies⟩
  · exact h

namespace Ok

variable {W : Type} [Wake W] {s t : State W} {i : ℕ} {c : Handle} {into : Bool}
variable {x : Except String (State W)} {a : Action W}

theorem new : Ok (new W) := ⟨.new _,rfl,rfl,rfl⟩

section

variable (h : Ok s)
include h

theorem handles_pos (hi : s.owners[i]? = some .live) : 0 < s.handles := by
  rw [h.count]
  exact Table.le_total Handle.counts hi

theorem not_zero (hi : s.owners[i]? = some .live) : s.zero = false :=
  decide_eq_false (h.handles_pos hi).ne'

theorem wait : Ok {s with gate := s.gate.wait} :=
  ⟨h.gate.wait,h.count,h.owed,h.sound⟩

theorem finish (into : Bool) : Ok (s.finish into) := by
  rw [State.finish]
  split
  · exact h.wait
  · exact h

theorem clone (hi : s.owners[i]? = some c) (hx : s.clone c = some t) :
    Ok t ∧ Moves s (.clone i) t := by
  cases c with
  | live =>
    cases hx
    have hzero := h.not_zero hi
    have hgate := h.gate
    have howed := h.owed
    rw [hzero] at hgate howed
    refine ⟨⟨hgate,?_,?_,h.sound⟩,.of_eq (fun hz => ?_) rfl⟩
    · show s.handles+1 = Table.total Handle.counts (s.owners++[.live])
      rw [Table.total_append,h.count]
      rfl
    · show Table.total Handle.owes (s.owners++[.live]) = 0
      rw [Table.total_append,howed]
      rfl
    · rw [hzero] at hz
      cases hz
  | _ => cases hx

theorem drop (hi : s.owners[i]? = some .live) (hcounts : c.counts = 0)
    (howes : c.owes = if s.handles-1 = 0 then 1 else 0) :
    Ok {s with handles := s.handles-1,owners := s.owners.set i c} := by
  have hpos := h.handles_pos hi
  have hzero := h.not_zero hi
  have hgate := h.gate
  have howed := h.owed
  rw [hzero] at hgate howed
  have hcount := Table.total_set Handle.counts hi c
  have hdue := Table.total_set Handle.owes hi c
  rw [howed,Gate.due_unmet,howes] at hdue
  rw [← h.count,hcounts] at hcount
  refine ⟨?_,?_,?_,h.sound⟩
  · show s.gate.Ok (decide (s.handles-1 = 0))
    by_cases hz : s.handles-1 = 0
    · rw [decide_eq_true hz]
      exact hgate.trip
    · rwa [decide_eq_false hz]
  · show s.handles-1 = Table.total Handle.counts (s.owners.set i c)
    exact (Nat.eq_sub_of_add_eq hcount).symm
  · show Table.total Handle.owes (s.owners.set i c) = s.gate.due (decide (s.handles-1 = 0))
    refine hdue.trans ?_
    by_cases hz : s.handles-1 = 0
    · rw [decide_eq_true hz,if_pos hz,Gate.due_met hgate.open_of_unmet]
    · rw [decide_eq_false hz,if_neg hz,Gate.due_unmet]

theorem release (hi : s.owners[i]? = some c) (hx : s.release i c into = some x) :
    ∃ t, x = .ok t ∧ Ok t ∧ Moves s (.release i into) t := by
  cases c with
  | live =>
    cases hx
    have hpos := h.handles_pos hi
    have hzero := h.not_zero hi
    rw [if_neg hpos.ne']
    refine ⟨_,rfl,?_⟩
    have hmoves : ∀ c, Moves s (.release i into) {s with handles := s.handles-1,owners := s.owners.set i c} :=
      fun c => .of_eq (fun hz => absurd hz (by simp [hzero])) rfl
    by_cases hlast : s.handles = 1
    · rw [if_neg (not_not_intro hlast)]
      refine ⟨h.drop hi rfl ?_,hmoves _⟩
      rw [if_pos (by omega)]
      rfl
    · rw [if_pos hlast]
      refine ⟨(h.drop hi rfl ?_).finish into,(hmoves .released).finish into⟩
      rw [if_neg (by omega)]
      rfl
  | _ => cases hx

theorem wake (hi : s.owners[i]? = some c) (hx : s.wake i c = some t) : Ok t ∧ Moves s (.wake i) t := by
  cases c with
  | waking into =>
    obtain ⟨hlock,⟨⟩⟩ := Option.ite_none_right_eq_some.mp hx
    have hle := Table.le_total Handle.owes hi
    rw [h.owed] at hle
    obtain ⟨hzero,hn⟩ := Gate.due_pos hle
    have hgate := h.gate
    rw [hzero] at hgate
    have hok : Ok {s.setOwner i .released with gate := s.gate.wakeAll} := by
      refine ⟨?_,?_,?_,h.sound⟩
      · show s.gate.wakeAll.Ok s.zero
        rw [hzero]
        exact hgate.wakeAll hlock
      · exact h.count.trans (Nat.add_right_cancel (Table.total_set Handle.counts hi .released)).symm
      · have htotal := Table.total_set Handle.owes hi .released
        rw [h.owed,hzero,Gate.due_met hn] at htotal
        exact (Nat.add_right_cancel htotal).trans (Gate.due_wakeAll _ _).symm
    have hmoves : Moves s (.wake i) {s.setOwner i .released with gate := s.gate.wakeAll} :=
      ⟨fun _ => hzero,fun _ _ => ⟨i,rfl⟩⟩
    exact ⟨hok.finish into,hmoves.finish into⟩
  | _ => cases hx

theorem cloneWait {f : ℕ} {c : Wait W} (hx : s.cloneWait c = some t) :
    Ok t ∧ Moves s (.cloneWait f) t := by
  obtain ⟨stage,entry,last⟩ := c
  cases stage with
  | idle | ready =>
    cases hx
    exact ⟨h.wait,.of_eq id rfl⟩
  | _ => cases hx

theorem act (hx : s.act a = some x) : ∃ t, x = .ok t ∧ Ok t ∧ Moves s a t := by
  cases a with
  | clone i =>
    obtain ⟨c,hi,hx⟩ := Option.bind_eq_some_iff.mp hx
    obtain ⟨t,ht,rfl⟩ := Option.map_eq_some_iff.mp hx
    exact ⟨t,rfl,h.clone hi ht⟩
  | release i into =>
    obtain ⟨c,hi,hx⟩ := Option.bind_eq_some_iff.mp hx
    exact h.release hi hx
  | wake i =>
    obtain ⟨c,hi,hx⟩ := Option.bind_eq_some_iff.mp hx
    obtain ⟨t,ht,rfl⟩ := Option.map_eq_some_iff.mp hx
    exact ⟨t,rfl,h.wake hi ht⟩
  | cloneWait f =>
    obtain ⟨c,hf,hx⟩ := Option.bind_eq_some_iff.mp hx
    obtain ⟨t,ht,rfl⟩ := Option.map_eq_some_iff.mp hx
    exact ⟨t,rfl,h.cloneWait ht⟩
  | future a =>
    obtain ⟨y,hy,rfl⟩ := Option.map_eq_some_iff.mp hx
    obtain ⟨g,rfl,hg,hkeeps⟩ := h.gate.act hy
    exact ⟨_,rfl,⟨hg,h.count,h.owed.trans (hkeeps.due _).symm,h.sound⟩,.of_eq id hkeeps.1⟩

theorem next (hn : s.next a = some t) : Ok t ∧ Moves s a t :=
  (Transition.step_ok (fun _ => h.act) hn).2

end

end Ok

theorem reachable_ok {W : Type} [Wake W] {s : State W} (h : (machine W).Reachable s) : Ok s := by
  refine (machine W).invariant Ok ?_ (fun s a t hs hn => (hs.next hn).1) h
  rintro s rfl
  exact .new

structure State.Contract {W : Type} [Wake W] (s : State W) : Prop where
  futures : s.gate.Contract s.zero
  /-- The count is the number of handles that are registered and not released. -/
  count : s.handles = Table.total Handle.counts s.owners
  stays : ∀ a t, s.next a = some t → s.zero = true → t.zero = true
  /-- No run enters zero twice. -/
  once : ∀ as, (machine W).crossings State.zero s as ≤ 1
  /-- Between zero and the wake-up exactly one handle has the wake-up ahead. -/
  owed : Table.total Handle.owes s.owners = s.gate.due s.zero
  notifies : ∀ a t, s.next a = some t → s.gate.notified = false → t.gate.notified = true →
    ∃ i, a = .wake i
  sound : s.panicked = none

theorem Ok.contract {W : Type} [Wake W] {s : State W} (h : Ok s) : s.Contract where
  futures := h.gate.contract
  count := h.count
  stays _ _ hn := (h.next hn).2.stays
  once as := by
    refine ((machine W).crossings_le_one Ok (fun s a t hs hn => (hs.next hn).1)
      (fun s a t hs hn => (hs.next hn).2.stays) h as).trans ?_
    split <;> decide
  owed := h.owed
  notifies _ _ hn := (h.next hn).2.notifies
  sound := h.sound

end WaitGroup
end Asyncband
