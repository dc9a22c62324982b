import Asyncband.OneShotWait
import Asyncband.Transition

/-! The one-shot completion as a transition system.
`complete` and the destructor of the completer first try to reach the shared state, which
lives as long as an observer does; then they take the waiters and publish the result in one
critical section of the waiter lock. -/
namespace Asyncband
namespace Completion

open OneShot

inductive Completer (T : Type)
  | live
  | publishing (result : Option T)
  /-- Consumed; the value of a `complete` that found no observer is handed back. -/
  | done (returned : Option T)

structure State (T W : Type) where
  result : Option (Option T)
  gate : Gate W
  completer : Completer T
  observers : ℕ
  panicked : Option String

def new (T W : Type) : State T W := ⟨none,.new W false,.live,1,none⟩

/-- `complete none` is the destructor of the completer. -/
inductive Action (T W : Type)
  | complete (value : Option T) | publish
  | clone | drop | wait | future (a : WaitAction W)

namespace State

variable {T W : Type}

def present (s : State T W) : Bool := s.result.isSome

def complete (s : State T W) (value : Option T) : Option (State T W) :=
  match s.completer with
  | .live =>
    some (if s.observers = 0 then {s with completer := .done value}
      else {s with completer := .publishing value})
  | _ => none

/-- The critical section, and the wake-up behind it. -/
def publish (s : State T W) : Option (Except String (State T W)) :=
  match s.completer with
  | .publishing value =>
    if s.gate.lock = none then
      some (if s.result.isSome then .error "assertion failed: shared.result.set(..).is_ok()"
        else .ok {s with result := some value,gate := s.gate.wakeAll,completer := .done none})
    else none
  | _ => none

/-- An observer is gone before the last one only if nobody waits through it. -/
def drop (s : State T W) : Option (State T W) :=
  if s.observers = 0 then none
  else if s.observers = 1 ∧ s.gate.waits.any Wait.alive then none
  else some {s with observers := s.observers-1}

def act [Wake W] (s : State T W) : Action T W → Option (Except String (State T W))
  | .complete value => (s.complete value).map .ok
  | .publish => s.publish
  | .clone => if s.observers = 0 then none else some (.ok {s with observers := s.observers+1})
  | .drop => s.drop.map .ok
  | .wait => if s.observers = 0 then none else some (.ok {s with gate := s.gate.wait})
  | .future a => (s.gate.act true s.present a).map fun x => x.map fun g => {s with gate := g}

instance : Transition.Faulty (State T W) String :=
  ⟨panicked,fun s message => {s with panicked := some message}⟩

abbrev next [Wake W] (s : State T W) (a : Action T W) : Option (State T W) :=
  Transition.step act s a

end State

def machine (T W : Type) [Wake W] : Transition.Machine (State T W) (Action T W) where
  init s := s = new T W
  next := State.next

/-- The result is published by the completer alone, together with the wake-up. -/
structure Ok {T W : Type} [Wake W] (s : State T W) : Prop where
  gate : s.gate.Ok s.present
  pending : (∀ returned, s.completer ≠ .done returned) → s.result = none
  notified : s.gate.notified = s.present
  sound : s.panicked = none

structure Moves {T W : Type} (s : State T W) (a : Action T W) (t : State T W) : Prop where
  stays : ∀ r, s.result = some r → t.result = some r
  publishes : s.result = none → ∀ r, t.result = some r → a = .publish ∧ s.completer = .publishing r

theorem Moves.of_eq {T W : Type} {s t : State T W} {a : Action T W} (h : t.result = s.result) :
    Moves s a t := by
  refine ⟨fun r hr => h.trans hr,fun hs r hr => ?_⟩
  rw [h,hs] at hr
  cases hr

namespace Ok

variable {T W : Type} [Wake W] {s t : State T W} {x : Except String (State T W)} {a : Action T W}

theorem new : Ok (new T W) := ⟨.new _,fun _ => rfl,rfl,rfl⟩

theorem complete (h : Ok s) {value : Option T} (hx : s.complete value = some t) :
    Ok t ∧ Moves s (.complete value) t := by
  cases hc : s.completer with
  | live =>
    have hnone : s.result = none := h.pending (by simp [hc])
    rw [State.complete,hc] at hx
    cases hx
    split
    · exact ⟨⟨h.gate,fun hne => hnone,h.notified,h.sound⟩,.of_eq rfl⟩
    · exact ⟨⟨h.gate,fun _ => hnone,h.notified,h.sound⟩,.of_eq rfl⟩
  | _ =>
    rw [State.complete,hc] at hx
    cases hx

theorem publish (h : Ok s) (hx : s.publish = some x) : ∃ t, x = .ok t ∧ Ok t ∧ Moves s .publish t := by
  cases hc : s.completer with
  | publishing value =>
    have hnone : s.result = none := h.pending (by simp [hc])
    rw [State.publish,hc] at hx
    obtain ⟨hlock,⟨⟩⟩ := Option.ite_none_right_eq_some.mp hx
    have hgate : s.gate.Ok false := by
      have hgate := h.gate
      rwa [State.present,hnone] at hgate
    rw [hnone]
    refine ⟨_,rfl,⟨hgate.trip.wakeAll hlock,fun hne => absurd rfl (hne none),rfl,h.sound⟩,?_,?_⟩
    · intro r hr
      rw [hnone] at hr
      cases hr
    · rintro - r ⟨⟩
      exact ⟨rfl,hc⟩
  | _ =>
    rw [State.publish,hc] at hx
    cases hx

theorem act (h : Ok s) (hx : s.act a = some x) : ∃ t, x = .ok t ∧ Ok t ∧ Moves s a t := by
  cases a with
  | complete value =>
    obtain ⟨t,ht,rfl⟩ := Option.map_eq_some_iff.mp hx
    exact ⟨t,rfl,h.complete ht⟩
  | publish => exact h.publish hx
  | clone =>
    obtain ⟨-,⟨⟩⟩ := Option.ite_none_left_eq_some.mp hx
    exact ⟨_,rfl,⟨h.gate,h.pending,h.notified,h.sound⟩,.of_eq rfl⟩
  | drop =>
    obtain ⟨t,ht,rfl⟩ := Option.map_eq_some_iff.mp hx
    obtain ⟨-,ht⟩ := Option.ite_none_left_eq_some.mp ht
    obtain ⟨-,⟨⟩⟩ := Option.ite_none_left_eq_some.mp ht
    exact ⟨_,rfl,⟨h.gate,h.pending,h.notified,h.sound⟩,.of_eq rfl⟩
  | wait =>
    obtain ⟨-,⟨⟩⟩ := Option.ite_none_left_eq_some.mp hx
    exact ⟨_,rfl,⟨h.gate.wait,h.pending,h.notified,h.sound⟩,.of_eq rfl⟩
  | future a =>
    obtain ⟨y,hy,rfl⟩ := Option.map_eq_some_iff.mp hx
    obtain ⟨g,rfl,hg,hkeeps⟩ := h.gate.act hy
    exact ⟨_,rfl,⟨hg,h.pending,hkeeps.1.trans h.notified,h.sound⟩,.of_eq rfl⟩

theorem next (h : Ok s) (hn : s.next a = some t) : Ok t ∧ Moves s a t :=
  (Transition.step_ok (fun _ => h.act) hn).2

theorem present_stays (h : Ok s) (hn : s.next a = some t) (hs : s.present = true) :
    t.present = true := by
  obtain ⟨r,hr⟩ := Option.isSome_iff_exists.mp hs
  rw [State.present,(h.next hn).2.stays r hr]
  rfl

end Ok

theorem reachable_ok {T W : Type} [Wake W] {s : State T W} (h : (machine T W).Reachable s) : Ok s := by
  refine (machine T W).invariant Ok ?_ (fun s a t hs hn => (hs.next hn).1) h
  rintro s rfl
  exact .new

structure State.Contract {T W : Type} [Wake W] (s : State T W) : Prop where
  futures : s.gate.Contract s.present
  /-- The result that every wait returns is written once, by the completer. -/
  stays : ∀ a t, s.next a = some t → ∀ r, s.result = some r → t.result = some r
  publishes : ∀ a t, s.next a = some t → s.result = none → ∀ r, t.result = some r →
    a = .publish ∧ s.completer = .publishing r
  /-- No run publishes twice. -/
  once : ∀ as, (machine T W).crossings State.present s as ≤ 1
  /-- The result and the wake-up come in one step. -/
  notified : s.gate.notified = s.present
  sound : s.panicked = none

theorem Ok.contract {T W : Type} [Wake W] {s : State T W} (h : Ok s) : s.Contract where
  futures := h.gate.contract
  stays _ _ hn := (h.next hn).2.stays
  publishes _ _ hn := (h.next hn).2.publishes
  once as := by
    refine ((machine T W).crossings_le_one Ok (fun s a t hs hn => (hs.next hn).1)
      (fun s a t hs hn => hs.present_stays hn) h as).trans ?_
    split <;> decide
  notified := h.notified
  sound := h.sound

end Completion
end Asyncband
