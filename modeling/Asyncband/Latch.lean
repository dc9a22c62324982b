import Asyncband.Countdown
import Asyncband.Transition

/-! The latch as a transition system.
`count_down` and `arrive` decrement the shared countdown. -/
namespace Asyncband
namespace Latch

open OneShot

structure Call where
  n : ℕ
  stage : Countdown.Stage

/-- The call owes the wake-up. -/
def Call.owes (c : Call) : ℕ := if c.stage = .waking then 1 else 0

/-- What the call has taken from the counter, as far as that could give it. -/
def Call.counted (c : Call) : ℕ := if c.stage = .waking ∨ c.stage = .done then c.n else 0

structure State (W : Type) where
  count : ℕ
  gate : Gate W
  calls : List Call
  /-- Ghost: the sum of the decrements that were applied. -/
  applied : ℕ
  panicked : Option String

def new (W : Type) (count : ℕ) : State W := ⟨count,.new W (count = 0),[],0,none⟩

inductive Action (W : Type)
  | wait | future (a : WaitAction W)
  | countDown | arrive (n : ℕ)
  | load (i : ℕ) | cas (i : ℕ) (spurious : Bool) | wake (i : ℕ)

namespace State

variable {W : Type}

/-- The terminal condition. -/
def zero (s : State W) : Bool := s.count = 0

def setCall (s : State W) (i : ℕ) (c : Call) : State W := {s with calls := s.calls.set i c}

def load (s : State W) (i : ℕ) (c : Call) : Option (State W) :=
  (Countdown.load s.count c.stage).map fun stage => s.setCall i {c with stage := stage}

def cas (s : State W) (i : ℕ) (c : Call) (spurious : Bool) : Option (State W) :=
  (Countdown.cas s.count c.n spurious c.stage).map fun r =>
    {s.setCall i {c with stage := r.stage} with
      count := r.count,applied := if r.exchanged then s.applied+c.n else s.applied}

def wake (s : State W) (i : ℕ) (c : Call) : Option (State W) :=
  (Countdown.wakeAll s.gate c.stage).map fun gate =>
    {s.setCall i {c with stage := .done} with gate := gate}

def act [Wake W] (s : State W) : Action W → Option (Except String (State W))
  | .wait => some (.ok {s with gate := s.gate.wait})
  | .future a => (s.gate.act false s.zero a).map fun x => x.map fun g => {s with gate := g}
  | .countDown => some (.ok {s with calls := s.calls++[⟨1,.started⟩]})
  | .arrive n =>
    some (.ok {s with calls := s.calls++[⟨n,if n ≠ 0 then .started else .done⟩]})
  | .load i => s.calls[i]?.bind fun c => (s.load i c).map .ok
  | .cas i spurious => s.calls[i]?.bind fun c => (s.cas i c spurious).map .ok
  | .wake i => s.calls[i]?.bind fun c => (s.wake i c).map .ok

instance : Transition.Faulty (State W) String :=
  ⟨panicked,fun s message => {s with panicked := some message}⟩

abbrev next [Wake W] (s : State W) (a : Action W) : Option (State W) := Transition.step act s a

end State

def machine (W : Type) [Wake W] (initial : ℕ) : Transition.Machine (State W) (Action W) where
  init s := s = new W initial
  next := State.next

/-- The counter, and the one call that owes the wake-up from zero on. -/
structure Ok {W : Type} [Wake W] (initial : ℕ) (s : State W) : Prop where
  gate : s.gate.Ok s.zero
  count : s.count = initial-s.applied
  ended : s.count = initial-Table.total Call.counted s.calls
  /-- A call that loaded zero will end without an exchange. -/
  seen : ∀ (i : ℕ) c, s.calls[i]? = some c → c.stage = .trying 0 → s.count = 0
  owed : Table.total Call.owes s.calls = s.gate.due s.zero
  sound : s.panicked = none

/-- What a step does to the condition and to the wake-up. -/
structure Moves {W : Type} (s : State W) (a : Action W) (t : State W) : Prop where
  stays : s.zero = true → t.zero = true
  notifies : s.gate.notified = false → t.gate.notified = true → ∃ i, a = .wake i

theorem Moves.of_eq {W : Type} {s t : State W} {a : Action W} (hcount : t.count = s.count)
    (hnotified : t.gate.notified = s.gate.notified) : Moves s a t := by
  refine ⟨fun hz => ?_,fun hs ht => ?_⟩
  · rwa [State.zero,hcount]
  · rw [hnotified,hs] at ht
    cases ht

namespace Ok

variable {W : Type} [Wake W] {initial : ℕ} {s t : State W} {i : ℕ} {c : Call} {a : Action W}

theorem new (count : ℕ) : Ok count (new W count) := by
  refine ⟨.new _,(Nat.sub_zero _).symm,(Nat.sub_zero _).symm,nofun,?_,rfl⟩
  show 0 = (Gate.new W (count = 0)).due (count = 0)
  by_cases hc : count = 0 <;> simp [Gate.due,Gate.new,hc]

section

variable (h : Ok initial s)
include h

theorem push (hc : c.owes = 0) (hcounted : c.counted = 0) (hstage : c.stage ≠ .trying 0) :
    Ok initial {s with calls := s.calls++[c]} := by
  refine ⟨h.gate,h.count,?_,Table.forall_push h.seen fun hz => absurd hz hstage,?_,h.sound⟩
  · show s.count = initial-Table.total Call.counted (s.calls++[c])
    rw [Table.total_append,Table.total_cons,hcounted]
    exact h.ended
  · show Table.total Call.owes (s.calls++[c]) = _
    rw [Table.total_append,Table.total_cons,hc]
    exact h.owed

theorem setCall (hi : s.calls[i]? = some c) {c' : Call} (howes : c'.owes = c.owes)
    (hcounted : c.counted ≤ c'.counted) (hzero : c'.counted ≠ c.counted → s.count = 0)
    (hseen : c'.stage = .trying 0 → s.count = 0) : Ok initial (s.setCall i c') := by
  refine ⟨h.gate,h.count,?_,Table.forall_set h.seen hseen,?_,h.sound⟩
  · have htotal := Table.total_set Call.counted hi c'
    have hended := h.ended
    show s.count = initial-Table.total Call.counted (s.calls.set i c')
    by_cases hsame : c'.counted = c.counted
    · omega
    · have hzero := hzero hsame
      omega
  · have htotal := Table.total_set Call.owes hi c'
    rw [howes] at htotal
    exact (Nat.add_right_cancel htotal).trans h.owed

theorem load (hi : s.calls[i]? = some c) (hx : s.load i c = some t) :
    Ok initial t ∧ Moves s (.load i) t := by
  obtain ⟨n,stage⟩ := c
  obtain ⟨stage',hload,rfl⟩ := Option.map_eq_some_iff.mp hx
  obtain ⟨rfl,rfl⟩ := Countdown.load_eq_some hload
  refine ⟨h.setCall hi rfl (Nat.le_refl 0) (absurd rfl) fun hz => ?_,.of_eq rfl rfl⟩
  exact Countdown.Stage.trying.inj hz

/-- A decrement that is applied starts from a count above zero; if it reaches zero, then the
call owes the wake-up. -/
theorem apply {n : ℕ} (hi : s.calls[i]? = some ⟨n,.trying s.count⟩) (hpos : s.count ≠ 0) :
    Ok initial {s.setCall i ⟨n,if s.count-n = 0 then .waking else .done⟩ with
      count := s.count-n,applied := s.applied+n} := by
  have hgate : s.gate.Ok false := by
    have hgate := h.gate
    rwa [State.zero,decide_eq_false hpos] at hgate
  have hnone : Table.total Call.owes s.calls = 0 := by
    rw [h.owed,State.zero,decide_eq_false hpos,Gate.due_unmet]
  have htotal := Table.total_set Call.owes hi ⟨n,if s.count-n = 0 then .waking else .done⟩
  rw [hnone] at htotal
  have hcount : s.count-n = initial-(s.applied+n) := by
    rw [h.count,Nat.sub_sub]
  refine ⟨?_,hcount,?_,?_,?_,h.sound⟩
  · show s.gate.Ok (decide (s.count-n = 0))
    by_cases hz : s.count-n = 0
    · rw [decide_eq_true hz]
      exact hgate.trip
    · rwa [decide_eq_false hz]
  · have hcounted := Table.total_set Call.counted hi ⟨n,if s.count-n = 0 then .waking else .done⟩
    have hone : (⟨n,if s.count-n = 0 then .waking else .done⟩ : Call).counted = n := by
      by_cases hz : s.count-n = 0 <;> simp [Call.counted,hz]
    have hold : (⟨n,.trying s.count⟩ : Call).counted = 0 := rfl
    have hended := h.ended
    show s.count-n = initial-Table.total Call.counted (s.calls.set i _)
    omega
  · refine Table.forall_set (fun j d hj hz => absurd (h.seen j d hj hz) hpos) fun hz => ?_
    by_cases hzero : s.count-n = 0 <;> simp [hzero] at hz
  · show Table.total Call.owes (s.calls.set i _) = s.gate.due (decide (s.count-n = 0))
    refine htotal.trans ?_
    by_cases hz : s.count-n = 0
    · rw [decide_eq_true hz,if_pos hz,Gate.due_met hgate.open_of_unmet]
      rfl
    · rw [decide_eq_false hz,if_neg hz]
      rfl

theorem cas (hi : s.calls[i]? = some c) {spurious : Bool} (hx : s.cas i c spurious = some t) :
    Ok initial t ∧ Moves s (.cas i spurious) t := by
  obtain ⟨n,stage⟩ := c
  obtain ⟨r,hround,rfl⟩ := Option.map_eq_some_iff.mp hx
  rcases Countdown.cas_eq_some hround with ⟨rfl,rfl⟩ | ⟨rfl,hpos,rfl⟩ | ⟨⟨cnt,rfl,-⟩,rfl⟩
  · have hzero := h.seen i _ hi rfl
    exact ⟨h.setCall hi rfl (Nat.zero_le _) (fun _ => hzero) fun _ => hzero,.of_eq rfl rfl⟩
  · refine ⟨h.apply hi hpos,fun hz => absurd (of_decide_eq_true hz) hpos,fun hs ht => ?_⟩
    rw [show s.gate.notified = true from ht] at hs
    cases hs
  · refine ⟨h.setCall hi rfl (Nat.le_refl 0) (absurd rfl) fun hz => ?_,.of_eq rfl rfl⟩
    exact Countdown.Stage.trying.inj hz

theorem wake (hi : s.calls[i]? = some c) (hx : s.wake i c = some t) :
    Ok initial t ∧ Moves s (.wake i) t := by
  obtain ⟨n,stage⟩ := c
  obtain ⟨gate,hwake,rfl⟩ := Option.map_eq_some_iff.mp hx
  obtain ⟨rfl,hlock,rfl⟩ := Countdown.wakeAll_eq_some hwake
  have hle := Table.le_total Call.owes hi
  rw [h.owed] at hle
  obtain ⟨hzero,hn⟩ := Gate.due_pos hle
  have hgate := h.gate
  rw [hzero] at hgate
  refine ⟨⟨?_,h.count,?_,Table.forall_set h.seen nofun,?_,h.sound⟩,fun _ => hzero,fun _ _ => ⟨i,rfl⟩⟩
  · show s.gate.wakeAll.Ok s.zero
    rw [hzero]
    exact hgate.wakeAll hlock
  · have htotal := Table.total_set Call.counted hi ⟨n,.done⟩
    exact h.ended.trans (congrArg _ (Nat.add_right_cancel htotal).symm)
  · have htotal := Table.total_set Call.owes hi ⟨n,.done⟩
    rw [h.owed,hzero,Gate.due_met hn] at htotal
    exact (Nat.add_right_cancel htotal).trans (Gate.due_wakeAll _ _).symm

theorem future {a : WaitAction W} {x : Except String (Gate W)}
    (hx : s.gate.act false s.zero a = some x) :
    ∃ g, x = .ok g ∧ Ok initial {s with gate := g} ∧ Moves s (.future a) {s with gate := g} := by
  obtain ⟨g,rfl,hg,hkeeps⟩ := h.gate.act hx
  exact ⟨g,rfl,⟨hg,h.count,h.ended,h.seen,h.owed.trans (hkeeps.due _).symm,h.sound⟩,.of_eq rfl hkeeps.1⟩

theorem act {x : Except String (State W)} (hx : s.act a = some x) :
    ∃ t, x = .ok t ∧ Ok initial t ∧ Moves s a t := by
  cases a with
  | wait =>
    cases hx
    exact ⟨_,rfl,⟨h.gate.wait,h.count,h.ended,h.seen,h.owed,h.sound⟩,.of_eq rfl rfl⟩
  | future a =>
    obtain ⟨y,hy,rfl⟩ := Option.map_eq_some_iff.mp hx
    obtain ⟨g,rfl,hok,hmoves⟩ := h.future hy
    exact ⟨_,rfl,hok,hmoves⟩
  | countDown =>
    cases hx
    exact ⟨_,rfl,h.push rfl rfl nofun,.of_eq rfl rfl⟩
  | arrive n =>
    cases hx
    refine ⟨_,rfl,h.push ?_ ?_ ?_,.of_eq rfl rfl⟩ <;>
      by_cases hn : n = 0 <;> simp [Call.owes,Call.counted,hn]
  | load i =>
    obtain ⟨c,t,hi,ht,rfl⟩ := Table.bind_ok hx
    exact ⟨t,rfl,h.load hi ht⟩
  | cas i spurious =>
    obtain ⟨c,t,hi,ht,rfl⟩ := Table.bind_ok hx
    exact ⟨t,rfl,h.cas hi ht⟩
  | wake i =>
    obtain ⟨c,t,hi,ht,rfl⟩ := Table.bind_ok hx
    exact ⟨t,rfl,h.wake hi ht⟩

theorem next (hn : s.next a = some t) : Ok initial t ∧ Moves s a t :=
  (Transition.step_ok (fun _ => h.act) hn).2

end

end Ok

variable {initial : ℕ}

theorem reachable_ok {W : Type} [Wake W] {s : State W} (h : (machine W initial).Reachable s) :
    Ok initial s := by
  refine (machine W initial).invariant (Ok initial) ?_ (fun s a t hs hn => (hs.next hn).1) h
  rintro s rfl
  exact .new initial

structure State.Contract {W : Type} [Wake W] (initial : ℕ) (s : State W) : Prop where
  futures : s.gate.Contract s.zero
  count : s.count = initial-s.applied
  /-- The counter is what the calls behind their loops have left of the initial count. -/
  ended : s.count = initial-Table.total Call.counted s.calls
  stays : ∀ a t, s.next a = some t → s.zero = true → t.zero = true
  /-- No run enters zero twice. -/
  once : ∀ as, (machine W initial).crossings State.zero s as ≤ 1
  /-- Between zero and the wake-up exactly one call has the wake-up ahead. -/
  owed : Table.total Call.owes s.calls = s.gate.due s.zero
  notifies : ∀ a t, s.next a = some t → s.gate.notified = false → t.gate.notified = true →
    ∃ i, a = .wake i
  sound : s.panicked = none

theorem Ok.contract {W : Type} [Wake W] {s : State W} (h : Ok initial s) : s.Contract initial where
  futures := h.gate.contract
  count := h.count
  ended := h.ended
  stays _ _ hn := (h.next hn).2.stays
  once as := by
    refine ((machine W initial).crossings_le_one (Ok initial) (fun s a t hs hn => (hs.next hn).1)
      (fun s a t hs hn => (hs.next hn).2.stays) h as).trans ?_
    split <;> decide
  owed := h.owed
  notifies _ _ hn := (h.next hn).2.notifies
  sound := h.sound

end Latch
end Asyncband
