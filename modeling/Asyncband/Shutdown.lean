import Asyncband.Latch
import Asyncband.WaitGroup

/-! Graceful shutdown over a latch of one and a wait group.
A `ShutdownGuard` is a handle of the group, a `Shutdown` a future of the group, and both as
well as a `ShutdownWatch` may wait for the latch. A poll of a `Shutdown` counts the latch down
before it polls its future, and nobody else uses the handle in between. -/
namespace Asyncband
namespace Shutdown

open OneShot

/-- A poll of a `Shutdown` in its `request_shutdown`, or behind it. -/
structure Poll (W : Type) where
  future : ℕ
  call : ℕ
  waker : W
  requested : Bool

structure State (W : Type) where
  latch : Latch.State W
  group : WaitGroup.State W
  polls : List (Poll W)

/-- The guard has the first handle of the group. The second one became the future of the
`Shutdown`. -/
def new (W : Type) : State W :=
  ⟨Latch.new W 1,⟨1,(Gate.new W false).wait,[.live,.released],none⟩,[]⟩

inductive Action (W : Type)
  | requestShutdown
  | latch (a : Latch.Action W)
  /-- Guards are cloned and dropped, `Shutdown` handles too, and polls of the latter go on. -/
  | group (a : WaitGroup.Action W)
  | poll (f : ℕ) (waker : W)
  | wait (k : ℕ)

variable {W : Type}

namespace State

def busy (s : State W) (f : ℕ) : Bool := s.polls.any fun p => p.future = f && !p.requested

def idle (s : State W) (f : ℕ) : Bool :=
  !s.busy f && (s.group.gate.waits[f]?).any fun c =>
    match c.stage with
    | .idle _ | .ready => true
    | _ => false

/-- What happens to the group from outside of a request. -/
def free (s : State W) : WaitGroup.Action W → Bool
  | .clone _ | .wake _ => true
  | .release _ into => !into
  | .cloneWait f | .future (.drop f) => !s.busy f
  | .future (.poll _ _) => false
  | .future _ => true

/-- The latch is counted down by requests only. -/
def observes : Latch.Action W → Bool
  | .countDown | .arrive _ => false
  | _ => true

def next [Wake W] (s : State W) : Action W → Option (State W)
  | .requestShutdown => (s.latch.next .countDown).map fun latch => {s with latch := latch}
  | .latch a => if observes a then (s.latch.next a).map fun latch => {s with latch := latch} else none
  | .group a => if s.free a then (s.group.next a).map fun group => {s with group := group} else none
  | .poll f waker =>
    if s.idle f then (s.latch.next .countDown).map fun latch =>
      {s with latch := latch,polls := s.polls++[⟨f,s.latch.calls.length,waker,false⟩]}
    else none
  | .wait k => s.polls[k]?.bind fun p => s.latch.calls[p.call]?.bind fun c =>
    if p.requested = false ∧ c.stage = .done then
      (s.group.next (.future (.poll p.future p.waker))).map fun group =>
        {s with group := group,polls := s.polls.set k {p with requested := true}}
    else none

end State

def machine (W : Type) [Wake W] : Transition.Machine (State W) (Action W) where
  init s := s = new W
  next := State.next

def Counted (latch : Latch.State W) : Prop :=
  ∀ (i : ℕ) c, latch.calls[i]? = some c → c.n = 1

def Unpolled (gate : Gate W) : Prop :=
  ∀ (f : ℕ) c, gate.waits[f]? = some c → c.stage = .idle none ∨ c.stage = .dropped

structure Ok [Wake W] (s : State W) : Prop where
  latch : Latch.Ok 1 s.latch
  group : WaitGroup.Ok s.group
  counted : Counted s.latch
  unpolled : s.latch.zero = false → Unpolled s.group.gate

variable [Wake W] {s t : State W} {latch latch' : Latch.State W} {group : WaitGroup.State W}

theorem Counted.next (h : Counted latch) (hok : Latch.Ok 1 latch) {a : Latch.Action W}
    (ha : State.observes a ∨ a = .countDown) (hn : latch.next a = some latch') : Counted latch' := by
  obtain ⟨-,hn⟩ := Option.ite_none_left_eq_some.mp hn
  obtain ⟨x,hx,rfl⟩ := Option.map_eq_some_iff.mp hn
  obtain ⟨t,rfl,-⟩ := hok.act hx
  cases a with
  | wait =>
    cases hx
    exact h
  | future a =>
    obtain ⟨y,-,hy⟩ := Option.map_eq_some_iff.mp hx
    cases y with
    | error message => cases hy
    | ok g =>
      cases hy
      exact h
  | countDown =>
    cases hx
    exact Table.forall_push h rfl
  | arrive n => simp [State.observes] at ha
  | load i =>
    obtain ⟨c,t,hi,ht,⟨⟩⟩ := Table.bind_ok hx
    obtain ⟨stage,-,rfl⟩ := Option.map_eq_some_iff.mp ht
    exact Table.forall_set h (h i c hi)
  | cas i spurious =>
    obtain ⟨c,t,hi,ht,⟨⟩⟩ := Table.bind_ok hx
    obtain ⟨r,-,rfl⟩ := Option.map_eq_some_iff.mp ht
    exact Table.forall_set h (h i c hi)
  | wake i =>
    obtain ⟨c,t,hi,ht,⟨⟩⟩ := Table.bind_ok hx
    obtain ⟨gate,-,rfl⟩ := Option.map_eq_some_iff.mp ht
    exact Table.forall_set h (h i c hi)

omit [Wake W] in
theorem Unpolled.wait {gate : Gate W} (h : Unpolled gate) : Unpolled gate.wait :=
  Table.forall_push h (.inl rfl)

theorem Unpolled.act {gate : Gate W} (h : Unpolled gate) {met : Bool} {a : WaitAction W}
    (ha : s.free (.future a) = true) {gate' : Gate W} (hx : gate.act false met a = some (.ok gate')) :
    Unpolled gate' := by
  cases a with
  | poll f waker => cases ha
  | drop f =>
    obtain ⟨c,hf,hx⟩ := Option.bind_eq_some_iff.mp hx
    obtain ⟨t,ht,⟨⟩⟩ := Option.map_eq_some_iff.mp hx
    rcases h f c hf with hc | hc
    · simp only [Gate.drop,hc,Option.some.injEq] at ht
      subst ht
      exact Table.forall_set h (.inr rfl)
    · simp [Gate.drop,hc] at ht
  | recheck f | register f | recheckDrop f | unregister f =>
    obtain ⟨c,hf,hx⟩ := Option.bind_eq_some_iff.mp hx
    rcases h f c hf with hc | hc <;>
      simp [Gate.recheck,Gate.register,Gate.recheckDrop,Gate.unregister,hc] at hx

theorem Unpolled.next (h : Unpolled group.gate) (hok : WaitGroup.Ok group) {a : WaitGroup.Action W}
    (ha : s.free a = true) {group' : WaitGroup.State W} (hn : group.next a = some group') :
    Unpolled group'.gate := by
  obtain ⟨-,hn⟩ := Option.ite_none_left_eq_some.mp hn
  obtain ⟨x,hx,rfl⟩ := Option.map_eq_some_iff.mp hn
  obtain ⟨t,rfl,-⟩ := hok.act hx
  cases a with
  | clone i =>
    obtain ⟨c,-,hx⟩ := Option.bind_eq_some_iff.mp hx
    cases c <;> cases hx
    exact h
  | release i into =>
    obtain ⟨c,-,hx⟩ := Option.bind_eq_some_iff.mp hx
    cases into with
    | true => cases ha
    | false =>
      cases c with
      | live =>
        simp only [WaitGroup.State.release,Option.some.injEq] at hx
        split at hx <;> cases hx
        show Unpolled (ite _ _ _ : WaitGroup.State W).gate
        split <;> exact h
      | _ => cases hx
  | wake i =>
    obtain ⟨c,-,hx⟩ := Option.bind_eq_some_iff.mp hx
    cases c with
    | waking into =>
      obtain ⟨u,hu,⟨⟩⟩ := Option.map_eq_some_iff.mp hx
      obtain ⟨-,⟨⟩⟩ := Option.ite_none_right_eq_some.mp hu
      cases into with
      | true =>
        have hwoken : Unpolled group.gate.wakeAll := h
        exact hwoken.wait
      | false => exact h
    | _ => cases hx
  | cloneWait f =>
    obtain ⟨c,-,hx⟩ := Option.bind_eq_some_iff.mp hx
    obtain ⟨u,hu,⟨⟩⟩ := Option.map_eq_some_iff.mp hx
    unfold WaitGroup.State.cloneWait at hu
    split at hu <;> cases hu <;> exact h.wait
  | future a =>
    obtain ⟨y,hy,hx⟩ := Option.map_eq_some_iff.mp hx
    cases y with
    | error message => cases hx
    | ok gate =>
      cases hx
      exact h.act ha hy

def Final (s t : State W) : Prop :=
  (s.latch.zero = true → t.latch.zero = true) ∧ (s.group.zero = true → t.group.zero = true)

namespace Ok

variable (h : Ok s)
include h

theorem stepLatch {a : Latch.Action W} (ha : State.observes a ∨ a = .countDown)
    (hn : s.latch.next a = some latch) (polls : List (Poll W)) :
    Ok ⟨latch,s.group,polls⟩ ∧ Final s ⟨latch,s.group,polls⟩ := by
  obtain ⟨hok,hmoves⟩ := h.latch.next hn
  refine ⟨⟨hok,h.group,h.counted.next h.latch ha hn,fun hz => h.unpolled ?_⟩,hmoves.stays,fun hz => hz⟩
  exact Bool.eq_false_iff.mpr fun hzero => by simp [hmoves.stays hzero] at hz

theorem stepGroup {a : WaitGroup.Action W} (hn : s.group.next a = some group)
    (hunpolled : s.latch.zero = false → Unpolled group.gate) (polls : List (Poll W)) :
    Ok ⟨s.latch,group,polls⟩ ∧ Final s ⟨s.latch,group,polls⟩ := by
  obtain ⟨hok,hmoves⟩ := h.group.next hn
  exact ⟨⟨h.latch,hok,h.counted,hunpolled⟩,fun hz => hz,hmoves.stays⟩

theorem next {a : Action W} (hn : s.next a = some t) : Ok t ∧ Final s t := by
  cases a with
  | requestShutdown =>
    obtain ⟨latch,hl,rfl⟩ := Option.map_eq_some_iff.mp hn
    exact h.stepLatch (.inr rfl) hl _
  | latch a =>
    obtain ⟨ha,hn⟩ := Option.ite_none_right_eq_some.mp hn
    obtain ⟨latch,hl,rfl⟩ := Option.map_eq_some_iff.mp hn
    exact h.stepLatch (.inl ha) hl _
  | group a =>
    obtain ⟨ha,hn⟩ := Option.ite_none_right_eq_some.mp hn
    obtain ⟨group,hg,rfl⟩ := Option.map_eq_some_iff.mp hn
    exact h.stepGroup hg (fun hz => (h.unpolled hz).next h.group ha hg) _
  | poll f waker =>
    obtain ⟨-,hn⟩ := Option.ite_none_right_eq_some.mp hn
    obtain ⟨latch,hl,rfl⟩ := Option.map_eq_some_iff.mp hn
    exact h.stepLatch (.inr rfl) hl _
  | wait k =>
    obtain ⟨p,-,hn⟩ := Option.bind_eq_some_iff.mp hn
    obtain ⟨c,hc,hn⟩ := Option.bind_eq_some_iff.mp hn
    obtain ⟨⟨-,hdone⟩,hn⟩ := Option.ite_none_right_eq_some.mp hn
    obtain ⟨group,hg,rfl⟩ := Option.map_eq_some_iff.mp hn
    have hone : c.counted = 1 := by simp [Latch.Call.counted,hdone,h.counted p.call c hc]
    have hle := Table.le_total Latch.Call.counted hc
    have hended := h.latch.ended
    have hzero : s.latch.zero = true := decide_eq_true (by omega)
    exact h.stepGroup hg (fun hz => by rw [hzero] at hz; cases hz) _

end Ok

theorem new_ok : Ok (new W) where
  latch := .new 1
  group := ⟨OneShot.Gate.Ok.wait (.new _),rfl,rfl,rfl⟩
  counted := by simp [Counted,new,Latch.new]
  unpolled _ := Unpolled.wait (by simp [Unpolled,Gate.new])

theorem reachable_ok (h : (machine W).Reachable s) : Ok s := by
  apply (machine W).invariant Ok _ (fun _ _ _ hs hn => (hs.next hn).1) h
  rintro s rfl
  exact new_ok

structure State.Contract (s : State W) : Prop where
  /-- Nobody who waits for the request, or for the guards, is left asleep. -/
  latch : s.latch.Contract 1
  group : s.group.Contract
  final : ∀ as t, (machine W).exec s as = some t → Final s t
  /-- The request precedes the first look at the guards, -/
  awaited : ∀ (f : ℕ) c, s.group.gate.waits[f]? = some c →
    c.stage = .idle none ∨ c.stage = .dropped ∨ s.latch.zero = true
  /-- and a `Shutdown` that returned found it made and every guard dropped. -/
  complete : ∀ (f : ℕ) c, s.group.gate.waits[f]? = some c → c.stage = .ready →
    s.latch.zero = true ∧ ∀ i : ℕ, s.group.owners[i]? ≠ some .live

theorem Ok.awaited (h : Ok s) {f : ℕ} {c : Wait W} (hf : s.group.gate.waits[f]? = some c) :
    c.stage = .idle none ∨ c.stage = .dropped ∨ s.latch.zero = true := by
  cases hz : s.latch.zero with
  | true => exact .inr (.inr rfl)
  | false => exact (h.unpolled hz f c hf).imp_right .inl

/-- Shutdown is requested before it is awaited and complete only without guards, in all
interleavings. -/
theorem graceful_shutdown (h : (machine W).Reachable s) : s.Contract where
  latch := (reachable_ok h).latch.contract
  group := (reachable_ok h).group.contract
  final as t hrun := by
    have hend := (machine W).exec_invariant (fun _ => True) (fun t => Ok t ∧ Final s t)
      (fun t a u _ ⟨hok,hfinal⟩ hn => ⟨(hok.next hn).1,fun hz => (hok.next hn).2.1 (hfinal.1 hz),
        fun hz => (hok.next hn).2.2 (hfinal.2 hz)⟩)
      (fun _ _ => trivial) ⟨reachable_ok h,fun hz => hz,fun hz => hz⟩ hrun
    exact hend.2
  awaited f c hf := (reachable_ok h).awaited hf
  complete f c hf hready := by
    have hok := reachable_ok h
    have hzero := hok.group.gate.contract.ready f c hf hready
    refine ⟨?_,fun i hi => ?_⟩
    · simpa [hready] using hok.awaited hf
    · rw [hok.group.not_zero hi] at hzero
      cases hzero

/-- The guard waits for the request, which the first poll makes; it is dropped, and the second
poll returns. -/
def awaitRun : List (Action ℕ) :=
  [.latch .wait,.latch (.future (.poll 0 5)),.latch (.future (.recheck 0)),.latch (.future (.register 0)),
   .poll 0 7,.latch (.load 0),.latch (.cas 0 false),.latch (.wake 0),.wait 0,
   .group (.future (.recheck 0)),.group (.future (.register 0)),
   .latch (.future (.poll 0 5)),.group (.release 0 false),.group (.wake 0),
   .poll 0 8,.latch (.load 1),.latch (.cas 1 false),.wait 1]

theorem graceful_shutdown_awaitRun : ∃ s, (machine ℕ).exec (new ℕ) awaitRun = some s ∧ s.Contract ∧
    s.latch.gate.woken = [5] ∧ s.group.gate.woken = [7] ∧
    s.group.gate.waits.map Wait.stage = [.ready] := by
  have hrun : ((machine ℕ).exec (new ℕ) awaitRun).map (fun s =>
      (s.latch.gate.woken,s.group.gate.woken,s.group.gate.waits.map Wait.stage)) =
        some ([5],[7],[.ready]) := by
    decide +kernel
  obtain ⟨s,hs,hend⟩ := Option.map_eq_some_iff.mp hrun
  simp only [Prod.mk.injEq] at hend
  exact ⟨s,hs,graceful_shutdown ((machine ℕ).reachable_of_exec rfl hs),hend⟩

end Shutdown
end Asyncband
