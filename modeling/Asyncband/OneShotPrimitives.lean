import Asyncband.Completion
import Asyncband.Latch
import Asyncband.WaitGroup

/-! No one-shot primitive strands a waiter. -/
namespace Asyncband
namespace OneShot

theorem oneShot_primitives (T W : Type) [Wake W] :
    (∀ initial s, (Latch.machine W initial).Reachable s → s.Contract initial) ∧
      (∀ s, (WaitGroup.machine W).Reachable s → s.Contract) ∧
      ∀ s, (Completion.machine T W).Reachable s → s.Contract :=
  ⟨fun _ _ h => (Latch.reachable_ok h).contract,fun _ h => (WaitGroup.reachable_ok h).contract,
    fun _ h => (Completion.reachable_ok h).contract⟩

/-- The second future looks under the lock, the last decrement is applied, and only then the
future registers. -/
def latchRun : List (Latch.Action ℕ) :=
  [.wait,.wait,.future (.poll 0 7),.future (.recheck 0),.future (.register 0),.countDown,.arrive 5,
   .load 0,.load 1,.cas 0 true,.cas 0 false,.cas 1 false,
   .future (.poll 1 8),.future (.recheck 1),.cas 1 false,.future (.register 1),.wake 1]

/-- A handle becomes a future, which registers before the other handle is dropped. -/
def groupRun : List (WaitGroup.Action ℕ) :=
  [.clone 0,.release 0 true,.future (.poll 0 7),.future (.recheck 0),.future (.register 0),
   .release 1 false,.wake 1,.future (.poll 0 7)]

def completionRun : List (Completion.Action ℕ ℕ) :=
  [.wait,.wait,.future (.poll 0 7),.future (.recheck 0),.future (.register 0),
   .future (.poll 1 8),.future (.recheck 1),.future (.register 1),.future (.drop 1),
   .complete (some 5),.future (.recheckDrop 1),.future (.unregister 1),.publish]

theorem oneShot_primitives_runs :
    (∃ s, (Latch.machine ℕ 3).exec (Latch.new ℕ 3) latchRun = some s ∧ s.Contract 3 ∧
      s.count = 0 ∧ s.applied = 6 ∧ s.gate.woken = [7,8]) ∧
    (∃ s, (WaitGroup.machine ℕ).exec (WaitGroup.new ℕ) groupRun = some s ∧ s.Contract ∧
      s.handles = 0 ∧ s.gate.woken = [7]) ∧
    ∃ s, (Completion.machine ℕ ℕ).exec (Completion.new ℕ ℕ) completionRun = some s ∧ s.Contract ∧
      s.result = some (some 5) ∧ s.gate.woken = [7] := by
  obtain ⟨hlatch,hgroup,hcompletion⟩ := oneShot_primitives ℕ ℕ
  have hrun₁ : ((Latch.machine ℕ 3).exec (Latch.new ℕ 3) latchRun).map (fun s =>
      (s.count,s.applied,s.gate.woken)) = some (0,6,[7,8]) := by
    decide +kernel
  have hrun₂ : ((WaitGroup.machine ℕ).exec (WaitGroup.new ℕ) groupRun).map (fun s =>
      (s.handles,s.gate.woken)) = some (0,[7]) := by
    decide +kernel
  have hrun₃ : ((Completion.machine ℕ ℕ).exec (Completion.new ℕ ℕ) completionRun).map (fun s =>
      (s.result,s.gate.woken)) = some (some (some 5),[7]) := by
    decide +kernel
  obtain ⟨s₁,hs₁,hend₁⟩ := Option.map_eq_some_iff.mp hrun₁
  obtain ⟨s₂,hs₂,hend₂⟩ := Option.map_eq_some_iff.mp hrun₂
  obtain ⟨s₃,hs₃,hend₃⟩ := Option.map_eq_some_iff.mp hrun₃
  simp only [Prod.mk.injEq] at hend₁ hend₂ hend₃
  exact ⟨⟨s₁,hs₁,hlatch 3 s₁ (Transition.Machine.reachable_of_exec _ rfl hs₁),hend₁⟩,
    ⟨s₂,hs₂,hgroup s₂ (Transition.Machine.reachable_of_exec _ rfl hs₂),hend₂⟩,
    s₃,hs₃,hcompletion s₃ (Transition.Machine.reachable_of_exec _ rfl hs₃),hend₃⟩

end OneShot
end Asyncband
