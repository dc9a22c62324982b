import Asyncband.Once
import Asyncband.OnceCell

/-! One-time initialization, with and without a value. -/
namespace Asyncband

theorem once_initialization (T W : Type) [Wake W] :
    (∀ value s, (OnceCell.machine T W value).Reachable s → s.Contract) ∧
      ∀ s, (Once.machine W).Reachable s → s.Contract :=
  ⟨fun _ _ h => (OnceCell.reachable_ok h).contract,fun _ h => (Once.reachable_ok h).contract⟩

namespace OnceCell

/-- An attempt fails while two inserting calls wait. The older one gets the permit and stores
its value, and the other one gets its own value back. -/
def failedRun : List (Action ℕ ℕ) :=
  [.call (.tryInsert 5),.call .getOrTryInit,.call (.tryInsert 7),.look 0,.look 1,.look 2,
   .poll 1 11,.advance 1 false,.advance 1 false,.recheck 1,
   .poll 0 10,.advance 0 false,.advance 0 false,.advance 0 false,
   .poll 2 12,.advance 2 false,.advance 2 false,.advance 2 false,
   .fail 1,.leave 1,.advance 1 false,.advance 1 false,.advance 1 false,.advance 1 false,
   .poll 0 10,.advance 0 false,.recheck 0,.complete 0 0,.write 0,.publish 0,
   .leave 0,.advance 0 false,.advance 0 false,.advance 0 false,.advance 0 false,
   .poll 2 12,.advance 2 false,.recheck 2]

end OnceCell

namespace Once

/-- The function of the first call panics, the second call completes and wakes the waiter. -/
def panickedRun : List (Action ℕ) :=
  [.wait,.future (.poll 0 7),.future (.recheck 0),.future (.register 0),
   .callOnce,.callOnce,.look 0,.look 1,.poll 0 8,.advance 0 false,.advance 0 false,.recheck 0,
   .poll 1 9,.advance 1 false,.advance 1 false,.advance 1 false,
   .panic 0,.leave 0,.advance 0 false,.advance 0 false,.advance 0 false,.advance 0 false,
   .poll 1 9,.advance 1 false,.recheck 1,.complete 1,.load 1,.cas 1 true,.cas 1 false,.wake 1]

end Once

theorem once_initialization_runs :
    (∃ s, (OnceCell.machine ℕ ℕ none).exec (OnceCell.new ℕ ℕ none) OnceCell.failedRun = some s ∧
      s.Contract ∧ s.cell.get = some 5 ∧ s.writer = some 0 ∧
      s.turns.tasks.map (fun task => task.payload.stage) =
        [.ending (.returned 5),.ending .failed,.ending (.returned 5)]) ∧
    ∃ s, (Once.machine ℕ).exec (Once.new ℕ) Once.panickedRun = some s ∧ s.Contract ∧
      s.isCompleted = true ∧ s.gate.woken = [7] ∧
      s.turns.tasks.map (fun task => task.payload) = [.ending .unwound,.ending .returned] := by
  obtain ⟨hcell,honce⟩ := once_initialization ℕ ℕ
  have hrun₁ : ((OnceCell.machine ℕ ℕ none).exec (OnceCell.new ℕ ℕ none) OnceCell.failedRun).map
      (fun s => (s.cell.get,s.writer,s.turns.tasks.map (fun task => task.payload.stage))) =
        some (some 5,some 0,[.ending (.returned 5),.ending .failed,.ending (.returned 5)]) := by
    decide +kernel
  have hrun₂ : ((Once.machine ℕ).exec (Once.new ℕ) Once.panickedRun).map
      (fun s => (s.isCompleted,s.gate.woken,s.turns.tasks.map (fun task => task.payload))) =
        some (true,[7],[.ending .unwound,.ending .returned]) := by
    decide +kernel
  obtain ⟨s₁,hs₁,hend₁⟩ := Option.map_eq_some_iff.mp hrun₁
  obtain ⟨s₂,hs₂,hend₂⟩ := Option.map_eq_some_iff.mp hrun₂
  simp only [Prod.mk.injEq] at hend₁ hend₂
  exact ⟨⟨s₁,hs₁,hcell none s₁ (Transition.Machine.reachable_of_exec _ rfl hs₁),hend₁⟩,
    s₂,hs₂,honce s₂ (Transition.Machine.reachable_of_exec _ rfl hs₂),hend₂⟩

end Asyncband
