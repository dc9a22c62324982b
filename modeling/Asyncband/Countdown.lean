import Asyncband.OneShotWait

/-! The countdown that latches and one-time calls share.
`decrement` is a compare-and-swap loop on the counter, one step per access, and the call that
reaches zero takes the waiters in a later step. -/
namespace Asyncband
namespace Countdown

open OneShot

/-- Where a call of `decrement` is; behind the loop it may have `wake_all` ahead. -/
inductive Stage
  | started
  | trying (cnt : ℕ)
  | waking
  | done
  deriving DecidableEq

/-- What one round of the loop leaves behind. -/
structure Round where
  count : ℕ
  stage : Stage
  exchanged : Bool

def load (count : ℕ) : Stage → Option Stage
  | .started => some (.trying count)
  | _ => none

/-- One round of `decrement(n)`; `compare_exchange_weak` may fail without a reason. -/
def cas (count n : ℕ) (spurious : Bool) : Stage → Option Round
  | .trying cnt =>
    some (if cnt = 0 then ⟨count,.done,false⟩
      else if count = cnt ∧ spurious = false then
        ⟨cnt-n,if cnt-n = 0 then .waking else .done,true⟩
      else ⟨count,.trying count,false⟩)
  | _ => none

def wakeAll {W : Type} (gate : Gate W) : Stage → Option (Gate W)
  | .waking => if gate.lock = none then some gate.wakeAll else none
  | _ => none

theorem load_eq_some {count : ℕ} {stage stage' : Stage} (h : load count stage = some stage') :
    stage = .started ∧ stage' = .trying count := by
  cases stage <;> cases h
  exact ⟨rfl,rfl⟩

theorem cas_eq_some {count n : ℕ} {spurious : Bool} {stage : Stage} {r : Round}
    (h : cas count n spurious stage = some r) :
    stage = .trying 0 ∧ r = ⟨count,.done,false⟩ ∨
    stage = .trying count ∧ count ≠ 0 ∧
      r = ⟨count-n,if count-n = 0 then .waking else .done,true⟩ ∨
    (∃ cnt, stage = .trying cnt ∧ cnt ≠ 0) ∧ r = ⟨count,.trying count,false⟩ := by
  cases stage with
  | trying cnt =>
    cases h
    split
    · next hcnt => exact Or.inl ⟨by rw [hcnt],rfl⟩
    · next hcnt =>
      split
      · next hwin =>
        obtain ⟨rfl,-⟩ := hwin
        exact Or.inr (Or.inl ⟨rfl,hcnt,rfl⟩)
      · exact Or.inr (Or.inr ⟨⟨cnt,rfl,hcnt⟩,rfl⟩)
  | _ => cases h

theorem wakeAll_eq_some {W : Type} {gate gate' : Gate W} {stage : Stage}
    (h : wakeAll gate stage = some gate') :
    stage = .waking ∧ gate.lock = none ∧ gate' = gate.wakeAll := by
  cases stage with
  | waking =>
    obtain ⟨hlock,⟨⟩⟩ := Option.ite_none_right_eq_some.mp h
    exact ⟨rfl,hlock,rfl⟩
  | _ => cases h

end Countdown
end Asyncband
