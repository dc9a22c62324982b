import Asyncband.SemaphoreLoan

/-! Semaphores whose users only give back what they hold.
Locks use a semaphore with acquisitions and releases only, and release no more than
they acquired: a loan without drains. -/
namespace Asyncband
namespace Semaphore

variable {W : Type}

def State.held (s : State W) : ℕ := s.ledger.acquired-(s.ledger.released+s.argument)

def Intent.leasing : Intent → Bool
  | .poll _ | .tryAcquire _ | .other => true
  | _ => false

structure Lease [Wake W] (permits : ℕ) (s : State W) : Prop extends Loan permits s where
  leasing : ∀ call ∈ s.calls, call.intent.leasing = true
  drained : s.ledger.drained = 0

theorem Intent.leasing_iff {intent : Intent} :
    intent.leasing = true ↔ intent.lending = true ∧ intent ≠ .drain := by
  cases intent <;> simp [leasing,lending]

theorem State.held_eq {s : State W} (h : s.ledger.drained = 0) : s.held = s.taken := by
  rw [held,taken,h,Nat.add_zero]

section Steps

variable [Wake W] {s s' : State W} {c : ℕ} {call call' : Call W} {permits : ℕ}

theorem Lease.held_taken (hL : Lease permits s) : s.held = s.taken := State.held_eq hL.drained

theorem new_lease (h : permits ≤ usizeMax) : Lease permits (new W permits) :=
  ⟨new_loan h,by simp [new],rfl⟩

theorem Lease.total (hL : Lease permits s) :
    s.available+s.assigned+s.held+s.remaining+s.argument = permits := by
  rw [hL.held_taken]
  exact hL.toLoan.total

theorem Lease.not_drain (hL : Lease permits s) (hc : s.calls[c]? = some call) :
    call.intent ≠ .drain :=
  (Intent.leasing_iff.mp (hL.leasing call (List.mem_of_getElem? hc))).2

theorem Lease.advance (hL : Lease permits s) {spurious : Bool}
    (h : advance s c spurious = some s') :
    ∃ call call', s.calls[c]? = some call ∧ Effect s c call call' s' ∧ Lease permits s' := by
  obtain ⟨call,call',hc,heffect,hloan⟩ := hL.toLoan.advance h
  refine ⟨call,call',hc,heffect,hloan,?_,(heffect.drained (hL.not_drain hc)).trans hL.drained⟩
  apply heffect.forall_calls hL.leasing
  rcases heffect.intent with heq | heq
  · rw [heq]
    exact hL.leasing call (List.mem_of_getElem? hc)
  · rw [heq]
    rfl

end Steps
end Semaphore
end Asyncband
