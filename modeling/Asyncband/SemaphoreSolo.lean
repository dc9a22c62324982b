import Asyncband.SemaphoreGuard

/-! A semaphore call that runs alone.
Once all other calls have ended the lock is free, and a release or a drain comes to its end
by its own steps. -/
namespace Asyncband
namespace Semaphore

open Relation

variable {W : Type} {s : State W}

theorem getElem?_setCall {c : ℕ} {old : Call W} (hc : s.calls[c]? = some old) (call : Call W) :
    (s.setCall c call).calls[c]? = some call :=
  Table.getElem?_set_self' hc call

/-- Call `c` makes steps of its own, none of which fails spuriously. -/
def Steps [Wake W] (c : ℕ) : State W → State W → Prop :=
  ReflTransGen fun s s' => advance s c false = some s'

/-- By its own steps call `c` ends with `outcome` and the lock is free then. -/
def Ends [Wake W] (c : ℕ) (outcome : Outcome) (s : State W) : Prop :=
  ∃ t, Steps c s t ∧ t.calls[c]? = some (.finished outcome) ∧ t.lock = none

section Alone

variable [Wake W] {s s' : State W} {c n : ℕ} {outcome : Outcome} {upTo : ℕ}

theorem Ends.step (hn : advance s c false = some s') (h : Ends c outcome s') : Ends c outcome s := by
  obtain ⟨t,hsteps,hend⟩ := h
  exact ⟨t,ReflTransGen.head hn hsteps,hend⟩

theorem Ends.finished (hc : s.calls[c]? = some (.finished outcome)) (hlock : s.lock = none) :
    Ends c outcome s :=
  ⟨s,ReflTransGen.refl,hc,hlock⟩

theorem ends_wakeAll (hc : s.calls[c]? = some (.wakeAll [] 0)) (hlock : s.lock = none) :
    Ends c .returned s := by
  have hnext : advance s c false = some (s.finish c .returned) := by
    simp only [advance,hc,if_true]
  exact .step hnext (.finished (getElem?_setCall hc _) hlock)

theorem ends_surplusSettled (hc : s.calls[c]? = some (.surplusSettled [])) :
    Ends c .returned s := by
  have hnext : advance s c false =
      some {s.setCall c (.wakeAll [] 0) with contentionDetected := false,lock := none} := by
    simp only [advance,hc]
  exact .step hnext (ends_wakeAll (getElem?_setCall hc _) rfl)

/-- The surplus of a distribution is added to a count that nobody else changes. -/
theorem ends_surplusLoad (hc : s.calls[c]? = some (.surplusLoad n []))
    (hroom : s.available+n ≤ usizeMax) : Ends c .returned s := by
  by_cases hzero : s.available = 0
  · have hload : advance s c false = some (s.setCall c (.surplusAdd n [])) := by
      simp only [advance,hc,if_pos hzero]
    have hc' := getElem?_setCall hc (.surplusAdd n [])
    have hadd : advance (s.setCall c (.surplusAdd n [])) c false =
        some {(s.setCall c (.surplusAdd n [])).setCall c (.wakeAll [] 0) with
          available := (s.available+n) % 2^64
          lock := none} := by
      simp only [advance,hc']
      rfl
    exact .step hload (.step hadd (ends_wakeAll (getElem?_setCall hc' _) rfl))
  · have hload : advance s c false = some (s.setCall c (.surplusExchange n s.available [])) := by
      simp only [advance,hc,if_neg hzero]
    have hc' := getElem?_setCall hc (.surplusExchange n s.available [])
    have hexchange : advance (s.setCall c (.surplusExchange n s.available [])) c false =
        some {(s.setCall c (.surplusExchange n s.available [])).setCall c (.surplusSettled []) with
          available := s.available+n} := by
      simp only [advance,hc',if_neg (Nat.not_lt.mpr hroom)]
      exact if_pos rfl
    exact .step hload (.step hexchange (ends_surplusSettled (getElem?_setCall hc' _)))

theorem ends_releaseLock (hc : s.calls[c]? = some (.releaseLock n)) (hlock : s.lock = none)
    (hvacant : s.waiters.order = []) (hn : 0 < n) (hroom : s.available+n ≤ usizeMax) :
    Ends c .returned s := by
  have hempty : s.waiters.isEmpty = true := WaitList.isEmpty_iff.mpr hvacant
  have hnext : advance s c false = some
      (distribute {s with ledger := {s.ledger with released := s.ledger.released+n}} c n) := by
    simp only [advance,hc,hlock,ne_eq,not_true_eq_false,if_false]
  refine .step hnext ?_
  simp only [distribute,hvacant,List.length_nil,assignPermits,hn,hempty,and_self,if_true]
  exact ends_surplusLoad (getElem?_setCall hc _) hroom

theorem ends_release (hc : s.calls[c]? = some (.started (.release n))) (hlock : s.lock = none)
    (hvacant : s.waiters.order = []) (hroom : s.available+n ≤ usizeMax) : Ends c .returned s := by
  by_cases hzero : n = 0
  · have hnext : advance s c false = some (s.finish c .returned) := by
      simp only [advance,hc,begin,if_pos hzero]
    exact .step hnext (.finished (getElem?_setCall hc _) hlock)
  have hpos : 0 < n := Nat.pos_of_ne_zero hzero
  by_cases hnone : s.available = 0
  · have hnext : advance s c false = some (s.setCall c (.releaseLock n)) := by
      simp only [advance,hc,begin,if_neg hzero,hnone,ne_eq,not_true_eq_false,if_false]
    exact .step hnext (ends_releaseLock (getElem?_setCall hc _) hlock hvacant hpos hroom)
  have hload : advance s c false = some (s.setCall c (.release n s.available)) := by
    simp only [advance,hc,begin,if_neg hzero,ne_eq,hnone,not_false_eq_true,if_true]
  have hc₁ := getElem?_setCall hc (.release n s.available)
  refine .step hload ?_
  cases hcontention : s.contentionDetected with
  | true =>
    have hnext : advance (s.setCall c (.release n s.available)) c false =
        some ((s.setCall c (.release n s.available)).setCall c (.releaseLock n)) := by
      simp only [advance,hc₁]
      exact if_pos hcontention
    exact .step hnext (ends_releaseLock (getElem?_setCall hc₁ _) hlock hvacant hpos hroom)
  | false =>
    have hnext : advance (s.setCall c (.release n s.available)) c false =
        some ((s.setCall c (.release n s.available)).setCall c (.releaseExchange n s.available)) := by
      simp only [advance,hc₁]
      exact if_neg (by simp [State.setCall,hcontention])
    have hc₂ := getElem?_setCall hc₁ (.releaseExchange n s.available)
    refine .step hnext ?_
    generalize hs₂ : (s.setCall c (.release n s.available)).setCall c
      (.releaseExchange n s.available) = s₂ at hc₂
    have havailable : s₂.available = s.available := hs₂ ▸ rfl
    have hexchange : advance s₂ c false = some ({s₂ with
        available := s.available+n
        ledger := {s₂.ledger with released := s₂.ledger.released+n}}.finish c .returned) := by
      simp only [advance,hc₂,if_neg (Nat.not_lt.mpr hroom),havailable,if_true]
    exact .step hexchange (.finished (Table.getElem?_set_self' hc₂ _) (by rw [← hs₂]; exact hlock))

theorem drained_eq {spurious : Bool} (hd : Draining s c upTo) (h : advance s c spurious = some s')
    (hend : s'.calls[c]? = some (.finished (.drained n))) : n = min upTo s.available := by
  obtain ⟨call,hc,rfl | ⟨available,rfl⟩⟩ := hd
  · simp only [advance,hc,begin] at h
    split at h
    · next hzero =>
      cases h
      cases (getElem?_setCall hc _).symm.trans hend
      rw [hzero,Nat.zero_min]
    · cases h
      cases (getElem?_setCall hc _).symm.trans hend
  · simp only [advance,hc] at h
    split at h
    · next heq =>
      cases h
      rw [heq.1]
      cases (Table.getElem?_set_self' hc _).symm.trans hend
      rfl
    · cases h
      cases (getElem?_setCall hc _).symm.trans hend

theorem ends_drainPermits (hc : s.calls[c]? = some (.started (.drainPermits upTo)))
    (hlock : s.lock = none) : Ends c (.drained (min upTo s.available)) s := by
  by_cases hzero : upTo = 0
  · have hnext : advance s c false = some (s.finish c (.drained 0)) := by
      simp only [advance,hc,begin,if_pos hzero]
    rw [hzero,Nat.zero_min]
    exact .step hnext (.finished (getElem?_setCall hc _) hlock)
  · have hload : advance s c false = some (s.setCall c (.drainPermits upTo s.available)) := by
      simp only [advance,hc,begin,if_neg hzero]
    have hc' := getElem?_setCall hc (.drainPermits upTo s.available)
    refine .step hload ?_
    generalize hs' : s.setCall c (.drainPermits upTo s.available) = s' at hc'
    have havailable : s'.available = s.available := hs' ▸ rfl
    have hexchange : advance s' c false = some ({s' with
        available := s.available-upTo
        ledger := {s'.ledger with drained := s'.ledger.drained+min upTo s.available}}.finish c
          (.drained (min upTo s.available))) := by
      simp only [advance,hc',havailable,and_self,if_true]
    exact .step hexchange (.finished (Table.getElem?_set_self' hc' _) (by rw [← hs']; exact hlock))

end Alone
end Semaphore
end Asyncband
