import Asyncband.Semaphore
import Mathlib.Logic.Relation

/-! What the loops under the queue lock do, one waiter at a time.
A round works on the head of the queue only. `assignPermits_rounds` and
`notifyWaiters_rounds` turn the two loops into sequences of such rounds, so that
every property of a loop is a property of one round. -/
namespace Asyncband
namespace Semaphore

open Relation
open WakerBatch (stackSize)

variable {W : Type} {w : WaitList (WaitNode W)} {id : WaiterId} {ids : List WaiterId}

/-- One round of the loop in `distribute_permits`. -/
inductive Assign : Distribution W → Distribution W → Prop
  | grant {d : Distribution W} {id : WaiterId} {ids : List WaiterId} {node : WaitNode W} {waker : W}
      {waiters : WaitList (WaitNode W)}
      (ho : d.waiters.order = id::ids) (hn : d.waiters.get? id = some node)
      (hw : node.waker = some waker) (hr : node.neededPermits ≤ d.remaining)
      (ho' : waiters.order = ids)
      (hg' : waiters.get? = Function.update d.waiters.get? id
        (some {node with neededPermits := 0,waker := none})) :
      Assign d ⟨waiters,d.remaining-node.neededPermits,d.batch++[waker],
        d.granted++node.owner.toList.map (·,waker)⟩
  | repay {d : Distribution W} {id : WaiterId} {ids : List WaiterId} {node : WaitNode W}
      {waiters : WaitList (WaitNode W)}
      (ho : d.waiters.order = id::ids) (hn : d.waiters.get? id = some node)
      (hw : node.waker = none) (hr : node.neededPermits ≤ d.remaining)
      (ho' : waiters.order = ids)
      (hg' : waiters.get? = Function.update d.waiters.get? id none) :
      Assign d ⟨waiters,d.remaining-node.neededPermits,d.batch,d.granted⟩
  /-- The head absorbs everything and stays linked. -/
  | part {d : Distribution W} {id : WaiterId} {ids : List WaiterId} {node : WaitNode W}
      {waiters : WaitList (WaitNode W)}
      (ho : d.waiters.order = id::ids) (hn : d.waiters.get? id = some node)
      (hr : d.remaining < node.neededPermits)
      (ho' : waiters.order = id::ids)
      (hg' : waiters.get? = Function.update d.waiters.get? id
        (some {node with neededPermits := node.neededPermits-d.remaining})) :
      Assign d ⟨waiters,0,d.batch,d.granted⟩

/-- One round of the loop in `notify_all`; `remaining` counts the cancelled needs. -/
inductive Notify : Distribution W → Distribution W → Prop
  | grant {d : Distribution W} {id : WaiterId} {ids : List WaiterId} {node : WaitNode W} {waker : W}
      {waiters : WaitList (WaitNode W)}
      (ho : d.waiters.order = id::ids) (hn : d.waiters.get? id = some node)
      (hw : node.waker = some waker) (ho' : waiters.order = ids)
      (hg' : waiters.get? = Function.update d.waiters.get? id
        (some {node with neededPermits := 0,waker := none})) :
      Notify d ⟨waiters,d.remaining+node.neededPermits,d.batch++[waker],
        d.granted++node.owner.toList.map (·,waker)⟩
  | forgive {d : Distribution W} {id : WaiterId} {ids : List WaiterId} {node : WaitNode W}
      {waiters : WaitList (WaitNode W)}
      (ho : d.waiters.order = id::ids) (hn : d.waiters.get? id = some node)
      (hw : node.waker = none) (ho' : waiters.order = ids)
      (hg' : waiters.get? = Function.update d.waiters.get? id none) :
      Notify d ⟨waiters,d.remaining+node.neededPermits,d.batch,d.granted⟩

theorem headNeed_cons {node : WaitNode W} (ho : w.order = id::ids) (hn : w.get? id = some node) :
    headNeed w = node.neededPermits := by
  simp [headNeed,ho,hn]

theorem headNeed_nil (ho : w.order = []) : headNeed w = 0 := by
  simp [headNeed,ho]

theorem detached_not_mem {w' : WaitList (WaitNode W)} (ho : w.order = id::ids) (ho' : w'.order = ids) :
    id ∉ w'.order := by
  have hnd := w.order_nodup
  rw [ho,List.nodup_cons] at hnd
  rw [ho']
  exact hnd.1

theorem assign_round {d : Distribution W} {node : WaitNode W}
    (hguard : 0 < d.remaining ∧ d.batch.length < stackSize) (ho : d.waiters.order = id::ids)
    (hn : d.waiters.get? id = some node) (hr : node.neededPermits ≤ d.remaining) :
    ∃ d₁, Assign d d₁ ∧ d₁.waiters.order = ids ∧
      ∀ rounds, assignPermits (rounds+1) d = assignPermits rounds d₁ := by
  obtain ⟨w',hu,ho',hg'⟩ := WaitList.unlinkFirstWaiter_cons ho hn (assignTo d.remaining)
  have hzero : node.neededPermits - min node.neededPermits d.remaining = 0 := by omega
  have hrem : d.remaining - min node.neededPermits d.remaining =
      d.remaining - node.neededPermits := by omega
  simp only [assignTo,hzero,beq_self_eq_true,if_true] at hu ho' hg'
  have hnode : w'.get? id = some {node with neededPermits := 0} := by simp [hg']
  cases hw : node.waker with
  | some waker =>
    obtain ⟨w'',hs,ho'',hg''⟩ := WaitList.setWaiter_spec hnode
      {node with neededPermits := 0,waker := none}
    refine ⟨_,.grant ho hn hw hr (ho''.trans ho') (by rw [hg'',hg',Function.update_idem]),
      ho''.trans ho',fun rounds => ?_⟩
    simp [assignPermits,hguard,headNeed_cons ho hn,hu,hs,hrem,bind,Except.bind,hw]
  | none =>
    obtain ⟨w'',hs,ho'',hg''⟩ :=
      WaitList.removeUnlinkedWaiter_spec hnode (detached_not_mem ho ho')
    refine ⟨_,.repay ho hn hw hr (ho''.trans ho') (by rw [hg'',hg',Function.update_idem]),
      ho''.trans ho',fun rounds => ?_⟩
    simp [assignPermits,hguard,headNeed_cons ho hn,hu,hs,hrem,bind,Except.bind,hw]

theorem notify_round {d : Distribution W} {node : WaitNode W} (ho : d.waiters.order = id::ids)
    (hn : d.waiters.get? id = some node) :
    ∃ d₁, Notify d d₁ ∧ d₁.waiters.order = ids ∧
      ∀ rounds, notifyWaiters (rounds+1) d = notifyWaiters rounds d₁ := by
  obtain ⟨w',hu,ho',hg'⟩ := WaitList.unlinkFirstWaiter_cons ho hn
    fun node => (true,{node with neededPermits := 0})
  simp only [if_true] at hu ho' hg'
  have hnode : w'.get? id = some {node with neededPermits := 0} := by simp [hg']
  cases hw : node.waker with
  | some waker =>
    obtain ⟨w'',hs,ho'',hg''⟩ := WaitList.setWaiter_spec hnode
      {node with neededPermits := 0,waker := none}
    refine ⟨_,.grant ho hn hw (ho''.trans ho') (by rw [hg'',hg',Function.update_idem]),
      ho''.trans ho',fun rounds => ?_⟩
    simp [notifyWaiters,headNeed_cons ho hn,hu,hs,bind,Except.bind,hw]
  | none =>
    obtain ⟨w'',hs,ho'',hg''⟩ :=
      WaitList.removeUnlinkedWaiter_spec hnode (detached_not_mem ho ho')
    refine ⟨_,.forgive ho hn hw (ho''.trans ho') (by rw [hg'',hg',Function.update_idem]),
      ho''.trans ho',fun rounds => ?_⟩
    simp [notifyWaiters,headNeed_cons ho hn,hu,hs,bind,Except.bind,hw]

/-- The loop of `distribute_permits` never panics, works round by round, and stops
when the permits, the batch or the queue are exhausted. -/
theorem assignPermits_rounds (rounds : ℕ) (d : Distribution W)
    (hl : d.waiters.order.length ≤ rounds) :
    ∃ d', assignPermits rounds d = .ok d' ∧ ReflTransGen Assign d d' ∧
      (d'.remaining = 0 ∨ stackSize ≤ d'.batch.length ∨ d'.waiters.order = []) := by
  induction rounds generalizing d with
  | zero =>
    refine ⟨d,rfl,.refl,Or.inr (Or.inr ?_)⟩
    exact List.length_eq_zero_iff.mp (Nat.le_zero.mp hl)
  | succ rounds ih =>
    by_cases hguard : 0 < d.remaining ∧ d.batch.length < stackSize
    · cases ho : d.waiters.order with
      | nil =>
        refine ⟨d,?_,.refl,Or.inr (Or.inr ho)⟩
        simp [assignPermits,hguard,headNeed_nil ho,WaitList.unlinkFirstWaiter_nil ho]
      | cons id ids =>
        obtain ⟨node,hn⟩ := WaitList.get?_of_mem_order (show id ∈ d.waiters.order by simp [ho])
        by_cases hr : node.neededPermits ≤ d.remaining
        · obtain ⟨d₁,hround,ho₁,hstep⟩ := assign_round hguard ho hn hr
          obtain ⟨d',hd',hrounds,hexit⟩ := ih d₁ (by rw [ho₁]; simpa [ho] using hl)
          exact ⟨d',(hstep rounds).trans hd',.head hround hrounds,hexit⟩
        · obtain ⟨w',hu,ho',hg'⟩ := WaitList.unlinkFirstWaiter_cons ho hn (assignTo d.remaining)
          have hlt : d.remaining < node.neededPermits := by omega
          have hmin : min node.neededPermits d.remaining = d.remaining := by omega
          have hpos : (node.neededPermits - d.remaining == 0) = false := by
            simp only [beq_eq_false_iff_ne]
            omega
          simp only [assignTo,hmin,hpos,Bool.false_eq_true,if_false] at hu ho' hg'
          refine ⟨⟨w',0,d.batch,d.granted⟩,?_,.single (.part ho hn hlt ho' hg'),Or.inl rfl⟩
          simp [assignPermits,hguard,headNeed_cons ho hn,hmin,hu]
    · refine ⟨d,by simp [assignPermits,hguard],.refl,?_⟩
      omega

theorem notifyWaiters_rounds (rounds : ℕ) (d : Distribution W)
    (hl : d.waiters.order.length ≤ rounds) :
    ∃ d', notifyWaiters rounds d = .ok d' ∧ ReflTransGen Notify d d' ∧ d'.waiters.order = [] := by
  induction rounds generalizing d with
  | zero =>
    exact ⟨d,rfl,.refl,List.length_eq_zero_iff.mp (Nat.le_zero.mp hl)⟩
  | succ rounds ih =>
    cases ho : d.waiters.order with
    | nil =>
      refine ⟨d,?_,.refl,ho⟩
      simp [notifyWaiters,WaitList.unlinkFirstWaiter_nil ho]
    | cons id ids =>
      obtain ⟨node,hn⟩ := WaitList.get?_of_mem_order (show id ∈ d.waiters.order by simp [ho])
      obtain ⟨d₁,hround,ho₁,hstep⟩ := notify_round ho hn
      obtain ⟨d',hd',hrounds,hexit⟩ := ih d₁ (by rw [ho₁]; simpa [ho] using hl)
      exact ⟨d',(hstep rounds).trans hd',.head hround hrounds,hexit⟩

end Semaphore
end Asyncband
