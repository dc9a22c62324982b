import Asyncband.MpmcCapacity
import Asyncband.SpmcDelivery

/-! Receivers of the value queues never sleep on a value.
A notification reserves nothing: values may be taken by other receivers, and notified
futures may be cancelled or go back to sleep. The counting clause of `RecvOk` bounds the
queued values by the notifications that are still to be acted on. -/
namespace Asyncband

theorem exists_notified {W : Type} {w : Waiters W} (h : 0 < w.notified) :
    ∃ id f, w.get? id = some ⟨.notified,f⟩ := by
  obtain ⟨id,⟨v,f⟩,hget,hpos⟩ := Table.exists_of_sumBelow_pos h
  cases v with
  | waiting waker => cases hpos
  | notified => exact ⟨id,f,hget⟩

section

variable {T W : Type} [Wake W]

/-- The receiving side in one state; `alive` says that the sender side is. -/
structure Attended (values : List T) (alive : Prop) (w : Waiters W) (recvs : List (RecvCall T W))
    (woken : List W) : Prop where
  covered : alive → w.order ≠ [] → values.length ≤ w.notified
  /-- A queued value and a pending future leave a future that was notified, whose waker was
  handed out, and that has neither consumed nor passed on its notification. -/
  notified : alive → values ≠ [] → (∃ (r : ℕ) (c : RecvCall T W) (id : WaiterId),
    recvs[r]? = some c ∧ c.waiter = some id) →
    ∃ (r : ℕ) (c : RecvCall T W) (id : WaiterId) (waker : W), recvs[r]? = some c ∧
      c.waiter = some id ∧ w.get? id = some ⟨.notified,r⟩ ∧ waker ∈ woken ∧ Reaches waker c.lastWaker
  disconnected : ¬ alive → w.order = [] ∧ ∀ id, w.get? id = none
  /-- While the senders live, the id of a pending future leads to its own node. -/
  held : alive → ∀ (r : ℕ) c id, recvs[r]? = some c → c.waiter = some id →
    ∃ v, w.get? id = some ⟨v,r⟩
  current : ∀ id ∈ w.order, ∃ (r : ℕ) (c : RecvCall T W) (waker : W), recvs[r]? = some c ∧
    c.waiter = some id ∧ w.get? id = some ⟨.waiting waker,r⟩ ∧ Reaches waker c.lastWaker

theorem RecvOk.attended {values : List T} {alive : Prop} {w : Waiters W}
    {recvs : List (RecvCall T W)} {woken : List W} (h : RecvOk values alive w recvs woken) :
    Attended values alive w recvs woken := by
  have hnode : alive → ∀ id v f, w.get? id = some ⟨v,f⟩ → ∃ c, recvs[f]? = some c ∧
      c.waiter = some id ∧ Served woken c.lastWaker v := by
    intro ha id v f hget
    obtain ⟨c,hc,hw⟩ := Option.bind_eq_some_iff.mp ((h.roster ha).owned id _ hget)
    have hserved := (h.roster ha).fits id _ hget
    rw [Table.lookup_eq hc] at hserved
    exact ⟨c,hc,hw,hserved⟩
  have hheld : alive → ∀ (r : ℕ) c id, recvs[r]? = some c → c.waiter = some id →
      ∃ v, w.get? id = some ⟨v,r⟩ := by
    intro ha r c id hr hw
    obtain ⟨⟨v,f⟩,hget,rfl⟩ := (h.roster ha).held r id ((Table.lookup_eq hr).trans hw)
    exact ⟨v,hget⟩
  refine ⟨fun _ => h.covered,?_,?_,hheld,?_⟩
  · rintro ha hv ⟨r,c,id,hr,hw⟩
    have hsome : ∃ id f, w.get? id = some ⟨.notified,f⟩ := by
      obtain ⟨v,hget⟩ := hheld ha r c id hr hw
      cases v with
      | notified => exact ⟨id,r,hget⟩
      | waiting waker =>
        have hid : id ∈ w.order := ((h.roster ha).linked id _ hget).mpr ⟨waker,rfl⟩
        have hcov := h.covered (List.ne_nil_of_mem hid)
        exact exists_notified (Nat.lt_of_lt_of_le (List.length_pos_iff.mpr hv) hcov)
    obtain ⟨id',f,hget⟩ := hsome
    obtain ⟨c',hc',hw',waker,hmem,hreach⟩ := hnode ha id' .notified f hget
    exact ⟨f,c',id',waker,hc',hw',hget,hmem,hreach⟩
  · intro hd
    exact ⟨order_eq_nil_of_vacant (h.cleared hd),h.cleared hd⟩
  · intro id hid
    by_cases ha : alive
    · obtain ⟨waker,f,hget⟩ := (h.roster ha).linked_waiting hid
      obtain ⟨c,hc,hw,hreach⟩ := hnode ha id _ f hget
      exact ⟨f,c,waker,hc,hw,hget,hreach⟩
    · rw [order_eq_nil_of_vacant (h.cleared ha)] at hid
      cases hid

/-- Bounded and unbounded queues of both kinds, in every reachable state: nothing panics, so
no stale waiter id was followed, and no receiver sleeps on a value. -/
theorem receivers_attended (capacity : Option ℕ) :
    (∀ s, (Mpmc.machine T W capacity).Reachable s → s.panicked = none ∧
      Attended s.values (s.senders ≠ 0) s.recvWaiters s.recvs s.woken) ∧
    (∀ s, (Spmc.machine T W capacity).Reachable s → s.panicked = none ∧
      Attended s.values (s.senderAlive = true) s.recvWaiters s.recvs s.woken) := by
  refine ⟨fun s h => ?_,fun s h => ?_⟩
  · have hok := Mpmc.reachable_ok h
    exact ⟨hok.running,hok.recv.attended⟩
  · have hok := Spmc.reachable_ok h
    exact ⟨hok.running,hok.recv.attended⟩

end

def sendRun : List (Mpmc.Action ℕ ℕ) := [.recv,.advanceRecv 0 3,.advanceRecv 0 3,.trySend 5]

theorem receivers_attended_sendRun :
    ∃ s, (Mpmc.machine ℕ ℕ none).exec (Mpmc.unbounded ℕ ℕ) sendRun = some s ∧ s.values = [5] ∧
      ∃ (r : ℕ) (c : RecvCall ℕ ℕ) (id : WaiterId) (waker : ℕ), s.recvs[r]? = some c ∧
        c.waiter = some id ∧ s.recvWaiters.get? id = some ⟨.notified,r⟩ ∧ waker ∈ s.woken ∧
        Reaches waker c.lastWaker := by
  refine ⟨_,rfl,rfl,?_⟩
  have hreach : (Mpmc.machine ℕ ℕ none).Reachable _ :=
    ⟨Mpmc.unbounded ℕ ℕ,sendRun,rfl,fun _ _ => trivial,rfl⟩
  exact ((receivers_attended none).1 _ hreach).2.notified (by decide) (by decide) ⟨0,_,0,rfl,rfl⟩

end Asyncband
