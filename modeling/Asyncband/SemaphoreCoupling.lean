import Asyncband.SemaphoreEffect

/-! The fast path of the semaphore is safe.
The count leaves zero only under the queue lock with an empty queue, so whoever sees
or takes available permits without the lock overtakes nobody. -/
namespace Asyncband
namespace Semaphore

variable {W : Type}

section Coupling

variable [Wake W] {s s' : State W} {c : ℕ} {spurious : Bool} {n available : ℕ}

theorem raise_order_nil (hI : Inv s) (h : advance s c spurious = some s')
    (hlt : s.available < s'.available) : s.waiters.order = [] := by
  cases hc : s.calls[c]? with
  | none => simp [advance,hc] at h
  | some call =>
    obtain ⟨call',heffect,-⟩ := advance_effect hI hc h
    cases heffect with
    | put hpos => exact hI.coupled hpos
    | surplus _ ho => exact ho
    | _ => dsimp only at hlt; omega

/-- How a call came to own permits: from the count, or from a node served before. -/
theorem acquired_cases (hI : Inv s) {call : Call W} (hc : s.calls[c]? = some call)
    (h : advance s c spurious = some s') (hdone : s'.calls[c]? = some (.finished .acquired)) :
    (∃ n, call.intent = .tryAcquire n ∧ n ≤ s.available) ∨
    (∃ f a, call.intent = .poll f ∧ s.acquires[f]? = some a ∧ a.requestedPermits ≤ s.available) ∨
    ∃ f w, call = .started (.poll f w) := by
  obtain ⟨call',heffect,-⟩ := advance_effect hI hc h
  rw [heffect.calls_eq,Table.getElem?_set_self' hc] at hdone
  have hquiet (hq : call'.quiet = true) : call' ≠ .finished .acquired := by
    intro heq
    simp [heq,Call.quiet] at hq
  cases heffect with
  | tryAcquire hn hintent => exact Or.inl ⟨_,hintent,hn⟩
  | acquire hn hf _ _ _ hintent => exact Or.inr (Or.inl ⟨_,_,hintent,hf,hn⟩)
  | claim _ _ _ _ _ _ _ _ hpoll => exact Or.inr (Or.inr ⟨_,_,hpoll⟩)
  | idle _ _ _ hq => exact absurd (Option.some.inj hdone) (hquiet hq)
  | surplus _ _ _ _ _ hcalm | distribute _ _ _ _ _ hcalm | cancel _ _ _ _ _ _ _ _ _ _ _ _ hcalm =>
    exact absurd (Option.some.inj hdone) (hquiet (Call.calm_spec hcalm).2.2.2)
  | _ => simp at hdone

theorem tryAcquire_order_nil (hI : Inv s) (hc : s.calls[c]? = some (.tryAcquire n available))
    (h : advance s c spurious = some s') (hdone : s'.calls[c]? = some (.finished .acquired))
    (hpos : 0 < n) : s.waiters.order = [] := by
  rcases acquired_cases hI hc h hdone with ⟨m,hm,hle⟩ | ⟨f,a,hf,-⟩ | ⟨f,w,hf⟩
  · cases hm
    exact hI.coupled (by omega)
  · cases hf
  · cases hf

/-- The first poll of a positive number of permits completes only when nobody waits. -/
theorem acquire_order_nil (hI : Inv s) {requested : ℕ} {fw : ℕ × W} {lock : Bool}
    (hc : s.calls[c]? = some (.acquiredOrEnqueue requested available (some fw) lock))
    (h : advance s c spurious = some s') (hdone : s'.calls[c]? = some (.finished .acquired))
    (hpos : 0 < requested) : s.waiters.order = [] := by
  rcases acquired_cases hI hc h hdone with ⟨m,hm,-⟩ | ⟨f,a,hf,ha,hle⟩ | ⟨f,w,hf⟩
  · cases hm
  · obtain ⟨g,w⟩ := fw
    cases hf
    obtain ⟨b,hb,-,-,hreq⟩ := (hI.calls c _ hc).2 _ w rfl
    rw [ha] at hb
    cases hb
    exact hI.coupled (by omega)
  · cases hf

theorem drained_order_nil (hI : Inv s) {upTo : ℕ}
    (hc : s.calls[c]? = some (.drainPermits upTo available)) (h : advance s c spurious = some s')
    (hdone : s'.calls[c]? = some (.finished (.drained n))) (hpos : 0 < n) : s.waiters.order = [] := by
  simp only [advance,hc] at h
  split at h
  · rename_i heq
    cases h
    have hset := Table.getElem?_set_self' hc (.finished (.drained (min upTo available)))
    have hn : min upTo available = n := by
      have heq := hset.symm.trans hdone
      simpa using heq
    exact hI.coupled (by omega)
  · cases h
    have hset := Table.getElem?_set_self' hc (.drainPermits upTo s.available)
    have heq := hset.symm.trans hdone
    simp at heq

/-- The unchecked `fetch_add` is performed on a count of zero and does not wrap. -/
theorem surplusAdd_exact (hI : Inv s) {remaining : ℕ} {batch : List W}
    (hc : s.calls[c]? = some (.surplusAdd remaining batch)) (h : advance s c spurious = some s') :
    s.available = 0 ∧ s'.available = remaining := by
  obtain ⟨hr,-,-,hzero⟩ := hI.calls c _ hc
  simp only [advance,hc,Option.some.injEq] at h
  subst h
  refine ⟨hzero,?_⟩
  simp only [hzero,Nat.zero_add]
  simp only [usizeMax] at hr
  omega

end Coupling

/-- Permits are added to the count, taken from it or acquired without queueing only when
nobody is linked, and the unchecked addition cannot overflow. -/
structure FastPath (s : State W) (c : ℕ) (s' : State W) : Prop where
  moves : s'.available ≠ s.available → s.waiters.order = []
  tries : ∀ n available, s.calls[c]? = some (.tryAcquire n available) →
    s'.calls[c]? = some (.finished .acquired) → 0 < n → s.waiters.order = []
  drains : ∀ upTo available n, s.calls[c]? = some (.drainPermits upTo available) →
    s'.calls[c]? = some (.finished (.drained n)) → 0 < n → s.waiters.order = []
  acquires : ∀ requested available fw lock,
    s.calls[c]? = some (.acquiredOrEnqueue requested available (some fw) lock) →
    s'.calls[c]? = some (.finished .acquired) → 0 < requested → s.waiters.order = []
  adds : ∀ remaining batch, s.calls[c]? = some (.surplusAdd remaining batch) →
    s.available = 0 ∧ s'.available = remaining

/-- A non-zero count means an empty queue, linked nodes need permits, and a future whose
need is zero owns a detached node. -/
structure Coupled [Wake W] (s : State W) : Prop where
  empty : s.available ≠ 0 → s.waiters.order = []
  linked : ∀ id ∈ s.waiters.order, ∃ node, s.waiters.get? id = some node ∧ 0 < node.neededPermits
  detached : ∀ (f : ℕ) a id, s.acquires[f]? = some a → a.phase = .queued id →
    ∃ node, s.waiters.get? id = some node ∧ (node.neededPermits = 0 → id ∉ s.waiters.order)
  steps : ∀ c spurious s', advance s c spurious = some s' → FastPath s c s'

/-- The fast path is safe in every reachable state. -/
theorem fast_path_coupling [Wake W] {s : State W} (h : (machine W).Reachable s) : Coupled s := by
  have hI := reachable_inv h
  refine ⟨hI.coupled,?_,?_,?_⟩
  · intro id hid
    obtain ⟨node,hn⟩ := WaitList.get?_of_mem_order hid
    exact ⟨node,hn,hI.queue.linked_need hn hid⟩
  · intro f a id hf hp
    obtain ⟨node,hn,-⟩ := hI.queue.owned f a id hf hp
    refine ⟨node,hn,fun hzero hid => ?_⟩
    have hpos := hI.queue.linked_need hn hid
    omega
  · intro c spurious s' hs
    refine ⟨?_,?_,?_,?_,fun remaining batch hc => surplusAdd_exact hI hc hs⟩
    · intro hne
      rcases Nat.lt_or_gt_of_ne hne with hlt | hlt
      · exact hI.coupled (by omega)
      · exact raise_order_nil hI hs hlt
    · intro n available hc hdone hpos
      exact tryAcquire_order_nil hI hc hs hdone hpos
    · intro upTo available n hc hdone hpos
      exact drained_order_nil hI hc hs hdone hpos
    · intro requested available fw lock hc hdone hpos
      exact acquire_order_nil hI hc hs hdone hpos

/-- A waiter is linked, two releases have loaded the count and one of them is about
to add its surplus. -/
def couplingRun : List (Action ℕ) :=
  [.acquire 2,.call (.poll 0 7),.advance 0 false,.advance 0 false,.advance 0 false,
    .call (.release 3),.advance 1 false,.call (.release 1),.advance 2 false,
    .advance 1 false,.advance 1 false]

theorem fast_path_coupling_couplingRun :
    ∃ s, (machine ℕ).exec (new ℕ 1) couplingRun = some s ∧
      s.calls[1]? = some (.surplusAdd 2 [7]) ∧ s.available = 0 ∧ s.waiters.order = [] ∧
      (advance s 1 false).map State.available = some 2 := by
  refine ⟨_,rfl,rfl,?_,by decide,by decide⟩
  have hreach : (machine ℕ).Reachable
      (((machine ℕ).exec (new ℕ 1) couplingRun).getD (new ℕ 1)) :=
    ⟨_,couplingRun,⟨1,by decide,rfl⟩,fun _ _ => trivial,rfl⟩
  exact (((fast_path_coupling hreach).steps 1 false _ rfl).adds 2 [7] rfl).1

end Semaphore
end Asyncband
