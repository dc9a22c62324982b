import Asyncband.SemaphoreGuard
import Asyncband.SemaphoreOrder

/-! Semaphore facts for users that need one permit each.
A poll stays a poll until it ends, a future that is queued has entered the queue, and the
permit goes to the future that entered first. A call that gives the only permit of a semaphore
back has a few steps ahead and no loop among them. -/
namespace Asyncband

namespace Semaphore

variable {W : Type} [Wake W] {s s' : State W} {c : ℕ} {call call' : Call W} {f : ℕ}

theorem Call.inFlight_of_poll {W : Type} {call : Call W} (h : call.intent = .poll f) :
    call.inFlight = 0 := by
  cases call with
  | started op =>
    cases op with
    | poll g waker => rfl
    | _ => cases h
  | acquiredOrEnqueue requested available owner lock => rfl
  | _ => cases h

/-- Future `f` asks for one permit and has not got it, and `call` is the call that borrows it. -/
def Waits {W : Type} (s : State W) (f : ℕ) (call : Option ℕ) : Prop :=
  ∃ a, s.acquires[f]? = some a ∧ a.requestedPermits = 1 ∧ a.busy = call ∧ a.phase ≠ .ready ∧
    a.phase ≠ .dropped

namespace Waits

section

variable {W : Type} {s s' : State W} {f : ℕ} {call : Option ℕ}

theorem requested (h : Waits s f call) : s.requested f = some 1 := by
  obtain ⟨a,ha,hone,-⟩ := h
  exact Option.map_eq_some_iff.mpr ⟨a,ha,hone⟩

theorem congr (h : Waits s f call) (hsame : s'.acquires[f]? = s.acquires[f]?) : Waits s' f call := by
  obtain ⟨a,ha,hrest⟩ := h
  exact ⟨a,hsame.trans ha,hrest⟩

theorem startable_drop (h : Waits s f none) : startable s (.drop f) = true := by
  obtain ⟨a,ha,-,hbusy,-,hdropped⟩ := h
  simp [startable,ha,hbusy,hdropped]

theorem startable_poll (h : Waits s f none) (waker : W) : startable s (.poll f waker) = true := by
  obtain ⟨a,ha,-,hbusy,hready,hdropped⟩ := h
  simp [startable,ha,hbusy,hready,hdropped]

/-- The future is enqueued or looked at again, and the borrow ends. -/
theorem back (h : Waits s f call) (hacquires : ∀ a, s.acquires[f]? = some a → ∃ id lastWaker,
      s'.acquires[f]? = some {a with phase := .queued id,busy := none,lastWaker := lastWaker}) :
    Waits s' f none := by
  obtain ⟨a,ha,hone,-⟩ := h
  obtain ⟨id,lastWaker,ha'⟩ := hacquires a ha
  exact ⟨_,ha',hone,rfl,nofun,nofun⟩

end

theorem created (h : next s (.acquire 1) = some s') : Waits s' s.acquires.length none := by
  simp only [next] at h
  obtain ⟨-,⟨⟩⟩ := Option.ite_none_right_eq_some.mp h
  refine ⟨_,List.getElem?_concat_length,rfl,rfl,?_,?_⟩ <;> simp

theorem polled (h : Waits s f none) {waker : W} (hn : next s (.call (.poll f waker)) = some s') :
    Waits s' f (some s.calls.length) := by
  obtain ⟨a,ha,hone,-,hready,hdropped⟩ := h
  simp only [next] at hn
  obtain ⟨-,⟨⟩⟩ := Option.ite_none_right_eq_some.mp hn
  refine ⟨{a with busy := some s.calls.length},?_,hone,rfl,hready,hdropped⟩
  simp [borrow,ha]

end Waits

theorem create_kept {n : ℕ} (h : next s (.acquire n) = some s') (hf : f < s.acquires.length) :
    s'.acquires[f]? = s.acquires[f]? := by
  simp only [next] at h
  obtain ⟨-,⟨⟩⟩ := Option.ite_none_right_eq_some.mp h
  exact List.getElem?_append_left hf

theorem create_length {n : ℕ} (h : next s (.acquire n) = some s') :
    s'.acquires.length = s.acquires.length+1 := by
  simp only [next] at h
  obtain ⟨-,⟨⟩⟩ := Option.ite_none_right_eq_some.mp h
  exact List.length_append

theorem make_kept {op : Op W} (h : next s (.call op) = some s') (hpoll : ∀ waker, op ≠ .poll f waker)
    (hdrop : op ≠ .drop f) : s'.acquires[f]? = s.acquires[f]? := by
  simp only [next] at h
  obtain ⟨-,⟨⟩⟩ := Option.ite_none_right_eq_some.mp h
  cases op with
  | poll g waker =>
    have hg : g ≠ f := fun hg => hpoll waker (hg ▸ rfl)
    exact List.getElem?_modify_ne _ _ hg
  | drop g =>
    have hg : g ≠ f := fun hg => hdrop (hg ▸ rfl)
    exact List.getElem?_modify_ne _ _ hg
  | _ => rfl

theorem make_length {op : Op W} (h : next s (.call op) = some s') :
    s'.acquires.length = s.acquires.length := by
  simp only [next] at h
  obtain ⟨-,⟨⟩⟩ := Option.ite_none_right_eq_some.mp h
  cases op with
  | poll g waker => exact List.length_modify ..
  | drop g => exact List.length_modify ..
  | _ => rfl

theorem Effect.acquires_length (h : Effect s c call call' s') :
    s'.acquires.length = s.acquires.length := by
  rcases h.acquires with heq | ⟨g,a,a',-,heq,-⟩
  · rw [heq]
  · rw [heq,List.length_set]

/-- A step changes no future but the one that its call borrows. -/
theorem Effect.kept (h : Effect s c call call' s') {a : Acquire W} (hf : s.acquires[f]? = some a)
    (hbusy : a.busy ≠ some c) : s'.acquires[f]? = some a := by
  have hset {g : ℕ} {b b' : Acquire W} (hg : s.acquires[g]? = some b) (hb : b.busy = some c) :
      (s.acquires.set g b')[f]? = some a := by
    rw [List.getElem?_set_ne]
    · exact hf
    · rintro rfl
      cases hf.symm.trans hg
      exact hbusy hb
  cases h with
  | dropIdle hg hb | acquire _ hg hb | enqueue _ hg hb | cancel _ hg hb
  | refresh _ hg hb | claim _ hg hb => exact hset hg hb
  | _ => exact hf

/-- How a poll stands behind one of its steps: it goes on, or it has ended with the permit or
with the future back in the queue. -/
def Polled {W : Type} (s : State W) (f : ℕ) (s' : State W) (call : Call W) : Prop :=
  call.intent = .poll f ∧ s'.acquires = s.acquires ∨ call = .finished .acquired ∨
    call = .finished .pending ∧ Waits s' f none ∨ ∃ message r, call = .panicked message r

theorem pollQueued_polled {a : Acquire W} {id : WaiterId} (hc : s.calls[c]? = some call)
    (hw : Waits s f (some c)) (hf : s.acquires[f]? = some a) (hphase : a.phase = .queued id) (waker : W) :
    ∃ call', (pollQueued s c f a id waker).calls[c]? = some call' ∧
      Polled s f (pollQueued s c f a id waker) call' := by
  have hself (call' : Call W) := Table.getElem?_set_self' hc call'
  unfold pollQueued
  split
  · exact ⟨_,hself _,Or.inr (Or.inr (Or.inr ⟨_,_,rfl⟩))⟩
  · split
    · split
      · exact ⟨_,hself _,Or.inr (Or.inr (Or.inr ⟨_,_,rfl⟩))⟩
      · refine ⟨_,hself _,Or.inr (Or.inr (Or.inl ⟨rfl,hw.back fun b hb => ?_⟩))⟩
        cases hf.symm.trans hb
        refine ⟨id,some waker,?_⟩
        rw [← hphase]
        exact Table.getElem?_set_self' hf _
    · split
      · exact ⟨_,hself _,Or.inr (Or.inr (Or.inr ⟨_,_,rfl⟩))⟩
      · exact ⟨_,hself _,Or.inr (Or.inl rfl)⟩

theorem advance_poll {spurious : Bool} (hc : s.calls[c]? = some call) (hintent : call.intent = .poll f)
    (hw : Waits s f (some c)) (h : advance s c spurious = some s') :
    ∃ call', s'.calls[c]? = some call' ∧ Polled s f s' call' := by
  have hself (call' : Call W) := Table.getElem?_set_self' hc call'
  cases call with
  | started op =>
    cases op with
    | poll g waker =>
      obtain rfl : g = f := by simpa [Call.intent,Op.intent] using hintent
      simp only [advance,hc,begin] at h
      split at h
      · cases h
      · next a ha =>
        split at h
        · next id hphase =>
          obtain ⟨-,⟨⟩⟩ := Option.ite_none_left_eq_some.mp h
          exact pollQueued_polled hc hw ha hphase waker
        · cases h
          exact ⟨_,hself _,Or.inl ⟨rfl,rfl⟩⟩
    | _ => cases hintent
  | acquiredOrEnqueue requested available owner lock =>
    cases owner with
    | none => cases hintent
    | some owner =>
      obtain ⟨g,waker⟩ := owner
      obtain rfl : g = f := by simpa [Call.intent] using hintent
      simp only [advance,hc] at h
      split at h
      · obtain ⟨-,⟨⟩⟩ := Option.ite_none_left_eq_some.mp h
        exact ⟨_,hself _,Or.inl ⟨hintent,rfl⟩⟩
      · split at h
        · cases h
          exact ⟨_,hself _,Or.inl ⟨hintent,rfl⟩⟩
        · split at h
          · cases h
            exact ⟨_,hself _,Or.inr (Or.inl rfl)⟩
          · cases h
            refine ⟨_,hself _,Or.inr (Or.inr (Or.inl ⟨rfl,hw.back fun a ha => ?_⟩))⟩
            exact ⟨_,some waker,by simp [takeAndEnqueue,State.finish,State.setCall,ha]; rfl⟩
  | _ => cases hintent

/-- The poll of a future that is assigned all it asks for takes it with its next step. -/
theorem advance_claims {spurious : Bool} {a : Acquire W} (hI : Inv s) (hc : s.calls[c]? = some call)
    (hintent : call.intent = .poll f) (hf : s.acquires[f]? = some a) (hpos : 0 < a.requestedPermits)
    (hall : a.assigned s.waiters = a.requestedPermits) (h : advance s c spurious = some s') :
    s'.calls[c]? = some (.finished .acquired) := by
  obtain ⟨id,hphase⟩ : ∃ id, a.phase = .queued id := by
    cases hphase : a.phase with
    | queued id => exact ⟨id,rfl⟩
    | _ =>
      simp only [Acquire.assigned,hphase] at hall
      omega
  have hok := hI.calls c call hc
  cases call with
  | started op =>
    cases op with
    | poll g waker =>
      obtain rfl : g = f := by simpa [Call.intent,Op.intent] using hintent
      simp only [advance,hc,begin,hf,hphase] at h
      obtain ⟨-,⟨⟩⟩ := Option.ite_none_left_eq_some.mp h
      obtain ⟨node,hnode,-⟩ := hI.queue.owned g a id hf hphase
      have hle := hI.queue.needed_le hf hphase hnode
      simp only [Acquire.assigned,hphase,hnode,Option.elim_some] at hall
      have hneed : ¬0 < node.neededPermits := by omega
      obtain ⟨waiters,hremoved,-⟩ := WaitList.removeUnlinkedWaiter_spec hnode fun hl =>
        hneed (hI.queue.linked_need hnode hl)
      simp only [pollQueued,hnode,hneed,if_false,hremoved]
      exact Table.getElem?_set_self' hc _
    | _ => cases hintent
  | acquiredOrEnqueue requested available owner lock =>
    cases owner with
    | none => cases hintent
    | some owner =>
      obtain ⟨g,waker⟩ := owner
      obtain rfl : g = f := by simpa [Call.intent] using hintent
      obtain ⟨b,hb,-,hunpolled,-⟩ := hok.2 g waker rfl
      cases hf.symm.trans hb
      cases hphase.symm.trans hunpolled
  | _ => cases hintent

theorem Effect.enlisted (h : Effect s c call call' s')
    (hs : ∀ f, Queued s f → f ∈ s.enqueued) : ∀ f, Queued s' f → f ∈ s'.enqueued := by
  have hset {f g : ℕ} {a a' : Acquire W} (hf : s.acquires[f]? = some a)
      (hphase : ∀ id, a'.phase = .queued id → a.phase = .queued id)
      (hg : ∃ b id, (s.acquires.set f a')[g]? = some b ∧ b.phase = .queued id) : g ∈ s.enqueued := by
    obtain ⟨b,id,hb,hid⟩ := hg
    rcases Table.getElem?_set_cases hb with ⟨rfl,rfl⟩ | ⟨-,hb⟩
    · exact hs g ⟨a,id,hf,hphase id hid⟩
    · exact hs g ⟨b,id,hb,hid⟩
  intro g hg
  cases h with
  | dropIdle hf _ hphase =>
    refine hset hf (fun id hid => ?_) hg
    rcases hphase with ⟨-,rfl⟩ | ⟨-,rfl⟩ <;> cases hid
  | acquire _ hf | cancel _ hf | claim _ hf => exact hset hf (fun id hid => by cases hid) hg
  | refresh _ hf =>
    refine hset hf ?_ hg
    exact fun id hid => hid
  | enqueue _ hf =>
    obtain ⟨b,id,hb,hid⟩ := hg
    rcases Table.getElem?_set_cases hb with ⟨rfl,rfl⟩ | ⟨-,hb⟩
    · exact List.mem_append_right _ (List.mem_singleton_self _)
    · exact List.mem_append_left _ (hs g ⟨b,id,hb,hid⟩)
  | _ => exact hs g hg

theorem next_enlisted {a : Action W} (hI : Inv s) (hs : ∀ f, Queued s f → f ∈ s.enqueued)
    (h : next s a = some s') : ∀ f, Queued s' f → f ∈ s'.enqueued := by
  cases a with
  | acquire n =>
    obtain ⟨-,-,-,hqueued⟩ := create_later h
    simp only [next] at h
    split at h
    · cases h
      exact fun f hf => hs f (hqueued f hf)
    · cases h
  | call op =>
    obtain ⟨-,-,hqueued⟩ := make_later h
    simp only [next] at h
    split at h
    · cases h
      have hsame : (borrow s s.calls.length op).enqueued = s.enqueued := by cases op <;> rfl
      intro f hf
      show f ∈ (borrow s s.calls.length op).enqueued
      rw [hsame]
      exact hs f (hqueued f hf)
    · cases h
  | advance c spurious =>
    cases hc : s.calls[c]? with
    | none => simp [next,advance,hc] at h
    | some call =>
      obtain ⟨call',heffect,-⟩ := advance_effect hI hc h
      exact heffect.enlisted hs

/-- A future that is assigned all it asks for entered the queue before every future that is
not. -/
theorem Order.served_first (hO : Order s) (hI : Inv s) (hs : ∀ f, Queued s f → f ∈ s.enqueued) {g : ℕ}
    {a b : Acquire W} (hf : s.acquires[f]? = some a) (hg : s.acquires[g]? = some b)
    (ha : 0 < a.requestedPermits ∧ a.assigned s.waiters = a.requestedPermits)
    (hb : Queued s g ∧ b.assigned s.waiters < b.requestedPermits) : List.Sublist [f,g] s.enqueued := by
  obtain ⟨id,hid⟩ : ∃ id, a.phase = .queued id := by
    cases hphase : a.phase with
    | queued id => exact ⟨id,rfl⟩
    | _ =>
      simp only [Acquire.assigned,hphase] at ha
      omega
  obtain ⟨⟨b',id',hb',hid'⟩,hmiss⟩ := hb
  cases hg.symm.trans hb'
  obtain ⟨node,hnode,hown⟩ := hI.queue.owned f a id hf hid
  obtain ⟨node',hnode',hown'⟩ := hI.queue.owned g b id' hg hid'
  simp only [Acquire.assigned,hid,hnode,Option.elim_some] at ha
  simp only [Acquire.assigned,hid',hnode',Option.elim_some] at hmiss
  have hserved : f ∈ (s.granted.map Prod.fst).filter (live s.acquires) := by
    have hlive : f ∈ s.enqueued.filter (live s.acquires) :=
      List.mem_filter.mpr ⟨hs f ⟨a,id,hf,hid⟩,by simp [live_of_phase hf,hid]⟩
    rw [hO.fifo.order] at hlive
    refine (List.mem_append.mp hlive).resolve_right fun hwaits => ?_
    obtain ⟨k,hk,hkf⟩ := List.mem_filterMap.mp hwaits
    obtain ⟨node₁,hnode₁,hown₁⟩ := Option.bind_eq_some_iff.mp hkf
    obtain ⟨a₁,ha₁,hphase₁,-⟩ := hI.queue.owner_phase hnode₁ hown₁
    cases hf.symm.trans ha₁
    cases hid.symm.trans hphase₁
    cases hnode.symm.trans hnode₁
    have hpos := hI.queue.linked_need hnode hk
    omega
  have hwaits : g ∈ owners s.waiters := by
    refine List.mem_filterMap.mpr ⟨id',?_,by rw [hnode']; exact hown'⟩
    by_contra hdetached
    have hzero := hI.queue.detached_need hnode' hdetached
    omega
  have hsub : List.Sublist [f,g] (s.enqueued.filter (live s.acquires)) := by
    rw [hO.fifo.order]
    exact (List.singleton_sublist.mpr hserved).append (List.singleton_sublist.mpr hwaits)
  exact hsub.trans List.filter_sublist

/-- Where a call is that began with `op` and gives the only permit of a semaphore back. -/
inductive Returning {W : Type} (op : Op W) : Call W → Prop
  | start : Returning op (.started op)
  | lock : Returning op (.releaseLock 1)
  | load : Returning op (.surplusLoad 1 [])
  | add : Returning op (.surplusAdd 1 [])
  | wake {batch : List W} (h : batch.length ≤ 1) : Returning op (.wakeAll batch 0)

/-- The steps that such a call still has ahead. -/
def Call.ahead {W : Type} : Call W → ℕ
  | .started _ => 5
  | .releaseLock _ => 4
  | .surplusLoad _ _ => 3
  | .surplusAdd _ _ => 2
  | .wakeAll batch _ => batch.length+1
  | _ => 0

theorem Returning.intent {W : Type} {op : Op W} {call : Call W} (h : Returning op call)
    (hop : op.intent = .other) : call.intent = .other := by
  cases h with
  | start => exact hop
  | _ => rfl

theorem Returning.running {W : Type} {op : Op W} {call : Call W} (h : Returning op call) :
    call.ended = false := by
  cases h <;> rfl

/-- One permit meets no full batch: it goes to the first in the queue or is a surplus. -/
theorem distribute_one {acquires : List (Acquire W)} (hq : QueueOk s.waiters acquires) (op : Op W) :
    ∃ call', (distribute s c 1).calls = s.calls.set c call' ∧ Returning op call' ∧ call'.ahead ≤ 3 := by
  obtain ⟨d,call',lock',hrounds,hcall,heq⟩ := distribute_cases s c 1
  have hle : d.batch.length+d.remaining ≤ 0+1 := Assign.batch_le hrounds hq
  refine ⟨call',by rw [heq],?_⟩
  rcases hcall with ⟨rfl,hexit⟩ | ⟨rfl,-,hpos,-⟩
  · have hzero : d.remaining = 0 := by
      rcases hexit with hzero | hfull
      · exact hzero
      · rw [WakerBatch.stackSize] at hfull
        omega
    rw [hzero]
    refine ⟨.wake (by omega),?_⟩
    show d.batch.length+1 ≤ 3
    omega
  · have hone : d.remaining = 1 := by omega
    have hnil : d.batch = [] := List.eq_nil_of_length_eq_zero (by omega)
    rw [hone,hnil]
    exact ⟨.load,Nat.le_refl 3⟩

theorem dropQueued_one (hI : Inv s) {a : Acquire W} {id : WaiterId} (hf : s.acquires[f]? = some a)
    (hphase : a.phase = .queued id) (hone : a.requestedPermits = 1) (op : Op W) :
    ∃ call', (dropQueued s c f a id).calls = s.calls.set c call' ∧
      (call' = .finished .returned ∨ Returning op call' ∧ call'.ahead ≤ 3) := by
  obtain ⟨node,waiters,-,horder,hget,hdrop⟩ := dropQueued_eq (c := c) hI hf hphase
  have hqueue : QueueOk waiters (s.acquires.set f {a with phase := .dropped,busy := none}) :=
    hI.queue.removeOwned hf hphase nofun hget fun id' hid => by rw [horder,List.mem_erase_of_ne hid]
  rw [hdrop]
  split
  · next hpos =>
    obtain ⟨call',hcalls,hreturning⟩ := distribute_one (c := c) (s := {s with
      waiters := waiters
      acquires := s.acquires.set f {a with phase := .dropped,busy := none}}) hqueue op
    rw [show a.requestedPermits-node.neededPermits = 1 by omega]
    exact ⟨call',hcalls,Or.inr hreturning⟩
  · exact ⟨_,rfl,Or.inl rfl⟩

/-- Every step of a call that gives the only permit back brings it nearer to its end. -/
theorem Returning.advance {op : Op W} {spurious : Bool} (h : Returning op call) (hL : Lease 1 s)
    (hop : op = .release 1 ∨ ∃ f, op = .drop f ∧ s.requested f = some 1)
    (hc : s.calls[c]? = some call) (hn : Semaphore.advance s c spurious = some s') :
    ∃ call', s'.calls[c]? = some call' ∧
      (call' = .finished .returned ∨ Returning op call' ∧ call'.ahead < call.ahead) := by
  have hself (call' : Call W) := Table.getElem?_set_self' hc call'
  -- the permit is in the call, so that nothing is available
  have hnone (hflight : 0 < call.inFlight) : s.available = 0 := by
    have htotal := hL.total
    have hle := Table.le_total Call.inFlight hc
    have hsum := s.inFlight_eq
    rw [State.inFlight] at hsum
    omega
  have hgiven (ledger : Ledger) : ∃ call', (distribute {s with ledger := ledger} c 1).calls[c]? = some call' ∧
      Returning op call' ∧ call'.ahead ≤ 3 := by
    obtain ⟨call',hcalls,hreturning⟩ := distribute_one (c := c) (s := {s with ledger := ledger}) hL.inv.queue op
    exact ⟨call',by rw [hcalls]; exact hself call',hreturning⟩
  cases h with
  | start =>
    rcases hop with rfl | ⟨f,rfl,hrequested⟩
    · simp only [Semaphore.advance,hc,begin,hnone Nat.zero_lt_one] at hn
      cases hn
      exact ⟨_,hself _,Or.inr ⟨.lock,Nat.lt_succ_self 4⟩⟩
    · obtain ⟨a,ha,hone⟩ := Option.map_eq_some_iff.mp hrequested
      simp only [Semaphore.advance,hc,begin,ha] at hn
      split at hn
      · next id hphase =>
        obtain ⟨-,⟨⟩⟩ := Option.ite_none_left_eq_some.mp hn
        obtain ⟨call',hcalls,hcall⟩ := dropQueued_one (c := c) hL.inv ha hphase hone (.drop f)
        refine ⟨call',by rw [hcalls]; exact hself call',hcall.imp_right fun hr => ⟨hr.1,?_⟩⟩
        exact Nat.lt_of_le_of_lt hr.2 (show 3 < 5 by decide)
      · cases hn
        exact ⟨_,hself _,Or.inl rfl⟩
      · cases hn
        exact ⟨_,hself _,Or.inl rfl⟩
  | lock =>
    simp only [Semaphore.advance,hc] at hn
    obtain ⟨-,⟨⟩⟩ := Option.ite_none_left_eq_some.mp hn
    obtain ⟨call',hcall,hreturning,hahead⟩ := hgiven _
    exact ⟨call',hcall,Or.inr ⟨hreturning,Nat.lt_succ_of_le hahead⟩⟩
  | load =>
    simp only [Semaphore.advance,hc,hnone Nat.zero_lt_one] at hn
    cases hn
    exact ⟨_,hself _,Or.inr ⟨.add,Nat.lt_succ_self 2⟩⟩
  | add =>
    simp only [Semaphore.advance,hc] at hn
    cases hn
    exact ⟨_,hself _,Or.inr ⟨.wake (Nat.zero_le 1),Nat.lt_succ_self 1⟩⟩
  | @wake batch hbatch =>
    cases batch with
    | nil =>
      simp only [Semaphore.advance,hc,if_true] at hn
      cases hn
      exact ⟨_,hself _,Or.inl rfl⟩
    | cons waker batch =>
      simp only [Semaphore.advance,hc] at hn
      cases hn
      exact ⟨_,hself _,Or.inr ⟨.wake (Nat.le_of_succ_le hbatch),Nat.lt_succ_self _⟩⟩

end Semaphore

end Asyncband
