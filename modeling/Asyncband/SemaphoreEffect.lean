import Asyncband.SemaphoreInvariant

/-! Everything that one step of a semaphore call can do.
`advance_effect` reads the list `Effect` off the code once. The coupling invariant
is preserved by every effect, so it holds in every reachable state, and the other
invariants of whole runs are proved from the same list. -/
namespace Asyncband
namespace Semaphore

open Relation

variable {W : Type} {d d' : Distribution W} {s : State W} {f : ℕ}

/-- A call takes a free lock, frees its own, or leaves the lock alone. -/
def LockMove (lock : Option ℕ) (c : ℕ) (lock' : Option ℕ) : Prop :=
  lock' = lock ∨ lock = none ∨ lock = some c

/-- Everything one step of call `c` can do, from `call` to `call'`. -/
inductive Effect [Wake W] (s : State W) (c : ℕ) (call : Call W) : Call W → State W → Prop
  | idle {call' : Call W} {lock' : Option ℕ} {b : Bool} (hlock : LockMove s.lock c lock')
      (hremaining : call'.remaining = call.remaining) (hargument : call'.argument = call.argument)
      (hquiet : call'.quiet = true)
      (hintent : call'.intent = call.intent ∨ call'.intent = .other ∧ call.intent.reduction = 0)
      (hloaded : ∀ a, call'.loaded = some a → call.loaded = some a ∨ a = s.available) :
      Effect s c call call' {s with
        contentionDetected := b,lock := lock',calls := s.calls.set c call'}
  | dropIdle {f : ℕ} {a : Acquire W} {phase : Phase} (hf : s.acquires[f]? = some a)
      (hbusy : a.busy = some c)
      (hphase : a.phase = .unpolled ∧ phase = .dropped ∨ a.phase = .ready ∧ phase = .ready)
      (hremaining : call.remaining = 0) (hargument : call.argument = 0)
      (hother : call.intent.reduction = 0) :
      Effect s c call (.finished .returned) {s with
        acquires := s.acquires.set f {a with phase := phase,busy := none}
        calls := s.calls.set c (.finished .returned)}
  | overflow {n available : ℕ} {lock' : Option ℕ} (hlock : LockMove s.lock c lock')
      (hloaded : call.loaded = some available) (hover : usizeMax < available+n)
      (hremaining : call.remaining = 0) (hargument : call.argument = n) :
      Effect s c call (.panicked (overflowMessage n available) n) {s with
        lock := lock'
        ledger := {s.ledger with released := s.ledger.released+n}
        calls := s.calls.set c (.panicked (overflowMessage n available) n)}
  | surplusOverflow {available : ℕ} {lock' : Option ℕ} (hlock : LockMove s.lock c lock')
      (hloaded : call.loaded = some available) (hover : usizeMax < available+call.remaining)
      (hargument : call.argument = 0) :
      Effect s c call (.panicked (overflowMessage call.remaining available) call.remaining) {s with
        lock := lock'
        calls := s.calls.set c
          (.panicked (overflowMessage call.remaining available) call.remaining)}
  | tryAcquire {n : ℕ} (hn : n ≤ s.available) (hintent : call.intent = .tryAcquire n)
      (hremaining : call.remaining = 0) (hargument : call.argument = 0) :
      Effect s c call (.finished .acquired) {s with
        available := s.available-n
        ledger := {s.ledger with acquired := s.ledger.acquired+n}
        calls := s.calls.set c (.finished .acquired)}
  | drain {n : ℕ} (hn : n ≤ s.available) (hintent : call.intent = .drain)
      (hremaining : call.remaining = 0) (hargument : call.argument = 0) :
      Effect s c call (.finished (.drained n)) {s with
        available := s.available-n
        ledger := {s.ledger with drained := s.ledger.drained+n}
        calls := s.calls.set c (.finished (.drained n))}
  | reduce {n : ℕ} {lock' : Option ℕ} (hn : n ≤ s.available) (hlock : LockMove s.lock c lock')
      (hintent : call.intent = .reduce n)
      (hremaining : call.remaining = 0) (hargument : call.argument = 0) :
      Effect s c call (.finished .returned) {s with
        available := s.available-n
        lock := lock'
        ledger := {s.ledger with reduced := s.ledger.reduced+n}
        calls := s.calls.set c (.finished .returned)}
  | acquire {f : ℕ} {a : Acquire W} {lock' : Option ℕ} (hn : a.requestedPermits ≤ s.available)
      (hf : s.acquires[f]? = some a) (hbusy : a.busy = some c) (hphase : a.phase = .unpolled)
      (hlock : LockMove s.lock c lock') (hintent : call.intent = .poll f)
      (hremaining : call.remaining = 0) (hargument : call.argument = 0) :
      Effect s c call (.finished .acquired) {s with
        available := s.available-a.requestedPermits
        lock := lock'
        acquires := s.acquires.set f {a with phase := .ready,busy := none}
        ledger := {s.ledger with acquired := s.ledger.acquired+a.requestedPermits}
        calls := s.calls.set c (.finished .acquired)}
  /-- The first poll of a future takes what there is and enqueues the rest. -/
  | enqueue {f : ℕ} {a : Acquire W} {w : W} {id : WaiterId} {waiters : WaitList (WaitNode W)}
      (hn : s.available < a.requestedPermits)
      (hf : s.acquires[f]? = some a) (hbusy : a.busy = some c) (hphase : a.phase = .unpolled)
      (hlock : s.lock = some c) (hid : s.waiters.get? id = none)
      (horder : waiters.order = s.waiters.order++[id])
      (hget : waiters.get? = Function.update s.waiters.get? id
        (some ⟨a.requestedPermits-s.available,some w,some f⟩))
      (hintent : call.intent = .poll f)
      (hremaining : call.remaining = 0) (hargument : call.argument = 0) :
      Effect s c call (.finished .pending) {s with
        available := 0
        lock := none
        waiters := waiters
        acquires := s.acquires.set f
          {a with phase := .queued id,busy := none,lastWaker := some w}
        enqueued := s.enqueued++[f]
        calls := s.calls.set c (.finished .pending)}
  | owe {n : ℕ} {id : WaiterId} {waiters : WaitList (WaitNode W)} (hn : s.available < n)
      (hlock : s.lock = some c) (hid : s.waiters.get? id = none)
      (horder : waiters.order = id::s.waiters.order)
      (hget : waiters.get? = Function.update s.waiters.get? id (some ⟨n-s.available,none,none⟩))
      (hintent : call.intent = .reduce n)
      (hremaining : call.remaining = 0) (hargument : call.argument = 0) :
      Effect s c call (.finished .returned) {s with
        available := 0
        lock := none
        waiters := waiters
        ledger := {s.ledger with reduced := s.ledger.reduced+n}
        calls := s.calls.set c (.finished .returned)}
  | put {n : ℕ} (hpos : s.available ≠ 0) (hbound : s.available+n ≤ usizeMax)
      (hremaining : call.remaining = 0) (hargument : call.argument = n)
      (hother : call.intent.reduction = 0) :
      Effect s c call (.finished .returned) {s with
        available := s.available+n
        ledger := {s.ledger with released := s.ledger.released+n}
        calls := s.calls.set c (.finished .returned)}
  /-- The surplus of a distribution is added to the count under the lock. -/
  | surplus {call' : Call W} {lock' : Option ℕ} (hlock : s.lock = some c)
      (horder : s.waiters.order = []) (hbound : s.available+call.remaining ≤ usizeMax)
      (hremaining : call'.remaining = 0) (hargument : call.argument = 0)
      (hcalm : call'.calm = true) (hother : call.intent.reduction = 0) :
      Effect s c call call' {s with
        available := s.available+call.remaining
        lock := lock'
        calls := s.calls.set c call'}
  /-- A batch is assigned under the lock; `n` permits enter the distribution. -/
  | distribute {call' : Call W} {lock' : Option ℕ} {n : ℕ} {d : Distribution W}
      (hlock : s.lock = none)
      (hrounds : ReflTransGen Assign ⟨s.waiters,call.remaining+n,[],[]⟩ d)
      (hremaining : call'.remaining = d.remaining) (hbatch : call'.batch = d.batch)
      (hargument : call.argument = n ∨ call = .started (.releaseIfWaiters n))
      (hcalm : call'.calm = true) (hother : call.intent.reduction = 0) :
      Effect s c call call' {s with
        waiters := d.waiters
        lock := lock'
        granted := s.granted++d.granted
        ledger := {s.ledger with released := s.ledger.released+n}
        calls := s.calls.set c call'}
  /-- A registered future is dropped, and what was assigned to it is passed on. -/
  | cancel {f : ℕ} {a : Acquire W} {id : WaiterId} {node : WaitNode W} {call' : Call W}
      {lock' : Option ℕ} {waiters : WaitList (WaitNode W)} {d : Distribution W}
      (hlock : s.lock = none)
      (hf : s.acquires[f]? = some a) (hbusy : a.busy = some c) (hphase : a.phase = .queued id)
      (hnode : s.waiters.get? id = some node) (horder : waiters.order = s.waiters.order.erase id)
      (hget : waiters.get? = Function.update s.waiters.get? id none)
      (hrounds : ReflTransGen Assign ⟨waiters,a.requestedPermits-node.neededPermits,[],[]⟩ d)
      (hremaining' : call'.remaining = d.remaining) (hbatch : call'.batch = d.batch)
      (hremaining : call.remaining = 0) (hargument : call.argument = 0)
      (hcalm : call'.calm = true) (hcall : call = .started (.drop f)) :
      Effect s c call call' {s with
        waiters := d.waiters
        lock := lock'
        acquires := s.acquires.set f {a with phase := .dropped,busy := none}
        granted := s.granted++d.granted
        calls := s.calls.set c call'}
  | refresh {f : ℕ} {a : Acquire W} {id : WaiterId} {node : WaitNode W} {w : W}
      {waiters : WaitList (WaitNode W)} (hlock : s.lock = none)
      (hf : s.acquires[f]? = some a) (hbusy : a.busy = some c) (hphase : a.phase = .queued id)
      (hnode : s.waiters.get? id = some node) (hneed : 0 < node.neededPermits)
      (horder : waiters.order = s.waiters.order)
      (hget : waiters.get? = Function.update s.waiters.get? id
        (some {node with waker := registerWaker node.waker w}))
      (hremaining : call.remaining = 0) (hargument : call.argument = 0) :
      Effect s c call (.finished .pending) {s with
        waiters := waiters
        acquires := s.acquires.set f {a with busy := none,lastWaker := some w}
        calls := s.calls.set c (.finished .pending)}
  | claim {f : ℕ} {a : Acquire W} {id : WaiterId} {node : WaitNode W} {w : W}
      {waiters : WaitList (WaitNode W)} (hlock : s.lock = none)
      (hf : s.acquires[f]? = some a) (hbusy : a.busy = some c) (hphase : a.phase = .queued id)
      (hnode : s.waiters.get? id = some node) (hneed : node.neededPermits = 0)
      (horder : waiters.order = s.waiters.order)
      (hget : waiters.get? = Function.update s.waiters.get? id none)
      (hcall : call = .started (.poll f w))
      (hremaining : call.remaining = 0) (hargument : call.argument = 0) :
      Effect s c call (.finished .acquired) {s with
        waiters := waiters
        acquires := s.acquires.set f {a with phase := .ready,busy := none}
        ledger := {s.ledger with acquired := s.ledger.acquired+a.requestedPermits}
        calls := s.calls.set c (.finished .acquired)}
  | notifyAll {d : Distribution W} (hlock : s.lock = none) (hcall : call = .started .notifyAll)
      (hrounds : ReflTransGen Notify ⟨s.waiters,0,[],[]⟩ d) (hall : d.waiters.order = []) :
      Effect s c call (.wakeAll d.batch 0) {s with
        waiters := d.waiters
        granted := s.granted++d.granted
        ledger := {s.ledger with notified := s.ledger.notified+d.remaining}
        calls := s.calls.set c (.wakeAll d.batch 0)}

theorem Assign.remaining_le (h : ReflTransGen Assign d d') : d'.remaining ≤ d.remaining := by
  induction h with
  | refl => exact le_rfl
  | tail _ hround ih =>
    refine le_trans ?_ ih
    cases hround with
    | grant => exact Nat.sub_le _ _
    | repay => exact Nat.sub_le _ _
    | part => exact Nat.zero_le _

theorem Assign.order_nil (h : ReflTransGen Assign d d') (ho : d.waiters.order = []) :
    d'.waiters.order = [] := by
  induction h with
  | refl => exact ho
  | tail _ hround ih => cases hround <;> simp_all

/-- A distribution leaves the lock with its batch, or keeps it to add the surplus. -/
theorem distribute_cases (s : State W) (c remaining : ℕ) :
    ∃ d call' lock', ReflTransGen Assign ⟨s.waiters,remaining,[],[]⟩ d ∧
      (call' = .wakeAll d.batch d.remaining ∧ (d.remaining = 0 ∨ WakerBatch.stackSize ≤ d.batch.length) ∨
        call' = .surplusLoad d.remaining d.batch ∧ lock' = some c ∧ 0 < d.remaining ∧
          d.waiters.order = []) ∧
      distribute s c remaining = {s with
        waiters := d.waiters,lock := lock',granted := s.granted++d.granted
        calls := s.calls.set c call'} := by
  obtain ⟨d,hd,hrounds,hexit⟩ := assignPermits_rounds s.waiters.order.length
    ⟨s.waiters,remaining,[],[]⟩ le_rfl
  by_cases hsurplus : 0 < d.remaining ∧ d.waiters.isEmpty
  · refine ⟨d,_,some c,hrounds,Or.inr ⟨rfl,rfl,hsurplus.1,WaitList.isEmpty_iff.mp hsurplus.2⟩,?_⟩
    simp [distribute,hd,hsurplus,State.setCall]
  · refine ⟨d,_,none,hrounds,Or.inl ⟨rfl,?_⟩,?_⟩
    · rcases hexit with hzero | hfull | hempty
      · exact Or.inl hzero
      · exact Or.inr hfull
      · exact Or.inl (Nat.eq_zero_of_not_pos fun hpos => hsurplus ⟨hpos,WaitList.isEmpty_iff.mpr hempty⟩)
    · simp only [distribute,hd,if_neg hsurplus,State.setCall]

theorem startable_poll {w : W} (h : startable s (.poll f w) = true) :
    ∃ a, s.acquires[f]? = some a ∧ a.busy = none ∧ a.phase ≠ .ready ∧ a.phase ≠ .dropped := by
  simp only [startable,Option.any_eq_true] at h
  obtain ⟨a,ha,hp⟩ := h
  exact ⟨a,ha,by simpa [and_assoc] using hp⟩

theorem startable_drop (h : startable s (.drop f) = true) :
    ∃ a, s.acquires[f]? = some a ∧ a.busy = none ∧ a.phase ≠ .dropped := by
  simp only [startable,Option.any_eq_true] at h
  obtain ⟨a,ha,hp⟩ := h
  exact ⟨a,ha,by simpa using hp⟩

section Effects

variable [Wake W] {s s' : State W} {c : ℕ} {call : Call W}
variable {a : Acquire W} {id : WaiterId} {call' : Call W} {n requested : ℕ} {op : Op W}
    {owner : Option (ℕ × W)}

theorem distribute_effect (s : State W) (c : ℕ) (call : Call W) (n : ℕ) (hlock : s.lock = none)
    (hle : call.remaining+n ≤ usizeMax)
    (hargument : call.argument = n ∨ call = .started (.releaseIfWaiters n))
    (hother : call.intent.reduction = 0) : ∃ call', Effect s c call call' (distribute
        {s with ledger := {s.ledger with released := s.ledger.released+n}} c (call.remaining+n)) ∧
      CallOk (distribute
        {s with ledger := {s.ledger with released := s.ledger.released+n}} c (call.remaining+n))
        c call' := by
  obtain ⟨d,call',lock',hrounds,hcall,heq⟩ := distribute_cases
    {s with ledger := {s.ledger with released := s.ledger.released+n}} c (call.remaining+n)
  have hrem : d.remaining ≤ usizeMax := (Assign.remaining_le hrounds).trans hle
  rw [heq]
  rcases hcall with ⟨rfl,-⟩ | ⟨rfl,rfl,-,hempty⟩
  · exact ⟨_,.distribute hlock hrounds rfl rfl hargument rfl hother,hrem⟩
  · exact ⟨_,.distribute hlock hrounds rfl rfl hargument rfl hother,hrem,rfl,hempty⟩

theorem notifyAll_effect (hlock : s.lock = none) :
    ∃ call', Effect s c (.started .notifyAll) call' (notifyAll s c) ∧
      CallOk (notifyAll s c) c call' := by
  obtain ⟨d,hd,hrounds,hall⟩ := notifyWaiters_rounds s.waiters.order.length
    ⟨s.waiters,0,[],[]⟩ le_rfl
  simp only [notifyAll,hd]
  exact ⟨_,.notifyAll hlock rfl hrounds hall,Nat.zero_le _⟩

section

variable (hI : Inv s) (hlock : s.lock = none) (hf : s.acquires[f]? = some a) (hbusy : a.busy = some c)
    (hphase : a.phase = .queued id)
include hI hlock hf hbusy hphase

theorem pollQueued_effect {w : W} :
    ∃ call', Effect s c (.started (.poll f w)) call' (pollQueued s c f a id w) ∧
      CallOk (pollQueued s c f a id w) c call' := by
  obtain ⟨node,hn,-⟩ := hI.queue.owned f a id hf hphase
  by_cases hneed : 0 < node.neededPermits
  · obtain ⟨waiters,hs,horder,hget⟩ := WaitList.setWaiter_spec hn
      {node with waker := registerWaker node.waker w}
    simp only [pollQueued,hn,hneed,if_true,hs]
    exact ⟨_,.refresh hlock hf hbusy hphase hn hneed horder hget rfl rfl,trivial⟩
  · have hzero : node.neededPermits = 0 := by omega
    have hid : id ∉ s.waiters.order := fun hl => hneed (hI.queue.linked_need hn hl)
    obtain ⟨waiters,hs,horder,hget⟩ := WaitList.removeUnlinkedWaiter_spec hn hid
    simp only [pollQueued,hn,hneed,if_false,hs]
    exact ⟨_,.claim hlock hf hbusy hphase hn hzero horder hget rfl rfl rfl,trivial⟩

omit hlock hbusy in
/-- The drop of a registered future takes its node out of the queue and passes on what was
assigned to it. -/
theorem dropQueued_eq : ∃ node waiters, s.waiters.get? id = some node ∧
    waiters.order = s.waiters.order.erase id ∧
    waiters.get? = Function.update s.waiters.get? id none ∧
    dropQueued s c f a id =
      if 0 < a.requestedPermits-node.neededPermits then
        distribute {s with
          waiters := waiters
          acquires := s.acquires.set f {a with phase := .dropped,busy := none}} c
            (a.requestedPermits-node.neededPermits)
      else {s with
        waiters := waiters
        acquires := s.acquires.set f {a with phase := .dropped,busy := none}}.finish c .returned := by
  obtain ⟨node,hn,-⟩ := hI.queue.owned f a id hf hphase
  have hle := hI.queue.needed_le hf hphase hn
  obtain ⟨w₁,hu,ho₁,hg₁⟩ := WaitList.unlinkWaiter_spec hn
    fun node => (true,{node with neededPermits := 0})
  simp only [if_true] at hu ho₁ hg₁
  have hid : id ∉ w₁.order := by
    rw [ho₁]
    exact s.waiters.order_nodup.not_mem_erase
  obtain ⟨w₂,hr,ho₂,hg₂⟩ := WaitList.removeUnlinkedWaiter_spec
    (v:={node with neededPermits := 0}) (by simp [hg₁]) hid
  refine ⟨node,w₂,hn,ho₂.trans ho₁,by rw [hg₂,hg₁,Function.update_idem],?_⟩
  simp only [dropQueued,hn,Nat.not_lt.mpr hle,if_false,hu,hr,bind,Except.bind,State.setAcquire]

theorem dropQueued_effect :
    ∃ call', Effect s c (.started (.drop f)) call' (dropQueued s c f a id) ∧
      CallOk (dropQueued s c f a id) c call' := by
  obtain ⟨node,w₂,hn,horder,hget,hdrop⟩ := dropQueued_eq (c := c) hI hf hphase
  have hrequested : a.requestedPermits ≤ usizeMax := hI.requested a (List.mem_of_getElem? hf)
  rw [hdrop]
  by_cases hpos : 0 < a.requestedPermits-node.neededPermits
  · obtain ⟨d,call',lock',hrounds,hcall,heq⟩ := distribute_cases
      {s with waiters := w₂,acquires := s.acquires.set f {a with phase := .dropped,busy := none}}
      c (a.requestedPermits-node.neededPermits)
    have hrem : d.remaining ≤ usizeMax := by
      have hd : d.remaining ≤ a.requestedPermits-node.neededPermits := Assign.remaining_le hrounds
      omega
    rw [if_pos hpos,heq]
    rcases hcall with ⟨rfl,-⟩ | ⟨rfl,rfl,-,hempty⟩
    · exact ⟨_,.cancel hlock hf hbusy hphase hn horder hget hrounds rfl rfl rfl rfl rfl rfl,hrem⟩
    · exact ⟨_,.cancel hlock hf hbusy hphase hn horder hget hrounds rfl rfl rfl rfl rfl rfl,
        hrem,rfl,hempty⟩
  · have hzero : a.requestedPermits-node.neededPermits = 0 := by omega
    rw [if_neg hpos]
    have heffect : Effect s c (.started (.drop f)) (.finished .returned) {s with
        waiters := w₂
        acquires := s.acquires.set f {a with phase := .dropped,busy := none}
        granted := s.granted++[]
        calls := s.calls.set c (.finished .returned)} :=
      .cancel (d:=⟨w₂,0,[],[]⟩) hlock hf hbusy hphase hn horder hget (by rw [hzero]) rfl rfl rfl
        rfl rfl rfl
    rw [List.append_nil] at heffect
    exact ⟨_,heffect,trivial⟩

end

theorem setCall_effect (hremaining : call'.remaining = call.remaining)
    (hargument : call'.argument = call.argument) (hquiet : call'.quiet = true)
    (hintent : call'.intent = call.intent ∨ call'.intent = .other ∧ call.intent.reduction = 0)
    (hloaded : ∀ a, call'.loaded = some a → call.loaded = some a ∨ a = s.available) :
    Effect s c call call' (s.setCall c call') :=
  .idle (b:=s.contentionDetected) (Or.inl rfl) hremaining hargument hquiet hintent hloaded

theorem loaded_now (a : ℕ) {P : Prop} (h : some a = some n) : P ∨ n = a :=
  Or.inr (Option.some.inj h).symm

theorem begin_effect (hI : Inv s) (hok : CallOk s c (.started op)) (h : begin s c op = some s') :
    ∃ call', Effect s c (.started op) call' s' ∧ CallOk s' c call' := by
  cases op with
  | tryAcquire n =>
    simp only [begin,Option.some.injEq] at h
    subst h
    exact ⟨_,setCall_effect rfl rfl rfl (Or.inl rfl) nofun,trivial⟩
  | drainPermits upTo =>
    simp only [begin] at h
    split at h <;> cases h
    · exact ⟨_,setCall_effect rfl rfl rfl (Or.inr ⟨rfl,rfl⟩) nofun,trivial⟩
    · exact ⟨_,setCall_effect rfl rfl rfl (Or.inl rfl) nofun,trivial⟩
  | reducePermits n =>
    simp only [begin,Option.some.injEq] at h
    subst h
    exact ⟨_,setCall_effect rfl rfl rfl (Or.inl rfl) nofun,nofun,nofun⟩
  | release n =>
    simp only [begin] at h
    split at h
    · rename_i hn
      cases h
      exact ⟨_,setCall_effect rfl hn.symm rfl (Or.inl rfl) nofun,trivial⟩
    · split at h
      · rename_i hpos
        cases h
        exact ⟨_,setCall_effect rfl rfl rfl (Or.inl rfl) (fun _ => loaded_now _),hok,hpos⟩
      · cases h
        exact ⟨_,setCall_effect rfl rfl rfl (Or.inl rfl) nofun,hok⟩
  | releaseWithLock n =>
    simp only [begin] at h
    split at h
    · rename_i hn
      cases h
      exact ⟨_,setCall_effect rfl hn.symm rfl (Or.inl rfl) nofun,trivial⟩
    · cases h
      exact ⟨_,setCall_effect rfl rfl rfl (Or.inl rfl) nofun,hok⟩
  | releaseIfWaiters n =>
    simp only [begin] at h
    split at h
    · cases h
    · rename_i hlock
      split at h
      · cases h
        exact ⟨_,setCall_effect rfl rfl rfl (Or.inr ⟨rfl,rfl⟩) nofun,trivial⟩
      · cases h
        have hle : n ≤ usizeMax := hok
        have heffect := distribute_effect s c (.started (.releaseIfWaiters n)) n
          (not_not.mp hlock) (by simpa [Call.remaining] using hle) (Or.inr rfl) rfl
        simpa only [Call.remaining,Nat.zero_add] using heffect
  | notifyAll =>
    simp only [begin] at h
    split at h
    · cases h
    · rename_i hlock
      cases h
      exact notifyAll_effect (not_not.mp hlock)
  | poll f w =>
    obtain ⟨a,ha,hbusy,hready,hdropped⟩ := hok
    simp only [begin,ha] at h
    cases hphase : a.phase with
    | queued id =>
      simp only [hphase] at h
      split at h
      · cases h
      · rename_i hlock
        cases h
        exact pollQueued_effect hI (not_not.mp hlock) ha hbusy hphase
    | unpolled =>
      simp only [hphase,Option.some.injEq] at h
      subst h
      refine ⟨_,setCall_effect rfl rfl rfl (Or.inl rfl) nofun,nofun,?_⟩
      intro f' w' hfw
      cases hfw
      exact ⟨a,ha,hbusy,hphase,rfl⟩
    | ready => exact absurd hphase hready
    | dropped => exact absurd hphase hdropped
  | drop f =>
    obtain ⟨a,ha,hbusy,hdropped⟩ := hok
    simp only [begin,ha] at h
    cases hphase : a.phase with
    | queued id =>
      simp only [hphase] at h
      split at h
      · cases h
      · rename_i hlock
        cases h
        exact dropQueued_effect hI (not_not.mp hlock) ha hbusy hphase
    | unpolled =>
      simp only [hphase,Option.some.injEq] at h
      subst h
      exact ⟨_,.dropIdle ha hbusy (Or.inl ⟨hphase,rfl⟩) rfl rfl rfl,trivial⟩
    | ready =>
      simp only [hphase,Option.some.injEq] at h
      subst h
      exact ⟨_,.dropIdle ha hbusy (Or.inr ⟨hphase,rfl⟩) rfl rfl rfl,trivial⟩
    | dropped => exact absurd hphase hdropped

theorem takeAll_effect {lock : Bool}
    (hok : CallOk s c (.acquiredOrEnqueue requested s.available owner lock))
    (hle : requested ≤ s.available) :
    ∃ call', Effect s c (.acquiredOrEnqueue requested s.available owner lock) call'
        (takeAll s c requested owner lock) ∧
      CallOk (takeAll s c requested owner lock) c call' := by
  obtain ⟨hl,how⟩ := hok
  have hlock : LockMove s.lock c (if lock then none else s.lock) := by
    cases lock with
    | false => exact Or.inl rfl
    | true => exact Or.inr (Or.inr (hl rfl))
  cases owner with
  | none => exact ⟨_,.reduce hle hlock rfl rfl rfl,trivial⟩
  | some fw =>
    obtain ⟨f,w⟩ := fw
    obtain ⟨a,ha,hbusy,hphase,hreq⟩ := how f w rfl
    subst hreq
    have heffect : Effect s c
        (.acquiredOrEnqueue a.requestedPermits s.available (some (f,w)) lock) _ _ :=
      .acquire hle ha hbusy hphase hlock rfl rfl rfl
    refine ⟨.finished .acquired,?_,trivial⟩
    simpa [takeAll,State.finish,State.setCall,List.modify_eq_set_getElem?,ha] using heffect

theorem takeAndEnqueue_effect (hok : CallOk s c (.acquiredOrEnqueue requested s.available owner true))
    (hlt : s.available < requested) :
    ∃ call', Effect s c (.acquiredOrEnqueue requested s.available owner true) call'
        (takeAndEnqueue s c requested owner) ∧
      CallOk (takeAndEnqueue s c requested owner) c call' := by
  obtain ⟨hl,how⟩ := hok
  have hlock := hl rfl
  cases owner with
  | none =>
    obtain ⟨id,waiters,hpush,hid,horder,hget⟩ :=
      s.waiters.pushFront_spec ⟨requested-s.available,none,none⟩
    have heffect : Effect s c (.acquiredOrEnqueue requested s.available none true) _ _ :=
      .owe hlt hlock hid horder hget rfl rfl rfl
    refine ⟨.finished .returned,?_,trivial⟩
    simpa [takeAndEnqueue,State.finish,State.setCall,hpush] using heffect
  | some fw =>
    obtain ⟨f,w⟩ := fw
    obtain ⟨a,ha,hbusy,hphase,hreq⟩ := how f w rfl
    subst hreq
    obtain ⟨id,waiters,hpush,hid,horder,hget⟩ :=
      s.waiters.pushBack_spec ⟨a.requestedPermits-s.available,some w,some f⟩
    have heffect : Effect s c
        (.acquiredOrEnqueue a.requestedPermits s.available (some (f,w)) true) _ _ :=
      .enqueue hlt ha hbusy hphase hlock hid horder hget rfl rfl rfl
    refine ⟨.finished .pending,?_,trivial⟩
    simpa [takeAndEnqueue,State.finish,State.setCall,hpush,List.modify_eq_set_getElem?,ha] using
      heffect

theorem advance_effect (hI : Inv s) (hc : s.calls[c]? = some call) {spurious : Bool}
    (h : advance s c spurious = some s') :
    ∃ call', Effect s c call call' s' ∧ CallOk s' c call' := by
  have hok := hI.calls c call hc
  simp only [advance,hc] at h
  cases call with
  | started op => exact begin_effect hI hok h
  | finished outcome => cases h
  | panicked message r => cases h
  | tryAcquire n available =>
    simp only at h
    split at h
    · cases h
      exact ⟨_,setCall_effect rfl rfl rfl (Or.inr ⟨rfl,rfl⟩) nofun,trivial⟩
    · rename_i hle
      split at h
      · rename_i heq
        cases h
        subst heq
        exact ⟨_,.tryAcquire (Nat.not_lt.mp hle) rfl rfl rfl,trivial⟩
      · cases h
        exact ⟨_,setCall_effect rfl rfl rfl (Or.inl rfl) nofun,trivial⟩
  | drainPermits upTo available =>
    simp only at h
    split at h
    · rename_i heq
      obtain ⟨heq,-⟩ := heq
      subst heq
      cases h
      have heffect : Effect s c (.drainPermits upTo s.available) _ _ :=
        .drain (Nat.min_le_right upTo s.available) rfl rfl rfl
      have hsub : s.available - min upTo s.available = s.available-upTo := by omega
      rw [hsub] at heffect
      exact ⟨_,heffect,trivial⟩
    · cases h
      exact ⟨_,setCall_effect rfl rfl rfl (Or.inl rfl) nofun,trivial⟩
  | acquiredOrEnqueue requested available owner lock =>
    have hok' := hok
    obtain ⟨hl,how⟩ := hok
    simp only at h
    split at h
    · split at h
      · cases h
      · rename_i hnone
        cases h
        have hmove : LockMove s.lock c (some c) := Or.inr (Or.inl (not_not.mp hnone))
        exact ⟨_,.idle (b:=s.contentionDetected) hmove rfl rfl rfl
          (Or.inl (by cases owner <;> rfl)) nofun,fun _ => rfl,how⟩
    · rename_i hlock
      split at h
      · cases h
        exact ⟨_,setCall_effect rfl rfl rfl (Or.inl (by cases owner <;> rfl)) nofun,hl,how⟩
      · rename_i heq
        have heq : s.available = available := not_not.mp heq
        subst heq
        split at h
        · rename_i hle
          cases h
          exact takeAll_effect hok' hle
        · rename_i hlt
          have hlock' : lock = true := by
            cases lock with
            | true => rfl
            | false => exact absurd ⟨Nat.not_le.mp hlt,rfl⟩ hlock
          subst hlock'
          cases h
          exact takeAndEnqueue_effect hok' (Nat.not_le.mp hlt)
  | release n available =>
    simp only at h
    split at h <;> cases h
    · exact ⟨_,setCall_effect rfl rfl rfl (Or.inl rfl) nofun,hok.1⟩
    · exact ⟨_,setCall_effect rfl rfl rfl (Or.inl rfl) fun _ h => Or.inl h,hok⟩
  | releaseExchange n available =>
    obtain ⟨hn,hpos⟩ := hok
    simp only at h
    split at h
    · rename_i hover
      cases h
      have hmove : LockMove s.lock c (if s.lock = some c then none else s.lock) := by
        split
        · rename_i hl
          exact Or.inr (Or.inr hl)
        · exact Or.inl rfl
      exact ⟨_,.overflow hmove rfl hover rfl rfl,_,_,rfl,hover⟩
    · rename_i hbound
      split at h
      · rename_i heq
        subst heq
        cases h
        exact ⟨_,.put hpos (Nat.not_lt.mp hbound) rfl rfl rfl,trivial⟩
      · cases h
        exact ⟨_,setCall_effect rfl rfl rfl (Or.inl rfl) nofun,hn⟩
  | releaseLock n =>
    simp only at h
    split at h
    · cases h
    · rename_i hlock
      cases h
      have hle : n ≤ usizeMax := hok
      have heffect := distribute_effect s c (.releaseLock n) n
        (not_not.mp hlock) (by simpa [Call.remaining] using hle) (Or.inl rfl) rfl
      simpa only [Call.remaining,Nat.zero_add] using heffect
  | relock r =>
    simp only at h
    split at h
    · cases h
    · rename_i hlock
      cases h
      exact distribute_effect s c (.relock r) 0 (not_not.mp hlock) hok (Or.inl rfl) rfl
  | surplusLoad r batch =>
    obtain ⟨hr,hl,ho⟩ := hok
    simp only at h
    split at h
    · rename_i hzero
      cases h
      exact ⟨_,setCall_effect rfl rfl rfl (Or.inl rfl) nofun,hr,hl,ho,hzero⟩
    · cases h
      exact ⟨_,setCall_effect rfl rfl rfl (Or.inl rfl) (fun _ => loaded_now _),hr,hl,ho⟩
  | surplusAdd r batch =>
    obtain ⟨hr,hl,ho,hzero⟩ := hok
    cases h
    have hwrap : (s.available+r) % 2^64 = s.available+r := by
      rw [hzero]
      apply Nat.mod_eq_of_lt
      simp only [usizeMax] at hr
      omega
    rw [hwrap]
    refine ⟨_,.surplus hl ho ?_ rfl rfl rfl rfl,Nat.zero_le _⟩
    simp only [Call.remaining]
    omega
  | surplusExchange r available batch =>
    obtain ⟨hr,hl,ho⟩ := hok
    simp only at h
    split at h
    · rename_i hover
      cases h
      exact ⟨_,.surplusOverflow (Or.inr (Or.inr hl)) rfl hover rfl,
        _,_,rfl,hover⟩
    · rename_i hbound
      split at h
      · rename_i heq
        subst heq
        cases h
        exact ⟨_,.surplus hl ho (Nat.not_lt.mp hbound) rfl rfl rfl rfl,hl⟩
      · cases h
        exact ⟨_,setCall_effect rfl rfl rfl (Or.inl rfl) (fun _ => loaded_now _),hr,hl,ho⟩
  | surplusContended r actual batch =>
    cases h
    exact ⟨_,.idle (Or.inl rfl) rfl rfl rfl (Or.inl rfl) fun _ h => Or.inl h,hok⟩
  | surplusSettled batch =>
    cases h
    exact ⟨_,.idle (Or.inr (Or.inr hok)) rfl rfl rfl (Or.inl rfl) nofun,Nat.zero_le _⟩
  | wakeAll batch r =>
    cases batch with
    | nil =>
      simp only at h
      split at h
      · rename_i hzero
        cases h
        exact ⟨_,setCall_effect hzero.symm rfl rfl (Or.inl rfl) nofun,trivial⟩
      · cases h
        exact ⟨_,setCall_effect rfl rfl rfl (Or.inl rfl) nofun,hok⟩
    | cons w batch =>
      cases h
      exact ⟨_,setCall_effect rfl rfl rfl (Or.inl rfl) nofun,hok⟩

section

variable (h : Effect s c call call' s')
include h

theorem Effect.queueOk (hq : QueueOk s.waiters s.acquires) : QueueOk s'.waiters s'.acquires := by
  -- a future that does not wait changes without touching the queue
  have hidle {f : ℕ} {a a' : Acquire W} (hf : s.acquires[f]? = some a)
      (hp : ∀ id, a.phase ≠ .queued id) (hp' : ∀ id, a'.phase ≠ .queued id) :
      QueueOk s.waiters (s.acquires.set f a') := by
    refine hq.congr ?_ ?_
    · intro f' b id hb hpb
      have hne : f ≠ f' := by
        intro heq
        subst heq
        rw [hf] at hb
        cases hb
        exact hp id hpb
      exact ⟨b.busy,by rwa [List.getElem?_set_ne hne]⟩
    · intro f' b id hb hpb
      rcases Table.getElem?_set_cases hb with ⟨-,rfl⟩ | ⟨-,hb⟩
      · exact absurd hpb (hp' id)
      · exact ⟨b.busy,hb⟩
  have hself {f : ℕ} {a : Acquire W} (hf : s.acquires[f]? = some a) (a' : Acquire W) :
      (s.acquires.set f a')[f]? = some a' := Table.getElem?_set_self' hf a'
  cases h with
  | dropIdle hf _ hp =>
    rcases hp with ⟨hp,rfl⟩ | ⟨hp,rfl⟩
    · exact hidle hf (by simp [hp]) (by simp)
    · exact hidle hf (by simp [hp]) (by simp)
  | acquire _ hf _ hp => exact hidle hf (by simp [hp]) nofun
  | distribute _ hrounds => exact hq.assign hrounds
  | notifyAll _ _ hrounds => exact hq.notify hrounds
  | @enqueue f a w id waiters hn hf hbusy hp hlock hid horder hget =>
    refine hq.setOwned hf (by simp [hp]) (by simp) (by simp [hid]) hget ?_ ?_ ?_
    · intro id' hne
      simp [horder,hne]
    · intro node hnode
      cases hnode
      refine ⟨fun _ => by simp only; omega,_,hself hf _,rfl,Nat.sub_le _ _,
        fun _ => ⟨w,w,rfl,rfl,Or.inl rfl⟩,?_⟩
      intro hl
      simp [horder] at hl
    · intro _
      exact ⟨_,rfl,rfl⟩
  | @owe n id waiters hn hlock hid horder hget =>
    refine hq.update hget ?_ (fun f a _ ha _ _ => ha) (fun f a _ ha _ _ => ha) ?_ ?_
    · intro id' hne
      simp [horder,hne]
    · intro node hnode
      cases hnode
      exact ⟨fun _ => by simp only; omega,by simp [horder],rfl⟩
    · intro f a ha hp
      obtain ⟨node,hnode,-⟩ := hq.owned f a id ha hp
      rw [hid] at hnode
      cases hnode
  | cancel hlock hf hbusy hp hnode horder hget hrounds =>
    exact (hq.removeOwned hf hp (by simp) hget
      (fun id' hne => by rw [horder,List.mem_erase_of_ne hne])).assign hrounds
  | claim hlock hf hbusy hp hnode hneed horder hget =>
    exact hq.removeOwned hf hp (by simp) hget (fun id' _ => by rw [horder])
  | @refresh f a id node w waiters hlock hf hbusy hp hnode hneed horder hget =>
    obtain ⟨node',hn',hown⟩ := hq.owned f a id hf hp
    rw [hnode] at hn'
    cases hn'
    have hphase : ∀ id', a.phase = .queued id' → id' = id := by
      intro id' hp'
      rw [hp] at hp'
      cases hp'
      rfl
    refine hq.setOwned hf hphase hphase (by simp [hnode,hown]) hget (fun id' _ => by rw [horder]) ?_ ?_
    · intro node' hnode'
      cases hnode'
      have hl : id ∈ waiters.order := by
        by_contra hl
        rw [horder] at hl
        have hzero := (hq.detached_need hnode hl).1
        omega
      have hle := hq.needed_le hf hp hnode
      refine ⟨fun _ => hneed,?_⟩
      simp only [hown]
      refine ⟨_,hself hf _,hp,hle,fun _ => ?_,fun hnl => absurd hl hnl⟩
      -- `register_waker` keeps the old waker only if it wakes the same task
      cases hw : node.waker with
      | none => exact ⟨w,w,rfl,rfl,Or.inl rfl⟩
      | some current =>
        simp only [registerWaker]
        split
        · rename_i hwake
          exact ⟨current,w,rfl,rfl,Or.inr hwake⟩
        · exact ⟨w,w,rfl,rfl,Or.inl rfl⟩
    · intro _
      exact ⟨_,rfl,hown⟩
  | _ => exact hq

theorem Effect.frame : Frame s c s' := by
  -- a future that another call borrows is not the one this step changes
  have hother {f : ℕ} {a : Acquire W} (hf : s.acquires[f]? = some a) (hbusy : a.busy = some c)
      (a' : Acquire W) : ∀ c' (f' : ℕ) b, c' ≠ c → s.acquires[f']? = some b → b.busy = some c' →
        (s.acquires.set f a')[f']? = some b := by
    intro c' f' b hne hb hbusy'
    have hff : f ≠ f' := by
      intro heq
      subst heq
      rw [hf] at hb
      cases hb
      rw [hbusy] at hbusy'
      exact hne (Option.some.inj hbusy').symm
    rwa [List.getElem?_set_ne hff]
  have hmove {lock' : Option ℕ} (hl : LockMove s.lock c lock') :
      ∀ c', c' ≠ c → s.lock = some c' → lock' = some c' := by
    intro c' hne hc'
    rcases hl with rfl | hl | hl
    · exact hc'
    · simp [hl] at hc'
    · rw [hl] at hc'
      exact absurd (Option.some.inj hc').symm hne
  have hfree (hl : s.lock = none ∨ s.lock = some c) {P : ℕ → Prop} :
      ∀ c', c' ≠ c → s.lock = some c' → P c' := by
    intro c' hne hc'
    rcases hl with hl | hl
    · simp [hl] at hc'
    · rw [hl] at hc'
      exact absurd (Option.some.inj hc').symm hne
  have hsame : ∀ c' (f : ℕ) a, c' ≠ c → s.acquires[f]? = some a → a.busy = some c' →
      s.acquires[f]? = some a := fun _ _ _ _ ha _ => ha
  cases h with
  | idle hl | overflow hl | surplusOverflow hl =>
    exact ⟨fun c' hne hc' => ⟨hmove hl c' hne hc',rfl,id⟩,hsame⟩
  | tryAcquire | drain =>
    exact ⟨fun c' hne hc' => ⟨hc',rfl,fun hz => by simp only; omega⟩,hsame⟩
  | reduce hn hl =>
    exact ⟨fun c' hne hc' => ⟨hmove hl c' hne hc',rfl,fun hz => by simp only; omega⟩,hsame⟩
  | put hpos =>
    exact ⟨fun c' hne hc' => ⟨hc',rfl,fun hz => absurd hz hpos⟩,hsame⟩
  | dropIdle hf hbusy =>
    exact ⟨fun c' hne hc' => ⟨hc',rfl,id⟩,hother hf hbusy _⟩
  | acquire hn hf hbusy hp hl =>
    exact ⟨fun c' hne hc' => ⟨hmove hl c' hne hc',rfl,fun hz => by simp only; omega⟩,
      hother hf hbusy _⟩
  | enqueue hn hf hbusy hp hl => exact ⟨hfree (Or.inr hl),hother hf hbusy _⟩
  | owe hn hl => exact ⟨hfree (Or.inr hl),hsame⟩
  | surplus hl => exact ⟨hfree (Or.inr hl),hsame⟩
  | distribute hl => exact ⟨hfree (Or.inl hl),hsame⟩
  | cancel hl hf hbusy | refresh hl hf hbusy
  | claim hl hf hbusy => exact ⟨hfree (Or.inl hl),hother hf hbusy _⟩
  | notifyAll hl => exact ⟨hfree (Or.inl hl),hsame⟩

theorem Effect.calls_eq : s'.calls = s.calls.set c call' := by
  cases h <;> rfl

theorem Effect.inv (hI : Inv s) (hok : CallOk s' c call') : Inv s' where
  queue := h.queueOk hI.queue
  calls := by
    intro c' other hother
    rw [h.calls_eq] at hother
    rcases Table.getElem?_set_cases hother with ⟨rfl,rfl⟩ | ⟨hne,hother⟩
    · exact hok
    · exact (hI.calls c' other hother).frame hne h.frame
  requested := by
    have hset {f : ℕ} {a a' : Acquire W} (hf : s.acquires[f]? = some a)
        (hr : a'.requestedPermits = a.requestedPermits) :
        ∀ b ∈ s.acquires.set f a', b.requestedPermits ≤ usizeMax := by
      intro b hb
      rcases List.mem_or_eq_of_mem_set hb with hb | rfl
      · exact hI.requested b hb
      · rw [hr]
        exact hI.requested a (List.mem_of_getElem? hf)
    cases h with
    | dropIdle hf | acquire _ hf | enqueue _ hf | cancel _ hf | refresh _ hf
    | claim _ hf => exact hset hf rfl
    | _ => exact hI.requested
  bound := by
    have hb := hI.bound
    cases h with
    | put _ hbound => exact hbound
    | surplus _ _ hbound => exact hbound
    | _ => dsimp only; omega
  coupled := by
    have hc := hI.coupled
    -- taking permits leaves a non-zero count only if it was non-zero before
    have hsub {n : ℕ} : s.available-n ≠ 0 → s.waiters.order = [] := fun hpos => hc (by omega)
    cases h with
    | put hpos => exact fun _ => hc hpos
    | surplus _ ho => exact fun _ => ho
    | tryAcquire => exact hsub
    | drain => exact hsub
    | reduce => exact hsub
    | acquire => exact hsub
    | enqueue => exact fun hpos => absurd rfl hpos
    | owe => exact fun hpos => absurd rfl hpos
    | distribute _ hrounds => exact fun hpos => Assign.order_nil hrounds (hc hpos)
    | cancel _ _ _ _ _ horder _ hrounds =>
      exact fun hpos => Assign.order_nil hrounds (by simp [horder,hc hpos])
    | refresh _ _ _ _ _ _ horder => exact fun hpos => horder.trans (hc hpos)
    | claim _ _ _ _ _ _ horder => exact fun hpos => horder.trans (hc hpos)
    | notifyAll _ _ _ hall => exact fun _ => hall
    | _ => exact hc

end

theorem new_inv {permits : ℕ} (h : permits ≤ usizeMax) : Inv (new W permits) where
  bound := h
  coupled _ := WaitList.order_new
  queue := QueueOk.new
  requested := by simp [new]
  calls := by simp [new]

theorem Inv.extend (hI : Inv s) {acquires : List (Acquire W)} (calls : List (Call W))
    (hq : QueueOk s.waiters acquires)
    (hrequested : ∀ a ∈ acquires, a.requestedPermits ≤ usizeMax)
    (hborrowed : ∀ (f : ℕ) a c, s.acquires[f]? = some a → a.busy = some c →
      acquires[f]? = some a)
    (hcalls : ∀ (c : ℕ) call, (s.calls++calls)[c]? = some call → s.calls[c]? = some call ∨
      CallOk {s with acquires := acquires,calls := s.calls++calls} c call) :
    Inv {s with acquires := acquires,calls := s.calls++calls} where
  bound := hI.bound
  coupled := hI.coupled
  queue := hq
  requested := hrequested
  calls c call hcall := by
    rcases hcalls c call hcall with hold | hnew
    · have hframe : Frame s (c+1) {s with acquires := acquires,calls := s.calls++calls} :=
        ⟨fun _ _ hl => ⟨hl,rfl,id⟩,fun c' f a _ ha hb => hborrowed f a c' ha hb⟩
      exact (hI.calls c call hold).frame (by omega) hframe
    · exact hnew

theorem Inv.borrowed (hI : Inv s) (hf : s.acquires[f]? = some a) (hbusy : a.busy = none)
    (hok : ∀ s' : State W, s'.acquires[f]? = some {a with busy := some s.calls.length} →
      CallOk s' s.calls.length (.started op)) :
    Inv {s with
      acquires := s.acquires.set f {a with busy := some s.calls.length}
      calls := s.calls++[.started op]} := by
  have hself := Table.getElem?_set_self' hf {a with busy := some s.calls.length}
  refine hI.extend _ ?_ ?_ ?_ ?_
  · refine hI.queue.congr ?_ ?_
    · intro f' b id hb _
      by_cases hff : f = f'
      · subst hff
        rw [hf] at hb
        cases hb
        exact ⟨_,hself⟩
      · exact ⟨b.busy,by rwa [List.getElem?_set_ne hff]⟩
    · intro f' b id hb _
      rcases Table.getElem?_set_cases hb with ⟨rfl,rfl⟩ | ⟨-,hb⟩
      · exact ⟨a.busy,hf⟩
      · exact ⟨b.busy,hb⟩
  · intro b hb
    rcases List.mem_or_eq_of_mem_set hb with hb | rfl
    · exact hI.requested b hb
    · exact hI.requested a (List.mem_of_getElem? hf)
  · intro f' b c hb hc
    have hff : f ≠ f' := by
      intro heq
      subst heq
      rw [hf] at hb
      cases hb
      simp [hbusy] at hc
    rwa [List.getElem?_set_ne hff]
  · intro c call hcall
    rcases Table.getElem?_push hcall with hold | ⟨rfl,rfl⟩
    · exact Or.inl hold
    · exact Or.inr (hok _ hself)

theorem Inv.started (hI : Inv s) (hok : ∀ s' : State W, CallOk s' s.calls.length (.started op)) :
    Inv {s with calls := s.calls++[.started op]} := by
  refine hI.extend _ hI.queue hI.requested (fun _ _ _ ha _ => ha) ?_
  intro c call hcall
  rcases Table.getElem?_push hcall with hold | ⟨rfl,rfl⟩
  · exact Or.inl hold
  · exact Or.inr (hok _)

theorem start_inv (hI : Inv s) (hs : startable s op = true) :
    Inv {borrow s s.calls.length op with
      calls := (borrow s s.calls.length op).calls++[.started op]} := by
  cases op with
  | poll f w =>
    obtain ⟨a,ha,hbusy,hp⟩ := startable_poll hs
    simp only [borrow,List.modify_eq_set_getElem?,ha,Option.map_eq_map,Option.map_some,
      Option.getD_some]
    exact hI.borrowed ha hbusy fun s' hs' => ⟨_,hs',rfl,hp⟩
  | drop f =>
    obtain ⟨a,ha,hbusy,hp⟩ := startable_drop hs
    simp only [borrow,List.modify_eq_set_getElem?,ha,Option.map_eq_map,Option.map_some,
      Option.getD_some]
    exact hI.borrowed ha hbusy fun s' hs' => ⟨_,hs',rfl,hp⟩
  | release n | releaseWithLock n | releaseIfWaiters n =>
    have hn : n ≤ usizeMax := of_decide_eq_true hs
    exact hI.started fun _ => hn
  | _ => exact hI.started fun _ => trivial

theorem acquire_inv (hI : Inv s) (hn : n ≤ usizeMax) :
    Inv {s with acquires := s.acquires++[⟨n,.unpolled,none,none⟩]} := by
  have hold {f : ℕ} {a : Acquire W} (ha : s.acquires[f]? = some a) :=
    Table.getElem?_push_old ha ⟨n,.unpolled,none,none⟩
  have hq : QueueOk s.waiters (s.acquires++[⟨n,.unpolled,none,none⟩]) := by
    refine hI.queue.congr (fun f a id ha _ => ⟨a.busy,hold ha⟩) ?_
    intro f a id ha hp
    rcases Table.getElem?_push ha with ha | ⟨-,rfl⟩
    · exact ⟨a.busy,ha⟩
    · cases hp
  have hrequested : ∀ a ∈ s.acquires++[⟨n,.unpolled,none,none⟩], a.requestedPermits ≤ usizeMax := by
    intro a ha
    rcases List.mem_append.mp ha with ha | ha
    · exact hI.requested a ha
    · rwa [List.mem_singleton.mp ha]
  have hext := hI.extend [] hq hrequested (fun f a c ha _ => hold ha)
    (fun c call hcall => Or.inl (by simpa using hcall))
  simpa only [List.append_nil] using hext

theorem next_inv {a : Action W} (hI : Inv s) (h : next s a = some s') : Inv s' := by
  cases a with
  | acquire n =>
    simp only [next] at h
    split at h
    · rename_i hn
      cases h
      exact acquire_inv hI hn
    · cases h
  | call op =>
    simp only [next] at h
    split at h
    · rename_i hs
      cases h
      exact start_inv hI hs
    · cases h
  | advance c spurious =>
    cases hc : s.calls[c]? with
    | none => simp [next,advance,hc] at h
    | some call =>
      obtain ⟨call',heffect,hok⟩ := advance_effect hI hc h
      exact heffect.inv hI hok

end Effects

theorem reachable_inv [Wake W] (h : (machine W).Reachable s) : Inv s := by
  refine (machine W).invariant Inv ?_ (fun s a t => next_inv) h
  rintro s ⟨permits,hp,rfl⟩
  exact new_inv hp

end Semaphore
end Asyncband
