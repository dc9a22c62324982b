import Asyncband.SemaphoreRounds

/-! The coupling invariant of the semaphore.
`QueueOk` relates the nodes of the queue to the futures that own them, `CallOk` says
what a suspended call knows about the shared state, and `Inv` puts both together
with the permit count. -/
namespace Asyncband
namespace Semaphore

open Relation

variable {W : Type}

section Queue

variable [Wake W] {d d' : Distribution W} {acquires : List (Acquire W)}

/-- What holds of an occupied node, depending on whether it is linked. -/
def NodeOk (acquires : List (Acquire W)) (linked : Prop) (id : WaiterId) (node : WaitNode W) :
    Prop :=
  (linked → 0 < node.neededPermits) ∧
  match node.owner with
  | none => linked ∧ node.waker = none
  | some f => ∃ a, acquires[f]? = some a ∧ a.phase = .queued id ∧
      node.neededPermits ≤ a.requestedPermits ∧
      (linked → ∃ current waker, node.waker = some current ∧ a.lastWaker = some waker ∧
        (current = waker ∨ Wake.willWake current waker = true)) ∧
      (¬ linked → node.neededPermits = 0 ∧ node.waker = none)

/-- Every node is in order, and every registered future owns its node. -/
structure QueueOk (waiters : WaitList (WaitNode W)) (acquires : List (Acquire W)) : Prop where
  node : ∀ id node, waiters.get? id = some node → NodeOk acquires (id ∈ waiters.order) id node
  owned : ∀ (f : ℕ) a id, acquires[f]? = some a → a.phase = .queued id →
    ∃ node, waiters.get? id = some node ∧ node.owner = some f

namespace QueueOk

variable {waiters waiters' : WaitList (WaitNode W)} {acquires acquires' : List (Acquire W)}
variable {id : WaiterId} {node : WaitNode W} {f : ℕ} {a a' : Acquire W} {x : Option (WaitNode W)}

theorem new : QueueOk (.new : WaitList (WaitNode W)) [] where
  node := by simp [WaitList.get?_new]
  owned := by simp

section

variable (h : QueueOk waiters acquires)
include h

theorem linked_need (hn : waiters.get? id = some node) (hl : id ∈ waiters.order) :
    0 < node.neededPermits :=
  (h.node id node hn).1 hl

theorem owner_phase (hn : waiters.get? id = some node) (ho : node.owner = some f) :
    ∃ a, acquires[f]? = some a ∧ a.phase = .queued id ∧ node.neededPermits ≤ a.requestedPermits := by
  have hnode := (h.node id node hn).2
  rw [ho] at hnode
  obtain ⟨a,ha,hp,hle,-⟩ := hnode
  exact ⟨a,ha,hp,hle⟩

theorem needed_le (hf : acquires[f]? = some a) (hp : a.phase = .queued id)
    (hn : waiters.get? id = some node) : node.neededPermits ≤ a.requestedPermits := by
  obtain ⟨node',hn',ho⟩ := h.owned f a id hf hp
  rw [hn] at hn'
  cases hn'
  obtain ⟨b,hb,-,hle⟩ := h.owner_phase hn ho
  rw [hf] at hb
  cases hb
  exact hle

theorem detached_need (hn : waiters.get? id = some node) (hl : id ∉ waiters.order) :
    node.neededPermits = 0 ∧ node.waker = none := by
  have hnode := (h.node id node hn).2
  cases ho : node.owner with
  | none =>
    rw [ho] at hnode
    exact absurd hnode.1 hl
  | some f =>
    rw [ho] at hnode
    obtain ⟨a,-,-,-,-,hd⟩ := hnode
    exact hd hl

theorem waker_isSome (hn : waiters.get? id = some node) (hl : id ∈ waiters.order) :
    node.waker.isSome = node.owner.isSome := by
  have hnode := (h.node id node hn).2
  cases ho : node.owner with
  | none =>
    rw [ho] at hnode
    simp [hnode.2]
  | some f =>
    rw [ho] at hnode
    obtain ⟨a,-,-,-,hw,-⟩ := hnode
    obtain ⟨current,waker,hc,-⟩ := hw hl
    simp [hc]

/-- The waker of a linked node wakes the task of its future's latest pending poll. -/
theorem waker_latest {current : W} (hn : waiters.get? id = some node) (hl : id ∈ waiters.order)
    (ho : node.owner = some f) (hc : node.waker = some current) :
    ∃ a waker, acquires[f]? = some a ∧ a.phase = .queued id ∧ a.lastWaker = some waker ∧
      (current = waker ∨ Wake.willWake current waker = true) := by
  have hnode := (h.node id node hn).2
  rw [ho] at hnode
  obtain ⟨a,ha,hp,-,hw,-⟩ := hnode
  obtain ⟨current',waker,hc',hlast,hwake⟩ := hw hl
  have hcur : current = current' := Option.some.inj (hc.symm.trans hc')
  subst hcur
  exact ⟨a,waker,ha,hp,hlast,hwake⟩

theorem update (hg : waiters'.get? = Function.update waiters.get? id x)
    (ho : ∀ id', id' ≠ id → (id' ∈ waiters'.order ↔ id' ∈ waiters.order))
    (hkeep : ∀ (f : ℕ) a id', acquires[f]? = some a → a.phase = .queued id' → id' ≠ id →
      acquires'[f]? = some a)
    (hback : ∀ (f : ℕ) a id', acquires'[f]? = some a → a.phase = .queued id' → id' ≠ id →
      acquires[f]? = some a)
    (hnode : ∀ node, x = some node → NodeOk acquires' (id ∈ waiters'.order) id node)
    (howned : ∀ (f : ℕ) a, acquires'[f]? = some a → a.phase = .queued id →
      ∃ node, x = some node ∧ node.owner = some f) : QueueOk waiters' acquires' where
  node id' node hn := by
    by_cases hid : id' = id
    · subst hid
      rw [hg,Function.update_self] at hn
      exact hnode node hn
    · rw [hg,Function.update_of_ne hid] at hn
      obtain ⟨hpos,hrest⟩ := h.node id' node hn
      refine ⟨fun hl => hpos ((ho id' hid).mp hl),?_⟩
      cases hown : node.owner with
      | none =>
        rw [hown] at hrest
        exact ⟨(ho id' hid).mpr hrest.1,hrest.2⟩
      | some f =>
        rw [hown] at hrest
        obtain ⟨a,ha,hp,hle,hw,hd⟩ := hrest
        exact ⟨a,hkeep f a id' ha hp hid,hp,hle,fun hl => hw ((ho id' hid).mp hl),
          fun hl => hd (fun hl' => hl ((ho id' hid).mpr hl'))⟩
  owned f a id' ha hp := by
    by_cases hid : id' = id
    · subst hid
      rw [hg,Function.update_self]
      exact howned f a ha hp
    · rw [hg,Function.update_of_ne hid]
      exact h.owned f a id' (hback f a id' ha hp hid) hp

theorem setOwned (hf : acquires[f]? = some a) (hphase : ∀ id', a.phase = .queued id' → id' = id)
    (hphase' : ∀ id', a'.phase = .queued id' → id' = id)
    (hfree : ∀ node, waiters.get? id = some node → node.owner = some f)
    (hg : waiters'.get? = Function.update waiters.get? id x)
    (ho : ∀ id', id' ≠ id → (id' ∈ waiters'.order ↔ id' ∈ waiters.order))
    (hnode : ∀ node, x = some node → NodeOk (acquires.set f a') (id ∈ waiters'.order) id node)
    (howned : a'.phase = .queued id → ∃ node, x = some node ∧ node.owner = some f) :
    QueueOk waiters' (acquires.set f a') := by
  refine h.update hg ho ?_ ?_ hnode ?_
  · intro f' b id' hb hp hid
    have hne : f ≠ f' := by
      intro heq
      subst heq
      rw [hf] at hb
      cases hb
      exact hid (hphase id' hp)
    rwa [List.getElem?_set_ne hne]
  · intro f' b id' hb hp hid
    rcases Table.getElem?_set_cases hb with ⟨-,rfl⟩ | ⟨-,hb⟩
    · exact absurd (hphase' id' hp) hid
    · exact hb
  · intro f' b hb hp
    rcases Table.getElem?_set_cases hb with ⟨rfl,rfl⟩ | ⟨hne,hb⟩
    · exact howned hp
    · obtain ⟨node,hn,hown⟩ := h.owned f' b id hb hp
      rw [hfree node hn] at hown
      exact absurd (Option.some.inj hown).symm hne

theorem removeOwned (hf : acquires[f]? = some a) (hphase : a.phase = .queued id)
    (hphase' : ∀ id', a'.phase ≠ .queued id')
    (hg : waiters'.get? = Function.update waiters.get? id none)
    (ho : ∀ id', id' ≠ id → (id' ∈ waiters'.order ↔ id' ∈ waiters.order)) :
    QueueOk waiters' (acquires.set f a') := by
  refine h.setOwned hf ?_ (fun id' hp => absurd hp (hphase' id')) ?_ hg ho nofun
    (fun hp => absurd hp (hphase' id))
  · intro id' hp
    rw [hphase] at hp
    cases hp
    rfl
  · intro node hn
    obtain ⟨node',hn',ho'⟩ := h.owned f a id hf hphase
    rw [hn] at hn'
    cases hn'
    exact ho'

/-- Futures that do not wait may change freely, those that wait in their borrow only. -/
theorem congr (hkeep : ∀ (f : ℕ) a id, acquires[f]? = some a → a.phase = .queued id →
      ∃ busy, acquires'[f]? = some {a with busy := busy})
    (hback : ∀ (f : ℕ) a id, acquires'[f]? = some a → a.phase = .queued id →
      ∃ busy, acquires[f]? = some {a with busy := busy}) : QueueOk waiters acquires' where
  node id node hn := by
    obtain ⟨hpos,hrest⟩ := h.node id node hn
    refine ⟨hpos,?_⟩
    cases hown : node.owner with
    | none =>
      rw [hown] at hrest
      exact hrest
    | some f =>
      rw [hown] at hrest
      obtain ⟨a,ha,hp,hle,hw,hd⟩ := hrest
      obtain ⟨busy,ha'⟩ := hkeep f a id ha hp
      exact ⟨{a with busy := busy},ha',hp,hle,hw,hd⟩
  owned f a id ha hp := by
    obtain ⟨busy,ha'⟩ := hback f a id ha hp
    exact h.owned f _ id ha' hp

end

end QueueOk

theorem Assign.queueOk (h : Assign d d') (hq : QueueOk d.waiters acquires) :
    QueueOk d'.waiters acquires := by
  cases h with
  | @grant id ids node waker waiters ho hn hw hr ho' hg' =>
    have hid := detached_not_mem ho ho'
    have hown : ∃ f, node.owner = some f := by
      have hsome := hq.waker_isSome hn (by simp [ho])
      rw [hw] at hsome
      exact Option.isSome_iff_exists.mp hsome.symm
    obtain ⟨f,hf⟩ := hown
    obtain ⟨a,ha,hp,hle⟩ := hq.owner_phase hn hf
    refine hq.update hg' ?_ (fun f a _ ha _ _ => ha) (fun f a _ ha _ _ => ha) ?_ ?_
    · intro id' hne
      simp [ho,ho',hne]
    · intro node' hnode'
      cases hnode'
      refine ⟨fun hl => absurd hl hid,?_⟩
      simp only [hf]
      exact ⟨a,ha,hp,Nat.zero_le _,fun hl => absurd hl hid,by simp⟩
    · intro f' a' ha' hp'
      obtain ⟨node',hn',ho'⟩ := hq.owned f' a' id ha' hp'
      rw [hn] at hn'
      cases hn'
      exact ⟨_,rfl,ho'⟩
  | @repay id ids node waiters ho hn hw hr ho' hg' =>
    have hown : node.owner = none := by
      have hsome := hq.waker_isSome hn (by simp [ho])
      rw [hw] at hsome
      exact Option.isNone_iff_eq_none.mp (by simpa using hsome.symm)
    refine hq.update hg' ?_ (fun f a _ ha _ _ => ha) (fun f a _ ha _ _ => ha) (by simp) ?_
    · intro id' hne
      simp [ho,ho',hne]
    · intro f' a' ha' hp'
      obtain ⟨node',hn',ho'⟩ := hq.owned f' a' id ha' hp'
      rw [hn] at hn'
      cases hn'
      simp [hown] at ho'
  | @part id ids node waiters ho hn hr ho' hg' =>
    have hl : id ∈ waiters.order := by simp [ho']
    refine hq.update hg' ?_ (fun f a _ ha _ _ => ha) (fun f a _ ha _ _ => ha) ?_ ?_
    · intro id' _
      rw [ho,ho']
    · intro node' hnode'
      cases hnode'
      obtain ⟨-,hrest⟩ := hq.node id node hn
      have hpos : 0 < node.neededPermits-d.remaining := by omega
      refine ⟨fun _ => hpos,?_⟩
      cases hown : node.owner with
      | none =>
        rw [hown] at hrest
        exact ⟨hl,hrest.2⟩
      | some f =>
        rw [hown] at hrest
        obtain ⟨a,ha,hp,hle,hw,-⟩ := hrest
        exact ⟨a,ha,hp,(Nat.sub_le _ _).trans hle,fun _ => hw (by simp [ho]),
          fun hnl => absurd hl hnl⟩
    · intro f' a' ha' hp'
      obtain ⟨node',hn',ho'⟩ := hq.owned f' a' id ha' hp'
      rw [hn] at hn'
      cases hn'
      exact ⟨_,rfl,ho'⟩

theorem Notify.queueOk (h : Notify d d') (hq : QueueOk d.waiters acquires) :
    QueueOk d'.waiters acquires := by
  -- to the queue, a notified waiter looks like one whose whole need was assigned
  cases h with
  | @grant id ids node waker waiters ho hn hw ho' hg' =>
    have hround : Assign ⟨d.waiters,node.neededPermits,d.batch,d.granted⟩ _ :=
      .grant ho hn hw le_rfl ho' hg'
    exact hround.queueOk hq
  | @forgive id ids node waiters ho hn hw ho' hg' =>
    have hround : Assign ⟨d.waiters,node.neededPermits,d.batch,d.granted⟩ _ :=
      .repay ho hn hw le_rfl ho' hg'
    exact hround.queueOk hq

theorem QueueOk.assign (hq : QueueOk d.waiters acquires) (h : ReflTransGen Assign d d') :
    QueueOk d'.waiters acquires := by
  induction h with
  | refl => exact hq
  | tail _ hround ih => exact hround.queueOk ih

theorem QueueOk.notify (hq : QueueOk d.waiters acquires) (h : ReflTransGen Notify d d') :
    QueueOk d'.waiters acquires := by
  induction h with
  | refl => exact hq
  | tail _ hround ih => exact hround.queueOk ih

theorem Assign.batch_le (h : ReflTransGen Assign d d') (hq : QueueOk d.waiters acquires) :
    d'.batch.length+d'.remaining ≤ d.batch.length+d.remaining := by
  induction h with
  | refl => exact le_rfl
  | tail hrounds hround ih =>
    have hqueue := hq.assign hrounds
    cases hround with
    | @grant id ids node waker waiters ho hn hw hr ho' hg' =>
      have hpos := hqueue.linked_need hn (by rw [ho]; exact List.mem_cons_self ..)
      simp only [List.length_append,List.length_singleton]
      omega
    | repay | part =>
      simp only
      omega

end Queue

/-- The uses of a call that show in the books, apart from releases. -/
inductive Intent
  | poll (f : ℕ) | tryAcquire (n : ℕ) | drain | reduce (n : ℕ) | notify | releaseIfWaiters | other
  deriving DecidableEq

def Op.intent : Op W → Intent
  | .tryAcquire n => .tryAcquire n
  | .drainPermits _ => .drain
  | .reducePermits n => .reduce n
  | .releaseIfWaiters _ => .releaseIfWaiters
  | .notifyAll => .notify
  | .poll f _ => .poll f
  | .release _ | .releaseWithLock _ | .drop _ => .other

/-- The permits that a call with this intent is to take out of circulation. -/
def Intent.reduction : Intent → ℕ
  | .reduce n => n
  | _ => 0

namespace Call

/-- The permits in the local `remaining` of a running `distribute_permits`. -/
def remaining : Call W → ℕ
  | .surplusLoad r _ | .surplusAdd r _ | .surplusExchange r _ _ | .surplusContended r _ _
  | .wakeAll _ r | .relock r | .panicked _ r => r
  | _ => 0

/-- The permits that a `release` has been given and not yet brought anywhere. -/
def argument : Call W → ℕ
  | .started (.release n) | .started (.releaseWithLock n) | .release n _ | .releaseExchange n _
  | .releaseLock n => n
  | _ => 0

def batch : Call W → List W
  | .surplusLoad _ b | .surplusAdd _ b | .surplusExchange _ _ b | .surplusContended _ _ b
  | .surplusSettled b | .wakeAll b _ => b
  | _ => []

/-- What the call may still come to do with permits, other than releasing them. -/
def intent : Call W → Intent
  | .started op => op.intent
  | .tryAcquire n _ => .tryAcquire n
  | .drainPermits _ _ => .drain
  | .acquiredOrEnqueue n _ none _ => .reduce n
  | .acquiredOrEnqueue _ _ (some (f,_)) _ => .poll f
  | _ => .other

/-- The count that a release has loaded and is about to add to. -/
def loaded : Call W → Option ℕ
  | .release _ a | .releaseExchange _ a | .surplusExchange _ a _ | .surplusContended _ a _ => some a
  | _ => none

/-- The call goes on or returns, without having acquired anything. -/
def quiet : Call W → Bool
  | .started _ | .finished .acquired | .panicked _ _ => false
  | .finished (.drained n) => n = 0
  | _ => true

/-- The call wakes a batch, is about to add a surplus, or has returned. -/
def calm : Call W → Bool
  | .surplusLoad _ _ | .surplusSettled _ | .wakeAll _ _ | .finished .returned => true
  | _ => false

theorem calm_spec {call : Call W} (h : call.calm = true) :
    call.argument = 0 ∧ call.intent = .other ∧ call.loaded = none ∧ call.quiet = true := by
  cases call with
  | finished outcome => cases outcome <;> first | exact ⟨rfl,rfl,rfl,rfl⟩ | cases h
  | _ => first | exact ⟨rfl,rfl,rfl,rfl⟩ | cases h

@[simp] theorem remaining_finished (o : Outcome) : (finished o : Call W).remaining = 0 := rfl
@[simp] theorem remaining_wakeAll (b : List W) (r : ℕ) : (wakeAll b r).remaining = r := rfl
@[simp] theorem remaining_panicked (m : String) (r : ℕ) : (panicked m r : Call W).remaining = r := rfl
@[simp] theorem argument_finished (o : Outcome) : (finished o : Call W).argument = 0 := rfl
@[simp] theorem argument_panicked (m : String) (r : ℕ) : (panicked m r : Call W).argument = 0 := rfl

end Call

/-- What a suspended call knows about the shared state. -/
def CallOk (s : State W) (c : ℕ) : Call W → Prop
  | .started (.release n) | .started (.releaseWithLock n) | .started (.releaseIfWaiters n)
  | .releaseLock n | .relock n | .wakeAll _ n => n ≤ usizeMax
  | .started (.poll f _) => ∃ a, s.acquires[f]? = some a ∧ a.busy = some c ∧
      a.phase ≠ .ready ∧ a.phase ≠ .dropped
  | .started (.drop f) => ∃ a, s.acquires[f]? = some a ∧ a.busy = some c ∧ a.phase ≠ .dropped
  | .acquiredOrEnqueue requested _ owner lock => (lock = true → s.lock = some c) ∧
      ∀ f w, owner = some (f,w) → ∃ a, s.acquires[f]? = some a ∧ a.busy = some c ∧
        a.phase = .unpolled ∧ a.requestedPermits = requested
  | .release n available | .releaseExchange n available => n ≤ usizeMax ∧ available ≠ 0
  | .surplusLoad r _ | .surplusExchange r _ _ | .surplusContended r _ _ =>
      r ≤ usizeMax ∧ s.lock = some c ∧ s.waiters.order = []
  | .surplusAdd r _ =>
      r ≤ usizeMax ∧ s.lock = some c ∧ s.waiters.order = [] ∧ s.available = 0
  | .surplusSettled _ => s.lock = some c
  | .panicked message _ =>
      ∃ n available, message = overflowMessage n available ∧ usizeMax < available+n
  | _ => True

/-- Between two calls nothing is shared but the count, the lock and the queue: a
step of `c` changes no future borrowed elsewhere, and while another call holds the
lock it leaves the queue alone and cannot raise the count from zero. -/
structure Frame (s : State W) (c : ℕ) (s' : State W) : Prop where
  lock : ∀ c', c' ≠ c → s.lock = some c' → s'.lock = some c' ∧ s'.waiters = s.waiters ∧
    (s.available = 0 → s'.available = 0)
  acquires : ∀ c' (f : ℕ) a, c' ≠ c → s.acquires[f]? = some a → a.busy = some c' →
    s'.acquires[f]? = some a

theorem CallOk.frame {s s' : State W} {c c' : ℕ} {call : Call W} (h : CallOk s c' call)
    (hne : c' ≠ c) (hf : Frame s c s') : CallOk s' c' call := by
  cases call with
  | started op =>
    cases op with
    | poll f | drop f =>
      obtain ⟨a,ha,hb,hp⟩ := h
      exact ⟨a,hf.acquires c' f a hne ha hb,hb,hp⟩
    | _ => exact h
  | acquiredOrEnqueue requested available owner lock =>
    obtain ⟨hl,how⟩ := h
    refine ⟨fun hlock => (hf.lock c' hne (hl hlock)).1,fun f w hfw => ?_⟩
    obtain ⟨a,ha,hb,hp⟩ := how f w hfw
    exact ⟨a,hf.acquires c' f a hne ha hb,hb,hp⟩
  | surplusLoad | surplusExchange | surplusContended =>
    obtain ⟨hr,hl,ho⟩ := h
    obtain ⟨hl',hw,-⟩ := hf.lock c' hne hl
    exact ⟨hr,hl',by rw [hw,ho]⟩
  | surplusAdd r b =>
    obtain ⟨hr,hl,ho,hz⟩ := h
    obtain ⟨hl',hw,ha⟩ := hf.lock c' hne hl
    exact ⟨hr,hl',by rw [hw,ho],ha hz⟩
  | surplusSettled b => exact (hf.lock c' hne h).1
  | _ => exact h

/-- The invariant of every reachable state. -/
structure Inv [Wake W] (s : State W) : Prop where
  bound : s.available ≤ usizeMax
  /-- A non-zero count means that nobody waits. -/
  coupled : s.available ≠ 0 → s.waiters.order = []
  queue : QueueOk s.waiters s.acquires
  requested : ∀ a ∈ s.acquires, a.requestedPermits ≤ usizeMax
  calls : ∀ (c : ℕ) call, s.calls[c]? = some call → CallOk s c call

end Semaphore
end Asyncband
