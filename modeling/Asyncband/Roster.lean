import Asyncband.Registry
import Asyncband.Semaphore

/-! Waiter registrations of the value queues.
The multi-consumer queues keep one waiter list per direction. A waiter holds the
waker of its task while it is linked and only a mark once it was selected, and the
future that registered it keeps the bare node id. The functions below are the list
methods those queues share; `Roster` says that ids and nodes match one to one. -/
namespace Asyncband

/-- `notified` is the state `Granted` of an MPMC send waiter. -/
inductive Waiter (W : Type)
  | waiting (waker : W)
  | notified
  deriving DecidableEq

structure Registration (W : Type) where
  waiter : Waiter W
  /-- Ghost: the future that registered the waiter. -/
  owner : ℕ

abbrev Waiters (W : Type) := WaitList (Registration W)

namespace Waiters

variable {W : Type}

/-- The selected waker comes with the owner of its waiter, which is ghost. -/
def notifyOne (w : Waiters W) : Except String (Option (ℕ × W) × Waiters W) :=
  match w.unlinkFirstWaiter fun r => (true,r) with
  | (none,w) => .ok (none,w)
  | (some (id,r),w) =>
    match r.waiter with
    | .waiting waker => do
      let w ← w.setWaiter id {r with waiter := .notified}
      .ok (some (r.owner,waker),w)
    | .notified => .error "only waiting operations remain linked"

def takeWaitingWaker (w : Waiters W) : Except String (Option (ℕ × W) × Waiters W) :=
  match w.unlinkFirstWaiter fun r => (true,r) with
  | (none,w) => .ok (none,w)
  | (some (id,_),w) => do
    let (r,w) ← w.removeUnlinkedWaiter id
    match r.waiter with
    | .waiting waker => .ok (some (r.owner,waker),w)
    | .notified => .error "only waiting operations remain linked"

/-- The replacement of a queued waker by `current`, unless both wake the same task. -/
def refresh [Wake W] (w : Waiters W) (id : WaiterId) (r : Registration W) (waker current : W) :
    Except String (WaiterId × Waiters W) :=
  if Wake.willWake waker current then .ok (id,w)
  else do
    let w ← w.setWaiter id {r with waiter := .waiting current}
    .ok (id,w)

/-- `register`: a waiter that was notified for nothing rejoins the queue at its end. -/
def register [Wake W] (w : Waiters W) (owner : ℕ) (id : Option WaiterId) (current : W) :
    Except String (WaiterId × Waiters W) :=
  match id with
  | none => .ok (w.pushBack ⟨.waiting current,owner⟩)
  | some queued => do
    let r ← w.waiterMut queued
    match r.waiter with
    | .waiting waker => w.refresh queued r waker current
    | .notified => do
      let (_,w) ← w.removeWaiter queued
      .ok (w.pushBack ⟨.waiting current,owner⟩)

/-- `register_waiter`: a waiter that owns a grant never registers again. -/
def registerWaiter [Wake W] (w : Waiters W) (owner : ℕ) (id : Option WaiterId) (current : W) :
    Except String (WaiterId × Waiters W) :=
  match id with
  | none => .ok (w.pushBack ⟨.waiting current,owner⟩)
  | some queued => do
    let r ← w.waiterMut queued
    match r.waiter with
    | .waiting waker => w.refresh queued r waker current
    | .notified => .error "a granted waiter must be claimed before registration"

/-- `while let Some(waker) = take() { waker.wake() }`, on storage that was moved out of
the queue. The result lists the wakers in the order of the calls. -/
def drain (take : Waiters W → Except String (Option (ℕ × W) × Waiters W)) :
    ℕ → Waiters W → Except String (List W)
  | 0, _ => .ok []
  | fuel+1, w => do
    match ← take w with
    | (none,_) => .ok []
    | (some (_,waker),w) => do
      let wakers ← drain take fuel w
      .ok (waker::wakers)

def owners (w : Waiters W) : List ℕ :=
  w.order.filterMap fun id => (w.get? id).map Registration.owner

theorem owners_eq (w : Waiters W) : w.owners = w.queue.map Registration.owner := by
  rw [owners,WaitList.queue,List.map_filterMap]

def wakers (w : Waiters W) : List W :=
  w.order.filterMap fun id => (w.get? id).bind fun r =>
    match r.waiter with
    | .waiting waker => some waker
    | .notified => none

end Waiters

namespace Waiters

variable {W : Type} {w w' : Waiters W} {id : WaiterId} {ids : List WaiterId} {f : ℕ} {waker : W}

theorem notifyOne_nil (h : w.order = []) : w.notifyOne = .ok (none,w) := by
  rw [notifyOne,WaitList.unlinkFirstWaiter_nil h]

theorem notifyOne_cons (h : w.order = id::ids) (hr : w.get? id = some ⟨.waiting waker,f⟩) :
    ∃ w', w.notifyOne = .ok (some (f,waker),w') ∧ w'.order = ids ∧
      w'.get? = Function.update w.get? id (some ⟨.notified,f⟩) := by
  obtain ⟨u,hu,hou,hgu⟩ := WaitList.unlinkFirstWaiter_cons h hr fun r => (true,r)
  have hid : u.get? id = some ⟨.waiting waker,f⟩ := by rw [hgu,Function.update_self]
  obtain ⟨w',hw,how,hgw⟩ := WaitList.setWaiter_spec hid ⟨.notified,f⟩
  refine ⟨w',?_,how.trans hou,by rw [hgw,hgu,Function.update_idem]⟩
  rw [notifyOne,hu]
  show (do let w ← u.setWaiter id ⟨.notified,f⟩; Except.ok (some (f,waker),w)) = _
  rw [hw]
  rfl

theorem takeWaitingWaker_nil (h : w.order = []) : w.takeWaitingWaker = .ok (none,w) := by
  rw [takeWaitingWaker,WaitList.unlinkFirstWaiter_nil h]

theorem takeWaitingWaker_cons (h : w.order = id::ids) (hr : w.get? id = some ⟨.waiting waker,f⟩) :
    ∃ w', w.takeWaitingWaker = .ok (some (f,waker),w') ∧ w'.order = ids ∧
      w'.get? = Function.update w.get? id none := by
  obtain ⟨u,hu,hou,hgu⟩ := WaitList.unlinkFirstWaiter_cons h hr fun r => (true,r)
  have hid : u.get? id = some ⟨.waiting waker,f⟩ := by rw [hgu,Function.update_self]
  have hnot : id ∉ u.order := by
    have hnd := w.order_nodup
    rw [h] at hnd
    rw [hou]
    exact (List.nodup_cons.mp hnd).1
  obtain ⟨w',hw,how,hgw⟩ := WaitList.removeUnlinkedWaiter_spec hid hnot
  refine ⟨w',?_,how.trans hou,by rw [hgw,hgu,Function.update_idem]⟩
  rw [takeWaitingWaker,hu]
  show (do
    let (r,w) ← u.removeUnlinkedWaiter id
    match r.waiter with
    | .waiting waker => Except.ok (some (r.owner,waker),w)
    | .notified => .error "only waiting operations remain linked") = _
  rw [hw]
  rfl

theorem mem_wakers (hid : id ∈ w.order) (hr : w.get? id = some ⟨.waiting waker,f⟩) :
    waker ∈ w.wakers :=
  List.mem_filterMap.mpr ⟨id,hid,by rw [hr]; rfl⟩

/-- Emptying a queue of waiting operations yields all their wakers, in order. -/
theorem drain_eq {take : Waiters W → Except String (Option (ℕ × W) × Waiters W)}
    (hnil : ∀ w, w.order = [] → take w = .ok (none,w))
    (hcons : ∀ w id ids waker f, w.order = id::ids → w.get? id = some ⟨.waiting waker,f⟩ →
      ∃ x w', take w = .ok (some (f,waker),w') ∧ w'.order = ids ∧
        w'.get? = Function.update w.get? id x)
    (hall : ∀ id ∈ w.order, ∃ waker f, w.get? id = some ⟨.waiting waker,f⟩)
    (fuel : ℕ) (hfuel : w.order.length ≤ fuel) : drain take fuel w = .ok w.wakers := by
  induction fuel generalizing w with
  | zero =>
    have ho : w.order = [] := List.eq_nil_of_length_eq_zero (Nat.le_zero.mp hfuel)
    rw [wakers,ho]
    rfl
  | succ fuel ih =>
    cases ho : w.order with
    | nil =>
      rw [drain,hnil w ho,wakers,ho]
      rfl
    | cons id ids =>
      obtain ⟨waker,f,hr⟩ := hall id (by simp [ho])
      obtain ⟨x,w',htake,ho',hg'⟩ := hcons w id ids waker f ho hr
      have hnd := w.order_nodup
      rw [ho] at hnd
      have hsame : ∀ i ∈ ids, w'.get? i = w.get? i := by
        intro i hi
        rw [hg',Function.update_of_ne]
        rintro rfl
        exact (List.nodup_cons.mp hnd).1 hi
      have hrest : drain take fuel w' = .ok w'.wakers := by
        apply ih
        · intro i hi
          rw [ho'] at hi
          rw [hsame i hi]
          exact hall i (by simp [ho,hi])
        · rw [ho,List.length_cons] at hfuel
          rw [ho']
          omega
      have hw : w.wakers = waker::w'.wakers := by
        rw [wakers,wakers,ho,ho',List.filterMap_cons,hr]
        simp only [Option.bind_some]
        congr 1
        exact List.filterMap_congr fun i hi => by rw [hsame i hi]
      rw [drain,htake,hw]
      show (do let wakers ← drain take fuel w'; Except.ok (waker::wakers)) = _
      rw [hrest]
      rfl

end Waiters

namespace Waiter

variable {W : Type}

def mark : Waiter W → ℕ
  | .waiting _ => 0
  | .notified => 1

def Linked (v : Waiter W) : Prop := ∃ waker, v = .waiting waker

theorem not_linked {v : Waiter W} : ¬ v.Linked ↔ v = .notified := by
  cases v <;> simp [Linked]

end Waiter

/-- Waiters that were selected and not yet removed. -/
def Waiters.notified {W : Type} (w : Waiters W) : ℕ := w.total fun r => r.waiter.mark

/-- A waker that a future left behind reaches the task of its latest pending poll. -/
def Reaches {W : Type} [Wake W] (waker : W) (latest : Option W) : Prop :=
  ∃ current, latest = some current ∧ (waker = current ∨ Wake.willWake waker current = true)

theorem registerWaker_reaches {W : Type} [Wake W] (slot : Option W) (waker : W) :
    ∃ kept, registerWaker slot waker = some kept ∧ Reaches kept (some waker) := by
  cases slot with
  | none => exact ⟨waker,rfl,waker,rfl,Or.inl rfl⟩
  | some current =>
    by_cases hwake : Wake.willWake current waker = true
    · exact ⟨current,by rw [registerWaker,if_pos hwake],waker,rfl,Or.inr hwake⟩
    · exact ⟨waker,by rw [registerWaker,if_neg hwake],waker,rfl,Or.inl rfl⟩

/-- The waker that stands for a waiter: its own while it is linked, one that was
handed out to be woken afterwards. -/
def Served {W : Type} [Wake W] (woken : List W) (latest : Option W) : Waiter W → Prop
  | .waiting waker => Reaches waker latest
  | .notified => ∃ waker ∈ woken, Reaches waker latest

/-- Futures (`slot`: the ids they hold, `last`: the wakers of their latest pending polls)
and nodes match. -/
abbrev Roster {W : Type} [Wake W] (w : Waiters W) (slot : ℕ → Option WaiterId)
    (last : ℕ → Option W) (woken : List W) : Prop :=
  Registry Registration.owner (fun r => r.waiter.Linked)
    (fun f r => Served woken (last f) r.waiter) w slot

namespace Roster

variable {W : Type} [Wake W] {w w' : Waiters W} {slot : ℕ → Option WaiterId}
  {last : ℕ → Option W} {woken woken' : List W} {f : ℕ} {id : WaiterId}
variable {latest : Option W} {v : Waiter W} {r : Registration W} {waker : W}

theorem served_mono (h : Served woken latest v) (hw : woken ⊆ woken') : Served woken' latest v := by
  cases v with
  | waiting waker => exact h
  | notified =>
    obtain ⟨waker,hm,hr⟩ := h
    exact ⟨waker,hw hm,hr⟩

section

variable (h : Roster w slot last woken)
include h

theorem mono (hw : woken ⊆ woken') : Roster w slot last woken' :=
  ⟨h.held,h.owned,h.linked,fun id r hr => served_mono (h.fits id r hr) hw⟩

theorem existsUnique_owner (hr : w.get? id = some r) : ∃! f, slot f = some id :=
  ⟨r.owner,h.owned id r hr,fun _ hf => (h.owner_eq hr hf).symm⟩

/-- One node is written for its owner, or a new one for a future without a waiter. -/
theorem write (hf : slot f = some id ∨ slot f = none ∧ w.get? id = none)
    (hget : w'.get? = Function.update w.get? id (some ⟨v,f⟩))
    (horder : ∀ id', id' ≠ id → (id' ∈ w'.order ↔ id' ∈ w.order)) (hlinked : id ∈ w'.order ↔ v.Linked)
    (hserved : Served woken' latest v) (hw : woken ⊆ woken') :
    Roster w' (Function.update slot f (some id)) (Function.update last f latest) woken' := by
  apply Registry.write h _ hf rfl hget horder hlinked
  · rw [Function.update_self]
    exact hserved
  · intro g r hg hr
    rw [Function.update_of_ne hg]
    exact served_mono hr hw

theorem linked_waiting (hid : id ∈ w.order) : ∃ waker f, w.get? id = some ⟨.waiting waker,f⟩ := by
  obtain ⟨⟨v,f⟩,hr⟩ := WaitList.get?_of_mem_order hid
  obtain ⟨waker,rfl⟩ := (h.linked id _ hr).mp hid
  exact ⟨waker,f,hr⟩

/-- The loops that run after a disconnection wake every linked waiter and nobody else. -/
theorem drain_notifyOne : Waiters.drain Waiters.notifyOne (w.order.length+1) w = .ok w.wakers := by
  apply Waiters.drain_eq (fun _ => Waiters.notifyOne_nil)
  · intro w id ids waker f ho hr
    exact ⟨_,Waiters.notifyOne_cons ho hr⟩
  · exact fun _ => h.linked_waiting
  · exact Nat.le_succ _

theorem drain_takeWaitingWaker :
    Waiters.drain Waiters.takeWaitingWaker (w.order.length+1) w = .ok w.wakers := by
  apply Waiters.drain_eq (fun _ => Waiters.takeWaitingWaker_nil)
  · intro w id ids waker f ho hr
    exact ⟨_,Waiters.takeWaitingWaker_cons ho hr⟩
  · exact fun _ => h.linked_waiting
  · exact Nat.le_succ _

theorem select {ids : List WaiterId} (ho : w.order = id::ids)
    (hr : w.get? id = some ⟨.waiting waker,f⟩) (ho' : w'.order = ids)
    (hg : w'.get? = Function.update w.get? id (some ⟨.notified,f⟩)) :
    w.owners = f::w'.owners ∧ w'.notified = w.notified+1 ∧ Roster w' slot last (woken++[waker]) := by
  have hnd := w.order_nodup
  rw [ho] at hnd
  have hslot : slot f = some id := h.owned id _ hr
  refine ⟨?_,?_,?_⟩
  · rw [Waiters.owners_eq,Waiters.owners_eq,WaitList.queue_cons ho hr ho' hg,List.map_cons]
  · have ht := WaitList.total_update hg fun r => r.waiter.mark
    rw [hr] at ht
    exact ht
  · have hwrite : Roster w' (Function.update slot f (some id)) (Function.update last f (last f))
        (woken++[waker]) := by
      apply h.write (Or.inl hslot) hg
      · intro i hi
        rw [ho,ho',List.mem_cons,or_iff_right hi]
      · rw [ho']
        exact iff_of_false (List.nodup_cons.mp hnd).1 (Waiter.not_linked.mpr rfl)
      · exact ⟨waker,by simp,h.fits id _ hr⟩
      · exact List.subset_append_left _ _
    rwa [Function.update_eq_self,← hslot,Function.update_eq_self] at hwrite

theorem notifyOne :
    w.order = [] ∧ w.notifyOne = .ok (none,w) ∨
    ∃ id f waker w', w.notifyOne = .ok (some (f,waker),w') ∧ w.order = id::w'.order ∧
      w.owners = f::w'.owners ∧ w'.notified = w.notified+1 ∧
      Roster w' slot last (woken++[waker]) := by
  cases ho : w.order with
  | nil => exact Or.inl ⟨rfl,Waiters.notifyOne_nil ho⟩
  | cons id ids =>
    obtain ⟨waker,f,hr⟩ := h.linked_waiting (show id ∈ w.order by simp [ho])
    obtain ⟨w',hn,ho',hg'⟩ := Waiters.notifyOne_cons ho hr
    exact Or.inr ⟨id,f,waker,w',hn,by rw [ho'],h.select ho hr ho' hg'⟩

theorem selectFirst (take : Registration W → Except String ((ℕ × W) × Registration W))
    (htake : ∀ waker f, take ⟨.waiting waker,f⟩ = .ok ((f,waker),⟨.notified,f⟩)) :
    w.order = [] ∧ w.selectFirst (fun r => r) take = .ok (none,w) ∨
    ∃ id f waker, ∃ w' : Waiters W, w.selectFirst (fun r => r) take = .ok (some (f,waker),w') ∧
      w.get? id = some ⟨.waiting waker,f⟩ ∧
      w'.get? = Function.update w.get? id (some ⟨.notified,f⟩) ∧ w.owners = f::w'.owners ∧
      w'.notified = w.notified+1 ∧ Roster w' slot last (woken++[waker]) := by
  cases ho : w.order with
  | nil => exact Or.inl ⟨rfl,WaitList.selectFirst_nil ho _ _⟩
  | cons id ids =>
    obtain ⟨waker,f,hr⟩ := h.linked_waiting (show id ∈ w.order by simp [ho])
    obtain ⟨w',hn,ho',hg'⟩ := WaitList.selectFirst_cons ho hr (fun r => r) (htake waker f)
    exact Or.inr ⟨id,f,waker,w',hn,hr,hg',h.select ho hr ho' hg'⟩

theorem mem_owners (hf : slot f = some id) : f ∈ w.owners ↔ id ∈ w.order := by
  obtain ⟨r,hr,ho⟩ := h.held f id hf
  rw [Waiters.owners,List.mem_filterMap]
  constructor
  · rintro ⟨i,hi,hm⟩
    obtain ⟨r',hr',ho'⟩ := Option.map_eq_some_iff.mp hm
    have hs := h.owned i r' hr'
    rw [ho',hf] at hs
    cases hs
    exact hi
  · intro hid
    exact ⟨id,hid,by rw [hr,← ho]; rfl⟩

theorem removeWaiter (hf : slot f = some id) :
    ∃ (r : Registration W) (w' : Waiters W), w.get? id = some r ∧ r.owner = f ∧
      w.removeWaiter id = .ok (r,w') ∧ w'.order = w.order.erase id ∧ w'.get? = Function.update w.get? id none ∧
      w'.owners = w.owners.filter (· ≠ f) ∧ w'.notified + r.waiter.mark = w.notified ∧
      Roster w' (Function.update slot f none) last woken := by
  obtain ⟨r,w',hr,ho,hrem,ho',howners,hg',hreg⟩ :=
    Registry.removeWaiter h _ hf fun _ _ _ hr => hr
  refine ⟨r,w',hr,ho,hrem,ho',hg',?_,?_,hreg⟩
  · rw [Waiters.owners_eq,Waiters.owners_eq]
    exact howners
  · have ht := WaitList.total_update hg' fun r => r.waiter.mark
    rw [hr] at ht
    exact ht

/-- A selected waiter, which is in the queue no more, is removed by its owner. -/
theorem removeSelected (hr : w.get? id = some ⟨.notified,f⟩) :
    ∃ w' : Waiters W, w.removeUnlinkedWaiter id = .ok (⟨.notified,f⟩,w') ∧ w'.order = w.order ∧
      w'.get? = Function.update w.get? id none ∧ w'.owners = w.owners ∧
      w'.notified+1 = w.notified ∧
      Roster w' (Function.update slot f none) last woken := by
  obtain ⟨w',hrem,ho,hqueue,hg,hreg⟩ :=
    h.removeUnlinked _ hr (Waiter.not_linked.mpr rfl) fun _ _ _ hr => hr
  refine ⟨w',hrem,ho,hg,?_,?_,hreg⟩
  · rw [Waiters.owners_eq,Waiters.owners_eq]
    exact congrArg (List.map Registration.owner) hqueue
  · have ht := WaitList.total_update hg fun r => r.waiter.mark
    rw [hr] at ht
    exact ht

theorem pushBack (hf : slot f = none) (waker : W) :
    ∃ (id : WaiterId) (w' : Waiters W), w.pushBack ⟨.waiting waker,f⟩ = (id,w') ∧
      w.get? id = none ∧ w'.get? = Function.update w.get? id (some ⟨.waiting waker,f⟩) ∧
      w'.owners = w.owners++[f] ∧ w'.notified = w.notified ∧
      Roster w' (Function.update slot f (some id)) (Function.update last f (some waker)) woken := by
  obtain ⟨id,w',hp,hn,ho',hg'⟩ := w.pushBack_spec ⟨.waiting waker,f⟩
  refine ⟨id,w',hp,hn,hg',?_,?_,?_⟩
  · rw [Waiters.owners_eq,Waiters.owners_eq,WaitList.queue_push hn ho' hg',List.map_append,
      List.map_singleton]
  · have ht := WaitList.total_update hg' fun r => r.waiter.mark
    rw [hn] at ht
    exact ht
  · apply h.write (Or.inr ⟨hf,hn⟩) hg'
    · intro i hi
      simp [ho',hi]
    · exact iff_of_true (by simp [ho']) ⟨waker,rfl⟩
    · exact ⟨waker,rfl,Or.inl rfl⟩
    · exact List.Subset.refl _

/-- A linked waiter takes over the waker of a new pending poll and keeps its place. -/
theorem refresh (hr : w.get? id = some ⟨.waiting waker,f⟩) (current : W) :
    ∃ w', w.refresh id ⟨.waiting waker,f⟩ waker current = .ok (id,w') ∧ w'.order = w.order ∧
      (∀ i, i ≠ id → w'.get? i = w.get? i) ∧ w'.owners = w.owners ∧ w'.notified = w.notified ∧
      Roster w' slot (Function.update last f (some current)) woken := by
  have hslot : slot f = some id := h.owned id _ hr
  have hlinked : id ∈ w.order := (h.linked id _ hr).mpr ⟨waker,rfl⟩
  -- whichever waker stays in the node, nothing else about the queue changes
  have hkeep : ∀ (w' : Waiters W) kept, w'.order = w.order →
      w'.get? = Function.update w.get? id (some ⟨.waiting kept,f⟩) → Reaches kept (some current) →
      w'.order = w.order ∧ (∀ i, i ≠ id → w'.get? i = w.get? i) ∧ w'.owners = w.owners ∧ w'.notified = w.notified ∧
        Roster w' slot (Function.update last f (some current)) woken := by
    intro w' kept ho hg hreach
    refine ⟨ho,fun i hi => by rw [hg,Function.update_of_ne hi],?_,?_,?_⟩
    · rw [Waiters.owners,Waiters.owners,ho]
      refine List.filterMap_congr fun i hi => ?_
      by_cases hi' : i = id
      · subst hi'
        simp [hg,hr]
      · rw [hg,Function.update_of_ne hi']
    · have ht := WaitList.total_update hg fun r => r.waiter.mark
      rw [hr] at ht
      exact ht
    · have hwrite : Roster w' (Function.update slot f (some id))
          (Function.update last f (some current)) woken := by
        apply h.write (Or.inl hslot) hg
        · intro i hi
          rw [ho]
        · rw [ho]
          exact iff_of_true hlinked ⟨kept,rfl⟩
        · exact hreach
        · exact List.Subset.refl _
      rwa [← hslot,Function.update_eq_self] at hwrite
  by_cases hwake : Wake.willWake waker current = true
  · have hsame : w.get? = Function.update w.get? id (some ⟨.waiting waker,f⟩) := by
      rw [← hr,Function.update_eq_self]
    refine ⟨w,by rw [Waiters.refresh,if_pos hwake],?_⟩
    exact hkeep w waker rfl hsame ⟨current,rfl,Or.inr hwake⟩
  · obtain ⟨w',hw,ho,hg⟩ := WaitList.setWaiter_spec hr ⟨.waiting current,f⟩
    refine ⟨w',?_,hkeep w' current ho hg ⟨current,rfl,Or.inl rfl⟩⟩
    rw [Waiters.refresh,if_neg hwake]
    show (do let w ← w.setWaiter id ⟨.waiting current,f⟩; Except.ok (id,w)) = _
    rw [hw]
    rfl

theorem registerWaiter_new (hf : slot f = none) (current : W) :
    ∃ id w', w.registerWaiter f none current = .ok (id,w') ∧ w'.owners = w.owners++[f] ∧
      w'.notified = w.notified ∧
      Roster w' (Function.update slot f (some id)) (Function.update last f (some current)) woken := by
  obtain ⟨id,w',hp,-,-,hrest⟩ := h.pushBack hf current
  exact ⟨id,w',by rw [Waiters.registerWaiter,hp],hrest⟩

theorem registerWaiter_linked (hf : slot f = some id) (hid : id ∈ w.order) (current : W) :
    ∃ w', w.registerWaiter f (some id) current = .ok (id,w') ∧ w'.owners = w.owners ∧
      w'.notified = w.notified ∧ Roster w' slot (Function.update last f (some current)) woken := by
  obtain ⟨waker,g,hr⟩ := h.linked_waiting hid
  cases h.owner_eq hr hf
  obtain ⟨w',hw,-,-,hrest⟩ := h.refresh hr current
  refine ⟨w',?_,hrest⟩
  rw [Waiters.registerWaiter,WaitList.waiterMut_ok hr]
  exact hw

/-- Registration never fails: a waiter is pushed, refreshed, or removed and pushed again. -/
theorem register (f : ℕ) (current : W) :
    ∃ id w', w.register f (slot f) current = .ok (id,w') ∧
      Roster w' (Function.update slot f (some id)) (Function.update last f (some current)) woken := by
  cases hf : slot f with
  | none =>
    obtain ⟨id,w',hp,-,-,-,-,hrest⟩ := h.pushBack hf current
    exact ⟨id,w',by rw [Waiters.register,hp],hrest⟩
  | some id =>
    obtain ⟨⟨v,g⟩,hr,rfl⟩ := h.held f id hf
    cases v with
    | waiting waker =>
      obtain ⟨w',hw,-,-,-,-,hrest⟩ := h.refresh hr current
      refine ⟨id,w',?_,?_⟩
      · rw [Waiters.register,WaitList.waiterMut_ok hr]
        exact hw
      · rwa [← hf,Function.update_eq_self]
    | notified =>
      obtain ⟨r,u,-,-,hrem,-,-,-,-,hu⟩ := h.removeWaiter hf
      obtain ⟨id',w',hp,-,-,-,-,hrest⟩ := hu.pushBack (Function.update_self ..) current
      refine ⟨id',w',?_,?_⟩
      · rw [Waiters.register,WaitList.waiterMut_ok hr]
        show (do
          let (_,w) ← w.removeWaiter id
          Except.ok (w.pushBack ⟨.waiting current,g⟩)) = _
        rw [hrem]
        exact congrArg Except.ok hp
      · rwa [Function.update_idem] at hrest

end

end Roster

end Asyncband
