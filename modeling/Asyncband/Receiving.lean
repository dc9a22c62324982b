import Asyncband.Roster

/-! The receiving side of the value queues.
The MPMC and the SPMC queue run the same `Recv` future over the same storage: a list
of values, a waiter list, and a sender side that is alive or gone. `RecvOk` is the
invariant of that side, with one lemma for each thing either queue does to it. -/
namespace Asyncband

/-- What `try_recv` and the polls of `Recv` answer. -/
inductive Received (T : Type)
  | value (v : T)
  | empty
  | disconnected
  deriving DecidableEq

/-- A `recv` call before, during and after its `Recv` future. `receiving none` is a first
poll between its `try_recv` and the future's own critical section. -/
inductive RecvStage (T : Type)
  | unpolled
  | receiving (waiter : Option WaiterId)
  | done (result : Received T)
  | cancelled
  deriving DecidableEq

structure RecvCall (T W : Type) where
  stage : RecvStage T
  /-- Ghost: the waker of the latest poll that returned pending. -/
  lastWaker : Option W

namespace RecvCall

variable {T W : Type}

def waiter (c : RecvCall T W) : Option WaiterId :=
  match c.stage with
  | .receiving waiter => waiter
  | _ => none

def received (c : RecvCall T W) : Option T :=
  match c.stage with
  | .done (.value v) => some v
  | _ => none

end RecvCall

namespace Waiters

variable {T W : Type} {w u : Waiters W} {id : WaiterId} {f : ℕ}

/-- Dropping a `Recv` that holds a waiter: an unconsumed notification goes to the next
receiver while a value still waits. -/
def dropRecv (w : Waiters W) (values : List T) (id : WaiterId) :
    Except String (Option (ℕ × W) × Waiters W) := do
  let (retired,w) ← w.removeWaiter id
  match retired.waiter with
  | .notified => if values.isEmpty then .ok (none,w) else Waiters.notifyOne w
  | .waiting _ => .ok (none,w)

theorem dropRecv_waiting {waker : W} (values : List T)
    (hrem : w.removeWaiter id = .ok (⟨.waiting waker,f⟩,u)) : w.dropRecv values id = .ok (none,u) := by
  rw [dropRecv,hrem]
  rfl

theorem dropRecv_notified (values : List T) (hrem : w.removeWaiter id = .ok (⟨.notified,f⟩,u)) :
    w.dropRecv values id = if values.isEmpty then .ok (none,u) else u.notifyOne := by
  rw [dropRecv,hrem]
  rfl

end Waiters

structure RecvOk {T W : Type} [Wake W] (values : List T) (alive : Prop) (w : Waiters W)
    (recvs : List (RecvCall T W)) (woken : List W) : Prop where
  roster : alive → Roster w (Table.lookup RecvCall.waiter recvs)
    (Table.lookup RecvCall.lastWaker recvs) woken
  cleared : ¬ alive → ∀ id, w.get? id = none
  covered : w.order ≠ [] → values.length ≤ w.notified

theorem order_eq_nil_of_vacant {W : Type} {w : Waiters W} (h : ∀ id, w.get? id = none) :
    w.order = [] := by
  rw [List.eq_nil_iff_forall_not_mem]
  intro id hid
  obtain ⟨r,hr⟩ := WaitList.get?_of_mem_order hid
  rw [h id] at hr
  cases hr

namespace RecvOk

variable {T W : Type} [Wake W] {values : List T} {alive : Prop} {w : Waiters W}
  {recvs recvs' : List (RecvCall T W)} {woken woken' : List W} {r : ℕ} {c : RecvCall T W}
variable {id : WaiterId}

theorem new (hw : alive) : RecvOk ([] : List T) alive (.new : Waiters W) [] woken where
  roster _ := Registry.new
  cleared hn := absurd hw hn
  covered h := absurd WaitList.order_new h

theorem dead (hd : ¬ alive) (h : ∀ id, w.get? id = none) : RecvOk values alive w recvs woken where
  roster ha := absurd ha hd
  cleared _ := h
  covered hw := absurd (order_eq_nil_of_vacant h) hw

section

variable (h : RecvOk values alive w recvs woken)
include h

theorem mono (hw : woken ⊆ woken') : RecvOk values alive w recvs woken' :=
  {h with roster := fun ha => (h.roster ha).mono hw}

theorem alive_congr {alive' : Prop} (ha : alive' ↔ alive) : RecvOk values alive' w recvs woken := by
  rwa [propext ha]

theorem shrink {values' : List T} (hv : values'.length ≤ values.length) :
    RecvOk values' alive w recvs woken :=
  {h with covered := fun hw => hv.trans (h.covered hw)}

theorem congr (hslot : Table.lookup RecvCall.waiter recvs' = Table.lookup RecvCall.waiter recvs)
    (hlast : Table.lookup RecvCall.lastWaker recvs' = Table.lookup RecvCall.lastWaker recvs) :
    RecvOk values alive w recvs' woken where
  roster ha := by
    rw [hslot,hlast]
    exact h.roster ha
  cleared := h.cleared
  covered := h.covered

theorem set_same (hr : recvs[r]? = some c) {c' : RecvCall T W} (hwaiter : c'.waiter = c.waiter)
    (hlast : c'.lastWaker = c.lastWaker) : RecvOk values alive w (recvs.set r c') woken :=
  h.congr (Table.lookup_set_same hr hwaiter) (Table.lookup_set_same hr hlast)

theorem push_call (hwaiter : c.waiter = none) (hlast : c.lastWaker = none) :
    RecvOk values alive w (recvs++[c]) woken :=
  h.congr (Table.lookup_push recvs hwaiter) (Table.lookup_push recvs hlast)

theorem push (v : T) :
    ∃ x w', w.notifyOne = .ok (x,w') ∧
      RecvOk (values++[v]) alive w' recvs (woken++x.toList.map Prod.snd) := by
  by_cases ha : alive
  · rcases (h.roster ha).notifyOne with ⟨ho,hn⟩ | ⟨id,f,waker,w',hn,ho,-,hcount,hroster⟩
    · refine ⟨none,w,hn,?_⟩
      rw [Option.toList_none,List.map_nil,List.append_nil]
      exact {h with covered := fun hw => absurd ho hw}
    · refine ⟨some (f,waker),w',hn,⟨fun _ => hroster,fun hd => absurd ha hd,fun _ => ?_⟩⟩
      have hcov := h.covered (by simp [ho])
      rw [List.length_append,List.length_singleton,hcount]
      omega
  · have ho := order_eq_nil_of_vacant (h.cleared ha)
    exact ⟨none,w,Waiters.notifyOne_nil ho,dead ha (h.cleared ha)⟩

end

theorem register (h : RecvOk ([] : List T) alive w recvs woken) (ha : alive)
    (hr : recvs[r]? = some c) (waker : W) :
    ∃ id w', w.register r c.waiter waker = .ok (id,w') ∧
      RecvOk ([] : List T) alive w' (recvs.set r ⟨.receiving (some id),some waker⟩) woken := by
  obtain ⟨id,w',hreg,hroster⟩ := (h.roster ha).register r waker
  rw [Table.lookup_eq hr] at hreg
  refine ⟨id,w',hreg,⟨fun _ => ?_,fun hd => absurd ha hd,fun _ => Nat.zero_le _⟩⟩
  rw [Table.lookup_set _ hr,Table.lookup_set _ hr]
  exact hroster

theorem consume {v : T} (h : RecvOk (v::values) alive w recvs woken) (ha : alive)
    (hr : recvs[r]? = some c) (hid : c.waiter = some id) (c' : RecvCall T W)
    (hwaiter : c'.waiter = none) (hlast : c'.lastWaker = c.lastWaker) :
    ∃ retired w', w.removeWaiter id = .ok (retired,w') ∧
      RecvOk values alive w' (recvs.set r c') woken := by
  obtain ⟨retired,w',-,-,hrem,ho,-,-,hcount,hroster⟩ :=
    (h.roster ha).removeWaiter ((Table.lookup_eq hr).trans hid)
  refine ⟨retired,w',hrem,⟨fun _ => ?_,fun hd => absurd ha hd,fun hw => ?_⟩⟩
  · rw [Table.lookup_set _ hr,hwaiter,Table.lookup_set_same hr hlast]
    exact hroster
  · have hcov := h.covered fun hnil => hw (by rw [ho,hnil]; rfl)
    have hmark : retired.waiter.mark ≤ 1 := by cases retired.waiter <;> simp [Waiter.mark]
    rw [List.length_cons] at hcov
    omega

/-- A cancelled future takes its waiter out and hands an unused notification on. -/
theorem drop (h : RecvOk values alive w recvs woken) (ha : alive) (hr : recvs[r]? = some c)
    (hid : c.waiter = some id) (c' : RecvCall T W) (hwaiter : c'.waiter = none)
    (hlast : c'.lastWaker = c.lastWaker) :
    ∃ x w', w.dropRecv values id = .ok (x,w') ∧
      RecvOk values alive w' (recvs.set r c') (woken++x.toList.map Prod.snd) := by
  obtain ⟨⟨v,g⟩,u,-,-,hrem,ho,-,-,hcount,hroster⟩ :=
    (h.roster ha).removeWaiter ((Table.lookup_eq hr).trans hid)
  have hsub : u.order ≠ [] → w.order ≠ [] := fun hw hnil => hw (by rw [ho,hnil]; rfl)
  have hslot : Function.update (Table.lookup RecvCall.waiter recvs) r none =
      Table.lookup RecvCall.waiter (recvs.set r c') := by rw [Table.lookup_set _ hr,hwaiter]
  rw [hslot,← Table.lookup_set_same hr hlast] at hroster
  have hstay (hcov : u.order ≠ [] → values.length ≤ u.notified)
      (hdrop : w.dropRecv values id = .ok (none,u)) :
      ∃ x w', w.dropRecv values id = .ok (x,w') ∧
        RecvOk values alive w' (recvs.set r c') (woken++x.toList.map Prod.snd) := by
    refine ⟨none,u,hdrop,?_⟩
    rw [Option.toList_none,List.map_nil,List.append_nil]
    exact ⟨fun _ => hroster,fun hd => absurd ha hd,hcov⟩
  cases v with
  | waiting waker =>
    apply hstay _ (Waiters.dropRecv_waiting values hrem)
    intro hw
    have hcov := h.covered (hsub hw)
    have hzero : u.notified + 0 = w.notified := hcount
    omega
  | notified =>
    have hdrop := Waiters.dropRecv_notified values hrem
    have hone : u.notified + 1 = w.notified := hcount
    by_cases hv : values.isEmpty = true
    · rw [if_pos hv] at hdrop
      apply hstay _ hdrop
      intro _
      rw [List.isEmpty_iff.mp hv]
      exact Nat.zero_le _
    · rw [if_neg hv] at hdrop
      rcases hroster.notifyOne with ⟨hnil,hn⟩ | ⟨id',f,waker,w',hn,hou,-,hcount',hroster'⟩
      · exact hstay (fun hw => absurd hnil hw) (hdrop.trans hn)
      · refine ⟨some (f,waker),w',hdrop.trans hn,⟨fun _ => hroster',fun hd => absurd ha hd,?_⟩⟩
        intro _
        have hcov := h.covered (hsub (by simp [hou]))
        omega

end RecvOk

end Asyncband
