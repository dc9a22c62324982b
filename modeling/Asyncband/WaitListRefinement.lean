import Asyncband.Transition
import Asyncband.WaitList

/-! The waiter queue refines an ordered list together with a map.
`Queue` says what the structure is for, without slots and links. -/
namespace Asyncband
namespace WaitList

/-- `should_unlink` answers and may change the value. -/
inductive Action (T : Type)
  | pushFront (value : T) | pushBack (value : T)
  | unlinkWaiter (id : WaiterId) (shouldUnlink : T → Bool × T)
  | unlinkFirstWaiter (shouldUnlink : T → Bool × T)
  | waiterMut (id : WaiterId) (value : T)
  | removeUnlinkedWaiter (id : WaiterId)

inductive Reply (T : Type)
  | issued (id : WaiterId)
  | unlinked (value : Option T)
  | first (waiter : Option (WaiterId × T))
  | assigned
  | removed (value : T)

/-- The linked waiters in order, and the values of all waiters that were issued and not yet
removed. -/
structure Queue (T : Type) where
  order : List WaiterId
  values : WaiterId → Option T

namespace Queue

variable {T : Type}

/-- Operations take ids that were issued and not yet removed; only a detached waiter is
removed. -/
def Allows (q : Queue T) : Action T → Prop
  | .unlinkWaiter id _ => q.values id ≠ none
  | .waiterMut id _ => q.values id ≠ none
  | .removeUnlinkedWaiter id => q.values id ≠ none ∧ id ∉ q.order
  | _ => True

inductive Step (q : Queue T) : Action T → Reply T → Queue T → Prop
  | pushFront {id : WaiterId} {value : T} (hfresh : q.values id = none) :
    Step q (.pushFront value) (.issued id) ⟨id::q.order,Function.update q.values id (some value)⟩
  | pushBack {id : WaiterId} {value : T} (hfresh : q.values id = none) :
    Step q (.pushBack value) (.issued id) ⟨q.order++[id],Function.update q.values id (some value)⟩
  /-- The order does not change for a waiter that is detached already. -/
  | accept {id : WaiterId} {value new : T} {p : T → Bool × T} (hid : q.values id = some value)
    (hp : p value = (true,new)) :
    Step q (.unlinkWaiter id p) (.unlinked (some new))
      ⟨q.order.erase id,Function.update q.values id (some new)⟩
  | refuse {id : WaiterId} {value new : T} {p : T → Bool × T} (hid : q.values id = some value)
    (hp : p value = (false,new)) :
    Step q (.unlinkWaiter id p) (.unlinked none) ⟨q.order,Function.update q.values id (some new)⟩
  | nobody {p : T → Bool × T} (hempty : q.order = []) : Step q (.unlinkFirstWaiter p) (.first none) q
  | acceptFirst {id : WaiterId} {rest : List WaiterId} {value new : T} {p : T → Bool × T}
    (horder : q.order = id::rest) (hid : q.values id = some value) (hp : p value = (true,new)) :
    Step q (.unlinkFirstWaiter p) (.first (some (id,new)))
      ⟨rest,Function.update q.values id (some new)⟩
  | refuseFirst {id : WaiterId} {rest : List WaiterId} {value new : T} {p : T → Bool × T}
    (horder : q.order = id::rest) (hid : q.values id = some value) (hp : p value = (false,new)) :
    Step q (.unlinkFirstWaiter p) (.first none) ⟨q.order,Function.update q.values id (some new)⟩
  | waiterMut {id : WaiterId} {old value : T} (hid : q.values id = some old) :
    Step q (.waiterMut id value) .assigned ⟨q.order,Function.update q.values id (some value)⟩
  | remove {id : WaiterId} {value : T} (hid : q.values id = some value) (hdetached : id ∉ q.order) :
    Step q (.removeUnlinkedWaiter id) (.removed value) ⟨q.order,Function.update q.values id none⟩

end Queue

namespace Raw

variable {T : Type} {l : Raw T} {ids : List WaiterId}

def act (l : Raw T) : Action T → Except String (Reply T × Raw T)
  | .pushFront value => (l.pushFront value).map fun r => (.issued r.1,r.2)
  | .pushBack value => (l.pushBack value).map fun r => (.issued r.1,r.2)
  | .unlinkWaiter id p => (l.unlinkWaiter id p).map fun r => (.unlinked r.1,r.2)
  | .unlinkFirstWaiter p => (l.unlinkFirstWaiter p).map fun r => (.first r.1,r.2)
  | .waiterMut id value => (l.setWaiter id value).map fun l => (.assigned,l)
  | .removeUnlinkedWaiter id => (l.removeUnlinkedWaiter id).map fun r => (.removed r.1,r.2)

/-- Forget the links. -/
def queue (l : Raw T) : Queue T := ⟨l.order,l.get?⟩

def walkBack (l : Raw T) : ℕ → Option WaiterId → List WaiterId
  | fuel+1, some id => id::walkBack l fuel ((l.links id).bind Links.prev)
  | _, _ => []

def allows (l : Raw T) : Action T → Bool
  | .unlinkWaiter id _ => (l.get? id).isSome
  | .waiterMut id _ => (l.get? id).isSome
  | .removeUnlinkedWaiter id => (l.get? id).isSome && !l.order.contains id
  | _ => true

theorem allows_iff (l : Raw T) (a : Action T) : l.allows a = true ↔ l.queue.Allows a := by
  cases a <;> simp [allows,Queue.Allows,queue,Option.isSome_iff_ne_none]

theorem Represents.walkBack_eq (h : l.Represents ids) (pre post : List WaiterId) (hs : ids = pre++post)
    (fuel : ℕ) (hf : pre.length ≤ fuel) : l.walkBack fuel pre.getLast? = pre.reverse := by
  induction pre using List.reverseRecOn generalizing post fuel with
  | nil => cases fuel <;> rfl
  | append_singleton pre id ih =>
    cases fuel with
    | zero => simp at hf
    | succ fuel =>
      have hk := h.linked pre id post (by simp [hs])
      have ht := ih (id::post) (by simp [hs]) fuel (by simpa using hf)
      simp [walkBack,hk,ht]

theorem Represents.queue_eq (h : l.Represents ids) {q : Queue T} (horder : q.order = ids)
    (hvalues : q.values = l.get?) : l.queue = q := by
  obtain ⟨order,values⟩ := q
  subst horder hvalues
  rw [queue,h.order_eq]

theorem Represents.act (h : l.Represents ids) {a : Action T} (ha : l.queue.Allows a) :
    ∃ reply l' ids', l.act a = .ok (reply,l') ∧ l.queue.Step a reply l'.queue ∧ l'.Represents ids' := by
  have horder : l.queue.order = ids := h.order_eq
  cases a with
  | pushFront value =>
    obtain ⟨id,l',hpush,hfresh,hrep,hget⟩ := pushFront_spec h value
    refine ⟨.issued id,l',_,by simp only [Raw.act,hpush,Except.map],?_,hrep⟩
    rw [hrep.queue_eq (q := ⟨id::l.queue.order,_⟩) (by rw [horder]) hget.symm]
    exact .pushFront (Option.map_eq_none_iff.mpr hfresh)
  | pushBack value =>
    obtain ⟨id,l',hpush,hfresh,hrep,hget⟩ := pushBack_spec h value
    refine ⟨.issued id,l',_,by simp only [Raw.act,hpush,Except.map],?_,hrep⟩
    rw [hrep.queue_eq (q := ⟨l.queue.order++[id],_⟩) (by rw [horder]) hget.symm]
    exact .pushBack (Option.map_eq_none_iff.mpr hfresh)
  | unlinkWaiter id p =>
    obtain ⟨value,hid⟩ := Option.ne_none_iff_exists'.mp ha
    obtain ⟨l',hunlink,hrep,hget⟩ := unlinkWaiter_spec h hid p
    cases hp : p value with
    | mk answer new =>
      rw [hp] at hunlink hrep hget
      refine ⟨.unlinked (if answer then some new else none),l',_,by simp only [Raw.act,hunlink,Except.map],?_,hrep⟩
      cases answer with
      | true =>
        rw [hrep.queue_eq (q := ⟨l.queue.order.erase id,_⟩) (by rw [horder]; rfl) hget.symm]
        exact .accept hid hp
      | false =>
        rw [hrep.queue_eq (q := ⟨l.queue.order,_⟩) (by rw [horder]; rfl) hget.symm]
        exact .refuse hid hp
  | unlinkFirstWaiter p =>
    cases ids with
    | nil =>
      refine ⟨.first none,l,_,by simp only [Raw.act,unlinkFirstWaiter_nil h p,Except.map],?_,h⟩
      exact .nobody horder
    | cons id rest =>
      obtain ⟨node,k,hnode,-⟩ := h.links_isSome (List.mem_cons_self)
      have hid : l.get? id = some node.value := by rw [get?,hnode]; rfl
      obtain ⟨l',hunlink,hrep,hget⟩ := unlinkFirstWaiter_cons h hid p
      cases hp : p node.value with
      | mk answer new =>
        rw [hp] at hunlink hrep hget
        refine ⟨.first (if answer then some (id,new) else none),l',_,by simp only [Raw.act,hunlink,Except.map],?_,hrep⟩
        cases answer with
        | true =>
          rw [hrep.queue_eq (q := ⟨rest,_⟩) rfl hget.symm]
          exact .acceptFirst horder hid hp
        | false =>
          rw [hrep.queue_eq (q := ⟨l.queue.order,_⟩) (by rw [horder]; rfl) hget.symm]
          exact .refuseFirst horder hid hp
  | waiterMut id value =>
    obtain ⟨old,hid⟩ := Option.ne_none_iff_exists'.mp ha
    obtain ⟨l',hset,hrep,hget⟩ := setWaiter_spec h hid value
    refine ⟨.assigned,l',_,by simp only [Raw.act,hset,Except.map],?_,hrep⟩
    rw [hrep.queue_eq (q := ⟨l.queue.order,_⟩) (by exact horder) hget.symm]
    exact .waiterMut hid
  | removeUnlinkedWaiter id =>
    obtain ⟨value,hid⟩ := Option.ne_none_iff_exists'.mp ha.1
    obtain ⟨l',hremove,hrep,hget⟩ := removeUnlinkedWaiter_spec h hid (horder ▸ ha.2)
    refine ⟨.removed value,l',_,by simp only [Raw.act,hremove,Except.map],?_,hrep⟩
    rw [hrep.queue_eq (q := ⟨l.queue.order,_⟩) (by exact horder) hget.symm]
    exact .remove hid ha.2

def machine (T : Type) : Transition.Machine (Raw T) (Action T) where
  init l := l = new
  next l a := if l.allows a then (l.act a).toOption.map Prod.snd else none

theorem reachable_wf (h : (machine T).Reachable l) : l.Wf := by
  refine (machine T).invariant Wf ?_ ?_ h
  · rintro l rfl
    exact ⟨[],new_represents⟩
  · rintro l a l' ⟨ids,hrep⟩ hn
    obtain ⟨hallows,hx⟩ := Option.ite_none_right_eq_some.mp hn
    obtain ⟨reply,t,ids',hact,-,ht⟩ := hrep.act ((l.allows_iff a).mp hallows)
    rw [hact] at hx
    cases hx
    exact ⟨ids',ht⟩

/-- The links spell out the list in both directions, and every operation is that of the
queue. -/
structure Contract (l : Raw T) : Prop where
  nodup : l.queue.order.Nodup
  forward : ∀ fuel, l.queue.order.length ≤ fuel → l.walk fuel l.head = l.queue.order
  backward : ∀ fuel, l.queue.order.length ≤ fuel → l.walkBack fuel l.tail = l.queue.order.reverse
  head : l.head = none ↔ l.queue.order = []
  tail : l.tail = none ↔ l.queue.order = []
  linked : ∀ id ∈ l.queue.order, l.queue.values id ≠ none
  detached : ∀ id, (∃ node, l.nodes.get? id = some node ∧ node.links = none) ↔
    l.queue.values id ≠ none ∧ id ∉ l.queue.order
  steps : ∀ a, l.queue.Allows a → ∃ reply l', l.act a = .ok (reply,l') ∧ l.queue.Step a reply l'.queue

theorem Represents.contract (h : l.Represents ids) : l.Contract := by
  have horder : l.queue.order = ids := h.order_eq
  have hmem : ∀ id ∈ ids, ∃ node k, l.nodes.get? id = some node ∧ node.links = some k :=
    fun id hid => h.links_isSome hid
  constructor
  case steps =>
    intro a ha
    obtain ⟨reply,l',-,hact,hstep,-⟩ := h.act ha
    exact ⟨reply,l',hact,hstep⟩
  all_goals rw [horder]
  case nodup => exact h.nodup
  case forward =>
    intro fuel hf
    rw [h.head_eq]
    exact h.walk_eq [] ids rfl fuel hf
  case backward =>
    intro fuel hf
    rw [h.tail_eq]
    exact h.walkBack_eq ids [] (by simp) fuel hf
  case head => rw [h.head_eq,List.head?_eq_none_iff]
  case tail => rw [h.tail_eq,List.getLast?_eq_none_iff]
  case linked =>
    intro id hid
    obtain ⟨node,k,hnode,-⟩ := hmem id hid
    simp [queue,get?,hnode]
  case detached =>
    intro id
    constructor
    · rintro ⟨node,hnode,hlinks⟩
      refine ⟨by simp [queue,get?,hnode],fun hid => ?_⟩
      obtain ⟨node',k,hnode',hk⟩ := hmem id hid
      cases hnode.symm.trans hnode'
      rw [hlinks] at hk
      cases hk
    · rintro ⟨hvalue,hid⟩
      obtain ⟨value,hget⟩ := Option.ne_none_iff_exists'.mp hvalue
      obtain ⟨node,hnode,-⟩ := Option.map_eq_some_iff.mp hget
      refine ⟨node,hnode,?_⟩
      rw [← links_eq_of_get? hnode]
      exact h.detached id hid

theorem waitList_refines_queue (l : Raw T) (h : (machine T).Reachable l) : l.Contract := by
  obtain ⟨ids,hrep⟩ := reachable_wf h
  exact hrep.contract

/-- A waiter in the middle is detached, removed, and its slot is issued again. -/
def recycleRun : List (Action ℕ) :=
  [.pushBack 1,.pushBack 2,.pushBack 3,.pushFront 4,.unlinkWaiter 1 fun v => (true,v+10),
   .unlinkWaiter 1 fun v => (true,v+10),.unlinkFirstWaiter fun v => (false,v+1),
   .removeUnlinkedWaiter 1,.pushBack 5,.unlinkFirstWaiter fun v => (true,v),.waiterMut 3 9]

theorem waitList_refines_queue_recycleRun :
    ∃ l, (machine ℕ).exec new recycleRun = some l ∧ l.Contract ∧ l.queue.order = [0,2,1] ∧
      [0,1,2,3,4].map l.queue.values = [some 1,some 5,some 3,some 9,none] := by
  have hrun : ((machine ℕ).exec new recycleRun).map
      (fun l => (l.queue.order,[0,1,2,3,4].map l.queue.values)) =
      some ([0,2,1],[some 1,some 5,some 3,some 9,none]) := by
    decide +kernel
  obtain ⟨l,hl,hend⟩ := Option.map_eq_some_iff.mp hrun
  simp only [Prod.mk.injEq] at hend
  exact ⟨l,hl,waitList_refines_queue l (Transition.Machine.reachable_of_exec _ rfl hl),hend⟩

end Raw
end WaitList
end Asyncband
