import Asyncband.Arena
import Asyncband.Transition

/-! The arena under arbitrary sequences of operations, the panicking ones included. -/
namespace Asyncband
namespace Arena
namespace Raw

inductive Action (T : Type)
  | insert (value : T)
  /-- `get_mut`, and an assignment through the reference if there is one. -/
  | getMut (id : SlotId) (value : T)
  | remove (id : SlotId)
  | takeAll

variable {T : Type} {a : Raw T}

/-- The arena that an operation leaves behind; `insert` panics before it changes anything. -/
def act (a : Raw T) : Action T → Raw T
  | .insert value =>
    match a.insert value with
    | .ok r => r.2
    | .error _ => a
  | .getMut id value => a.set id value
  | .remove id => (a.remove id).2
  | .takeAll => a.takeAll.2

def machine (T : Type) : Transition.Machine (Raw T) (Action T) where
  init a := a = new
  next a x := some (a.act x)

theorem Wf.act (h : a.Wf) (x : Action T) : (a.act x).Wf := by
  cases x with
  | insert value =>
    obtain ⟨id,a',hinsert,hwf,-⟩ := insert_spec h value
    simp only [Raw.act,hinsert]
    exact hwf
  | getMut id value => exact set_wf h id value
  | remove id => exact remove_wf h id
  | takeAll => exact takeAll_wf a

theorem reachable_wf (h : (machine T).Reachable a) : a.Wf := by
  refine (machine T).invariant Wf ?_ ?_ h
  · rintro a rfl
    exact new_wf
  · rintro a x b ha hb
    cases hb
    exact ha.act x

def Slot.value? : Slot T → Option T
  | .occupied value => some value
  | .vacant _ => none

def occupied (a : Raw T) : List SlotId := (List.range a.slots.length).filter fun id => (a.get? id).isSome

theorem values_eq_filterMap (slots : List (Slot T)) :
    values slots = (List.range slots.length).filterMap fun i => slots[i]?.bind Slot.value? := by
  induction slots using List.reverseRecOn with
  | nil => rfl
  | append_singleton slots slot ih =>
    have hold : (List.range slots.length).filterMap (fun i => (slots++[slot])[i]?.bind Slot.value?) =
        (List.range slots.length).filterMap fun i => slots[i]?.bind Slot.value? := by
      refine List.filterMap_congr fun i hi => ?_
      rw [List.getElem?_append_left (List.mem_range.mp hi)]
    rw [values_append,List.length_append,List.length_singleton,List.range_succ,List.filterMap_append,
      hold,← ih]
    cases slot <;> simp [values,Slot.value?]

theorem get?_eq_bind (a : Raw T) (id : SlotId) : a.get? id = a.slots[id]?.bind Slot.value? := by
  unfold get?
  cases hslot : a.slots[id]? with
  | none => rfl
  | some slot => cases slot <;> rfl

theorem values_eq (a : Raw T) : values a.slots = a.occupied.filterMap a.get? := by
  rw [values_eq_filterMap,occupied,List.filterMap_filter]
  refine List.filterMap_congr fun i _ => ?_
  rw [← get?_eq_bind]
  cases a.get? i <;> rfl

theorem length_values (a : Raw T) : (values a.slots).length = a.occupied.length := by
  rw [values_eq,List.length_filterMap_eq_countP,List.countP_eq_length]
  intro id hid
  exact (List.mem_filter.mp hid).2

structure Contract (a : Raw T) : Prop where
  /-- The vacant list ends, has no duplicates, and is the vacant slots. -/
  chain : ∃ ids, Chain a.slots a.vacantHead ids ∧ ids.Nodup ∧
    ∀ i, i ∈ ids ↔ ∃ next, a.slots[i]? = some (.vacant next)
  len : a.len = a.occupied.length
  insert : ∀ value, ∃ id b, a.insert value = .ok (id,b) ∧ a.get? id = none ∧
    b.get? = Function.update a.get? id (some value)
  getMut : ∀ id value, (a.set id value).get? =
    if (a.get? id).isSome then Function.update a.get? id (some value) else a.get?
  remove : ∀ id value, a.get? id = some value → ∃ b, a.remove id = (.ok value,b) ∧
    b.get? = Function.update a.get? id none
  /-- A panicking `remove` changes nothing at all. -/
  panic : ∀ id, a.get? id = none → ∃ message, a.remove id = (.error message,a)
  takeAll : a.takeAll = (a.occupied.filterMap a.get?,new)

theorem Wf.contract (h : a.Wf) : a.Contract where
  chain := h.chain
  len := h.len_eq.trans a.length_values
  insert value := by
    obtain ⟨id,b,hinsert,-,hfresh,hget⟩ := insert_spec h value
    exact ⟨id,b,hinsert,hfresh,hget⟩
  getMut id value := by
    cases hid : a.get? id with
    | none =>
      have hsame : a.set id value = a := by
        rw [set]
        split
        · next w hw => rw [get?_eq_some.mpr hw] at hid; cases hid
        · rfl
      rw [hsame]
      rfl
    | some w => exact get?_set hid value
  remove id value hid := by
    obtain ⟨b,hremove,-,hget⟩ := remove_spec h hid
    exact ⟨b,hremove,hget⟩
  panic id hid := remove_panic hid
  takeAll := by rw [Raw.takeAll,values_eq]; rfl

theorem arena_operations (a : Raw T) (h : (machine T).Reachable a) : a.Contract :=
  (reachable_wf h).contract

/-- Slots are reused, and a second `remove` of a slot fails. -/
def reuseRun : List (Action ℕ) :=
  [.insert 1,.insert 2,.insert 3,.remove 1,.remove 1,.remove 0,.remove 7,.insert 4,.getMut 2 5]

theorem arena_operations_reuseRun :
    ∃ a, (machine ℕ).exec new reuseRun = some a ∧ a.Contract ∧ a.takeAll.1 = [4,5] ∧
      a.vacantHead = some 1 ∧ a.len = 2 := by
  have hrun : ((machine ℕ).exec new reuseRun).map (fun a => (a.takeAll.1,a.vacantHead,a.len)) =
      some ([4,5],some 1,2) := by
    decide +kernel
  obtain ⟨a,ha,hend⟩ := Option.map_eq_some_iff.mp hrun
  simp only [Prod.mk.injEq] at hend
  exact ⟨a,ha,arena_operations a (Transition.Machine.reachable_of_exec _ rfl ha),hend⟩

end Raw
end Arena
end Asyncband
