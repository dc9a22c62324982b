import Asyncband.Table
import Mathlib.Data.List.Basic
import Mathlib.Data.List.Nodup
import Mathlib.Data.List.Count
import Mathlib.Logic.Function.Basic

/-! The slot arena behind every waiter collection.
`Raw` is the storage as written, with its panics; `Arena` is the storage
together with the vacancy invariant, so the panicking arms of `insert` are gone. -/
namespace Asyncband

/-- A slot is identified by its index. -/
abbrev SlotId := ℕ

namespace Arena

inductive Slot (T : Type)
  | occupied (value : T)
  | vacant (next : Option SlotId)

structure Raw (T : Type) where
  slots : List (Slot T)
  vacantHead : Option SlotId
  len : ℕ

namespace Raw

variable {T : Type}
variable {slots : List (Slot T)} {head : Option SlotId} {ids : List SlotId} {i : ℕ} {v : T} {a : Raw T}
    {id : SlotId}

def new : Raw T := ⟨[],none,0⟩

def insert (a : Raw T) (value : T) : Except String (SlotId × Raw T) :=
  match a.vacantHead with
  | some id =>
    match a.slots[id]? with
    | none => .error "arena free list must point to a slot"
    | some (.occupied _) => .error "arena free list must point to a vacant slot"
    | some (.vacant next) => .ok (id,⟨a.slots.set id (.occupied value),next,a.len+1⟩)
  | none => .ok (a.slots.length,⟨a.slots++[.occupied value],none,a.len+1⟩)

def get? (a : Raw T) (id : SlotId) : Option T :=
  match a.slots[id]? with
  | some (.occupied value) => some value
  | _ => none

/-- Assignment through the reference returned by `get_mut`. -/
def set (a : Raw T) (id : SlotId) (value : T) : Raw T :=
  match a.slots[id]? with
  | some (.occupied _) => {a with slots := a.slots.set id (.occupied value)}
  | _ => a

def isEmpty (a : Raw T) : Bool := a.len == 0

/-- The second component is the arena left behind, also by a panicking call: a
vacant slot is overwritten first and put back before the panic. -/
def remove (a : Raw T) (id : SlotId) : Except String T × Raw T :=
  match a.slots[id]? with
  | none => (.error "arena slot ID must be in bounds",a)
  | some old =>
    let replaced := a.slots.set id (.vacant a.vacantHead)
    match old with
    | .occupied value => (.ok value,⟨replaced,some id,a.len-1⟩)
    | .vacant next => (.error "arena slot ID must be occupied",{a with slots := replaced.set id (.vacant next)})

def values : List (Slot T) → List T
  | [] => []
  | .occupied value::slots => value::values slots
  | .vacant _::slots => values slots

def takeAll (a : Raw T) : List T × Raw T := (values a.slots,⟨[],none,0⟩)

/-- `ids` is the vacant list that starts at the given head. -/
def Chain (slots : List (Slot T)) : Option SlotId → List SlotId → Prop
  | none, [] => True
  | some i, j::ids => i = j ∧ ∃ next, slots[i]? = some (.vacant next) ∧ Chain slots next ids
  | _, _ => False

/-- The documented storage invariant. -/
structure Wf (a : Raw T) : Prop where
  chain : ∃ ids, Chain a.slots a.vacantHead ids ∧ ids.Nodup ∧
    ∀ i, i ∈ ids ↔ ∃ next, a.slots[i]? = some (.vacant next)
  len_eq : a.len = (values a.slots).length

theorem Chain.congr {slots' : List (Slot T)} (h : Chain slots head ids)
    (hs : ∀ i ∈ ids, slots'[i]? = slots[i]?) : Chain slots' head ids := by
  induction ids generalizing head with
  | nil => cases head <;> exact h
  | cons j ids ih =>
    cases head with
    | none => exact h.elim
    | some i =>
      obtain ⟨rfl,next,hi,ht⟩ := h
      refine ⟨rfl,next,by rw [hs i (by simp),hi],ih ht fun k hk => hs k (by simp [hk])⟩

@[simp] theorem values_append (slots slots' : List (Slot T)) :
    values (slots++slots') = values slots++values slots' := by
  induction slots with
  | nil => rfl
  | cons slot slots ih => cases slot <;> simp [values,ih]

theorem values_set_occupied_of_vacant {next : Option SlotId} (h : slots[i]? = some (.vacant next))
    (v : T) : (values (slots.set i (.occupied v))).length = (values slots).length+1 := by
  induction slots generalizing i with
  | nil => simp at h
  | cons slot slots ih =>
    cases i with
    | zero =>
      simp only [List.getElem?_cons_zero,Option.some.injEq] at h
      subst slot
      simp [values]
    | succ i =>
      have hi := ih (i:=i) (by simpa using h)
      cases slot <;> simp [values,hi]

theorem values_set_vacant_of_occupied (h : slots[i]? = some (.occupied v)) (next : Option SlotId) :
    (values (slots.set i (.vacant next))).length+1 = (values slots).length := by
  induction slots generalizing i with
  | nil => simp at h
  | cons slot slots ih =>
    cases i with
    | zero =>
      simp only [List.getElem?_cons_zero,Option.some.injEq] at h
      subst slot
      simp [values]
    | succ i =>
      have hi := ih (i:=i) (by simpa using h)
      cases slot <;> simp [values,← hi]

theorem values_set_occupied (h : slots[i]? = some (.occupied v)) (w : T) :
    (values (slots.set i (.occupied w))).length = (values slots).length := by
  induction slots generalizing i with
  | nil => simp at h
  | cons slot slots ih =>
    cases i with
    | zero =>
      simp only [List.getElem?_cons_zero,Option.some.injEq] at h
      subst slot
      simp [values]
    | succ i =>
      have hi := ih (i:=i) (by simpa using h)
      cases slot <;> simp [values,hi]

theorem new_wf : (new : Raw T).Wf := ⟨⟨[],by simp [new,Chain]⟩,by simp [new,values]⟩

theorem lt_of_getElem?_some {slot : Slot T} (h : slots[i]? = some slot) : i < slots.length :=
  (List.getElem?_eq_some_iff.mp h).1

/-- `insert` never reaches its `expect` or `unreachable` arm; it fills a slot
that was not occupied and changes no other value. -/
theorem insert_spec (ha : a.Wf) (v : T) :
    ∃ id a', a.insert v = .ok (id,a') ∧ a'.Wf ∧ a.get? id = none ∧
      a'.get? = Function.update a.get? id (some v) := by
  obtain ⟨⟨ids,hc,hn,hv⟩,hl⟩ := ha
  cases hh : a.vacantHead with
  | none =>
    have hids : ids = [] := by
      cases ids with
      | nil => rfl
      | cons => rw [hh] at hc; exact hc.elim
    subst hids
    refine ⟨a.slots.length,⟨a.slots++[.occupied v],none,a.len+1⟩,by simp [insert,hh],
      ⟨⟨[],trivial,hn,?_⟩,by simp [values,hl]⟩,by simp [get?],?_⟩
    · intro i
      constructor
      · simp
      · rintro ⟨next,hi⟩
        rcases Nat.lt_trichotomy i a.slots.length with hlt | rfl | hlt
        · rw [List.getElem?_append_left hlt] at hi
          exact (hv i).mpr ⟨next,hi⟩
        · simp at hi
        · rw [List.getElem?_eq_none (by simp; omega)] at hi
          cases hi
    · funext i
      rcases Nat.lt_trichotomy i a.slots.length with hlt | rfl | hlt
      · simp [get?,Function.update,List.getElem?_append_left hlt,Nat.ne_of_lt hlt]
      · simp [get?]
      · have h₁ : a.slots[i]? = none := List.getElem?_eq_none (by omega)
        have h₂ : (a.slots++[Slot.occupied v])[i]? = none := List.getElem?_eq_none (by simp; omega)
        simp [get?,h₁,h₂,Function.update,Nat.ne_of_gt hlt]
  | some id =>
    cases ids with
    | nil => rw [hh] at hc; exact hc.elim
    | cons j ids =>
      rw [hh] at hc
      obtain ⟨rfl,next,hi,ht⟩ := hc
      have hlt := lt_of_getElem?_some hi
      obtain ⟨hnot,hn⟩ := List.nodup_cons.mp hn
      have hother (i : ℕ) (hne : i ≠ id) : (a.slots.set id (.occupied v))[i]? = a.slots[i]? :=
        List.getElem?_set_ne hne.symm
      refine ⟨id,⟨a.slots.set id (.occupied v),next,a.len+1⟩,by simp [insert,hh,hi],
        ⟨⟨ids,ht.congr ?_,hn,?_⟩,?_⟩,by simp [get?,hi],?_⟩
      · intro i hmem
        exact hother i (by rintro rfl; exact hnot hmem)
      · intro i
        by_cases hne : i = id
        · subst hne
          simp [hlt,hnot]
        · rw [hother i hne,← hv i]
          simp [hne]
      · simp [values_set_occupied_of_vacant hi,hl]
      · funext i
        by_cases hne : i = id
        · subst hne
          simp [get?,hlt]
        · simp [get?,hother i hne,Function.update,hne]

theorem insert_wf (ha : a.Wf) {r : SlotId × Raw T} (h : a.insert v = .ok r) : r.2.Wf := by
  obtain ⟨id,a',h',hw,_⟩ := insert_spec ha v
  rw [h'] at h
  cases h
  exact hw

theorem get?_eq_some : a.get? id = some v ↔ a.slots[id]? = some (.occupied v) := by
  unfold get?
  split <;> simp_all

theorem set_wf (ha : a.Wf) (id : SlotId) (v : T) : (a.set id v).Wf := by
  unfold set
  split
  · rename_i w hi
    obtain ⟨⟨ids,hc,hn,hv⟩,hl⟩ := ha
    have hlt := lt_of_getElem?_some hi
    have hnot : id ∉ ids := by
      intro hmem
      obtain ⟨next,hnext⟩ := (hv id).mp hmem
      simp [hi] at hnext
    refine ⟨⟨ids,hc.congr ?_,hn,?_⟩,by simpa [values_set_occupied hi] using hl⟩
    · intro i hmem
      exact List.getElem?_set_ne (by rintro rfl; exact hnot hmem)
    · intro i
      by_cases hne : i = id
      · subst hne
        simp [hlt,hnot]
      · rw [List.getElem?_set_ne (Ne.symm hne)]
        exact hv i
  · exact ha

theorem get?_set {w : T} (h : a.get? id = some w) (v : T) :
    (a.set id v).get? = Function.update a.get? id (some v) := by
  rw [get?_eq_some] at h
  have hlt := lt_of_getElem?_some h
  funext i
  simp only [set,h]
  by_cases hne : i = id
  · subst hne
    simp [get?,hlt]
  · simp [get?,List.getElem?_set_ne (Ne.symm hne),Function.update,hne]

/-- `remove` on an occupied slot returns its value and changes no other one. -/
theorem remove_spec (ha : a.Wf) (h : a.get? id = some v) :
    ∃ a', a.remove id = (.ok v,a') ∧ a'.Wf ∧ a'.get? = Function.update a.get? id none := by
  rw [get?_eq_some] at h
  obtain ⟨⟨ids,hc,hn,hv⟩,hl⟩ := ha
  have hlt := lt_of_getElem?_some h
  have hnot : id ∉ ids := by
    intro hmem
    obtain ⟨next,hnext⟩ := (hv id).mp hmem
    simp [h] at hnext
  have hother (i : ℕ) (hne : i ≠ id) :
      (a.slots.set id (.vacant a.vacantHead))[i]? = a.slots[i]? := List.getElem?_set_ne hne.symm
  refine ⟨⟨a.slots.set id (.vacant a.vacantHead),some id,a.len-1⟩,by simp only [remove,h],
    ⟨⟨id::ids,⟨rfl,a.vacantHead,by simp [hlt],?_⟩,?_,?_⟩,?_⟩,?_⟩
  · exact hc.congr fun i hmem => hother i (by rintro rfl; exact hnot hmem)
  · exact List.nodup_cons.mpr ⟨hnot,hn⟩
  · intro i
    by_cases hne : i = id
    · subst hne
      simp [hlt]
    · rw [hother i hne,← hv i]
      simp [hne]
  · have := values_set_vacant_of_occupied h a.vacantHead
    simp only
    omega
  · funext i
    by_cases hne : i = id
    · subst hne
      simp [get?,hlt]
    · simp [get?,hother i hne,Function.update,hne]

theorem remove_panic (h : a.get? id = none) : ∃ message, a.remove id = (.error message,a) := by
  unfold remove
  unfold get? at h
  cases hs : a.slots[id]? with
  | none => exact ⟨_,rfl⟩
  | some slot =>
    cases slot with
    | occupied v => simp [hs] at h
    | vacant next =>
      refine ⟨_,Prod.ext rfl ?_⟩
      have hset : (a.slots.set id (.vacant a.vacantHead)).set id (.vacant next) = a.slots := by
        rw [List.set_set]
        obtain ⟨hlt,he⟩ := List.getElem?_eq_some_iff.mp hs
        rw [← he]
        exact List.set_getElem_self hlt
      simp [hset]

theorem remove_wf (ha : a.Wf) (id : SlotId) : (a.remove id).2.Wf := by
  cases h : a.get? id with
  | none =>
    obtain ⟨message,hm⟩ := remove_panic h
    rwa [hm]
  | some v =>
    obtain ⟨a',hr,hw,_⟩ := remove_spec ha h
    rwa [hr]

theorem takeAll_wf (a : Raw T) : a.takeAll.2.Wf := new_wf

theorem values_eq_nil : values slots = [] ↔ ∀ (i : ℕ) v, slots[i]? ≠ some (.occupied v) := by
  induction slots with
  | nil => simp [values]
  | cons slot slots ih =>
    cases slot with
    | occupied v =>
      constructor
      · intro h
        cases h
      · intro h
        exact absurd rfl (h 0 v)
    | vacant next =>
      simp only [values,ih]
      constructor
      · intro h i v
        cases i with
        | zero => simp
        | succ i => exact h i v
      · intro h i v
        exact h (i+1) v

theorem isEmpty_iff (ha : a.Wf) : a.isEmpty = true ↔ ∀ id, a.get? id = none := by
  rw [isEmpty,beq_iff_eq,ha.len_eq,List.length_eq_zero_iff,values_eq_nil]
  constructor
  · intro h id
    cases hg : a.get? id with
    | none => rfl
    | some v => exact absurd (get?_eq_some.mp hg) (h id v)
  · intro h id v hv
    rw [← get?_eq_some,h id] at hv
    cases hv

end Raw
end Arena

/-- An arena whose vacant list is exactly its vacant slots. -/
structure Arena (T : Type) where
  raw : Arena.Raw T
  wf : raw.Wf

namespace Arena

variable {T : Type} {a : Arena T} {id : SlotId} {v : T}

def new : Arena T := ⟨.new,Raw.new_wf⟩

def get? (a : Arena T) (id : SlotId) : Option T := a.raw.get? id

/-- The error arm is excluded by `Raw.insert_spec`. -/
def insert (a : Arena T) (v : T) : SlotId × Arena T :=
  match h : a.raw.insert v with
  | .ok r => (r.1,⟨r.2,Raw.insert_wf a.wf h⟩)
  | .error _ => (0,a)

def set (a : Arena T) (id : SlotId) (v : T) : Arena T := ⟨a.raw.set id v,Raw.set_wf a.wf id v⟩

def remove (a : Arena T) (id : SlotId) : Except String (T × Arena T) :=
  (a.raw.remove id).1.map fun v => (v,⟨(a.raw.remove id).2,Raw.remove_wf a.wf id⟩)

@[simp] theorem get?_new (id : SlotId) : (new : Arena T).get? id = none := rfl

theorem insert_spec (a : Arena T) (v : T) :
    a.get? (a.insert v).1 = none ∧
      (a.insert v).2.get? = Function.update a.get? (a.insert v).1 (some v) := by
  obtain ⟨id,a',h,hw,hfresh,hget⟩ := a.raw.insert_spec a.wf v
  have hi : a.insert v = (id,⟨a',hw⟩) := by
    unfold insert
    split
    · rename_i r hr
      rw [h] at hr
      cases hr
      rfl
    · rename_i e hr
      rw [h] at hr
      cases hr
  rw [hi]
  exact ⟨hfresh,hget⟩

theorem get?_set {w : T} (h : a.get? id = some w) (v : T) :
    (a.set id v).get? = Function.update a.get? id (some v) := Raw.get?_set h v

theorem remove_spec (h : a.get? id = some v) :
    ∃ a', a.remove id = .ok (v,a') ∧ a'.get? = Function.update a.get? id none := by
  obtain ⟨b,hb,hw,hget⟩ := Raw.remove_spec a.wf h
  exact ⟨⟨b,hw⟩,by simp [remove,hb,Except.map],hget⟩

def isEmpty (a : Arena T) : Bool := a.raw.isEmpty

theorem isEmpty_iff (a : Arena T) : a.isEmpty = true ↔ ∀ id, a.get? id = none :=
  Raw.isEmpty_iff a.wf

theorem get?_eq_none_of_length_le (a : Arena T) (h : a.raw.slots.length ≤ id) : a.get? id = none := by
  simp [get?,Raw.get?,List.getElem?_eq_none h]

def total (g : T → ℕ) (a : Arena T) : ℕ := Table.sumBelow a.raw.slots.length a.get? g

theorem total_update {a' : Arena T} {x : Option T} (h : a'.get? = Function.update a.get? id x)
    (g : T → ℕ) : a'.total g + (a.get? id).elim 0 g = a.total g + x.elim 0 g :=
  Table.sumBelow_update (fun _ => a.get?_eq_none_of_length_le)
    (fun _ => a'.get?_eq_none_of_length_le) h g

theorem le_total (g : T → ℕ) (h : a.get? id = some v) : g v ≤ a.total g :=
  Table.le_sumBelow g (fun _ => a.get?_eq_none_of_length_le) h

theorem exists_of_total_pos {g : T → ℕ} (h : 0 < a.total g) : ∃ id v, a.get? id = some v ∧ 0 < g v :=
  Table.exists_of_sumBelow_pos h

end Arena
end Asyncband
