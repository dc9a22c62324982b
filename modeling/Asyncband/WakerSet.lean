import Asyncband.Roster

/-! Wakers registered under tokens that carry no generation.
A token is a slot of the arena and nothing tells a current token from one whose slot was
emptied and given away again. `Enrolled` says what the primitives that use a set must
maintain: the tokens that still count are exactly the occupied slots, one owner each, and
every slot holds a waker for the task that polled its owner last. -/
namespace Asyncband

namespace Arena

variable {T : Type} {v : T}

def takeAll (a : Arena T) : List T × Arena T :=
  (a.raw.takeAll.1,⟨a.raw.takeAll.2,Raw.takeAll_wf a.raw⟩)

theorem mem_values {slots : List (Slot T)} :
    v ∈ Raw.values slots ↔ ∃ i : ℕ, slots[i]? = some (.occupied v) := by
  induction slots with
  | nil => simp [Raw.values]
  | cons slot slots ih =>
    have hcons : (∃ i : ℕ, (slot::slots)[i]? = some (.occupied v)) ↔
        slot = .occupied v ∨ ∃ i : ℕ, slots[i]? = some (.occupied v) := by
      constructor
      · rintro ⟨i,hi⟩
        cases i with
        | zero => exact .inl (Option.some.inj hi)
        | succ i => exact .inr ⟨i,hi⟩
      · rintro (rfl | ⟨i,hi⟩)
        · exact ⟨0,rfl⟩
        · exact ⟨i+1,hi⟩
    rw [hcons]
    cases slot with
    | occupied u =>
      rw [Raw.values,List.mem_cons,ih,Slot.occupied.injEq]
      exact or_congr eq_comm Iff.rfl
    | vacant next => simp [Raw.values,ih]

theorem mem_takeAll {a : Arena T} : v ∈ a.takeAll.1 ↔ ∃ id, a.get? id = some v := by
  have hvalues : v ∈ a.takeAll.1 ↔ v ∈ Raw.values a.raw.slots := Iff.rfl
  rw [hvalues,mem_values]
  exact exists_congr fun id => Raw.get?_eq_some.symm

@[simp] theorem get?_takeAll (a : Arena T) (id : SlotId) : a.takeAll.2.get? id = none := rfl

end Arena

structure WakerSet (W : Type) where
  wakers : Arena W

namespace WakerSet

variable {W : Type}

def new : WakerSet W := ⟨.new⟩

/-- Without the replaced waker, which is handed back to be dropped. -/
def register [Wake W] (s : WakerSet W) (token : Option SlotId) (waker : W) :
    Except String (SlotId × WakerSet W) :=
  match token with
  | some id =>
    match s.wakers.get? id with
    | none => .error "waker token must refer to an occupied slot"
    | some current =>
      if Wake.willWake current waker then .ok (id,s) else .ok (id,⟨s.wakers.set id waker⟩)
  | none => .ok ((s.wakers.insert waker).1,⟨(s.wakers.insert waker).2⟩)

def unregister (s : WakerSet W) (token : Option SlotId) : Except String (WakerSet W) :=
  match token with
  | none => .ok s
  | some id => do
    let (_,wakers) ← s.wakers.remove id
    .ok ⟨wakers⟩

def takeAll (s : WakerSet W) : List W × WakerSet W :=
  if s.wakers.isEmpty then ([],s) else (s.wakers.takeAll.1,⟨s.wakers.takeAll.2⟩)

/-- `wake_all` consumes the set; these are the wakers it wakes. -/
def wakeAll (s : WakerSet W) : List W := s.wakers.takeAll.1

theorem mem_wakeAll {s : WakerSet W} {waker : W} :
    waker ∈ s.wakeAll ↔ ∃ id, s.wakers.get? id = some waker := Arena.mem_takeAll

theorem takeAll_eq (s : WakerSet W) : s.takeAll.1 = s.wakeAll := by
  rw [takeAll,wakeAll]
  split
  · rename_i h
    symm
    rw [List.eq_nil_iff_forall_not_mem]
    intro waker hw
    obtain ⟨id,hid⟩ := mem_wakeAll.mp hw
    rw [s.wakers.isEmpty_iff.mp h id] at hid
    cases hid
  · rfl

theorem get?_takeAll (s : WakerSet W) (id : SlotId) : s.takeAll.2.wakers.get? id = none := by
  rw [takeAll]
  split
  · rename_i h
    exact s.wakers.isEmpty_iff.mp h id
  · exact Arena.get?_takeAll _ id

end WakerSet

/-- `slot` gives the token of each owner as far as it still counts, `latest` the waker of
the owner's latest poll. -/
structure Enrolled {W : Type} [Wake W] (s : WakerSet W) (slot : ℕ → Option SlotId)
    (latest : ℕ → Option W) : Prop where
  held : ∀ p id, slot p = some id → ∃ waker, s.wakers.get? id = some waker ∧
    Reaches waker (latest p)
  inj : ∀ p q id, slot p = some id → slot q = some id → p = q
  owned : ∀ id waker, s.wakers.get? id = some waker → ∃ p, slot p = some id

namespace Enrolled

variable {W : Type} [Wake W] {s : WakerSet W} {slot : ℕ → Option SlotId} {latest : ℕ → Option W}
variable {p : ℕ} {id : SlotId} {waker : W}

theorem of_empty (hs : ∀ id, s.wakers.get? id = none) (latest : ℕ → Option W) :
    Enrolled s (fun _ => none) latest := by
  refine ⟨by simp,by simp,?_⟩
  intro id waker hid
  rw [hs id] at hid
  cases hid

theorem of_unclaimed {α : Type} {key : α → Option SlotId} {rows : List α}
    (hkey : ∀ (i : ℕ) x, rows[i]? = some x → key x = none) (hs : ∀ id, s.wakers.get? id = none)
    (latest : ℕ → Option W) : Enrolled s (Table.lookup key rows) latest := by
  have hslot : Table.lookup key rows = fun _ => none := by
    funext i
    rw [Table.lookup]
    cases hi : rows[i]? with
    | none => rfl
    | some x => exact hkey i x hi
  rw [hslot]
  exact of_empty hs latest

section

variable (h : Enrolled s slot latest)
include h

theorem congr {slot' : ℕ → Option SlotId} {latest' : ℕ → Option W} (hslot : slot' = slot)
    (hlatest : ∀ p id, slot p = some id → latest' p = latest p) : Enrolled s slot' latest' := by
  subst hslot
  refine ⟨?_,h.inj,h.owned⟩
  intro p id hp
  rw [hlatest p id hp]
  exact h.held p id hp

theorem write {t : WakerSet W} {current : W} (hfree : ∀ q, slot q = some id → q = p)
    (ht : t.wakers.get? = Function.update s.wakers.get? id (some waker))
    (hp : ∀ k, slot p = some k → k = id) (hreach : Reaches waker (some current)) :
    Enrolled t (Function.update slot p (some id)) (Function.update latest p (some current)) := by
  refine ⟨?_,?_,?_⟩
  · intro q k hq
    by_cases hqp : q = p
    · subst hqp
      rw [Function.update_self] at hq
      cases hq
      exact ⟨waker,by rw [ht,Function.update_self],by rw [Function.update_self]; exact hreach⟩
    · rw [Function.update_of_ne hqp] at hq
      have hk : k ≠ id := by
        rintro rfl
        exact hqp (hfree q hq)
      obtain ⟨w,hw,hr⟩ := h.held q k hq
      exact ⟨w,by rw [ht,Function.update_of_ne hk,hw],by rw [Function.update_of_ne hqp]; exact hr⟩
  · intro q r k hq hr
    by_cases hqp : q = p <;> by_cases hrp : r = p
    · rw [hqp,hrp]
    · subst hqp
      rw [Function.update_self] at hq
      rw [Function.update_of_ne hrp] at hr
      cases hq
      exact absurd (hfree r hr) hrp
    · subst hrp
      rw [Function.update_self] at hr
      rw [Function.update_of_ne hqp] at hq
      cases hr
      exact absurd (hfree q hq) hqp
    · rw [Function.update_of_ne hqp] at hq
      rw [Function.update_of_ne hrp] at hr
      exact h.inj q r k hq hr
  · intro k w hk
    by_cases hkid : k = id
    · subst hkid
      exact ⟨p,Function.update_self ..⟩
    · rw [ht,Function.update_of_ne hkid] at hk
      obtain ⟨q,hq⟩ := h.owned k w hk
      have hqp : q ≠ p := by
        rintro rfl
        exact hkid (hp k hq)
      exact ⟨q,by rw [Function.update_of_ne hqp,hq]⟩

theorem register (p : ℕ) (waker : W) :
    ∃ id t, s.register (slot p) waker = .ok (id,t) ∧
      Enrolled t (Function.update slot p (some id)) (Function.update latest p (some waker)) := by
  cases hp : slot p with
  | none =>
    obtain ⟨hfresh,hget⟩ := s.wakers.insert_spec waker
    refine ⟨_,_,rfl,h.write ?_ hget (by simp [hp]) ⟨waker,rfl,.inl rfl⟩⟩
    intro q hq
    obtain ⟨w,hw,-⟩ := h.held q _ hq
    rw [hfresh] at hw
    cases hw
  | some id =>
    obtain ⟨current,hc,-⟩ := h.held p id hp
    have hfree : ∀ q, slot q = some id → q = p := fun q hq => h.inj q p id hq hp
    have hsame : ∀ k, slot p = some k → k = id := by
      intro k hk
      rw [hp] at hk
      exact (Option.some.inj hk).symm
    by_cases hwill : Wake.willWake current waker = true
    · refine ⟨id,s,by simp only [WakerSet.register,hc,if_pos hwill],?_⟩
      refine h.write hfree ?_ hsame ⟨waker,rfl,.inr hwill⟩
      rw [← hc,Function.update_eq_self]
    · refine ⟨id,⟨s.wakers.set id waker⟩,by simp only [WakerSet.register,hc,if_neg hwill],?_⟩
      exact h.write hfree (Arena.get?_set hc waker) hsame ⟨waker,rfl,.inl rfl⟩

theorem unregister (hp : slot p = some id) :
    ∃ t, s.unregister (some id) = .ok t ∧
      t.wakers.get? = Function.update s.wakers.get? id none ∧
      Enrolled t (Function.update slot p none) latest := by
  obtain ⟨waker,hw,-⟩ := h.held p id hp
  obtain ⟨a,ha,hget⟩ := Arena.remove_spec hw
  refine ⟨⟨a⟩,by simp only [WakerSet.unregister,ha,bind,Except.bind],hget,?_,?_,?_⟩
  · intro q k hq
    have hqp : q ≠ p := by
      rintro rfl
      rw [Function.update_self] at hq
      cases hq
    rw [Function.update_of_ne hqp] at hq
    have hk : k ≠ id := by
      rintro rfl
      exact hqp (h.inj q p k hq hp)
    obtain ⟨w,hw,hr⟩ := h.held q k hq
    exact ⟨w,by rw [hget,Function.update_of_ne hk,hw],hr⟩
  · intro q r k hq hr
    by_cases hqp : q = p
    · subst hqp
      rw [Function.update_self] at hq
      cases hq
    · by_cases hrp : r = p
      · subst hrp
        rw [Function.update_self] at hr
        cases hr
      · rw [Function.update_of_ne hqp] at hq
        rw [Function.update_of_ne hrp] at hr
        exact h.inj q r k hq hr
  · intro k w hk
    have hkid : k ≠ id := by
      rintro rfl
      rw [hget,Function.update_self] at hk
      cases hk
    rw [hget,Function.update_of_ne hkid] at hk
    obtain ⟨q,hq⟩ := h.owned k w hk
    have hqp : q ≠ p := by
      rintro rfl
      rw [hp] at hq
      exact hkid (Option.some.inj hq).symm
    exact ⟨q,by rw [Function.update_of_ne hqp,hq]⟩

theorem mem_wakeAll :
    waker ∈ s.wakeAll ↔ ∃ p id, slot p = some id ∧ s.wakers.get? id = some waker := by
  rw [WakerSet.mem_wakeAll]
  constructor
  · rintro ⟨id,hid⟩
    obtain ⟨p,hp⟩ := h.owned id waker hid
    exact ⟨p,id,hp,hid⟩
  · rintro ⟨p,id,-,hid⟩
    exact ⟨id,hid⟩

end

theorem takeAll (s : WakerSet W) (latest : ℕ → Option W) :
    Enrolled s.takeAll.2 (fun _ => none) latest :=
  of_empty s.get?_takeAll latest

end Enrolled
end Asyncband
