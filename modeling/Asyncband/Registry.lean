import Asyncband.WaitList

/-! Waiter lists whose nodes belong to futures.
A future that waits keeps the bare id of its node, and the primitives detach, mark and
remove nodes by id. `Registry` says that ids and nodes match one to one, that a node is
linked exactly when its value says so, and that each value fits its owner; every list
operation that the primitives use keeps it, and never fails. -/
namespace Asyncband
namespace WaitList

variable {N α : Type} {x : Option N}

def waiterMut (w : WaitList N) (id : WaiterId) : Except String N :=
  match w.get? id with
  | some r => .ok r
  | none => .error "waiter id must refer to an occupied node"

/-- `unlink_waiter(id, |_| true)`, then `remove_unlinked_waiter(id)`. -/
def removeWaiter (w : WaitList N) (id : WaiterId) : Except String (N × WaitList N) := do
  let (_,w) ← w.unlinkWaiter id fun r => (true,r)
  w.removeUnlinkedWaiter id

/-- `unlink_first_waiter` with a predicate that marks and accepts, then an assignment
through the returned reference. `take` names what the caller moves out of the node. -/
def selectFirst (mark : N → N) (take : N → Except String (α × N)) (w : WaitList N) :
    Except String (Option α × WaitList N) :=
  match w.unlinkFirstWaiter fun r => (true,mark r) with
  | (none,w) => .ok (none,w)
  | (some (id,r),w) => do
    let (a,r) ← take r
    let w ← w.setWaiter id r
    .ok (some a,w)

/-- The loop over `selectFirst` until no node is linked. -/
def selectAll (mark : N → N) (take : N → Except String (α × N)) :
    ℕ → WaitList N → Except String (List α × WaitList N)
  | 0, w => .ok ([],w)
  | fuel+1, w => do
    match ← w.selectFirst mark take with
    | (none,w) => .ok ([],w)
    | (some a,w) => do
      let (taken,w) ← selectAll mark take fuel w
      .ok (a::taken,w)

def queue (w : WaitList N) : List N := w.order.filterMap w.get?

variable {w w' : WaitList N} {id : WaiterId} {ids : List WaiterId} {r : N}

theorem waiterMut_ok (h : w.get? id = some r) : w.waiterMut id = .ok r := by
  rw [waiterMut,h]

theorem removeWaiter_spec (h : w.get? id = some r) :
    ∃ w', w.removeWaiter id = .ok (r,w') ∧ w'.order = w.order.erase id ∧
      w'.get? = Function.update w.get? id none := by
  obtain ⟨u,hu,hou,hgu⟩ := unlinkWaiter_spec h fun r => (true,r)
  have hid : u.get? id = some r := by rw [hgu,Function.update_self]
  have hnot : id ∉ u.order := by
    rw [hou]
    exact w.order_nodup.not_mem_erase
  obtain ⟨w',hw,how,hgw⟩ := removeUnlinkedWaiter_spec hid hnot
  refine ⟨w',?_,how.trans hou,by rw [hgw,hgu,Function.update_idem]⟩
  simp only [removeWaiter,hu,bind,Except.bind]
  exact hw

theorem selectFirst_nil (h : w.order = []) (mark : N → N) (take : N → Except String (α × N)) :
    w.selectFirst mark take = .ok (none,w) := by
  rw [selectFirst,unlinkFirstWaiter_nil h]

theorem selectFirst_cons (h : w.order = id::ids) (hr : w.get? id = some r) (mark : N → N)
    {take : N → Except String (α × N)} {a : α} {r' : N} (htake : take (mark r) = .ok (a,r')) :
    ∃ w', w.selectFirst mark take = .ok (some a,w') ∧ w'.order = ids ∧
      w'.get? = Function.update w.get? id (some r') := by
  obtain ⟨u,hu,hou,hgu⟩ := unlinkFirstWaiter_cons h hr fun r => (true,mark r)
  have hid : u.get? id = some (mark r) := by rw [hgu,Function.update_self]
  obtain ⟨w',hw,how,hgw⟩ := setWaiter_spec hid r'
  refine ⟨w',?_,how.trans hou,by rw [hgw,hgu,Function.update_idem]⟩
  simp only [if_true] at hu
  simp only [selectFirst,hu,htake,hw,bind,Except.bind]

theorem queue_nil (h : w.order = []) : w.queue = [] := by
  rw [queue,h,List.filterMap_nil]

theorem queue_eq_nil : w.queue = [] ↔ w.order = [] := by
  refine ⟨fun h => ?_,queue_nil⟩
  rw [List.eq_nil_iff_forall_not_mem]
  intro id hid
  obtain ⟨r,hr⟩ := get?_of_mem_order hid
  have hm : r ∈ w.queue := List.mem_filterMap.mpr ⟨id,hid,hr⟩
  rw [h] at hm
  cases hm

theorem queue_congr {l : List WaiterId} (hid : id ∉ l) (hget : w'.get? = Function.update w.get? id x) :
    l.filterMap w'.get? = l.filterMap w.get? := by
  refine List.filterMap_congr fun i hi => ?_
  have hne : i ≠ id := fun heq => hid (heq ▸ hi)
  rw [hget,Function.update_of_ne hne]

theorem queue_cons (h : w.order = id::ids) (hr : w.get? id = some r) (ho : w'.order = ids)
    (hget : w'.get? = Function.update w.get? id x) : w.queue = r::w'.queue := by
  have hnd := w.order_nodup
  rw [h] at hnd
  rw [queue,queue,h,ho,List.filterMap_cons,hr,queue_congr (List.nodup_cons.mp hnd).1 hget]

theorem queue_push (hn : w.get? id = none) (ho : w'.order = w.order++[id])
    (hget : w'.get? = Function.update w.get? id (some r)) : w'.queue = w.queue++[r] := by
  have hnot : id ∉ w.order := by
    intro hid
    obtain ⟨q,hq⟩ := get?_of_mem_order hid
    rw [hn] at hq
    cases hq
  rw [queue,ho,List.filterMap_append,queue_congr hnot hget]
  simp [hget,queue]

theorem mem_queue : r ∈ w.queue ↔ ∃ id ∈ w.order, w.get? id = some r := List.mem_filterMap

/-- The loop takes from every linked node, in order, and marks exactly these. -/
theorem selectAll_spec (mark : N → N) (take : N → Except String (α × N)) (out : N → Option α)
    (marked : N → N)
    (htake : ∀ id ∈ w.order, ∀ r, w.get? id = some r →
      ∃ a, out r = some a ∧ take (mark r) = .ok (a,marked r))
    (fuel : ℕ) (hfuel : w.order.length ≤ fuel) :
    ∃ w', selectAll mark take fuel w = .ok (w.queue.filterMap out,w') ∧ w'.order = [] ∧
      ∀ id, w'.get? id = (w.get? id).map fun r => if id ∈ w.order then marked r else r := by
  induction fuel generalizing w with
  | zero =>
    have ho : w.order = [] := List.eq_nil_of_length_eq_zero (Nat.le_zero.mp hfuel)
    refine ⟨w,by rw [selectAll,queue_nil ho]; rfl,ho,?_⟩
    intro id
    simp [ho]
  | succ fuel ih =>
    cases ho : w.order with
    | nil =>
      refine ⟨w,?_,ho,by simp⟩
      simp only [selectAll,selectFirst_nil ho,queue_nil ho,bind,Except.bind]
      rfl
    | cons id ids =>
      obtain ⟨r,hr⟩ := get?_of_mem_order (show id ∈ w.order by simp [ho])
      obtain ⟨a,ha,htaken⟩ := htake id (by simp [ho]) r hr
      obtain ⟨u,hu,hou,hgu⟩ := selectFirst_cons ho hr mark htaken
      have hnd := w.order_nodup
      rw [ho] at hnd
      have hnot : id ∉ ids := (List.nodup_cons.mp hnd).1
      have hsame : ∀ i ∈ ids, u.get? i = w.get? i := by
        intro i hi
        have hne : i ≠ id := fun heq => hnot (heq ▸ hi)
        rw [hgu,Function.update_of_ne hne]
      obtain ⟨w',hw,ho',hg'⟩ := ih (w:=u) (by
        intro i hi r hr
        rw [hou] at hi
        rw [hsame i hi] at hr
        exact htake i (by simp [ho,hi]) r hr) (by
        rw [ho,List.length_cons] at hfuel
        rw [hou]
        omega)
      refine ⟨w',?_,ho',?_⟩
      · simp only [selectAll,hu,hw,bind,Except.bind,queue_cons ho hr hou hgu,List.filterMap_cons,ha]
      · intro i
        rw [hg',hou]
        by_cases hi : i = id
        · subst hi
          simp [hgu,hr,hnot]
        · rw [hgu,Function.update_of_ne hi]
          simp [hi]

end WaitList

/-- `slot` gives the id that each future holds. -/
structure Registry {N : Type} (owner : N → ℕ) (linked : N → Prop) (fits : ℕ → N → Prop)
    (w : WaitList N) (slot : ℕ → Option WaiterId) : Prop where
  held : ∀ f id, slot f = some id → ∃ r, w.get? id = some r ∧ owner r = f
  owned : ∀ id r, w.get? id = some r → slot (owner r) = some id
  linked : ∀ id r, w.get? id = some r → (id ∈ w.order ↔ linked r)
  fits : ∀ id r, w.get? id = some r → fits (owner r) r

namespace Registry

variable {N α : Type} {owner : N → ℕ} {linked : N → Prop} {fits : ℕ → N → Prop}
  {w w' : WaitList N} {slot : ℕ → Option WaiterId} {f : ℕ} {id : WaiterId} {r : N}

theorem new : Registry owner linked fits (.new : WaitList N) fun _ => none where
  held := by simp
  owned := by simp
  linked := by simp
  fits := by simp

section

variable (h : Registry owner linked fits w slot)
include h

theorem owner_eq (hr : w.get? id = some r) (hf : slot f = some id) : owner r = f := by
  obtain ⟨r',hr',ho⟩ := h.held f id hf
  rw [hr] at hr'
  cases hr'
  exact ho

/-- One node is written for its owner, or a new one for a future without a node. -/
theorem write (fits' : ℕ → N → Prop) (hf : slot f = some id ∨ slot f = none ∧ w.get? id = none)
    (hr : owner r = f) (hget : w'.get? = Function.update w.get? id (some r))
    (horder : ∀ i, i ≠ id → (i ∈ w'.order ↔ i ∈ w.order)) (hlinked : id ∈ w'.order ↔ linked r)
    (hfits : fits' f r) (hother : ∀ g r, g ≠ f → fits g r → fits' g r) :
    Registry owner linked fits' w' (Function.update slot f (some id)) := by
  have hcases : ∀ i q, w'.get? i = some q → (i = id ∧ q = r) ∨
      (i ≠ id ∧ w.get? i = some q ∧ owner q ≠ f) := by
    intro i q hq
    by_cases hi : i = id
    · rw [hget,hi,Function.update_self] at hq
      exact Or.inl ⟨hi,(Option.some.inj hq).symm⟩
    · rw [hget,Function.update_of_ne hi] at hq
      refine Or.inr ⟨hi,hq,fun ho => ?_⟩
      have hs := ho ▸ h.owned i q hq
      rcases hf with hf | ⟨hf,-⟩
      · exact hi (Option.some.inj (hs.symm.trans hf))
      · rw [hf] at hs
        cases hs
  constructor
  · intro g i hg
    by_cases hgf : g = f
    · rw [hgf,Function.update_self] at hg
      cases hg
      exact ⟨r,by rw [hget,Function.update_self],hr.trans hgf.symm⟩
    · rw [Function.update_of_ne hgf] at hg
      obtain ⟨q,hq,ho⟩ := h.held g i hg
      have hne : i ≠ id := by
        intro hi
        rcases hf with hf | ⟨-,hf⟩
        · exact hgf (ho.symm.trans (h.owner_eq hq (hi ▸ hf)))
        · rw [hi,hf] at hq
          cases hq
      exact ⟨q,by rw [hget,Function.update_of_ne hne,hq],ho⟩
  · intro i q hq
    rcases hcases i q hq with ⟨rfl,rfl⟩ | ⟨-,hq,hne⟩
    · rw [hr,Function.update_self]
    · rw [Function.update_of_ne hne]
      exact h.owned i q hq
  · intro i q hq
    rcases hcases i q hq with ⟨rfl,rfl⟩ | ⟨hi,hq,-⟩
    · exact hlinked
    · rw [horder i hi]
      exact h.linked i q hq
  · intro i q hq
    rcases hcases i q hq with ⟨rfl,rfl⟩ | ⟨-,hq,hne⟩
    · rw [hr]
      exact hfits
    · exact hother _ _ hne (h.fits i q hq)

theorem erase (fits' : ℕ → N → Prop) (hf : slot f = some id)
    (hget : w'.get? = Function.update w.get? id none)
    (horder : ∀ i, i ≠ id → (i ∈ w'.order ↔ i ∈ w.order))
    (hother : ∀ g r, g ≠ f → fits g r → fits' g r) :
    Registry owner linked fits' w' (Function.update slot f none) := by
  have hcases : ∀ i q, w'.get? i = some q → i ≠ id ∧ w.get? i = some q ∧ owner q ≠ f := by
    intro i q hq
    by_cases hi : i = id
    · rw [hget,hi,Function.update_self] at hq
      cases hq
    · rw [hget,Function.update_of_ne hi] at hq
      refine ⟨hi,hq,fun ho => hi ?_⟩
      exact Option.some.inj ((ho ▸ h.owned i q hq).symm.trans hf)
  constructor
  · intro g i hg
    have hgf : g ≠ f := by
      intro hgf
      rw [hgf,Function.update_self] at hg
      cases hg
    rw [Function.update_of_ne hgf] at hg
    obtain ⟨q,hq,ho⟩ := h.held g i hg
    have hne : i ≠ id := fun hi => hgf (ho.symm.trans (h.owner_eq hq (hi ▸ hf)))
    exact ⟨q,by rw [hget,Function.update_of_ne hne,hq],ho⟩
  · intro i q hq
    obtain ⟨-,hq,hne⟩ := hcases i q hq
    rw [Function.update_of_ne hne]
    exact h.owned i q hq
  · intro i q hq
    obtain ⟨hi,hq,-⟩ := hcases i q hq
    rw [horder i hi]
    exact h.linked i q hq
  · intro i q hq
    obtain ⟨-,hq,hne⟩ := hcases i q hq
    exact hother _ _ hne (h.fits i q hq)

theorem refit (fits' : ℕ → N → Prop) (hr : w.get? id = some r) (hfits : fits' (owner r) r)
    (hother : ∀ g q, g ≠ owner r → fits g q → fits' g q) : Registry owner linked fits' w slot := by
  refine ⟨h.held,h.owned,h.linked,fun i q hq => ?_⟩
  by_cases hqr : owner q = owner r
  · have hi : i = id := Option.some.inj ((hqr ▸ h.owned i q hq).symm.trans (h.owned id r hr))
    rw [hi,hr] at hq
    cases hq
    exact hfits
  · exact hother _ q hqr (h.fits i q hq)

theorem refit_absent (fits' : ℕ → N → Prop) (hf : slot f = none)
    (hother : ∀ g q, g ≠ f → fits g q → fits' g q) : Registry owner linked fits' w slot := by
  refine ⟨h.held,h.owned,h.linked,fun i q hq => hother _ q ?_ (h.fits i q hq)⟩
  intro heq
  have hslot := h.owned i q hq
  rw [heq,hf] at hslot
  cases hslot

end

theorem get?_other {x : Option N} (hget : w'.get? = Function.update w.get? id x)
    (hold : ∀ q, w.get? id = some q → owner q = f) (hnew : ∀ q, x = some q → owner q = f) {i : WaiterId}
    (hne : owner r ≠ f) : w'.get? i = some r ↔ w.get? i = some r := by
  by_cases hi : i = id
  · subst hi
    rw [hget,Function.update_self]
    exact iff_of_false (fun h => hne (hnew r h)) fun h => hne (hold r h)
  · rw [hget,Function.update_of_ne hi]

section

variable (h : Registry owner linked fits w slot)
include h

theorem get?_linked (hid : id ∈ w.order) : ∃ r, w.get? id = some r ∧ linked r := by
  obtain ⟨r,hr⟩ := WaitList.get?_of_mem_order hid
  exact ⟨r,hr,(h.linked id r hr).mp hid⟩

theorem mem_queue : r ∈ w.queue ↔ linked r ∧ ∃ id, w.get? id = some r := by
  rw [WaitList.mem_queue]
  constructor
  · rintro ⟨id,hid,hr⟩
    exact ⟨(h.linked id r hr).mp hid,id,hr⟩
  · rintro ⟨hl,id,hr⟩
    exact ⟨id,(h.linked id r hr).mpr hl,hr⟩

theorem pushBack (fits' : ℕ → N → Prop) (hf : slot f = none) (hr : owner r = f) (hl : linked r)
    (hfits : fits' f r) (hother : ∀ g r, g ≠ f → fits g r → fits' g r) :
    ∃ id w', w.pushBack r = (id,w') ∧ w'.queue = w.queue++[r] ∧
      w'.get? = Function.update w.get? id (some r) ∧ w.get? id = none ∧
      Registry owner linked fits' w' (Function.update slot f (some id)) := by
  obtain ⟨id,w',hp,hn,ho,hg⟩ := w.pushBack_spec r
  refine ⟨id,w',hp,WaitList.queue_push hn ho hg,hg,hn,?_⟩
  apply h.write fits' (Or.inr ⟨hf,hn⟩) hr hg _ _ hfits hother
  · intro i hi
    simp [ho,hi]
  · exact iff_of_true (by simp [ho]) hl

theorem selectFirst (mark : N → N) (take : N → Except String (α × N)) (out : N → Option α)
    (marked : N → N) (htake : ∀ r, linked r → ∃ a, out r = some a ∧ take (mark r) = .ok (a,marked r))
    (hmarked : ∀ r, owner (marked r) = owner r) (hlinked : ∀ r, ¬ linked (marked r)) :
    w.order = [] ∧ w.selectFirst mark take = .ok (none,w) ∨
    ∃ id r a w', w.selectFirst mark take = .ok (some a,w') ∧ w.get? id = some r ∧ linked r ∧
      out r = some a ∧ w.order = id::w'.order ∧ w.queue = r::w'.queue ∧
      w'.get? = Function.update w.get? id (some (marked r)) ∧
      ∀ fits' : ℕ → N → Prop, fits' (owner r) (marked r) →
        (∀ g q, g ≠ owner r → fits g q → fits' g q) → Registry owner linked fits' w' slot := by
  cases ho : w.order with
  | nil => exact Or.inl ⟨rfl,WaitList.selectFirst_nil ho mark take⟩
  | cons id ids =>
    right
    obtain ⟨r,hr,hl⟩ := h.get?_linked (show id ∈ w.order by simp [ho])
    obtain ⟨a,ha,htaken⟩ := htake r hl
    obtain ⟨w',hw,ho',hg⟩ := WaitList.selectFirst_cons ho hr mark htaken
    have hnd := w.order_nodup
    rw [ho] at hnd
    have hslot : slot (owner r) = some id := h.owned id r hr
    refine ⟨id,r,a,w',hw,hr,hl,ha,by rw [ho'],WaitList.queue_cons ho hr ho' hg,hg,?_⟩
    intro fits' hfits hother
    have hwrite : Registry owner linked fits' w' (Function.update slot (owner r) (some id)) := by
      apply h.write fits' (Or.inl hslot) (hmarked r) hg _ _ hfits hother
      · intro i hi
        rw [ho,ho',List.mem_cons,or_iff_right hi]
      · rw [ho']
        exact iff_of_false (List.nodup_cons.mp hnd).1 (hlinked r)
    rwa [← hslot,Function.update_eq_self] at hwrite

theorem selectAll (mark : N → N) (take : N → Except String (α × N)) (out : N → Option α)
    (marked : N → N) (htake : ∀ r, linked r → ∃ a, out r = some a ∧ take (mark r) = .ok (a,marked r))
    (hmarked : ∀ r, owner (marked r) = owner r) (hlinked : ∀ r, ¬ linked (marked r)) :
    ∃ w', WaitList.selectAll mark take w.order.length w = .ok (w.queue.filterMap out,w') ∧
      w'.order = [] ∧
      (∀ id, w'.get? id = (w.get? id).map fun r => if id ∈ w.order then marked r else r) ∧
      ∀ fits' : ℕ → N → Prop, (∀ id r, w.get? id = some r → linked r → fits' (owner r) (marked r)) →
        (∀ id r, w.get? id = some r → ¬ linked r → fits (owner r) r → fits' (owner r) r) →
        Registry owner linked fits' w' slot := by
  obtain ⟨w',hw,ho,hg⟩ := WaitList.selectAll_spec mark take out marked
    (fun id hid r hr => htake r ((h.linked id r hr).mp hid)) w.order.length le_rfl
  refine ⟨w',hw,ho,hg,fun fits' hfits hother => ?_⟩
  -- a node of the new list is a marked linked one or a detached one as it was
  have hcases : ∀ i q, w'.get? i = some q → ∃ r, w.get? i = some r ∧ owner q = owner r ∧
      ¬ linked q ∧ fits' (owner r) q := by
    intro i q hq
    rw [hg] at hq
    obtain ⟨r,hr,rfl⟩ := Option.map_eq_some_iff.mp hq
    refine ⟨r,hr,?_⟩
    split
    · next hi => exact ⟨hmarked r,hlinked r,hfits i r hr ((h.linked i r hr).mp hi)⟩
    · next hi =>
      have hl : ¬ linked r := fun hl => hi ((h.linked i r hr).mpr hl)
      exact ⟨rfl,hl,hother i r hr hl (h.fits i r hr)⟩
  constructor
  · intro f i hf
    obtain ⟨r,hr,rfl⟩ := h.held f i hf
    refine ⟨_,by rw [hg,hr]; rfl,?_⟩
    split
    · exact hmarked r
    · rfl
  · intro i q hq
    obtain ⟨r,hr,hq,-⟩ := hcases i q hq
    rw [hq]
    exact h.owned i r hr
  · intro i q hq
    obtain ⟨-,-,-,hl,-⟩ := hcases i q hq
    rw [ho]
    exact iff_of_false List.not_mem_nil hl
  · intro i q hq
    obtain ⟨r,-,hq,-,hfits⟩ := hcases i q hq
    rw [hq]
    exact hfits

theorem map_owner_erase (hf : slot f = some id) (ho : w'.order = w.order.erase id)
    (hget : w'.get? = Function.update w.get? id none) :
    w'.queue.map owner = (w.queue.map owner).filter (· ≠ f) := by
  have hnot : id ∉ w.order.erase id := w.order_nodup.not_mem_erase
  rw [WaitList.queue,ho,WaitList.queue_congr hnot hget,WaitList.queue,
    w.order_nodup.erase_eq_filter,List.map_filterMap,List.map_filterMap,List.filterMap_filter,
    List.filter_filterMap]
  refine List.filterMap_congr fun i hi => ?_
  obtain ⟨q,hq⟩ := WaitList.get?_of_mem_order hi
  by_cases hi' : i = id
  · subst hi'
    have hqf : owner q = f := h.owner_eq hq hf
    simp [hq,hqf,Option.filter]
  · have hne : owner q ≠ f := fun heq =>
      hi' (Option.some.inj ((heq ▸ h.owned i q hq).symm.trans hf))
    simp [hi',hq,hne,Option.filter]

theorem removeWaiter (fits' : ℕ → N → Prop) (hf : slot f = some id)
    (hother : ∀ g r, g ≠ f → fits g r → fits' g r) :
    ∃ r w', w.get? id = some r ∧ owner r = f ∧ w.removeWaiter id = .ok (r,w') ∧
      w'.order = w.order.erase id ∧ w'.queue.map owner = (w.queue.map owner).filter (· ≠ f) ∧
      w'.get? = Function.update w.get? id none ∧
      Registry owner linked fits' w' (Function.update slot f none) := by
  obtain ⟨r,hr,hrf⟩ := h.held f id hf
  obtain ⟨w',hrem,ho,hg⟩ := WaitList.removeWaiter_spec hr
  refine ⟨r,w',hr,hrf,hrem,ho,h.map_owner_erase hf ho hg,hg,h.erase fits' hf hg ?_ hother⟩
  intro i hi
  rw [ho,List.mem_erase_of_ne hi]

theorem removeUnlinked (fits' : ℕ → N → Prop) (hr : w.get? id = some r) (hl : ¬ linked r)
    (hother : ∀ g q, g ≠ owner r → fits g q → fits' g q) :
    ∃ w', w.removeUnlinkedWaiter id = .ok (r,w') ∧ w'.order = w.order ∧ w'.queue = w.queue ∧
      w'.get? = Function.update w.get? id none ∧
      Registry owner linked fits' w' (Function.update slot (owner r) none) := by
  have hnot : id ∉ w.order := fun hid => hl ((h.linked id r hr).mp hid)
  obtain ⟨w',hrem,ho,hg⟩ := WaitList.removeUnlinkedWaiter_spec hr hnot
  refine ⟨w',hrem,ho,?_,hg,h.erase fits' (h.owned id r hr) hg ?_ hother⟩
  · rw [WaitList.queue,WaitList.queue,ho,WaitList.queue_congr hnot hg]
  · intro i _
    rw [ho]

/-- The value of a node is replaced by one of the same owner and the same kind. -/
theorem setWaiter (fits' : ℕ → N → Prop) (hr : w.get? id = some r) (r' : N)
    (howner : owner r' = owner r) (hl : linked r' ↔ linked r) (hfits : fits' (owner r) r')
    (hother : ∀ g q, g ≠ owner r → fits g q → fits' g q) :
    ∃ w', w.setWaiter id r' = .ok w' ∧ w'.order = w.order ∧
      w'.queue.map owner = w.queue.map owner ∧
      w'.get? = Function.update w.get? id (some r') ∧ Registry owner linked fits' w' slot := by
  obtain ⟨w',hset,ho,hg⟩ := WaitList.setWaiter_spec hr r'
  have hslot : slot (owner r) = some id := h.owned id r hr
  refine ⟨w',hset,ho,?_,hg,?_⟩
  · rw [WaitList.queue,WaitList.queue,ho,List.map_filterMap,List.map_filterMap]
    refine List.filterMap_congr fun i _ => ?_
    by_cases hi : i = id
    · subst hi
      simp [hg,hr,howner]
    · rw [hg,Function.update_of_ne hi]
  · have hwrite : Registry owner linked fits' w' (Function.update slot (owner r) (some id)) := by
      apply h.write fits' (Or.inl hslot) howner hg _ _ hfits hother
      · intro i _
        rw [ho]
      · rw [ho,hl]
        exact h.linked id r hr
    rwa [← hslot,Function.update_eq_self] at hwrite

end

end Registry
end Asyncband
