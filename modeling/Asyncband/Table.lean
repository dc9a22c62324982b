import Mathlib.Algebra.BigOperators.Group.Finset.Basic
import Mathlib.Algebra.BigOperators.Group.List.Basic
import Mathlib.Algebra.BigOperators.Intervals
import Mathlib.Algebra.Order.BigOperators.Group.List
import Mathlib.Algebra.Order.BigOperators.Group.Finset
import Mathlib.Data.List.GetD
import Mathlib.Tactic.Ring

/-! Growing tables of components, addressed by the position at which each
component was created, and partial maps on the numbers. An update touches one entry,
so a total over all entries changes by that entry alone. -/
namespace Asyncband
namespace Table

variable {α β : Type}
variable {f g : α → ℕ} {l : List α} {i j n k : ℕ} {x y : α} {key : α → Option ℕ} {ks : List ℕ}
    {P : ℕ → α → Prop} {m : ℕ → Option α}

def total (f : α → ℕ) (l : List α) : ℕ := (l.map f).sum

@[simp] theorem total_nil (f : α → ℕ) : total f [] = 0 := rfl

@[simp] theorem total_cons (f : α → ℕ) (x : α) (l : List α) : total f (x::l) = f x + total f l := by
  simp [total]

@[simp] theorem total_append (f : α → ℕ) (l m : List α) :
    total f (l++m) = total f l + total f m := by
  simp [total]

theorem total_add (f g : α → ℕ) (l : List α) :
    total (fun x => f x + g x) l = total f l + total g l := by
  simp [total,List.sum_map_add]

theorem total_eq_sum_range (f : α → ℕ) (l : List α) :
    total f l = ∑ i ∈ Finset.range l.length, (l[i]?).elim 0 f := by
  induction l with
  | nil => rfl
  | cons x l ih =>
    rw [List.length_cons,Finset.sum_range_succ']
    simp [ih,Nat.add_comm]

theorem total_le (h : ∀ x ∈ l, f x ≤ g x) : total f l ≤ total g l :=
  List.sum_le_sum h

theorem total_congr (h : ∀ x ∈ l, f x = g x) : total f l = total g l := by
  rw [total,List.map_congr_left h,total]

theorem total_set_congr (h : l[i]? = some x) (y : α)
    (hother : ∀ (j : ℕ) z, j ≠ i → l[j]? = some z → g z = f z) :
    total g (l.set i y) + f x = total f l + g y := by
  induction l generalizing i with
  | nil => simp at h
  | cons a l ih =>
    cases i with
    | zero =>
      simp only [List.getElem?_cons_zero,Option.some.injEq] at h
      subst a
      have hl : total g l = total f l := by
        apply total_congr
        intro z hz
        obtain ⟨j,hj⟩ := List.mem_iff_getElem?.mp hz
        exact hother (j+1) z (Nat.succ_ne_zero j) (by simpa using hj)
      simp only [List.set_cons_zero,total_cons]
      omega
    | succ i =>
      have hi := ih (i:=i) (by simpa using h) fun j z hj hz =>
        hother (j+1) z (by omega) (by simpa using hz)
      have ha := hother 0 a (Nat.succ_ne_zero i).symm rfl
      simp only [List.set_cons_succ,total_cons]
      omega

theorem total_set (f : α → ℕ) (h : l[i]? = some x) (y : α) :
    total f (l.set i y) + f x = total f l + f y :=
  total_set_congr h y fun _ _ _ _ => rfl

theorem le_total (f : α → ℕ) (h : l[i]? = some x) : f x ≤ total f l := by
  have hm : f x ∈ l.map f := List.mem_map_of_mem (List.mem_of_getElem? h)
  exact List.single_le_sum (by simp) _ hm

theorem add_le_total (f : α → ℕ) (hij : i ≠ j) (hi : l[i]? = some x) (hj : l[j]? = some y) :
    f x + f y ≤ total f l := by
  induction l generalizing i j with
  | nil => simp at hi
  | cons a l ih =>
    rcases i with _ | i <;> rcases j with _ | j
    · exact absurd rfl hij
    · have h := le_total f (l:=l) (by simpa using hj)
      simp only [List.getElem?_cons_zero,Option.some.injEq] at hi
      subst a
      simp only [total_cons]
      omega
    · have h := le_total f (l:=l) (by simpa using hi)
      simp only [List.getElem?_cons_zero,Option.some.injEq] at hj
      subst a
      simp only [total_cons]
      omega
    · have h := ih (i:=i) (j:=j) (by omega) (by simpa using hi) (by simpa using hj)
      simp only [total_cons]
      omega

theorem total_eq_zero : total f l = 0 ↔ ∀ (i : ℕ) x, l[i]? = some x → f x = 0 := by
  constructor
  · intro h i x hx
    have := le_total f hx
    omega
  · intro h
    induction l with
    | nil => rfl
    | cons a l ih =>
      have ha := h 0 a (by simp)
      have hl := ih fun i x hx => h (i+1) x (by simpa using hx)
      simp [ha,hl]

/-- Two weights compared entry by entry: every entry can spare `k`, except that
entry `i` may be `n` short. -/
theorem total_trade {k : α → ℕ} (hi : l[i]? = some x) (hx : f x + k x ≤ g x + n)
    (h : ∀ (j : ℕ) y, j ≠ i → l[j]? = some y → f y + k y ≤ g y) :
    total f l + total k l ≤ total g l + n := by
  induction l generalizing i with
  | nil => simp at hi
  | cons a l ih =>
    cases i with
    | zero =>
      simp only [List.getElem?_cons_zero,Option.some.injEq] at hi
      subst a
      have hl : total (fun y => f y + k y) l ≤ total g l := by
        apply total_le
        intro y hy
        obtain ⟨j,hj⟩ := List.mem_iff_getElem?.mp hy
        exact h (j+1) y (by omega) (by simpa using hj)
      rw [total_add] at hl
      simp only [total_cons]
      omega
    | succ i =>
      have ha := h 0 a (by omega) (by simp)
      have hl := ih (i:=i) (by simpa using hi) fun j y hj hy =>
        h (j+1) y (by omega) (by simpa using hy)
      simp only [total_cons]
      omega

def among (key : α → Option ℕ) (ks : List ℕ) (x : α) : ℕ :=
  if (key x).any fun k => decide (k ∈ ks) then 1 else 0

theorem among_none (h : key x = none) (ks : List ℕ) : among key ks x = 0 := by
  simp [among,h]

theorem among_some (h : key x = some k) (ks : List ℕ) : among key ks x = if k ∈ ks then 1 else 0 := by
  simp [among,h]

theorem among_append (key : α → Option ℕ) {ms : List ℕ} (h : (ks++ms).Nodup) (x : α) :
    among key (ks++ms) x = among key ks x + among key ms x := by
  cases hx : key x with
  | none => simp only [among_none hx]
  | some k =>
    simp only [among_some hx,List.mem_append]
    by_cases hk : k ∈ ks
    · have hm : k ∉ ms := fun hm => List.disjoint_of_nodup_append h hk hm
      simp [hk,hm]
    · simp [hk]

theorem length_le_total_among (hnd : ks.Nodup) (h : ∀ k ∈ ks, ∃ x ∈ l, key x = some k) :
    ks.length ≤ total (among key ks) l := by
  induction ks with
  | nil => exact Nat.zero_le _
  | cons k ks ih =>
    have hks := ih (List.nodup_cons.mp hnd).2 fun m hm => h m (by simp [hm])
    obtain ⟨x,hx,hk⟩ := h k (by simp)
    obtain ⟨i,hi⟩ := List.mem_iff_getElem?.mp hx
    have hone := le_total (among key [k]) hi
    rw [among_some hk,if_pos (by simp)] at hone
    have hsplit : total (among key (k::ks)) l = total (among key [k]) l + total (among key ks) l := by
      have hadd : among key (k::ks) = fun y => among key [k] y + among key ks y :=
        funext fun y => among_append key (show ([k]++ks).Nodup from hnd) y
      rw [hadd,total_add]
    rw [List.length_cons]
    omega

theorem bind_ok {ε β : Type} {f : α → Option β} {y : Except ε β}
    (h : (l[i]?.bind fun x => (f x).map Except.ok) = some y) :
    ∃ x z, l[i]? = some x ∧ f x = some z ∧ y = .ok z := by
  obtain ⟨x,hi,hx⟩ := Option.bind_eq_some_iff.mp h
  obtain ⟨z,hz,rfl⟩ := Option.map_eq_some_iff.mp hx
  exact ⟨x,z,hi,hz,rfl⟩

theorem getElem?_set_self' (h : l[i]? = some x) (y : α) : (l.set i y)[i]? = some y := by
  obtain ⟨hi,_⟩ := List.getElem?_eq_some_iff.mp h
  simp [hi]

theorem set_self (h : l[i]? = some x) : l.set i x = l := by
  obtain ⟨hi,rfl⟩ := List.getElem?_eq_some_iff.mp h
  exact List.set_getElem_self hi

theorem modify_eq_set (h : l[i]? = some x) (f : α → α) : l.modify i f = l.set i (f x) := by
  simp [List.modify_eq_set_getElem?,h]

theorem getElem?_push (h : (l++[y])[i]? = some x) : l[i]? = some x ∨ (i = l.length ∧ x = y) := by
  rcases Nat.lt_trichotomy i l.length with hi | hi | hi
  · left
    rwa [List.getElem?_append_left hi] at h
  · right
    subst hi
    simp at h
    exact ⟨rfl,h.symm⟩
  · rw [List.getElem?_eq_none (by simp; omega)] at h
    cases h

theorem getElem?_append_old (h : l[i]? = some x) (m : List α) : (l++m)[i]? = some x := by
  obtain ⟨hi,_⟩ := List.getElem?_eq_some_iff.mp h
  rwa [List.getElem?_append_left hi]

theorem getElem?_push_old (h : l[i]? = some x) (y : α) :
    (l++[y])[i]? = some x := getElem?_append_old h [y]

theorem getElem?_set_cases (h : (l.set i y)[j]? = some x) :
    (j = i ∧ x = y) ∨ (j ≠ i ∧ l[j]? = some x) := by
  by_cases hij : j = i
  · subst hij
    obtain ⟨hj,_⟩ := List.getElem?_eq_some_iff.mp h
    simp only [List.length_set] at hj
    simp only [List.getElem?_set_self hj,Option.some.injEq] at h
    exact Or.inl ⟨rfl,h.symm⟩
  · rw [List.getElem?_set_ne (Ne.symm hij)] at h
    exact Or.inr ⟨hij,h⟩

theorem forall_set (h : ∀ (j : ℕ) x, l[j]? = some x → P j x) (hnew : P i y) :
    ∀ (j : ℕ) x, (l.set i y)[j]? = some x → P j x := by
  intro j x hj
  rcases getElem?_set_cases hj with ⟨rfl,rfl⟩ | ⟨-,hj⟩
  · exact hnew
  · exact h j x hj

theorem forall_push (h : ∀ (j : ℕ) x, l[j]? = some x → P j x) (hnew : P l.length y) :
    ∀ (j : ℕ) x, (l++[y])[j]? = some x → P j x := by
  intro j x hj
  rcases getElem?_push hj with hj | ⟨rfl,rfl⟩
  · exact h j x hj
  · exact hnew

/-- The key of the entry at a position. -/
def lookup (key : α → Option β) (l : List α) (i : ℕ) : Option β := l[i]?.bind key

theorem lookup_eq {key : α → Option β} (h : l[i]? = some x) : lookup key l i = key x := by
  rw [lookup,h,Option.bind_some]

theorem lookup_set (key : α → Option β) (h : l[i]? = some x) (y : α) :
    lookup key (l.set i y) = Function.update (lookup key l) i (key y) := by
  funext j
  by_cases hj : j = i
  · subst hj
    rw [Function.update_self,lookup_eq (getElem?_set_self' h y)]
  · rw [Function.update_of_ne hj,lookup,lookup,List.getElem?_set_ne (Ne.symm hj)]

theorem lookup_set_same {key : α → Option β} (h : l[i]? = some x) (hy : key y = key x) :
    lookup key (l.set i y) = lookup key l := by
  have hx : key y = lookup key l i := by rw [hy,lookup_eq h]
  rw [lookup_set key h,hx,Function.update_eq_self]

theorem update_lookup (key : α → Option β) (h : l[i]? = some x) (k : Option β) (hk : k = key x) :
    Function.update (lookup key l) i k = lookup key l := by
  rw [hk,← lookup_set key h,lookup_set_same h rfl]

theorem lookup_push {key : α → Option β} (l : List α) (hy : key y = none) :
    lookup key (l++[y]) = lookup key l := by
  funext j
  rw [lookup,lookup]
  rcases Nat.lt_trichotomy j l.length with hj | hj | hj
  · rw [List.getElem?_append_left hj]
  · simp [hj,hy]
  · rw [List.getElem?_eq_none (by simp; omega),List.getElem?_eq_none (by omega)]

/-- No two entries carry the same key, and all keys are below `bound`. -/
structure Unique (key : α → Option ℕ) (l : List α) (bound : ℕ) : Prop where
  lt : ∀ (i : ℕ) x k, l[i]? = some x → key x = some k → k < bound
  inj : ∀ (i j : ℕ) x y k, l[i]? = some x → l[j]? = some y → key x = some k → key y = some k → i = j

namespace Unique

variable {key : α → Option ℕ} {l : List α} {bound i : ℕ} {x y : α}

theorem nil (key : α → Option ℕ) (bound : ℕ) : Unique key [] bound :=
  ⟨by simp,by simp⟩

section

variable (h : Unique key l bound)
include h

theorem mono {bound' : ℕ} (hb : bound ≤ bound') : Unique key l bound' :=
  ⟨fun i x k hi hk => (h.lt i x k hi hk).trans_le hb,h.inj⟩

theorem ne {j k m : ℕ} (hi : l[i]? = some x) (hj : l[j]? = some y) (hij : j ≠ i) (hx : key x = some k)
    (hy : key y = some m) : m ≠ k :=
  fun heq => hij (h.inj j i y x k hj hi (heq ▸ hy) hx)

theorem set (y : α) (hlt : ∀ k, key y = some k → k < bound)
    (hfree : ∀ (j : ℕ) z k, j ≠ i → l[j]? = some z → key z = some k → key y ≠ some k) :
    Unique key (l.set i y) bound := by
  constructor
  · intro j z k hj hk
    rcases getElem?_set_cases hj with ⟨-,rfl⟩ | ⟨-,hj⟩
    · exact hlt k hk
    · exact h.lt j z k hj hk
  · intro j m z z' k hj hm hz hz'
    rcases getElem?_set_cases hj with ⟨hji,rfl⟩ | ⟨hji,hold⟩ <;>
      rcases getElem?_set_cases hm with ⟨hmi,rfl⟩ | ⟨hmi,hold'⟩
    · exact hji.trans hmi.symm
    · exact absurd hz (hfree m z' k hmi hold' hz')
    · exact absurd hz' (hfree j z k hji hold hz)
    · exact h.inj j m z z' k hold hold' hz hz'

theorem set_old (hi : l[i]? = some x) (hy : key y = key x ∨ key y = none) :
    Unique key (l.set i y) bound := by
  have hold : ∀ k, key y = some k → key x = some k := by
    intro k hk
    rcases hy with hy | hy
    · rw [← hy,hk]
    · simp [hy] at hk
  apply h.set y
  · exact fun k hk => h.lt i x k hi (hold k hk)
  · exact fun j z k hji hj hz hk => hji (h.inj j i z x k hj hi hz (hold k hk))

theorem set_new (hy : key y = some bound) : Unique key (l.set i y) (bound+1) := by
  apply (h.mono (Nat.le_succ bound)).set y
  · intro k hk
    rw [hy] at hk
    cases hk
    exact Nat.lt_succ_self bound
  · intro j z k _ hj hz hk
    rw [hy] at hk
    cases hk
    exact Nat.lt_irrefl _ (h.lt j z _ hj hz)

theorem push (hy : key y = none) : Unique key (l++[y]) bound := by
  constructor
  · intro j z k hj hk
    rcases getElem?_push hj with hj | ⟨-,rfl⟩
    · exact h.lt j z k hj hk
    · simp [hy] at hk
  · intro j m z z' k hj hm hz hz'
    rcases getElem?_push hj with hj | ⟨-,rfl⟩
    · rcases getElem?_push hm with hm | ⟨-,rfl⟩
      · exact h.inj j m z z' k hj hm hz hz'
      · simp [hy] at hz'
    · simp [hy] at hz

theorem push_new (hy : key y = some bound) : Unique key (l++[y]) (bound+1) := by
  constructor
  · intro j z k hj hk
    rcases getElem?_push hj with hj | ⟨-,rfl⟩
    · exact (h.lt j z k hj hk).trans (Nat.lt_succ_self bound)
    · rw [hy] at hk
      cases hk
      exact Nat.lt_succ_self bound
  · intro j m z z' k hj hm hz hz'
    rcases getElem?_push hj with hold | ⟨hlast,rfl⟩ <;>
      rcases getElem?_push hm with hold' | ⟨hlast',rfl⟩
    · exact h.inj j m z z' k hold hold' hz hz'
    · cases hy.symm.trans hz'
      exact absurd (h.lt j z _ hold hz) (Nat.lt_irrefl _)
    · cases hy.symm.trans hz
      exact absurd (h.lt m z' _ hold' hz') (Nat.lt_irrefl _)
    · exact hlast.trans hlast'.symm

end

end Unique

/-- `log` lists, each once, the positions of the entries that carry a key, with the key. -/
structure Recorded (key : α → Option β) (l : List α) (log : List (ℕ × β)) : Prop where
  nodup : (log.map Prod.fst).Nodup
  mem_iff : ∀ i k, (i,k) ∈ log ↔ lookup key l i = some k

namespace Recorded

variable {key : α → Option β} {l : List α} {log : List (ℕ × β)} {i : ℕ} {x y : α} {k : β} {m : List α}

theorem nil (key : α → Option β) : Recorded key [] [] :=
  ⟨List.nodup_nil,by simp [lookup]⟩

section

variable (h : Recorded key l log)
include h

theorem congr (hm : lookup key m = lookup key l) : Recorded key m log := by
  refine ⟨h.nodup,fun i k => ?_⟩
  rw [hm]
  exact h.mem_iff i k

theorem set_same (hi : l[i]? = some x) (hy : key y = key x) : Recorded key (l.set i y) log :=
  h.congr (lookup_set_same hi hy)

theorem push_none (hy : key y = none) : Recorded key (l++[y]) log :=
  h.congr (lookup_push l hy)

theorem extend (hi : lookup key l i = none)
    (hm : lookup key m = Function.update (lookup key l) i (some k)) :
    Recorded key m (log++[(i,k)]) := by
  refine ⟨?_,fun j a => ?_⟩
  · rw [List.map_append,List.nodup_append]
    refine ⟨h.nodup,List.nodup_singleton _,?_⟩
    intro a ha b hb
    obtain ⟨⟨a',c⟩,hmem,rfl⟩ := List.mem_map.mp ha
    have hc := (h.mem_iff a' c).mp hmem
    rw [List.map_singleton,List.mem_singleton] at hb
    rintro rfl
    subst hb
    rw [hi] at hc
    cases hc
  · rw [hm,List.mem_append,h.mem_iff,List.mem_singleton,Prod.mk.injEq]
    by_cases hj : j = i
    · subst hj
      rw [Function.update_self,hi]
      simp [eq_comm]
    · rw [Function.update_of_ne hj]
      simp [hj]

theorem set_new (hi : l[i]? = some x) (hx : key x = none) (hy : key y = some k) :
    Recorded key (l.set i y) (log++[(i,k)]) := by
  apply h.extend
  · rw [lookup_eq hi,hx]
  · rw [lookup_set key hi,hy]

theorem push_new (hy : key y = some k) : Recorded key (l++[y]) (log++[(l.length,k)]) := by
  apply h.extend
  · simp [lookup]
  · funext j
    rcases Nat.lt_trichotomy j l.length with hj | hj | hj
    · rw [Function.update_of_ne (Nat.ne_of_lt hj),lookup,List.getElem?_append_left hj,lookup]
    · subst hj
      rw [Function.update_self]
      simp [lookup,hy]
    · rw [Function.update_of_ne (Nat.ne_of_gt hj),lookup,lookup,
        List.getElem?_eq_none (by simp; omega),List.getElem?_eq_none (by omega)]

end

end Recorded

theorem sum_range_eq_except {f f' : ℕ → ℕ} (hi : i < n) (h : ∀ j, j ≠ i → f' j = f j) :
    ∑ j ∈ Finset.range n, f' j + f i = ∑ j ∈ Finset.range n, f j + f' i := by
  have hm : i ∈ Finset.range n := Finset.mem_range.mpr hi
  have hrest : ∑ j ∈ (Finset.range n).erase i, f' j = ∑ j ∈ (Finset.range n).erase i, f j :=
    Finset.sum_congr rfl fun j hj => h j (Finset.ne_of_mem_erase hj)
  have h₁ := Finset.add_sum_erase _ f hm
  have h₂ := Finset.add_sum_erase _ f' hm
  omega

def sumBelow (n : ℕ) (m : ℕ → Option α) (g : α → ℕ) : ℕ := ∑ i ∈ Finset.range n, (m i).elim 0 g

theorem sumBelow_extend (g : α → ℕ) (hm : ∀ i, n ≤ i → m i = none) (hk : n ≤ k) :
    sumBelow n m g = sumBelow k m g := by
  apply Finset.sum_subset (Finset.range_mono hk)
  intro i _ hi
  rw [hm i (by simpa using hi)]
  rfl

theorem sumBelow_update {n' : ℕ} {m' : ℕ → Option α} {x : Option α} (hm : ∀ i, n ≤ i → m i = none)
    (hm' : ∀ i, n' ≤ i → m' i = none) (h : m' = Function.update m i x) (g : α → ℕ) :
    sumBelow n' m' g + (m i).elim 0 g = sumBelow n m g + x.elim 0 g := by
  let k := max (i+1) (max n n')
  have hrest : ∀ j, j ≠ i → (m' j).elim 0 g = (m j).elim 0 g := by
    intro j hj
    simp [h,hj]
  have hsum := sum_range_eq_except (n:=k) (i:=i) (by simp [k]) hrest
  rw [sumBelow_extend (k:=k) g hm (by simp [k]),sumBelow_extend (k:=k) g hm' (by simp [k])]
  simpa [sumBelow,h] using hsum

theorem le_sumBelow (g : α → ℕ) (hm : ∀ i, n ≤ i → m i = none) (h : m i = some x) :
    g x ≤ sumBelow n m g := by
  have hi : i ∈ Finset.range n := by
    by_contra hi
    rw [hm i (by simpa using hi)] at h
    cases h
  have hle := Finset.single_le_sum (f := fun i => (m i).elim 0 g) (fun _ _ => Nat.zero_le _) hi
  simpa [sumBelow,h] using hle

theorem exists_of_sumBelow_pos (h : 0 < sumBelow n m g) : ∃ i x, m i = some x ∧ 0 < g x := by
  obtain ⟨i,-,hi⟩ := Finset.exists_ne_zero_of_sum_ne_zero (Nat.ne_of_gt h)
  cases hx : m i with
  | none => simp [hx] at hi
  | some x => exact ⟨i,x,hx,Nat.pos_of_ne_zero (by simpa [hx] using hi)⟩

end Table
end Asyncband
