import Asyncband.Arena
import Asyncband.Table
import Mathlib.Data.List.Lemmas
import Mathlib.Data.List.Perm.Subperm
import Mathlib.Data.List.Range
import Mathlib.Algebra.BigOperators.Group.Finset.Basic

/-! The doubly linked waiter queue stored in an arena.
`Raw` is the linked structure as written, with its panics. `WaitList` adds the
invariant that the links spell out one duplicate-free list, and its clients only
see that list (`order`) and the values of the nodes (`get?`). -/
namespace Asyncband

abbrev WaiterId := SlotId

namespace WaitList

structure Links where
  prev : Option WaiterId
  next : Option WaiterId
  deriving DecidableEq

/-- `links = none` marks a node that was detached and not yet removed. -/
structure Node (T : Type) where
  links : Option Links
  value : T

structure Raw (T : Type) where
  head : Option WaiterId
  tail : Option WaiterId
  nodes : Arena (Node T)

namespace Raw

variable {T : Type}
variable {id : WaiterId} {k : Links} {pre post : List WaiterId} {l' : Raw T} {v : T}
    {r : WaiterId × Raw T}

def new : Raw T := ⟨none,none,.new⟩

def node (l : Raw T) (id : WaiterId) : Except String (Node T) :=
  match l.nodes.get? id with
  | some node => .ok node
  | none => .error "waiter id must refer to an occupied node"

def setNode (l : Raw T) (id : WaiterId) (node : Node T) : Raw T :=
  {l with nodes := l.nodes.set id node}

/-- An assignment to a field of `linked_node_mut(id)`. -/
def modifyLinks (l : Raw T) (id : WaiterId) (f : Links → Links) : Except String (Raw T) := do
  let node ← l.node id
  match node.links with
  | none => .error "linked waiter must have links"
  | some links => .ok (l.setNode id {node with links := some (f links)})

def pushFront (l : Raw T) (value : T) : Except String (WaiterId × Raw T) := do
  let next := l.head
  let (id,nodes) := l.nodes.insert ⟨some ⟨none,next⟩,value⟩
  let l := {l with nodes := nodes}
  let l ← match next with
    | some next => l.modifyLinks next fun links => {links with prev := some id}
    | none => .ok {l with tail := some id}
  .ok (id,{l with head := some id})

def pushBack (l : Raw T) (value : T) : Except String (WaiterId × Raw T) := do
  let prev := l.tail
  let (id,nodes) := l.nodes.insert ⟨some ⟨prev,none⟩,value⟩
  let l := {l with nodes := nodes}
  let l ← match prev with
    | some prev => l.modifyLinks prev fun links => {links with next := some id}
    | none => .ok {l with head := some id}
  .ok (id,{l with tail := some id})

def relinkNext (l : Raw T) (prev next : Option WaiterId) : Except String (Raw T) :=
  match prev with
  | some prev => l.modifyLinks prev fun links => {links with next := next}
  | none => .ok {l with head := next}

def relinkPrev (l : Raw T) (prev next : Option WaiterId) : Except String (Raw T) :=
  match next with
  | some next => l.modifyLinks next fun links => {links with prev := prev}
  | none => .ok {l with tail := prev}

/-- The predicate answers whether to detach and may change the value. The first
component is the value behind the returned reference. -/
def unlinkWaiter (l : Raw T) (id : WaiterId) (shouldUnlink : T → Bool × T) :
    Except String (Option T × Raw T) := do
  let node ← l.node id
  let (unlink,value) := shouldUnlink node.value
  if unlink then
    let l := l.setNode id ⟨none,value⟩
    let l ← match node.links with
      | some ⟨prev,next⟩ => do
        let l ← l.relinkNext prev next
        l.relinkPrev prev next
      | none => .ok l
    let node ← l.node id
    .ok (some node.value,l)
  else .ok (none,l.setNode id {node with value := value})

def unlinkFirstWaiter (l : Raw T) (shouldUnlink : T → Bool × T) :
    Except String (Option (WaiterId × T) × Raw T) :=
  match l.head with
  | none => .ok (none,l)
  | some first => do
    let (waiter,l) ← l.unlinkWaiter first shouldUnlink
    .ok (waiter.map fun value => (first,value),l)

def isEmpty (l : Raw T) : Bool := l.head.isNone

/-- Assignment through `waiter_mut(id)`. -/
def setWaiter (l : Raw T) (id : WaiterId) (value : T) : Except String (Raw T) := do
  let node ← l.node id
  .ok (l.setNode id {node with value := value})

def removeUnlinkedWaiter (l : Raw T) (id : WaiterId) : Except String (T × Raw T) := do
  let node ← l.node id
  if node.links.isSome then .error "waiter must be unlinked before removal"
  else
    let (node,nodes) ← l.nodes.remove id
    .ok (node.value,{l with nodes := nodes})

def links (l : Raw T) (id : WaiterId) : Option Links := (l.nodes.get? id).bind Node.links

def get? (l : Raw T) (id : WaiterId) : Option T := (l.nodes.get? id).map Node.value

def walk (l : Raw T) : ℕ → Option WaiterId → List WaiterId
  | fuel+1, some id => id::walk l fuel ((l.links id).bind Links.next)
  | _, _ => []

/-- Follow `next` from the head; a list is never longer than its arena. -/
def order (l : Raw T) : List WaiterId := l.walk l.nodes.raw.slots.length l.head

/-- The links spell out exactly `ids`, and every other node is detached. -/
structure Represents (l : Raw T) (ids : List WaiterId) : Prop where
  nodup : ids.Nodup
  head_eq : l.head = ids.head?
  tail_eq : l.tail = ids.getLast?
  linked : ∀ pre id post, ids = pre++id::post → l.links id = some ⟨pre.getLast?,post.head?⟩
  detached : ∀ id, id ∉ ids → l.links id = none

variable {l : Raw T} {ids : List WaiterId}

theorem Represents.links_isSome (h : l.Represents ids) (hid : id ∈ ids) :
    ∃ node k, l.nodes.get? id = some node ∧ node.links = some k := by
  obtain ⟨pre,post,hs⟩ := List.append_of_mem hid
  have hl := h.linked pre id post hs
  obtain ⟨node,hn,hk⟩ := Option.bind_eq_some_iff.mp hl
  exact ⟨node,_,hn,hk⟩

theorem Represents.walk_eq (h : l.Represents ids) (pre post : List WaiterId)
    (hs : ids = pre++post) (fuel : ℕ) (hf : post.length ≤ fuel) : l.walk fuel post.head? = post := by
  induction post generalizing pre fuel with
  | nil => cases fuel <;> rfl
  | cons id post ih =>
    cases fuel with
    | zero => simp at hf
    | succ fuel =>
      have hk := h.linked pre id post hs
      have ht := ih (pre++[id]) (by simp [hs]) fuel (by simpa using hf)
      simp [walk,hk,ht]

theorem Represents.length_le (h : l.Represents ids) : ids.length ≤ l.nodes.raw.slots.length := by
  have hsub : ids ⊆ List.range l.nodes.raw.slots.length := by
    intro id hid
    obtain ⟨node,k,hn,_⟩ := h.links_isSome hid
    rw [List.mem_range]
    by_contra hge
    rw [l.nodes.get?_eq_none_of_length_le (Nat.le_of_not_lt hge)] at hn
    cases hn
  simpa using (h.nodup.subperm hsub).length_le

/-- The represented list is the one obtained by following `next` from `head`. -/
theorem Represents.order_eq (h : l.Represents ids) : l.order = ids := by
  rw [order,h.head_eq]
  exact h.walk_eq [] ids rfl _ h.length_le

theorem new_represents : (new : Raw T).Represents [] where
  nodup := List.nodup_nil
  head_eq := rfl
  tail_eq := rfl
  linked := by intro pre id post h; simp at h
  detached := by intro id _; simp [links,new]

/-- All that matters about a list is its ends and the contents of its nodes. -/
theorem setNode_get? {node : Node T} (h : l.nodes.get? id = some node) (node' : Node T) :
    (l.setNode id node').nodes.get? = Function.update l.nodes.get? id (some node') :=
  Arena.get?_set h node'

theorem modifyLinks_ok {node : Node T} (h : l.nodes.get? id = some node) (hk : node.links = some k)
    (f : Links → Links) : l.modifyLinks id f = .ok (l.setNode id {node with links := some (f k)}) := by
  simp [modifyLinks,Raw.node,h,hk,bind,Except.bind]

theorem links_eq_of_get? {node : Node T} (h : l.nodes.get? id = some node) :
    l.links id = node.links := by
  simp [links,h]

theorem fresh_not_mem (h : l.Represents ids) (hid : l.nodes.get? id = none) : id ∉ ids := by
  intro hm
  obtain ⟨node,k,hn,_⟩ := h.links_isSome hm
  rw [hid] at hn
  cases hn

theorem snoc_split {n : WaiterId} (h : ids++[n] = pre++id::post) :
    (id = n ∧ pre = ids ∧ post = []) ∨ ∃ post', post = post'++[n] ∧ ids = pre++id::post' := by
  rcases List.eq_nil_or_concat' post with rfl | ⟨post',x,rfl⟩
  · left
    have hh := List.append_inj' h (by simp)
    exact ⟨by simpa using hh.2.symm,hh.1.symm,rfl⟩
  · right
    rw [← List.cons_append,← List.append_assoc] at h
    have hh := List.append_inj' h (by simp)
    exact ⟨post',by simpa using hh.2.symm,hh.1⟩

theorem pushBack_spec (h : l.Represents ids) (v : T) :
    ∃ id l', l.pushBack v = .ok (id,l') ∧ l.nodes.get? id = none ∧ l'.Represents (ids++[id]) ∧
      l'.get? = Function.update l.get? id (some v) := by
  obtain ⟨hfresh,hget⟩ := l.nodes.insert_spec ⟨some ⟨l.tail,none⟩,v⟩
  generalize hins : l.nodes.insert ⟨some ⟨l.tail,none⟩,v⟩ = r at hfresh hget
  obtain ⟨n,nodes⟩ := r
  simp only at hfresh hget
  have hn := fresh_not_mem h hfresh
  rcases List.eq_nil_or_concat' ids with rfl | ⟨pre,t,rfl⟩
  · have ht : l.tail = none := h.tail_eq
    refine ⟨n,⟨some n,some n,nodes⟩,by simp [pushBack,ht,ht ▸ hins,bind,Except.bind],hfresh,
      ⟨by simp,by simp,by simp,?_,?_⟩,?_⟩
    · intro p id q hs
      obtain ⟨rfl,rfl,rfl⟩ | ⟨q',rfl,hq⟩ := snoc_split hs
      · simp [links,hget,ht]
      · simp at hq
    · intro id hid
      have hne : id ≠ n := by simpa using hid
      have := h.detached id (by simp)
      simpa [links,hget,Function.update,hne] using this
    · funext id
      by_cases hne : id = n <;> simp [get?,hget,Function.update,hne]
  · have ht : l.tail = some t := by simpa using h.tail_eq
    have htm : t ∈ pre++[t] := by simp
    obtain ⟨node,k,hnode,hk⟩ := h.links_isSome htm
    have htn : t ≠ n := by rintro rfl; exact hn htm
    have hnode' : nodes.get? t = some node := by simp [hget,Function.update,htn,hnode]
    have hkt : k = ⟨pre.getLast?,none⟩ := by
      have := h.linked pre t [] rfl
      rw [links_eq_of_get? hnode,hk] at this
      simpa using this
    let l₁ : Raw T := ⟨l.head,some t,nodes⟩
    have hmod := modifyLinks_ok (l:=l₁) hnode' hk fun links => {links with next := some n}
    let l₂ := l₁.setNode t {node with links := some {k with next := some n}}
    have hget₂ : l₂.nodes.get? = Function.update nodes.get? t
        (some {node with links := some {k with next := some n}}) := setNode_get? hnode' _
    have hne₂ (id : WaiterId) (h₁ : id ≠ n) (h₂ : id ≠ t) :
        l₂.nodes.get? id = l.nodes.get? id := by
      simp [hget₂,hget,Function.update,h₁,h₂]
    have hnd := h.nodup
    refine ⟨n,{l₂ with tail := some n},?_,hfresh,⟨?_,?_,by simp,?_,?_⟩,?_⟩
    · have hp : l.pushBack v = (l₁.modifyLinks t fun links => {links with next := some n}).bind
          fun l => .ok (n,{l with tail := some n}) := by
        simp only [pushBack,ht,ht ▸ hins]
        rfl
      rw [hp,hmod]
      rfl
    · rw [List.nodup_append]
      refine ⟨hnd,by simp,?_⟩
      intro a ha b hb
      rw [List.mem_singleton.mp hb]
      rintro rfl
      exact hn ha
    · have : l.head = (pre++[t]).head? := h.head_eq
      simpa [l₂,l₁,setNode] using this
    · intro p id q hs
      obtain ⟨rfl,rfl,rfl⟩ | ⟨q',rfl,hq⟩ := snoc_split hs
      · have : l₂.nodes.get? id = some ⟨some ⟨l.tail,none⟩,v⟩ := by
          simp [hget₂,hget,Function.update,htn.symm]
        simp [links,this,ht]
      · have hidn : id ≠ n := by
          rintro rfl
          exact hn (by rw [hq]; simp)
        have hl := h.linked p id q' hq
        rcases List.eq_nil_or_concat' q' with rfl | ⟨q'',x,rfl⟩
        · have hh := List.append_inj' hq (by simp)
          have hid : id = t := by simpa using hh.2.symm
          subst hid
          simp [links,hget₂,hkt,hh.1]
        · have hx : x = t := by
            rw [← List.cons_append,← List.append_assoc] at hq
            have hh := List.append_inj' hq (by simp)
            simpa using hh.2.symm
          subst hx
          have hidt : id ≠ x := by
            rintro rfl
            rw [hq] at hnd
            simp [List.nodup_append] at hnd
          have : l₂.links id = l.links id := by simp [links,hne₂ id hidn hidt]
          change l₂.links id = _
          rw [this,hl]
          cases q'' <;> simp
    · intro id hid
      simp only [List.mem_append,List.mem_singleton,not_or] at hid
      have hd := h.detached id (by simp [hid.1])
      have : l₂.links id = l.links id := by simp [links,hne₂ id hid.2 hid.1.2]
      change l₂.links id = _
      rw [this,hd]
    · funext id
      change (l₂.nodes.get? id).map Node.value = _
      by_cases h₁ : id = n
      · subst h₁
        simp [hget₂,hget,Function.update,htn.symm]
      · by_cases h₂ : id = t
        · subst h₂
          simp [hget₂,get?,Function.update,h₁,hnode]
        · simp [hne₂ id h₁ h₂,get?,Function.update,h₁]

theorem pushFront_spec (h : l.Represents ids) (v : T) :
    ∃ id l', l.pushFront v = .ok (id,l') ∧ l.nodes.get? id = none ∧ l'.Represents (id::ids) ∧
      l'.get? = Function.update l.get? id (some v) := by
  obtain ⟨hfresh,hget⟩ := l.nodes.insert_spec ⟨some ⟨none,l.head⟩,v⟩
  generalize hins : l.nodes.insert ⟨some ⟨none,l.head⟩,v⟩ = r at hfresh hget
  obtain ⟨n,nodes⟩ := r
  simp only at hfresh hget
  have hn := fresh_not_mem h hfresh
  cases ids with
  | nil =>
    have ht : l.head = none := h.head_eq
    refine ⟨n,⟨some n,some n,nodes⟩,by simp [pushFront,ht,ht ▸ hins,bind,Except.bind],hfresh,
      ⟨by simp,by simp,by simp,?_,?_⟩,?_⟩
    · intro p id q hs
      cases p with
      | nil =>
        simp only [List.nil_append,List.cons.injEq] at hs
        obtain ⟨rfl,rfl⟩ := hs
        simp [links,hget,ht]
      | cons a p => simp at hs
    · intro id hid
      have hne : id ≠ n := by simpa using hid
      have := h.detached id (by simp)
      simpa [links,hget,Function.update,hne] using this
    · funext id
      by_cases hne : id = n <;> simp [get?,hget,Function.update,hne]
  | cons t post =>
    have ht : l.head = some t := by simpa using h.head_eq
    obtain ⟨node,k,hnode,hk⟩ := h.links_isSome (show t ∈ _ by simp)
    have htn : t ≠ n := by rintro rfl; exact hn (by simp)
    have hnode' : nodes.get? t = some node := by simp [hget,Function.update,htn,hnode]
    have hkt : k = ⟨none,post.head?⟩ := by
      have := h.linked [] t post rfl
      rw [links_eq_of_get? hnode,hk] at this
      simpa using this
    let l₁ : Raw T := ⟨some t,l.tail,nodes⟩
    have hmod := modifyLinks_ok (l:=l₁) hnode' hk fun links => {links with prev := some n}
    let l₂ := l₁.setNode t {node with links := some {k with prev := some n}}
    have hget₂ : l₂.nodes.get? = Function.update nodes.get? t
        (some {node with links := some {k with prev := some n}}) := setNode_get? hnode' _
    have hne₂ (id : WaiterId) (h₁ : id ≠ n) (h₂ : id ≠ t) :
        l₂.nodes.get? id = l.nodes.get? id := by
      simp [hget₂,hget,Function.update,h₁,h₂]
    have hnd := h.nodup
    refine ⟨n,{l₂ with head := some n},?_,hfresh,⟨?_,by simp,?_,?_,?_⟩,?_⟩
    · have hp : l.pushFront v = (l₁.modifyLinks t fun links => {links with prev := some n}).bind
          fun l => .ok (n,{l with head := some n}) := by
        simp only [pushFront,ht,ht ▸ hins]
        rfl
      rw [hp,hmod]
      rfl
    · exact List.nodup_cons.mpr ⟨hn,hnd⟩
    · have : l.tail = (t::post).getLast? := h.tail_eq
      simpa [l₂,l₁,setNode] using this
    · intro p id q hs
      cases p with
      | nil =>
        simp only [List.nil_append,List.cons.injEq] at hs
        obtain ⟨rfl,rfl⟩ := hs
        have : l₂.nodes.get? n = some ⟨some ⟨none,l.head⟩,v⟩ := by
          simp [hget₂,hget,Function.update,htn.symm]
        simp [links,this,ht]
      | cons a p =>
        simp only [List.cons_append,List.cons.injEq] at hs
        obtain ⟨rfl,hq⟩ := hs
        have hidn : id ≠ n := by
          rintro rfl
          exact hn (by rw [hq]; simp)
        have hl := h.linked p id q hq
        cases p with
        | nil =>
          simp only [List.nil_append,List.cons.injEq] at hq
          obtain ⟨rfl,rfl⟩ := hq
          simp [links,hget₂,hkt]
        | cons b p =>
          simp only [List.cons_append,List.cons.injEq] at hq
          obtain ⟨rfl,rfl⟩ := hq
          have hidt : id ≠ t := by
            rintro rfl
            simp at hnd
          have : l₂.links id = l.links id := by simp [links,hne₂ id hidn hidt]
          change l₂.links id = _
          rw [this,hl]
          simp
    · intro id hid
      simp only [List.mem_cons,not_or] at hid
      have hd := h.detached id (by simp [hid.2])
      have : l₂.links id = l.links id := by simp [links,hne₂ id hid.1 hid.2.1]
      change l₂.links id = _
      rw [this,hd]
    · funext id
      change (l₂.nodes.get? id).map Node.value = _
      by_cases h₁ : id = n
      · subst h₁
        simp [hget₂,hget,Function.update,htn.symm]
      · by_cases h₂ : id = t
        · subst h₂
          simp [hget₂,get?,Function.update,h₁,hnode]
        · simp [hne₂ id h₁ h₂,get?,Function.update,h₁]

theorem Represents.congr (h : l.Represents ids) (hh : l'.head = l.head) (ht : l'.tail = l.tail)
    (hl : ∀ id, l'.links id = l.links id) : l'.Represents ids where
  nodup := h.nodup
  head_eq := hh.trans h.head_eq
  tail_eq := ht.trans h.tail_eq
  linked pre id post hs := (hl id).trans (h.linked pre id post hs)
  detached id hid := (hl id).trans (h.detached id hid)

theorem setNode_links {node : Node T} (h : l.nodes.get? id = some node) (node' : Node T) (x : WaiterId) :
    (l.setNode id node').links x = if x = id then node'.links else l.links x := by
  by_cases hx : x = id <;> simp [links,setNode_get? h,Function.update,hx]

theorem setNode_value {node : Node T} (h : l.nodes.get? id = some node) (node' : Node T) :
    (l.setNode id node').get? = Function.update l.get? id (some node'.value) := by
  funext x
  by_cases hx : x = id <;> simp [get?,setNode_get? h,Function.update,hx]

theorem setNode_same_value {node node' : Node T} (h : l.nodes.get? id = some node)
    (hv : node'.value = node.value) : (l.setNode id node').get? = l.get? := by
  rw [setNode_value h,hv]
  funext x
  by_cases hx : x = id
  · subst hx
    simp [get?,h]
  · simp [Function.update,hx]

theorem node_of_links {x : WaiterId} (h : l.links x = some k) :
    ∃ node, l.nodes.get? x = some node ∧ node.links = some k :=
  Option.bind_eq_some_iff.mp h

theorem relinkNext_spec (prev next : Option WaiterId)
    (hp : ∀ p, prev = some p → ∃ k, l.links p = some k) :
    ∃ l', l.relinkNext prev next = .ok l' ∧ l'.tail = l.tail ∧
      l'.head = (if prev = none then next else l.head) ∧ l'.get? = l.get? ∧
      ∀ x, l'.links x = if prev = some x then (l.links x).map fun k => {k with next := next}
        else l.links x := by
  cases prev with
  | none => exact ⟨_,rfl,rfl,by simp,rfl,by simp [links]⟩
  | some p =>
    obtain ⟨k,hk⟩ := hp p rfl
    obtain ⟨node,hn,hnk⟩ := node_of_links hk
    refine ⟨_,modifyLinks_ok hn hnk _,rfl,rfl,setNode_same_value hn rfl,?_⟩
    intro x
    rw [setNode_links hn]
    by_cases hx : x = p
    · subst hx
      simp [hk]
    · simp [hx,Ne.symm hx]

theorem relinkPrev_spec (prev next : Option WaiterId)
    (hp : ∀ p, next = some p → ∃ k, l.links p = some k) :
    ∃ l', l.relinkPrev prev next = .ok l' ∧ l'.head = l.head ∧
      l'.tail = (if next = none then prev else l.tail) ∧ l'.get? = l.get? ∧
      ∀ x, l'.links x = if next = some x then (l.links x).map fun k => {k with prev := prev}
        else l.links x := by
  cases next with
  | none => exact ⟨_,rfl,rfl,by simp,rfl,by simp [links]⟩
  | some p =>
    obtain ⟨k,hk⟩ := hp p rfl
    obtain ⟨node,hn,hnk⟩ := node_of_links hk
    refine ⟨_,modifyLinks_ok hn hnk _,rfl,rfl,setNode_same_value hn rfl,?_⟩
    intro x
    rw [setNode_links hn]
    by_cases hx : x = p
    · subst hx
      simp [hk]
    · simp [hx,Ne.symm hx]

/-- Cutting a node out of the links: the neighbours now point at each other. -/
theorem Represents.cut (h : l.Represents (pre++id::post))
    (hh : l'.head = if pre.getLast? = none then post.head? else l.head)
    (ht : l'.tail = if post.head? = none then pre.getLast? else l.tail) (hid : l'.links id = none)
    (hl : ∀ x, x ≠ id → l'.links x = (l.links x).map fun k =>
      ⟨if post.head? = some x then pre.getLast? else k.prev,
        if pre.getLast? = some x then post.head? else k.next⟩) : l'.Represents (pre++post) := by
  have hnd := h.nodup
  have hid' : id ∉ pre++post := by
    rw [List.nodup_middle,List.nodup_cons] at hnd
    exact hnd.1
  have hnd' : (pre++post).Nodup := by
    rw [List.nodup_middle,List.nodup_cons] at hnd
    exact hnd.2
  refine ⟨hnd',?_,?_,?_,?_⟩
  · rw [hh]
    cases pre with
    | nil => simp
    | cons a pre =>
      have := h.head_eq
      simpa using this
  · rw [ht]
    cases post with
    | nil => simp
    | cons b post =>
      have := h.tail_eq
      simpa using this
  · intro p x q hs
    have hx : x ≠ id := by
      rintro rfl
      exact hid' (by rw [hs]; simp)
    rw [hl x hx]
    rcases List.append_eq_append_iff.mp hs with ⟨r,rfl,rfl⟩ | ⟨r,rfl,hr⟩
    -- x lies behind the removed node
    · have hk := h.linked (pre++id::r) x q (by simp)
      have hlast : ¬ (pre.getLast? = some x) := by
        intro hlast
        have hm : x ∈ pre := List.mem_of_getLast? hlast
        rw [List.nodup_append] at hnd'
        exact hnd'.2.2 x hm x (by simp) rfl
      simp only [hk,Option.map_some,hlast,if_false]
      cases r with
      | nil => simp
      | cons b r =>
        have hb : b ≠ x := by
          rintro rfl
          simp [List.nodup_append] at hnd'
        simp [hb,List.getLast?_append]
    -- x lies before it, or is the node right behind it
    · cases r with
      | nil =>
        simp only [List.nil_append] at hr
        subst hr
        have hk := h.linked (p++[id]) x q (by simp)
        have hlast : ¬ (p.getLast? = some x) := by
          intro hlast
          have hm : x ∈ p := List.mem_of_getLast? hlast
          simp only [List.append_nil,List.nodup_append] at hnd'
          exact hnd'.2.2 x hm x (by simp) rfl
        simp [hk,hlast]
      | cons a r =>
        simp only [List.cons_append,List.cons.injEq] at hr
        obtain ⟨rfl,rfl⟩ := hr
        have hk := h.linked p x (r++id::post) (by simp)
        have hfirst : ¬ (post.head? = some x) := by
          intro hfirst
          have hm : x ∈ post := List.mem_of_head? hfirst
          rw [List.nodup_append] at hnd'
          exact hnd'.2.2 x (by simp) x hm rfl
        simp only [hk,Option.map_some,hfirst,if_false]
        cases r using List.reverseRecOn with
        | nil => simp
        | append_singleton r b _ =>
          have hb : b ≠ x := by
            rintro rfl
            simp [List.nodup_append] at hnd'
          have hg : (p++x::(r++[b])).getLast? = some b := by
            rw [← List.cons_append,← List.append_assoc,List.getLast?_concat]
          rw [hg]
          simp only [Option.some.injEq,hb,if_false]
          cases r <;> simp
  · intro x hx
    by_cases hxi : x = id
    · rw [hxi,hid]
    · have hd := h.detached x (by
        simp only [List.mem_append,List.mem_cons,not_or] at hx ⊢
        exact ⟨hx.1,hxi,hx.2⟩)
      rw [hl x hxi,hd]
      rfl

/-- Detaching removes exactly this waiter from the list; it stays addressable. A
refusal, or a node that is already detached, leaves the list alone. -/
theorem unlinkWaiter_spec (h : l.Represents ids) (hv : l.get? id = some v) (p : T → Bool × T) :
    ∃ l', l.unlinkWaiter id p = .ok (if (p v).1 then some (p v).2 else none,l') ∧
      l'.Represents (if (p v).1 then ids.erase id else ids) ∧
      l'.get? = Function.update l.get? id (some (p v).2) := by
  obtain ⟨node,hn,rfl⟩ := Option.map_eq_some_iff.mp hv
  cases hp : (p node.value).1 with
  | false =>
    refine ⟨l.setNode id {node with value := (p node.value).2},?_,?_,setNode_value hn _⟩
    · simp [unlinkWaiter,Raw.node,hn,bind,Except.bind,hp]
    · refine h.congr rfl rfl fun x => ?_
      rw [setNode_links hn]
      by_cases hx : x = id
      · subst hx
        simp [links,hn]
      · simp [hx]
  | true =>
    let l₀ := l.setNode id ⟨none,(p node.value).2⟩
    have hget₀ : l₀.get? = Function.update l.get? id (some (p node.value).2) := setNode_value hn _
    have hval (l' : Raw T) (hg : l'.get? = l₀.get?) :
        ∃ node', l'.nodes.get? id = some node' ∧ node'.value = (p node.value).2 := by
      have : l'.get? id = some (p node.value).2 := by simp [hg,hget₀]
      exact Option.map_eq_some_iff.mp this
    by_cases hid : id ∈ ids
    · obtain ⟨pre,post,rfl⟩ := List.append_of_mem hid
      have hk := h.linked pre id post rfl
      have hnk : node.links = some ⟨pre.getLast?,post.head?⟩ := by rwa [links_eq_of_get? hn] at hk
      have hnd := h.nodup
      rw [List.nodup_middle,List.nodup_cons,List.mem_append,not_or] at hnd
      have hother (x : WaiterId) (hx : x ∈ pre++id::post) (hne : x ≠ id) :
          ∃ k, l₀.links x = some k := by
        obtain ⟨nx,k,hnx,hkx⟩ := h.links_isSome hx
        exact ⟨k,by rw [setNode_links hn,if_neg hne,links_eq_of_get? hnx,hkx]⟩
      obtain ⟨l₁,h₁,ht₁,hh₁,hg₁,hl₁⟩ := relinkNext_spec (l:=l₀) pre.getLast? post.head? (by
        intro q hq
        have hm := List.mem_of_getLast? hq
        exact hother q (by simp [hm]) (by rintro rfl; exact hnd.1.1 hm))
      obtain ⟨l₂,h₂,hh₂,ht₂,hg₂,hl₂⟩ := relinkPrev_spec (l:=l₁) pre.getLast? post.head? (by
        intro q hq
        have hm := List.mem_of_head? hq
        obtain ⟨k,hkq⟩ := hother q (by simp [hm]) (by rintro rfl; exact hnd.1.2 hm)
        rw [hl₁ q,hkq]
        split <;> simp)
      obtain ⟨node',hn',hv'⟩ := hval l₂ (hg₂.trans hg₁)
      have hlinks (x : WaiterId) (hx : x ≠ id) : l₂.links x = (l.links x).map fun k =>
          ⟨if post.head? = some x then pre.getLast? else k.prev,
            if pre.getLast? = some x then post.head? else k.next⟩ := by
        rw [hl₂ x,hl₁ x,setNode_links hn,if_neg hx]
        cases l.links x <;> split_ifs <;> simp
      have hlinkid : l₂.links id = none := by
        rw [hl₂ id,hl₁ id,setNode_links hn]
        simp
      have hrep : l₂.Represents (pre++post) := by
        refine h.cut ?_ ?_ hlinkid hlinks
        · rw [hh₂,hh₁]
          rfl
        · rw [ht₂,ht₁]
          rfl
      have herase : (pre++id::post).erase id = pre++post := by
        rw [List.erase_append_right _ hnd.1.1,List.erase_cons_head]
      refine ⟨l₂,?_,by simpa [herase] using hrep,by rw [hg₂,hg₁,hget₀]⟩
      simp [unlinkWaiter,Raw.node,hn,bind,Except.bind,hp,hnk,l₀,h₁,h₂,hn',hv']
    · have hnk : node.links = none := by
        have := h.detached id hid
        rwa [links_eq_of_get? hn] at this
      obtain ⟨node',hn',hv'⟩ := hval l₀ rfl
      refine ⟨l₀,?_,?_,hget₀⟩
      · simp only [l₀] at hn'
        simp [unlinkWaiter,Raw.node,hn,bind,Except.bind,hp,hnk,l₀,hn',hv']
      · simp only [List.erase_of_not_mem hid,if_true]
        refine h.congr rfl rfl fun x => ?_
        rw [setNode_links hn]
        by_cases hx : x = id
        · subst hx
          simp [links,hn,hnk]
        · simp [hx]

theorem unlinkWaiter_vacant (hv : l.get? id = none) (p : T → Bool × T) :
    l.unlinkWaiter id p = .error "waiter id must refer to an occupied node" := by
  have hn : l.nodes.get? id = none := Option.map_eq_none_iff.mp hv
  simp [unlinkWaiter,Raw.node,hn,bind,Except.bind]

theorem unlinkFirstWaiter_nil (h : l.Represents []) (p : T → Bool × T) :
    l.unlinkFirstWaiter p = .ok (none,l) := by
  have : l.head = none := h.head_eq
  simp [unlinkFirstWaiter,this]

theorem unlinkFirstWaiter_cons (h : l.Represents (id::ids)) (hv : l.get? id = some v)
    (p : T → Bool × T) :
    ∃ l', l.unlinkFirstWaiter p = .ok (if (p v).1 then some (id,(p v).2) else none,l') ∧
      l'.Represents (if (p v).1 then ids else id::ids) ∧
      l'.get? = Function.update l.get? id (some (p v).2) := by
  have hh : l.head = some id := h.head_eq
  obtain ⟨l',hu,hr,hg⟩ := unlinkWaiter_spec h hv p
  refine ⟨l',?_,by simpa using hr,hg⟩
  simp only [unlinkFirstWaiter,hh,hu,bind,Except.bind]
  cases (p v).1 <;> rfl

theorem setWaiter_spec (h : l.Represents ids) (hv : l.get? id = some v) (v' : T) :
    ∃ l', l.setWaiter id v' = .ok l' ∧ l'.Represents ids ∧
      l'.get? = Function.update l.get? id (some v') := by
  obtain ⟨node,hn,rfl⟩ := Option.map_eq_some_iff.mp hv
  refine ⟨l.setNode id {node with value := v'},by simp [setWaiter,Raw.node,hn,bind,Except.bind],
    ?_,setNode_value hn _⟩
  refine h.congr rfl rfl fun x => ?_
  rw [setNode_links hn]
  by_cases hx : x = id
  · subst hx
    simp [links,hn]
  · simp [hx]

theorem removeUnlinkedWaiter_spec (h : l.Represents ids) (hv : l.get? id = some v) (hid : id ∉ ids) :
    ∃ l', l.removeUnlinkedWaiter id = .ok (v,l') ∧ l'.Represents ids ∧
      l'.get? = Function.update l.get? id none := by
  obtain ⟨node,hn,rfl⟩ := Option.map_eq_some_iff.mp hv
  have hnk : node.links = none := by
    have := h.detached id hid
    rwa [links_eq_of_get? hn] at this
  obtain ⟨nodes,hr,hg⟩ := Arena.remove_spec hn
  refine ⟨{l with nodes := nodes},?_,?_,?_⟩
  · simp [removeUnlinkedWaiter,Raw.node,hn,bind,Except.bind,hnk,hr]
  · refine h.congr rfl rfl fun x => ?_
    by_cases hx : x = id
    · subst hx
      simp [links,hg,hn,hnk]
    · simp [links,hg,Function.update,hx]
  · funext x
    by_cases hx : x = id <;> simp [get?,hg,Function.update,hx]

theorem removeUnlinkedWaiter_linked (h : l.Represents ids) (hid : id ∈ ids) :
    l.removeUnlinkedWaiter id = .error "waiter must be unlinked before removal" := by
  obtain ⟨node,k,hn,hk⟩ := h.links_isSome hid
  simp [removeUnlinkedWaiter,Raw.node,hn,bind,Except.bind,hk]

theorem removeUnlinkedWaiter_vacant (hv : l.get? id = none) :
    l.removeUnlinkedWaiter id = .error "waiter id must refer to an occupied node" := by
  have hn : l.nodes.get? id = none := Option.map_eq_none_iff.mp hv
  simp [removeUnlinkedWaiter,Raw.node,hn,bind,Except.bind]

theorem setWaiter_vacant (hv : l.get? id = none) (v : T) :
    l.setWaiter id v = .error "waiter id must refer to an occupied node" := by
  have hn : l.nodes.get? id = none := Option.map_eq_none_iff.mp hv
  simp [setWaiter,Raw.node,hn,bind,Except.bind]

def Wf (l : Raw T) : Prop := ∃ ids, l.Represents ids

theorem pushBack_wf (h : l.Wf) (hr : l.pushBack v = .ok r) : r.2.Wf := by
  obtain ⟨ids,h⟩ := h
  obtain ⟨id,l',hp,_,hw,_⟩ := pushBack_spec h v
  rw [hp] at hr
  cases hr
  exact ⟨_,hw⟩

theorem pushFront_wf (h : l.Wf) (hr : l.pushFront v = .ok r) : r.2.Wf := by
  obtain ⟨ids,h⟩ := h
  obtain ⟨id,l',hp,_,hw,_⟩ := pushFront_spec h v
  rw [hp] at hr
  cases hr
  exact ⟨_,hw⟩

theorem unlinkWaiter_wf (h : l.Wf) {p : T → Bool × T} {r : Option T × Raw T}
    (hr : l.unlinkWaiter id p = .ok r) : r.2.Wf := by
  obtain ⟨ids,h⟩ := h
  cases hv : l.get? id with
  | none => simp [unlinkWaiter_vacant hv] at hr
  | some v =>
    obtain ⟨l',hu,hw,_⟩ := unlinkWaiter_spec h hv p
    rw [hu] at hr
    cases hr
    exact ⟨_,hw⟩

theorem unlinkFirstWaiter_ok (h : l.Wf) (p : T → Bool × T) :
    ∃ r, l.unlinkFirstWaiter p = .ok r ∧ r.2.Wf := by
  obtain ⟨ids,h⟩ := h
  cases ids with
  | nil => exact ⟨_,unlinkFirstWaiter_nil h p,_,h⟩
  | cons id ids =>
    obtain ⟨node,k,hn,_⟩ := h.links_isSome (show id ∈ _ by simp)
    obtain ⟨l',hu,hw,_⟩ := unlinkFirstWaiter_cons h (v:=node.value) (by simp [get?,hn]) p
    exact ⟨_,hu,_,hw⟩

theorem setWaiter_wf (h : l.Wf) (hr : l.setWaiter id v = .ok l') : l'.Wf := by
  obtain ⟨ids,h⟩ := h
  cases hv : l.get? id with
  | none => simp [setWaiter_vacant hv] at hr
  | some w =>
    obtain ⟨l'',hs,hw,_⟩ := setWaiter_spec h hv v
    rw [hs] at hr
    cases hr
    exact ⟨_,hw⟩

theorem removeUnlinkedWaiter_wf (h : l.Wf) {r : T × Raw T} (hr : l.removeUnlinkedWaiter id = .ok r) :
    r.2.Wf := by
  obtain ⟨ids,h⟩ := h
  cases hv : l.get? id with
  | none => simp [removeUnlinkedWaiter_vacant hv] at hr
  | some v =>
    by_cases hid : id ∈ ids
    · simp [removeUnlinkedWaiter_linked h hid] at hr
    · obtain ⟨l',hs,hw,_⟩ := removeUnlinkedWaiter_spec h hv hid
      rw [hs] at hr
      cases hr
      exact ⟨_,hw⟩

end Raw
end WaitList

structure WaitList (T : Type) where
  raw : WaitList.Raw T
  wf : raw.Wf

namespace WaitList

variable {T : Type} {w : WaitList T} {id : WaiterId} {v : T}

def new : WaitList T := ⟨.new,[],Raw.new_represents⟩

def order (w : WaitList T) : List WaiterId := w.raw.order

def get? (w : WaitList T) (id : WaiterId) : Option T := w.raw.get? id

def isEmpty (w : WaitList T) : Bool := w.raw.isEmpty

/-- `Raw.pushFront_spec` excludes the error arm. -/
def pushFront (w : WaitList T) (v : T) : WaiterId × WaitList T :=
  match h : w.raw.pushFront v with
  | .ok r => (r.1,⟨r.2,Raw.pushFront_wf w.wf h⟩)
  | .error _ => (0,w)

def pushBack (w : WaitList T) (v : T) : WaiterId × WaitList T :=
  match h : w.raw.pushBack v with
  | .ok r => (r.1,⟨r.2,Raw.pushBack_wf w.wf h⟩)
  | .error _ => (0,w)

def unlinkWaiter (w : WaitList T) (id : WaiterId) (p : T → Bool × T) :
    Except String (Option T × WaitList T) :=
  match h : w.raw.unlinkWaiter id p with
  | .ok r => .ok (r.1,⟨r.2,Raw.unlinkWaiter_wf w.wf h⟩)
  | .error message => .error message

def unlinkFirstWaiter (w : WaitList T) (p : T → Bool × T) : Option (WaiterId × T) × WaitList T :=
  match h : w.raw.unlinkFirstWaiter p with
  | .ok r => (r.1,⟨r.2,by
      obtain ⟨r',h',hw⟩ := Raw.unlinkFirstWaiter_ok w.wf p
      rw [h'] at h
      cases h
      exact hw⟩)
  | .error _ => (none,w)

def setWaiter (w : WaitList T) (id : WaiterId) (v : T) : Except String (WaitList T) :=
  match h : w.raw.setWaiter id v with
  | .ok l => .ok ⟨l,Raw.setWaiter_wf w.wf h⟩
  | .error message => .error message

def removeUnlinkedWaiter (w : WaitList T) (id : WaiterId) : Except String (T × WaitList T) :=
  match h : w.raw.removeUnlinkedWaiter id with
  | .ok r => .ok (r.1,⟨r.2,Raw.removeUnlinkedWaiter_wf w.wf h⟩)
  | .error message => .error message

theorem represents (w : WaitList T) : w.raw.Represents w.order := by
  obtain ⟨ids,h⟩ := w.wf
  rw [order,h.order_eq]
  exact h

theorem order_nodup (w : WaitList T) : w.order.Nodup := w.represents.nodup

theorem get?_of_mem_order (h : id ∈ w.order) : ∃ v, w.get? id = some v := by
  obtain ⟨node,k,hn,_⟩ := w.represents.links_isSome h
  exact ⟨node.value,by simp [get?,Raw.get?,hn]⟩

@[simp] theorem order_new : (new : WaitList T).order = [] := Raw.new_represents.order_eq

@[simp] theorem get?_new (id : WaiterId) : (new : WaitList T).get? id = none := rfl

theorem isEmpty_iff : w.isEmpty = true ↔ w.order = [] := by
  have h : w.raw.head = w.order.head? := w.represents.head_eq
  cases ho : w.order <;> simp_all [isEmpty,Raw.isEmpty]

theorem get?_eq_none_of_length_le (w : WaitList T) (h : w.raw.nodes.raw.slots.length ≤ id) :
    w.get? id = none := by
  simp [get?,Raw.get?,w.raw.nodes.get?_eq_none_of_length_le h]

theorem pushBack_spec (w : WaitList T) (v : T) :
    ∃ id w', w.pushBack v = (id,w') ∧ w.get? id = none ∧ w'.order = w.order++[id] ∧
      w'.get? = Function.update w.get? id (some v) := by
  obtain ⟨id,l,hp,hn,hr,hg⟩ := Raw.pushBack_spec w.represents v
  refine ⟨id,⟨l,_,hr⟩,?_,by simp [get?,Raw.get?,hn],hr.order_eq,hg⟩
  unfold pushBack
  split <;> simp_all

theorem pushFront_spec (w : WaitList T) (v : T) :
    ∃ id w', w.pushFront v = (id,w') ∧ w.get? id = none ∧ w'.order = id::w.order ∧
      w'.get? = Function.update w.get? id (some v) := by
  obtain ⟨id,l,hp,hn,hr,hg⟩ := Raw.pushFront_spec w.represents v
  refine ⟨id,⟨l,_,hr⟩,?_,by simp [get?,Raw.get?,hn],hr.order_eq,hg⟩
  unfold pushFront
  split <;> simp_all

theorem unlinkWaiter_spec (hv : w.get? id = some v) (p : T → Bool × T) :
    ∃ w', w.unlinkWaiter id p = .ok (if (p v).1 then some (p v).2 else none,w') ∧
      w'.order = (if (p v).1 then w.order.erase id else w.order) ∧
      w'.get? = Function.update w.get? id (some (p v).2) := by
  obtain ⟨l,hu,hr,hg⟩ := Raw.unlinkWaiter_spec w.represents hv p
  refine ⟨⟨l,_,hr⟩,?_,hr.order_eq,hg⟩
  unfold unlinkWaiter
  split <;> simp_all

theorem unlinkFirstWaiter_nil (h : w.order = []) (p : T → Bool × T) :
    w.unlinkFirstWaiter p = (none,w) := by
  have hu := Raw.unlinkFirstWaiter_nil (h ▸ w.represents) p
  unfold unlinkFirstWaiter
  split <;> simp_all

theorem unlinkFirstWaiter_cons {ids : List WaiterId} (h : w.order = id::ids) (hv : w.get? id = some v)
    (p : T → Bool × T) :
    ∃ w', w.unlinkFirstWaiter p = (if (p v).1 then some (id,(p v).2) else none,w') ∧
      w'.order = (if (p v).1 then ids else id::ids) ∧
      w'.get? = Function.update w.get? id (some (p v).2) := by
  obtain ⟨l,hu,hr,hg⟩ := Raw.unlinkFirstWaiter_cons (h ▸ w.represents) hv p
  refine ⟨⟨l,_,hr⟩,?_,hr.order_eq,hg⟩
  unfold unlinkFirstWaiter
  split <;> simp_all

theorem setWaiter_spec (hv : w.get? id = some v) (v' : T) :
    ∃ w', w.setWaiter id v' = .ok w' ∧ w'.order = w.order ∧
      w'.get? = Function.update w.get? id (some v') := by
  obtain ⟨l,hu,hr,hg⟩ := Raw.setWaiter_spec w.represents hv v'
  refine ⟨⟨l,_,hr⟩,?_,hr.order_eq,hg⟩
  unfold setWaiter
  split <;> simp_all

theorem removeUnlinkedWaiter_spec (hv : w.get? id = some v) (hid : id ∉ w.order) :
    ∃ w', w.removeUnlinkedWaiter id = .ok (v,w') ∧ w'.order = w.order ∧
      w'.get? = Function.update w.get? id none := by
  obtain ⟨l,hu,hr,hg⟩ := Raw.removeUnlinkedWaiter_spec w.represents hv hid
  refine ⟨⟨l,_,hr⟩,?_,hr.order_eq,hg⟩
  unfold removeUnlinkedWaiter
  split <;> simp_all

/-- The sum of `g` over all waiters that were issued and not yet removed. -/
def total (g : T → ℕ) (w : WaitList T) : ℕ :=
  Table.sumBelow w.raw.nodes.raw.slots.length w.get? g

theorem total_update {w' : WaitList T} {x : Option T} (h : w'.get? = Function.update w.get? id x)
    (g : T → ℕ) : w'.total g + (w.get? id).elim 0 g = w.total g + x.elim 0 g :=
  Table.sumBelow_update (fun _ => w.get?_eq_none_of_length_le)
    (fun _ => w'.get?_eq_none_of_length_le) h g

@[simp] theorem total_new (g : T → ℕ) : (new : WaitList T).total g = 0 := by
  simp [total,Table.sumBelow]

theorem total_add (f g : T → ℕ) (w : WaitList T) :
    w.total (fun v => f v + g v) = w.total f + w.total g := by
  rw [total,total,total,Table.sumBelow,Table.sumBelow,Table.sumBelow,← Finset.sum_add_distrib]
  refine Finset.sum_congr rfl fun id _ => ?_
  cases w.get? id <;> rfl

theorem lt_of_get? (h : w.get? id = some v) : id < w.raw.nodes.raw.slots.length := by
  by_contra hid
  rw [w.get?_eq_none_of_length_le (Nat.not_lt.mp hid)] at h
  cases h

theorem total_linked (w : WaitList T) (g : T → ℕ)
    (h : ∀ id v, w.get? id = some v → id ∉ w.order → g v = 0) :
    w.total g = Table.total (fun id => (w.get? id).elim 0 g) w.order := by
  have hlist : Table.total (fun id => (w.get? id).elim 0 g) w.order =
      ∑ id ∈ w.order.toFinset, (w.get? id).elim 0 g := by
    rw [List.sum_toFinset _ w.order_nodup]
    rfl
  rw [hlist,total,Table.sumBelow]
  symm
  refine Finset.sum_subset ?_ ?_
  · intro id hid
    obtain ⟨v,hv⟩ := get?_of_mem_order (List.mem_toFinset.mp hid)
    exact Finset.mem_range.mpr (lt_of_get? hv)
  · intro id _ hid
    cases hv : w.get? id with
    | none => rfl
    | some v => exact h id v hv (fun hl => hid (List.mem_toFinset.mpr hl))

theorem total_owned {A : Type} (w : WaitList T) (table : List A) (slot : A → Option WaiterId)
    (owner : T → Option ℕ)
    (howned : ∀ (f : ℕ) a id, table[f]? = some a → slot a = some id →
      ∃ v, w.get? id = some v ∧ owner v = some f)
    (howner : ∀ id v f, w.get? id = some v → owner v = some f →
      ∃ a, table[f]? = some a ∧ slot a = some id) (g : T → ℕ) :
    w.total (fun v => if (owner v).isSome then g v else 0) =
      Table.total (fun a => ((slot a).bind w.get?).elim 0 g) table := by
  let term := fun id => (w.get? id).elim 0 fun v => if (owner v).isSome then g v else 0
  let index := fun id => ((w.get? id).bind owner).getD 0
  -- a waiter that counts has an owner, and the owner points back to it
  have hkey : ∀ id, term id ≠ 0 → ∃ v a, w.get? id = some v ∧ owner v = some (index id) ∧
      table[index id]? = some a ∧ slot a = some id := by
    intro id hid
    cases hv : w.get? id with
    | none => simp [term,hv] at hid
    | some v =>
      cases ho : owner v with
      | none => simp [term,hv,ho] at hid
      | some f =>
        obtain ⟨a,ha,hs⟩ := howner id v f hv ho
        have hindex : index id = f := by simp [index,hv,ho]
        exact ⟨v,a,rfl,by rw [hindex,ho],by rw [hindex,ha],hs⟩
  rw [total,Table.sumBelow,Table.total_eq_sum_range]
  refine Finset.sum_bij_ne_zero (fun id _ _ => index id) ?_ ?_ ?_ ?_
  · intro id _ hid
    obtain ⟨v,a,-,-,ha,-⟩ := hkey id hid
    exact Finset.mem_range.mpr (List.getElem?_eq_some_iff.mp ha).1
  · intro id _ hid id' _ hid' heq
    obtain ⟨v,a,-,-,ha,hs⟩ := hkey id hid
    obtain ⟨v',a',-,-,ha',hs'⟩ := hkey id' hid'
    rw [heq,ha'] at ha
    cases ha
    exact Option.some.inj (hs.symm.trans hs')
  · intro f _ hf
    cases ha : table[f]? with
    | none => simp [ha] at hf
    | some a =>
      cases hs : slot a with
      | none => simp [ha,hs] at hf
      | some id =>
        obtain ⟨v,hv,ho⟩ := howned f a id ha hs
        refine ⟨id,Finset.mem_range.mpr (lt_of_get? hv),?_,by simp [index,hv,ho]⟩
        simpa [ha,hs,hv,ho] using hf
  · intro id _ hid
    obtain ⟨v,a,hv,ho,ha,hs⟩ := hkey id hid
    simp [hv,ho,ha,hs]

end WaitList
end Asyncband
