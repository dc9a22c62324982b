import Asyncband.Fifo
import Asyncband.SemaphoreEffect

/-! Waiters are served first in, first out.
`Round` is what a round of either queue loop does to the head. Debt stays in front
of all acquire nodes and an acquire node behind another one is untouched (`Shape`);
together with the queue discipline of `Fifo` this gives the order of a whole run. -/
namespace Asyncband
namespace Semaphore

open Relation

variable {W : Type}
variable {w : WaitList (WaitNode W)} {id : WaiterId} {d d' : Distribution W}
    {acquires : List (Acquire W)} {f : ℕ} {a a' : Acquire W} {entered : List ℕ} {s : State W}

def owners (w : WaitList (WaitNode W)) : List ℕ :=
  w.order.filterMap fun id => (w.get? id).bind WaitNode.owner

def Owned (w : WaitList (WaitNode W)) (id : WaiterId) : Prop :=
  ∃ node f, w.get? id = some node ∧ node.owner = some f

/-- The node belongs to a future that has not been assigned anything yet. -/
def Full (w : WaitList (WaitNode W)) (acquires : List (Acquire W)) (id : WaiterId) : Prop :=
  ∃ node f a, w.get? id = some node ∧ node.owner = some f ∧ acquires[f]? = some a ∧
    node.neededPermits = a.requestedPermits

/-- Behind an acquire node there are only acquire nodes, and nothing is assigned to them. -/
def Shape (w : WaitList (WaitNode W)) (acquires : List (Acquire W)) : Prop :=
  w.order.Pairwise fun x y => Owned w x → Full w acquires y

/-- One round at the head of the queue, for whatever reason. -/
inductive Round (d d' : Distribution W) : Prop
  | take {id : WaiterId} {ids : List WaiterId} {node : WaitNode W} {f : ℕ} {waker : W}
      (ho : d.waiters.order = id::ids) (hn : d.waiters.get? id = some node)
      (hown : node.owner = some f) (hw : node.waker = some waker) (ho' : d'.waiters.order = ids)
      (hg' : d'.waiters.get? = Function.update d.waiters.get? id
        (some {node with neededPermits := 0,waker := none}))
      (hb : d'.batch = d.batch++[waker]) (hgr : d'.granted = d.granted++[(f,waker)])
  | pay {id : WaiterId} {ids : List WaiterId} {node : WaitNode W}
      (ho : d.waiters.order = id::ids) (hn : d.waiters.get? id = some node)
      (hown : node.owner = none) (ho' : d'.waiters.order = ids)
      (hg' : d'.waiters.get? = Function.update d.waiters.get? id none)
      (hb : d'.batch = d.batch) (hgr : d'.granted = d.granted)
  | part {id : WaiterId} {ids : List WaiterId} {node : WaitNode W} {n : ℕ}
      (ho : d.waiters.order = id::ids) (hn : d.waiters.get? id = some node)
      (ho' : d'.waiters.order = id::ids)
      (hg' : d'.waiters.get? = Function.update d.waiters.get? id
        (some {node with neededPermits := n}))
      (hb : d'.batch = d.batch) (hgr : d'.granted = d.granted)

section Rounds

variable [Wake W] {d d' : Distribution W} {acquires : List (Acquire W)}

section

variable (hq : QueueOk d.waiters acquires)
include hq

theorem waker_owner {id : WaiterId} {ids : List WaiterId} {node : WaitNode W}
    (ho : d.waiters.order = id::ids) (hn : d.waiters.get? id = some node) :
    node.waker.isSome = node.owner.isSome :=
  hq.waker_isSome hn (by simp [ho])

theorem Assign.round (h : Assign d d') : Round d d' := by
  cases h with
  | @grant id ids node waker waiters ho hn hw hr ho' hg' =>
    have hsome := waker_owner hq ho hn
    rw [hw] at hsome
    obtain ⟨f,hf⟩ := Option.isSome_iff_exists.mp hsome.symm
    exact .take ho hn hf hw ho' hg' rfl (by simp [hf])
  | @repay id ids node waiters ho hn hw hr ho' hg' =>
    have hsome := waker_owner hq ho hn
    rw [hw] at hsome
    have hnone : node.owner = none := by simpa using hsome.symm
    exact .pay ho hn hnone ho' hg' rfl rfl
  | part ho hn hr ho' hg' => exact .part ho hn ho' hg' rfl rfl

theorem Notify.round (h : Notify d d') : Round d d' := by
  cases h with
  | @grant id ids node waker waiters ho hn hw ho' hg' =>
    have hsome := waker_owner hq ho hn
    rw [hw] at hsome
    obtain ⟨f,hf⟩ := Option.isSome_iff_exists.mp hsome.symm
    exact .take ho hn hf hw ho' hg' rfl (by simp [hf])
  | @forgive id ids node waiters ho hn hw ho' hg' =>
    have hsome := waker_owner hq ho hn
    rw [hw] at hsome
    have hnone : node.owner = none := by simpa using hsome.symm
    exact .pay ho hn hnone ho' hg' rfl rfl

theorem Assign.rounds (h : ReflTransGen Assign d d') : ReflTransGen Round d d' := by
  induction h with
  | refl => exact .refl
  | tail h hround ih => exact ih.tail (hround.round (hq.assign h))

theorem Notify.rounds (h : ReflTransGen Notify d d') : ReflTransGen Round d d' := by
  induction h with
  | refl => exact .refl
  | tail h hround ih => exact ih.tail (hround.round (hq.notify h))

end

end Rounds

section Shapes

variable {w w' : WaitList (WaitNode W)} {acquires acquires' : List (Acquire W)}

/-- The shape depends on the nodes of the queue only, and the head may change freely
as long as it keeps its owner. -/
theorem Shape.sublist (h : Shape w acquires) (hs : w'.order.Sublist w.order)
    (howned : ∀ id ∈ w'.order, Owned w' id → Owned w id)
    (hfull : ∀ id ∈ w'.order.tail, Full w acquires id → Full w' acquires' id) :
    Shape w' acquires' := by
  have hp : w'.order.Pairwise fun x y => Owned w x → Full w acquires y := List.Pairwise.sublist hs h
  unfold Shape
  cases ho : w'.order with
  | nil => exact List.Pairwise.nil
  | cons id ids =>
    rw [ho] at hp howned hfull
    simp only [List.tail_cons] at hfull
    rw [List.pairwise_cons] at hp ⊢
    refine ⟨fun y hy hx => hfull y hy (hp.1 y hy (howned id (by simp) hx)),?_⟩
    refine List.Pairwise.imp_of_mem ?_ hp.2
    intro x y hx hy hxy hown
    exact hfull y hy (hxy (howned x (by simp [hx]) hown))

theorem owners_congr {id : WaiterId} {x : Option (WaitNode W)} (ho : w'.order = w.order)
    (hg : w'.get? = Function.update w.get? id x)
    (hx : id ∈ w.order → x.bind WaitNode.owner = (w.get? id).bind WaitNode.owner) :
    owners w' = owners w := by
  unfold owners
  rw [ho,hg]
  refine List.filterMap_congr fun id' hid => ?_
  by_cases heq : id' = id
  · subst heq
    simpa using hx hid
  · simp [Function.update_of_ne heq]

end Shapes

theorem pairwise_split {P Q : WaiterId → Prop} {l : List WaiterId}
    (h : l.Pairwise fun x y => P x → Q y) (hQP : ∀ x, Q x → P x) :
    ∃ front rest, l = front++rest ∧ (∀ x ∈ front, ¬ P x) ∧ (∀ x ∈ rest, P x) ∧
      ∀ x ∈ rest.tail, Q x := by
  induction l with
  | nil => exact ⟨[],[],rfl,by simp,by simp,by simp⟩
  | cons x l ih =>
    rw [List.pairwise_cons] at h
    by_cases hx : P x
    · have hl : ∀ y ∈ l, Q y := fun y hy => h.1 y hy hx
      refine ⟨[],x::l,rfl,by simp,?_,hl⟩
      intro y hy
      rcases List.mem_cons.mp hy with rfl | hy
      · exact hx
      · exact hQP y (hl y hy)
    · obtain ⟨front,rest,hl,hfront,hrest,htail⟩ := ih h.2
      refine ⟨x::front,rest,by rw [hl,List.cons_append],?_,hrest,htail⟩
      intro y hy
      rcases List.mem_cons.mp hy with rfl | hy
      · exact hx
      · exact hfront y hy

theorem head_ne {id' : WaiterId} {ids : List WaiterId} (ho : w.order = id::ids) (hid : id' ∈ ids) :
    id' ≠ id := by
  have hnd := w.order_nodup
  rw [ho,List.nodup_cons] at hnd
  exact fun heq => hnd.1 (heq ▸ hid)

/-- A node that stays linked keeps its owner and its waker; only the head can change. -/
theorem Round.linked (h : Round d d') :
    ∀ id ∈ d'.waiters.order, id ∈ d.waiters.order ∧
      ∃ node n, d.waiters.get? id = some node ∧
        d'.waiters.get? id = some {node with neededPermits := n} := by
  intro id' hid
  have hmem {ids : List WaiterId} {id : WaiterId} (ho : d.waiters.order = id::ids)
      (hid : id' ∈ ids) : ∃ node, d.waiters.get? id' = some node :=
    WaitList.get?_of_mem_order (by simp [ho,hid])
  cases h with
  | take ho _ _ _ ho' hg' | pay ho _ _ ho' hg' =>
    rw [ho'] at hid
    obtain ⟨node,hnode⟩ := hmem ho hid
    rw [hg',Function.update_of_ne (head_ne ho hid)]
    exact ⟨by simp [ho,hid],node,node.neededPermits,hnode,hnode⟩
  | @part id ids node n ho hn ho' hg' =>
    rw [ho',List.mem_cons] at hid
    rcases hid with rfl | hid
    · exact ⟨by simp [ho],node,n,hn,by simp [hg']⟩
    · obtain ⟨node,hnode⟩ := hmem ho hid
      rw [hg',Function.update_of_ne (head_ne ho hid)]
      exact ⟨by simp [ho,hid],node,node.neededPermits,hnode,hnode⟩

theorem Round.tail_same (h : Round d d') :
    ∀ id ∈ d.waiters.order.tail, d'.waiters.get? id = d.waiters.get? id := by
  intro id' hid
  cases h with
  | take ho _ _ _ _ hg' | pay ho _ _ _ hg' | part ho _ _ hg' =>
    rw [hg',Function.update_of_ne (head_ne ho (by simpa [ho] using hid))]

theorem Round.order_cases (h : Round d d') :
    d'.waiters.order = d.waiters.order ∨ d'.waiters.order = d.waiters.order.tail := by
  cases h with
  | take ho hn hown hw ho' hg' => exact Or.inr (by simp [ho,ho'])
  | pay ho hn hown ho' hg' => exact Or.inr (by simp [ho,ho'])
  | part ho hn ho' hg' => exact Or.inl (by simp [ho,ho'])

theorem Round.detached (h : Round d d') (hid : id ∉ d.waiters.order) :
    d'.waiters.get? id = d.waiters.get? id := by
  cases h with
  | take ho _ _ _ _ hg' | pay ho _ _ _ hg' | part ho _ _ hg' =>
    rw [hg',Function.update_of_ne]
    exact fun heq => hid (by simp [ho,heq])

theorem Round.shape (h : Round d d') (hs : Shape d.waiters acquires) : Shape d'.waiters acquires := by
  refine hs.sublist ?_ ?_ ?_
  · rcases h.order_cases with ho | ho
    · rw [ho]
    · rw [ho]
      exact List.tail_sublist _
  · rintro id hid ⟨node,f,hn,hf⟩
    obtain ⟨-,node',n,hn',heq⟩ := h.linked id hid
    rw [hn] at heq
    cases heq
    exact ⟨node',f,hn',hf⟩
  · intro id hid hfull
    have htail : id ∈ d.waiters.order.tail := by
      rcases h.order_cases with ho | ho
      · rwa [ho] at hid
      · rw [ho] at hid
        exact List.mem_of_mem_tail hid
    unfold Full at *
    rwa [h.tail_same id htail]

/-- What a stretch of rounds did: `new` are the futures served, each with the waker
taken for it. -/
structure Handed (d d' : Distribution W) (new : List (ℕ × W)) : Prop where
  granted : d'.granted = d.granted++new
  batch : d'.batch = d.batch++new.map Prod.snd
  owners : owners d.waiters = new.map Prod.fst++owners d'.waiters
  linked : ∀ id ∈ d'.waiters.order, id ∈ d.waiters.order ∧
    ∃ node n, d.waiters.get? id = some node ∧
      d'.waiters.get? id = some {node with neededPermits := n}
  detached : ∀ id, id ∉ d.waiters.order → d'.waiters.get? id = d.waiters.get? id
  taken : ∀ id node f, id ∈ d.waiters.order → id ∉ d'.waiters.order →
    d.waiters.get? id = some node → node.owner = some f →
    ∃ waker, node.waker = some waker ∧ (f,waker) ∈ new ∧
      d'.waiters.get? id = some {node with neededPermits := 0,waker := none}
  source : ∀ p ∈ new, ∃ id node, id ∈ d.waiters.order ∧ id ∉ d'.waiters.order ∧
    d.waiters.get? id = some node ∧ node.owner = some p.1 ∧ node.waker = some p.2
  /-- Acquire nodes are not touched while debt is linked. -/
  debtFirst : (∀ id ∈ d'.waiters.order, Owned d'.waiters id) ∨
    ∀ id, Owned d.waiters id → d'.waiters.get? id = d.waiters.get? id

theorem Handed.refl (d : Distribution W) : Handed d d [] where
  granted := by simp
  batch := by simp
  owners := by simp
  linked id hid := by
    obtain ⟨node,hn⟩ := WaitList.get?_of_mem_order hid
    exact ⟨hid,node,node.neededPermits,hn,hn⟩
  detached _ _ := rfl
  taken id node f hid hnot := absurd hid hnot
  source := by simp
  debtFirst := Or.inr fun _ _ => rfl

theorem Handed.trans {d'' : Distribution W} {new new' : List (ℕ × W)} (h : Handed d d' new)
    (h' : Handed d' d'' new') : Handed d d'' (new++new') where
  granted := by rw [h'.granted,h.granted,List.append_assoc]
  batch := by rw [h'.batch,h.batch,List.map_append,List.append_assoc]
  owners := by rw [h.owners,h'.owners,List.map_append,List.append_assoc]
  linked id hid := by
    obtain ⟨hid',node',n',hn',hn''⟩ := h'.linked id hid
    obtain ⟨hid,node,n,hn,heq⟩ := h.linked id hid'
    rw [hn'] at heq
    cases heq
    exact ⟨hid,node,n',hn,hn''⟩
  detached id hid := by
    have hid' : id ∉ d'.waiters.order := fun hl => hid (h.linked id hl).1
    rw [h'.detached id hid',h.detached id hid]
  taken id node f hid hnot hn hf := by
    by_cases hid' : id ∈ d'.waiters.order
    · obtain ⟨-,node',n,hn',heq⟩ := h.linked id hid'
      rw [hn] at hn'
      cases hn'
      obtain ⟨waker,hw,hmem,hget⟩ := h'.taken id _ f hid' hnot heq hf
      exact ⟨waker,hw,List.mem_append_right _ hmem,hget⟩
    · obtain ⟨waker,hw,hmem,hget⟩ := h.taken id node f hid hid' hn hf
      exact ⟨waker,hw,List.mem_append_left _ hmem,(h'.detached id hid').trans hget⟩
  source p hp := by
    rcases List.mem_append.mp hp with hp | hp
    · obtain ⟨id,node,hid,hnot,hn,hf⟩ := h.source p hp
      exact ⟨id,node,hid,fun hl => hnot (h'.linked id hl).1,hn,hf⟩
    · obtain ⟨id,node',hid',hnot,hn',hf⟩ := h'.source p hp
      obtain ⟨hid,node,n,hn,heq⟩ := h.linked id hid'
      rw [hn'] at heq
      cases heq
      exact ⟨id,node,hid,hnot,hn,hf⟩
  debtFirst := by
    rcases h'.debtFirst with hdone | hsame'
    · exact Or.inl hdone
    · rcases h.debtFirst with hdone | hsame
      · left
        intro id hid
        obtain ⟨hid',node,n,hn,hn'⟩ := h'.linked id hid
        obtain ⟨node',f,hnode,hf⟩ := hdone id hid'
        rw [hn] at hnode
        cases hnode
        exact ⟨_,f,hn',hf⟩
      · right
        intro id hown
        have heq := hsame id hown
        have hown' : Owned d'.waiters id := by
          obtain ⟨node,f,hn,hf⟩ := hown
          exact ⟨node,f,heq.trans hn,hf⟩
        rw [hsame' id hown',heq]

theorem Round.handed (h : Round d d') (hs : Shape d.waiters acquires) : ∃ new, Handed d d' new := by
  have howners {id : WaiterId} {ids : List WaiterId} {x : Option (WaitNode W)}
      (ho : d.waiters.order = id::ids) (ho' : d'.waiters.order = ids)
      (hg' : d'.waiters.get? = Function.update d.waiters.get? id x) :
      owners d'.waiters = ids.filterMap fun id => (d.waiters.get? id).bind WaitNode.owner := by
    unfold Semaphore.owners
    rw [ho',hg']
    refine List.filterMap_congr fun id' hid => ?_
    rw [Function.update_of_ne (head_ne ho hid)]
  have hkept {id : WaiterId} {ids : List WaiterId} (ho : d.waiters.order = id::ids)
      {id' : WaiterId} (hid : id' ∈ d.waiters.order) (hne : id' ≠ id) : id' ∈ ids := by
    rw [ho,List.mem_cons] at hid
    exact hid.resolve_left hne
  -- behind an acquire node there are only acquire nodes
  have hall {id : WaiterId} {ids : List WaiterId} (ho : d.waiters.order = id::ids)
      (hown : Owned d.waiters id) : ∀ id' ∈ d'.waiters.order, Owned d'.waiters id' := by
    intro id' hid
    obtain ⟨hid',node,n,hn,hn'⟩ := h.linked id' hid
    have hown' : Owned d.waiters id' := by
      by_cases hne : id' = id
      · rwa [hne]
      · unfold Shape at hs
        rw [ho,List.pairwise_cons] at hs
        obtain ⟨node,f,a,hn,hf,-⟩ := hs.1 id' (hkept ho hid' hne) hown
        exact ⟨node,f,hn,hf⟩
    obtain ⟨node',f,hnode,hf⟩ := hown'
    rw [hn] at hnode
    cases hnode
    exact ⟨_,f,hn',hf⟩
  -- while debt is at the head, acquire nodes stay as they are
  have hnone {id : WaiterId} {node : WaitNode W} {x : Option (WaitNode W)}
      (hn : d.waiters.get? id = some node) (hown : node.owner = none)
      (hg' : d'.waiters.get? = Function.update d.waiters.get? id x) :
      ∀ id', Owned d.waiters id' → d'.waiters.get? id' = d.waiters.get? id' := by
    rintro id' ⟨node',f,hn',hf⟩
    have hne : id' ≠ id := by
      intro heq
      subst heq
      rw [hn] at hn'
      cases hn'
      simp [hown] at hf
    rw [hg',Function.update_of_ne hne]
  have h' := h
  cases h with
  | @take id ids node f waker ho hn hown hw ho' hg' hb hgr =>
    refine ⟨[(f,waker)],⟨hgr,hb,?_,h'.linked,fun _ hid => h'.detached hid,?_,?_,
      Or.inl (hall ho ⟨node,f,hn,hown⟩)⟩⟩
    · rw [howners ho ho' hg']
      simp [Semaphore.owners,ho,hn,hown]
    · intro id' node' f' hid hnot hn' hf'
      have hid' : id' = id := by
        by_contra hne
        exact hnot (ho' ▸ hkept ho hid hne)
      subst hid'
      rw [hn] at hn'
      cases hn'
      rw [hown] at hf'
      cases hf'
      exact ⟨waker,hw,by simp,by simp [hg']⟩
    · intro p hp
      rw [List.mem_singleton.mp hp]
      exact ⟨id,node,by simp [ho],detached_not_mem ho ho',hn,hown,hw⟩
  | @pay id ids node ho hn hown ho' hg' hb hgr =>
    refine ⟨[],⟨by simp [hgr],by simp [hb],?_,h'.linked,fun _ hid => h'.detached hid,?_,by simp,
      Or.inr (hnone hn hown hg')⟩⟩
    · rw [howners ho ho' hg']
      simp [Semaphore.owners,ho,hn,hown]
    · intro id' node' f' hid hnot hn' hf'
      have hid' : id' = id := by
        by_contra hne
        exact hnot (ho' ▸ hkept ho hid hne)
      subst hid'
      rw [hn] at hn'
      cases hn'
      simp [hown] at hf'
  | @part id ids node n ho hn ho' hg' hb hgr =>
    refine ⟨[],⟨by simp [hgr],by simp [hb],?_,h'.linked,fun _ hid => h'.detached hid,?_,by simp,?_⟩⟩
    · have hsame := owners_congr (ho'.trans ho.symm) hg' (fun _ => by simp [hn])
      simp [hsame]
    · intro id' node' f' hid hnot
      rw [ho'] at hnot
      rw [ho] at hid
      exact absurd hid hnot
    · cases hf : node.owner with
      | none => exact Or.inr (hnone hn hf hg')
      | some f => exact Or.inl (hall ho ⟨node,f,hn,hf⟩)

theorem rounds_handed (h : ReflTransGen Round d d') (hs : Shape d.waiters acquires) :
    Shape d'.waiters acquires ∧ ∃ new, Handed d d' new := by
  induction h with
  | refl => exact ⟨hs,[],Handed.refl d⟩
  | tail _ hround ih =>
    obtain ⟨hshape,new,hnew⟩ := ih
    obtain ⟨new',hnew'⟩ := hround.handed hshape
    exact ⟨hround.shape hshape,new++new',hnew.trans hnew'⟩

theorem Handed.get?_of_get? {new : List (ℕ × W)} (h : Handed d d' new)
    (hget : ∀ id node, d.waiters.get? id = some node → w.get? id = some node) {node node' : WaitNode W}
    (hn : w.get? id = some node) (hn' : d'.waiters.get? id = some node') :
    d.waiters.get? id = some node := by
  cases hd : d.waiters.get? id with
  | none =>
    have hid : id ∉ d.waiters.order := by
      intro hid
      obtain ⟨node,hnode⟩ := WaitList.get?_of_mem_order hid
      rw [hd] at hnode
      cases hnode
    rw [h.detached id hid,hd] at hn'
    cases hn'
  | some node'' => rw [← hget id node'' hd,hn]

def live (acquires : List (Acquire W)) (f : ℕ) : Bool :=
  (acquires[f]?).any fun a => decide (a.phase ≠ .dropped)

theorem live_of_phase (hf : acquires[f]? = some a) :
    live acquires f = decide (a.phase ≠ .dropped) := by
  simp [live,hf]

theorem live_set_ne {g : ℕ} (hne : g ≠ f) (a : Acquire W) :
    live (acquires.set f a) g = live acquires g := by
  unfold live
  rw [List.getElem?_set_ne (Ne.symm hne)]

theorem live_set (hf : acquires[f]? = some a)
    (h : f ∈ entered → (a'.phase = .dropped ↔ a.phase = .dropped)) :
    ∀ g ∈ entered, live (acquires.set f a') g = live acquires g := by
  intro g hg
  by_cases hne : g = f
  · subst hne
    rw [live_of_phase (Table.getElem?_set_self' hf a'),live_of_phase hf]
    simp [h hg]
  · exact live_set_ne hne a'

theorem Full.set (h : Full w acquires id) (hf : acquires[f]? = some a)
    (hr : a'.requestedPermits = a.requestedPermits) : Full w (acquires.set f a') id := by
  obtain ⟨node,g,b,hn,hg,hb,hneed⟩ := h
  by_cases hne : g = f
  · subst hne
    rw [hf] at hb
    cases hb
    exact ⟨node,g,a',hn,hg,Table.getElem?_set_self' hf a',hneed.trans hr.symm⟩
  · exact ⟨node,g,b,hn,hg,by rwa [List.getElem?_set_ne (Ne.symm hne)],hneed⟩

/-- The order of the queue, and how it relates to the order of entry. -/
structure Order (s : State W) : Prop where
  shape : Shape s.waiters s.acquires
  fifo : Fifo (live s.acquires) s.enqueued (s.granted.map Prod.fst) (owners s.waiters)
  polled : ∀ f ∈ s.enqueued, ∃ a, s.acquires[f]? = some a ∧ a.phase ≠ .unpolled

theorem Order.not_enqueued (hO : Order s) (hf : s.acquires[f]? = some a) (hp : a.phase = .unpolled) :
    f ∉ s.enqueued := by
  intro hm
  obtain ⟨b,hb,hne⟩ := hO.polled f hm
  rw [hf] at hb
  cases hb
  exact hne hp

theorem polled_set (h : ∀ g ∈ entered, ∃ a, acquires[g]? = some a ∧ a.phase ≠ .unpolled)
    (hp : f ∈ entered → a'.phase ≠ .unpolled) :
    ∀ g ∈ entered, ∃ a, (acquires.set f a')[g]? = some a ∧ a.phase ≠ .unpolled := by
  intro g hg
  obtain ⟨a,ha,hne⟩ := h g hg
  by_cases hgf : g = f
  · subst hgf
    exact ⟨a',Table.getElem?_set_self' ha a',hp hg⟩
  · exact ⟨a,by rwa [List.getElem?_set_ne (Ne.symm hgf)],hne⟩

theorem Order.setAcquire (hO : Order s) (a' : Acquire W) (hf : s.acquires[f]? = some a)
    (hr : a'.requestedPermits = a.requestedPermits)
    (h : f ∈ s.enqueued → a'.phase ≠ .unpolled ∧ (a'.phase = .dropped ↔ a.phase = .dropped)) :
    Shape s.waiters (s.acquires.set f a') ∧
    Fifo (live (s.acquires.set f a')) s.enqueued (s.granted.map Prod.fst) (owners s.waiters) ∧
    ∀ g ∈ s.enqueued, ∃ a, (s.acquires.set f a')[g]? = some a ∧ a.phase ≠ .unpolled :=
  ⟨hO.shape.sublist (List.Sublist.refl _) (fun _ _ => id) (fun _ _ hfull => hfull.set hf hr),
    hO.fifo.congr (live_set hf fun hm => (h hm).2),polled_set hO.polled fun hm => (h hm).1⟩

theorem Order.rounds {granted : List ℕ} (hs : Shape d.waiters acquires)
    (hf : Fifo (live acquires) entered granted (owners d.waiters)) (h : ReflTransGen Round d d')
    (hd : d.granted = []) :
    Shape d'.waiters acquires ∧
      Fifo (live acquires) entered (granted++d'.granted.map Prod.fst) (owners d'.waiters) := by
  obtain ⟨hshape,new,hnew⟩ := rounds_handed h hs
  have hgranted : d'.granted = new := by simpa [hd] using hnew.granted
  rw [hnew.owners] at hf
  rw [hgranted]
  exact ⟨hshape,hf.serve⟩

theorem start_order {op : Op W} (hO : Order s) (hs : startable s op = true) :
    Order {borrow s s.calls.length op with
      calls := (borrow s s.calls.length op).calls++[.started op]} := by
  have hborrow {f : ℕ} {a : Acquire W} (hf : s.acquires[f]? = some a) (busy : Option ℕ) :=
    hO.setAcquire {a with busy := busy} hf rfl fun hm => by
      obtain ⟨b,hb,hne⟩ := hO.polled f hm
      rw [hf] at hb
      cases hb
      exact ⟨hne,Iff.rfl⟩
  cases op with
  | poll f w =>
    obtain ⟨a,ha,-⟩ := startable_poll hs
    have hset := hborrow ha (some s.calls.length)
    simp only [borrow,List.modify_eq_set_getElem?,ha,Option.map_eq_map,Option.map_some,
      Option.getD_some]
    exact ⟨hset.1,hset.2.1,hset.2.2⟩
  | drop f =>
    obtain ⟨a,ha,-⟩ := startable_drop hs
    have hset := hborrow ha (some s.calls.length)
    simp only [borrow,List.modify_eq_set_getElem?,ha,Option.map_eq_map,Option.map_some,
      Option.getD_some]
    exact ⟨hset.1,hset.2.1,hset.2.2⟩
  | _ => exact ⟨hO.shape,hO.fifo,hO.polled⟩

theorem acquire_order (hO : Order s) (n : ℕ) :
    Order {s with acquires := s.acquires++[⟨n,.unpolled,none,none⟩]} := by
  have hold {f : ℕ} {a : Acquire W} (ha : s.acquires[f]? = some a) :=
    Table.getElem?_push_old ha ⟨n,.unpolled,none,none⟩
  refine ⟨?_,?_,?_⟩
  · refine hO.shape.sublist (List.Sublist.refl _) (fun _ _ => id) ?_
    rintro id _ ⟨node,f,a,hn,hf,ha,hneed⟩
    exact ⟨node,f,a,hn,hf,hold ha,hneed⟩
  · refine hO.fifo.congr fun f hf => ?_
    obtain ⟨a,ha,-⟩ := hO.polled f hf
    rw [live_of_phase ha,live_of_phase (hold ha)]
  · intro f hf
    obtain ⟨a,ha,hne⟩ := hO.polled f hf
    exact ⟨a,hold ha,hne⟩

section Steps

variable [Wake W] {s s' : State W} {c : ℕ} {call call' : Call W}

theorem owners_erase {w' : WaitList (WaitNode W)} (hq : QueueOk w acquires)
    (hf : acquires[f]? = some a) (hp : a.phase = .queued id) (ho : w'.order = w.order.erase id)
    (hg : w'.get? = Function.update w.get? id none) : owners w' = (owners w).filter (· ≠ f) := by
  have hiff : ∀ id' ∈ w.order, (w.get? id').bind WaitNode.owner = some f ↔ id' = id := by
    intro id' _
    constructor
    · intro h
      obtain ⟨node,hn,ho⟩ := Option.bind_eq_some_iff.mp h
      obtain ⟨b,hb,hpb,-⟩ := hq.owner_phase hn ho
      rw [hf] at hb
      cases hb
      rw [hp] at hpb
      cases hpb
      rfl
    · intro h
      subst h
      obtain ⟨node,hn,ho⟩ := hq.owned f a id' hf hp
      simp [hn,ho]
  unfold owners
  rw [ho,hg,w.order_nodup.erase_eq_filter,List.filter_filterMap,List.filterMap_filter]
  refine List.filterMap_congr fun id' hid => ?_
  by_cases heq : id' = id
  · have hsome := (hiff id' hid).mpr heq
    subst heq
    simp [hsome,Option.filter]
  · have hne := mt (hiff id' hid).mp heq
    simp only [Function.update_of_ne heq]
    cases hown : (w.get? id').bind WaitNode.owner with
    | none => simp
    | some g =>
      have hgf : g ≠ f := fun h => hne (by rw [hown,h])
      simp [heq,Option.filter,hgf]

theorem Order.cancelled (hO : Order s) (hI : Inv s) {waiters : WaitList (WaitNode W)}
    (hf : s.acquires[f]? = some a) (hp : a.phase = .queued id)
    (horder : waiters.order = s.waiters.order.erase id)
    (hget : waiters.get? = Function.update s.waiters.get? id none) :
    QueueOk waiters (s.acquires.set f {a with phase := .dropped,busy := none}) ∧
      Shape waiters (s.acquires.set f {a with phase := .dropped,busy := none}) := by
  have hsame : ∀ id' ∈ waiters.order, waiters.get? id' = s.waiters.get? id' := by
    intro id' hmem
    rw [horder] at hmem
    have hne : id' ≠ id := fun heq => s.waiters.order_nodup.not_mem_erase (heq ▸ hmem)
    rw [hget,Function.update_of_ne hne]
  constructor
  · exact hI.queue.removeOwned hf hp (by simp) hget
      (fun id' hne => by rw [horder,List.mem_erase_of_ne hne])
  · refine hO.shape.sublist (horder ▸ List.erase_sublist) ?_ ?_
    · intro id' hmem hown
      unfold Owned at *
      rwa [hsame id' hmem] at hown
    · intro id' hmem hfull
      have hfull' : Full waiters s.acquires id' := by
        unfold Full at *
        rwa [hsame id' (List.mem_of_mem_tail hmem)]
      exact hfull'.set hf rfl

theorem Effect.order (h : Effect s c call call' s') (hI : Inv s) (hO : Order s) : Order s' := by
  cases h with
  | @dropIdle f a phase hf hbusy hp =>
    rcases hp with ⟨hp,rfl⟩ | ⟨hp,rfl⟩
    · have hset := hO.setAcquire {a with phase := .dropped,busy := none} hf rfl
        (fun hm => absurd hm (hO.not_enqueued hf hp))
      exact ⟨hset.1,hset.2.1,hset.2.2⟩
    · have hset := hO.setAcquire {a with phase := .ready,busy := none} hf rfl
        (fun _ => by simp [hp])
      exact ⟨hset.1,hset.2.1,hset.2.2⟩
  | @acquire f a lock' hn hf hbusy hp =>
    have hset := hO.setAcquire {a with phase := .ready,busy := none} hf rfl
      (fun hm => absurd hm (hO.not_enqueued hf hp))
    exact ⟨hset.1,hset.2.1,hset.2.2⟩
  | distribute hlock hrounds =>
    have hr := Order.rounds hO.shape hO.fifo (Assign.rounds hI.queue hrounds) rfl
    exact ⟨hr.1,by simpa using hr.2,hO.polled⟩
  | notifyAll hlock hcall hrounds =>
    have hr := Order.rounds hO.shape hO.fifo (Notify.rounds hI.queue hrounds) rfl
    exact ⟨hr.1,by simpa using hr.2,hO.polled⟩
  | @enqueue f a w id waiters hn hf hbusy hp hlock hid horder hget =>
    have hnew := hO.not_enqueued hf hp
    have hold : ∀ id' ∈ s.waiters.order, id' ≠ id := by
      intro id' hmem heq
      obtain ⟨node,hnode⟩ := WaitList.get?_of_mem_order hmem
      rw [heq,hid] at hnode
      cases hnode
    have hset := hO.setAcquire {a with phase := .queued id,busy := none,lastWaker := some w}
      hf rfl (fun hm => absurd hm hnew)
    have hself := Table.getElem?_set_self' hf
      {a with phase := .queued id,busy := none,lastWaker := some w}
    refine ⟨?_,?_,?_⟩
    · unfold Shape
      rw [horder,List.pairwise_append]
      refine ⟨?_,List.pairwise_singleton _ _,?_⟩
      · refine List.Pairwise.imp_of_mem ?_ hset.1
        intro x y hx hy hxy hown
        have hsame : ∀ z ∈ s.waiters.order, waiters.get? z = s.waiters.get? z := fun z hz => by
          rw [hget,Function.update_of_ne (hold z hz)]
        unfold Owned at hown hxy
        unfold Full at hxy ⊢
        rw [hsame x hx] at hown
        rw [hsame y hy]
        exact hxy hown
      · intro x hx y hy _
        rw [List.mem_singleton.mp hy]
        -- somebody waits already, so the exchange took nothing
        have hzero : s.available = 0 := by
          by_contra hpos
          rw [hI.coupled hpos] at hx
          cases hx
        exact ⟨⟨a.requestedPermits-s.available,some w,some f⟩,f,_,by simp [hget],rfl,hself,
          by simp [hzero]⟩
    · have howners : owners waiters = owners s.waiters++[f] := by
        unfold owners
        rw [horder,List.filterMap_append,hget]
        congr 1
        · refine List.filterMap_congr fun id' hmem => ?_
          rw [Function.update_of_ne (hold id' hmem)]
        · simp
      rw [howners]
      exact hset.2.1.enter hnew (by simp [live_of_phase hself])
    · intro g hg
      rcases List.mem_append.mp hg with hg | hg
      · exact hset.2.2 g hg
      · rw [List.mem_singleton.mp hg]
        exact ⟨_,hself,by simp⟩
  | @owe n id waiters hn hlock hid horder hget =>
    have hold : ∀ id' ∈ s.waiters.order, waiters.get? id' = s.waiters.get? id' := by
      intro id' hmem
      have hne : id' ≠ id := by
        intro heq
        obtain ⟨node,hnode⟩ := WaitList.get?_of_mem_order hmem
        rw [heq,hid] at hnode
        cases hnode
      rw [hget,Function.update_of_ne hne]
    refine ⟨?_,?_,hO.polled⟩
    · unfold Shape
      rw [horder,List.pairwise_cons]
      refine ⟨?_,?_⟩
      · rintro y hy ⟨node,f,hnode,hf⟩
        simp only [hget,Function.update_self,Option.some.injEq] at hnode
        subst hnode
        cases hf
      · refine List.Pairwise.imp_of_mem ?_ hO.shape
        intro x y hx hy hxy hown
        unfold Owned at hown hxy
        unfold Full at hxy ⊢
        rw [hold x hx] at hown
        rw [hold y hy]
        exact hxy hown
    · have howners : owners waiters = owners s.waiters := by
        unfold owners
        rw [horder]
        simp only [List.filterMap_cons,hget,Function.update_self,Option.bind_some]
        rw [← hget]
        exact List.filterMap_congr fun id' hmem => by rw [hold id' hmem]
      rw [howners]
      exact hO.fifo
  | @cancel f a id node call' lock' waiters d hlock hf hbusy hp hnode horder hget hrounds =>
    obtain ⟨hq,hshape⟩ := hO.cancelled hI hf hp horder hget
    have hdead : live (s.acquires.set f {a with phase := .dropped,busy := none}) f = false := by
      simp [live_of_phase (Table.getElem?_set_self' hf _)]
    have hfifo := hO.fifo.cancel hdead fun g hne => live_set_ne hne _
    rw [← owners_erase hI.queue hf hp horder hget] at hfifo
    have hr := Order.rounds hshape hfifo (Assign.rounds hq hrounds) rfl
    exact ⟨hr.1,by simpa using hr.2,polled_set hO.polled fun _ => by simp⟩
  | @refresh f a id node w waiters hlock hf hbusy hp hnode hneed horder hget =>
    have hset := hO.setAcquire {a with busy := none,lastWaker := some w} hf rfl
      (fun _ => by simp [hp])
    refine ⟨hset.1.sublist (by rw [horder]) ?_ ?_,?_,hset.2.2⟩
    · rintro id' _ ⟨node',g,hn,hg⟩
      by_cases heq : id' = id
      · subst heq
        simp only [hget,Function.update_self,Option.some.injEq] at hn
        subst hn
        exact ⟨node,g,hnode,hg⟩
      · rw [hget,Function.update_of_ne heq] at hn
        exact ⟨node',g,hn,hg⟩
    · rintro id' _ ⟨node',g,b,hn,hg,hb,hneed⟩
      by_cases heq : id' = id
      · subst heq
        rw [hnode] at hn
        cases hn
        exact ⟨{node with waker := registerWaker node.waker w},g,b,by simp [hget],hg,hb,hneed⟩
      · exact ⟨node',g,b,by rwa [hget,Function.update_of_ne heq],hg,hb,hneed⟩
    · rw [owners_congr horder hget (fun _ => by simp [hnode])]
      exact hset.2.1
  | @claim f a id node w waiters hlock hf hbusy hp hnode hneed horder hget =>
    have hid : id ∉ s.waiters.order := by
      intro hmem
      have hpos := hI.queue.linked_need hnode hmem
      omega
    have hset := hO.setAcquire {a with phase := .ready,busy := none} hf rfl
      (fun _ => by simp [hp])
    have hsame : ∀ id' ∈ waiters.order, waiters.get? id' = s.waiters.get? id' := by
      intro id' hmem
      rw [horder] at hmem
      have hne : id' ≠ id := fun heq => hid (heq ▸ hmem)
      rw [hget,Function.update_of_ne hne]
    refine ⟨hset.1.sublist (by rw [horder]) ?_ ?_,?_,hset.2.2⟩
    · intro id' hmem hown
      unfold Owned at *
      rwa [hsame id' hmem] at hown
    · intro id' hmem hfull
      unfold Full at *
      rwa [hsame id' (List.mem_of_mem_tail hmem)]
    · rw [owners_congr horder hget (fun hmem => absurd hmem hid)]
      exact hset.2.1
  | _ => exact ⟨hO.shape,hO.fifo,hO.polled⟩

theorem next_order {a : Action W} (hI : Inv s) (hO : Order s) (h : next s a = some s') :
    Order s' := by
  cases a with
  | acquire n =>
    simp only [next] at h
    split at h
    · cases h
      exact acquire_order hO n
    · cases h
  | call op =>
    simp only [next] at h
    split at h
    · rename_i hs
      cases h
      exact start_order hO hs
    · cases h
  | advance c spurious =>
    cases hc : s.calls[c]? with
    | none => simp [next,advance,hc] at h
    | some call =>
      obtain ⟨call',heffect,-⟩ := advance_effect hI hc h
      exact heffect.order hI hO

theorem new_order (W : Type) (permits : ℕ) : Order (new W permits) where
  shape := by simp [Shape,new,WaitList.order_new]
  fifo := by simpa [owners,new,WaitList.order_new] using Fifo.empty
  polled := by simp [new]

theorem reachable_order (h : (machine W).Reachable s) : Inv s ∧ Order s := by
  refine (machine W).invariant (fun s => Inv s ∧ Order s) ?_ ?_ h
  · rintro s ⟨permits,hp,rfl⟩
    exact ⟨new_inv hp,new_order W permits⟩
  · intro s a t hs hn
    exact ⟨next_inv hs.1 hn,next_order hs.1 hs.2 hn⟩

/-- What a step that serves the futures in `new` and leaves the queue `w` may do to
the nodes of `s`. -/
structure Served (s : State W) (new : List (ℕ × W)) (w : WaitList (WaitNode W)) : Prop where
  /-- The waker taken for a served future is the one of its latest pending poll, or
  wakes the same task, and its node no longer has it. -/
  woken : ∀ f waker, (f,waker) ∈ new → ∃ a id node latest, s.acquires[f]? = some a ∧
    a.phase = .queued id ∧ id ∈ s.waiters.order ∧ s.waiters.get? id = some node ∧
    0 < node.neededPermits ∧ node.waker = some waker ∧ a.lastWaker = some latest ∧
    (waker = latest ∨ Wake.willWake waker latest = true) ∧ id ∉ w.order ∧
    w.get? id = some {node with neededPermits := 0,waker := none}
  /-- No other need reaches zero. -/
  complete : ∀ f id node node', s.waiters.get? id = some node → node.owner = some f →
    0 < node.neededPermits → w.get? id = some node' → node'.neededPermits = 0 →
    f ∈ new.map Prod.fst
  /-- Nothing is assigned to a future while debt is linked. -/
  debtFirst : ∀ f id node node', s.waiters.get? id = some node → node.owner = some f →
    w.get? id = some node' → node'.neededPermits < node.neededPermits →
    ∀ id' ∈ w.order, Owned w id'

theorem Served.none (h : ∀ id node node', s.waiters.get? id = some node → w.get? id = some node' →
      node'.neededPermits = node.neededPermits) : Served s [] w where
  woken := by simp
  complete f id node node' hn _ hpos hn' hzero := by
    have heq := h id node node' hn hn'
    omega
  debtFirst f id node node' hn _ hn' hlt := by
    have heq := h id node node' hn hn'
    omega

theorem Served.of_handed (hq : QueueOk s.waiters s.acquires) {d d' : Distribution W}
    {new : List (ℕ × W)} (h : Handed d d' new)
    (hget : ∀ id node, d.waiters.get? id = some node → s.waiters.get? id = some node)
    (horder : ∀ id ∈ d.waiters.order, id ∈ s.waiters.order)
    (hneed : ∀ id node, d'.waiters.get? id = some node → id ∈ d'.waiters.order →
      0 < node.neededPermits) : Served s new d'.waiters where
  woken f waker hp := by
    obtain ⟨id,node,hid,hnot,hn,hf,hw⟩ := h.source (f,waker) hp
    obtain ⟨waker',hw',-,hget'⟩ := h.taken id node f hid hnot hn hf
    obtain ⟨a,latest,ha,hphase,hlast,hwake⟩ :=
      hq.waker_latest (hget id node hn) (horder id hid) hf hw
    exact ⟨a,id,node,latest,ha,hphase,horder id hid,hget id node hn,
      hq.linked_need (hget id node hn) (horder id hid),hw,hlast,hwake,hnot,hget'⟩
  complete f id node node' hn hf hpos hn' hzero := by
    have hd := h.get?_of_get? hget hn hn'
    by_cases hid : id ∈ d.waiters.order
    · by_cases hid' : id ∈ d'.waiters.order
      · have hpos' := hneed id node' hn' hid'
        omega
      · obtain ⟨waker,-,hmem,-⟩ := h.taken id node f hid hid' hd hf
        exact List.mem_map.mpr ⟨_,hmem,rfl⟩
    · rw [h.detached id hid,hd] at hn'
      cases hn'
      omega
  debtFirst f id node node' hn hf hn' hlt := by
    have hd := h.get?_of_get? hget hn hn'
    rcases h.debtFirst with hdone | hsame
    · exact hdone
    · rw [hsame id ⟨node,f,hd,hf⟩,hd] at hn'
      cases hn'
      omega

theorem Effect.served (h : Effect s c call call' s') (hI : Inv s) (hO : Order s) :
    ∃ new, s'.granted = s.granted++new ∧ (new ≠ [] → call'.batch = new.map Prod.snd) ∧
      Served s new s'.waiters := by
  have hneed : ∀ id node, s'.waiters.get? id = some node → id ∈ s'.waiters.order →
      0 < node.neededPermits := fun id node hn hid => (h.queueOk hI.queue).linked_need hn hid
  -- steps that serve nobody
  have hsame {w : WaitList (WaitNode W)} {id : WaiterId} {x : Option (WaitNode W)}
      (hget : w.get? = Function.update s.waiters.get? id x)
      (hx : ∀ node node', s.waiters.get? id = some node → x = some node' →
        node'.neededPermits = node.neededPermits) : Served s [] w := by
    refine Served.none fun id' node node' hn hn' => ?_
    by_cases heq : id' = id
    · subst heq
      rw [hget,Function.update_self] at hn'
      exact hx node node' hn hn'
    · rw [hget,Function.update_of_ne heq,hn] at hn'
      cases hn'
      rfl
  have hquiet : Served s [] s.waiters := Served.none fun id node node' hn hn' => by
    rw [hn] at hn'
    cases hn'
    rfl
  cases h with
  | distribute hlock hrounds hr hbatch =>
    obtain ⟨-,new,hnew⟩ := rounds_handed (Assign.rounds hI.queue hrounds) hO.shape
    have hgranted := hnew.granted
    have hb := hnew.batch
    simp only [List.nil_append] at hgranted hb
    exact ⟨new,by simp [hgranted],fun _ => hbatch.trans hb,
      .of_handed hI.queue hnew (fun _ _ hn => hn) (fun _ hid => hid) hneed⟩
  | notifyAll hlock hcall hrounds =>
    obtain ⟨-,new,hnew⟩ := rounds_handed (Notify.rounds hI.queue hrounds) hO.shape
    have hgranted := hnew.granted
    have hb := hnew.batch
    simp only [List.nil_append] at hgranted hb
    exact ⟨new,by simp [hgranted],fun _ => hb,
      .of_handed hI.queue hnew (fun _ _ hn => hn) (fun _ hid => hid) hneed⟩
  | @cancel f a id node call' lock' waiters d hlock hf hbusy hp hnode horder hget hrounds hr hbatch =>
    obtain ⟨hq,hshape⟩ := hO.cancelled hI hf hp horder hget
    obtain ⟨-,new,hnew⟩ := rounds_handed (Assign.rounds hq hrounds) hshape
    have hgranted := hnew.granted
    have hb := hnew.batch
    simp only [List.nil_append] at hgranted hb
    refine ⟨new,by simp [hgranted],fun _ => hbatch.trans hb,
      .of_handed hI.queue hnew ?_ ?_ hneed⟩
    · intro id' node' hn'
      by_cases heq : id' = id
      · subst heq
        simp [hget] at hn'
      · simpa [hget,Function.update_of_ne heq] using hn'
    · intro id' hid
      rw [horder] at hid
      exact List.mem_of_mem_erase hid
  | enqueue _ _ _ _ _ hid _ hget | owe _ _ hid _ hget =>
    exact ⟨[],by simp,by simp,hsame hget (by simp [hid])⟩
  | refresh hlock hf hbusy hp hnode hneed horder hget =>
    exact ⟨[],by simp,by simp,hsame hget (by simp_all)⟩
  | claim hlock hf hbusy hp hnode hneed horder hget =>
    exact ⟨[],by simp,by simp,hsame hget (by simp)⟩
  | _ => exact ⟨[],by simp,by simp,hquiet⟩

theorem Shape.split (hs : Shape w acquires) (hq : QueueOk w acquires) :
    ∃ debts rest, w.order = debts++rest ∧
      (∀ id ∈ debts, ∃ node, w.get? id = some node ∧ node.waker = none ∧ node.owner = none) ∧
      (∀ id ∈ rest, Owned w id) ∧ ∀ id ∈ rest.tail, Full w acquires id := by
  obtain ⟨debts,rest,ho,hdebts,hrest,htail⟩ := pairwise_split hs (by
    rintro id ⟨node,f,a,hn,hf,-⟩
    exact ⟨node,f,hn,hf⟩)
  refine ⟨debts,rest,ho,?_,hrest,htail⟩
  intro id hid
  have hmem : id ∈ w.order := by simp [ho,hid]
  obtain ⟨node,hn⟩ := WaitList.get?_of_mem_order hmem
  have hown : node.owner = none := by
    cases hf : node.owner with
    | none => rfl
    | some f => exact absurd ⟨node,f,hn,hf⟩ (hdebts id hid)
  have hw := hq.waker_isSome hn hmem
  rw [hown] at hw
  exact ⟨node,hn,by simpa using hw,hown⟩

end Steps

/-- Waiters are served first in, first out. -/
structure FirstInFirstOut [Wake W] (s : State W) : Prop where
  /-- Debt is linked in front of the acquire nodes, of which only the first may be partly
  assigned. -/
  debts : ∃ debts rest, s.waiters.order = debts++rest ∧
    (∀ id ∈ debts, ∃ node, s.waiters.get? id = some node ∧ node.waker = none ∧
      node.owner = none) ∧
    (∀ id ∈ rest, Owned s.waiters id) ∧ ∀ id ∈ rest.tail, Full s.waiters s.acquires id
  line : (owners s.waiters).Sublist s.enqueued
  /-- The futures that entered and were not cancelled are those served so far followed by
  those still linked, in the order of entry. -/
  order : s.enqueued.filter (live s.acquires) =
    (s.granted.map Prod.fst).filter (live s.acquires)++owners s.waiters
  entered : s.enqueued.Nodup
  served : (s.granted.map Prod.fst).Nodup
  /-- A step serves the futures `new`: their needs and no others reach zero, their wakers
  form its batch, and it assigns nothing to a future before all debt is repaid. -/
  steps : ∀ c spurious s', advance s c spurious = some s' →
    ∃ new call', s'.granted = s.granted++new ∧ s'.calls[c]? = some call' ∧
      (new ≠ [] → call'.batch = new.map Prod.snd) ∧ Served s new s'.waiters

theorem fifo_assignment [Wake W] {s : State W} (h : (machine W).Reachable s) :
    FirstInFirstOut s := by
  obtain ⟨hI,hO⟩ := reachable_order h
  refine ⟨hO.shape.split hI.queue,?_,hO.fifo.order,hO.fifo.entered_nodup,hO.fifo.served_nodup,?_⟩
  · have hsub : (owners s.waiters).Sublist (s.enqueued.filter (live s.acquires)) := by
      rw [hO.fifo.order]
      exact List.sublist_append_right _ _
    exact hsub.trans List.filter_sublist
  · intro c spurious s' hs
    cases hc : s.calls[c]? with
    | none => simp [advance,hc] at hs
    | some call =>
      obtain ⟨call',heffect,-⟩ := advance_effect hI hc hs
      obtain ⟨new,hgranted,hbatch,hserved⟩ := heffect.served hI hO
      refine ⟨new,call',hgranted,?_,hbatch,hserved⟩
      rw [heffect.calls_eq]
      exact Table.getElem?_set_self' hc call'

/-- A reduction queues up in front of a waiting future, a second future behind it,
and one release repays the debt, serves the first future and half of the second. -/
def fifoRun : List (Action ℕ) :=
  [.acquire 2,.acquire 2,.call (.poll 0 7),.advance 0 false,.advance 0 false,.advance 0 false,
    .call (.poll 1 8),.advance 1 false,.advance 1 false,.advance 1 false,
    .call (.reducePermits 1),.advance 2 false,.advance 2 false,.advance 2 false,
    .call (.release 4),.advance 3 false]

theorem fifo_assignment_fifoRun :
    ∃ s s', (machine ℕ).exec (new ℕ 0) fifoRun = some s ∧ advance s 3 false = some s' ∧
      s.waiters.order = [2,0,1] ∧ s'.waiters.order = [1] ∧ s'.granted = [(0,7)] ∧
      (∃ new call', s'.granted = s.granted++new ∧ s'.calls[3]? = some call' ∧
        (new ≠ [] → call'.batch = new.map Prod.snd) ∧ Served s new s'.waiters) := by
  refine ⟨_,_,rfl,rfl,by decide,by decide,by decide,?_⟩
  have hreach : (machine ℕ).Reachable (((machine ℕ).exec (new ℕ 0) fifoRun).getD (new ℕ 0)) :=
    ⟨_,fifoRun,⟨0,by decide,rfl⟩,fun _ _ => trivial,rfl⟩
  exact (fifo_assignment hreach).steps 3 false _ rfl

end Semaphore
end Asyncband
