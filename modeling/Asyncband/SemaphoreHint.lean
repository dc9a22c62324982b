import Asyncband.SemaphoreOrder
import Asyncband.SemaphoreClient

/-! Semaphores whose permits are hints.
Every future asks for one permit and nobody reduces the count. Then a round of the
queue loop serves exactly one future, and a step moves a block from the front of the
queue, adds one future at its end, or takes one out. `Passed` lists these moves
together with the permits that the calls still have to hand on. -/
namespace Asyncband
namespace Semaphore

open Relation

variable {W : Type}
variable {w : WaitList (WaitNode W)} {f g : ℕ} {call' call : Call W} {s s' : State W} {own : Option ℕ}

def isGranted (s : State W) (f : ℕ) : Bool :=
  match (s.acquires[f]?).map Acquire.phase with
  | some (.queued id) => (s.waiters.get? id).any fun node => node.neededPermits == 0
  | _ => false

/-- The permits that a call has to hand on, once it gets to it. -/
def Call.toHand : Call W → ℕ
  | .started (.releaseIfWaiters n) => n
  | .panicked _ _ => 0
  | call => call.remaining

def Call.isAcquired : Call W → Bool
  | .finished .acquired => true
  | _ => false

def Call.Resting (call : Call W) : Prop := call.intent = .other ∧ ∀ op, call ≠ .started op

theorem mem_owners :
    f ∈ owners w ↔ ∃ id node, id ∈ w.order ∧ w.get? id = some node ∧ node.owner = some f := by
  simp only [owners,List.mem_filterMap,Option.bind_eq_some_iff]
  constructor
  · rintro ⟨id,hid,node,hn,ho⟩
    exact ⟨id,node,hid,hn,ho⟩
  · rintro ⟨id,node,hid,hn,ho⟩
    exact ⟨id,hid,node,hn,ho⟩

theorem owners_nil (h : w.order = []) : owners w = [] := by
  simp [owners,h]

theorem toHand_of_quiet (h : call'.quiet = true) : call'.toHand = call'.remaining := by
  cases call' with
  | started op => cases h
  | panicked message r => cases h
  | _ => rfl

theorem queued_set {a a' : Acquire W} (hf : s.acquires[f]? = some a)
    (hset : s'.acquires = s.acquires.set f a') (g : ℕ) :
    Queued s' g ↔ if g = f then ∃ id, a'.phase = .queued id else Queued s g := by
  unfold Queued
  rw [hset]
  by_cases hg : g = f
  · subst hg
    simp [Table.getElem?_set_self' hf]
  · simp [hg,List.getElem?_set_ne (Ne.symm hg)]

structure Hint [Wake W] (s : State W) : Prop where
  inv : Inv s
  order : Order s
  single : ∀ a ∈ s.acquires, a.requestedPermits = 1
  owned : ∀ id node, s.waiters.get? id = some node → node.owner.isSome = true
  plain : ∀ call ∈ s.calls, (∀ n, call.intent ≠ .reduce n) ∧ call.argument = 0

/-- The futures `given` leave the front of the queue, which is otherwise unchanged but
for `own`. -/
structure Shifted (s s' : State W) (own : Option ℕ) (given : List ℕ) : Prop where
  front : (owners s.waiters).filter (fun g => some g ≠ own) =
    given++(owners s'.waiters).filter (fun g => some g ≠ own)
  queued : ∀ g, some g ≠ own → (Queued s' g ↔ Queued s g)

/-- What a step of one call does to the queue. -/
inductive Passed (s s' : State W) (call call' : Call W) : Prop
  | clear (howners : owners s'.waiters = [])
  | hand (given : List ℕ) (hshift : Shifted s s' none given)
      (hhand : call'.toHand+given.length = call.toHand)
  | poll (f : ℕ) (hintent : call.intent = .poll f) (hshift : Shifted s s' (some f) [])
      (howners : owners s'.waiters = owners s.waiters ∨ owners s'.waiters = owners s.waiters++[f])
      (hcall : call' = .finished .acquired ∨ ¬Queued s f)
  | cancel (f : ℕ) (given : List ℕ) (hcall : call = .started (.drop f))
      (hshift : Shifted s s' (some f) given)
      (hhand : call'.toHand+given.length = if isGranted s f then 1 else 0)

theorem Shifted.of_owners {given : List ℕ} (howners : owners s.waiters = given++owners s'.waiters)
    (hqueued : ∀ g, Queued s' g ↔ Queued s g) : Shifted s s' none given where
  front := by simpa using howners
  queued g _ := hqueued g

theorem Shifted.of_own
    (howners : owners s'.waiters = owners s.waiters ∨ owners s'.waiters = owners s.waiters++[f])
    (hqueued : ∀ g, g ≠ f → (Queued s' g ↔ Queued s g)) : Shifted s s' (some f) [] where
  front := by rcases howners with h | h <;> simp [h]
  queued g hg := hqueued g fun heq => hg (by rw [heq])

theorem Shifted.mem {given : List ℕ} (h : Shifted s s' own given) (hg : g ∈ given) :
    g ∈ owners s.waiters ∧ some g ≠ own := by
  have hm : g ∈ (owners s.waiters).filter (fun g => some g ≠ own) := by
    rw [h.front]
    exact List.mem_append_left _ hg
  simpa using hm

theorem Shifted.mem_old {given : List ℕ} (h : Shifted s s' own given) (hg : some g ≠ own)
    (hm : g ∈ owners s'.waiters) : g ∈ owners s.waiters := by
  have hmem : g ∈ (owners s.waiters).filter (fun g => some g ≠ own) := by
    rw [h.front]
    simp [hm,hg]
  exact (List.mem_filter.mp hmem).1

theorem Call.intent_of_not_started (h : ∀ op, call ≠ .started op) :
    call.intent ≠ .releaseIfWaiters ∧ call.intent ≠ .notify := by
  cases call with
  | started op => exact absurd rfl (h op)
  | acquiredOrEnqueue requested available owner lock => cases owner <;> exact ⟨nofun,nofun⟩
  | _ => exact ⟨nofun,nofun⟩

theorem Passed.same (hwaiters : owners s'.waiters = owners s.waiters)
    (hqueued : ∀ g, Queued s' g ↔ Queued s g) (hhand : call'.toHand = call.toHand) :
    Passed s s' call call' :=
  .hand [] (.of_owners (by simp [hwaiters]) hqueued) (by simpa using hhand)

section Steps

variable [Wake W] {s s' : State W} {c : ℕ} {call call' : Call W}
variable {d : Distribution W} {acquires : List (Acquire W)} {n : ℕ} {spurious : Bool}

theorem queued_of_mem_owners (hq : QueueOk s.waiters s.acquires) (hf : f ∈ owners s.waiters) :
    Queued s f := by
  obtain ⟨id,node,-,hn,ho⟩ := mem_owners.mp hf
  obtain ⟨a,ha,hp,-⟩ := hq.owner_phase hn ho
  exact ⟨a,id,ha,hp⟩

theorem mem_owners_iff (hq : QueueOk s.waiters s.acquires) {a : Acquire W} {id : WaiterId}
    (ha : s.acquires[f]? = some a) (hp : a.phase = .queued id) :
    f ∈ owners s.waiters ↔ id ∈ s.waiters.order := by
  constructor
  · intro hf
    obtain ⟨id',node,hid,hn,ho⟩ := mem_owners.mp hf
    obtain ⟨b,hb,hpb,-⟩ := hq.owner_phase hn ho
    cases ha.symm.trans hb
    cases hp.symm.trans hpb
    exact hid
  · intro hid
    obtain ⟨node,hn,ho⟩ := hq.owned f a id ha hp
    exact mem_owners.mpr ⟨id,node,hid,hn,ho⟩

theorem isGranted_iff (hq : QueueOk s.waiters s.acquires) :
    isGranted s f = true ↔ Queued s f ∧ f ∉ owners s.waiters := by
  constructor
  · intro h
    unfold isGranted at h
    split at h
    · next id hid =>
      obtain ⟨a,ha,hp⟩ := Option.map_eq_some_iff.mp hid
      rw [Option.any_eq_true] at h
      obtain ⟨node,hn,hzero⟩ := h
      refine ⟨⟨a,id,ha,hp⟩,fun hf => ?_⟩
      have hneed := hq.linked_need hn ((mem_owners_iff hq ha hp).mp hf)
      simp at hzero
      omega
    · cases h
  · rintro ⟨⟨a,id,ha,hp⟩,hf⟩
    obtain ⟨node,hn,ho⟩ := hq.owned f a id ha hp
    have hid := mt (mem_owners_iff hq ha hp).mpr hf
    simp [isGranted,ha,hp,hn,hq.detached_need hn hid]

theorem Assign.singles {d' : Distribution W} (h : ReflTransGen Assign d d')
    (hq : QueueOk d.waiters acquires) (hsingle : ∀ a ∈ acquires, a.requestedPermits = 1)
    (howned : ∀ id node, d.waiters.get? id = some node → node.owner.isSome = true) :
    d'.remaining+d'.granted.length = d.remaining+d.granted.length := by
  induction h with
  | refl => rfl
  | @tail d₁ d₂ h hround ih =>
    have hone {id : WaiterId} {ids : List WaiterId} {node : WaitNode W}
        (ho : d₁.waiters.order = id::ids) (hn : d₁.waiters.get? id = some node) :
        node.neededPermits = 1 ∧ ∃ f waker, node.owner = some f ∧ node.waker = some waker := by
      have hq₁ := hq.assign h
      have hid : id ∈ d₁.waiters.order := by simp [ho]
      obtain ⟨f,hf⟩ := Option.isSome_iff_exists.mp (Assign.owned h howned id node hn)
      obtain ⟨a,ha,-,hle⟩ := hq₁.owner_phase hn hf
      have hpos := hq₁.linked_need hn hid
      have hwaker := hq₁.waker_isSome hn hid
      rw [hf,Option.isSome_some] at hwaker
      rw [hsingle a (List.mem_of_getElem? ha)] at hle
      exact ⟨by omega,f,(Option.isSome_iff_exists.mp hwaker).imp fun _ hw => ⟨hf,hw⟩⟩
    rw [← ih]
    cases hround with
    | grant ho hn hw hr =>
      obtain ⟨hneed,f,-,hf,-⟩ := hone ho hn
      simp only [hf,hneed,Option.toList_some,List.map_cons,List.map_nil,List.length_append,
        List.length_singleton] at *
      omega
    | repay ho hn hw hr =>
      obtain ⟨-,f,waker,-,hwaker⟩ := hone ho hn
      simp [hw] at hwaker
    | part ho hn hr =>
      have hneed := (hone ho hn).1
      simp only at *
      omega

theorem Assign.given {w : WaitList (WaitNode W)} (h : ReflTransGen Assign ⟨w,n,[],[]⟩ d)
    (hq : QueueOk w acquires) (hshape : Shape w acquires)
    (hsingle : ∀ a ∈ acquires, a.requestedPermits = 1)
    (howned : ∀ id node, w.get? id = some node → node.owner.isSome = true) :
    ∃ given, owners w = given++owners d.waiters ∧ d.remaining+given.length = n := by
  obtain ⟨-,new,hnew⟩ := rounds_handed (Assign.rounds hq h) hshape
  have hcount := Assign.singles h hq hsingle howned
  have hgranted : d.granted = new := by simpa using hnew.granted
  rw [hgranted] at hcount
  exact ⟨new.map Prod.fst,hnew.owners,by simpa using hcount⟩

theorem Effect.passed (h : Effect s c call call' s') (hH : Hint s) (hc : s.calls[c]? = some call)
    (hrelease : ∀ n, call ≠ .started (.releaseIfWaiters n))
    (hpanic : ∀ message r, call ≠ .panicked message r) : Passed s s' call call' := by
  have hplain := hH.plain call (List.mem_of_getElem? hc)
  have htoHand : call.toHand = call.remaining := by
    cases call with
    | started op => cases op <;> first | rfl | exact absurd rfl (hrelease _)
    | panicked message r => exact absurd rfl (hpanic message r)
    | _ => rfl
  have hzero (hr : call.remaining = 0) : 0 = call.toHand := by rw [htoHand,hr]
  cases h with
  | idle _ hr _ hq =>
    exact .same rfl (fun _ => Iff.rfl) (by rw [toHand_of_quiet hq,htoHand,hr])
  | @dropIdle f a phase hf hbusy hphase hr =>
    refine .same rfl (fun g => ?_) (hzero hr)
    rw [queued_set hf rfl]
    split
    · next hg =>
      subst hg
      rcases hphase with ⟨hp,rfl⟩ | ⟨hp,rfl⟩ <;> simp [Queued,hf,hp]
    · rfl
  | overflow _ _ _ hr | tryAcquire _ _ hr
  | drain _ _ hr | put _ _ hr => exact .same rfl (fun _ => Iff.rfl) (hzero hr)
  | surplusOverflow hlock hloaded hover =>
    have hok := hH.inv.calls c call hc
    cases call with
    | release | releaseExchange => exact .same rfl (fun _ => Iff.rfl) rfl
    | surplusExchange | surplusContended => exact .clear (owners_nil hok.2.2)
    | _ => cases hloaded
  | reduce _ _ hintent => exact absurd hintent (hplain.1 _)
  | owe _ _ _ _ _ hintent => exact absurd hintent (hplain.1 _)
  | surplus _ horder => exact .clear (owners_nil horder)
  | notifyAll _ _ _ hall => exact .clear (owners_nil hall)
  | @acquire f a lock' hn hf hbusy hphase hlock hintent =>
    refine .poll f hintent (.of_own (Or.inl rfl) fun g hg => ?_) (Or.inl rfl) (Or.inl rfl)
    rw [queued_set hf rfl,if_neg hg]
  | @enqueue f a w id waiters hn hf hbusy hphase hlock hid horder hget hintent =>
    have hold : ∀ id' ∈ s.waiters.order, id' ≠ id := by
      intro id' hmem heq
      obtain ⟨node,hnode⟩ := WaitList.get?_of_mem_order hmem
      rw [heq,hid] at hnode
      cases hnode
    have howners : owners waiters = owners s.waiters++[f] := by
      unfold owners
      rw [horder,List.filterMap_append,hget]
      congr 1
      · refine List.filterMap_congr fun id' hmem => ?_
        rw [Function.update_of_ne (hold id' hmem)]
      · simp
    refine .poll f hintent (.of_own (Or.inr howners) fun g hg => ?_) (Or.inr howners)
      (Or.inr (by simp [Queued,hf,hphase]))
    rw [queued_set hf rfl,if_neg hg]
  | distribute _ hrounds hr _ hargument hcalm =>
    obtain ⟨given,howners,hcount⟩ := Assign.given hrounds hH.inv.queue hH.order.shape hH.single
      hH.owned
    refine .hand given (.of_owners howners fun _ => Iff.rfl) ?_
    have hn := hargument.resolve_right (hrelease _)
    rw [hplain.2] at hn
    subst hn
    rw [toHand_of_quiet (Call.calm_spec hcalm).2.2.2,hr,htoHand]
    exact hcount
  | @cancel f a id node call' lock' waiters d hlock hf hbusy hp hnode horder hget hrounds hr _ _ _
      hcalm hcall =>
    obtain ⟨hq,hshape⟩ := hH.order.cancelled hH.inv hf hp horder hget
    have hone := hH.single a (List.mem_of_getElem? hf)
    obtain ⟨given,howners,hcount⟩ := Assign.given hrounds hq hshape (by
      intro b hb
      rcases List.mem_or_eq_of_mem_set hb with hb | rfl
      · exact hH.single b hb
      · exact hone) (by
      intro id' node' hn
      rw [hget] at hn
      by_cases hid : id' = id
      · simp [hid] at hn
      · exact hH.owned id' node' (by rwa [Function.update_of_ne hid] at hn))
    refine .cancel f given hcall ⟨?_,fun g hg => ?_⟩ ?_
    · have herase := owners_erase hH.inv.queue hf hp horder hget
      have hrest : (owners d.waiters).filter (fun g => some g ≠ some f) = owners d.waiters := by
        apply List.filter_eq_self.mpr
        intro g hm
        have hmem : g ∈ (owners s.waiters).filter (· ≠ f) := by
          rw [← herase,howners]
          exact List.mem_append_right _ hm
        simpa using (List.mem_filter.mp hmem).2
      rw [hrest,← howners,herase]
      simp
    · rw [queued_set hf rfl,if_neg (fun heq => hg (by rw [heq]))]
    · rw [toHand_of_quiet (Call.calm_spec hcalm).2.2.2,hr,hcount,hone]
      have hneed := hH.inv.queue.needed_le hf hp hnode
      rw [hone] at hneed
      have hgranted : isGranted s f = (node.neededPermits == 0) := by
        simp [isGranted,hf,hp,hnode]
      rw [hgranted]
      split
      · next h => simp only [beq_iff_eq] at h; omega
      · next h => simp only [beq_iff_eq] at h; omega
  | @refresh f a id node w waiters hlock hf hbusy hp hnode hneed horder hget hr =>
    refine .same ?_ (fun g => ?_) (hzero hr)
    · exact owners_congr horder hget fun _ => by simp [hnode]
    · rw [queued_set hf rfl]
      split
      · next hg =>
        subst hg
        simp [Queued,hf,hp]
      · rfl
  | @claim f a id node w waiters hlock hf hbusy hp hnode hneed horder hget hcall =>
    have hid : id ∉ s.waiters.order := by
      intro hl
      have hpos := hH.inv.queue.linked_need hnode hl
      omega
    have howners : owners waiters = owners s.waiters :=
      owners_congr horder hget fun hl => absurd hl hid
    refine .poll f (by rw [hcall]; rfl) (.of_own (Or.inl howners) fun g hg => ?_) (Or.inl howners)
      (Or.inl rfl)
    rw [queued_set hf rfl,if_neg hg]

theorem new_hint (W : Type) [Wake W] : Hint (new W 0) where
  inv := new_inv (Nat.zero_le _)
  order := new_order W 0
  single := by simp [new]
  owned := by simp [new,WaitList.get?_new]
  plain := by simp [new]

theorem Hint.nodup (hH : Hint s) : (owners s.waiters).Nodup := hH.order.fifo.waiting_nodup

theorem Effect.plain (h : Effect s c call call' s')
    (hp : (∀ n, call.intent ≠ .reduce n) ∧ call.argument = 0) :
    (∀ n, call'.intent ≠ .reduce n) ∧ call'.argument = 0 := by
  constructor
  · rcases h.intent with heq | heq
    · rw [heq]
      exact hp.1
    · simp [heq]
  · cases h with
    | idle _ _ hargument => rw [hargument,hp.2]
    | surplus _ _ _ _ _ hcalm | distribute _ _ _ _ _ hcalm
    | cancel _ _ _ _ _ _ _ _ _ _ _ _ hcalm => exact (Call.calm_spec hcalm).1
    | _ => rfl

theorem Effect.hint (h : Effect s c call call' s') (hH : Hint s) (hc : s.calls[c]? = some call)
    (hok : CallOk s' c call') : Hint s' := by
  have hplain := hH.plain call (List.mem_of_getElem? hc)
  refine ⟨h.inv hH.inv hok,h.order hH.inv hH.order,?_,h.ownedNodes hplain.1 hH.owned,?_⟩
  · intro b hb
    rcases h.acquires with heq | ⟨f,a,a',ha,heq,hr,-⟩
    · exact hH.single b (heq ▸ hb)
    · rw [heq] at hb
      rcases List.mem_or_eq_of_mem_set hb with hb | rfl
      · exact hH.single b hb
      · exact hr.trans (hH.single a (List.mem_of_getElem? ha))
  · intro other hother
    rw [h.calls_eq] at hother
    rcases List.mem_or_eq_of_mem_set hother with hother | rfl
    · exact hH.plain other hother
    · exact h.plain hplain

theorem releaseIfWaiters_passed (hH : Hint s)
    (hc : s.calls[c]? = some (.started (.releaseIfWaiters n))) (h : advance s c spurious = some s')
    (heffect : Effect s c (.started (.releaseIfWaiters n)) call' s') :
    Passed s s' (.started (.releaseIfWaiters n)) call' := by
  simp only [Semaphore.advance,hc,begin] at h
  split at h
  · cases h
  · split at h
    · next hempty =>
      cases h
      exact .clear (owners_nil (WaitList.isEmpty_iff.mp hempty))
    · cases h
      obtain ⟨d,call₁,lock',hrounds,hcall,heq⟩ := distribute_cases
        {s with ledger := {s.ledger with released := s.ledger.released+n}} c n
      obtain ⟨given,howners,hcount⟩ := Assign.given hrounds hH.inv.queue hH.order.shape hH.single
        hH.owned
      have hsame : call' = call₁ := by
        have hget := Table.getElem?_set_self' hc call'
        rw [← heffect.calls_eq,heq,Table.getElem?_set_self' hc] at hget
        exact (Option.some.inj hget).symm
      subst hsame
      rw [heq]
      refine .hand given (.of_owners howners fun _ => Iff.rfl) ?_
      rcases hcall with ⟨rfl,-⟩ | ⟨rfl,-,-⟩ <;> exact hcount

theorem Hint.advance (hH : Hint s) (h : advance s c spurious = some s') :
    ∃ call call', s.calls[c]? = some call ∧ Effect s c call call' s' ∧ Hint s' ∧
      Passed s s' call call' ∧ (call = .started .notifyAll → owners s'.waiters = []) := by
  cases hc : s.calls[c]? with
  | none => simp [Semaphore.advance,hc] at h
  | some call =>
    obtain ⟨call',heffect,hok⟩ := advance_effect hH.inv hc h
    refine ⟨call,call',rfl,heffect,heffect.hint hH hc hok,?_,?_⟩
    · by_cases hrelease : ∃ n, call = .started (.releaseIfWaiters n)
      · obtain ⟨n,rfl⟩ := hrelease
        exact releaseIfWaiters_passed hH hc h heffect
      · apply heffect.passed hH hc (fun n hn => hrelease ⟨n,hn⟩)
        rintro message r rfl
        simp [Semaphore.advance,hc] at h
    · rintro rfl
      simp only [Semaphore.advance,hc,begin] at h
      split at h
      · cases h
      · cases h
        obtain ⟨d,hd,-,hall⟩ := notifyWaiters_rounds s.waiters.order.length
          ⟨s.waiters,0,[],[]⟩ le_rfl
        simp only [notifyAll,hd]
        exact owners_nil hall

namespace Shifted

variable {own : Option ℕ} {given : List ℕ}

section

variable (h : Shifted s s' own given) (hH : Hint s)
include h hH

theorem nodup : (given++(owners s'.waiters).filter (fun g => some g ≠ own)).Nodup := by
  rw [← h.front]
  exact hH.nodup.filter _

theorem isGranted_iff (hH' : Hint s') {g : ℕ} (hg : some g ≠ own) :
    isGranted s' g = true ↔ isGranted s g = true ∨ g ∈ given := by
  have hmem : g ∈ owners s.waiters ↔ g ∈ given ∨ g ∈ owners s'.waiters := by
    have hm : g ∈ (owners s.waiters).filter (fun g => some g ≠ own) ↔
        g ∈ given++(owners s'.waiters).filter (fun g => some g ≠ own) := by
      rw [h.front]
    simpa [hg] using hm
  have hdisjoint : g ∈ given → g ∉ owners s'.waiters := by
    intro hgiven hm
    exact List.disjoint_of_nodup_append (h.nodup hH) hgiven (by simp [hm,hg])
  have hqueued := queued_of_mem_owners (f:=g) hH.inv.queue
  rw [Semaphore.isGranted_iff hH.inv.queue,Semaphore.isGranted_iff hH'.inv.queue,h.queued g hg]
  tauto

theorem split {f : ℕ} (hf : some f ≠ own) {front back : List ℕ}
    (hqueue : owners s.waiters = front++f::back) (hwaiting : f ∈ owners s'.waiters) :
    ∃ front' back', owners s'.waiters = front'++f::back' ∧
      ∀ g, some g ≠ own →
        (if g ∈ front' then 1 else 0)+(if g ∈ given then 1 else 0) ≤ if g ∈ front then 1 else 0 := by
  obtain ⟨front',back',hqueue'⟩ := List.append_of_mem hwaiting
  refine ⟨front',back',hqueue',fun g hg => ?_⟩
  have hnd := h.nodup hH
  have howners := h.front
  rw [← howners] at hnd
  rw [hqueue,hqueue'] at howners
  rw [hqueue] at hnd
  simp only [List.filter_append,List.filter_cons,hf,ne_eq,not_false_eq_true,decide_true,if_true]
    at hnd howners
  rw [← List.append_assoc] at howners
  have hfront : f ∉ front.filter (fun g => some g ≠ own) := fun hm =>
    List.disjoint_of_nodup_append hnd hm (by simp)
  have hback : f ∉ back.filter (fun g => some g ≠ own) :=
    (List.nodup_cons.mp (List.nodup_append.mp hnd).2.1).1
  have hsplit := ((List.append_cons_inj_of_notMem hfront hback).mp howners).1
  have hmem : g ∈ front ↔ g ∈ given ∨ g ∈ front' := by
    have hm : g ∈ front.filter (fun g => some g ≠ own) ↔
        g ∈ given++front'.filter (fun g => some g ≠ own) := by
      rw [hsplit]
    simpa [hg] using hm
  have hdisjoint : g ∈ given → g ∉ front' := by
    intro hgiven hm
    have hnd' := (List.nodup_append.mp hnd).1
    rw [hsplit] at hnd'
    exact List.disjoint_of_nodup_append hnd' hgiven (by simp [hm,hg])
  by_cases hgiven : g ∈ given
  · simp [hgiven,hmem,hdisjoint hgiven]
  · simp [hgiven,hmem]

end

end Shifted

/-- A step of a user that leaves the queue and the registered futures alone. -/
structure Untouched (s s' : State W) : Prop where
  waiters : s'.waiters = s.waiters
  queued : ∀ f, Queued s' f ↔ Queued s f
  settled : ∀ f, Settled s f → Settled s' f

theorem Untouched.isGranted (h : Untouched s s') (hH : Hint s) (hH' : Hint s') (f : ℕ) :
    isGranted s' f = isGranted s f := by
  rw [Bool.eq_iff_iff,isGranted_iff hH.inv.queue,isGranted_iff hH'.inv.queue,h.waiters,h.queued]

theorem Hint.create (hH : Hint s) (h : next s (.acquire 1) = some s') :
    Hint s' ∧ Untouched s s' ∧ s'.calls = s.calls ∧
      s'.acquires.length = s.acquires.length+1 := by
  have hI' := next_inv hH.inv h
  have hO' := next_order hH.inv hH.order h
  simp only [next] at h
  split at h
  · cases h
    refine ⟨⟨hI',hO',?_,hH.owned,hH.plain⟩,⟨rfl,?_,?_⟩,rfl,by simp⟩
    · intro a ha
      rcases List.mem_append.mp ha with ha | ha
      · exact hH.single a ha
      · rw [List.mem_singleton.mp ha]
    · intro f
      constructor
      · rintro ⟨a,id,ha,hp⟩
        rcases Table.getElem?_push ha with ha | ⟨-,rfl⟩
        · exact ⟨a,id,ha,hp⟩
        · cases hp
      · rintro ⟨a,id,ha,hp⟩
        exact ⟨a,id,Table.getElem?_push_old ha _,hp⟩
    · rintro f ⟨a,ha,hp⟩
      exact ⟨a,Table.getElem?_push_old ha _,hp⟩
  · cases h

theorem Hint.make (hH : Hint s) {op : Op W} (h : next s (.call op) = some s')
    (hop : (∀ n, (Call.started op).intent ≠ .reduce n) ∧ (Call.started op).argument = 0) :
    Hint s' ∧ Untouched s s' ∧ s'.calls = s.calls++[.started op] ∧
      s'.acquires.length = s.acquires.length := by
  have hI' := next_inv hH.inv h
  have hO' := next_order hH.inv hH.order h
  simp only [next] at h
  split at h
  · cases h
    have hsame := borrow_acquires s s.calls.length op
    have hphase (f : ℕ) (P : Phase → Prop) :
        (∃ a, (borrow s s.calls.length op).acquires[f]? = some a ∧ P a.phase) ↔
          ∃ a, s.acquires[f]? = some a ∧ P a.phase := by
      have hf := hsame f
      cases hb : (borrow s s.calls.length op).acquires[f]? <;> cases hs : s.acquires[f]? <;>
        simp_all
    have hrest : (borrow s s.calls.length op).waiters = s.waiters ∧
        (borrow s s.calls.length op).calls = s.calls ∧
        (borrow s s.calls.length op).acquires.length = s.acquires.length := by
      cases op <;> simp [borrow]
    refine ⟨⟨hI',hO',?_,by rw [hrest.1]; exact hH.owned,?_⟩,⟨hrest.1,?_,?_⟩,by rw [hrest.2.1],
      hrest.2.2⟩
    · intro a ha
      obtain ⟨f,hf⟩ := List.mem_iff_getElem?.mp ha
      have hmap := hsame f
      rw [hf] at hmap
      obtain ⟨b,hb,heq⟩ := Option.map_eq_some_iff.mp hmap.symm
      rw [← hH.single b (List.mem_of_getElem? hb)]
      exact (Prod.mk.inj heq).1.symm
    · intro call hcall
      rw [hrest.2.1] at hcall
      rcases List.mem_append.mp hcall with hcall | hcall
      · exact hH.plain call hcall
      · rw [List.mem_singleton.mp hcall]
        exact hop
    · intro f
      have hf := hphase f fun phase => ∃ id, phase = .queued id
      simp only [Queued]
      constructor
      · rintro ⟨a,id,ha,hp⟩
        obtain ⟨b,hb,id',hid⟩ := hf.mp ⟨a,ha,id,hp⟩
        exact ⟨b,id',hb,hid⟩
      · rintro ⟨a,id,ha,hp⟩
        obtain ⟨b,hb,id',hid⟩ := hf.mpr ⟨a,ha,id,hp⟩
        exact ⟨b,id',hb,hid⟩
    · exact fun f => (hphase f fun phase => phase = .ready ∨ phase = .dropped).mpr
  · cases h

/-- After its first step a call has no intent left, unless it is still polling. -/
theorem Effect.resting (h : Effect s c call call' s') :
    call'.Resting ∨ call'.intent = call.intent ∧ ∀ op, call' ≠ .started op := by
  have hstarted : ∀ op, call' ≠ .started op := by
    rintro op rfl
    cases h with
    | idle _ _ _ hq => cases hq
    | surplus _ _ _ _ _ hcalm => cases hcalm
    | distribute _ _ _ _ _ hcalm => cases hcalm
    | cancel _ _ _ _ _ _ _ _ _ _ _ _ hcalm => cases hcalm
  rcases h.intent with heq | heq
  · exact Or.inr ⟨heq,hstarted⟩
  · exact Or.inl ⟨heq,hstarted⟩

end Steps

end Semaphore
end Asyncband
