import Asyncband.SemaphoreSolo

/-! Releases whose permits do not fit into the count.
A release that panics on overflow has changed nothing, unless it panics after it has served
a full batch of waiters and let go of the lock: then what the batch got stays with it. -/
namespace Asyncband
namespace Semaphore

open Relation
open WakerBatch (stackSize)

variable {W : Type}

def Action.moves (c : ℕ) : Action W → Bool
  | .advance d _ => d == c
  | _ => false

def Action.op? : Action W → Option (Op W)
  | .call op => some op
  | _ => none

/-- The permits of a release. A permit is dropped by a release of what it holds. -/
def Op.releases : Op W → Option ℕ
  | .release n | .releaseWithLock n => some n
  | _ => none

namespace Call

def wakes : Call W → Bool
  | .wakeAll (_::_) _ => true
  | _ => false

/-- The call has served a batch and comes back for the lock. -/
def relocking : Call W → Bool
  | .relock _ => true
  | _ => false

/-- What the call has left does not fit into the count that it has loaded. -/
def overflows : Call W → Bool
  | .surplusExchange r available _ => decide (usizeMax < available+r)
  | _ => false

end Call

def Releases (run : List (Action W)) (c n : ℕ) : Prop :=
  (run.filterMap Action.op?)[c]?.bind Op.releases = some n

/-- The permits that a step gave to waiters or added to the available count. -/
def moved (p : State W × State W) : ℕ :=
  p.1.need+p.2.available-(p.1.available+p.2.need)

def handed (P : List (State W × State W)) : ℕ := Table.total moved P

/-- By a step of call `c` no waiter got anything, was detached or woken, and the count is
the same. -/
structure Unchanged (c : ℕ) (s s' : State W) : Prop where
  available : s'.available = s.available
  waiters : s'.waiters = s.waiters
  acquires : s'.acquires = s.acquires
  granted : s'.granted = s.granted
  woken : ∀ call, s.calls[c]? = some call → call.wakes = false

/-- Waiters are served from the head of the queue, and the count grows only when there
are none. -/
def Ordered (s s' : State W) : Prop :=
  ∃ n d, ReflTransGen Assign ⟨s.waiters,n,[],[]⟩ d ∧ s'.waiters = d.waiters ∧
    (s'.available = s.available ∨ s.waiters.order = [] ∧ s'.waiters = s.waiters)

/-- None of the steps of call `c` changed anything. -/
def Still (c : ℕ) (P : List (State W × State W)) : Prop := ∀ p ∈ P, Unchanged c p.1 p.2

def Relocked (c : ℕ) (P : List (State W × State W)) : Prop :=
  ∃ p ∈ P, ∃ call, p.2.calls[c]? = some call ∧ call.relocking = true

/-- Whenever call `c` has come back for the lock before, what it has left fits into the
count it adds to. -/
def Roomy (c : ℕ) (P : List (State W × State W)) : Prop :=
  ∀ before p after, P = before++p::after → Relocked c before →
    ∀ call, p.1.calls[c]? = some call → call.overflows = false

/-- A release that panicked changed nothing, and one that returned brought all its
permits. -/
structure AllOrNothing (c n : ℕ) (P : List (State W × State W)) (s : State W) : Prop where
  panicked : ∀ message r, s.calls[c]? = some (.panicked message r) → Still c P
  returned : ∀ outcome, s.calls[c]? = some (.finished outcome) →
    handed P = n ∧ ∀ p ∈ P, Ordered p.1 p.2

theorem releases_snoc {run : List (Action W)} {a : Action W} {c n : ℕ} (hnone : a.op? = none) :
    Releases (run++[a]) c n ↔ Releases run c n := by
  rw [Releases,Releases,List.filterMap_append,List.filterMap_cons_none hnone,List.filterMap_nil,
    List.append_nil]

section Steps

variable {P : List (State W × State W)} {p : State W × State W} {c : ℕ}

theorem Still.snoc (h : Still c P) (hp : Unchanged c p.1 p.2) : Still c (P++[p]) := by
  intro q hq
  rcases List.mem_append.mp hq with hq | hq
  · exact h q hq
  · rw [List.mem_singleton.mp hq]
    exact hp

theorem Unchanged.moved {s s' : State W} (h : Unchanged c s s') : moved (s,s') = 0 := by
  simp [Semaphore.moved,State.need,h.available,h.waiters,Nat.add_comm]

theorem Still.handed (h : Still c P) : handed P = 0 :=
  Table.total_eq_zero.mpr fun _ p hp => (h p (List.mem_of_getElem? hp)).moved

theorem handed_snoc (P : List (State W × State W)) (p : State W × State W) :
    handed (P++[p]) = handed P+moved p := by
  simp [handed]

theorem Relocked.snoc (h : Relocked c P) (p : State W × State W) : Relocked c (P++[p]) := by
  obtain ⟨q,hq,hr⟩ := h
  exact ⟨q,List.mem_append_left _ hq,hr⟩

theorem Relocked.of_snoc (h : Relocked c (P++[p]))
    (hp : ∀ call, p.2.calls[c]? = some call → call.relocking = false) : Relocked c P := by
  obtain ⟨q,hq,call,hcall,hr⟩ := h
  rcases List.mem_append.mp hq with hq | hq
  · exact ⟨q,hq,call,hcall,hr⟩
  · rw [List.mem_singleton.mp hq] at hcall
    rw [hp call hcall] at hr
    cases hr

theorem Roomy.snoc (h : Roomy c P) (hp : Relocked c P →
    ∀ call, p.1.calls[c]? = some call → call.overflows = false) : Roomy c (P++[p]) := by
  intro before q after hsplit hrelocked
  rcases List.eq_nil_or_concat after with rfl | ⟨after,q',rfl⟩
  · obtain ⟨rfl,hq⟩ := List.append_inj' hsplit rfl
    cases hq
    exact hp hrelocked
  · have hsplit' : P++[p] = (before++q::after)++[q'] := by
      rw [hsplit]
      simp
    obtain ⟨rfl,-⟩ := List.append_inj' hsplit' rfl
    exact h before q after rfl hrelocked

theorem roomy_nil (c : ℕ) : Roomy (W := W) c [] := by
  intro before p after hsplit
  simp at hsplit

theorem not_roomy_relocked (h : ¬Roomy c P) : Relocked c P := by
  by_contra hnot
  refine h fun before p after hsplit hrelocked => absurd ?_ hnot
  obtain ⟨q,hq,hr⟩ := hrelocked
  exact ⟨q,hsplit ▸ List.mem_append_left _ hq,hr⟩

end Steps

/-- How a release of `n` permits stands after its steps `P`. -/
def Standing (c n : ℕ) (P : List (State W × State W)) (s : State W) : Call W → Prop
  | .started op => op.releases = some n ∧ P = []
  | .release _ _ | .releaseExchange _ _ | .releaseLock _ => Still c P ∧ ¬Relocked c P
  | .surplusLoad _ _ | .surplusAdd _ _ => Relocked c P ∨ Still c P ∨ s.available = 0
  | .surplusExchange _ _ _ | .surplusContended _ _ _ => Relocked c P ∨ Still c P
  | .wakeAll _ r => r = 0 ∨ stackSize ≤ handed P
  | .relock _ => Relocked c P
  | .panicked _ _ => Still c P ∨ ¬Roomy c P
  | .surplusSettled _ | .finished _ => True
  | _ => False

structure Account (c n : ℕ) (P : List (State W × State W)) (s : State W) (call : Call W) :
    Prop where
  standing : Standing c n P s call
  total : handed P+call.inFlight = n
  relocked : Relocked c P → stackSize ≤ handed P
  rough : ¬Roomy c P → ∃ message r, call = .panicked message r
  ordered : ∀ p ∈ P, Ordered p.1 p.2

section Account

variable {P : List (State W × State W)} {s s' : State W} {c n : ℕ} {call call' : Call W}

theorem Account.roomy (h : Account c n P s call) (hrunning : call.ended = false) : Roomy c P := by
  by_contra hnot
  obtain ⟨message,r,rfl⟩ := h.rough hnot
  cases hrunning

theorem Account.step (h : Account c n P s call) (hc : s.calls[c]? = some call)
    (hc' : s'.calls[c]? = some call') (hrunning : call.ended = false)
    (hstanding : Standing c n (P++[(s,s')]) s' call')
    (hmoved : s.need+s'.available+call'.inFlight = s.available+s'.need+call.inFlight)
    (hmore : call'.inFlight ≤ call.inFlight)
    (hrelock : call'.relocking = false ∨ stackSize ≤ handed P)
    (hover : call.overflows = false ∨ ∃ message r, call' = .panicked message r)
    (hordered : Ordered s s') : Account c n (P++[(s,s')]) s' call' where
  standing := hstanding
  total := by
    have htotal := h.total
    rw [handed_snoc,moved]
    simp only
    omega
  relocked hrelocked := by
    rw [handed_snoc]
    have hbefore : stackSize ≤ handed P := by
      rcases hrelock with hnot | hfull
      · refine h.relocked (hrelocked.of_snoc fun call hcall => ?_)
        cases hc'.symm.trans hcall
        exact hnot
      · exact hfull
    exact hbefore.trans (Nat.le_add_right _ _)
  rough hrough := by
    rcases hover with hfits | hpanicked
    · refine absurd ((h.roomy hrunning).snoc fun _ call hcall => ?_) hrough
      cases hc.symm.trans hcall
      exact hfits
    · exact hpanicked
  ordered p hp := by
    rcases List.mem_append.mp hp with hp | hp
    · exact h.ordered p hp
    · rw [List.mem_singleton.mp hp]
      exact hordered

theorem Ordered.same (hwaiters : s'.waiters = s.waiters)
    (havailable : s'.available = s.available ∨ s.waiters.order = []) : Ordered s s' :=
  ⟨0,_,ReflTransGen.refl,hwaiters,havailable.imp_right fun horder => ⟨horder,hwaiters⟩⟩

theorem Account.idle (h : Account c n P s call) (hc : s.calls[c]? = some call)
    (hc' : s'.calls[c]? = some call') (hrunning : call.ended = false)
    (hwaiters : s'.waiters = s.waiters) (havailable : s'.available = s.available)
    (hstanding : Standing c n (P++[(s,s')]) s' call')
    (hflight : call'.inFlight = call.inFlight)
    (hrelock : call'.relocking = false ∨ stackSize ≤ handed P)
    (hover : call.overflows = false ∨ ∃ message r, call' = .panicked message r) :
    Account c n (P++[(s,s')]) s' call' := by
  refine h.step hc hc' hrunning hstanding ?_ hflight.le hrelock hover
    (.same hwaiters (Or.inl havailable))
  rw [State.need,State.need,hwaiters,havailable,hflight]
  omega

theorem Still.step (h : Still c P) (hc : s.calls[c]? = some call) (hwakes : call.wakes = false)
    (hwaiters : s'.waiters = s.waiters) (havailable : s'.available = s.available)
    (hacquires : s'.acquires = s.acquires) (hgranted : s'.granted = s.granted) :
    Still c (P++[(s,s')]) := by
  refine h.snoc ⟨havailable,hwaiters,hacquires,hgranted,fun call hcall => ?_⟩
  cases hc.symm.trans hcall
  exact hwakes

theorem not_relocked_step (h : ¬Relocked c P) (hc' : s'.calls[c]? = some call')
    (hrelock : call'.relocking = false) : ¬Relocked c (P++[(s,s')]) := by
  intro hrelocked
  refine h (hrelocked.of_snoc fun call hcall => ?_)
  cases hc'.symm.trans hcall
  exact hrelock

/-- While the release has the lock, no other call raises the count from zero. -/
theorem Account.frame (h : Account c n P s call) (hok : CallOk s c call)
    (hzero : s.lock = some c → s.available = 0 → s'.available = 0) : Account c n P s' call := by
  refine ⟨?_,h.total,h.relocked,h.rough,h.ordered⟩
  have hstanding := h.standing
  cases call with
  | surplusLoad | surplusAdd =>
    obtain ⟨-,hlock,-⟩ := hok
    exact hstanding.imp_right (Or.imp_right (hzero hlock))
  | _ => exact hstanding

/-- A release keeps its promise exactly when it finds room whenever it comes back. -/
theorem Account.allOrNothing_iff (h : Account c n P s call) (hc : s.calls[c]? = some call) :
    AllOrNothing c n P s ↔ Roomy c P := by
  constructor
  · intro hall
    by_contra hrough
    obtain ⟨message,r,rfl⟩ := h.rough hrough
    have hfull := h.relocked (not_roomy_relocked hrough)
    have hzero := (hall.panicked message r hc).handed
    simp only [stackSize] at hfull
    omega
  · refine fun hroomy => ⟨fun message r hend => ?_,fun outcome hend => ?_⟩
    · cases hc.symm.trans hend
      exact h.standing.resolve_right (not_not.mpr hroomy)
    · cases hc.symm.trans hend
      exact ⟨h.total,h.ordered⟩

/-- A release of no more permits than a batch has places never comes back for the lock. -/
theorem Account.roomy_of_small (h : Account c n P s call) (hn : n < stackSize) : Roomy c P := by
  by_contra hrough
  have hfull := h.relocked (not_roomy_relocked hrough)
  have htotal := h.total
  omega

variable [Wake W]

/-- A round under the lock. When nobody waits it changes nothing; when somebody waits the
count is zero, so that the surplus of this round cannot overflow it. -/
theorem Account.distribute (h : Account c n P s call) (hI : Inv s) (hc : s.calls[c]? = some call)
    (hrunning : call.ended = false) (hfits : call.overflows = false) (hwakes : call.wakes = false)
    (hkind : Relocked c P ∨ Still c P) (ledger : Ledger) :
    ∃ call', (distribute {s with ledger := ledger} c call.inFlight).calls[c]? = some call' ∧
      Account c n (P++[(s,distribute {s with ledger := ledger} c call.inFlight)])
        (distribute {s with ledger := ledger} c call.inFlight) call' := by
  obtain ⟨d,hd,hrounds,hexit⟩ := assignPermits_rounds s.waiters.order.length
    ⟨s.waiters,call.inFlight,[],[]⟩ le_rfl
  have htotal := Assign.total_rounds hrounds
  have hneed : s.waiters.total WaitNode.neededPermits = s.need := rfl
  simp only [hneed] at htotal
  have hbatch : d.batch.length+d.remaining ≤ 0+call.inFlight := Assign.batch_le hrounds hI.queue
  have hordered {t : State W} (hwaiters : t.waiters = d.waiters)
      (havailable : t.available = s.available) : Ordered s t :=
    ⟨call.inFlight,d,hrounds,hwaiters,Or.inl havailable⟩
  by_cases hsurplus : 0 < d.remaining ∧ d.waiters.isEmpty
  · have heq : Semaphore.distribute {s with ledger := ledger} c call.inFlight = {s with
        ledger := ledger,waiters := d.waiters,granted := s.granted++d.granted,lock := some c
        calls := s.calls.set c (.surplusLoad d.remaining d.batch)} := by
      simp [Semaphore.distribute,hd,hsurplus,State.setCall]
    rw [heq]
    have hc' := Table.getElem?_set_self' hc (.surplusLoad d.remaining d.batch)
    refine ⟨.surplusLoad d.remaining d.batch,hc',h.step hc hc' hrunning ?_ ?_ ?_ (Or.inl rfl)
      (Or.inl hfits) (hordered rfl rfl)⟩
    · rcases hkind with hrelocked | hstill
      · exact Or.inl (hrelocked.snoc _)
      · by_cases hvacant : s.waiters.order = []
        · rw [hvacant,List.length_nil,assignPermits] at hd
          cases hd
          exact Or.inr (Or.inl (hstill.step hc hwakes rfl rfl rfl (List.append_nil _)))
        · exact Or.inr (Or.inr (by_contra fun hne => hvacant (hI.coupled hne)))
    · show s.need+s.available+(d.remaining+0) =
        s.available+d.waiters.total WaitNode.neededPermits+call.inFlight
      omega
    · show d.remaining+0 ≤ call.inFlight
      omega
  · have heq : Semaphore.distribute {s with ledger := ledger} c call.inFlight = {s with
        ledger := ledger,waiters := d.waiters,granted := s.granted++d.granted,lock := none
        calls := s.calls.set c (.wakeAll d.batch d.remaining)} := by
      simp only [Semaphore.distribute,hd,if_neg hsurplus,State.setCall]
    rw [heq]
    have hc' := Table.getElem?_set_self' hc (.wakeAll d.batch d.remaining)
    refine ⟨.wakeAll d.batch d.remaining,hc',h.step hc hc' hrunning ?_ ?_ ?_ (Or.inl rfl)
      (Or.inl hfits) (hordered rfl rfl)⟩
    · rcases hexit with hzero | hfull | hvacant
      · exact Or.inl hzero
      · refine Or.inr ?_
        rw [handed_snoc,moved]
        show stackSize ≤ handed P+(s.need+s.available-
          (s.available+d.waiters.total WaitNode.neededPermits))
        omega
      · have hempty : d.waiters.isEmpty = true := WaitList.isEmpty_iff.mpr hvacant
        exact Or.inl (by
          by_contra hne
          exact hsurplus ⟨Nat.pos_of_ne_zero hne,hempty⟩)
    · show s.need+s.available+(d.remaining+0) =
        s.available+d.waiters.total WaitNode.neededPermits+call.inFlight
      omega
    · show d.remaining+0 ≤ call.inFlight
      omega

theorem Account.begin {op : Op W} (h : Account c n P s (.started op))
    (hc : s.calls[c]? = some (.started op)) (hn : begin s c op = some s') :
    ∃ call', s'.calls[c]? = some call' ∧ Account c n (P++[(s,s')]) s' call' := by
  obtain ⟨hop,rfl⟩ : op.releases = some n ∧ P = [] := h.standing
  have htotal : 0+(Call.started op : Call W).inFlight = n := h.total
  have hstart {call' : Call W} (hs' : s' = s.setCall c call') (hflight : call'.inFlight = n)
      (hrelock : call'.relocking = false)
      (hstanding : Still c ([]++[(s,s')]) ∧ ¬Relocked c ([]++[(s,s')]) →
        Standing c n ([]++[(s,s')]) s' call') :
      ∃ call', s'.calls[c]? = some call' ∧ Account c n ([]++[(s,s')]) s' call' := by
    subst hs'
    have hc' := getElem?_setCall hc call'
    have hstill : Still c ([] : List (State W × State W)) := fun p hp => absurd hp List.not_mem_nil
    have hfirst : ¬Relocked c ([] : List (State W × State W)) := by
      rintro ⟨p,hp,-⟩
      exact List.not_mem_nil hp
    refine ⟨call',hc',h.idle hc hc' rfl rfl rfl (hstanding ⟨?_,?_⟩) (by omega) (Or.inl hrelock)
      (Or.inl rfl)⟩
    · exact hstill.step hc rfl rfl rfl rfl rfl
    · exact not_relocked_step hfirst hc' hrelock
  cases op with
  | release m =>
    cases hop
    simp only [Semaphore.begin] at hn
    split at hn
    · next hzero =>
      cases hn
      exact hstart rfl hzero.symm rfl fun _ => trivial
    · split at hn <;> cases hn
      · exact hstart rfl (Nat.zero_add _) rfl fun hfresh => hfresh
      · exact hstart rfl (Nat.zero_add _) rfl fun hfresh => hfresh
  | releaseWithLock m =>
    cases hop
    simp only [Semaphore.begin] at hn
    split at hn <;> cases hn
    · next hzero => exact hstart rfl hzero.symm rfl fun _ => trivial
    · exact hstart rfl (Nat.zero_add _) rfl fun hfresh => hfresh
  | _ => cases hop

theorem Account.advance (h : Account c n P s call) (hI : Inv s) (hc : s.calls[c]? = some call)
    {spurious : Bool} (hn : Semaphore.advance s c spurious = some s') :
    ∃ call', s'.calls[c]? = some call' ∧ Account c n (P++[(s,s')]) s' call' := by
  have hok := hI.calls c call hc
  have hstanding := h.standing
  have hmoved {call' : Call W} (hcalls : s'.calls = s.calls.set c call') :
      s'.calls[c]? = some call' := by
    rw [hcalls]
    exact Table.getElem?_set_self' hc call'
  -- the call moves on and changes at most the lock and the flag
  have hidle {call' : Call W} (hcalls : s'.calls = s.calls.set c call')
      (hrunning : call.ended = false) (hwaiters : s'.waiters = s.waiters)
      (havailable : s'.available = s.available)
      (hstanding : Standing c n (P++[(s,s')]) s' call')
      (hflight : call'.inFlight = call.inFlight)
      (hrelock : call'.relocking = false ∨ stackSize ≤ handed P)
      (hover : call.overflows = false ∨ ∃ message r, call' = .panicked message r) :
      ∃ call', s'.calls[c]? = some call' ∧ Account c n (P++[(s,s')]) s' call' :=
    ⟨call',hmoved hcalls,h.idle hc (hmoved hcalls) hrunning hwaiters havailable hstanding hflight
      hrelock hover⟩
  -- a release that has not been in the queue yet stays outside of it
  have houtside {call' : Call W} (hcalls : s'.calls = s.calls.set c call')
      (hfresh : Still c P ∧ ¬Relocked c P) (hwakes : call.wakes = false)
      (hrelock : call'.relocking = false) (hwaiters : s'.waiters = s.waiters)
      (havailable : s'.available = s.available) (hacquires : s'.acquires = s.acquires)
      (hgranted : s'.granted = s.granted) :
      Still c (P++[(s,s')]) ∧ ¬Relocked c (P++[(s,s')]) :=
    ⟨hfresh.1.step hc hwakes hwaiters havailable hacquires hgranted,
      not_relocked_step hfresh.2 (hmoved hcalls) hrelock⟩
  simp only [Semaphore.advance,hc] at hn
  cases call with
  | started op => exact h.begin hc hn
  | release m available =>
    simp only at hn
    split at hn <;> cases hn
    · exact hidle rfl rfl rfl rfl (houtside rfl hstanding rfl rfl rfl rfl rfl rfl) rfl
        (Or.inl rfl) (Or.inl rfl)
    · exact hidle rfl rfl rfl rfl (houtside rfl hstanding rfl rfl rfl rfl rfl rfl) rfl
        (Or.inl rfl) (Or.inl rfl)
  | releaseExchange m available =>
    simp only at hn
    split at hn
    · cases hn
      exact hidle rfl rfl rfl rfl (Or.inl (hstanding.1.step hc rfl rfl rfl rfl rfl))
        (Nat.add_comm m 0) (Or.inl rfl) (Or.inl rfl)
    · split at hn <;> cases hn
      · next heq =>
        have hvacant : s.waiters.order = [] := hI.coupled (heq ▸ hok.2)
        have hc' := Table.getElem?_set_self' hc (.finished .returned)
        refine ⟨_,hc',h.step hc hc' rfl trivial ?_ (Nat.zero_le _) (Or.inl rfl) (Or.inl rfl)
          (.same rfl (Or.inr hvacant))⟩
        show s.need+(available+m)+0 = s.available+s.need+(0+m)
        omega
      · exact hidle rfl rfl rfl rfl (houtside rfl hstanding rfl rfl rfl rfl rfl rfl) rfl
          (Or.inl rfl) (Or.inl rfl)
  | releaseLock m =>
    obtain ⟨-,⟨⟩⟩ := Option.ite_none_left_eq_some.mp hn
    have hflight : (Call.releaseLock m : Call W).inFlight = m := Nat.zero_add m
    have hround := h.distribute hI hc rfl rfl rfl (Or.inr hstanding.1)
      {s.ledger with released := s.ledger.released+m}
    rwa [hflight] at hround
  | relock r =>
    obtain ⟨-,⟨⟩⟩ := Option.ite_none_left_eq_some.mp hn
    exact h.distribute hI hc rfl rfl rfl (Or.inl hstanding) s.ledger
  | surplusLoad r batch =>
    simp only at hn
    split at hn <;> cases hn
    · next hzero =>
      exact hidle rfl rfl rfl rfl (Or.inr (Or.inr hzero)) rfl (Or.inl rfl) (Or.inl rfl)
    · next hpos =>
      refine hidle rfl rfl rfl rfl ?_ rfl (Or.inl rfl) (Or.inl rfl)
      rcases hstanding with hrelocked | hstill | hzero
      · exact Or.inl (hrelocked.snoc _)
      · exact Or.inr (hstill.step hc rfl rfl rfl rfl rfl)
      · exact absurd hzero hpos
  | surplusAdd r batch =>
    cases hn
    obtain ⟨hr,-,hvacant,hzero⟩ := hok
    have hc' := Table.getElem?_set_self' hc (.wakeAll batch 0)
    -- the count is zero, so that `fetch_add` does not wrap around
    have hsum : (s.available+r) % 2^64 = r := by
      rw [hzero,Nat.zero_add,Nat.mod_eq_of_lt]
      simp only [usizeMax] at hr
      omega
    refine ⟨_,hc',h.step hc hc' rfl (Or.inl rfl) ?_ (Nat.zero_le _) (Or.inl rfl) (Or.inl rfl)
      (.same rfl (Or.inr hvacant))⟩
    show s.need+(s.available+r) % 2^64+(0+0) = s.available+s.need+(r+0)
    omega
  | surplusExchange r available batch =>
    obtain ⟨-,-,hvacant⟩ := hok
    simp only at hn
    split at hn
    · next hover =>
      cases hn
      refine hidle rfl rfl rfl rfl ?_ rfl (Or.inl rfl) (Or.inr ⟨_,_,rfl⟩)
      rcases hstanding with hrelocked | hstill
      · refine Or.inr fun hroomy => ?_
        have hfits := hroomy P _ [] rfl hrelocked _ hc
        exact absurd hover (of_decide_eq_false hfits)
      · exact Or.inl (hstill.step hc rfl rfl rfl rfl rfl)
    · next hfits =>
      have hfits' : (Call.surplusExchange r available batch : Call W).overflows = false :=
        decide_eq_false hfits
      split at hn <;> cases hn
      · next heq =>
        have hc' := Table.getElem?_set_self' hc (.surplusSettled batch)
        refine ⟨_,hc',h.step hc hc' rfl trivial ?_ (Nat.zero_le _) (Or.inl rfl) (Or.inl hfits')
          (.same rfl (Or.inr hvacant))⟩
        show s.need+(available+r)+0 = s.available+s.need+(r+0)
        omega
      · refine hidle rfl rfl rfl rfl ?_ rfl (Or.inl rfl) (Or.inl hfits')
        exact hstanding.imp (fun hrelocked => hrelocked.snoc _)
          fun hstill => hstill.step hc rfl rfl rfl rfl rfl
  | surplusContended r actual batch =>
    cases hn
    refine hidle rfl rfl rfl rfl ?_ rfl (Or.inl rfl) (Or.inl rfl)
    exact hstanding.imp (fun hrelocked => hrelocked.snoc _)
      fun hstill => hstill.step hc rfl rfl rfl rfl rfl
  | surplusSettled batch =>
    cases hn
    exact hidle rfl rfl rfl rfl (Or.inl rfl) rfl (Or.inl rfl) (Or.inl rfl)
  | wakeAll batch r =>
    have hserved : r = 0 ∨ stackSize ≤ handed P := hstanding
    cases batch with
    | cons waker batch =>
      cases hn
      refine hidle rfl rfl rfl rfl ?_ rfl (Or.inl rfl) (Or.inl rfl)
      refine hserved.imp_right fun hfull => hfull.trans ?_
      rw [handed_snoc]
      exact Nat.le_add_right _ _
    | nil =>
      simp only at hn
      split at hn <;> cases hn
      · next hzero =>
        exact hidle rfl rfl rfl rfl trivial hzero.symm (Or.inl rfl) (Or.inl rfl)
      · next hpos =>
        refine hidle rfl rfl rfl rfl ?_ rfl (Or.inr (hserved.resolve_left hpos)) (Or.inl rfl)
        exact ⟨_,List.mem_append_right _ (List.mem_singleton_self _),.relock r,hmoved rfl,rfl⟩
  | finished outcome => cases hn
  | panicked message r => cases hn
  | _ => cases hstanding

end Account

section History

variable [Wake W] {s₀ s t : State W} {run : List (Action W)} {a : Action W} {c n : ℕ}

def ownSteps (c : ℕ) (s₀ : State W) (run : List (Action W)) : List (State W × State W) :=
  (machine W).steps (Action.moves c) s₀ run

structure History (s₀ : State W) (run : List (Action W)) (s : State W) : Prop where
  inv : Inv s
  length : s.calls.length = (run.filterMap Action.op?).length
  fresh : ∀ c, s.calls.length ≤ c → ownSteps c s₀ run = []
  account : ∀ c n, Releases run c n →
    ∃ call, s.calls[c]? = some call ∧ Account c n (ownSteps c s₀ run) s call

theorem ownSteps_other (hs : (machine W).exec s₀ run = some s) (hn : next s a = some t)
    (hother : a.moves c = false) : ownSteps c s₀ (run++[a]) = ownSteps c s₀ run := by
  rw [ownSteps,(machine W).steps_snoc _ hs hn,hother]
  exact List.append_nil _

theorem History.acquire (h : History s₀ run s) (hs : (machine W).exec s₀ run = some s) {m : ℕ}
    (hn : next s (.acquire m) = some t) : History s₀ (run++[.acquire m]) t := by
  have hinv := next_inv h.inv hn
  have hsteps (c : ℕ) : ownSteps c s₀ (run++[.acquire m]) = ownSteps c s₀ run :=
    ownSteps_other hs hn rfl
  obtain ⟨-,⟨⟩⟩ := Option.ite_none_right_eq_some.mp hn
  refine ⟨hinv,?_,fun c hc => (hsteps c).trans (h.fresh c hc),fun c n hr => ?_⟩
  · rw [List.filterMap_append]
    exact h.length.trans (by simp [Action.op?])
  · obtain ⟨call,hcall,haccount⟩ := h.account c n ((releases_snoc rfl).mp hr)
    rw [hsteps]
    exact ⟨call,hcall,haccount.frame (h.inv.calls c call hcall) fun _ hzero => hzero⟩

theorem History.call (h : History s₀ run s) (hs : (machine W).exec s₀ run = some s) {op : Op W}
    (hn : next s (.call op) = some t) : History s₀ (run++[.call op]) t := by
  have hinv := next_inv h.inv hn
  have hsteps (c : ℕ) : ownSteps c s₀ (run++[.call op]) = ownSteps c s₀ run :=
    ownSteps_other hs hn rfl
  obtain ⟨-,⟨⟩⟩ := Option.ite_none_right_eq_some.mp hn
  obtain ⟨hlock,hcalls⟩ := borrow_lock s s.calls.length op
  have hops : (run++[Action.call op]).filterMap Action.op? = run.filterMap Action.op?++[op] := by
    rw [List.filterMap_append]
    rfl
  have havailable : (borrow s s.calls.length op).available = s.available := by cases op <;> rfl
  refine ⟨hinv,?_,fun c hc => (hsteps c).trans (h.fresh c ?_),fun c n hr => ?_⟩
  · rw [hops,hcalls,List.length_append,List.length_append,h.length]
    rfl
  · rw [hcalls,List.length_append] at hc
    omega
  · rw [hsteps]
    rw [Releases,hops] at hr
    obtain ⟨op',hop',hreleases⟩ := Option.bind_eq_some_iff.mp hr
    rcases Table.getElem?_push hop' with hold | ⟨rfl,rfl⟩
    · obtain ⟨call,hcall,haccount⟩ :=
        h.account c n (Option.bind_eq_some_iff.mpr ⟨op',hold,hreleases⟩)
      refine ⟨call,?_,haccount.frame (h.inv.calls c call hcall) fun _ hzero => havailable.trans hzero⟩
      rw [hcalls]
      exact Table.getElem?_push_old hcall _
    · refine ⟨.started op',?_,?_⟩
      · rw [hcalls,← h.length]
        exact List.getElem?_concat_length
      · rw [h.fresh _ h.length.le]
        refine ⟨⟨hreleases,rfl⟩,?_,?_,fun hnot => absurd (roomy_nil _) hnot,?_⟩
        · cases op' <;> cases hreleases <;> exact (Nat.zero_add _).trans (Nat.zero_add _)
        · rintro ⟨p,hp,-⟩
          exact absurd hp List.not_mem_nil
        · exact fun p hp => absurd hp List.not_mem_nil

theorem History.advance (h : History s₀ run s) (hs : (machine W).exec s₀ run = some s) {d : ℕ}
    {spurious : Bool} (hn : next s (.advance d spurious) = some t) :
    History s₀ (run++[.advance d spurious]) t := by
  have hd : ∃ call, s.calls[d]? = some call := by
    cases hd : s.calls[d]? with
    | none => simp [next,Semaphore.advance,hd] at hn
    | some call => exact ⟨call,rfl⟩
  obtain ⟨call₀,hd⟩ := hd
  obtain ⟨call₁,heffect,-⟩ := advance_effect h.inv hd hn
  have hlength : t.calls.length = s.calls.length := by rw [heffect.calls_eq,List.length_set]
  have hother {c : ℕ} (hcd : c ≠ d) :
      ownSteps c s₀ (run++[.advance d spurious]) = ownSteps c s₀ run :=
    ownSteps_other hs hn (by simp [Action.moves,Ne.symm hcd])
  refine ⟨next_inv h.inv hn,?_,fun c hc => ?_,fun c n hr => ?_⟩
  · rw [hlength,h.length,List.filterMap_append]
    simp [Action.op?]
  · rw [hlength] at hc
    have hcd : c ≠ d := by
      rintro rfl
      rw [List.getElem?_eq_none hc] at hd
      cases hd
    exact (hother hcd).trans (h.fresh c hc)
  · obtain ⟨call,hcall,haccount⟩ := h.account c n ((releases_snoc rfl).mp hr)
    by_cases hcd : c = d
    · subst hcd
      have hsteps : ownSteps c s₀ (run++[.advance c spurious]) = ownSteps c s₀ run++[(s,t)] := by
        have hsnoc := (machine W).steps_snoc (Action.moves c) (a := .advance c spurious) hs hn
        simpa [Action.moves,ownSteps] using hsnoc
      rw [hsteps]
      exact haccount.advance h.inv hcall hn
    · rw [hother hcd]
      refine ⟨call,(heffect.other_call hcd).trans hcall,?_⟩
      exact haccount.frame (h.inv.calls c call hcall) fun hlock => (heffect.frame.lock c hcd hlock).2.2

theorem exec_account {permits : ℕ} (hpermits : permits ≤ usizeMax)
    (hs : (machine W).exec (new W permits) run = some s) : History (new W permits) run s := by
  refine (machine W).exec_history (fun run s => History (new W permits) run s) ?_ ?_ hs
  · refine ⟨new_inv hpermits,rfl,fun _ _ => rfl,fun c n hr => ?_⟩
    simp [Releases] at hr
  · intro run s a t hs h hn
    cases a with
    | acquire m => exact h.acquire hs hn
    | call op => exact h.call hs hn
    | advance d spurious => exact h.advance hs hn

/-- In every interleaving the releases are all-or-nothing as long as none that has served a
full batch finds, when it comes back, that what it has left overflows the count; one that
does is not. -/
theorem releases_all_or_nothing_iff {permits : ℕ} (hpermits : permits ≤ usizeMax)
    (hs : (machine W).exec (new W permits) run = some s) :
    (∀ c n, Releases run c n → AllOrNothing c n (ownSteps c (new W permits) run) s) ↔
      ∀ c n, Releases run c n → Roomy c (ownSteps c (new W permits) run) := by
  have hhistory := exec_account hpermits hs
  refine forall_congr' fun c => forall_congr' fun n => forall_congr' fun hr => ?_
  obtain ⟨call,hcall,haccount⟩ := hhistory.account c n hr
  exact haccount.allOrNothing_iff hcall

/-- A release of fewer permits than a batch has places is all-or-nothing in every
interleaving. -/
theorem small_release_all_or_nothing {permits : ℕ} (hpermits : permits ≤ usizeMax)
    (hs : (machine W).exec (new W permits) run = some s) (hr : Releases run c n)
    (hn : n < stackSize) : AllOrNothing c n (ownSteps c (new W permits) run) s := by
  obtain ⟨call,hcall,haccount⟩ := (exec_account hpermits hs).account c n hr
  exact (haccount.allOrNothing_iff hcall).mpr (haccount.roomy_of_small hn)

end History

/-- Two releases of one permit race for the last place in the count. -/
def limitRun : List (Action ℕ) :=
  [.call (.release 1),.call (.release 1),.advance 0 false,.advance 1 false,.advance 0 false,
    .advance 1 false,.advance 0 false,.advance 1 false,.advance 1 false,.advance 1 false,
    .advance 1 false]

theorem releases_all_or_nothing_iff_limitRun :
    ∃ s, (machine ℕ).exec (new ℕ (usizeMax-1)) limitRun = some s ∧ s.available = usizeMax ∧
      s.calls.map Call.ended = [true,true] ∧
      s.calls[1]?.any (fun call => !call.quiet) = true ∧
      ∀ c n, Releases limitRun c n →
        AllOrNothing c n (ownSteps c (new ℕ (usizeMax-1)) limitRun) s := by
  have hrun : ((machine ℕ).exec (new ℕ (usizeMax-1)) limitRun).map (fun s =>
      (s.available,s.calls.map Call.ended,s.calls[1]?.any (fun call => !call.quiet))) =
      some (usizeMax,[true,true],true) := by decide +kernel
  obtain ⟨s,hs,hend⟩ := Option.map_eq_some_iff.mp hrun
  simp only [Prod.mk.injEq] at hend
  refine ⟨s,hs,hend.1,hend.2.1,hend.2.2,?_⟩
  refine (releases_all_or_nothing_iff (by decide) hs).mpr fun c n hr => ?_
  obtain ⟨call,hcall,haccount⟩ := (exec_account (by decide) hs).account c n hr
  refine haccount.roomy_of_small ?_
  obtain ⟨op,hop,hreleases⟩ := Option.bind_eq_some_iff.mp hr
  obtain rfl : op = .release 1 := by simpa [limitRun,Action.op?] using List.mem_of_getElem? hop
  cases hreleases
  decide

def waitRun : List (Action ℕ) :=
  (List.range 33).flatMap fun f =>
    [.acquire 1,.call (.poll f f),.advance f false,.advance f false,.advance f false]

/-- A release of `usize::MAX` permits serves a batch of thirty-two futures and wakes them.
Before it comes back another release serves the last future and leaves the rest in the
count. What the first release has left does not fit any more. -/
def overflowRun : List (Action ℕ) :=
  waitRun++[.call (.release usizeMax),.advance 33 false,.advance 33 false,.call (.release 64)]++
    List.replicate 4 (.advance 34 false)++List.replicate 36 (.advance 33 false)

theorem release_panics_after_batch :
    ∃ s message, (machine ℕ).exec (new ℕ 0) overflowRun = some s ∧
      Releases overflowRun 33 usizeMax ∧
      s.calls[33]? = some (.panicked message (usizeMax-32)) ∧
      handed (ownSteps 33 (new ℕ 0) overflowRun) = 32 ∧
      ¬AllOrNothing 33 usizeMax (ownSteps 33 (new ℕ 0) overflowRun) s := by
  have hrun : ((machine ℕ).exec (new ℕ 0) overflowRun).map (fun s =>
      s.calls[33]?.map fun call => (call.ended,call.remaining)) =
      some (some (true,usizeMax-32)) := by decide +kernel
  have hreleases : Releases overflowRun 33 usizeMax := by
    have hop : (overflowRun.filterMap Action.op?)[33]?.bind Op.releases = some usizeMax := by
      decide +kernel
    exact hop
  obtain ⟨s,hs,hend⟩ := Option.map_eq_some_iff.mp hrun
  obtain ⟨call,hcall,hlast⟩ := Option.map_eq_some_iff.mp hend
  obtain ⟨call',hcall',haccount⟩ := (exec_account (by decide) hs).account 33 usizeMax hreleases
  cases hcall.symm.trans hcall'
  simp only [Prod.mk.injEq] at hlast
  cases call with
  | panicked message r =>
    obtain rfl : r = usizeMax-32 := hlast.2
    have hhanded : handed (ownSteps 33 (new ℕ 0) overflowRun) = 32 := by
      have htotal : _+(usizeMax-32+0) = usizeMax := haccount.total
      have hmax : 32 ≤ usizeMax := by decide
      omega
    refine ⟨s,message,hs,hreleases,hcall,hhanded,fun hall => ?_⟩
    have hzero := (hall.panicked message _ hcall).handed
    omega
  | finished outcome =>
    have hzero : 0 = usizeMax-32 := hlast.2
    exact absurd hzero (by decide)
  | _ => cases hlast.1

end Semaphore
end Asyncband
