import Asyncband.SemaphoreBalance

/-! Semaphores whose users give back only what they took.
Users acquire permits, drain available ones, and release no more than they took. Then
every permit is available, assigned, with a user or on its way back, no distribution
overflows, and no call panics. -/
namespace Asyncband
namespace Semaphore

open Relation

variable {W : Type} {d d' : Distribution W}

def State.taken (s : State W) : ℕ :=
  s.ledger.acquired+s.ledger.drained-(s.ledger.released+s.argument)

/-- The permits that a running release has not brought anywhere. -/
def Call.inFlight (call : Call W) : ℕ := call.remaining+call.argument

def State.inFlight (s : State W) : ℕ := Table.total Call.inFlight s.calls

theorem State.inFlight_eq (s : State W) : s.inFlight = s.remaining+s.argument :=
  Table.total_add Call.remaining Call.argument s.calls

def Intent.lending : Intent → Bool
  | .poll _ | .tryAcquire _ | .drain | .other => true
  | _ => false

structure Loan [Wake W] (permits : ℕ) (s : State W) : Prop where
  inv : Inv s
  balance : Balance permits s
  permits_le : permits ≤ usizeMax
  lending : ∀ call ∈ s.calls, call.intent.lending = true
  reduced : s.ledger.reduced = 0
  notified : s.ledger.notified = 0
  owned : ∀ id node, s.waiters.get? id = some node → node.owner.isSome = true
  covered : s.ledger.released+s.argument ≤ s.ledger.acquired+s.ledger.drained
  /-- A count that a release adds to was loaded while its permits were outstanding. -/
  loaded : ∀ call ∈ s.calls, ∀ a, call.loaded = some a →
    a+call.argument+call.remaining ≤ permits
  sound : ∀ call ∈ s.calls, ∀ message r, call ≠ .panicked message r

theorem owned_update {w w' : WaitList (WaitNode W)} {id : WaiterId} {x : Option (WaitNode W)}
    (ho : ∀ id node, w.get? id = some node → node.owner.isSome = true)
    (hget : w'.get? = Function.update w.get? id x)
    (hx : ∀ node, x = some node → node.owner.isSome = true) :
    ∀ id node, w'.get? id = some node → node.owner.isSome = true := by
  intro id' node hn
  by_cases hne : id' = id
  · subst hne
    exact hx node (by simpa [hget] using hn)
  · exact ho id' node (by simpa [hget,Function.update_of_ne hne] using hn)

theorem Assign.owned (h : ReflTransGen Assign d d')
    (ho : ∀ id node, d.waiters.get? id = some node → node.owner.isSome = true) :
    ∀ id node, d'.waiters.get? id = some node → node.owner.isSome = true := by
  induction h with
  | refl => exact ho
  | tail _ hround ih =>
    cases hround with
    | grant _ hn _ _ _ hg | part _ hn _ _ hg =>
      apply owned_update ih hg
      rintro _ ⟨⟩
      simpa using ih _ _ hn
    | repay _ _ _ _ _ hg => exact owned_update ih hg nofun

theorem Notify.owned (h : ReflTransGen Notify d d')
    (ho : ∀ id node, d.waiters.get? id = some node → node.owner.isSome = true) :
    ∀ id node, d'.waiters.get? id = some node → node.owner.isSome = true := by
  induction h with
  | refl => exact ho
  | tail _ hround ih =>
    cases hround with
    | grant _ hn _ _ hg =>
      apply owned_update ih hg
      rintro _ ⟨⟩
      simpa using ih _ _ hn
    | forgive _ _ _ _ hg => exact owned_update ih hg nofun

theorem ordinary_of_lending {call : Call W} (hl : call.intent.lending = true) :
    call.ordinary = true := by
  cases call with
  | started op => cases op <;> first | rfl | cases hl
  | _ => rfl

theorem started_argument (op : Op W) : (Call.started op).argument = op.released := by
  cases op <;> rfl

section Steps

variable [Wake W] {s s' : State W} {c : ℕ} {call call' : Call W} {permits : ℕ}

theorem new_loan (h : permits ≤ usizeMax) : Loan permits (new W permits) where
  inv := new_inv h
  balance := by simp [Balance,new,State.awaited,State.remaining,State.need]
  permits_le := h
  lending := by simp [new]
  reduced := rfl
  notified := rfl
  owned := by simp [new,WaitList.get?_new]
  covered := by simp [new,State.argument]
  loaded := by simp [new]
  sound := by simp [new]

theorem Loan.debt (hL : Loan permits s) : s.debt = 0 := by
  apply Table.total_eq_zero.mpr
  intro i id hid
  have hmem := List.mem_of_getElem? hid
  obtain ⟨node,hn⟩ := WaitList.get?_of_mem_order hmem
  have hw := hL.inv.queue.waker_isSome hn hmem
  rw [hL.owned id node hn] at hw
  have hnone : node.waker.isNone = false := by simpa using hw
  simp [hn,WaitNode.debt,hnone]

theorem Loan.total (hL : Loan permits s) :
    s.available+s.assigned+s.taken+s.remaining+s.argument = permits := by
  have hb := hL.balance
  have hneed := assigned_need hL.inv.queue
  have hdebt := hL.debt
  have h₁ := hL.reduced
  have h₂ := hL.notified
  have hcov := hL.covered
  unfold Balance at hb
  unfold State.taken
  omega

section

variable (h : Effect s c call call' s')
include h

theorem Effect.intent : call'.intent = call.intent ∨ call'.intent = .other := by
  cases h with
  | idle _ _ _ _ hintent => exact hintent.imp_right And.left
  | surplus _ _ _ _ _ hcalm | distribute _ _ _ _ _ hcalm
  | cancel _ _ _ _ _ _ _ _ _ _ _ _ hcalm => exact Or.inr (Call.calm_spec hcalm).2.1
  | _ => exact Or.inr rfl

theorem Effect.acquired :
    (call' ≠ .finished .acquired ∧ s'.ledger.acquired = s.ledger.acquired) ∨
    (call' = .finished .acquired ∧
      ∃ n, call.intent.gain s = some n ∧ s'.ledger.acquired = s.ledger.acquired+n) := by
  have hquiet (hq : call'.quiet = true) : call' ≠ .finished .acquired := by
    intro heq
    simp [heq,Call.quiet] at hq
  have hgain {f : ℕ} {a : Acquire W} (hf : s.acquires[f]? = some a) (hpoll : call.intent = .poll f) :
      call.intent.gain s = some a.requestedPermits := by
    simp [hpoll,Intent.gain,State.requested,hf]
  cases h with
  | tryAcquire _ hintent => exact Or.inr ⟨rfl,_,by rw [hintent]; rfl,rfl⟩
  | acquire _ hf _ _ _ hintent => exact Or.inr ⟨rfl,_,hgain hf hintent,rfl⟩
  | claim _ hf _ _ _ _ _ _ hcall => exact Or.inr ⟨rfl,_,hgain hf (hcall ▸ rfl),rfl⟩
  | idle _ _ _ hq => exact Or.inl ⟨hquiet hq,rfl⟩
  | surplus _ _ _ _ _ hcalm
  | distribute _ _ _ _ _ hcalm => exact Or.inl ⟨hquiet (Call.calm_spec hcalm).2.2.2,rfl⟩
  | cancel _ _ _ _ _ _ _ _ _ _ _ _ hcalm =>
    exact Or.inl ⟨hquiet (Call.calm_spec hcalm).2.2.2,rfl⟩
  | _ => exact Or.inl ⟨by simp,rfl⟩

theorem Effect.drained (hne : call.intent ≠ .drain) : s'.ledger.drained = s.ledger.drained := by
  cases h with
  | drain _ hintent => exact absurd hintent hne
  | _ => rfl

theorem Effect.drained_le : s.ledger.drained ≤ s'.ledger.drained := by
  cases h with
  | drain => exact Nat.le_add_right _ _
  | _ => exact Nat.le_refl _

theorem Effect.ownedNodes (hl : ∀ n, call.intent ≠ .reduce n)
    (ho : ∀ id node, s.waiters.get? id = some node → node.owner.isSome = true) :
    ∀ id node, s'.waiters.get? id = some node → node.owner.isSome = true := by
  cases h with
  | owe _ _ _ _ _ hintent => exact absurd hintent (hl _)
  | notifyAll _ _ hrounds => exact Notify.owned hrounds ho
  | enqueue _ _ _ _ _ _ _ hget => exact owned_update ho hget (by simp)
  | distribute _ hrounds => exact Assign.owned hrounds ho
  | cancel _ _ _ _ _ _ hget hrounds => exact Assign.owned hrounds (owned_update ho hget (by simp))
  | refresh _ _ _ _ hnode _ _ hget =>
    refine owned_update ho hget fun node hnode' => ?_
    cases hnode'
    have hown := ho _ _ hnode
    exact hown
  | claim _ _ _ _ _ _ _ hget => exact owned_update ho hget (by simp)
  | _ => exact ho

theorem Effect.ledger_clean (hl : call.intent.lending = true) :
    s'.ledger.reduced = s.ledger.reduced ∧ s'.ledger.notified = s.ledger.notified := by
  cases h with
  | reduce _ _ hintent => simp [hintent,Intent.lending] at hl
  | owe _ _ _ _ _ hintent => simp [hintent,Intent.lending] at hl
  | notifyAll _ hcall => simp [hcall,Call.intent,Op.intent,Intent.lending] at hl
  | _ => exact ⟨rfl,rfl⟩

theorem Effect.loadedNext (hL : Loan permits s) (hc : s.calls[c]? = some call) :
    ∀ a, call'.loaded = some a → a+call'.argument+call'.remaining ≤ permits := by
  intro a ha
  cases h with
  | idle _ hremaining hargument _ _ hloaded =>
    rw [hremaining,hargument]
    rcases hloaded a ha with hold | rfl
    · exact hL.loaded call (List.mem_of_getElem? hc) a hold
    · have htotal := hL.total
      have harg := Table.le_total Call.argument hc
      have hrem := Table.le_total Call.remaining hc
      unfold State.remaining State.argument at htotal
      omega
  | surplus _ _ _ _ _ hcalm
  | distribute _ _ _ _ _ hcalm
  | cancel _ _ _ _ _ _ _ _ _ _ _ _ hcalm => simp [(Call.calm_spec hcalm).2.2.1] at ha
  | _ => cases ha

theorem Effect.not_panicked (hL : Loan permits s) (hc : s.calls[c]? = some call) :
    ∀ message r, call' ≠ .panicked message r := by
  have hmem := List.mem_of_getElem? hc
  have hquiet (hq : call'.quiet = true) : ∀ message r, call' ≠ .panicked message r := by
    intro message r heq
    simp [heq,Call.quiet] at hq
  have hp := hL.permits_le
  cases h with
  | overflow _ hloaded | surplusOverflow _ hloaded =>
    have hle := hL.loaded call hmem _ hloaded
    omega
  | idle _ _ _ hq => exact hquiet hq
  | surplus _ _ _ _ _ hcalm
  | distribute _ _ _ _ _ hcalm
  | cancel _ _ _ _ _ _ _ _ _ _ _ _ hcalm => exact hquiet (Call.calm_spec hcalm).2.2.2
  | _ => exact fun _ _ => nofun

theorem Effect.argument_total (hc : s.calls[c]? = some call) :
    s'.argument+call.argument = s.argument+call'.argument := by
  unfold State.argument
  rw [h.calls_eq]
  exact Table.total_set Call.argument hc call'

theorem Effect.forall_calls {P : Call W → Prop} (hold : ∀ call ∈ s.calls, P call) (hnew : P call') :
    ∀ call ∈ s'.calls, P call := by
  intro other hother
  rw [h.calls_eq] at hother
  rcases List.mem_or_eq_of_mem_set hother with hother | rfl
  · exact hold other hother
  · exact hnew

theorem Effect.loan (hL : Loan permits s) (hc : s.calls[c]? = some call) (hok : CallOk s' c call') :
    Loan permits s' := by
  have hlending := hL.lending call (List.mem_of_getElem? hc)
  have hreduce (n : ℕ) : call.intent ≠ .reduce n := by
    intro hintent
    simp [hintent,Intent.lending] at hlending
  have hclean := h.ledger_clean hlending
  refine ⟨h.inv hL.inv hok,h.balance hL.inv hc hL.balance,hL.permits_le,
    h.forall_calls hL.lending ?_,hclean.1.trans hL.reduced,hclean.2.trans hL.notified,
    h.ownedNodes hreduce hL.owned,?_,h.forall_calls hL.loaded (h.loadedNext hL hc),
    h.forall_calls hL.sound (h.not_panicked hL hc)⟩
  · rcases h.intent with heq | heq
    · rwa [heq]
    · rw [heq]
      rfl
  · have hcov := hL.covered
    have hrel := h.released (ordinary_of_lending hlending)
    have harg := h.argument_total hc
    have hdrained := h.drained_le
    have hacq : s.ledger.acquired ≤ s'.ledger.acquired := by
      rcases h.acquired with ⟨-,heq⟩ | ⟨-,n,-,heq⟩ <;> omega
    omega

end

theorem Loan.advance (hL : Loan permits s) {spurious : Bool}
    (h : advance s c spurious = some s') :
    ∃ call call', s.calls[c]? = some call ∧ Effect s c call call' s' ∧ Loan permits s' := by
  cases hc : s.calls[c]? with
  | none => simp [Semaphore.advance,hc] at h
  | some call =>
    obtain ⟨call',heffect,hok⟩ := advance_effect hL.inv hc h
    exact ⟨call,call',rfl,heffect,heffect.loan hL hc hok⟩

/-- What a step of a running call that does not drain does to the permits of users. -/
theorem Effect.taken (h : Effect s c call call' s') (hL : Loan permits s)
    (hc : s.calls[c]? = some call) (hne : call.intent ≠ .drain) :
    (call' ≠ .finished .acquired ∧ s'.taken = s.taken) ∨
    (call' = .finished .acquired ∧ ∃ n, call.intent.gain s = some n ∧ s'.taken = s.taken+n) := by
  have hcov := hL.covered
  have hrel := h.released (ordinary_of_lending (hL.lending call (List.mem_of_getElem? hc)))
  have harg := h.argument_total hc
  have hdrained := h.drained hne
  unfold State.taken
  rcases h.acquired with ⟨hne,heq⟩ | ⟨hdone,n,hn,heq⟩
  · exact Or.inl ⟨hne,by omega⟩
  · exact Or.inr ⟨hdone,n,hn,by omega⟩

theorem Loan.start (hL : Loan permits s) {op : Op W} (hs : startable s op = true)
    (hop : op.intent.lending = true) (hle : op.released ≤ s.taken) :
    Loan permits {borrow s s.calls.length op with
      calls := (borrow s s.calls.length op).calls++[.started op]} ∧
    s.taken = State.taken {borrow s s.calls.length op with
      calls := (borrow s s.calls.length op).calls++[.started op]}+op.released := by
  have hcalls : (borrow s s.calls.length op).calls = s.calls := by cases op <;> rfl
  have hledger : (borrow s s.calls.length op).ledger = s.ledger := by cases op <;> rfl
  have hwaiters : (borrow s s.calls.length op).waiters = s.waiters := by cases op <;> rfl
  have hnew : State.argument {borrow s s.calls.length op with
      calls := (borrow s s.calls.length op).calls++[.started op]} = s.argument+op.released := by
    simp [State.argument,hcalls,started_argument]
  have hcov := hL.covered
  have hall {P : Call W → Prop} (hold : ∀ call ∈ s.calls, P call) (hnew : P (.started op)) :
      ∀ call ∈ s.calls++[.started op], P call := by
    intro other hother
    rcases List.mem_append.mp hother with hother | hother
    · exact hold other hother
    · rwa [List.mem_singleton.mp hother]
  unfold State.taken at hle ⊢
  constructor
  · refine ⟨start_inv hL.inv hs,start_balance hs hL.balance,hL.permits_le,?_,?_,?_,?_,?_,?_,?_⟩
    · rw [hcalls]
      exact hall hL.lending hop
    · rw [hledger]
      exact hL.reduced
    · rw [hledger]
      exact hL.notified
    · rw [hwaiters]
      exact hL.owned
    · rw [hnew,hledger]
      omega
    · rw [hcalls]
      exact hall hL.loaded nofun
    · rw [hcalls]
      exact hall hL.sound nofun
  · rw [hnew,hledger]
    omega

theorem Loan.acquire (hL : Loan permits s) {n : ℕ} (hn : n ≤ usizeMax) :
    Loan permits {s with acquires := s.acquires++[⟨n,.unpolled,none,none⟩]} := by
  refine ⟨acquire_inv hL.inv hn,?_,hL.permits_le,hL.lending,hL.reduced,hL.notified,hL.owned,
    hL.covered,hL.loaded,hL.sound⟩
  have hb := hL.balance
  unfold Balance State.awaited State.remaining State.need at *
  simp only [Table.total_append,Table.total_cons,Table.total_nil,Acquire.awaited]
  omega

end Steps
end Semaphore
end Asyncband
