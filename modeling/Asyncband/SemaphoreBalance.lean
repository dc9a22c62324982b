import Asyncband.SemaphoreEffect

/-! Permit accounting over whole runs.
Every permit is available, assigned to a waiting future, handed out, or on its way
through a distribution; `Balance` states this with the total need of the queue, and
`assigned_need` turns that need into assigned permits and debt. -/
namespace Asyncband
namespace Semaphore

open Relation

variable {W : Type} {a : Acquire W} {s : State W} {d d' : Distribution W}

def Phase.slot : Phase → Option WaiterId
  | .queued id => some id
  | _ => none

def Acquire.assigned (waiters : WaitList (WaitNode W)) (a : Acquire W) : ℕ :=
  match a.phase with
  | .queued id => a.requestedPermits - (waiters.get? id).elim 0 WaitNode.neededPermits
  | _ => 0

def Acquire.awaited (a : Acquire W) : ℕ :=
  match a.phase with
  | .queued _ => a.requestedPermits
  | _ => 0

theorem Acquire.awaited_idle (h : ∀ id, a.phase ≠ .queued id) : a.awaited = 0 := by
  cases hp : a.phase <;> simp_all [awaited]

theorem Acquire.awaited_queued {id : WaiterId} (h : a.phase = .queued id) :
    a.awaited = a.requestedPermits := by
  simp [awaited,h]

def WaitNode.debt (node : WaitNode W) : ℕ := if node.waker.isNone then node.neededPermits else 0

namespace State

/-- Permits assigned to futures that still wait or were not polled since. -/
def assigned (s : State W) : ℕ := Table.total (Acquire.assigned s.waiters) s.acquires

/-- Permits still owed by linked debt nodes. -/
def debt (s : State W) : ℕ :=
  Table.total (fun id => (s.waiters.get? id).elim 0 WaitNode.debt) s.waiters.order

/-- Permits in the local `remaining` of running distributions. -/
def remaining (s : State W) : ℕ := Table.total Call.remaining s.calls

/-- Permits given to releases that have not brought them anywhere. -/
def argument (s : State W) : ℕ := Table.total Call.argument s.calls

def requested (s : State W) (f : ℕ) : Option ℕ := (s.acquires[f]?).map Acquire.requestedPermits

def awaited (s : State W) : ℕ := Table.total Acquire.awaited s.acquires

def need (s : State W) : ℕ := s.waiters.total WaitNode.neededPermits

end State

/-- The permits that a call with this intent brings to its caller when it succeeds. -/
def Intent.gain (s : State W) : Intent → Option ℕ
  | .tryAcquire n => some n
  | .poll f => s.requested f
  | _ => none

/-- What the books gain in acquired, drained and reduced permits when a call with this
intent goes on as `call'`. -/
def Intent.entry (s : State W) (intent : Intent) : Call W → ℕ × ℕ × ℕ
  | .finished .acquired => ((intent.gain s).getD 0,0,0)
  | .finished (.drained n) => (0,n,0)
  | .finished .returned => (0,0,intent.reduction)
  | _ => 0

def Ledger.entries (l : Ledger) : ℕ × ℕ × ℕ := (l.acquired,l.drained,l.reduced)

/-- Only the end of a call is entered in the books, with what the call ended with. -/
structure Entered (s : State W) (a : Action W) (t : State W) : Prop where
  advance : ∀ c spurious call call', a = .advance c spurious → s.calls[c]? = some call →
    t.calls[c]? = some call' → t.ledger.entries = s.ledger.entries+call.intent.entry s call'
  other : (∀ c spurious, a ≠ .advance c spurious) → t.ledger = s.ledger

theorem Intent.entry_quiet {intent : Intent} {call' : Call W} (hq : call'.quiet = true)
    (hr : call'.intent = intent ∨ intent.reduction = 0) : intent.entry s call' = 0 := by
  cases call' with
  | finished outcome =>
    cases outcome with
    | returned =>
      have hzero : intent.reduction = 0 := hr.elim (fun h => h ▸ rfl) id
      rw [entry,hzero]
      rfl
    | drained n =>
      have hn : n = 0 := of_decide_eq_true hq
      rw [hn]
      rfl
    | acquired => cases hq
    | _ => rfl
  | _ => rfl

/-- The accounting equation; `notified` is only moved by `notify_all`. -/
def Balance (permits : ℕ) (s : State W) : Prop :=
  s.available+s.awaited+s.ledger.acquired+s.remaining+s.ledger.reduced+s.ledger.drained =
    permits+s.ledger.released+s.ledger.notified+s.need

/-- Detached nodes need nothing, and only debt nodes are linked without a waker, so
the need of the queue is what its futures miss and what is owed. -/
theorem assigned_need [Wake W] (hq : QueueOk s.waiters s.acquires) :
    s.assigned+s.need = s.awaited+s.debt := by
  have hsplit : s.need =
      s.waiters.total (fun node => if node.owner.isSome then node.neededPermits else 0) +
        s.waiters.total (fun node => if node.owner.isSome then 0 else node.neededPermits) := by
    rw [← WaitList.total_add]
    show s.waiters.total _ = _
    congr 1
    funext node
    cases node.owner <;> simp
  have howned := s.waiters.total_owned s.acquires (fun a => a.phase.slot) WaitNode.owner
    (fun f a id ha hs => hq.owned f a id ha (by
      cases hp : a.phase <;> simp_all [Phase.slot]))
    (fun id node f hn ho => by
      obtain ⟨a,ha,hp,-⟩ := hq.owner_phase hn ho
      exact ⟨a,ha,by simp [hp,Phase.slot]⟩) WaitNode.neededPermits
  have hdebt : s.waiters.total (fun node => if node.owner.isSome then 0 else node.neededPermits) =
      s.debt := by
    rw [s.waiters.total_linked]
    · unfold State.debt Table.total
      congr 1
      refine List.map_congr_left fun id hid => ?_
      obtain ⟨node,hn⟩ := WaitList.get?_of_mem_order hid
      have hw := hq.waker_isSome hn hid
      cases ho : node.owner with
      | none =>
        have hnone : node.waker = none := by simpa [ho] using hw
        simp [hn,ho,WaitNode.debt,hnone]
      | some f =>
        have hsome : node.waker.isNone = false := by simpa [ho] using hw
        simp [hn,ho,WaitNode.debt,hsome]
    · intro id node hn hid
      simp [(hq.detached_need hn hid).1]
  have hfutures : s.assigned +
      Table.total (fun a => (a.phase.slot.bind s.waiters.get?).elim 0 WaitNode.neededPermits)
        s.acquires = s.awaited := by
    unfold State.assigned State.awaited Table.total
    rw [← List.sum_map_add]
    congr 1
    refine List.map_congr_left fun a ha => ?_
    cases hp : a.phase with
    | queued id =>
      obtain ⟨f,hf⟩ := List.mem_iff_getElem?.mp ha
      obtain ⟨node,hn,-⟩ := hq.owned f a id hf hp
      have hle := hq.needed_le hf hp hn
      simp only [Acquire.assigned,Acquire.awaited,hp,Phase.slot,Option.bind_some,hn,Option.elim_some]
      omega
    | _ => simp [Acquire.assigned,Acquire.awaited,hp,Phase.slot]
  omega

theorem Assign.total (h : Assign d d') :
    d'.remaining+d.waiters.total WaitNode.neededPermits =
      d.remaining+d'.waiters.total WaitNode.neededPermits := by
  cases h with
  | @grant id ids node waker waiters ho hn hw hr ho' hg'
  | @part id ids node waiters ho hn hr ho' hg' =>
    have ht := WaitList.total_update hg' WaitNode.neededPermits
    simp only [hn,Option.elim_some] at ht
    simp only
    omega
  | @repay id ids node waiters ho hn hw hr ho' hg' =>
    have ht := WaitList.total_update hg' WaitNode.neededPermits
    simp only [hn,Option.elim_some,Option.elim_none] at ht
    simp only
    omega

theorem Assign.total_rounds (h : ReflTransGen Assign d d') :
    d'.remaining+d.waiters.total WaitNode.neededPermits =
      d.remaining+d'.waiters.total WaitNode.neededPermits := by
  induction h with
  | refl => rfl
  | tail _ hround ih =>
    have ht := hround.total
    omega

theorem Notify.total_rounds (h : ReflTransGen Notify d d') :
    d'.remaining+d'.waiters.total WaitNode.neededPermits =
      d.remaining+d.waiters.total WaitNode.neededPermits := by
  induction h with
  | refl => rfl
  | tail _ hround ih =>
    cases hround with
    | @grant id ids node waker waiters ho hn hw ho' hg' =>
      have ht := WaitList.total_update hg' WaitNode.neededPermits
      simp only [hn,Option.elim_some] at ht
      simp only
      omega
    | @forgive id ids node waiters ho hn hw ho' hg' =>
      have ht := WaitList.total_update hg' WaitNode.neededPermits
      simp only [hn,Option.elim_some,Option.elim_none] at ht
      simp only
      omega

/-- The operations whose effect on permits does not depend on who waits. -/
def Op.ordinary : Op W → Bool
  | .releaseIfWaiters _ | .notifyAll => false
  | _ => true

def Action.ordinary : Action W → Bool
  | .call op => op.ordinary
  | _ => true

def Call.ordinary : Call W → Bool
  | .started op => op.ordinary
  | _ => true

/-- What a call gives to the semaphore. -/
def Op.released : Op W → ℕ
  | .release n | .releaseWithLock n => n
  | _ => 0

def passed : List (Action W) → ℕ
  | [] => 0
  | .call op::run => op.released+passed run
  | _::run => passed run

theorem passed_cons (a : Action W) (run : List (Action W)) :
    passed (a::run) = passed [a]+passed run := by
  cases a <;> simp [passed]

theorem start_balance {permits : ℕ} {op : Op W} (hs : startable s op = true) (hb : Balance permits s) :
    Balance permits {borrow s s.calls.length op with
      calls := (borrow s s.calls.length op).calls++[.started op]} := by
  have hr : (Call.started op : Call W).remaining = 0 := rfl
  have hborrow {f : ℕ} {a : Acquire W} (hf : s.acquires[f]? = some a) (busy : Option ℕ) :
      Table.total Acquire.awaited (s.acquires.set f {a with busy := busy}) =
        Table.total Acquire.awaited s.acquires := by
    have ht := Table.total_set Acquire.awaited hf {a with busy := busy}
    have hsame : ({a with busy := busy} : Acquire W).awaited = a.awaited := rfl
    omega
  unfold Balance State.awaited State.remaining State.need at *
  cases op with
  | poll f w =>
    obtain ⟨a,ha,-⟩ := startable_poll hs
    simp only [borrow,List.modify_eq_set_getElem?,ha,Option.map_eq_map,Option.map_some,
      Option.getD_some,hborrow ha,Table.total_append,Table.total_cons,Table.total_nil,hr]
    omega
  | drop f =>
    obtain ⟨a,ha,-⟩ := startable_drop hs
    simp only [borrow,List.modify_eq_set_getElem?,ha,Option.map_eq_map,Option.map_some,
      Option.getD_some,hborrow ha,Table.total_append,Table.total_cons,Table.total_nil,hr]
    omega
  | _ =>
    simp only [borrow,Table.total_append,Table.total_cons,Table.total_nil,hr]
    omega

section Steps

variable [Wake W] {s s' : State W} {c : ℕ} {call call' : Call W} {permits : ℕ}
variable {a : Action W} {run : List (Action W)} {n : ℕ}

theorem Effect.balance (h : Effect s c call call' s') (hI : Inv s) (hc : s.calls[c]? = some call)
    (hb : Balance permits s) : Balance permits s' := by
  have hcalls := Table.total_set Call.remaining hc call'
  -- what futures ask for changes only at the future of this step
  have hacquires {f : ℕ} {a : Acquire W} (a' : Acquire W) (hf : s.acquires[f]? = some a) (m n : ℕ)
      (hm : a.awaited = m) (hn : a'.awaited = n) :
      Table.total Acquire.awaited (s.acquires.set f a') + m =
        Table.total Acquire.awaited s.acquires + n := by
    rw [← hm,← hn]
    exact Table.total_set _ hf a'
  unfold Balance State.awaited State.remaining State.need at *
  cases h with
  | idle hlock hr =>
    simp only at hcalls ⊢
    omega
  | overflow | surplusOverflow =>
    simp only [Call.remaining_panicked] at hcalls ⊢
    omega
  | tryAcquire | drain | reduce | put =>
    simp only [Call.remaining_finished] at hcalls ⊢
    omega
  | surplus hlock ho hbound hr =>
    simp only at hcalls ⊢
    omega
  | @dropIdle f a phase hf hbusy hp hr =>
    have ha := hacquires {a with phase := phase,busy := none} hf 0 0
      (Acquire.awaited_idle (by rcases hp with ⟨hp,-⟩ | ⟨hp,-⟩ <;> simp [hp]))
      (Acquire.awaited_idle (by rcases hp with ⟨-,hp⟩ | ⟨-,hp⟩ <;> simp [hp]))
    simp only [Call.remaining_finished] at hcalls ⊢
    omega
  | @acquire f a lock' hn hf hbusy hp hlock hintent hr =>
    have ha := hacquires {a with phase := .ready,busy := none} hf 0 0
      (Acquire.awaited_idle (by simp [hp])) (Acquire.awaited_idle (by simp))
    simp only [Call.remaining_finished] at hcalls ⊢
    omega
  | @enqueue f a w id waiters hn hf hbusy hp hlock hid horder hget hintent hr =>
    have ha := hacquires {a with phase := .queued id,busy := none,lastWaker := some w} hf
      0 a.requestedPermits (Acquire.awaited_idle (by simp [hp])) (Acquire.awaited_queued rfl)
    have ht := WaitList.total_update hget WaitNode.neededPermits
    simp only [hid,Option.elim_some,Option.elim_none] at ht
    simp only [Call.remaining_finished] at hcalls ⊢
    omega
  | @owe n id waiters hn hlock hid horder hget hintent hr =>
    have ht := WaitList.total_update hget WaitNode.neededPermits
    simp only [hid,Option.elim_some,Option.elim_none] at ht
    simp only [Call.remaining_finished] at hcalls ⊢
    omega
  | @distribute call' lock' n d hlock hrounds hr =>
    have ht := Assign.total_rounds hrounds
    simp only at hcalls ht ⊢
    omega
  | @cancel f a id node call' lock' waiters d hlock hf hbusy hp hnode horder hget hrounds hr' _ hr =>
    have ha := hacquires {a with phase := .dropped,busy := none} hf
      a.requestedPermits 0 (Acquire.awaited_queued hp) (Acquire.awaited_idle (by simp))
    have hassign := Assign.total_rounds hrounds
    have ht := WaitList.total_update hget WaitNode.neededPermits
    simp only [hnode,Option.elim_some,Option.elim_none] at ht
    have hle := hI.queue.needed_le hf hp hnode
    simp only at hcalls hassign ⊢
    omega
  | @refresh f a id node w waiters hlock hf hbusy hp hnode hneed horder hget hr =>
    have ha := hacquires {a with busy := none,lastWaker := some w} hf
      a.requestedPermits a.requestedPermits (Acquire.awaited_queued hp) (Acquire.awaited_queued hp)
    have ht := WaitList.total_update hget WaitNode.neededPermits
    simp only [hnode,Option.elim_some] at ht
    simp only [Call.remaining_finished] at hcalls ⊢
    omega
  | @claim f a id node w waiters hlock hf hbusy hp hnode hneed horder hget hcall hr =>
    have ha := hacquires {a with phase := .ready,busy := none} hf
      a.requestedPermits 0 (Acquire.awaited_queued hp) (Acquire.awaited_idle (by simp))
    have ht := WaitList.total_update hget WaitNode.neededPermits
    simp only [hnode,Option.elim_some,Option.elim_none] at ht
    simp only [Call.remaining_finished] at hcalls ⊢
    omega
  | @notifyAll d hlock hcall hrounds hall =>
    have ht := Notify.total_rounds hrounds
    have hr : call.remaining = 0 := by rw [hcall]; rfl
    simp only [Call.remaining_wakeAll] at hcalls ht ⊢
    omega

theorem next_balance (hI : Inv s) (hb : Balance permits s) (h : next s a = some s') :
    Balance permits s' := by
  cases a with
  | acquire n =>
    simp only [next] at h
    split at h
    · cases h
      unfold Balance State.awaited State.remaining State.need at *
      simp only [Table.total_append,Table.total_cons,Table.total_nil,Acquire.awaited]
      omega
    · cases h
  | call op =>
    simp only [next] at h
    split at h
    · rename_i hs
      cases h
      exact start_balance hs hb
    · cases h
  | advance c spurious =>
    cases hc : s.calls[c]? with
    | none => simp [next,advance,hc] at h
    | some call =>
      obtain ⟨call',heffect,-⟩ := advance_effect hI hc h
      exact heffect.balance hI hc hb

theorem exec_balance (hp : permits ≤ usizeMax) (h : (machine W).exec (new W permits) run = some s) :
    Inv s ∧ Balance permits s := by
  refine (machine W).exec_invariant (fun _ => True) (fun s => Inv s ∧ Balance permits s) ?_
    (fun _ _ => trivial) ⟨new_inv hp,?_⟩ h
  · intro s a t _ hs hn
    exact ⟨next_inv hs.1 hn,next_balance hs.1 hs.2 hn⟩
  · simp [Balance,new,State.awaited,State.remaining,State.need]

/-- What a call was given reaches the books when the call reaches the count or the queue. -/
theorem Effect.released (h : Effect s c call call' s') (ho : call.ordinary = true) :
    s'.ledger.released+call'.argument = s.ledger.released+call.argument := by
  cases h with
  | distribute hlock hrounds hr hbatch harg hcalm =>
    have harg' := (Call.calm_spec hcalm).1
    rcases harg with harg | harg
    · simp only
      omega
    · simp [harg,Call.ordinary,Op.ordinary] at ho
  | notifyAll hlock hcall => simp [hcall,Call.ordinary,Op.ordinary] at ho
  | surplus _ _ _ _ _ hcalm | cancel _ _ _ _ _ _ _ _ _ _ _ _ hcalm =>
    have harg' := (Call.calm_spec hcalm).1
    simp only
    omega
  | _ => simp only [Call.argument_finished,Call.argument_panicked]; omega

theorem Effect.notified (h : Effect s c call call' s') (ho : call.ordinary = true) :
    s'.ledger.notified = s.ledger.notified := by
  cases h with
  | notifyAll hlock hcall => simp [hcall,Call.ordinary,Op.ordinary] at ho
  | _ => rfl

theorem Effect.ordinary (h : Effect s c call call' s') : call'.ordinary = true := by
  have hquiet (hq : call'.quiet = true) : call'.ordinary = true := by
    cases call' <;> first | rfl | cases hq
  cases h with
  | idle _ _ _ hq => exact hquiet hq
  | surplus _ _ _ _ _ hcalm
  | distribute _ _ _ _ _ hcalm
  | cancel _ _ _ _ _ _ _ _ _ _ _ _ hcalm => exact hquiet (Call.calm_spec hcalm).2.2.2
  | _ => rfl

theorem Effect.entered (h : Effect s c call call' s') :
    s'.ledger.entries = s.ledger.entries+call.intent.entry s call' := by
  have hquiet (hq : call'.quiet = true) (hr : call'.intent = call.intent ∨ call.intent.reduction = 0) :
      s.ledger.entries = s.ledger.entries+call.intent.entry s call' := by
    rw [Intent.entry_quiet hq hr,add_zero]
  have hcalm (hc : call'.calm = true) (hr : call.intent.reduction = 0) :
      s.ledger.entries = s.ledger.entries+call.intent.entry s call' :=
    hquiet (Call.calm_spec hc).2.2.2 (Or.inr hr)
  cases h with
  | idle _ _ _ hq hintent => exact hquiet hq (hintent.imp_right And.right)
  | dropIdle _ _ _ _ _ hother => exact hcalm rfl hother
  | put _ _ _ _ hother => exact hcalm rfl hother
  | surplus _ _ _ _ _ hc hother => exact hcalm hc hother
  | distribute _ _ _ _ _ hc hother => exact hcalm hc hother
  | cancel _ _ _ _ _ _ _ _ _ _ _ _ hc hcall => exact hcalm hc (hcall ▸ rfl)
  | tryAcquire _ hintent => simp [Ledger.entries,Intent.entry,hintent,Intent.gain]
  | drain => simp [Ledger.entries,Intent.entry]
  | reduce _ _ hintent
  | owe _ _ _ _ _ hintent => simp [Ledger.entries,Intent.entry,hintent,Intent.reduction]
  | acquire _ hf _ _ _ hintent =>
    simp [Ledger.entries,Intent.entry,hintent,Intent.gain,State.requested,hf]
  | claim _ hf _ _ _ _ _ _ hcall =>
    simp [Ledger.entries,Intent.entry,hcall,Call.intent,Op.intent,Intent.gain,State.requested,hf]
  | _ => rfl

theorem next_entered (hI : Inv s) (h : next s a = some s') : Entered s a s' := by
  cases a with
  | advance c spurious =>
    refine ⟨?_,fun hne => absurd rfl (hne c spurious)⟩
    rintro c' spurious' call call' ⟨⟩ hc hc'
    obtain ⟨call'',heffect,-⟩ := advance_effect hI hc h
    rw [heffect.calls_eq,Table.getElem?_set_self' hc] at hc'
    cases hc'
    exact heffect.entered
  | acquire n =>
    refine ⟨fun _ _ _ _ heq => (by cases heq),fun _ => ?_⟩
    simp only [next] at h
    split at h <;> cases h
    rfl
  | call op =>
    refine ⟨fun _ _ _ _ heq => (by cases heq),fun _ => ?_⟩
    simp only [next] at h
    split at h <;> cases h
    cases op <;> rfl

/-- The books of a run in which every call is ordinary. -/
structure Books (s : State W) (released : ℕ) : Prop where
  ordinary : ∀ call ∈ s.calls, call.ordinary = true
  notified : s.ledger.notified = 0
  released : s.ledger.released+s.argument = released

theorem next_books (hI : Inv s) (hb : Books s n) (ha : a.ordinary = true) (h : next s a = some s') :
    Books s' (n+passed [a]) := by
  cases a with
  | acquire m =>
    simp only [next] at h
    split at h
    · cases h
      exact ⟨hb.ordinary,hb.notified,hb.released⟩
    · cases h
  | call op =>
    have hcalls : (borrow s s.calls.length op).calls = s.calls := by cases op <;> rfl
    have hledger : (borrow s s.calls.length op).ledger = s.ledger := by cases op <;> rfl
    have harg : (Call.started op).argument = op.released := by cases op <;> rfl
    simp only [next] at h
    split at h
    · cases h
      refine ⟨?_,?_,?_⟩
      · intro call hcall
        rw [hcalls] at hcall
        rcases List.mem_append.mp hcall with hcall | hcall
        · exact hb.ordinary call hcall
        · rw [List.mem_singleton.mp hcall]
          exact ha
      · rw [hledger]
        exact hb.notified
      · have hr := hb.released
        unfold State.argument at *
        simp only [hcalls,hledger,Table.total_append,Table.total_cons,Table.total_nil,harg,passed]
        omega
    · cases h
  | advance c spurious =>
    cases hc : s.calls[c]? with
    | none => simp [next,advance,hc] at h
    | some call =>
      obtain ⟨call',heffect,-⟩ := advance_effect hI hc h
      have ho := hb.ordinary call (List.mem_of_getElem? hc)
      refine ⟨?_,?_,?_⟩
      · intro other hother
        rw [heffect.calls_eq] at hother
        rcases List.mem_or_eq_of_mem_set hother with hother | rfl
        · exact hb.ordinary other hother
        · exact heffect.ordinary
      · rw [heffect.notified ho]
        exact hb.notified
      · have hr := hb.released
        have hstep := heffect.released ho
        have ht := Table.total_set Call.argument hc call'
        unfold State.argument at *
        simp only [heffect.calls_eq,passed]
        omega

theorem exec_books (hI : Inv s) (hb : Books s n) (hrun : ∀ a ∈ run, a.ordinary = true)
    (h : (machine W).exec s run = some s') : Books s' (n+passed run) := by
  induction run generalizing s n with
  | nil =>
    cases h
    exact hb
  | cons a run ih =>
    obtain ⟨t,ht,hrest⟩ := Option.bind_eq_some_iff.mp h
    have hstep := next_books hI hb (hrun a (by simp)) ht
    have hbooks := ih (next_inv hI ht) hstep (fun b hb => hrun b (by simp [hb])) hrest
    rw [passed_cons,← Nat.add_assoc]
    exact hbooks

end Steps

/-- Permits are conserved along every run: what is available, assigned to waiting
futures, acquired so far and still being distributed, minus what is owed, is what
the semaphore started with and was given, minus what was removed. A release is in
the books from its exchange or its critical section on; `argument` is what release
calls have been passed before that point. The other entries are the outcomes of calls. -/
theorem permit_conservation [Wake W] {permits : ℕ} (hp : permits ≤ usizeMax)
    {run : List (Action W)} (hrun : ∀ a ∈ run, a.ordinary = true) {s : State W}
    (h : (machine W).exec (new W permits) run = some s) :
    (s.available+s.assigned+s.ledger.acquired+s.remaining-s.debt : ℤ) =
      permits+s.ledger.released-s.ledger.reduced-s.ledger.drained ∧
    s.ledger.released+s.argument = passed run ∧
    ∀ a t, next s a = some t → Entered s a t := by
  obtain ⟨hI,hb⟩ := exec_balance hp h
  have hbooks := exec_books (new_inv hp) (n:=0) ⟨by simp [new],rfl,rfl⟩ hrun h
  have hneed := assigned_need hI.queue
  have hzero := hbooks.notified
  have hreleased := hbooks.released
  unfold Balance at hb
  exact ⟨by omega,by omega,fun a t => next_entered hI⟩

/-- A future asks for three permits, takes the only one there is, and is assigned
one more by a release. -/
def partialRun : List (Action ℕ) :=
  [.acquire 3,.call (.poll 0 7),.advance 0 false,.advance 0 false,.advance 0 false,
    .call (.releaseWithLock 1),.advance 1 false,.advance 1 false]

theorem permit_conservation_partialRun :
    ∃ s, (machine ℕ).exec (new ℕ 1) partialRun = some s ∧
      s.assigned = 2 ∧ s.ledger.released+s.argument = 1 ∧
      (s.available+s.assigned+s.ledger.acquired+s.remaining-s.debt : ℤ) =
        1+s.ledger.released-s.ledger.reduced-s.ledger.drained := by
  refine ⟨_,rfl,by decide,?_⟩
  have h := @permit_conservation ℕ _ 1 (by decide) partialRun (by decide) _ rfl
  exact ⟨h.2.1,h.1⟩

end Semaphore
end Asyncband
