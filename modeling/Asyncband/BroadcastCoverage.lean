import Asyncband.BoundedBroadcast
import Asyncband.SemaphoreHint

/-! When a parked producer of a bounded broadcast channel is covered.
Permits are only hints, so no sum of them is conserved. What every step keeps is that a
parked producer is covered: as long as there is room in the channel, enough producers
have been told or are about to be told, or the permits in flight alone reach the parked
producer in the queue. This module states the invariant and follows it through the
critical sections and the operations on the number of blocked senders. -/
namespace Asyncband
namespace BoundedBroadcast

open Semaphore (Hint Settled isGranted owners)

variable {T W : Type}
variable {stage : Stage T W} {call : Semaphore.Call W} {f c : ℕ} {sem : Semaphore.State W}
    {op : Semaphore.Op W} {s : State T W} {value : T}

def grant (sem : Semaphore.State W) (f : ℕ) : ℕ := if isGranted sem f then 1 else 0

/-- The permits that the call still has to hand on. -/
def toHand (sem : Semaphore.State W) (c : ℕ) : ℕ := (sem.calls[c]?).elim 0 Semaphore.Call.toHand

def consumed (sem : Semaphore.State W) (c : ℕ) : ℕ :=
  if (sem.calls[c]?).any Semaphore.Call.isAcquired then 1 else 0

namespace Stage

/-- One for a `send` future that was granted a permit, or consumed one, and has not
rechecked the backlog since. -/
def granted (sem : Semaphore.State W) : Stage T W → ℕ
  | .polling _ _ f c => grant sem f+consumed sem c
  | .parked _ f => grant sem f
  | _ => 0

/-- Reclaimed messages on their way to the queue, and the permit that a leaving
`send` future passes on. -/
def inFlight (sem : Semaphore.State W) : Stage T W → ℕ
  | .leaving f => grant sem f
  | .dropping f c => grant sem f+toHand sem c
  | .reclaimed freed => freed
  | .releasing c => toHand sem c
  | _ => 0

/-- One for a `send` future among `front` that is not leaving. -/
def ahead (front : List ℕ) : Stage T W → ℕ
  | .polling _ _ f _ | .parked _ f => if f ∈ front then 1 else 0
  | _ => 0

def count (stage : Stage T W) : ℕ := stage.blocked.toNat

end Stage

namespace State

def granted (s : State T W) : ℕ := Table.total (Stage.granted s.txPermits) s.parties

def inFlight (s : State T W) : ℕ := Table.total (Stage.inFlight s.txPermits) s.parties

def ahead (s : State T W) (front : List ℕ) : ℕ := Table.total (Stage.ahead front) s.parties

def queue (s : State T W) : List ℕ := owners s.txPermits.waiters

end State

/-- A `release_all` that has not reached the queue yet. -/
def ReleasingAll (s : State T W) : Prop :=
  ∃ p : ℕ, s.parties[p]? = some .drained ∨ ∃ c, s.parties[p]? = some (.notifying c) ∧
    s.txPermits.calls[c]? = some (.started .notifyAll)

/-- The last poll of party `p` returned pending, and its future is linked. -/
def Parked (s : State T W) (p f : ℕ) : Prop :=
  (∃ value, s.parties[p]? = some (.parked value f)) ∧ f ∈ s.queue

/-- The permits in flight are enough for the future and all that stay ahead of it. -/
def InReach (s : State T W) (f : ℕ) : Prop :=
  ∃ front back, s.queue = front++f::back ∧ s.ahead front+1 ≤ s.inFlight

/-- No more messages can be published: the next attempt panics. -/
def Exhausted (s : State T W) : Prop := u64Max ≤ s.log.tail

def Covered (s : State T W) (f : ℕ) : Prop :=
  ReleasingAll s ∨ s.log.hasReceivers = true ∧
    (Exhausted s ∨ s.capacity ≤ s.log.retained+s.granted+s.inFlight ∨ InReach s f)

def Stage.Serves : Stage T W → Semaphore.Call W → Prop
  | .polling _ _ f _,call => call.intent = .poll f
  | .dropping f _,call => call = .started (.drop f)
  | .releasing _,call => ∃ n, call = .started (.releaseIfWaiters n)
  | .notifying _,call => call = .started .notifyAll
  | _,_ => False

theorem Stage.Serves.intent_cases (h : stage.Serves call ∨ call.Resting) :
    (∃ value waker f c, stage = .polling value waker f c ∧ call.intent = .poll f) ∨
      call.intent = .other ∨ call.intent = .releaseIfWaiters ∨ call.intent = .notify := by
  rcases h with h | h
  · cases stage with
    | polling value waker f c => exact Or.inl ⟨value,waker,f,c,rfl,h⟩
    | dropping f c =>
      cases h
      exact Or.inr (Or.inl rfl)
    | releasing c =>
      obtain ⟨n,rfl⟩ := h
      exact Or.inr (Or.inr (Or.inl rfl))
    | notifying c =>
      cases h
      exact Or.inr (Or.inr (Or.inr rfl))
    | _ => cases h
  · exact Or.inr (Or.inl h.1)

/-- Only a party that polls comes to acquire a permit, for the future it polls. -/
theorem Stage.Serves.polling (h : stage.Serves call ∨ call.Resting) (hintent : call.intent = .poll f) :
    ∃ value waker c, stage = .polling value waker f c := by
  rcases Stage.Serves.intent_cases h with ⟨value,waker,g,c,hs,hi⟩ | hi | hi | hi
  · cases hintent.symm.trans hi
    exact ⟨value,waker,c,hs⟩
  all_goals cases hintent.symm.trans hi

theorem Stage.Serves.dropping (h : stage.Serves call ∨ call.Resting)
    (hcall : call = .started (.drop f)) : ∃ c, stage = .dropping f c := by
  subst hcall
  rcases h with h | h
  · cases stage with
    | dropping g c =>
      cases h
      exact ⟨c,rfl⟩
    | releasing c =>
      obtain ⟨n,hn⟩ := h
      cases hn
    | _ => cases h
  · exact absurd rfl (h.2 _)

def StageOk (sem : Semaphore.State W) (stage : Stage T W) : Prop :=
  ∀ c, stage.call = some c → ∃ call, sem.calls[c]? = some call ∧
    (stage.Serves call ∨ call.Resting) ∧
    (call.isAcquired = true → ∀ f, stage.future = some f → Settled sem f)

theorem StageOk.of_none (h : stage.call = none) : StageOk sem stage := by
  intro c hc
  cases h.symm.trans hc

theorem StageOk.of_started (hcall : stage.call = some c) (hc : sem.calls[c]? = some (.started op))
    (hserves : stage.Serves (.started op)) : StageOk sem stage := by
  intro d hd
  cases hcall.symm.trans hd
  exact ⟨_,hc,Or.inl hserves,nofun⟩

structure Ok [Wake W] (s : State T W) : Prop where
  hint : Hint s.txPermits
  futures : Table.Unique Stage.future s.parties s.txPermits.acquires.length
  calls : Table.Unique Stage.call s.parties s.txPermits.calls.length
  stage : ∀ (p : ℕ) stage, s.parties[p]? = some stage → StageOk s.txPermits stage
  owned : ∀ f ∈ s.queue, ∃ stage ∈ s.parties, stage.future = some f
  counted : s.blockedSenders = Table.total Stage.count s.parties
  bounded : s.log.retained ≤ s.capacity
  covered : ∀ p f, Parked s p f → Covered s f

/-- The semaphore after a user prepared something in it. -/
structure Grown [Wake W] (sem sem' : Semaphore.State W) : Prop where
  hint : Hint sem'
  waiters : sem'.waiters = sem.waiters
  granted : ∀ f, isGranted sem' f = isGranted sem f
  settled : ∀ f, Settled sem f → Settled sem' f
  calls : ∀ c, c < sem.calls.length → sem'.calls[c]? = sem.calls[c]?
  futures_le : sem.acquires.length ≤ sem'.acquires.length
  calls_le : sem.calls.length ≤ sem'.calls.length

namespace Grown

variable [Wake W] {sem sem' sem'' : Semaphore.State W}

theorem refl (h : Hint sem) : Grown sem sem :=
  ⟨h,rfl,fun _ => rfl,fun _ hf => hf,fun _ _ => rfl,le_rfl,le_rfl⟩

theorem trans (h : Grown sem sem') (h' : Grown sem' sem'') : Grown sem sem'' where
  hint := h'.hint
  waiters := h'.waiters.trans h.waiters
  granted f := (h'.granted f).trans (h.granted f)
  settled f hf := h'.settled f (h.settled f hf)
  calls c hc := (h'.calls c (hc.trans_le h.calls_le)).trans (h.calls c hc)
  futures_le := h.futures_le.trans h'.futures_le
  calls_le := h.calls_le.trans h'.calls_le

theorem create (h : Hint sem) (hn : Semaphore.next sem (.acquire 1) = some sem') :
    Grown sem sem' ∧ sem'.calls = sem.calls ∧ sem'.acquires.length = sem.acquires.length+1 := by
  obtain ⟨hH,hu,hcalls,hlen⟩ := h.create hn
  refine ⟨⟨hH,hu.waiters,hu.isGranted h hH,hu.settled,?_,by omega,by rw [hcalls]⟩,hcalls,hlen⟩
  intro c _
  rw [hcalls]

theorem make (h : Hint sem) {op : Semaphore.Op W} (hn : Semaphore.next sem (.call op) = some sem')
    (hop : (∀ n, (Semaphore.Call.started op).intent ≠ .reduce n) ∧
      (Semaphore.Call.started op).argument = 0) :
    Grown sem sem' ∧ sem'.calls = sem.calls++[.started op] ∧
      sem'.acquires.length = sem.acquires.length := by
  obtain ⟨hH,hu,hcalls,hlen⟩ := h.make hn hop
  refine ⟨⟨hH,hu.waiters,hu.isGranted h hH,hu.settled,?_,by omega,by simp [hcalls]⟩,hcalls,hlen⟩
  intro c hc
  rw [hcalls,List.getElem?_append_left hc]

variable {stage : Stage T W}

theorem weights (h : Grown sem sem') (hcall : ∀ c, stage.call = some c → c < sem.calls.length) :
    stage.granted sem' = stage.granted sem ∧ stage.inFlight sem' = stage.inFlight sem := by
  cases stage with
  | polling value waker f c =>
    simp [Stage.granted,Stage.inFlight,grant,consumed,h.granted,h.calls c (hcall c rfl)]
  | dropping f c =>
    simp [Stage.granted,Stage.inFlight,grant,toHand,h.granted,h.calls c (hcall c rfl)]
  | releasing c => simp [Stage.granted,Stage.inFlight,toHand,h.calls c (hcall c rfl)]
  | parked | leaving => simp [Stage.granted,Stage.inFlight,grant,h.granted]
  | _ => exact ⟨rfl,rfl⟩

theorem stageOk (h : Grown sem sem') (hok : StageOk sem stage) : StageOk sem' stage := by
  intro c hcall
  obtain ⟨call,hc,hserves,hsettled⟩ := hok c hcall
  refine ⟨call,?_,hserves,fun ha f hf => h.settled f (hsettled ha f hf)⟩
  rw [h.calls c (List.getElem?_eq_some_iff.mp hc).1,hc]

end Grown

theorem publish_spec {s' : State T W} {b : Bool} (hbounded : s.log.retained ≤ s.capacity)
    (h : publish s value = .ok (b,s')) :
    ∃ log, s' = {s with log := log} ∧ log.hasReceivers = s.log.hasReceivers ∧
      s.log.tail ≤ log.tail ∧ log.retained ≤ s.capacity ∧
      (b = true → s.log.hasReceivers = true → log.retained = s.log.retained+1) ∧
      (b = false → s.log.hasReceivers = true ∧ log = s.log ∧ s.log.retained = s.capacity) := by
  unfold publish at h
  split at h
  · next hr =>
    cases hd : s.log.publishDiscarded with
    | error message => simp [hd,Except.map] at h
    | ok log =>
      simp only [hd,Except.map,Except.ok.injEq,Prod.mk.injEq] at h
      obtain ⟨rfl,rfl⟩ := h
      obtain ⟨hretained,hreceivers,htail⟩ := Backlog.publishDiscarded_retained hd
      exact ⟨log,rfl,hreceivers,htail,by omega,by simp [hr],nofun⟩
  · next hr =>
    have hr : s.log.hasReceivers = true := by simpa using hr
    split at h
    · next hfull =>
      cases h
      exact ⟨s.log,rfl,rfl,le_rfl,hbounded,nofun,fun _ => ⟨hr,rfl,hfull⟩⟩
    · next hroom =>
      cases hp : s.log.publishRetained value with
      | error message => simp [hp,Except.map] at h
      | ok log =>
        simp only [hp,Except.map,Except.ok.injEq,Prod.mk.injEq] at h
        obtain ⟨rfl,rfl⟩ := h
        obtain ⟨hretained,hreceivers,htail⟩ := Backlog.publishRetained_retained hp
        exact ⟨log,rfl,hreceivers,htail,by omega,fun _ _ => hretained,nofun⟩

theorem publish_error {message : String} (h : publish s value = .error message)
    (hr : s.log.hasReceivers = true) : Exhausted s := by
  unfold publish at h
  rw [if_neg (by simp [hr])] at h
  split at h
  · cases h
  · cases hp : s.log.publishRetained value with
    | error message => exact Backlog.publishRetained_error hr hp
    | ok log => simp [hp,Except.map] at h

theorem Covered.added (log : Backlog T) (joining : List (Stage T W))
    (hreceivers : log.hasReceivers = s.log.hasReceivers) (htail : s.log.tail ≤ log.tail)
    (hroom : s.log.hasReceivers = true →
      s.log.retained ≤ log.retained+Table.total (Stage.inFlight s.txPermits) joining)
    (hahead : ∀ front, Table.total (Stage.ahead front) joining = 0) (hf : Covered s f) :
    Covered {s with log := log,parties := s.parties++joining} f := by
  rcases hf with ⟨i,hi⟩ | ⟨hr,hover | hroomy | ⟨front,back,hqueue,hle⟩⟩
  · refine Or.inl ⟨i,hi.imp (fun h => Table.getElem?_append_old h _) fun hc => ?_⟩
    obtain ⟨c,hparty,hcall⟩ := hc
    exact ⟨c,Table.getElem?_append_old hparty _,hcall⟩
  · exact Or.inr ⟨hreceivers.trans hr,Or.inl (le_trans hover htail)⟩
  · refine Or.inr ⟨hreceivers.trans hr,Or.inr (Or.inl ?_)⟩
    have hle := hroom hr
    simp only [State.granted,State.inFlight,Table.total_append] at *
    omega
  · refine Or.inr ⟨hreceivers.trans hr,Or.inr (Or.inr ⟨front,back,hqueue,?_⟩)⟩
    have hzero := hahead front
    simp only [State.ahead,State.inFlight,Table.total_append] at *
    omega

theorem toHand_last (h : sem.calls[c]? = some (.started op)) :
    toHand sem c = (Semaphore.Call.started op).toHand := by
  simp [toHand,h]

theorem consumed_last (h : sem.calls[c]? = some (.started op)) : consumed sem c = 0 := by
  simp [consumed,h,Semaphore.Call.isAcquired]

theorem Covered.of_full (hr : s.log.hasReceivers = true) (hfull : s.log.retained = s.capacity) (f : ℕ) :
    Covered s f :=
  Or.inr ⟨hr,Or.inr (Or.inl (by omega))⟩

theorem consumed_le (sem : Semaphore.State W) (c : ℕ) : consumed sem c ≤ 1 := by
  unfold consumed
  split <;> omega

theorem Stage.ahead_le_count (stage : Stage T W) (front : List ℕ) :
    stage.ahead front ≤ stage.count := by
  have hone (f : ℕ) : (if f ∈ front then 1 else 0) ≤ 1 := by
    split <;> omega
  cases stage with
  | polling value waker f c => exact hone f
  | parked value f => exact hone f
  | _ => exact Nat.zero_le _

section Steps

variable [Wake W] {s s' : State T W} {p : ℕ} {old new : Stage T W} {waker : W} {key : SlotId} {i : ℕ}

/-- Party `p` moves from `old` to `new` while the rest of the channel is as in `s'`. -/
structure Moved (s s' : State T W) (p : ℕ) (old new : Stage T W) : Prop where
  party : s.parties[p]? = some old
  parties : s'.parties = s.parties.set p new
  grown : Grown s.txPermits s'.txPermits
  capacity : s'.capacity = s.capacity
  receivers : s'.log.hasReceivers = s.log.hasReceivers
  tail : s.log.tail ≤ s'.log.tail
  future : ∀ f, new.future = some f → old.future = some f ∨
    f = s.txPermits.acquires.length ∧ f < s'.txPermits.acquires.length
  call : ∀ c, new.call = some c → c = s.txPermits.calls.length ∧ c < s'.txPermits.calls.length

namespace Moved

section

variable (h : Moved s s' p old new)
include h

theorem queue : s'.queue = s.queue := by
  simp only [State.queue,h.grown.waiters]

theorem total (hO : Ok s) {w v : Stage T W → ℕ}
    (hw : ∀ stage, (∀ c, stage.call = some c → c < s.txPermits.calls.length) → v stage = w stage) :
    Table.total v s'.parties+w old = Table.total w s.parties+v new := by
  have hset := Table.total_set v h.party new
  have hsame : Table.total v s.parties = Table.total w s.parties := by
    unfold Table.total
    congr 1
    apply List.map_congr_left
    intro stage hstage
    obtain ⟨i,hi⟩ := List.mem_iff_getElem?.mp hstage
    exact hw stage fun c hc => hO.calls.lt i stage c hi hc
  have hold := hw old fun c hc => hO.calls.lt p old c h.party hc
  rw [h.parties]
  omega

theorem releasingAll (hdrained : old ≠ .drained) (hnotifying : ∀ c, old ≠ .notifying c)
    (hr : ReleasingAll s) : ReleasingAll s' := by
  obtain ⟨i,hi⟩ := hr
  have hne : i ≠ p := by
    rintro rfl
    rcases hi with hi | ⟨c,hi,-⟩
    · exact hdrained (Option.some.inj (h.party.symm.trans hi))
    · exact hnotifying c (Option.some.inj (h.party.symm.trans hi))
  have hsame : s'.parties[i]? = s.parties[i]? := by
    rw [h.parties,List.getElem?_set_ne (Ne.symm hne)]
  refine ⟨i,?_⟩
  rw [hsame]
  refine hi.imp id fun hc => ?_
  obtain ⟨c,hi,hc⟩ := hc
  exact ⟨c,hi,by rw [h.grown.calls c (List.getElem?_eq_some_iff.mp hc).1,hc]⟩

/-- A future stays covered when the move neither uses up more room than permits nor
takes permits away from those ahead. -/
theorem covered (hO : Ok s) (hdrained : old ≠ .drained) (hnotifying : ∀ c, old ≠ .notifying c)
    (hroom : s.log.hasReceivers = true → Exhausted s' ∨
      s.log.retained+old.granted s.txPermits+old.inFlight s.txPermits ≤
        s'.log.retained+new.granted s'.txPermits+new.inFlight s'.txPermits)
    (hreach : ∀ front, (∀ g ∈ front, g ∈ s.queue) → new.ahead front+old.inFlight s.txPermits ≤
      old.ahead front+new.inFlight s'.txPermits) (hf : Covered s f) : Covered s' f := by
  have hflight := h.total hO (w:=Stage.inFlight s.txPermits) (v:=Stage.inFlight s'.txPermits)
    fun stage hc => (h.grown.weights hc).2
  have hgranted := h.total hO (w:=Stage.granted s.txPermits) (v:=Stage.granted s'.txPermits)
    fun stage hc => (h.grown.weights hc).1
  rcases hf with hr | ⟨hreceivers,hover | hroomy | ⟨front,back,hqueue,hle⟩⟩
  · exact Or.inl (h.releasingAll hdrained hnotifying hr)
  · exact Or.inr ⟨h.receivers.trans hreceivers,Or.inl (le_trans hover h.tail)⟩
  · refine Or.inr ⟨h.receivers.trans hreceivers,(hroom hreceivers).imp id fun hr => Or.inl ?_⟩
    rw [h.capacity]
    unfold State.granted State.inFlight at *
    omega
  · refine Or.inr ⟨h.receivers.trans hreceivers,
      Or.inr (Or.inr ⟨front,back,h.queue.trans hqueue,?_⟩)⟩
    have hahead := h.total hO (w:=Stage.ahead front) (v:=Stage.ahead front) fun _ _ => rfl
    have hr := hreach front fun g hg => by simp [hqueue,hg]
    unfold State.ahead State.inFlight at *
    omega

theorem parked (hnew : ∀ value f, new ≠ .parked value f) {i : ℕ} (hf : Parked s' i f) :
    Parked s i f := by
  obtain ⟨⟨value,hi⟩,hqueue⟩ := hf
  rw [h.parties] at hi
  rw [h.queue] at hqueue
  rcases Table.getElem?_set_cases hi with ⟨-,heq⟩ | ⟨-,hi⟩
  · exact absurd heq.symm (hnew value f)
  · exact ⟨⟨value,hi⟩,hqueue⟩

theorem ok (hO : Ok s) (hstage : StageOk s'.txPermits new)
    (hkeep : ∀ f ∈ s.queue, old.future = some f → new.future = some f)
    (hcounted : s'.blockedSenders+old.count = s.blockedSenders+new.count)
    (hbounded : s'.log.retained ≤ s'.capacity) (hcovered : ∀ i f, Parked s' i f → Covered s' f) :
    Ok s' where
  hint := h.grown.hint
  futures := by
    rw [h.parties]
    apply (hO.futures.mono h.grown.futures_le).set
    · intro f hf
      rcases h.future f hf with hold | ⟨-,hlt⟩
      · exact (hO.futures.lt p old f h.party hold).trans_le h.grown.futures_le
      · exact hlt
    · intro j stage k hj hstage hk hnew
      rcases h.future k hnew with hold | ⟨rfl,-⟩
      · exact hO.futures.ne h.party hstage hj hold hk rfl
      · exact Nat.lt_irrefl _ (hO.futures.lt j stage _ hstage hk)
  calls := by
    rw [h.parties]
    apply (hO.calls.mono h.grown.calls_le).set
    · exact fun c hc => (h.call c hc).2
    · intro j stage k hj hstage hk hnew
      obtain ⟨rfl,-⟩ := h.call k hnew
      exact Nat.lt_irrefl _ (hO.calls.lt j stage _ hstage hk)
  stage := by
    intro i stage hi
    rw [h.parties] at hi
    rcases Table.getElem?_set_cases hi with ⟨-,rfl⟩ | ⟨-,hi⟩
    · exact hstage
    · exact h.grown.stageOk (hO.stage i stage hi)
  owned := by
    intro f hf
    rw [h.queue] at hf
    rw [h.parties]
    obtain ⟨stage,hmem,hfuture⟩ := hO.owned f hf
    obtain ⟨i,hi⟩ := List.mem_iff_getElem?.mp hmem
    by_cases hip : i = p
    · subst hip
      cases h.party.symm.trans hi
      exact ⟨new,List.mem_of_getElem? (Table.getElem?_set_self' h.party new),hkeep f hf hfuture⟩
    · refine ⟨stage,List.mem_of_getElem? (i := i) ?_,hfuture⟩
      rw [List.getElem?_set_ne (Ne.symm hip),hi]
  counted := by
    have htotal := h.total hO (w:=Stage.count) (v:=Stage.count) fun _ _ => rfl
    have hold := hO.counted
    omega
  bounded := hbounded
  covered := hcovered

end

end Moved

theorem enter_moved {op : Semaphore.Op W} {stage : ℕ → Stage T W} (n : ℕ) (hO : Ok s)
    (hp : s.parties[p]? = some old)
    (h : enter {s with blockedSenders := n} p op stage = some s')
    (hop : (∀ n, (Semaphore.Call.started op).intent ≠ .reduce n) ∧
      (Semaphore.Call.started op).argument = 0)
    (hfuture : ∀ c, (stage c).future = old.future) (hcall : ∀ c, (stage c).call = some c) :
    Moved s s' p old (stage s.txPermits.calls.length) ∧
      s'.txPermits.calls[s.txPermits.calls.length]? = some (.started op) ∧
      s'.blockedSenders = n ∧ s'.log = s.log := by
  obtain ⟨sem,hn,rfl⟩ := Option.map_eq_some_iff.mp h
  obtain ⟨hgrown,hcalls,-⟩ := Grown.make hO.hint hn hop
  refine ⟨⟨hp,rfl,hgrown,rfl,rfl,le_rfl,?_,?_⟩,by simp [hcalls,State.setParty],rfl,rfl⟩
  · intro f hf
    exact Or.inl ((hfuture _).symm.trans hf)
  · intro c hc
    have heq : s.txPermits.calls.length = c := Option.some.inj ((hcall _).symm.trans hc)
    show c = s.txPermits.calls.length ∧ c < sem.calls.length
    rw [hcalls,List.length_append,List.length_singleton]
    omega

theorem acquireAndPoll_moved (n : ℕ) (hO : Ok s) (hp : s.parties[p]? = some old)
    (h : acquireAndPoll {s with blockedSenders := n} p value waker = some s') :
    Moved s s' p old
        (.polling value waker s.txPermits.acquires.length s.txPermits.calls.length) ∧
      s'.txPermits.calls[s.txPermits.calls.length]? =
        some (.started (.poll s.txPermits.acquires.length waker)) ∧
      s'.blockedSenders = n ∧ s'.log = s.log := by
  obtain ⟨sem₁,hn,h⟩ := Option.bind_eq_some_iff.mp h
  obtain ⟨hgrown₁,hcalls₁,hlen₁⟩ := Grown.create hO.hint hn
  obtain ⟨sem,hn,rfl⟩ := Option.map_eq_some_iff.mp h
  obtain ⟨hgrown,hcalls,hlen⟩ := Grown.make hgrown₁.hint hn ⟨nofun,rfl⟩
  rw [hcalls₁] at hcalls
  refine ⟨⟨hp,?_,hgrown₁.trans hgrown,rfl,rfl,le_rfl,?_,?_⟩,by simp [hcalls,State.setParty],rfl,rfl⟩
  · show s.parties.set p (.polling value waker _ sem₁.calls.length) = _
    rw [hcalls₁]
  · intro f hf
    cases hf
    refine Or.inr ⟨rfl,?_⟩
    show s.txPermits.acquires.length < sem.acquires.length
    omega
  · intro c hc
    cases hc
    refine ⟨rfl,?_⟩
    show s.txPermits.calls.length < sem.calls.length
    rw [hcalls,List.length_append,List.length_singleton]
    omega

section

variable (hO : Ok s)
include hO

/-- The backlog changes and at most one party joins, which is not in the semaphore. -/
theorem Ok.added (log : Backlog T) (joining : List (Stage T W))
    (hjoin : ∀ stage ∈ joining, stage.future = none ∧ stage.call = none ∧ stage.count = 0)
    (hone : joining = [] ∨ ∃ stage, joining = [stage]) (hbounded : log.retained ≤ s.capacity)
    (hcovered : ∀ p f, Parked s p f → Covered {s with log := log,parties := s.parties++joining} f) :
    Ok {s with log := log,parties := s.parties++joining} where
  hint := hO.hint
  futures := by
    rcases hone with rfl | ⟨stage,rfl⟩
    · simpa using hO.futures
    · exact hO.futures.push (hjoin stage (by simp)).1
  calls := by
    rcases hone with rfl | ⟨stage,rfl⟩
    · simpa using hO.calls
    · exact hO.calls.push (hjoin stage (by simp)).2.1
  stage := by
    intro i stage hi
    rcases List.mem_append.mp (List.mem_of_getElem? hi) with hmem | hmem
    · obtain ⟨j,hj⟩ := List.mem_iff_getElem?.mp hmem
      exact hO.stage j stage hj
    · exact .of_none (hjoin stage hmem).2.1
  owned := by
    intro f hf
    obtain ⟨stage,hmem,hfuture⟩ := hO.owned f hf
    exact ⟨stage,List.mem_append_left _ hmem,hfuture⟩
  counted := by
    have hzero : Table.total Stage.count joining = 0 :=
      Table.total_eq_zero.mpr fun i stage hi => (hjoin stage (List.mem_of_getElem? hi)).2.2
    rw [Table.total_append,hzero]
    exact hO.counted
  bounded := hbounded
  covered := by
    rintro i f ⟨⟨value,hi⟩,hqueue⟩
    rcases List.mem_append.mp (List.mem_of_getElem? hi) with hmem | hmem
    · obtain ⟨j,hj⟩ := List.mem_iff_getElem?.mp hmem
      exact hcovered j f ⟨⟨value,hj⟩,hqueue⟩
    · cases (hjoin _ hmem).1

theorem Ok.published {b : Bool} (h : publish s value = .ok (b,s')) (joining : List (Stage T W))
    (hjoin : ∀ stage ∈ joining, stage.future = none ∧ stage.call = none ∧ stage.count = 0)
    (hone : joining = [] ∨ ∃ stage, joining = [stage])
    (hahead : ∀ front, Table.total (Stage.ahead front) joining = 0) :
    Ok {s' with parties := s'.parties++joining} := by
  obtain ⟨log,rfl,hreceivers,htail,hbounded,htrue,hfalse⟩ := publish_spec hO.bounded h
  refine hO.added log joining hjoin hone hbounded fun p f hp => ?_
  refine (hO.covered p f hp).added log joining hreceivers htail (fun hr => ?_) hahead
  cases b with
  | true =>
    have hretained := htrue rfl hr
    omega
  | false =>
    rw [(hfalse rfl).2.1]
    exact Nat.le_add_right _ _

theorem send_ok (h : next s (.send value waker) = some s') : Ok s' := by
  simp only [next] at h
  split at h
  · cases h
    exact hO
  · next s₁ hp =>
    cases h
    simpa using hO.published hp [] (by simp) (by simp) (by simp)
  · next s₁ hp =>
    cases h
    exact hO.published hp [.announcing value waker] (by simp [Stage.future,Stage.call,Stage.count,
      Stage.blocked]) (by simp) (by simp [Stage.ahead])

theorem trySend_ok (h : next s (.trySend value) = some s') : Ok s' := by
  simp only [next] at h
  split at h
  · cases h
    exact hO
  · next b s₁ hp =>
    cases h
    simpa using hO.published hp [] (by simp) (by simp) (by simp)

theorem subscribe_ok (h : next s .subscribe = some s') : Ok s' := by
  cases h
  obtain ⟨hretained,hreceivers,htail⟩ := s.log.subscribe_retained
  have hok := hO.added s.log.subscribe.2 [] (by simp) (by simp)
    (by rw [hretained]; exact hO.bounded) fun p f hp => by
      -- without a receiver only a `release_all` covers the future
      rcases hO.covered p f hp with hr | ⟨hr,hc⟩
      · exact Or.inl (by simpa [ReleasingAll] using hr)
      · exact Covered.added _ [] (hreceivers.trans hr.symm) htail.ge (fun _ => by simp [hretained])
          (by simp) (Or.inr ⟨hr,hc⟩)
  simpa using hok

theorem receive_ok (h : next s (.receive key) = some s') : Ok s' := by
  simp only [next,receive] at h
  split at h
  · next hkey =>
    split at h
    · cases h
    · next received log hr =>
      obtain ⟨hretained,hreceivers,htail⟩ := Backlog.receive_retained hkey hr
      have hbounded := hO.bounded
      split at h
      · next hreclaimed =>
        cases h
        cases received with
        | none => cases hreclaimed
        | some r =>
          have hone : r.reclaimed = true := hreclaimed
          simp only [Option.elim_some,hone,Bool.toNat_true] at hretained
          refine hO.added log [.reclaimed 1] (by simp [Stage.future,Stage.call,Stage.count,
            Stage.blocked]) (by simp) (by omega) fun p f hp => ?_
          refine (hO.covered p f hp).added log _ hreceivers htail.ge (fun _ => ?_) (by simp [Stage.ahead])
          simp only [Table.total_cons,Table.total_nil,Stage.inFlight]
          omega
      · next hreclaimed =>
        cases h
        have hzero : received.elim 0 (fun r => r.reclaimed.toNat) = 0 := by
          cases received with
          | none => rfl
          | some r =>
            have hkept : r.reclaimed = false := by simpa using hreclaimed
            simp [hkept]
        rw [hzero] at hretained
        have hok := hO.added log [] (by simp) (by simp) (by omega) fun p f hp =>
          (hO.covered p f hp).added log [] hreceivers htail.ge (fun _ => by simp; omega) (by simp)
        simpa using hok
  · cases h

theorem dropReceiver_ok (h : next s (.dropReceiver key) = some s') : Ok s' := by
  simp only [next,dropReceiver] at h
  split at h
  · next hkey =>
    split at h
    · cases h
    · next reclaimed log hr =>
      obtain ⟨hretained,htail⟩ := Backlog.removeReceiver_retained hkey hr
      have hbounded := hO.bounded
      have hbefore : s.log.hasReceivers = true := by
        obtain ⟨c,hc⟩ := Option.isSome_iff_exists.mp hkey
        exact s.log.hasReceivers_iff.mpr ⟨key,c,hc⟩
      split at h
      · cases h
        refine hO.added log [.drained] (by simp [Stage.future,Stage.call,Stage.count,
          Stage.blocked]) (by simp) (by omega) fun p f hp => ?_
        exact Or.inl ⟨s.parties.length,Or.inl (by simp)⟩
      · next hafter =>
        have hreceivers : log.hasReceivers = s.log.hasReceivers := by
          rw [hbefore]
          simpa using hafter
        split at h
        · next hlen =>
          cases h
          have hok := hO.added log [] (by simp) (by simp) (by omega) fun p f hp =>
            (hO.covered p f hp).added log [] hreceivers htail.ge (fun _ => by simp; omega) (by simp)
          simpa using hok
        · cases h
          refine hO.added log [.reclaimed reclaimed.len] (by simp [Stage.future,Stage.call,
            Stage.count,Stage.blocked]) (by simp) (by omega) fun p f hp => ?_
          refine (hO.covered p f hp).added log _ hreceivers htail.ge (fun _ => ?_) (by simp [Stage.ahead])
          simp only [Table.total_cons,Table.total_nil,Stage.inFlight]
          omega
  · cases h

theorem Ok.fresh : s.txPermits.acquires.length ∉ s.queue := by
  intro hf
  obtain ⟨stage,hmem,hfuture⟩ := hO.owned _ hf
  obtain ⟨i,hi⟩ := List.mem_iff_getElem?.mp hmem
  exact Nat.lt_irrefl _ (hO.futures.lt i stage _ hi hfuture)

theorem announce_ok (h : next s (.announce p) = some s') : Ok s' := by
  simp only [next] at h
  split at h
  · next value waker hp =>
    obtain ⟨hmove,hcall,hblocked,hlog⟩ := acquireAndPoll_moved _ hO hp h
    refine hmove.ok hO (.of_started rfl hcall rfl) nofun (by rw [hblocked]; rfl)
      (by rw [hlog,hmove.capacity]; exact hO.bounded) fun i f hf => ?_
    refine hmove.covered hO nofun (fun _ => nofun) ?_ ?_ (hO.covered i f (hmove.parked nofun hf))
    · intro _
      right
      simp [Stage.granted,Stage.inFlight,hlog]
    · intro front hfront
      have hnot : s.txPermits.acquires.length ∉ front := fun hm => hO.fresh (hfront _ hm)
      simp [Stage.ahead,Stage.inFlight,hnot]
  · cases h

theorem poll_ok (h : next s (.poll p waker) = some s') : Ok s' := by
  simp only [next] at h
  split at h
  · next value f hp =>
    obtain ⟨hmove,hcall,hblocked,hlog⟩ := enter_moved s.blockedSenders hO hp h ⟨nofun,rfl⟩
      (fun _ => rfl) (fun _ => rfl)
    refine hmove.ok hO (.of_started rfl hcall rfl) (fun _ _ hf => hf)
      (by rw [hblocked]; rfl) (by rw [hlog,hmove.capacity]; exact hO.bounded) fun i g hg => ?_
    refine hmove.covered hO nofun (fun _ => nofun) ?_ ?_ (hO.covered i g (hmove.parked nofun hg))
    · intro _
      right
      simp [Stage.granted,Stage.inFlight,grant,hmove.grown.granted,consumed_last hcall,hlog]
    · intro front _
      simp [Stage.ahead,Stage.inFlight]
  · cases h

theorem cancel_ok (h : next s (.cancel p) = some s') : Ok s' := by
  simp only [next] at h
  split at h
  · next value f hp =>
    cases h
    have hmove : Moved s (s.setParty p (.leaving f)) p (.parked value f) (.leaving f) :=
      ⟨hp,rfl,.refl hO.hint,rfl,rfl,le_rfl,fun _ hf => Or.inl hf,nofun⟩
    refine hmove.ok hO (.of_none rfl) (fun _ _ hf => hf) rfl hO.bounded fun i g hg => ?_
    refine hmove.covered hO nofun (fun _ => nofun) ?_ ?_ (hO.covered i g (hmove.parked nofun hg))
    · intro _
      right
      simp [Stage.granted,Stage.inFlight,State.setParty]
    · intro front _
      simp [Stage.ahead,Stage.inFlight]
  · cases h

theorem leave_ok (h : next s (.leave p) = some s') : Ok s' := by
  simp only [next] at h
  split at h
  · next f hp =>
    obtain ⟨hmove,hcall,hblocked,hlog⟩ := enter_moved _ hO hp h ⟨nofun,rfl⟩ (fun _ => rfl)
      (fun _ => rfl)
    have hpos : 1 ≤ s.blockedSenders := by
      rw [hO.counted]
      exact Table.le_total Stage.count hp
    refine hmove.ok hO (.of_started rfl hcall rfl) (fun _ _ hf => hf) ?_
      (by rw [hlog,hmove.capacity]; exact hO.bounded) fun i g hg => ?_
    · rw [hblocked]
      show s.blockedSenders-1+1 = s.blockedSenders+0
      omega
    · refine hmove.covered hO nofun (fun _ => nofun) ?_ ?_
        (hO.covered i g (hmove.parked nofun hg))
      · intro _
        right
        simp [Stage.granted,Stage.inFlight,grant,hmove.grown.granted,hlog]
      · intro front _
        simp [Stage.ahead,Stage.inFlight,grant,hmove.grown.granted]
  · cases h

theorem recheck_left {c : ℕ} {log : Backlog T} (hp : s.parties[p]? = some (.polling value waker f c))
    (hreceivers : log.hasReceivers = s.log.hasReceivers) (htail : s.log.tail ≤ log.tail)
    (hbounded : log.retained ≤ s.capacity) (hroom : s.log.hasReceivers = true → u64Max ≤ log.tail ∨
      s.log.retained+consumed s.txPermits c ≤ log.retained) :
    Ok ({s with log := log}.setParty p (.leaving f)) := by
  have hmove : Moved s ({s with log := log}.setParty p (.leaving f)) p
      (.polling value waker f c) (.leaving f) :=
    ⟨hp,rfl,.refl hO.hint,rfl,hreceivers,htail,fun _ hf => Or.inl hf,nofun⟩
  refine hmove.ok hO (.of_none rfl) (fun _ _ hf => hf) rfl hbounded fun i g hg => ?_
  refine hmove.covered hO nofun (fun _ => nofun) ?_ ?_ (hO.covered i g (hmove.parked nofun hg))
  · intro hr
    refine (hroom hr).imp id fun hle => ?_
    simp only [Stage.granted,Stage.inFlight,State.setParty]
    omega
  · intro front _
    simp [Stage.ahead,Stage.inFlight]

theorem recheck_ok (h : next s (.recheck p) = some s') : Ok s' := by
  simp only [next] at h
  split at h
  · next value waker f c hp =>
    split at h
    · next outcome hc =>
      obtain ⟨call,hc',-,hsettled⟩ := hO.stage p _ hp c rfl
      cases hc.symm.trans hc'
      unfold recheck at h
      split at h
      · next message hpub =>
        cases h
        exact recheck_left hO hp rfl le_rfl hO.bounded fun hr => Or.inl (publish_error hpub hr)
      · next s₁ hpub =>
        cases h
        obtain ⟨log,rfl,hreceivers,htail,hbounded,htrue,-⟩ := publish_spec hO.bounded hpub
        refine recheck_left hO hp hreceivers htail hbounded fun hr => Or.inr ?_
        have hle := consumed_le s.txPermits c
        rw [htrue rfl hr]
        omega
      · next s₁ hpub =>
        obtain ⟨log,rfl,-,-,-,-,hfalse⟩ := publish_spec hO.bounded hpub
        obtain ⟨hr,rfl,hfull⟩ := hfalse rfl
        split at h
        · next hout =>
          subst hout
          obtain ⟨hmove,hcall,hblocked,hlog⟩ := acquireAndPoll_moved s.blockedSenders hO hp h
          refine hmove.ok hO (.of_started rfl hcall rfl) ?_ (by rw [hblocked]; rfl)
            (by rw [hlog,hmove.capacity]; exact hO.bounded) fun i g _ => ?_
          · intro g hg hfuture
            cases hfuture
            exact absurd (Semaphore.queued_of_mem_owners hO.hint.inv.queue hg)
              (hsettled rfl f rfl).not_queued
          · exact .of_full (by rw [hlog,hr]) (by rw [hlog,hmove.capacity,hfull]) g
        · cases h
          have hmove : Moved s (s.setParty p (.parked value f)) p
              (.polling value waker f c) (.parked value f) :=
            ⟨hp,rfl,.refl hO.hint,rfl,rfl,le_rfl,fun _ hf => Or.inl hf,nofun⟩
          exact hmove.ok hO (.of_none rfl) (fun _ _ hf => hf) rfl hO.bounded
            fun _ g _ => .of_full (s:=s.setParty p _) hr hfull g
    · cases h
  · cases h

theorem Ok.no_parked (hzero : ¬0 < s.blockedSenders) : ¬Parked s i f := by
  rintro ⟨⟨value,hi⟩,-⟩
  have hle : 1 ≤ Table.total Stage.count s.parties := Table.le_total Stage.count hi
  rw [← hO.counted] at hle
  omega

/-- The futures that stay in front of a parked one are all counted, and so is it. -/
theorem Ok.ahead_lt (hp : Parked s i f) {front back : List ℕ} (hqueue : s.queue = front++f::back) :
    s.ahead front+1 ≤ s.blockedSenders := by
  obtain ⟨⟨value,hi⟩,-⟩ := hp
  have hnd : (front++f::back).Nodup := hqueue ▸ hO.hint.nodup
  have hf : f ∉ front := fun hm =>
    List.disjoint_of_nodup_append hnd hm (by simp)
  have hahead := Table.total_set (Stage.ahead front) hi .done
  have hcount := Table.total_set Stage.count hi .done
  have hle : Table.total (Stage.ahead front) (s.parties.set i .done) ≤
      Table.total Stage.count (s.parties.set i .done) := by
    apply Table.total_le
    exact fun stage _ => stage.ahead_le_count front
  simp only [Stage.ahead,hf,if_false] at hahead
  simp only [Stage.count,Stage.blocked,Bool.toNat_true,Bool.toNat_false] at hcount
  rw [hO.counted]
  unfold State.ahead
  omega

theorem load_ok (h : next s (.load p) = some s') : Ok s' := by
  simp only [next] at h
  split at h
  · next freed hp =>
    unfold releaseReclaimed at h
    split at h
    · next hpos =>
      obtain ⟨hmove,hcall,hblocked,hlog⟩ := enter_moved s.blockedSenders hO hp h ⟨nofun,rfl⟩
        (fun _ => rfl) (fun _ => rfl)
      have hhand := toHand_last hcall
      refine hmove.ok hO (.of_started rfl hcall ⟨_,rfl⟩) nofun (by rw [hblocked]; rfl)
        (by rw [hlog,hmove.capacity]; exact hO.bounded) fun i f hf => ?_
      have hparked := hmove.parked nofun hf
      have hcovered := hO.covered i f hparked
      by_cases hle : freed ≤ s.blockedSenders
      · rw [Nat.min_eq_left hle] at hhand
        refine hmove.covered hO nofun (fun _ => nofun) ?_ ?_ hcovered
        · intro _
          right
          simp [Stage.granted,Stage.inFlight,hhand,Semaphore.Call.toHand,hlog]
        · intro front _
          simp [Stage.ahead,Stage.inFlight,hhand,Semaphore.Call.toHand]
      · -- every blocked future gets a permit, so all of the queue is in reach
        rcases hcovered with hr | ⟨hr,-⟩
        · exact Or.inl (hmove.releasingAll nofun (fun _ => nofun) hr)
        · obtain ⟨front,back,hqueue⟩ := List.append_of_mem hparked.2
          refine Or.inr ⟨hmove.receivers.trans hr,
            Or.inr (Or.inr ⟨front,back,hmove.queue.trans hqueue,?_⟩)⟩
          have hahead := hO.ahead_lt hparked hqueue
          have hsame := hmove.total hO (w:=Stage.ahead front) (v:=Stage.ahead front) fun _ _ => rfl
          have hflight : Stage.inFlight s'.txPermits (.releasing s.txPermits.calls.length) ≤
              s'.inFlight :=
            Table.le_total _ (hmove.parties ▸ Table.getElem?_set_self' hp _)
          simp only [Stage.inFlight,hhand,Semaphore.Call.toHand] at hflight
          simp only [Stage.ahead] at hsame
          unfold State.ahead at *
          omega
    · next hzero =>
      cases h
      have hmove : Moved s (s.setParty p .done) p (.reclaimed freed) .done :=
        ⟨hp,rfl,.refl hO.hint,rfl,rfl,le_rfl,nofun,nofun⟩
      exact hmove.ok hO (.of_none rfl) nofun rfl hO.bounded fun i f hf =>
        absurd (hmove.parked nofun hf) (hO.no_parked hzero)
  · next hp =>
    unfold releaseAll at h
    split at h
    · obtain ⟨hmove,hcall,hblocked,hlog⟩ := enter_moved s.blockedSenders hO hp h ⟨nofun,rfl⟩
        (fun _ => rfl) (fun _ => rfl)
      refine hmove.ok hO (.of_started rfl hcall rfl) nofun (by rw [hblocked]; rfl)
        (by rw [hlog,hmove.capacity]; exact hO.bounded) fun i f hf => ?_
      exact Or.inl ⟨p,Or.inr ⟨_,hmove.parties ▸ Table.getElem?_set_self' hp _,hcall⟩⟩
    · next hzero =>
      cases h
      have hmove : Moved s (s.setParty p .done) p .drained .done :=
        ⟨hp,rfl,.refl hO.hint,rfl,rfl,le_rfl,nofun,nofun⟩
      exact hmove.ok hO (.of_none rfl) nofun rfl hO.bounded fun i f hf =>
        absurd (hmove.parked nofun hf) (hO.no_parked hzero)
  · cases h

end

end Steps

end BoundedBroadcast
end Asyncband
