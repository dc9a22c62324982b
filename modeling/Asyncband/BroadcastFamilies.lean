import Asyncband.BroadcastDelivery
import Asyncband.BroadcastProgress

/-! The two broadcast channels.
The unbounded one adds a `send` that always publishes. The bounded one adds producers that
wait for capacity: they take exactly the steps of `BoundedBroadcast`, and what they publish
is recorded with the call it comes from. -/
namespace Asyncband

namespace Backlog

variable {T : Type}

theorem Refines.publish {b b' : Backlog T} {n : Naive T} (h : Refines b n) {msg : T} {o : Option T}
    (hok : b.publish msg = .ok (o,b')) : Refines b' (n.push msg) ∧ b'.cursor = b.cursor ∧
      b'.tail = b.tail+1 := by
  rw [Backlog.publish] at hok
  split at hok
  · cases hr : b.publishRetained msg with
    | error message => simp [hr,Except.map] at hok
    | ok log =>
      simp only [hr,Except.map,Except.ok.injEq,Prod.mk.injEq] at hok
      rw [← hok.2]
      exact h.publishRetained hr
  · cases hr : b.publishDiscarded with
    | error message => simp [hr,Except.map] at hok
    | ok log =>
      simp only [hr,Except.map,Except.ok.injEq,Prod.mk.injEq] at hok
      rw [← hok.2]
      exact h.publishDiscarded msg hr

end Backlog

namespace BoundedBroadcast

variable {T W : Type}

/-- The value that a producer still has to publish. -/
def Stage.payload : Stage T W → Option T
  | .announcing value _ | .polling value _ _ _ | .parked value _ => some value
  | _ => none

inductive Attempt
  | published
  | full
  | panicked
  deriving DecidableEq

def attempt (s : State T W) (value : T) : Attempt :=
  match publish s value with
  | .error _ => .panicked
  | .ok (true,_) => .published
  | .ok (false,_) => .full

inductive PublishSpec (s : State T W) (value : T) : Prop
  | published (log : Backlog T) (run : publish s value = .ok (true,{s with log := log}))
      (attempt : attempt s value = .published)
      (room : s.log.hasReceivers = true → s.log.retained ≠ s.capacity)
      (pushed : ∀ n, Backlog.Refines s.log n → Backlog.Refines log (n.push value) ∧
        log.cursor = s.log.cursor ∧ log.tail = s.log.tail+1)
  | full (run : publish s value = .ok (false,s)) (attempt : attempt s value = .full)
      (receivers : s.log.hasReceivers = true) (retained : s.log.retained = s.capacity)
  | panicked (message : String) (run : publish s value = .error message)
      (attempt : attempt s value = .panicked)
      (room : s.log.hasReceivers = true → s.log.retained ≠ s.capacity)

theorem publishSpec (s : State T W) (value : T) : PublishSpec s value := by
  cases hr : s.log.hasReceivers with
  | false =>
    cases hd : s.log.publishDiscarded with
    | error message =>
      have hrun : publish s value = .error message := by
        simp only [publish,hr,if_true,hd,Except.map]
      exact .panicked message hrun (by rw [attempt,hrun]) (by simp [hr])
    | ok log =>
      have hrun : publish s value = .ok (true,{s with log := log}) := by
        simp only [publish,hr,if_true,hd,Except.map]
      exact .published log hrun (by rw [attempt,hrun]) (by simp [hr])
        fun n hn => hn.publishDiscarded value hd
  | true =>
    by_cases hfull : s.log.retained = s.capacity
    · have hrun : publish s value = .ok (false,s) := by simp [publish,hr,hfull]
      exact .full hrun (by rw [attempt,hrun]) hr hfull
    · cases hd : s.log.publishRetained value with
      | error message =>
        have hrun : publish s value = .error message := by simp [publish,hr,hfull,hd,Except.map]
        exact .panicked message hrun (by rw [attempt,hrun]) fun _ => hfull
      | ok log =>
        have hrun : publish s value = .ok (true,{s with log := log}) := by
          simp [publish,hr,hfull,hd,Except.map]
        exact .published log hrun (by rw [attempt,hrun]) (fun _ => hfull)
          fun n hn => hn.publishRetained hd

/-- Party `p` moves from one stage to another, and the backlog stays. -/
structure Shift (s s' : State T W) (p : ℕ) (old new : Stage T W) : Prop where
  old : s.parties[p]? = some old
  parties : s'.parties = s.parties.set p new
  log : s'.log = s.log

section Shifts

variable [Wake W] {s s' : State T W} {p : ℕ} {waker : W}

theorem enter_shift {op : Semaphore.Op W} {stage : ℕ → Stage T W} (h : enter s p op stage = some s') :
    ∃ n, s'.parties = s.parties.set p (stage n) ∧ s'.log = s.log := by
  obtain ⟨sem,-,rfl⟩ := Option.map_eq_some_iff.mp h
  exact ⟨_,rfl,rfl⟩

theorem acquireAndPoll_shift {value : T} (h : acquireAndPoll s p value waker = some s') :
    ∃ f n, s'.parties = s.parties.set p (.polling value waker f n) ∧ s'.log = s.log := by
  obtain ⟨sem,-,h⟩ := Option.bind_eq_some_iff.mp h
  obtain ⟨n,hparts,hlog⟩ := enter_shift h
  exact ⟨_,n,hparts,hlog⟩

theorem announce_shift (h : next s (.announce p) = some s') :
    ∃ old new, Shift s s' p old new ∧ new.payload = old.payload := by
  simp only [next] at h
  split at h
  · rename_i value waker hp
    obtain ⟨f,n,hparts,hlog⟩ := acquireAndPoll_shift h
    exact ⟨_,_,⟨hp,hparts,hlog⟩,rfl⟩
  · cases h

theorem poll_shift (h : next s (.poll p waker) = some s') :
    ∃ old new, Shift s s' p old new ∧ new.payload = old.payload := by
  simp only [next] at h
  split at h
  · rename_i value future hp
    obtain ⟨n,hparts,hlog⟩ := enter_shift h
    exact ⟨_,_,⟨hp,hparts,hlog⟩,rfl⟩
  · cases h

theorem cancel_shift (h : next s (.cancel p) = some s') :
    ∃ old new, Shift s s' p old new ∧ new.payload = none := by
  simp only [next] at h
  split at h
  · rename_i value future hp
    cases h
    exact ⟨_,_,⟨hp,rfl,rfl⟩,rfl⟩
  · cases h

theorem leave_shift (h : next s (.leave p) = some s') :
    ∃ old new, Shift s s' p old new ∧ new.payload = old.payload := by
  simp only [next] at h
  split at h
  · rename_i future hp
    obtain ⟨n,hparts,hlog⟩ := enter_shift h
    exact ⟨_,_,⟨hp,hparts,hlog⟩,rfl⟩
  · cases h

theorem load_shift (h : next s (.load p) = some s') :
    ∃ old new, Shift s s' p old new ∧ new.payload = old.payload := by
  simp only [next] at h
  split at h
  · rename_i freed hp
    rw [releaseReclaimed] at h
    split at h
    · obtain ⟨n,hparts,hlog⟩ := enter_shift h
      exact ⟨_,_,⟨hp,hparts,hlog⟩,rfl⟩
    · cases h
      exact ⟨_,_,⟨hp,rfl,rfl⟩,rfl⟩
  · rename_i hp
    rw [releaseAll] at h
    split at h
    · obtain ⟨n,hparts,hlog⟩ := enter_shift h
      exact ⟨_,_,⟨hp,hparts,hlog⟩,rfl⟩
    · cases h
      exact ⟨_,_,⟨hp,rfl,rfl⟩,rfl⟩
  · cases h

theorem advance_same {spurious : Bool} (h : next s (.advance p spurious) = some s') :
    s'.parties = s.parties ∧ s'.log = s.log := by
  simp only [next] at h
  split at h
  · obtain ⟨sem,-,rfl⟩ := Option.map_eq_some_iff.mp h
    exact ⟨rfl,rfl⟩
  · cases h

/-- A recheck publishes and leaves, or finds the channel full and goes on waiting. -/
theorem recheck_shift (h : next s (.recheck p) = some s') : ∃ value waker f c new,
    s.parties[p]? = some (.polling value waker f c) ∧ s'.parties = s.parties.set p new ∧
      (attempt s value = .full ∧ s'.log = s.log ∧ new.payload = some value ∨
        attempt s value = .panicked ∧ s'.log = s.log ∧ new.payload = none ∨
        attempt s value = .published ∧ new.payload = none ∧
          ∀ n, Backlog.Refines s.log n → Backlog.Refines s'.log (n.push value) ∧
            s'.log.cursor = s.log.cursor ∧ s'.log.tail = s.log.tail+1) := by
  simp only [next] at h
  split at h
  · rename_i value waker f c hp
    split at h
    · rename_i outcome hcall
      rw [recheck] at h
      cases publishSpec s value with
      | published log run att room pushed =>
        simp only [run,Option.some.injEq] at h
        rw [← h]
        exact ⟨value,waker,f,c,_,hp,rfl,.inr (.inr ⟨att,rfl,pushed⟩)⟩
      | full run att hr hret =>
        simp only [run] at h
        split at h
        · obtain ⟨f',n,hparts,hlog⟩ := acquireAndPoll_shift h
          exact ⟨value,waker,f,c,_,hp,hparts,.inl ⟨att,hlog,rfl⟩⟩
        · cases h
          exact ⟨value,waker,f,c,_,hp,rfl,.inl ⟨att,rfl,rfl⟩⟩
      | panicked message run att room =>
        simp only [run,Option.some.injEq] at h
        rw [← h]
        exact ⟨value,waker,f,c,_,hp,rfl,.inr (.inl ⟨att,rfl,rfl⟩)⟩
    · cases h
  · cases h

end Shifts
end BoundedBroadcast

namespace Broadcast

/-! ### The unbounded channel -/

structure Unbounded (T W : Type) where
  channel : Channel T W
  panicked : Option String

namespace Unbounded

variable {T W : Type}

def unbounded (T W : Type) : Unbounded T W := ⟨withFirstSubscription W .elastic,none⟩

inductive Action (T W : Type)
  | common (a : Common W)
  | send (h : ℕ) (value : T)

def send (s : Channel T W) (h : ℕ) (value : T) : Channel T W :=
  match s.inner.log.publish value with
  | .error _ => s.addSend ⟨h,value,.panicked⟩
  | .ok (_,log) => (s.addSend ⟨h,value,.completed⟩).commit s.sends.length value log

def act [Wake W] (s : Unbounded T W) : Action T W → Option (Except String (Unbounded T W))
  | .common a => (s.channel.act a).map fun r => r.map fun x => {s with channel := x.2}
  | .send h value =>
    if s.channel.isLive h then some (.ok {s with channel := send s.channel h value}) else none

instance : Transition.Faulty (Unbounded T W) String :=
  ⟨panicked,fun s message => {s with panicked := some message}⟩

abbrev next [Wake W] (s : Unbounded T W) (a : Action T W) : Option (Unbounded T W) :=
  Transition.step act s a

def machine (T W : Type) [Wake W] : Transition.Machine (Unbounded T W) (Action T W) where
  init s := s = unbounded T W
  next := next

end Unbounded

/-! ### The bounded channel -/

structure Bounded (T W : Type) where
  channel : Channel T W
  capacity : ℕ
  txPermits : Semaphore.State W
  blockedSenders : ℕ
  parties : List (BoundedBroadcast.Stage T W)
  panicked : Option String

/-- What `BoundedReceiver` does with freed capacity once the channel is unlocked. -/
def Freed.parties {T W : Type} (freed : Freed) : List (BoundedBroadcast.Stage T W) :=
  if freed.drainedLast then [.drained]
  else if freed.len = 0 then []
  else [.reclaimed freed.len]

namespace Bounded

variable {T W : Type}

def bounded (T W : Type) (capacity : ℕ) : Except String (Bounded T W) :=
  if 0 < capacity then
    .ok ⟨withFirstSubscription W .fixed,capacity,Semaphore.new W 0,0,[],none⟩
  else .error "broadcast bounded channel requires capacity > 0"

def oneSlot (T W : Type) : Bounded T W :=
  ⟨withFirstSubscription W .fixed,1,Semaphore.new W 0,0,[],none⟩

/-- The channel as its producers see it. -/
def base (s : Bounded T W) : BoundedBroadcast.State T W :=
  ⟨s.capacity,s.channel.inner.log,s.txPermits,s.blockedSenders,s.parties⟩

inductive Action (T W : Type)
  | common (a : Common W)
  /-- The first poll of a `send` future of handle `h`, as far as its `try_send`. -/
  | send (h : ℕ) (value : T) (waker : W)
  | trySend (h : ℕ) (value : T)
  | announce (i : ℕ)
  | poll (i : ℕ) (waker : W)
  | recheck (i : ℕ)
  | cancel (i : ℕ)
  | leave (p : ℕ)
  | load (p : ℕ)
  | advance (p : ℕ) (spurious : Bool)

/-- A step of the producers; `record` notes what it means for the calls. -/
def produce [Wake W] (s : Bounded T W) (a : BoundedBroadcast.Action T W)
    (record : Channel T W → Channel T W) : Option (Bounded T W) :=
  (BoundedBroadcast.next s.base a).map fun b =>
    {s with channel := record {s.channel with inner := {s.channel.inner with log := b.log}},
            capacity := b.capacity,txPermits := b.txPermits,blockedSenders := b.blockedSenders,
            parties := b.parties}

/-- A new call that published, found the channel full or panicked. -/
def newSend (s : Bounded T W) (h : ℕ) (value : T) (full : SendStage T) (c : Channel T W) : Channel T W :=
  match BoundedBroadcast.attempt s.base value with
  | .published => (c.addSend ⟨h,value,.completed⟩).commit c.sends.length value c.inner.log
  | .full => c.addSend ⟨h,value,full⟩
  | .panicked => c.addSend ⟨h,value,.panicked⟩

/-- The same for a call that waits. -/
def retrySend (s : Bounded T W) (i : ℕ) (call : Send T) (c : Channel T W) : Channel T W :=
  match BoundedBroadcast.attempt s.base call.value with
  | .published => (c.setSend i {call with stage := .completed}).commit i call.value c.inner.log
  | .full => c
  | .panicked => c.setSend i {call with stage := .panicked}

def waitingSend (s : Bounded T W) (i : ℕ) : Option (Send T × ℕ) :=
  s.channel.sends[i]?.bind fun c => c.party.map fun p => (c,p)

def act [Wake W] (s : Bounded T W) : Action T W → Option (Except String (Bounded T W))
  | .common a => (s.channel.act a).map fun r => r.map fun x =>
      {s with channel := x.2,parties := s.parties++x.1.parties}
  | .send h value waker =>
    if s.channel.isLive h then
      (s.produce (.send value waker) (s.newSend h value (.waiting s.parties.length))).map .ok
    else none
  | .trySend h value =>
    if s.channel.isLive h then
      (s.produce (.trySend value) (s.newSend h value (.full value))).map .ok
    else none
  | .announce i => (s.waitingSend i).bind fun cp => (s.produce (.announce cp.2) id).map .ok
  | .poll i waker => (s.waitingSend i).bind fun cp => (s.produce (.poll cp.2 waker) id).map .ok
  | .recheck i => (s.waitingSend i).bind fun cp =>
      (s.produce (.recheck cp.2) (s.retrySend i cp.1)).map .ok
  | .cancel i => (s.waitingSend i).bind fun cp =>
      (s.produce (.cancel cp.2) fun c => c.setSend i {cp.1 with stage := .cancelled}).map .ok
  | .leave p => (s.produce (.leave p) id).map .ok
  | .load p => (s.produce (.load p) id).map .ok
  | .advance p spurious => (s.produce (.advance p spurious) id).map .ok

instance : Transition.Faulty (Bounded T W) String :=
  ⟨panicked,fun s message => {s with panicked := some message}⟩

abbrev next [Wake W] (s : Bounded T W) (a : Action T W) : Option (Bounded T W) :=
  Transition.step act s a

def machine (T W : Type) [Wake W] : Transition.Machine (Bounded T W) (Action T W) where
  init s := ∃ capacity ≤ usizeMax, bounded T W capacity = .ok s
  next := next

end Bounded

end Broadcast
end Asyncband
