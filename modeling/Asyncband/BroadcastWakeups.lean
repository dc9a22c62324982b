import Asyncband.BroadcastRuns

/-! Registrations of pending `recv` futures of a broadcast channel. -/
namespace Asyncband
namespace Broadcast

variable {T W : Type}

/-- The future is pending, its receiver has nothing to read and there are senders. -/
structure Channel.Seated (s : Channel T W) (f : ℕ) (c : Recv T W) (id : SlotId) : Prop where
  recv : s.recvs[f]? = some c
  token : c.token = some id
  caughtUp : ∃ x, s.receivers[c.receiver]? = some x ∧ s.inner.log.unread x.key = .ok 0
  senders : s.senders ≠ 0

structure Registered [Wake W] (s : Channel T W) : Prop where
  owned : ∀ f c id, s.Seated f c id → s.Holds id c
  distinct : ∀ f g c d id, s.Seated f c id → s.Seated g d id → f = g
  /-- The task was woken since its latest poll if it has something to find. -/
  woken : ∀ (f : ℕ) c id x, s.recvs[f]? = some c → c.token = some id →
    s.receivers[c.receiver]? = some x →
    (∃ n, s.inner.log.unread x.key = .ok n ∧ n ≠ 0) ∨
      s.senders = 0 ∧ SenderStage.disconnecting ∉ s.handles → s.Woken c
  disconnected : ∀ k freed t, s.act (.finishDrop k) = some (.ok (freed,t)) →
    t.woken = s.woken++s.inner.waiters.wakeAll ∧ ∀ id, t.inner.waiters.wakers.get? id = none
  /-- A cancellation takes the waker of a seated future out of its slot and no other. -/
  cancelled : ∀ f freed t, s.act (.cancelRecv f) = some (.ok (freed,t)) → ∀ id,
    t.inner.waiters.wakers.get? id = s.inner.waiters.wakers.get? id ∨
      (∃ c, s.Seated f c id) ∧ t.inner.waiters.wakers.get? id = none

section Registered

variable [Wake W] {s : Channel T W}

theorem Ok.unread_zero_iff (h : Ok s) {r : ℕ} {x : Receiver T} (hx : s.receivers[r]? = some x)
    (hl : x.live = true) : s.inner.log.unread x.key = .ok 0 ↔ s.caughtUp r = true := by
  have hpos := h.subscribed.position r x hx hl
  have hle := (Backlog.cursor_bounds hpos).2
  rw [h.caughtUp_iff hx hl,Backlog.unread,hpos]
  simp only [Except.ok.injEq]
  omega

theorem Ok.seated_iff (h : Ok s) {f : ℕ} {c : Recv T W} {id : SlotId} (hc : s.recvs[f]? = some c) :
    s.Seated f c id ↔ s.senders ≠ 0 ∧ s.seat c = some id := by
  constructor
  · rintro ⟨-,ht,⟨x,hx,hun⟩,hs⟩
    obtain ⟨x',hx',hl,-⟩ := h.row hc (Recv.isLive_of_token ht)
    cases hx.symm.trans hx'
    exact ⟨hs,by rw [Channel.seat,if_pos ((h.unread_zero_iff hx hl).mp hun),ht]⟩
  · rintro ⟨hs,hseat⟩
    rw [Channel.seat] at hseat
    split at hseat
    · rename_i hcaught
      obtain ⟨x,hx,hl,-⟩ := h.row hc (Recv.isLive_of_token hseat)
      exact ⟨hc,hseat,⟨x,hx,(h.unread_zero_iff hx hl).mpr hcaught⟩,hs⟩
    · cases hseat

theorem Ok.registered (h : Ok s) : Registered s := by
  constructor
  case owned =>
    intro f c id hseated
    obtain ⟨hs,hseat⟩ := (h.seated_iff hseated.recv).mp hseated
    obtain ⟨waker,hw,hr⟩ := (h.watched.enrolled hs).held f id
      ((Channel.slot_eq hseated.recv).trans hseat)
    rw [Channel.latest,Table.lookup_eq hseated.recv] at hr
    exact ⟨waker,hw,hr⟩
  case distinct =>
    intro f g c d id hf hg
    obtain ⟨hs,hseat⟩ := (h.seated_iff hf.recv).mp hf
    obtain ⟨-,hseat'⟩ := (h.seated_iff hg.recv).mp hg
    exact (h.watched.enrolled hs).inj f g id ((Channel.slot_eq hf.recv).trans hseat)
      ((Channel.slot_eq hg.recv).trans hseat')
  case woken =>
    intro f c id x hc ht hx hfind
    obtain ⟨x',hx',hl,-⟩ := h.row hc (Recv.isLive_of_token ht)
    cases hx.symm.trans hx'
    rcases h.watched.watched f c id hc ht with hw | ⟨hcaught,hopen⟩
    · exact hw
    · rcases hfind with ⟨n,hun,hne⟩ | ⟨hzero,hnot⟩
      · rw [(h.unread_zero_iff hx hl).mpr hcaught] at hun
        cases hun
        exact absurd rfl hne
      · rcases hopen with hs | ⟨hmem,-⟩
        · exact absurd hzero hs
        · exact absurd hmem hnot
  case disconnected =>
    intro k freed t hrun
    simp only [Channel.act] at hrun
    split at hrun <;> cases hrun
    exact ⟨rfl,Arena.get?_new⟩
  case cancelled =>
    intro f freed t hrun id
    obtain ⟨⟨c,x⟩,hlive,hrun⟩ := Option.map_eq_some_iff.mp hrun
    obtain ⟨hc,hl,hx⟩ := Channel.liveRecv_eq_some.mp hlive
    obtain ⟨u,hu,-,-,hget⟩ := h.dropRecv hc hl hx
    cases hu.symm.trans hrun
    rcases hget id with hsame | ⟨hs,hseat,hnone⟩
    · exact .inl hsame
    · exact .inr ⟨⟨c,(h.seated_iff hc).mpr ⟨hs,hseat⟩⟩,hnone⟩

end Registered

/-- In both broadcast channels pending receivers are registered as long as that matters,
and woken when it stops to. -/
theorem recv_registrations (T W : Type) [Wake W] :
    (∀ s : Unbounded T W, (Unbounded.machine T W).Reachable s → Registered s.channel ∧
      s.panicked = none ∧ (∀ a x, s.act a = some x → ∃ t, x = .ok t) ∧
      ∀ a t, s.next a = some t → Law s.channel t.channel) ∧
    ∀ s : Bounded T W, (Bounded.machine T W).Reachable s → Registered s.channel ∧
      s.panicked = none ∧ (∀ a x, s.act a = some x → ∃ t, x = .ok t) ∧
      ∀ a t, s.next a = some t → Law s.channel t.channel := by
  constructor
  · intro s h
    obtain ⟨hok,hpan⟩ := Unbounded.reachable_ok h
    refine ⟨hok.registered,hpan,fun a x hx => ?_,fun a t hn => ?_⟩
    · obtain ⟨t,ht,-⟩ := Unbounded.act_ok hok hx
      exact ⟨t,ht⟩
    · obtain ⟨-,-,-,hlaw⟩ := Unbounded.next_ok hok hn
      exact hlaw
  · intro s h
    have hinv := Bounded.reachable_invariant h
    refine ⟨hinv.sound.channel.registered,hinv.panicked,fun a x hx => ?_,fun a t hn => ?_⟩
    · obtain ⟨t,ht,-⟩ := Bounded.act_stepped hinv.sound hx
      exact ⟨t,ht⟩
    · exact (Bounded.next_stepped hinv.sound hn).2.law

/-- A woken future is cancelled after another receiver took over its slot. -/
def reuseRun : List (Unbounded.Action ℕ ℕ) :=
  [.common (.recv 0),.common (.pollRecv 0 7),.send 0 41,.common (.subscribe 0),.common (.recv 1),
   .common (.pollRecv 1 8),.common (.cancelRecv 0)]

/-- The last sender goes while a receiver of the bounded channel is pending. -/
def goneRun : List (Bounded.Action ℕ ℕ) :=
  [.common (.recv 0),.common (.pollRecv 0 7),.common (.dropSender 0),.common (.finishDrop 0)]

theorem recv_registrations_runs :
    (∃ s, (Unbounded.machine ℕ ℕ).exec (Unbounded.unbounded ℕ ℕ) reuseRun = some s ∧
      s.channel.inner.waiters.wakers.get? 0 = some 8 ∧ s.channel.woken = [7] ∧
      Registered s.channel) ∧
    ∃ s, (Bounded.machine ℕ ℕ).exec (Bounded.oneSlot ℕ ℕ) goneRun = some s ∧
      s.channel.woken = [7] ∧ Registered s.channel := by
  constructor
  · have hrun : ((Unbounded.machine ℕ ℕ).exec (Unbounded.unbounded ℕ ℕ) reuseRun).map
        (fun s => (s.channel.inner.waiters.wakers.get? 0,s.channel.woken)) = some (some 8,[7]) := by
      decide +kernel
    obtain ⟨s,hs,hend⟩ := Option.map_eq_some_iff.mp hrun
    have hreach : (Unbounded.machine ℕ ℕ).Reachable s :=
      ⟨Unbounded.unbounded ℕ ℕ,reuseRun,rfl,fun _ _ => trivial,hs⟩
    rw [Prod.mk.injEq] at hend
    exact ⟨s,hs,hend.1,hend.2,((recv_registrations ℕ ℕ).1 s hreach).1⟩
  · have hrun : ((Bounded.machine ℕ ℕ).exec (Bounded.oneSlot ℕ ℕ) goneRun).map
        (fun s => s.channel.woken) = some [7] := by decide +kernel
    obtain ⟨s,hs,hwoken⟩ := Option.map_eq_some_iff.mp hrun
    have hreach : (Bounded.machine ℕ ℕ).Reachable s :=
      ⟨Bounded.oneSlot ℕ ℕ,goneRun,⟨1,by decide,rfl⟩,fun _ _ => trivial,hs⟩
    exact ⟨s,hs,hwoken,((recv_registrations ℕ ℕ).2 s hreach).1⟩

end Broadcast
end Asyncband
