import Asyncband.BroadcastRuns

/-! One order for all receivers of a broadcast channel. -/
namespace Asyncband
namespace Broadcast

variable {T W : Type} {s t : Channel T W} {x : Receiver T}

/-- How the values that were sent and received belong together. -/
structure Delivery [Wake W] (s : Channel T W) : Prop where
  /-- A call that completed contributed its value once, any other call did not. -/
  once : (s.published.map Prod.fst).Nodup ∧ ∀ i value, (i,value) ∈ s.published ↔
    ∃ c, s.sends[i]? = some c ∧ c.stage = .completed ∧ c.value = value
  returned : ∀ (i : ℕ) c value, s.sends[i]? = some c → c.stage = .full value → value = c.value
  segment : ∀ (r : ℕ) x, s.receivers[r]? = some x → x.since ≤ s.values.length ∧
    x.received <+: s.values.drop x.since
  cursor : ∀ (r : ℕ) x, s.receivers[r]? = some x → x.live = true →
    s.inner.log.cursor x.key = some (x.since+x.received.length)
  /-- `Disconnected` is for a receiver that has got everything when no sender is left. -/
  ended : ∀ (r : ℕ) x, s.receivers[r]? = some x → x.ended = true →
    s.senders = 0 ∧ .live ∉ s.handles ∧ x.received = s.values.drop x.since
  cancelled : ∀ f freed t, s.act (.cancelRecv f) = some (.ok (freed,t)) →
    t.inner.log = s.inner.log ∧ t.receivers = s.receivers

/-- The order only grows, and not without senders. -/
structure Ordered (s t : Channel T W) : Prop where
  grows : s.published <+: t.published
  silent : s.senders = 0 → t.published = s.published

theorem Law.ordered (h : Law s t) : Ordered s t := ⟨h.grows,h.silent⟩

/-- What the capacity of a bounded channel means. -/
structure CapacityLaw [Wake W] (s : Bounded T W) : Prop where
  retained : s.channel.inner.log.retained ≤ s.capacity
  unread : ∀ (r : ℕ) x, s.channel.receivers[r]? = some x → x.live = true →
    ∃ n ≤ s.capacity, s.channel.inner.log.unread x.key = .ok n
  full : ∀ k value t, s.next (.trySend k value) = some t →
    (t.channel.sends[s.channel.sends.length]? = some ⟨k,value,.full value⟩ ↔
      ∃ (r : ℕ) (x : Receiver T), s.channel.receivers[r]? = some x ∧ x.live = true ∧
        s.channel.inner.log.unread x.key = .ok s.capacity)

theorem dropRecv_receivers {f : ℕ} {c : Recv T W} {freed : Freed}
    (h : s.dropRecv f c x = .ok (freed,t)) : t.receivers = s.receivers := by
  rw [Channel.dropRecv] at h
  split at h
  · cases h
    rfl
  · obtain ⟨inner,-,h⟩ := bind_eq_ok h
    cases h
    rfl

theorem Send.contribution_eq_some {c : Send T} {value : T} :
    c.contribution = some value ↔ c.stage = .completed ∧ c.value = value := by
  cases hs : c.stage <;> simp [Send.contribution,hs]

theorem Accounts.unread (h : Accounts s) {r : ℕ} (hx : s.receivers[r]? = some x) (hl : x.live = true) :
    s.inner.log.unread x.key = .ok (s.inner.log.tail-(x.since+x.received.length)) := by
  rw [Backlog.unread,h.subscribed.position r x hx hl]

/-- The channel is full exactly when the slowest receiver has that much to read. -/
theorem Accounts.full_iff (h : Accounts s) {capacity : ℕ} (hle : s.inner.log.retained ≤ capacity) :
    s.inner.log.hasReceivers = true ∧ s.inner.log.retained = capacity ↔
      ∃ (r : ℕ) (x : Receiver T), s.receivers[r]? = some x ∧ x.live = true ∧
        s.inner.log.unread x.key = .ok capacity := by
  have hlength := s.inner.log.head_add_retained
  constructor
  · rintro ⟨hr,hcap⟩
    obtain ⟨key,hkey⟩ := s.inner.log.head_attained hr
    obtain ⟨r,x,hx,hl,rfl⟩ := h.subscribed.owned key _ hkey
    refine ⟨r,x,hx,hl,?_⟩
    rw [Backlog.unread,hkey,← hcap]
    exact congrArg Except.ok (by omega)
  · rintro ⟨r,x,hx,hl,hun⟩
    have hpos := h.subscribed.position r x hx hl
    have hbounds := Backlog.cursor_bounds hpos
    rw [h.unread hx hl] at hun
    have hcap := Except.ok.inj hun
    exact ⟨s.inner.log.hasReceivers_iff.mpr ⟨x.key,_,hpos⟩,by omega⟩

section Delivery

variable [Wake W]

theorem Ok.delivery {s : Channel T W} (h : Ok s) : Delivery s := by
  refine ⟨⟨h.sent.nodup,fun i value => ?_⟩,h.returned,h.subscribed.segment,h.subscribed.position,?_,?_⟩
  · rw [h.sent.mem_iff,Table.lookup,Option.bind_eq_some_iff]
    simp only [Send.contribution_eq_some]
  · intro r x hx hend
    obtain ⟨hzero,hall⟩ := h.ended r x hx hend
    refine ⟨hzero,fun hmem => ?_,hall⟩
    obtain ⟨k,hk⟩ := List.mem_iff_getElem?.mp hmem
    exact h.senders_ne_zero hk hzero
  · intro f freed t hrun
    obtain ⟨⟨c,x⟩,hlive,hrun⟩ := Option.map_eq_some_iff.mp hrun
    obtain ⟨hc,hl,hx⟩ := Channel.liveRecv_eq_some.mp hlive
    obtain ⟨u,hu,-,hlog,-⟩ := h.dropRecv hc hl hx
    cases hu.symm.trans hrun
    exact ⟨hlog,dropRecv_receivers hrun⟩

namespace Bounded

theorem Invariant.capacityLaw {s : Bounded T W} (h : Invariant s) : CapacityLaw s := by
  have hbounded : s.channel.inner.log.retained ≤ s.capacity :=
    (BoundedBroadcast.reachable_ok h.producers).bounded
  have hlength := s.channel.inner.log.head_add_retained
  refine ⟨hbounded,?_,?_⟩
  · intro r x hx hl
    have hpos := h.sound.channel.subscribed.position r x hx hl
    have hbounds := Backlog.cursor_bounds hpos
    exact ⟨_,by omega,h.sound.channel.unread hx hl⟩
  · intro k value t hn
    obtain ⟨t',ht,-,hiff⟩ := trySend_stepped h.sound (next_stepped h.sound hn).1
    cases ht
    rw [hiff]
    exact h.sound.channel.full_iff hbounded

end Bounded
end Delivery

/-- Both broadcast channels deliver every published value, once and in one order, to
every receiver that was subscribed. -/
theorem broadcast_delivery (T W : Type) [Wake W] :
    (∀ s : Unbounded T W, (Unbounded.machine T W).Reachable s → s.panicked = none ∧
      Delivery s.channel ∧ ∀ a t, s.next a = some t → Ordered s.channel t.channel) ∧
    ∀ s : Bounded T W, (Bounded.machine T W).Reachable s → s.panicked = none ∧
      Delivery s.channel ∧ (∀ a t, s.next a = some t → Ordered s.channel t.channel) ∧
      CapacityLaw s := by
  constructor
  · intro s h
    obtain ⟨hok,hpan⟩ := Unbounded.reachable_ok h
    refine ⟨hpan,hok.delivery,fun a t hn => ?_⟩
    obtain ⟨-,-,-,hlaw⟩ := Unbounded.next_ok hok hn
    exact hlaw.ordered
  · intro s h
    have hinv := Bounded.reachable_invariant h
    refine ⟨hinv.panicked,hinv.sound.channel.delivery,fun a t hn => ?_,hinv.capacityLaw⟩
    exact (Bounded.next_stepped hinv.sound hn).2.law.ordered

def lateRun : List (Unbounded.Action ℕ ℕ) :=
  [.send 0 41,.common (.subscribe 0),.send 0 42,.common (.tryRecv 0),.common (.tryRecv 1),
   .common (.dropSender 0),.common (.finishDrop 0),.common (.tryRecv 1)]

/-- With one slot, a second `send` waits until the first value is read. -/
def fullRun : List (Bounded.Action ℕ ℕ) :=
  [.send 0 41 7,.trySend 0 42,.send 0 43 7,.announce 2,.advance 0 false,.advance 0 false,
   .advance 0 false,.recheck 2,.common (.tryRecv 0),.poll 2 7,.advance 0 false,.recheck 2]

theorem broadcast_delivery_runs :
    (∃ s, (Unbounded.machine ℕ ℕ).exec (Unbounded.unbounded ℕ ℕ) lateRun = some s ∧
      s.channel.receivers.map Receiver.received = [[41],[42]] ∧ Delivery s.channel) ∧
    ∃ s, (Bounded.machine ℕ ℕ).exec (Bounded.oneSlot ℕ ℕ) fullRun = some s ∧
      s.channel.published = [(0,41),(2,43)] ∧ Delivery s.channel ∧ CapacityLaw s := by
  constructor
  · have hrun : ((Unbounded.machine ℕ ℕ).exec (Unbounded.unbounded ℕ ℕ) lateRun).map
        (fun s => s.channel.receivers.map Receiver.received) = some [[41],[42]] := by decide +kernel
    obtain ⟨s,hs,hreceived⟩ := Option.map_eq_some_iff.mp hrun
    have hreach : (Unbounded.machine ℕ ℕ).Reachable s :=
      ⟨Unbounded.unbounded ℕ ℕ,lateRun,rfl,fun _ _ => trivial,hs⟩
    exact ⟨s,hs,hreceived,((broadcast_delivery ℕ ℕ).1 s hreach).2.1⟩
  · have hrun : ((Bounded.machine ℕ ℕ).exec (Bounded.oneSlot ℕ ℕ) fullRun).map
        (fun s => s.channel.published) = some [(0,41),(2,43)] := by decide +kernel
    obtain ⟨s,hs,hpublished⟩ := Option.map_eq_some_iff.mp hrun
    have hreach : (Bounded.machine ℕ ℕ).Reachable s :=
      ⟨Bounded.oneSlot ℕ ℕ,fullRun,⟨1,by decide,rfl⟩,fun _ _ => trivial,hs⟩
    obtain ⟨-,hdelivery,-,hcap⟩ := (broadcast_delivery ℕ ℕ).2 s hreach
    exact ⟨s,hs,hpublished,hdelivery,hcap⟩

end Broadcast
end Asyncband
