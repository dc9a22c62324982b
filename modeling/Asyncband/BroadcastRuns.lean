import Asyncband.BroadcastFamilies

/-! Runs of the broadcast channels.
Both channels keep `Ok`; the producers of the bounded one moreover take steps of the system
in `BoundedBroadcast`, so what is known about that system holds here as well. -/
namespace Asyncband
namespace Broadcast

open Backlog (Refines)

variable {T W : Type} {s t : Channel T W} {x : Receiver T} {freed : Freed} {f : ℕ} {c : Recv T W}

/-- What a step may do to the order of values and to the wakers. -/
structure Law (s t : Channel T W) : Prop where
  grows : s.published <+: t.published
  silent : s.senders = 0 → t.published = s.published
  taken : t.published ≠ s.published → t.woken = s.woken++s.inner.waiters.wakeAll ∧
    ∀ id, t.inner.waiters.wakers.get? id = none

namespace Law

variable {s t : Channel T W}

theorem of_eq (h : t.published = s.published) : Law s t :=
  ⟨by rw [h],fun _ => h,fun hne => absurd h hne⟩

theorem commit (hs : s.senders ≠ 0) {u : Channel T W} (hpub : u.published = s.published)
    (hwoken : u.woken = s.woken) (hwaiters : u.inner.waiters = s.inner.waiters) (i : ℕ) (value : T)
    (log : Backlog T) : Law s (u.commit i value log) := by
  refine ⟨?_,fun hz => absurd hz hs,fun _ => ⟨?_,u.inner.waiters.get?_takeAll⟩⟩
  · show s.published <+: u.published++[(i,value)]
    rw [hpub]
    exact List.prefix_append _ _
  · show u.woken++u.inner.waiters.takeAll.1 = _
    rw [WakerSet.takeAll_eq,hwoken,hwaiters]

end Law

/-- The actions that both channels have leave the calls alone. -/
structure Aside (s t : Channel T W) : Prop where
  published : t.published = s.published
  sends : t.sends = s.sends

theorem tryRecv_aside {r : ℕ} (h : s.tryRecv r x = .ok (freed,t)) : Aside s t := by
  obtain ⟨⟨result,inner⟩,-,h⟩ := bind_eq_ok h
  cases result with
  | ok received =>
    cases h
    exact ⟨rfl,rfl⟩
  | error e => cases e <;> cases h <;> exact ⟨rfl,rfl⟩

theorem pollRecv_aside [Wake W] {waker : W} (h : s.pollRecv f c x waker = .ok (freed,t)) :
    Aside s t := by
  obtain ⟨⟨result,inner⟩,-,h⟩ := bind_eq_ok h
  cases result <;> cases h <;> exact ⟨rfl,rfl⟩

theorem dropRecv_aside (h : s.dropRecv f c x = .ok (freed,t)) : Aside s t := by
  rw [Channel.dropRecv] at h
  split at h
  · cases h
    exact ⟨rfl,rfl⟩
  · obtain ⟨inner,-,h⟩ := bind_eq_ok h
    cases h
    exact ⟨rfl,rfl⟩

theorem act_aside [Wake W] {a : Common W} (h : s.act a = some (.ok (freed,t))) : Aside s t := by
  cases a with
  | clone | dropSender | finishDrop | subscribe =>
    simp only [Channel.act] at h
    split at h <;> cases h
    exact ⟨rfl,rfl⟩
  | resubscribe | recv =>
    obtain ⟨x,-,h⟩ := Option.map_eq_some_iff.mp h
    cases h
    exact ⟨rfl,rfl⟩
  | tryRecv r =>
    obtain ⟨x,-,h⟩ := Option.map_eq_some_iff.mp h
    exact tryRecv_aside h
  | pollRecv f waker =>
    obtain ⟨x,-,h⟩ := Option.map_eq_some_iff.mp h
    exact pollRecv_aside h
  | cancelRecv f =>
    obtain ⟨x,-,h⟩ := Option.map_eq_some_iff.mp h
    exact dropRecv_aside h
  | dropReceiver r =>
    obtain ⟨x,-,h⟩ := Option.map_eq_some_iff.mp h
    obtain ⟨⟨reclaimed,log⟩,-,h⟩ := bind_eq_ok h
    cases h
    exact ⟨rfl,rfl⟩

/-! ### Calls of `send` -/

theorem Ok.new [Wake W] {log : Backlog T} (h : Refines log .empty) :
    Ok (withFirstSubscription W log) := by
  have hcursor : log.cursor = fun _ => none := h.cursors
  have hempty : Ok (⟨⟨log,.new⟩,1,[.live],[],[],[],[],[]⟩ : Channel T W) := by
    refine ⟨⟨rfl,?_,⟨h.tail,h.messages,rfl⟩,?_,by simp,.nil _,by simp,by simp⟩,⟨by simp,by simp⟩,
      ⟨fun _ => Enrolled.of_empty Arena.get?_new _,by simp,by simp⟩⟩
    · intro hmem
      cases List.mem_singleton.mp hmem
    · show Subscribed log.cursor [] []
      rw [hcursor]
      exact .nil
  exact hempty.subscribe

section Sends

variable [Wake W] {s : Channel T W} {log : Backlog T} {i : ℕ} {c : Send T}

theorem Ok.addSend (h : Ok s) (c : Send T) (hc : c.contribution = none)
    (hfull : ∀ value, c.stage = .full value → value = c.value)
    (hwait : ∀ p, c.party = some p → s.handles[c.handle]? = some .live) : Ok (s.addSend c) := by
  refine h.setSends (h.sent.push_none hc) ?_ ?_
  · intro i d value hd hs
    rcases Table.getElem?_push hd with hd | ⟨-,rfl⟩
    · exact h.returned i d value hd hs
    · exact hfull value hs
  · intro i d p hd hp
    rcases Table.getElem?_push hd with hd | ⟨-,rfl⟩
    · exact h.waiting i d p hd hp
    · exact hwait p hp

theorem Ok.publishNew (h : Ok s) {k : ℕ} (hk : s.handles[k]? = some .live) {value : T}
    (hlog : Refines log ((⟨s.values,s.inner.log.cursor⟩ : Backlog.Naive T).push value))
    (hcursor : log.cursor = s.inner.log.cursor) (htail : log.tail = s.inner.log.tail+1) :
    Ok ((s.addSend ⟨k,value,.completed⟩).commit s.sends.length value log) := by
  refine h.commit (h.senders_ne_zero hk) hlog hcursor htail (h.sent.push_new rfl) ?_ ?_
  · intro i d value hd hs
    rcases Table.getElem?_push hd with hd | ⟨-,rfl⟩
    · exact h.returned i d value hd hs
    · cases hs
  · intro i d p hd hp
    rcases Table.getElem?_push hd with hd | ⟨-,rfl⟩
    · exact h.waiting i d p hd hp
    · cases hp

theorem Ok.endSend (h : Ok s) (hc : s.sends[i]? = some c) (hnone : c.contribution = none) (d : Send T)
    (hd : d.contribution = none) (hparty : d.party = none) (hfull : ∀ value, d.stage ≠ .full value) :
    Ok (s.setSend i d) := by
  refine h.setSends (h.sent.set_same hc (hd.trans hnone.symm)) ?_ ?_
  · intro j e value he hs
    rcases Table.getElem?_set_cases he with ⟨-,rfl⟩ | ⟨-,he⟩
    · exact absurd hs (hfull value)
    · exact h.returned j e value he hs
  · intro j e p he hp
    rcases Table.getElem?_set_cases he with ⟨-,rfl⟩ | ⟨-,he⟩
    · rw [hparty] at hp
      cases hp
    · exact h.waiting j e p he hp

theorem Ok.publishOld (h : Ok s) (hc : s.sends[i]? = some c) (hnone : c.contribution = none)
    (hk : s.handles[c.handle]? = some .live)
    (hlog : Refines log ((⟨s.values,s.inner.log.cursor⟩ : Backlog.Naive T).push c.value))
    (hcursor : log.cursor = s.inner.log.cursor) (htail : log.tail = s.inner.log.tail+1) :
    Ok ((s.setSend i {c with stage := .completed}).commit i c.value log) := by
  refine h.commit (h.senders_ne_zero hk) hlog hcursor htail (h.sent.set_new hc hnone rfl) ?_ ?_
  · intro j e value he hs
    rcases Table.getElem?_set_cases he with ⟨-,rfl⟩ | ⟨-,he⟩
    · cases hs
    · exact h.returned j e value he hs
  · intro j e p he hp
    rcases Table.getElem?_set_cases he with ⟨-,rfl⟩ | ⟨-,he⟩
    · cases hp
    · exact h.waiting j e p he hp

end Sends

/-! ### The unbounded channel -/

namespace Unbounded

variable [Wake W] {s t : Unbounded T W} {a : Action T W}

theorem send_ok {s : Channel T W} (h : Ok s) {k : ℕ} (hk : s.handles[k]? = some .live) (value : T) :
    Ok (send s k value) ∧ Law s (send s k value) := by
  rw [send]
  split
  · exact ⟨h.addSend _ rfl (by rintro _ ⟨⟩) (by rintro _ ⟨⟩),.of_eq rfl⟩
  · rename_i log hpub
    obtain ⟨hlog,hcursor,htail⟩ := h.refines.publish hpub
    exact ⟨h.publishNew hk hlog hcursor htail,
      .commit (u := s.addSend ⟨k,value,.completed⟩) (h.senders_ne_zero hk) rfl rfl rfl _ _ _⟩

theorem act_ok (h : Ok s.channel) {x : Except String (Unbounded T W)} (hx : s.act a = some x) :
    ∃ t, x = .ok t ∧ Ok t.channel ∧ t.panicked = s.panicked ∧ Law s.channel t.channel := by
  cases a with
  | common a =>
    obtain ⟨r,hr,rfl⟩ := Option.map_eq_some_iff.mp hx
    obtain ⟨freed,t,rfl,hok⟩ := h.act hr
    exact ⟨_,rfl,hok,rfl,.of_eq (act_aside hr).published⟩
  | send k value =>
    simp only [act] at hx
    split at hx <;> cases hx
    rename_i hk
    obtain ⟨hok,hlaw⟩ := send_ok h (Channel.isLive_iff.mp hk) value
    exact ⟨_,rfl,hok,rfl,hlaw⟩

theorem next_ok (h : Ok s.channel) (hn : s.next a = some t) :
    s.act a = some (.ok t) ∧ Ok t.channel ∧ t.panicked = s.panicked ∧ Law s.channel t.channel :=
  Transition.step_ok (fun _ => act_ok h) hn

theorem reachable_ok (h : (machine T W).Reachable s) : Ok s.channel ∧ s.panicked = none := by
  refine (machine T W).invariant (fun s => Ok s.channel ∧ s.panicked = none) ?_ ?_ h
  · rintro s rfl
    exact ⟨.new Backlog.elastic_refines,rfl⟩
  · rintro s a t ⟨hok,hpan⟩ hn
    obtain ⟨-,hok',hpan',-⟩ := next_ok hok hn
    exact ⟨hok',hpan'.trans hpan⟩

end Unbounded

/-! ### The bounded channel -/

theorem Send.contribution_of_party {c : Send T} {p : ℕ} (h : c.party = some p) :
    c.contribution = none := by
  cases hs : c.stage <;> simp_all [Send.party,Send.contribution]

/-- What an action of both channels does to the backlog. -/
inductive LogStep (s t : Channel T W) (freed : Freed) : Prop
  | same (log : t.inner.log = s.inner.log) (freed : freed = .nothing)
  | subscribed (log : t.inner.log = s.inner.log.subscribe.2) (freed : freed = .nothing)
  | received (key : SlotId) (r : Option (Backlog.Received T)) (some : (s.inner.log.cursor key).isSome = true)
      (run : s.inner.log.receive key = .ok (r,t.inner.log))
      (freed : freed = ⟨r.elim 0 fun r => r.reclaimed.toNat,false⟩)
  | removed (key : SlotId) (r : Backlog.Reclaimed T) (some : (s.inner.log.cursor key).isSome = true)
      (run : s.inner.log.removeReceiver key = .ok (r,t.inner.log))
      (freed : freed = ⟨r.len,!t.inner.log.hasReceivers⟩)

section Logs

variable [Wake W] {s t : Channel T W} {freed : Freed}

theorem tryRecv_log (h : Ok s) {r : ℕ} (hx : s.receivers[r]? = some x) (hl : x.live = true)
    (hrun : s.tryRecv r x = .ok (freed,t)) : LogStep s t freed := by
  have hpos := h.subscribed.position r x hx hl
  rcases h.receive_cases hx hl with hd | ⟨received,log,ht⟩
  · simp only [Channel.tryRecv,tryReceive,hd.run,bind,Except.bind] at hrun
    by_cases hs : s.senders = 0
    · rw [if_pos hs] at hrun
      cases hrun
      exact .same rfl rfl
    · rw [if_neg hs] at hrun
      cases hrun
      exact .same rfl rfl
  · simp only [Channel.tryRecv,tryReceive,ht.run,bind,Except.bind] at hrun
    cases hrun
    exact .received x.key (some received) (by rw [hpos]; rfl) ht.run rfl

theorem pollRecv_log (h : Ok s) {f : ℕ} {c : Recv T W} (hc : s.recvs[f]? = some c)
    (hl : c.isLive = true) (hx : s.receivers[c.receiver]? = some x) {waker : W}
    (hrun : s.pollRecv f c x waker = .ok (freed,t)) : LogStep s t freed := by
  obtain ⟨x',hx',hlx,hpos⟩ := h.row hc hl
  rw [hx] at hx'
  cases hx'
  rcases h.receive_cases hx hlx with hd | ⟨received,log,ht⟩
  · simp only [Channel.pollRecv,pollReceive,hd.run,bind,Except.bind] at hrun
    by_cases hs : s.senders = 0
    · rw [if_pos hs] at hrun
      cases hrun
      exact .same rfl rfl
    · rw [if_neg hs] at hrun
      cases hreg : s.inner.waiters.register c.token waker with
      | error message => simp [hreg] at hrun
      | ok y =>
        rw [hreg] at hrun
        cases hrun
        exact .same rfl rfl
  · simp only [Channel.pollRecv,pollReceive,ht.run,bind,Except.bind] at hrun
    cases hrun
    exact .received x.key (some received) (by rw [hpos]; rfl) ht.run rfl

theorem act_log (h : Ok s) {a : Common W} (hrun : s.act a = some (.ok (freed,t))) :
    LogStep s t freed := by
  cases a with
  | clone | dropSender | finishDrop =>
    simp only [Channel.act] at hrun
    split at hrun <;> cases hrun
    exact .same rfl rfl
  | subscribe k =>
    simp only [Channel.act] at hrun
    split at hrun <;> cases hrun
    exact .subscribed rfl rfl
  | resubscribe r =>
    obtain ⟨x,-,hrun⟩ := Option.map_eq_some_iff.mp hrun
    cases hrun
    exact .subscribed rfl rfl
  | tryRecv r =>
    obtain ⟨x,hidle,hrun⟩ := Option.map_eq_some_iff.mp hrun
    obtain ⟨hx,hl,-⟩ := Channel.idle_eq_some.mp hidle
    exact tryRecv_log h hx hl hrun
  | recv r =>
    obtain ⟨x,-,hrun⟩ := Option.map_eq_some_iff.mp hrun
    cases hrun
    exact .same rfl rfl
  | pollRecv f waker =>
    obtain ⟨⟨c,x⟩,hlive,hrun⟩ := Option.map_eq_some_iff.mp hrun
    obtain ⟨hc,hl,hx⟩ := Channel.liveRecv_eq_some.mp hlive
    exact pollRecv_log h hc hl hx hrun
  | cancelRecv f =>
    obtain ⟨⟨c,x⟩,hlive,hrun⟩ := Option.map_eq_some_iff.mp hrun
    obtain ⟨hc,hl,hx⟩ := Channel.liveRecv_eq_some.mp hlive
    obtain ⟨u,hu,-,hlog,-⟩ := h.dropRecv hc hl hx
    cases hu.symm.trans hrun
    exact .same hlog rfl
  | dropReceiver r =>
    obtain ⟨x,hidle,hrun⟩ := Option.map_eq_some_iff.mp hrun
    obtain ⟨hx,hl,-⟩ := Channel.idle_eq_some.mp hidle
    have hpos := h.subscribed.position r x hx hl
    obtain ⟨⟨reclaimed,log⟩,hrem,hrun⟩ := bind_eq_ok hrun
    cases hrun
    exact .removed x.key reclaimed (by rw [hpos]; rfl) hrem rfl

end Logs

namespace Bounded

open BoundedBroadcast (Stage Shift attempt)

/-- A waiting call and its party are about the same value. -/
structure Sound [Wake W] (s : Bounded T W) : Prop where
  channel : Broadcast.Ok s.channel
  parties : Table.Unique Send.party s.channel.sends s.parties.length
  payload : ∀ (i : ℕ) c p, s.channel.sends[i]? = some c → c.party = some p →
    s.parties[p]?.bind Stage.payload = some c.value

structure Stepped [Wake W] (s t : Bounded T W) : Prop where
  sound : Sound t
  base : ∃ labels, (BoundedBroadcast.machine T W).exec s.base labels = some t.base
  law : Law s.channel t.channel
  panicked : t.panicked = s.panicked

variable {log : Backlog T} {i p : ℕ} {c : Send T}

theorem setLog_same (channel : Channel T W) (h : log = channel.inner.log) :
    {channel with inner := {channel.inner with log := log}} = channel := by
  subst h
  rfl

theorem waitingSend_eq_some {s : Bounded T W} :
    s.waitingSend i = some (c,p) ↔ s.channel.sends[i]? = some c ∧ c.party = some p := by
  simp only [waitingSend,Option.bind_eq_some_iff,Option.map_eq_some_iff,Prod.mk.injEq]
  constructor
  · rintro ⟨d,hd,q,hq,rfl,rfl⟩
    exact ⟨hd,hq⟩
  · rintro ⟨hc,hp⟩
    exact ⟨c,hc,p,hp,rfl,rfl⟩

variable [Wake W] {s t : Bounded T W}
variable {channel : Channel T W} {x : Except String (Bounded T W)} {a : BoundedBroadcast.Action T W}
    {b : BoundedBroadcast.State T W} {k : ℕ} {value : T}

theorem common_base (h : Sound s) {a : Common W} {freed : Freed}
    (hrun : s.channel.act a = some (.ok (freed,channel))) :
    ∃ labels, (BoundedBroadcast.machine T W).exec s.base labels =
      some (base {s with channel := channel,parties := s.parties++freed.parties}) := by
  cases act_log h.channel hrun with
  | same log hfreed =>
    refine ⟨[],?_⟩
    simp only [base,log,hfreed,Freed.nothing,Freed.parties]
    simp
  | subscribed log hfreed =>
    refine ⟨[.subscribe],?_⟩
    simp only [base,log,hfreed,Freed.nothing,Freed.parties]
    simp [Transition.Machine.exec,BoundedBroadcast.machine,BoundedBroadcast.next]
  | received key r hsome run hfreed =>
    refine ⟨[.receive key],?_⟩
    have hsome' : (s.base.log.cursor key).isSome = true := hsome
    have hrun' : s.base.log.receive key = .ok (r,channel.inner.log) := run
    simp only [Transition.Machine.exec,BoundedBroadcast.machine,BoundedBroadcast.next,
      BoundedBroadcast.receive,hsome',if_true,hrun',hfreed,Freed.parties]
    cases r with
    | none => simp [base]
    | some r => cases hr : r.reclaimed <;> simp [base,hr,BoundedBroadcast.State.addParty]
  | removed key r hsome run hfreed =>
    refine ⟨[.dropReceiver key],?_⟩
    have hsome' : (s.base.log.cursor key).isSome = true := hsome
    have hrun' : s.base.log.removeReceiver key = .ok (r,channel.inner.log) := run
    simp only [Transition.Machine.exec,BoundedBroadcast.machine,BoundedBroadcast.next,
      BoundedBroadcast.dropReceiver,hsome',if_true,hrun',hfreed,Freed.parties]
    cases hr : channel.inner.log.hasReceivers with
    | false => simp [base,BoundedBroadcast.State.addParty]
    | true =>
      by_cases hz : r.len = 0
      · simp [base,hz]
      · simp [base,hz,BoundedBroadcast.State.addParty]

theorem common_stepped (h : Sound s) {a : Common W} (hx : s.act (.common a) = some x) :
    ∃ t, x = .ok t ∧ Stepped s t := by
  obtain ⟨r,hr,rfl⟩ := Option.map_eq_some_iff.mp hx
  obtain ⟨freed,channel,rfl,hok⟩ := h.channel.act hr
  obtain ⟨hpub,hsends⟩ := act_aside hr
  refine ⟨_,rfl,⟨hok,?_,?_⟩,common_base h hr,.of_eq hpub,rfl⟩
  · show Table.Unique Send.party channel.sends (s.parties++freed.parties).length
    rw [hsends]
    exact h.parties.mono (by simp)
  · intro i c p hc hp
    have hc' : s.channel.sends[i]? = some c := hsends ▸ hc
    have hold := h.payload i c p hc' hp
    obtain ⟨stage,hstage,hval⟩ := Option.bind_eq_some_iff.mp hold
    show (s.parties++freed.parties)[p]?.bind Stage.payload = _
    rw [Table.getElem?_append_old hstage,Option.bind_some,hval]

def withBase (s : Bounded T W) (b : BoundedBroadcast.State T W) (channel : Channel T W) : Bounded T W :=
  {s with channel := channel,capacity := b.capacity,txPermits := b.txPermits,
          blockedSenders := b.blockedSenders,parties := b.parties}

theorem produce_eq_some {record : Channel T W → Channel T W} (h : s.produce a record = some t) :
    ∃ b, BoundedBroadcast.next s.base a = some b ∧
      t = s.withBase b (record {s.channel with inner := {s.channel.inner with log := b.log}}) := by
  obtain ⟨b,hb,rfl⟩ := Option.map_eq_some_iff.mp h
  exact ⟨b,hb,rfl⟩

theorem base_of_next (h : BoundedBroadcast.next s.base a = some b) (hlog : channel.inner.log = b.log) :
    ∃ labels, (BoundedBroadcast.machine T W).exec s.base labels = some (s.withBase b channel).base := by
  refine ⟨[a],?_⟩
  have hbase : (s.withBase b channel).base = b := by
    rw [base,withBase,hlog]
  simp [Transition.Machine.exec,BoundedBroadcast.machine,h,hbase]

section

variable (h : Sound s)
include h

/-- Parties other than those of waiting calls may do what they like, and a party keeps its
payload while its call waits. -/
theorem Sound.withBase (hok : Broadcast.Ok channel) {old new : Stage T W}
    (hold : s.parties[p]? = some old) (hparties : b.parties = s.parties.set p new)
    (hsends : ∀ (i : ℕ) c q, channel.sends[i]? = some c → c.party = some q →
      s.channel.sends[i]? = some c ∧ (q = p → new.payload = old.payload)) :
    Sound (s.withBase b channel) := by
  refine ⟨hok,⟨?_,?_⟩,?_⟩
  · intro i c q hc hq
    show q < b.parties.length
    rw [hparties,List.length_set]
    exact h.parties.lt i c q (hsends i c q hc hq).1 hq
  · intro i j c d q hc hd hq hq'
    exact h.parties.inj i j c d q (hsends i c q hc hq).1 (hsends j d q hd hq').1 hq hq'
  · intro i c q hc hq
    obtain ⟨hc',hsame⟩ := hsends i c q hc hq
    have hpay := h.payload i c q hc' hq
    show b.parties[q]?.bind Stage.payload = _
    rw [hparties]
    by_cases hqp : q = p
    · subst hqp
      rw [hold,Option.bind_some] at hpay
      rw [Table.getElem?_set_self' hold,Option.bind_some,hsame rfl,hpay]
    · rw [List.getElem?_set_ne (Ne.symm hqp)]
      exact hpay

theorem shift_stepped (hshift : ∀ b, BoundedBroadcast.next s.base a = some b →
      ∃ p old new, Shift s.base b p old new ∧ new.payload = old.payload)
    (hx : (s.produce a id).map .ok = some x) : ∃ t, x = .ok t ∧ Stepped s t := by
  obtain ⟨t,ht,rfl⟩ := Option.map_eq_some_iff.mp hx
  obtain ⟨b,hb,rfl⟩ := produce_eq_some ht
  obtain ⟨p,old,new,hsh,hpay⟩ := hshift b hb
  have hsame := setLog_same s.channel hsh.log
  rw [id,hsame]
  exact ⟨_,rfl,h.withBase h.channel hsh.old hsh.parties fun i c q hc _ => ⟨hc,fun _ => hpay⟩,
    base_of_next hb hsh.log.symm,.of_eq rfl,rfl⟩

theorem Sound.pushSend (hok : Broadcast.Ok channel) (hc : c.party = none)
    (hsends : channel.sends = s.channel.sends++[c]) (hparties : b.parties = s.parties) :
    Sound (s.withBase b channel) := by
  refine ⟨hok,?_,?_⟩
  · show Table.Unique Send.party channel.sends b.parties.length
    rw [hsends,hparties]
    exact h.parties.push hc
  · intro i d p hd hp
    have hd' : (s.channel.sends++[c])[i]? = some d := hsends ▸ hd
    show b.parties[p]?.bind Stage.payload = _
    rw [hparties]
    rcases Table.getElem?_push hd' with hd' | ⟨-,rfl⟩
    · exact h.payload i d p hd' hp
    · rw [hc] at hp
      cases hp

theorem publish_stepped (hk : s.channel.handles[k]? = some .live) (hlog : b.log = log)
    (hparties : b.parties = s.parties)
    (pushed : ∀ n, Refines s.base.log n → Refines log (n.push value) ∧
      log.cursor = s.base.log.cursor ∧ log.tail = s.base.log.tail+1)
    (hb : BoundedBroadcast.next s.base a = some b) :
    Stepped s (s.withBase b
      ((s.channel.addSend ⟨k,value,.completed⟩).commit s.channel.sends.length value log)) := by
  obtain ⟨hrefines,hcursor,htail⟩ := pushed _ h.channel.refines
  exact ⟨h.pushSend (h.channel.publishNew hk hrefines hcursor htail) rfl rfl hparties,
    base_of_next hb hlog.symm,
    .commit (u := s.channel.addSend ⟨k,value,.completed⟩) (h.channel.senders_ne_zero hk) rfl rfl rfl
      _ _ _,rfl⟩

theorem send_stepped {waker : W} (hx : s.act (.send k value waker) = some x) :
    ∃ t, x = .ok t ∧ Stepped s t := by
  simp only [act] at hx
  split at hx
  · rename_i hlive
    have hk := Channel.isLive_iff.mp hlive
    obtain ⟨t,ht,rfl⟩ := Option.map_eq_some_iff.mp hx
    obtain ⟨b,hb,rfl⟩ := produce_eq_some ht
    refine ⟨_,rfl,?_⟩
    have hnext := hb
    simp only [BoundedBroadcast.next] at hb
    cases BoundedBroadcast.publishSpec s.base value with
    | published log run att room pushed =>
      simp only [run,Option.some.injEq] at hb
      subst hb
      simp only [newSend,att]
      exact publish_stepped h hk rfl rfl pushed hnext
    | full run att hr hret =>
      simp only [run,Option.some.injEq] at hb
      subst hb
      have hok : Broadcast.Ok (s.channel.addSend ⟨k,value,.waiting s.parties.length⟩) :=
        h.channel.addSend _ rfl (by rintro _ ⟨⟩) fun _ _ => hk
      simp only [newSend,att]
      refine ⟨⟨hok,?_,?_⟩,base_of_next hnext rfl,.of_eq rfl,rfl⟩
      · show Table.Unique Send.party (s.channel.sends++[_]) (s.parties++[_]).length
        rw [List.length_append]
        exact h.parties.push_new rfl
      · intro i d p hd hp
        show (s.parties++[.announcing value waker])[p]?.bind Stage.payload = _
        rcases Table.getElem?_push hd with hd | ⟨-,rfl⟩
        · have hpay := h.payload i d p hd hp
          obtain ⟨stage,hstage,-⟩ := Option.bind_eq_some_iff.mp hpay
          rw [Table.getElem?_push_old hstage,← hstage]
          exact hpay
        · cases hp
          simp [Stage.payload]
    | panicked message run att room =>
      simp only [run,Option.some.injEq] at hb
      subst hb
      simp only [newSend,att]
      exact ⟨h.pushSend (c := ⟨k,value,.panicked⟩)
        (h.channel.addSend _ rfl (by rintro _ ⟨⟩) (by rintro _ ⟨⟩)) rfl rfl rfl,
        base_of_next hnext rfl,.of_eq rfl,rfl⟩
  · cases hx

theorem trySend_stepped (hx : s.act (.trySend k value) = some x) :
    ∃ t, x = .ok t ∧ Stepped s t ∧
      (t.channel.sends[s.channel.sends.length]? = some ⟨k,value,.full value⟩ ↔
        s.channel.inner.log.hasReceivers = true ∧ s.channel.inner.log.retained = s.capacity) := by
  simp only [act] at hx
  split at hx
  · rename_i hlive
    have hk := Channel.isLive_iff.mp hlive
    obtain ⟨t,ht,rfl⟩ := Option.map_eq_some_iff.mp hx
    obtain ⟨b,hb,rfl⟩ := produce_eq_some ht
    refine ⟨_,rfl,?_⟩
    have hnext := hb
    simp only [BoundedBroadcast.next] at hb
    cases BoundedBroadcast.publishSpec s.base value with
    | published log run att room pushed =>
      simp only [run,Option.some.injEq] at hb
      subst hb
      simp only [newSend,att]
      refine ⟨publish_stepped h hk rfl rfl pushed hnext,iff_of_false ?_ fun hfull => room hfull.1 hfull.2⟩
      simp [withBase,Channel.commit,Channel.addSend]
    | full run att hr hret =>
      simp only [run,Option.some.injEq] at hb
      subst hb
      simp only [newSend,att]
      refine ⟨⟨h.pushSend (c := ⟨k,value,.full value⟩)
        (h.channel.addSend _ rfl (by rintro _ ⟨⟩; rfl) (by rintro _ ⟨⟩)) rfl rfl rfl,
        base_of_next hnext rfl,.of_eq rfl,rfl⟩,iff_of_true ?_ ⟨hr,hret⟩⟩
      simp [withBase,Channel.addSend]
    | panicked message run att room =>
      simp only [run,Option.some.injEq] at hb
      subst hb
      simp only [newSend,att]
      refine ⟨⟨h.pushSend (c := ⟨k,value,.panicked⟩)
        (h.channel.addSend _ rfl (by rintro _ ⟨⟩) (by rintro _ ⟨⟩)) rfl rfl rfl,
        base_of_next hnext rfl,.of_eq rfl,rfl⟩,iff_of_false ?_ fun hfull => room hfull.1 hfull.2⟩
      simp [withBase,Channel.addSend]
  · cases hx

theorem Sound.endSend (hok : Broadcast.Ok channel) {d : Send T} (hc : s.channel.sends[i]? = some c)
    (hp : c.party = some p) (hd : d.party = none) (hsends : channel.sends = s.channel.sends.set i d)
    {old new : Stage T W} (hold : s.parties[p]? = some old)
    (hparties : b.parties = s.parties.set p new) : Sound (s.withBase b channel) := by
  refine h.withBase hok hold hparties fun j e q he hq => ?_
  rw [hsends] at he
  rcases Table.getElem?_set_cases he with ⟨-,rfl⟩ | ⟨hj,he⟩
  · rw [hd] at hq
    cases hq
  · refine ⟨he,fun hqp => ?_⟩
    subst hqp
    exact absurd (h.parties.inj j i e c q he hc hq hp) hj

theorem recheck_stepped (hx : s.act (.recheck i) = some x) : ∃ t, x = .ok t ∧ Stepped s t := by
  obtain ⟨⟨c,p⟩,hw,hx⟩ := Option.bind_eq_some_iff.mp hx
  obtain ⟨hc,hp⟩ := waitingSend_eq_some.mp hw
  obtain ⟨t,ht,rfl⟩ := Option.map_eq_some_iff.mp hx
  obtain ⟨b,hb,rfl⟩ := produce_eq_some ht
  refine ⟨_,rfl,?_⟩
  obtain ⟨value,waker,f,call,new,hold,hparties,hcases⟩ := BoundedBroadcast.recheck_shift hb
  have hvalue : value = c.value := by
    have hpay := h.payload i c p hc hp
    have hold' : s.parties[p]? = some (.polling value waker f call) := hold
    rw [hold',Option.bind_some] at hpay
    exact Option.some.inj hpay
  subst hvalue
  have hnone := Send.contribution_of_party hp
  have hlive := h.channel.waiting i c p hc hp
  rcases hcases with ⟨att,hlog,hpay⟩ | ⟨att,hlog,hpay⟩ | ⟨att,hpay,pushed⟩
  · have hsame := setLog_same s.channel hlog
    simp only [retrySend,att,hsame]
    exact ⟨h.withBase h.channel hold hparties fun j e q he _ => ⟨he,fun _ => hpay⟩,
      base_of_next hb hlog.symm,.of_eq rfl,rfl⟩
  · have hsame := setLog_same s.channel hlog
    simp only [retrySend,att,hsame]
    have hok := h.channel.endSend hc hnone {c with stage := .panicked} rfl rfl (by rintro _ ⟨⟩)
    exact ⟨h.endSend (d := {c with stage := .panicked}) hok hc hp rfl rfl hold hparties,
      base_of_next hb hlog.symm,.of_eq rfl,rfl⟩
  · obtain ⟨hrefines,hcursor,htail⟩ := pushed _ h.channel.refines
    have hok := h.channel.publishOld hc hnone hlive hrefines hcursor htail
    simp only [retrySend,att]
    exact ⟨h.endSend (d := {c with stage := .completed}) hok hc hp rfl rfl hold hparties,
      base_of_next hb rfl,.commit (u := s.channel.setSend i {c with stage := .completed})
        (h.channel.senders_ne_zero hlive) rfl rfl rfl i c.value b.log,rfl⟩

theorem cancel_stepped (hx : s.act (.cancel i) = some x) : ∃ t, x = .ok t ∧ Stepped s t := by
  obtain ⟨⟨c,p⟩,hw,hx⟩ := Option.bind_eq_some_iff.mp hx
  obtain ⟨hc,hp⟩ := waitingSend_eq_some.mp hw
  obtain ⟨t,ht,rfl⟩ := Option.map_eq_some_iff.mp hx
  obtain ⟨b,hb,rfl⟩ := produce_eq_some ht
  obtain ⟨old,new,hsh,-⟩ := BoundedBroadcast.cancel_shift hb
  have hsame := setLog_same s.channel hsh.log
  have hok := h.channel.endSend hc (Send.contribution_of_party hp) {c with stage := .cancelled} rfl rfl
    (by rintro _ ⟨⟩)
  rw [hsame]
  exact ⟨_,rfl,h.endSend (d := {c with stage := .cancelled}) hok hc hp rfl rfl hsh.old hsh.parties,
    base_of_next hb hsh.log.symm,.of_eq rfl,rfl⟩

theorem act_stepped {a : Action T W} (hx : s.act a = some x) : ∃ t, x = .ok t ∧ Stepped s t := by
  cases a with
  | common a => exact common_stepped h hx
  | send k value waker => exact send_stepped h hx
  | trySend k value =>
    obtain ⟨t,ht,hstep,-⟩ := trySend_stepped h hx
    exact ⟨t,ht,hstep⟩
  | announce i =>
    obtain ⟨⟨c,p⟩,-,hx⟩ := Option.bind_eq_some_iff.mp hx
    exact shift_stepped h (fun b hb => ⟨p,BoundedBroadcast.announce_shift hb⟩) hx
  | poll i waker =>
    obtain ⟨⟨c,p⟩,-,hx⟩ := Option.bind_eq_some_iff.mp hx
    exact shift_stepped h (fun b hb => ⟨p,BoundedBroadcast.poll_shift hb⟩) hx
  | recheck i => exact recheck_stepped h hx
  | cancel i => exact cancel_stepped h hx
  | leave p => exact shift_stepped h (fun b hb => ⟨p,BoundedBroadcast.leave_shift hb⟩) hx
  | load p => exact shift_stepped h (fun b hb => ⟨p,BoundedBroadcast.load_shift hb⟩) hx
  | advance p spurious =>
    obtain ⟨t,ht,rfl⟩ := Option.map_eq_some_iff.mp hx
    obtain ⟨b,hb,rfl⟩ := produce_eq_some ht
    obtain ⟨hparties,hlog⟩ := BoundedBroadcast.advance_same hb
    have hsame := setLog_same s.channel hlog
    rw [id,hsame]
    refine ⟨_,rfl,⟨h.channel,?_,?_⟩,base_of_next hb hlog.symm,.of_eq rfl,rfl⟩
    · show Table.Unique Send.party s.channel.sends b.parties.length
      rw [hparties]
      exact h.parties
    · intro i c q hc hq
      show b.parties[q]?.bind Stage.payload = _
      rw [hparties]
      exact h.payload i c q hc hq

theorem next_stepped {a : Action T W} (hn : s.next a = some t) :
    s.act a = some (.ok t) ∧ Stepped s t :=
  Transition.step_ok (fun _ => act_stepped h) hn

end

/-- The producers' side of a reachable channel is a reachable state of `BoundedBroadcast`. -/
structure Invariant (s : Bounded T W) : Prop where
  sound : Sound s
  producers : (BoundedBroadcast.machine T W).Reachable s.base
  panicked : s.panicked = none

theorem init_invariant (h : (machine T W).init s) : Invariant s := by
  obtain ⟨capacity,hle,hb⟩ := h
  rw [bounded] at hb
  split at hb
  · rename_i hpos
    cases hb
    refine ⟨⟨.new Backlog.fixed_refines,.nil _ _,by simp [withFirstSubscription]⟩,?_,rfl⟩
    apply Transition.Machine.ReachableVia.init
    refine ⟨capacity,(Backlog.fixed : Backlog T).subscribe.1,hle,?_⟩
    rw [BoundedBroadcast.bounded,if_pos hpos]
    rfl
  · cases hb

theorem reachable_invariant (h : (machine T W).Reachable s) : Invariant s := by
  refine (machine T W).invariant Invariant (fun s hs => init_invariant hs) ?_ h
  intro s a t hinv hn
  obtain ⟨-,hstep⟩ := next_stepped hinv.sound hn
  obtain ⟨labels,hexec⟩ := hstep.base
  obtain ⟨s₀,as,hinit,hP,he⟩ := hinv.producers
  refine ⟨hstep.sound,⟨s₀,as++labels,hinit,fun _ _ => trivial,?_⟩,hstep.panicked.trans hinv.panicked⟩
  rw [Transition.Machine.exec_append,he,Option.bind_some,hexec]

end Bounded

end Broadcast
end Asyncband
