import Asyncband.BroadcastReceivers

/-! Delivery on a broadcast channel.
`Accounts` is about values: the one order in which they were published, which calls they
come from, and what each receiver has got of it. `Ok` adds the `recv` futures. Every action
that both channels have in common returns and keeps `Ok`, and so does a publication. -/
namespace Asyncband
namespace Backlog

variable {T : Type} {b b' : Backlog T} {n : Naive T}

theorem Refines.publishRetained (h : Refines b n) {msg : T} (hok : b.publishRetained msg = .ok b') :
    Refines b' (n.push msg) ∧ b'.cursor = b.cursor ∧ b'.tail = b.tail+1 := by
  have hcases : b.hasReceivers = true ∧ b.tail < u64Max := by
    rw [Backlog.publishRetained] at hok
    split at hok
    · next raw hraw => exact Raw.publishRetained_cases hraw
    · cases hok
  obtain ⟨b₁,hrun,htail,hhead,hcursor,hmessages⟩ := b.publishRetained_spec hcases.1 hcases.2 msg
  cases hrun.symm.trans hok
  exact ⟨h.push htail hhead hcursor hmessages,hcursor,htail⟩

theorem Refines.publishDiscarded (h : Refines b n) (msg : T) (hok : b.publishDiscarded = .ok b') :
    Refines b' (n.push msg) ∧ b'.cursor = b.cursor ∧ b'.tail = b.tail+1 := by
  have hcases : b.hasReceivers = false ∧ b.tail < u64Max := by
    rw [Backlog.publishDiscarded] at hok
    split at hok
    · next raw hraw => exact Raw.publishDiscarded_cases b.inv hraw
    · cases hok
  obtain ⟨b₁,hrun,htail,hhead,hcursor,hmessages⟩ := b.publishDiscarded_spec hcases.1 hcases.2
  cases hrun.symm.trans hok
  exact ⟨h.discard htail hhead hcursor hmessages,hcursor,htail⟩

end Backlog

namespace Broadcast

open Backlog (Refines)

variable {T W : Type} {s : Channel T W} {r : ℕ} {x : Receiver T}

def Send.contribution (c : Send T) : Option T :=
  match c.stage with
  | .completed => some c.value
  | _ => none

/-- All values in the order of publication. -/
def Channel.values (s : Channel T W) : List T := s.published.map Prod.snd

theorem Channel.values_length (s : Channel T W) : s.values.length = s.published.length :=
  List.length_map _

structure Accounts (s : Channel T W) : Prop where
  senders : s.senders = Table.total SenderStage.weight s.handles
  closing : SenderStage.disconnecting ∈ s.handles → s.senders = 0
  refines : Refines s.inner.log ⟨s.values,s.inner.log.cursor⟩
  subscribed : Subscribed s.inner.log.cursor s.values s.receivers
  ended : ∀ (r : ℕ) x, s.receivers[r]? = some x → x.ended = true →
    s.senders = 0 ∧ x.received = s.values.drop x.since
  sent : Table.Recorded Send.contribution s.sends s.published
  returned : ∀ (i : ℕ) c value, s.sends[i]? = some c → c.stage = .full value → value = c.value
  waiting : ∀ (i : ℕ) c p, s.sends[i]? = some c → c.party = some p →
    s.handles[c.handle]? = some .live

structure Ok [Wake W] (s : Channel T W) : Prop extends Accounts s where
  borrowed : Borrowed s.receivers s.recvs
  watched : Watched s

theorem Channel.isLive_iff {h : ℕ} : s.isLive h = true ↔ s.handles[h]? = some .live := by
  rw [Channel.isLive,beq_iff_eq]

theorem Channel.unborrowed_iff {h : ℕ} :
    s.unborrowed h = true ↔ ∀ (i : ℕ) c p, s.sends[i]? = some c → c.party = some p → c.handle ≠ h := by
  simp only [Channel.unborrowed,List.all_eq_true,Bool.not_eq_true',Bool.and_eq_false_iff,
    beq_eq_false_iff_ne]
  constructor
  · intro hall i c p hc hp
    rcases hall c (List.mem_of_getElem? hc) with hn | hne
    · rw [hp] at hn
      cases hn
    · exact hne
  · intro hall c hc
    obtain ⟨i,hi⟩ := List.mem_iff_getElem?.mp hc
    cases hp : c.party with
    | none => exact .inl rfl
    | some p => exact .inr (hall i c p hi hp)

theorem Channel.liveRecv_eq_some {f : ℕ} {c : Recv T W} :
    s.liveRecv f = some (c,x) ↔ s.recvs[f]? = some c ∧ c.isLive = true ∧
      s.receivers[c.receiver]? = some x := by
  simp only [Channel.liveRecv,Option.bind_eq_some_iff,Option.filter_eq_some_iff,Option.map_eq_some_iff,
    Prod.mk.injEq]
  constructor
  · rintro ⟨d,⟨hd,hl⟩,y,hy,rfl,rfl⟩
    exact ⟨hd,hl,hy⟩
  · rintro ⟨hc,hl,hx⟩
    exact ⟨c,⟨hc,hl⟩,x,hx,rfl,rfl⟩

namespace Accounts

variable {s : Channel T W} {k : ℕ}

theorem senders_ne_zero (h : Accounts s) (hk : s.handles[k]? = some .live) : s.senders ≠ 0 := by
  have hle := Table.le_total SenderStage.weight hk
  rw [← h.senders] at hle
  exact Nat.ne_of_gt hle

theorem tail_eq (h : Accounts s) : s.inner.log.tail = s.values.length := h.refines.tail

/-! ### Senders -/

theorem clone (h : Accounts s) (hk : s.handles[k]? = some .live) : Accounts s.clone := by
  have hne := h.senders_ne_zero hk
  refine ⟨?_,?_,h.refines,h.subscribed,?_,h.sent,h.returned,?_⟩
  · show s.senders+1 = Table.total SenderStage.weight (s.handles++[.live])
    rw [Table.total_append,← h.senders]
    rfl
  · intro hmem
    rcases List.mem_append.mp hmem with hmem | hmem
    · exact absurd (h.closing hmem) hne
    · cases List.mem_singleton.mp hmem
  · intro r x hx hend
    exact absurd (h.ended r x hx hend).1 hne
  · intro i c p hc hp
    exact Table.getElem?_push_old (h.waiting i c p hc hp) _

theorem dropSender (h : Accounts s) (hk : s.handles[k]? = some .live) (hfree : s.unborrowed k = true) :
    Accounts (s.dropSender k) := by
  have hne := h.senders_ne_zero hk
  have hweight : ∀ stage, SenderStage.weight stage = 0 →
      s.senders-1 = Table.total SenderStage.weight (s.handles.set k stage) := by
    intro stage hstage
    have hset := Table.total_set SenderStage.weight hk stage
    rw [hstage,← h.senders] at hset
    have hone : SenderStage.weight .live = 1 := rfl
    omega
  refine ⟨?_,?_,h.refines,h.subscribed,?_,h.sent,h.returned,?_⟩
  · show s.senders-1 = _
    apply hweight
    split <;> rfl
  · intro hmem
    show s.senders-1 = 0
    by_cases hone : s.senders = 1
    · omega
    · have hmem' : SenderStage.disconnecting ∈ s.handles.set k .gone := by
        have heq : (s.dropSender k).handles = s.handles.set k .gone := by
          rw [Channel.dropSender,if_neg hone]
        rwa [heq] at hmem
      rcases List.mem_or_eq_of_mem_set hmem' with hmem' | heq
      · exact absurd (h.closing hmem') hne
      · cases heq
  · intro r x hx hend
    exact absurd (h.ended r x hx hend).1 hne
  · intro i c p hc hp
    have hch := Channel.unborrowed_iff.mp hfree i c p hc hp
    exact (List.getElem?_set_ne (Ne.symm hch)).trans (h.waiting i c p hc hp)

theorem finishDrop (h : Accounts s) (hk : s.handles[k]? = some .disconnecting) :
    Accounts (s.finishDrop k) := by
  refine ⟨?_,?_,h.refines,h.subscribed,h.ended,h.sent,h.returned,?_⟩
  · have hset := Table.total_set SenderStage.weight hk .gone
    rw [← h.senders] at hset
    exact hset.symm
  · intro _
    exact h.closing (List.mem_of_getElem? hk)
  · intro i c p hc hp
    have hlive := h.waiting i c p hc hp
    have hch : k ≠ c.handle := by
      rintro rfl
      rw [hk] at hlive
      cases hlive
    exact (List.getElem?_set_ne hch).trans hlive

/-! ### Subscriptions -/

theorem subscribe (h : Accounts s) : Accounts s.subscribe := by
  obtain ⟨hfresh,hcursor,hmessages,hhead,htail⟩ := s.inner.log.subscribe_spec
  refine ⟨h.senders,h.closing,⟨htail.trans h.refines.tail,?_,rfl⟩,?_,?_,h.sent,h.returned,h.waiting⟩
  · show s.inner.log.subscribe.2.messages = s.values.drop s.inner.log.subscribe.2.head
    rw [hmessages,hhead]
    exact h.refines.messages
  · show Subscribed s.inner.log.subscribe.2.cursor s.values
      (s.receivers++[⟨s.inner.log.subscribe.1,true,s.published.length,[],false⟩])
    rw [hcursor,h.tail_eq,← s.values_length]
    exact h.subscribed.subscribe hfresh
  · exact Table.forall_push h.ended (fun hend => by cases hend)

structure Taken (s : Channel T W) (x : Receiver T) (received : Backlog.Received T) (log : Backlog T) :
    Prop where
  run : s.inner.log.receive x.key = .ok (some received,log)
  cursor : log.cursor = Function.update s.inner.log.cursor x.key (some (x.since+x.received.length+1))
  tail : log.tail = s.inner.log.tail
  refines : Refines log ⟨s.values,log.cursor⟩
  msg : s.values[x.since+x.received.length]? = some received.msg
  behind : x.since+x.received.length < s.inner.log.tail

structure Drained (s : Channel T W) (x : Receiver T) : Prop where
  run : s.inner.log.receive x.key = .ok (none,s.inner.log)
  cursor : s.inner.log.cursor x.key = some s.inner.log.tail
  all : x.received = s.values.drop x.since

section

variable (h : Accounts s) (hx : s.receivers[r]? = some x) (hl : x.live = true)
include h hx hl

theorem receive_cases : Drained s x ∨ ∃ received log, Taken s x received log := by
  have hc := h.subscribed.position r x hx hl
  have hbounds := Backlog.cursor_bounds hc
  rcases Nat.lt_or_ge (x.since+x.received.length) s.inner.log.tail with hlt | hge
  · obtain ⟨received,log,hrun,hcursor,htail,hhead,hmsg,hmessages⟩ := s.inner.log.receive_spec hc hlt
    have hnew := h.refines.receive hcursor htail hhead hmessages
    refine .inr ⟨received,log,hrun,hcursor,htail,⟨hnew.tail,hnew.messages,rfl⟩,?_,hlt⟩
    have hm := h.refines.messages
    rw [hm,List.getElem?_drop,Nat.add_sub_cancel' hbounds.1] at hmsg
    exact hmsg
  · have heq : x.since+x.received.length = s.inner.log.tail := Nat.le_antisymm hbounds.2 hge
    rw [heq] at hc
    refine .inl ⟨s.inner.log.receive_none hc,hc,?_⟩
    obtain ⟨hle,hseg⟩ := h.subscribed.segment r x hx
    apply hseg.eq_of_length
    rw [List.length_drop,← h.tail_eq]
    omega

theorem taken {received : Backlog.Received T} {log : Backlog T} (ht : Taken s x received log) :
    Accounts ({s with inner := {s.inner with log := log}}.setReceiver r
      {x with received := x.received++[received.msg]}) := by
  refine ⟨h.senders,h.closing,ht.refines,?_,?_,h.sent,h.returned,h.waiting⟩
  · show Subscribed log.cursor s.values _
    rw [ht.cursor]
    exact h.subscribed.receive hx hl ht.msg
  · intro r' x' hx' hend
    rcases Table.getElem?_set_cases hx' with ⟨rfl,rfl⟩ | ⟨-,hx'⟩
    · -- a receiver that got `Disconnected` has no message left
      have hall := (h.ended r' x hx hend).2
      have hlen := congrArg List.length hall
      have hbehind := ht.behind
      rw [List.length_drop,← h.tail_eq] at hlen
      omega
    · exact h.ended r' x' hx' hend

theorem setEnded (hd : Drained s x) (hs : s.senders = 0) :
    Accounts (s.setReceiver r {x with ended := true}) := by
  refine ⟨h.senders,h.closing,h.refines,h.subscribed.setEnded hx hl,?_,h.sent,h.returned,h.waiting⟩
  intro r' x' hx' hend
  rcases Table.getElem?_set_cases hx' with ⟨rfl,rfl⟩ | ⟨-,hx'⟩
  · exact ⟨hs,hd.all⟩
  · exact h.ended r' x' hx' hend

theorem dropReceiver :
    ∃ reclaimed log, s.inner.log.removeReceiver x.key = .ok (reclaimed,log) ∧
      log.cursor = Function.update s.inner.log.cursor x.key none ∧ log.tail = s.inner.log.tail ∧
      Accounts ({s with inner := {s.inner with log := log}}.setReceiver r {x with live := false}) := by
  have hc := h.subscribed.position r x hx hl
  obtain ⟨reclaimed,log,hrun,hcursor,htail,hhead,hmessages⟩ := s.inner.log.removeReceiver_spec hc
  have hnew := h.refines.remove hcursor htail hhead hmessages
  refine ⟨reclaimed,log,hrun,hcursor,htail,h.senders,h.closing,⟨hnew.tail,hnew.messages,rfl⟩,?_,?_,
    h.sent,h.returned,h.waiting⟩
  · show Subscribed log.cursor s.values _
    rw [hcursor]
    exact h.subscribed.drop hx hl
  · intro r' x' hx' hend
    rcases Table.getElem?_set_cases hx' with ⟨rfl,rfl⟩ | ⟨-,hx'⟩
    · exact h.ended r' x hx hend
    · exact h.ended r' x' hx' hend

end

end Accounts

theorem Channel.caughtUp_eq (hx : s.receivers[r]? = some x) :
    s.caughtUp r = (s.inner.log.cursor x.key == some s.inner.log.tail) := by
  rw [Channel.caughtUp,hx,Option.bind_some]

theorem Channel.caughtUp_congr {t : Channel T W} {y : Receiver T} (hx : s.receivers[r]? = some x)
    (hy : t.receivers[r]? = some y) (hcursor : t.inner.log.cursor y.key = s.inner.log.cursor x.key)
    (htail : t.inner.log.tail = s.inner.log.tail) : t.caughtUp r = s.caughtUp r := by
  rw [caughtUp_eq hx,caughtUp_eq hy,hcursor,htail]

namespace Ok

variable [Wake W] {s : Channel T W}
variable {k f : ℕ} {c : Recv T W} {y : Receiver T} {log : Backlog T} {cursor : Option ℕ}
    {waiters : WakerSet W} {sends : List (Send T)}

theorem clone (h : Ok s) (hk : s.handles[k]? = some .live) : Ok s.clone := by
  refine ⟨h.toAccounts.clone hk,h.borrowed,h.watched.congr rfl rfl rfl ?_ ?_ ?_⟩
  · exact iff_of_false (Nat.succ_ne_zero _) (h.senders_ne_zero hk)
  · exact fun hmem => List.mem_append_left _ hmem
  · exact fun _ _ _ _ => rfl

theorem dropSender (h : Ok s) (hk : s.handles[k]? = some .live) (hfree : s.unborrowed k = true) :
    Ok (s.dropSender k) := by
  have hne := h.senders_ne_zero hk
  refine ⟨h.toAccounts.dropSender hk hfree,h.borrowed,?_⟩
  by_cases hone : s.senders = 1
  · refine h.watched.closing rfl rfl rfl rfl ?_ ?_ hne
    · show s.senders-1 = 0
      omega
    · show SenderStage.disconnecting ∈ s.handles.set k (if s.senders = 1 then .disconnecting else .gone)
      rw [if_pos hone]
      exact List.mem_of_getElem? (Table.getElem?_set_self' hk _)
  · refine h.watched.congr rfl rfl rfl ?_ ?_ (fun _ _ _ _ => rfl)
    · refine iff_of_false ?_ hne
      show s.senders-1 ≠ 0
      omega
    · intro hmem
      exact absurd (h.closing hmem) hne

theorem finishDrop (h : Ok s) (hk : s.handles[k]? = some .disconnecting) : Ok (s.finishDrop k) :=
  ⟨h.toAccounts.finishDrop hk,h.borrowed,
    h.watched.disconnect rfl (h.closing (List.mem_of_getElem? hk)) rfl rfl⟩

theorem row (h : Ok s) (hc : s.recvs[f]? = some c) (hl : c.isLive = true) :
    ∃ x, s.receivers[c.receiver]? = some x ∧ x.live = true ∧
      s.inner.log.cursor x.key = some (x.since+x.received.length) := by
  obtain ⟨x,hx,hlive⟩ := h.borrowed.holder f c hc hl
  exact ⟨x,hx,hlive,h.subscribed.position c.receiver x hx hlive⟩

theorem subscribe (h : Ok s) : Ok s.subscribe := by
  obtain ⟨hfresh,hcursor,-,-,htail⟩ := s.inner.log.subscribe_spec
  refine ⟨h.toAccounts.subscribe,h.borrowed.push_receiver _,
    h.watched.congr rfl rfl rfl Iff.rfl (fun hmem => hmem) ?_⟩
  intro f c hc hl
  obtain ⟨x,hx,-,hpos⟩ := h.row hc hl
  refine Channel.caughtUp_congr hx (Table.getElem?_push_old hx _) ?_ htail
  show s.inner.log.subscribe.2.cursor x.key = _
  have hne : x.key ≠ s.inner.log.subscribe.1 := by
    intro he
    rw [he,hfresh] at hpos
    cases hpos
  rw [hcursor,Function.update_of_ne hne]

theorem caughtUp_other (h : Ok s) (hx : s.receivers[r]? = some x) (hl : x.live = true)
    (hcursor : log.cursor = Function.update s.inner.log.cursor x.key cursor)
    (htail : log.tail = s.inner.log.tail) (hc : s.recvs[f]? = some c) (hlc : c.isLive = true)
    (hne : c.receiver ≠ r) {recvs : List (Recv T W)} :
    Channel.caughtUp {s with inner := ⟨log,waiters⟩,receivers := s.receivers.set r y,recvs := recvs}
      c.receiver = s.caughtUp c.receiver := by
  obtain ⟨z,hz,hlz,-⟩ := h.row hc hlc
  refine Channel.caughtUp_congr hz ((List.getElem?_set_ne (Ne.symm hne)).trans hz) ?_ htail
  have hkey : z.key ≠ x.key := fun he => hne (h.subscribed.keys c.receiver r z x hz hx hlz hl he)
  show log.cursor z.key = _
  rw [hcursor,Function.update_of_ne hkey]

section

variable (h : Ok s) (hx : s.receivers[r]? = some x) (hl : x.live = true) (hfree : s.isFree r = true)
include h hx hl hfree

theorem setFree (hcursor : log.cursor = Function.update s.inner.log.cursor x.key cursor)
    (htail : log.tail = s.inner.log.tail)
    (hacc : Accounts ({s with inner := {s.inner with log := log}}.setReceiver r y)) :
    Ok ({s with inner := {s.inner with log := log}}.setReceiver r y) := by
  have hother : ∀ (f : ℕ) c, s.recvs[f]? = some c → c.isLive = true → c.receiver ≠ r := by
    intro f c hc hlc hr
    rw [Channel.isFree_iff.mp hfree f c hc hr] at hlc
    cases hlc
  refine ⟨hacc,h.borrowed.set_receiver hx y ?_,
    h.watched.congr rfl rfl rfl Iff.rfl (fun hmem => hmem) ?_⟩
  · exact fun f c hc hlc hr => absurd hr (hother f c hc hlc)
  · exact fun f c hc hlc => h.caughtUp_other hx hl hcursor htail hc hlc (hother f c hc hlc)

theorem tryRecv : ∃ freed t, s.tryRecv r x = .ok (freed,t) ∧ Ok t := by
  rcases h.receive_cases hx hl with hd | ⟨received,log,ht⟩
  · by_cases hs : s.senders = 0
    · refine ⟨.nothing,s.setReceiver r {x with ended := true},?_,?_⟩
      · simp only [Channel.tryRecv,tryReceive,hd.run,bind,Except.bind,if_pos hs]
      · have hsame : s.inner.log.cursor =
            Function.update s.inner.log.cursor x.key (some s.inner.log.tail) := by
          rw [← hd.cursor,Function.update_eq_self]
        exact h.setFree hx hl hfree hsame rfl (h.toAccounts.setEnded hx hl hd hs)
    · refine ⟨.nothing,s,?_,h⟩
      simp only [Channel.tryRecv,tryReceive,hd.run,bind,Except.bind,if_neg hs]
  · refine ⟨⟨received.reclaimed.toNat,false⟩,_,?_,
      h.setFree hx hl hfree ht.cursor ht.tail (h.toAccounts.taken hx hl ht)⟩
    simp only [Channel.tryRecv,tryReceive,ht.run,bind,Except.bind]

theorem dropReceiver : ∃ freed t, s.dropReceiver r x = .ok (freed,t) ∧ Ok t := by
  obtain ⟨reclaimed,log,hrun,hcursor,htail,hacc⟩ := h.toAccounts.dropReceiver hx hl
  refine ⟨⟨reclaimed.len,!log.hasReceivers⟩,_,?_,h.setFree hx hl hfree hcursor htail hacc⟩
  simp only [Channel.dropReceiver,hrun,bind,Except.bind]

theorem recv : Ok {s with recvs := s.recvs++[⟨r,.live none,none,0⟩]} := by
  refine ⟨⟨h.senders,h.closing,h.refines,h.subscribed,h.ended,h.sent,h.returned,h.waiting⟩,?_,
    h.watched.push_recv r⟩
  exact h.borrowed.push_recv _ hx hl fun f c hc hr => Channel.isFree_iff.mp hfree f c hc hr

end

theorem setRecv (h : Ok s) (hc : s.recvs[f]? = some c) (hl : c.isLive = true) (d : Recv T W)
    (hd : d.receiver = c.receiver)
    (hw : Watched {s with inner := {s.inner with waiters := waiters},recvs := s.recvs.set f d}) :
    Ok {s with inner := {s.inner with waiters := waiters},recvs := s.recvs.set f d} :=
  ⟨⟨h.senders,h.closing,h.refines,h.subscribed,h.ended,h.sent,h.returned,h.waiting⟩,
    h.borrowed.set_recv hc hl d hd,hw⟩

theorem caughtUp_iff (h : Ok s) (hx : s.receivers[r]? = some x) (hl : x.live = true) :
    s.caughtUp r = true ↔ x.since+x.received.length = s.inner.log.tail := by
  rw [Channel.caughtUp_eq hx,beq_iff_eq,h.subscribed.position r x hx hl,Option.some.injEq]

section

variable (h : Ok s) (hc : s.recvs[f]? = some c) (hl : c.isLive = true)
include h hc hl

/-- The only future of a receiver ends together with a change of the receiver. -/
theorem finishRecv (hx : s.receivers[c.receiver]? = some x) (hlx : x.live = true) (hly : y.live = true)
    (hcursor : log.cursor = Function.update s.inner.log.cursor x.key cursor)
    (htail : log.tail = s.inner.log.tail)
    (hacc : Accounts ({s with inner := {s.inner with log := log}}.setReceiver c.receiver y))
    (d : Recv T W) (hd : d.receiver = c.receiver) (htoken : d.token = none) (hmark : d.mark = c.mark)
    (hseat : s.senders ≠ 0 → s.seat c = none) :
    Ok (({s with inner := {s.inner with log := log}}.setReceiver c.receiver y).setRecv f d) := by
  refine ⟨⟨hacc.senders,hacc.closing,hacc.refines,hacc.subscribed,hacc.ended,hacc.sent,hacc.returned,
    hacc.waiting⟩,(h.borrowed.set_receiver hx y fun _ _ _ _ _ => hly).set_recv hc hl d hd,
    h.watched.finish hc d htoken hmark hseat rfl rfl rfl rfl rfl ?_⟩
  intro g e hg he hle
  have hne : e.receiver ≠ c.receiver := fun hr => hg (h.borrowed.unique g f e c he hc hle hl hr)
  exact h.caughtUp_other hx hlx hcursor htail he hle hne

theorem register (hs : s.senders ≠ 0) (hcaught : s.caughtUp c.receiver = true) (waker : W) :
    ∃ id waiters, s.inner.waiters.register c.token waker = .ok (id,waiters) ∧
      Ok {s with inner := {s.inner with waiters := waiters},
                 recvs := s.recvs.set f ⟨c.receiver,.live (some id),some waker,s.woken.length⟩} := by
  have hslot : s.slot f = c.token := by rw [Channel.slot_eq hc,Channel.seat,if_pos hcaught]
  obtain ⟨id,waiters,hreg,henr⟩ := (h.watched.enrolled hs).register f waker
  rw [hslot] at hreg
  refine ⟨id,waiters,hreg,
    h.setRecv hc hl ⟨c.receiver,.live (some id),some waker,s.woken.length⟩ rfl ⟨?_,?_,?_⟩⟩
  · intro _
    show Enrolled waiters (Table.lookup s.seat (s.recvs.set f _)) (Table.lookup _ (s.recvs.set f _))
    rw [Table.lookup_set _ hc,Table.lookup_set _ hc,Channel.seat,if_pos hcaught]
    exact henr
  · intro g e key he ht
    rcases Table.getElem?_set_cases he with ⟨rfl,rfl⟩ | ⟨-,he⟩
    · exact .inr ⟨hcaught,.inl hs⟩
    · rcases h.watched.watched g e key he ht with hw | ⟨hcau,-⟩
      · exact .inl hw
      · exact .inr ⟨hcau,.inl hs⟩
  · intro g e he
    rcases Table.getElem?_set_cases he with ⟨rfl,rfl⟩ | ⟨-,he⟩
    · exact Nat.le_refl _
    · exact h.watched.mark g e he

theorem pollRecv (hx : s.receivers[c.receiver]? = some x) (waker : W) :
    ∃ freed t, s.pollRecv f c x waker = .ok (freed,t) ∧ Ok t := by
  obtain ⟨x',hx',hlx,hpos⟩ := h.row hc hl
  rw [hx] at hx'
  cases hx'
  rcases h.receive_cases hx hlx with hd | ⟨received,log,ht⟩
  · by_cases hs : s.senders = 0
    · refine ⟨.nothing,(s.setReceiver c.receiver {x with ended := true}).setRecv f
        {c with stage := .disconnected},?_,?_⟩
      · simp only [Channel.pollRecv,pollReceive,hd.run,bind,Except.bind,if_pos hs]
      · have hsame : s.inner.log.cursor =
            Function.update s.inner.log.cursor x.key (some s.inner.log.tail) := by
          rw [← hd.cursor,Function.update_eq_self]
        exact h.finishRecv (y := {x with ended := true}) hc hl hx hlx hlx hsame rfl
          (h.toAccounts.setEnded hx hlx hd hs) {c with stage := .disconnected} rfl rfl rfl (fun hne => absurd hs hne)
    · have hcaught : s.caughtUp c.receiver = true := by
        rw [Channel.caughtUp_eq hx,beq_iff_eq]
        exact hd.cursor
      obtain ⟨id,waiters,hreg,hok⟩ := h.register hc hl hs hcaught waker
      refine ⟨.nothing,_,?_,hok⟩
      simp only [Channel.pollRecv,pollReceive,hd.run,bind,Except.bind,if_neg hs,hreg]
      rfl
  · refine ⟨⟨received.reclaimed.toNat,false⟩,_,?_,
      h.finishRecv (y := {x with received := x.received++[received.msg]}) hc hl hx hlx hlx ht.cursor
        ht.tail (h.toAccounts.taken hx hlx ht) {c with stage := .received received.msg} rfl rfl rfl ?_⟩
    · simp only [Channel.pollRecv,pollReceive,ht.run,bind,Except.bind]
    · intro _
      have hbehind := ht.behind
      have hcaught : ¬s.caughtUp c.receiver = true := by
        rw [h.caughtUp_iff hx hlx]
        omega
      rw [Channel.seat,if_neg hcaught]

theorem dropRecv (hx : s.receivers[c.receiver]? = some x) :
    ∃ t, s.dropRecv f c x = .ok (.nothing,t) ∧ Ok t ∧ t.inner.log = s.inner.log ∧
      ∀ id, t.inner.waiters.wakers.get? id = s.inner.waiters.wakers.get? id ∨
        s.senders ≠ 0 ∧ s.seat c = some id ∧ t.inner.waiters.wakers.get? id = none := by
  obtain ⟨x',hx',hlx,hpos⟩ := h.row hc hl
  rw [hx] at hx'
  cases hx'
  have hunread : s.inner.log.unread x.key = .ok (s.inner.log.tail-(x.since+x.received.length)) := by
    rw [Backlog.unread,hpos]
  have hle := (Backlog.cursor_bounds hpos).2
  have hfinish : (s.senders ≠ 0 → s.seat c = none) →
      Ok (s.setRecv f {c with stage := .cancelled}) := fun hseat =>
    h.setRecv hc hl {c with stage := .cancelled} rfl (h.watched.finish hc {c with stage := .cancelled}
      rfl rfl hseat rfl rfl rfl rfl rfl (fun _ _ _ _ _ => rfl))
  cases ht : c.token with
  | none =>
    refine ⟨s.setRecv f {c with stage := .cancelled},?_,hfinish fun _ => ?_,rfl,fun _ => .inl rfl⟩
    · rw [Channel.dropRecv,ht]
      rfl
    · rw [Channel.seat,ht]
      split <;> rfl
  | some id =>
    by_cases hdone : s.inner.log.tail-(x.since+x.received.length) ≠ 0 ∨ s.senders = 0
    · refine ⟨s.setRecv f {c with stage := .cancelled},?_,hfinish fun hs => ?_,rfl,fun _ => .inl rfl⟩
      · simp only [Channel.dropRecv,ht,unregister,hunread,bind,Except.bind,if_pos hdone]
        rfl
      · rcases hdone with hun | hzero
        · have hcaught : ¬s.caughtUp c.receiver = true := by
            rw [h.caughtUp_iff hx hlx]
            omega
          rw [Channel.seat,if_neg hcaught]
        · exact absurd hzero hs
    · have hs : s.senders ≠ 0 := fun hz => hdone (.inr hz)
      have hcaught : s.caughtUp c.receiver = true := by
        rw [h.caughtUp_iff hx hlx]
        by_contra hne
        exact hdone (.inl (by omega))
      have hseat : s.seat c = some id := by rw [Channel.seat,if_pos hcaught,ht]
      have hslot : s.slot f = some id := by rw [Channel.slot_eq hc,hseat]
      obtain ⟨waiters,hun,hget,henr⟩ := (h.watched.enrolled hs).unregister hslot
      refine ⟨{s with inner := {s.inner with waiters := waiters},
                      recvs := s.recvs.set f {c with stage := .cancelled}},?_,
        h.setRecv hc hl {c with stage := .cancelled} rfl ⟨?_,?_,?_⟩,rfl,?_⟩
      · simp only [Channel.dropRecv,ht,unregister,hunread,bind,Except.bind,if_neg hdone,hun]
        rfl
      · intro _
        have hnone : s.seat {c with stage := .cancelled} = none := by
          rw [Channel.seat]
          split <;> rfl
        show Enrolled waiters (Table.lookup s.seat (s.recvs.set f _)) (Table.lookup _ (s.recvs.set f _))
        rw [Table.lookup_set _ hc,Table.lookup_set_same (y := {c with stage := .cancelled}) hc rfl,hnone]
        exact henr
      · intro g e key he hkey
        rcases Table.getElem?_set_cases he with ⟨rfl,rfl⟩ | ⟨-,he⟩
        · cases hkey
        · rcases h.watched.watched g e key he hkey with hw | ⟨hcau,-⟩
          · exact .inl hw
          · exact .inr ⟨hcau,.inl hs⟩
      · intro g e he
        rcases Table.getElem?_set_cases he with ⟨rfl,rfl⟩ | ⟨-,he⟩
        · exact h.watched.mark g c hc
        · exact h.watched.mark g e he
      · intro key
        by_cases hkey : key = id
        · subst hkey
          exact .inr ⟨hs,hseat,(congrFun hget key).trans (Function.update_self ..)⟩
        · exact .inl ((congrFun hget key).trans (Function.update_of_ne hkey ..))

end

theorem commit (h : Ok s) (hs : s.senders ≠ 0) {i : ℕ} {value : T}
    (hlog : Refines log ((⟨s.values,s.inner.log.cursor⟩ : Backlog.Naive T).push value))
    (hcursor : log.cursor = s.inner.log.cursor) (htail : log.tail = s.inner.log.tail+1)
    (hsent : Table.Recorded Send.contribution sends (s.published++[(i,value)]))
    (hret : ∀ (i : ℕ) c value, sends[i]? = some c → c.stage = .full value → value = c.value)
    (hwait : ∀ (i : ℕ) c p, sends[i]? = some c → c.party = some p → s.handles[c.handle]? = some .live) :
    Ok ({s with sends := sends}.commit i value log) := by
  have hvalues : Channel.values ({s with sends := sends}.commit i value log) = s.values++[value] := by
    simp only [Channel.values,Channel.commit,List.map_append,List.map_singleton]
  refine ⟨⟨h.senders,h.closing,⟨?_,?_,rfl⟩,?_,?_,hsent,hret,hwait⟩,h.borrowed,
    h.watched.publish hs rfl rfl rfl ?_⟩
  · rw [hvalues]
    exact hlog.tail
  · rw [hvalues]
    exact hlog.messages
  · show Subscribed log.cursor _ s.receivers
    rw [hvalues,hcursor]
    exact h.subscribed.publish value
  · intro r x hx hend
    exact absurd (h.ended r x hx hend).1 hs
  · intro f c hc hl
    obtain ⟨x,hx,-,hpos⟩ := h.row hc hl
    have hle := (Backlog.cursor_bounds hpos).2
    have hx' : ({s with sends := sends}.commit i value log).receivers[c.receiver]? = some x := hx
    rw [Channel.caughtUp_eq hx',beq_eq_false_iff_ne]
    show log.cursor x.key ≠ some log.tail
    rw [hcursor,htail,hpos]
    intro he
    have := Option.some.inj he
    omega

theorem setSends (h : Ok s) (hsent : Table.Recorded Send.contribution sends s.published)
    (hret : ∀ (i : ℕ) c value, sends[i]? = some c → c.stage = .full value → value = c.value)
    (hwait : ∀ (i : ℕ) c p, sends[i]? = some c → c.party = some p → s.handles[c.handle]? = some .live) :
    Ok {s with sends := sends} :=
  ⟨⟨h.senders,h.closing,h.refines,h.subscribed,h.ended,hsent,hret,hwait⟩,h.borrowed,
    ⟨h.watched.enrolled,h.watched.watched,h.watched.mark⟩⟩

theorem act (h : Ok s) {a : Common W} {x : Except String (Freed × Channel T W)}
    (hx : s.act a = some x) : ∃ freed t, x = .ok (freed,t) ∧ Ok t := by
  cases a with
  | clone k =>
    simp only [Channel.act] at hx
    split at hx <;> cases hx
    rename_i hk
    exact ⟨_,_,rfl,h.clone (Channel.isLive_iff.mp hk)⟩
  | dropSender k =>
    simp only [Channel.act,Bool.and_eq_true] at hx
    split at hx <;> cases hx
    rename_i hk
    exact ⟨_,_,rfl,h.dropSender (Channel.isLive_iff.mp hk.1) hk.2⟩
  | finishDrop k =>
    simp only [Channel.act] at hx
    split at hx <;> cases hx
    rename_i hk
    exact ⟨_,_,rfl,h.finishDrop hk⟩
  | subscribe k =>
    simp only [Channel.act] at hx
    split at hx <;> cases hx
    exact ⟨_,_,rfl,h.subscribe⟩
  | resubscribe r =>
    obtain ⟨y,-,rfl⟩ := Option.map_eq_some_iff.mp hx
    exact ⟨_,_,rfl,h.subscribe⟩
  | tryRecv r =>
    obtain ⟨y,hidle,rfl⟩ := Option.map_eq_some_iff.mp hx
    obtain ⟨hy,hl,hfree⟩ := Channel.idle_eq_some.mp hidle
    exact h.tryRecv hy hl hfree
  | recv r =>
    obtain ⟨y,hidle,rfl⟩ := Option.map_eq_some_iff.mp hx
    obtain ⟨hy,hl,hfree⟩ := Channel.idle_eq_some.mp hidle
    exact ⟨_,_,rfl,h.recv hy hl hfree⟩
  | pollRecv f waker =>
    obtain ⟨⟨c,y⟩,hlive,rfl⟩ := Option.map_eq_some_iff.mp hx
    obtain ⟨hc,hl,hy⟩ := Channel.liveRecv_eq_some.mp hlive
    exact h.pollRecv hc hl hy waker
  | cancelRecv f =>
    obtain ⟨⟨c,y⟩,hlive,rfl⟩ := Option.map_eq_some_iff.mp hx
    obtain ⟨hc,hl,hy⟩ := Channel.liveRecv_eq_some.mp hlive
    obtain ⟨t,ht,hok,-⟩ := h.dropRecv hc hl hy
    exact ⟨_,t,ht,hok⟩
  | dropReceiver r =>
    obtain ⟨y,hidle,rfl⟩ := Option.map_eq_some_iff.mp hx
    obtain ⟨hy,hl,hfree⟩ := Channel.idle_eq_some.mp hidle
    exact h.dropReceiver hy hl hfree

end Ok

end Broadcast
end Asyncband
