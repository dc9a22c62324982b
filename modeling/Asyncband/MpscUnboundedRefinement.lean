import Asyncband.MpscUnbounded

/-! The unbounded MPSC channel refines a FIFO queue.
`Channel` is the queue that the channel stands for. The segments are invisible in it: a
refill changes nothing, and every other step does to the queue what its name says. -/
namespace Asyncband
namespace Mpsc
namespace Unbounded

variable {T W : Type} {size : ℕ}

theorem segmentCapacity_pos (size : ℕ) : 1 ≤ segmentCapacity size := by
  rw [segmentCapacity]
  split
  · decide
  · split
    · exact le_rfl
    · rw [Nat.one_shiftLeft]
      exact Nat.one_le_two_pow

theorem segmentCapacity_oversized (h : size > segmentBytes) : segmentCapacity size = 1 := by
  have hne : size ≠ 0 := Nat.ne_of_gt ((Nat.zero_le segmentBytes).trans_lt h)
  rw [segmentCapacity,if_neg hne,if_pos h]

/-- The segments, and the batch that was one of them. -/
structure Segments (size : ℕ) (batch : List T) (b : Buffer T) : Prop where
  full : ∀ segment ∈ b.sealed, segment.length = segmentCapacity size
  writable_le : b.writable.length ≤ segmentCapacity size
  batch_le : batch.length ≤ segmentCapacity size

namespace Segments

variable {size : ℕ} {batch : List T} {b : Buffer T}

theorem new (size : ℕ) : Segments size [] (.new : Buffer T) where
  full segment hs := by cases hs
  writable_le := Nat.zero_le _
  batch_le := Nat.zero_le _

theorem sealed_ne_nil (h : Segments size batch b) {segment : List T} (hs : segment ∈ b.sealed) :
    segment ≠ [] := by
  intro hnil
  have hlen := h.full segment hs
  have hpos := segmentCapacity_pos size
  rw [hnil,List.length_nil] at hlen
  omega

theorem push (h : Segments size batch b) (value : T) :
    Segments size batch (b.push size value) ∧
      (b.push size value).sealed.flatten++(b.push size value).writable =
        b.sealed.flatten++b.writable++[value] := by
  rw [Buffer.push]
  split
  · next hlen =>
    refine ⟨⟨fun segment hs => ?_,segmentCapacity_pos size,h.batch_le⟩,by simp⟩
    rcases List.mem_append.mp hs with hs | hs
    · exact h.full segment hs
    · rw [List.mem_singleton.mp hs]
      exact hlen
  · next hlen =>
    refine ⟨⟨h.full,?_,h.batch_le⟩,by simp⟩
    have hle := h.writable_le
    rw [List.length_append,List.length_singleton]
    omega

/-- A refill of an empty batch never fails, keeps the values in order, and leaves the batch
empty only when there are none. -/
theorem refill (h : Segments size [] b) :
    ∃ batch b', b.refill [] = .ok (batch,b') ∧ Segments size batch b' ∧
      batch++b'.sealed.flatten++b'.writable = b.sealed.flatten++b.writable ∧
      (batch = [] → b'.sealed.flatten++b'.writable = []) := by
  obtain ⟨writable,sealed⟩ := b
  cases sealed with
  | cons segment rest =>
    refine ⟨segment,⟨writable,rest⟩,rfl,⟨fun s hs => h.full s (List.mem_cons_of_mem _ hs),
      h.writable_le,(h.full segment (List.mem_cons_self ..)).le⟩,by simp,fun hnil => ?_⟩
    exact absurd hnil (h.sealed_ne_nil (List.mem_cons_self ..))
  | nil =>
    cases writable with
    | nil => exact ⟨[],⟨[],[]⟩,rfl,h,rfl,fun _ => rfl⟩
    | cons v writable =>
      exact ⟨v::writable,⟨[],[]⟩,rfl,⟨h.full,Nat.zero_le _,h.writable_le⟩,by simp,fun hnil => by cases hnil⟩

theorem popBatch {v : T} (h : Segments size (v::batch) b) :
    Unbounded.popBatch size (v::batch) = .ok (v,batch) ∧ Segments size batch b := by
  have hle := h.batch_le
  rw [List.length_cons] at hle
  refine ⟨?_,h.full,h.writable_le,by omega⟩
  rw [Unbounded.popBatch]
  split
  · next hsize =>
    rw [segmentCapacity_oversized hsize] at hle
    obtain rfl : batch = [] := List.eq_nil_of_length_eq_zero (by omega)
    rfl
  · rfl

theorem isEmpty_iff (h : Segments size batch b) :
    b.isEmpty = (b.sealed.flatten++b.writable).isEmpty := by
  obtain ⟨writable,sealed⟩ := b
  cases sealed with
  | nil => simp [Buffer.isEmpty]
  | cons segment rest =>
    have hne := h.sealed_ne_nil (List.mem_cons_self ..)
    simp [Buffer.isEmpty,hne]

end Segments

structure Channel (T : Type) where
  values : List T
  senders : ℕ
  receiver : Bool
  answers : List (Received T)

def State.channel (s : State T W) : Channel T := ⟨s.values,s.senders,s.receiver,s.answers⟩

namespace Channel

def receive (q : Channel T) (ready : Bool) : Channel T :=
  match q.values with
  | v::values => {q with values := values,answers := q.answers++[.value v]}
  | [] =>
    if q.senders = 0 then {q with answers := q.answers++[.disconnected]}
    else if ready then {q with answers := q.answers++[.empty]}
    else q

def step (q : Channel T) : Action T W → Channel T
  | .cloneSender _ => {q with senders := q.senders+1}
  | .dropSender _ => {q with senders := q.senders-1}
  | .dropReceiver => {q with values := [],receiver := false}
  | .send _ v => if q.receiver then {q with values := q.values++[v]} else q
  | .tryRecv => q.receive true
  | .pollRecv _ => q.receive false
  | _ => q

variable {q : Channel T}

theorem receive_cons {v : T} {values : List T} (hq : q.values = v::values) (ready : Bool) :
    q.receive ready = ⟨values,q.senders,q.receiver,q.answers++[.value v]⟩ := by
  rw [receive,hq]

theorem receive_closed (hq : q.values = []) (hs : q.senders = 0) (ready : Bool) :
    q.receive ready = {q with answers := q.answers++[.disconnected]} := by
  rw [receive,hq]
  exact if_pos hs

theorem receive_empty (hq : q.values = []) (hs : q.senders ≠ 0) (ready : Bool) :
    q.receive ready = if ready then {q with answers := q.answers++[.empty]} else q := by
  rw [receive,hq]
  exact if_neg hs

end Channel

structure Ok [Wake W] (size : ℕ) (s : State T W) : Prop where
  inbox : s.toInbox.Ok s.values
  segments : Segments size s.batch s.buffer
  checked : s.checks ≠ 0 → s.batch = []
  alone : s.recv.isSome → s.checks = 0
  sound : s.panicked = none

namespace Ok

variable [Wake W] {size : ℕ} {s t : State T W} {a : Action T W}

theorem new : Ok size (unbounded T W) where
  inbox := Inbox.Ok.new
  segments := Segments.new size
  checked h := absurd rfl h
  alone h := by cases h
  sound := rfl

section

variable (h : Ok size s)
include h

theorem refill (hc : s.checks = 0) :
    ∃ t, s.refill = .ok t ∧ Ok size t ∧ t.toInbox = s.toInbox ∧ t.values = s.values ∧
      (t.batch = [] → t.values = []) ∧ t.checks = 0 := by
  by_cases hb : s.batch = []
  · have hseg := h.segments
    rw [hb] at hseg
    obtain ⟨batch,b,hrefill,hseg',hvalues,hnil⟩ := hseg.refill
    have hsame : batch++b.sealed.flatten++b.writable = s.values := by
      rw [State.values,hb,hvalues,List.nil_append]
    refine ⟨{s with batch := batch,buffer := b},?_,⟨?_,hseg',?_,h.alone,h.sound⟩,rfl,hsame,?_,hc⟩
    · simp only [State.refill,hb,List.isEmpty_nil,if_true,hrefill,bind,Except.bind]
    · show s.toInbox.Ok (batch++b.sealed.flatten++b.writable)
      rw [hsame]
      exact h.inbox
    · intro hne
      exact absurd hc hne
    · rintro rfl
      exact hnil rfl
  · refine ⟨s,?_,h,rfl,rfl,fun hnil => absurd hnil hb,hc⟩
    rw [State.refill,if_neg (by simpa using hb)]

theorem popBatch {v : T} {batch : List T} (hb : s.batch = v::batch) :
    Unbounded.popBatch size s.batch = .ok (v,batch) ∧
      s.values = v::(batch++s.buffer.sealed.flatten++s.buffer.writable) ∧
      Ok size {s with toInbox := s.toInbox.answer (.value v),batch := batch} := by
  have hseg := h.segments
  have hinbox := h.inbox
  have hvalues : s.values = v::(batch++s.buffer.sealed.flatten++s.buffer.writable) := by
    rw [State.values,hb]
    rfl
  rw [hb] at hseg
  rw [hvalues] at hinbox
  refine ⟨hb ▸ hseg.popBatch.1,hvalues,hinbox.take,hseg.popBatch.2,fun hc => ?_,h.alone,h.sound⟩
  have hnil := h.checked hc
  rw [hb] at hnil
  cases hnil

theorem with_inbox {i : Inbox T W} (hok : i.Ok s.values) (halone : i.recv.isSome → s.checks = 0) :
    Ok size {s with toInbox := i} :=
  ⟨hok,h.segments,h.checked,halone,h.sound⟩

theorem tryRecv (hc : s.checks = 0) :
    ∃ t, s.tryRecv size = .ok t ∧ Ok size t ∧ s.toInbox.Moves none t.toInbox ∧
      t.channel = s.channel.receive true := by
  obtain ⟨u,hu,hok,hinbox,hvalues,hnil,-⟩ := h.refill hc
  have hmoves : ∀ result, s.toInbox.Moves none (u.toInbox.answer result) := by
    intro result
    rw [hinbox]
    exact .of_eq rfl (List.prefix_append ..) rfl rfl rfl
  have hchannel : u.channel = s.channel := by
    rw [State.channel,State.channel,hvalues,hinbox]
  rw [← hchannel]
  cases hb : u.batch with
  | nil =>
    have hempty := hnil hb
    by_cases hs : u.senders = 0
    · refine ⟨{u with toInbox := u.toInbox.answer .disconnected},?_,
        hok.with_inbox (hok.inbox.refuse rfl fun _ => ⟨hs,hempty⟩) hok.alone,hmoves _,?_⟩
      · simp only [State.tryRecv,hu,hb,bind,Except.bind,List.isEmpty_nil,if_true,hs]
      · rw [Channel.receive_closed hempty hs]
        rfl
    · refine ⟨{u with toInbox := u.toInbox.answer .empty},?_,
        hok.with_inbox (hok.inbox.refuse rfl (by simp)) hok.alone,hmoves _,?_⟩
      · simp only [State.tryRecv,hu,hb,bind,Except.bind,List.isEmpty_nil,if_true,hs,if_false]
      · rw [Channel.receive_empty hempty hs]
        rfl
  | cons v batch =>
    obtain ⟨hpop,hfirst,hok'⟩ := hok.popBatch hb
    refine ⟨_,?_,hok',hmoves _,?_⟩
    · rw [hb] at hpop
      simp only [State.tryRecv,hu,hb,hpop,bind,Except.bind,List.isEmpty_cons,Bool.false_eq_true,if_false]
    · rw [Channel.receive_cons hfirst]
      rfl

theorem pollRecv (hr : s.recv.isSome) (waker : W) :
    ∃ t, s.pollRecv size waker = .ok t ∧ Ok size t ∧ s.toInbox.Moves (some waker) t.toInbox ∧
      t.channel = s.channel.receive false ∧
      (t.recv.isSome → ∃ kept, t.recvWaker = some kept ∧ Reaches kept (some waker)) := by
  obtain ⟨u,hu,hok,hinbox,hvalues,hnil,hchecks⟩ := h.refill (h.alone hr)
  have hreceiver : u.receiver = true := by
    rw [hinbox]
    exact h.inbox.borrowed hr
  have hchannel : u.channel = s.channel := by
    rw [State.channel,State.channel,hvalues,hinbox]
  rw [← hchannel,← hinbox]
  cases hb : u.batch with
  | nil =>
    have hempty := hnil hb
    have hinboxu := hok.inbox
    by_cases hs : u.senders = 0
    · have hnone : u.recvWaker = none := by
        by_contra hne
        exact (hinboxu.waker (Option.isSome_iff_ne_none.mpr hne)).2.1 hs
      refine ⟨{u with toInbox := {u.toInbox.ready .disconnected with recvWaker := none}},
        ?_,?_,.of_eq hnone.symm (List.prefix_append ..) rfl rfl rfl,?_,fun hrecv => ?_⟩
      · simp only [State.pollRecv,hu,hb,bind,Except.bind,List.isEmpty_nil,Bool.not_true,
          Bool.false_eq_true,if_false,hs,if_true]
      · refine hok.with_inbox (((hinboxu.refuse rfl fun _ => ⟨hs,hempty⟩).release).clear rfl) fun hrecv => ?_
        cases hrecv
      · rw [Channel.receive_closed hempty hs]
        rfl
      · cases hrecv
    · refine ⟨{u with toInbox := u.toInbox.pending waker},?_,?_,.pending _ waker,?_,
        fun _ => registerWaker_reaches u.recvWaker waker⟩
      · simp only [State.pollRecv,hu,hb,bind,Except.bind,List.isEmpty_nil,Bool.not_true,
          Bool.false_eq_true,if_false,hs]
      · refine hok.with_inbox ?_ fun _ => hchecks
        rw [hempty] at hinboxu ⊢
        exact hinboxu.pending hs hreceiver waker
      · rw [Channel.receive_empty hempty hs]
        rfl
  | cons v batch =>
    obtain ⟨hpop,hfirst,hok'⟩ := hok.popBatch hb
    refine ⟨{u with toInbox := u.toInbox.ready (.value v),batch := batch},?_,?_,
      .of_eq rfl (List.prefix_append ..) rfl rfl rfl,?_,fun hrecv => ?_⟩
    · rw [hb] at hpop
      simp only [State.pollRecv,hu,hb,hpop,bind,Except.bind,List.isEmpty_cons,Bool.not_false,if_true]
    · refine hok'.with_inbox hok'.inbox.release fun hrecv => ?_
      cases hrecv
    · rw [Channel.receive_cons hfirst]
      rfl
    · cases hrecv

theorem send (hs : s.senders ≠ 0) (v : T) :
    Ok size (s.send size v) ∧ s.toInbox.Moves none (s.send size v).toInbox ∧
      (s.send size v).channel = if s.receiver then {s.channel with values := s.values++[v]} else s.channel := by
  cases hr : s.receiver with
  | false =>
    rw [State.send,hr]
    exact ⟨⟨h.inbox,h.segments,h.checked,h.alone,h.sound⟩,.of_eq rfl List.prefix_rfl rfl rfl rfl,rfl⟩
  | true =>
    obtain ⟨hseg,hvalues⟩ := h.segments.push v
    have hpushed : s.batch++(s.buffer.push size v).sealed.flatten++(s.buffer.push size v).writable =
        s.values++[v] := by
      rw [State.values,List.append_assoc,hvalues]
      simp
    rw [State.send,hr]
    refine ⟨⟨?_,hseg,h.checked,h.alone,h.sound⟩,.publish _ v,?_⟩
    · show (s.toInbox.publish v).Ok (s.batch++(s.buffer.push size v).sealed.flatten++
        (s.buffer.push size v).writable)
      rw [hpushed]
      exact h.inbox.publish hs hr v
    · show Channel.mk (s.batch++(s.buffer.push size v).sealed.flatten++
        (s.buffer.push size v).writable) _ _ _ = _
      rw [hpushed]
      rfl

theorem act {x : Except String (State T W)} (hx : s.act size a = some x) :
    ∃ t, x = .ok t ∧ Ok size t ∧ s.toInbox.Moves a.polled t.toInbox ∧
      t.channel = s.channel.step a := by
  have hidle : s.idle = true → s.receiver = true ∧ s.recv = none ∧ s.checks = 0 := by
    intro hi
    rw [State.idle,State.shared,Bool.and_eq_true,Bool.and_eq_true,Option.isNone_iff_eq_none,
      beq_iff_eq] at hi
    exact ⟨hi.1.1,hi.1.2,hi.2⟩
  cases a with
  | cloneSender q =>
    obtain ⟨hq,⟨⟩⟩ := Option.ite_none_right_eq_some.mp hx
    exact ⟨_,rfl,h.with_inbox (h.inbox.cloneSender hq) h.alone,.cloneSender (h.inbox.senders_ne hq),rfl⟩
  | dropSender q =>
    obtain ⟨hq,⟨⟩⟩ := Option.ite_none_right_eq_some.mp hx
    have hfields : (s.toInbox.dropSender q).recv = s.recv ∧
        (s.toInbox.dropSender q).senders = s.senders-1 ∧
        (s.toInbox.dropSender q).receiver = s.receiver ∧
        (s.toInbox.dropSender q).answers = s.answers := by
      rw [Inbox.dropSender]
      split <;> exact ⟨rfl,rfl,rfl,rfl⟩
    refine ⟨_,rfl,h.with_inbox (h.inbox.dropSender hq) (by rw [hfields.1]; exact h.alone),
      .dropSender _ q,?_⟩
    show Channel.mk s.values _ _ _ = _
    rw [hfields.2.1,hfields.2.2.1,hfields.2.2.2]
    rfl
  | dropReceiver =>
    obtain ⟨hi,⟨⟩⟩ := Option.ite_none_right_eq_some.mp hx
    refine ⟨_,rfl,⟨h.inbox.dropReceiver (hidle hi).2.1,Segments.new size,fun _ => rfl,h.alone,h.sound⟩,
      .dropReceiver rfl rfl rfl rfl,rfl⟩
  | send q v =>
    obtain ⟨hq,⟨⟩⟩ := Option.ite_none_right_eq_some.mp hx
    exact ⟨_,rfl,h.send (h.inbox.senders_ne hq) v⟩
  | tryRecv =>
    obtain ⟨hi,⟨⟩⟩ := Option.ite_none_right_eq_some.mp hx
    exact h.tryRecv (hidle hi).2.2
  | recv =>
    obtain ⟨hi,⟨⟩⟩ := Option.ite_none_right_eq_some.mp hx
    exact ⟨_,rfl,h.with_inbox (h.inbox.begin (hidle hi).1) fun _ => (hidle hi).2.2,
      .of_eq rfl List.prefix_rfl rfl rfl rfl,rfl⟩
  | pollRecv waker =>
    obtain ⟨hr,⟨⟩⟩ := Option.ite_none_right_eq_some.mp hx
    obtain ⟨t,ht,hok,hmoves,hchannel,-⟩ := h.pollRecv hr waker
    exact ⟨t,ht,hok,hmoves,hchannel⟩
  | dropRecv =>
    obtain ⟨-,⟨⟩⟩ := Option.ite_none_right_eq_some.mp hx
    refine ⟨_,rfl,h.with_inbox h.inbox.release fun hr => ?_,.of_eq rfl List.prefix_rfl rfl rfl rfl,rfl⟩
    cases hr
  | readBatch =>
    obtain ⟨hs,⟨⟩⟩ := Option.ite_none_right_eq_some.mp hx
    rw [State.shared,Bool.and_eq_true,Option.isNone_iff_eq_none] at hs
    rw [State.readBatch]
    split
    · next hb =>
      refine ⟨_,rfl,⟨h.inbox,h.segments,fun _ => List.isEmpty_iff.mp hb,fun hr => ?_,h.sound⟩,
        .of_eq rfl List.prefix_rfl rfl rfl rfl,rfl⟩
      rw [show ({s with checks := s.checks+1} : State T W).recv = none from hs.2] at hr
      cases hr
    · exact ⟨_,rfl,⟨h.inbox,h.segments,h.checked,h.alone,h.sound⟩,
        .of_eq rfl List.prefix_rfl rfl rfl rfl,rfl⟩
  | readBuffer =>
    obtain ⟨hc,⟨⟩⟩ := Option.ite_none_right_eq_some.mp hx
    refine ⟨_,rfl,⟨h.inbox,h.segments,fun _ => h.checked hc,fun hr => ?_,h.sound⟩,
      .of_eq rfl List.prefix_rfl rfl rfl rfl,rfl⟩
    exact absurd (h.alone hr) hc

theorem next (hn : s.next size a = some t) :
    s.act size a = some (.ok t) ∧ Ok size t ∧ s.toInbox.Moves a.polled t.toInbox ∧
      t.channel = s.channel.step a :=
  Transition.step_ok (fun _ => h.act) hn

end

end Ok

theorem reachable_ok [Wake W] {s : State T W} (h : (machine T W size).Reachable s) : Ok size s := by
  refine (machine T W size).invariant (Ok size) ?_ (fun s a t hs hn => (hs.next hn).2.1) h
  rintro s rfl
  exact Ok.new

structure State.Contract [Wake W] (size : ℕ) (s : State T W) : Prop where
  fifo : ∀ a t, s.next size a = some t → t.channel = s.channel.step a
  refills : s.checks = 0 → ∃ t, s.refill = .ok t ∧ t.values = s.values
  readBatch : ∀ t, s.next size .readBatch = some t →
    s.batch ≠ [] ∧ s.values ≠ [] ∧ t.emptiness = s.emptiness++[false] ∨
      s.batch = [] ∧ t.emptiness = s.emptiness ∧ t.checks = s.checks+1
  readBuffer : ∀ t, s.next size .readBuffer = some t → t.emptiness = s.emptiness++[s.values.isEmpty]
  full : ∀ segment ∈ s.buffer.sealed, segment ≠ [] ∧ segment.length = segmentCapacity size
  single : size > segmentBytes → s.batch.length ≤ 1
  waker : s.recvWaker.isSome →
    s.batch = [] ∧ s.buffer.isEmpty = true ∧ s.senders ≠ 0 ∧ s.receiver = true
  left : ∀ waker t, s.next size (.pollRecv waker) = some t → t.recv.isSome →
    ∃ kept, t.recvWaker = some kept ∧ Reaches kept (some waker)
  woken : ∀ waker, s.recv = some (some waker) →
    (∃ kept, s.recvWaker = some kept ∧ Reaches kept (some waker)) ∨
      ∃ kept ∈ s.woken.drop s.mark, Reaches kept (some waker)
  received : s.received <+: s.published
  stored : s.receiver = true → s.published = s.received++s.values
  closed : .disconnected ∈ s.answers → s.senders = 0 ∧ s.values = []
  moves : ∀ a t, s.next size a = some t → s.toInbox.Moves a.polled t.toInbox
  sound : s.panicked = none

theorem unbounded_contract (T W : Type) [Wake W] (size : ℕ) (s : State T W)
    (h : (machine T W size).Reachable s) : s.Contract size := by
  have hok := reachable_ok h
  refine ⟨fun a t hn => (hok.next hn).2.2.2,fun hc => ?_,fun t hn => ?_,fun t hn => ?_,
    fun segment hs => ⟨hok.segments.sealed_ne_nil hs,hok.segments.full segment hs⟩,fun hsize => ?_,
    fun hw => ?_,fun waker t hn hr => ?_,hok.inbox.woken,
    (List.prefix_append _ _).trans hok.inbox.delivered,hok.inbox.stored,hok.inbox.closed,
    fun a t hn => (hok.next hn).2.2.1,hok.sound⟩
  · obtain ⟨t,ht,-,-,hvalues,-⟩ := hok.refill hc
    exact ⟨t,ht,hvalues⟩
  · obtain ⟨-,hx⟩ := Option.ite_none_right_eq_some.mp (hok.next hn).1
    obtain rfl : s.readBatch = t := Except.ok.inj (Option.some.inj hx)
    by_cases hb : s.batch = []
    · refine Or.inr ⟨hb,?_⟩
      rw [State.readBatch,hb]
      exact ⟨rfl,rfl⟩
    · refine Or.inl ⟨hb,by simp [State.values,hb],?_⟩
      rw [State.readBatch,if_neg (by simpa using hb)]
  · obtain ⟨hc,hx⟩ := Option.ite_none_right_eq_some.mp (hok.next hn).1
    obtain rfl : s.readBuffer = t := Except.ok.inj (Option.some.inj hx)
    have hb := hok.checked hc
    show s.emptiness++[s.buffer.isEmpty] = _
    rw [hok.segments.isEmpty_iff,State.values,hb,List.nil_append]
  · have hle := hok.segments.batch_le
    rwa [segmentCapacity_oversized hsize] at hle
  · obtain ⟨hnil,hs,hr⟩ := hok.inbox.waker hw
    rw [State.values,List.append_assoc,List.append_eq_nil_iff] at hnil
    refine ⟨hnil.1,?_,hs,hr⟩
    rw [hok.segments.isEmpty_iff,hnil.2]
    rfl
  · obtain ⟨hrecv,hx⟩ := Option.ite_none_right_eq_some.mp (hok.next hn).1
    obtain ⟨u,hu,-,-,-,hleft⟩ := hok.pollRecv hrecv waker
    cases (Option.some.inj hx).symm.trans hu
    exact hleft hr

/-- Values of half a segment: five of them fill two segments and part of a third, and the
receiver drains them in order. -/
def segmentRun : List (Action ℕ ℕ) :=
  [.recv,.pollRecv 7,.send 0 1,.send 0 2,.send 0 3,.send 0 4,.send 0 5,.pollRecv 7,.readBatch,
    .tryRecv,.readBatch,.readBuffer,.tryRecv,.tryRecv,.dropSender 0,.tryRecv,.tryRecv]

theorem unbounded_contract_segmentRun :
    ∃ s, (machine ℕ ℕ (16*1024)).exec (unbounded ℕ ℕ) segmentRun = some s ∧ s.Contract (16*1024) ∧
      s.received = [1,2,3,4,5] ∧ s.woken = [7] ∧ s.emptiness = [false,false] := by
  have hrun : ((machine ℕ ℕ (16*1024)).exec (unbounded ℕ ℕ) segmentRun).map (fun s =>
      (s.received,s.woken,s.emptiness)) = some ([1,2,3,4,5],[7],[false,false]) := by
    decide +kernel
  obtain ⟨s,hs,hend⟩ := Option.map_eq_some_iff.mp hrun
  simp only [Prod.mk.injEq] at hend
  exact ⟨s,hs,unbounded_contract ℕ ℕ _ s ((machine ℕ ℕ _).reachable_of_exec rfl hs),hend⟩

end Unbounded
end Mpsc
end Asyncband
