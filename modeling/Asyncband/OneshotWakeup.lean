import Asyncband.OneshotOwnership

/-! No oneshot receive sleeps through its completion.
A pending `Recv` is covered: its waker is published, or the sender has claimed a waker
that reaches the same task and has not woken it yet, or such a waker was woken since
the latest poll started. -/
namespace Asyncband
namespace Oneshot

variable {T W : Type}

namespace State

def byte (s : State T W) : Option UInt8 := s.channel.map Channel.state

/-- The sender is between its move from `RECEIVING` to `AWAKING` and its wake call,
with this waker. -/
inductive Claimed (s : State T W) (stored : Stored W) : Prop
  | taking (call : SenderCall) (hs : s.sender = .takeWaker call) (hw : s.waker = some stored)
  | swapping (call : SenderCall) (hs : s.sender = .swap call stored)
  | waking (call : SenderCall) (hs : s.sender = .wake call stored)

/-- The task of the latest poll will be or has been woken. -/
inductive Covered [Wake W] (s : State T W) (latest : W) : Prop
  | published (stored : Stored W) (hb : s.byte = some Byte.receiving) (hw : s.waker = some stored)
    (hr : Reaches stored.waker (some latest))
  | claimed (stored : Stored W) (hs : s.Claimed stored) (hr : Reaches stored.waker (some latest))
  | woken (waker : W) (hw : waker ∈ s.wakes) (hr : Reaches waker (some latest))

end State

inductive Unpolled : ReceiverStage W → Prop
  | receiver : Unpolled .receiver
  | store : Unpolled (.storeDisconnected .tryRecv)
  | take : Unpolled (.takeMessage .tryRecv)

structure Listening [Wake W] (s : State T W) : Prop where
  unpolled : Unpolled s.receiver → s.pending = none
  covered : s.receiver = .future → ∀ waker seen, s.pending = some (waker,seen) → s.Covered waker
  publish : ∀ waker, s.receiver = .publish waker →
    ∃ stored, s.waker = some stored ∧ Reaches stored.waker (some waker)
  awaking : s.receiver = .future → ∀ waker, s.pending = some (waker,Byte.awaking) → waker ∈ s.wakes

/-! ### The sender's steps -/

structure Apart (s t : State T W) : Prop where
  receiver : t.receiver = s.receiver
  pending : t.pending = s.pending
  wakes : s.wakes ⊆ t.wakes

theorem Apart.senderStep {s t : State T W} (hok : Ok s) (h : s.senderStep = some (.ok t)) :
    Apart s t := by
  obtain ⟨agree,-⟩ := hok
  cases s
  -- in each situation the step is determined and writes neither field of the receiver
  cases agree with
  | unpublished hs ho =>
    cases hs with
    | sender => cases h
    | writeMessage | fetchAdd | fetchXor =>
      cases ho <;> obtain rfl := Except.ok.inj (Option.some.inj h) <;>
        exact ⟨rfl,rfl,fun _ hw => hw⟩
  | awakening hs ha =>
    cases hs <;> cases ha <;> obtain rfl := Except.ok.inj (Option.some.inj h) <;>
      exact ⟨rfl,rfl,fun _ hw => hw⟩
  | cleaning b o hs =>
    cases hs with
    | error => cases h
    | free cleanup =>
      obtain rfl := Except.ok.inj (Option.some.inj h)
      cases cleanup <;> exact ⟨rfl,rfl,fun _ hw => hw⟩
    | _ =>
      obtain rfl := Except.ok.inj (Option.some.inj h)
      exact ⟨rfl,rfl,fun _ hw => hw⟩
  | finishing hs =>
    cases hs with
    | wake call waker =>
      obtain rfl := Except.ok.inj (Option.some.inj h)
      cases call <;> exact ⟨rfl,rfl,List.subset_append_left _ _⟩
    | done => cases h
  | freed o hs =>
    cases hs with
    | wake call waker =>
      obtain rfl := Except.ok.inj (Option.some.inj h)
      cases call <;> exact ⟨rfl,rfl,List.subset_append_left _ _⟩
    | dropWaker call waker =>
      obtain rfl := Except.ok.inj (Option.some.inj h)
      cases call <;> exact ⟨rfl,rfl,fun _ hw => hw⟩
    | done => cases h

section Sender

variable {s t : State T W} {stored : Stored W}

section

variable (hok : Ok s) (h : s.senderStep = some (.ok t))
include hok h

theorem published_senderStep (hb : s.byte = some Byte.receiving) (hw : s.waker = some stored)
    (hr : s.receiver = .future) :
    (t.byte = some Byte.receiving ∧ t.waker = some stored) ∨ t.Claimed stored := by
  obtain ⟨agree,-⟩ := hok
  cases s
  subst hr
  cases agree with
  | unpublished hs ho =>
    cases ho with
    | idle => exact absurd (Option.some.inj hb) (show Byte.empty ≠ Byte.receiving by decide)
    | holding _ hh => cases hh
    | parked =>
      cases hs with
      | sender => cases h
      | writeMessage message =>
        obtain rfl := Except.ok.inj (Option.some.inj h)
        exact .inl ⟨rfl,hw⟩
      | fetchAdd message =>
        obtain rfl := Except.ok.inj (Option.some.inj h)
        exact .inr (.taking .send rfl hw)
      | fetchXor =>
        obtain rfl := Except.ok.inj (Option.some.inj h)
        exact .inr (.taking .drop rfl hw)
  | awakening _ ha =>
    cases ha with
    | awaking => exact absurd (Option.some.inj hb) (show Byte.awaking ≠ Byte.receiving by decide)
  | finishing _ hf =>
    cases hf with
    | resting => cases hw
    | holding _ hh => cases hh
    | closing hc => cases hc

theorem claimed_senderStep (hc : s.Claimed stored) (hr : s.receiver = .future) :
    t.Claimed stored ∨ stored.waker ∈ t.wakes := by
  obtain ⟨agree,-⟩ := hok
  cases hc with
  | taking call hs hw =>
    cases s
    subst hr
    subst hs
    cases agree with
    | unpublished hs => cases hs
    | awakening hs =>
      cases hw
      cases hs with
      | takeForSend =>
        obtain rfl := Except.ok.inj (Option.some.inj h)
        exact .inl (.swapping .send rfl)
      | takeForDrop =>
        obtain rfl := Except.ok.inj (Option.some.inj h)
        exact .inl (.swapping .drop rfl)
    | finishing hs => cases hs
  | swapping call hs =>
    cases s
    subst hr
    subst hs
    cases agree with
    | unpublished hs => cases hs
    | awakening hs ha =>
      cases ha with
      | awaking =>
        obtain rfl := Except.ok.inj (Option.some.inj h)
        exact .inl (.waking call rfl)
    | finishing hs => cases hs
  | waking call hs =>
    simp only [State.senderStep,hs,Option.some.injEq,Except.ok.injEq] at h
    subst h
    cases call <;> exact .inr (List.mem_append_right _ (List.mem_singleton.mpr rfl))

/-- The sender keeps away from a waker that the receiver is about to publish. -/
theorem publish_senderStep {waker : W} (hr : s.receiver = .publish waker) : t.waker = s.waker := by
  obtain ⟨agree,-⟩ := hok
  cases s
  subst hr
  obtain ⟨b,m,side,stored,rfl,rfl,hu⟩ := agree.of_holding (.publish waker)
  cases hu with
  | unpublished hs =>
    cases hs with
    | sender => cases h
    | writeMessage | fetchAdd | fetchXor =>
      obtain rfl := Except.ok.inj (Option.some.inj h)
      rfl
  | departed hs =>
    cases hs with
    | wake call stored =>
      obtain rfl := Except.ok.inj (Option.some.inj h)
      cases call <;> rfl
    | done => cases h

end

theorem Listening.senderStep [Wake W] (hok : Ok s) (hl : Listening s) (h : s.senderStep = some (.ok t)) :
    Listening t := by
  have hapart := Apart.senderStep hok h
  refine ⟨?_,?_,?_,?_⟩
  · intro hr
    rw [hapart.receiver] at hr
    rw [hapart.pending]
    exact hl.unpolled hr
  · intro hr waker seen hp
    rw [hapart.receiver] at hr
    rw [hapart.pending] at hp
    cases hl.covered hr waker seen hp with
    | published stored hb hw hreach =>
      rcases published_senderStep hok h hb hw hr with ⟨hb,hw⟩ | hc
      · exact .published stored hb hw hreach
      · exact .claimed stored hc hreach
    | claimed stored hc hreach =>
      rcases claimed_senderStep hok h hc hr with hc | hw
      · exact .claimed stored hc hreach
      · exact .woken _ hw hreach
    | woken waker hw hreach => exact .woken waker (hapart.wakes hw) hreach
  · intro waker hr
    rw [hapart.receiver] at hr
    rw [publish_senderStep hok h hr]
    exact hl.publish waker hr
  · intro hr waker hp
    rw [hapart.receiver] at hr
    rw [hapart.pending] at hp
    exact hapart.wakes (hl.awaking hr waker hp)

end Sender

/-! ### The receiver's steps -/

/-- Stages of a poll that has not returned, or of an endpoint that takes no more polls. -/
def ReceiverStage.quiet : ReceiverStage W → Bool
  | .receiver => false
  | .storeDisconnected .tryRecv => false
  | .takeMessage .tryRecv => false
  | .future => false
  | .publish _ => false
  | _ => true

namespace Listening

variable [Wake W] {s t : State T W} {waker : W}

theorem of_quiet (h : t.receiver.quiet = true) : Listening t := by
  refine ⟨?_,?_,?_,?_⟩
  · intro hr
    cases hr' : t.receiver <;> rw [hr'] at hr h <;> cases hr <;> cases h
  · intro hr
    rw [hr] at h
    cases h
  · intro waker hr
    rw [hr] at h
    cases h
  · intro hr
    rw [hr] at h
    cases h

theorem of_none (hp : t.pending = none) (hr : ∀ waker, t.receiver ≠ .publish waker) :
    Listening t := by
  refine ⟨fun _ => hp,?_,fun waker hw => absurd hw (hr waker),?_⟩
  · intro _ waker seen hs
    rw [hp] at hs
    cases hs
  · intro _ waker hs
    rw [hp] at hs
    cases hs

theorem publish_step (hok : Ok s) (hl : Listening s) (hr : s.receiver = .publish waker)
    (h : s.publishWaker waker = .ok t) : Listening t := by
  obtain ⟨stored,hw,hreach⟩ := hl.publish waker hr
  obtain ⟨agree,-⟩ := hok
  cases s
  subst hr
  obtain ⟨b,m,side,stored,rfl,rfl,hu⟩ := agree.of_holding (.publish waker)
  cases hw
  cases hu with
  | unpublished hs =>
    obtain rfl := Except.ok.inj h
    refine ⟨by rintro ⟨⟩,?_,by rintro _ ⟨⟩,?_⟩
    · rintro - latest seen ⟨⟩
      exact .published stored rfl rfl hreach
    · intro _ latest hp
      have hseen : Byte.empty = Byte.awaking := (Prod.mk.inj (Option.some.inj hp)).2
      exact absurd hseen (by decide)
  | departed hs hf =>
    cases hf with
    | message | disconnected =>
      obtain rfl := Except.ok.inj h
      exact .of_quiet rfl

theorem writeWaker_step (hok : Ok s) (hr : s.receiver = .writeWaker waker)
    (h : s.receiverStep = some (.ok t)) : Listening t := by
  obtain ⟨agree,-⟩ := hok
  cases s
  subst hr
  obtain ⟨b,m,side,rfl,rfl,hu⟩ := agree.of_writeWaker
  obtain rfl := Except.ok.inj (Option.some.inj h)
  refine ⟨by rintro ⟨⟩,by rintro ⟨⟩,?_,by rintro ⟨⟩⟩
  rintro latest ⟨⟩
  exact ⟨_,rfl,waker,rfl,.inl rfl⟩

theorem compare_step (hok : Ok s) (hr : s.receiver = .compare waker)
    (h : s.receiverStep = some (.ok t)) : Listening t := by
  obtain ⟨agree,-⟩ := hok
  cases s
  subst hr
  obtain ⟨b,m,side,stored,rfl,rfl,hu⟩ := agree.of_holding (.compare waker)
  obtain rfl := Except.ok.inj (Option.some.inj h)
  by_cases hwill : Wake.willWake stored.waker waker = true
  · rw [if_pos hwill]
    refine ⟨by rintro ⟨⟩,by rintro ⟨⟩,?_,by rintro ⟨⟩⟩
    rintro latest ⟨⟩
    exact ⟨stored,rfl,waker,rfl,.inr hwill⟩
  · rw [if_neg hwill]
    exact .of_quiet rfl

theorem wakeByRef_step (s : State T W) (waker : W) :
    Listening ({s with wakes := s.wakes++[waker]}.returnPending waker Byte.awaking) := by
  have hmem : waker ∈ s.wakes++[waker] := List.mem_append_right _ (List.mem_singleton.mpr rfl)
  refine ⟨by rintro ⟨⟩,?_,by rintro _ ⟨⟩,?_⟩
  · rintro - latest seen ⟨⟩
    exact .woken waker hmem ⟨waker,rfl,.inl rfl⟩
  · rintro - latest ⟨⟩
    exact hmem

theorem unpolled_step (hok : Ok s) (hl : Listening s) {mode : RecvMode}
    (hr : s.receiver = .storeDisconnected mode ∨ s.receiver = .takeMessage mode)
    (h : s.receiverStep = some (.ok t)) : Listening t := by
  obtain ⟨agree,-⟩ := hok
  cases s
  rcases hr with hr | hr <;> subst hr
  · obtain ⟨d,rfl,-,hc⟩ := agree.of_ending (.store mode)
    cases hc
    obtain rfl := Except.ok.inj (Option.some.inj h)
    cases mode with
    | tryRecv => exact .of_none (hl.unpolled .store) (by rintro _ ⟨⟩)
    | poll => exact .of_quiet rfl
  · obtain ⟨d,rfl,-,hc⟩ := agree.of_ending (.take mode)
    cases hc
    obtain rfl := Except.ok.inj (Option.some.inj h)
    cases mode with
    | tryRecv => exact .of_none (hl.unpolled .take) (by rintro _ ⟨⟩)
    | poll => exact .of_quiet rfl

theorem receiverStep (hok : Ok s) (hl : Listening s) (h : s.receiverStep = some (.ok t)) :
    Listening t := by
  cases hr : s.receiver with
  | receiver | future | completed | done => simp [State.receiverStep,hr] at h
  | storeDisconnected mode => exact unpolled_step hok hl (.inl hr) h
  | takeMessage mode => exact unpolled_step hok hl (.inr hr) h
  | writeWaker waker => exact writeWaker_step hok hr h
  | compare waker => exact compare_step hok hr h
  | publish waker =>
    simp only [State.receiverStep,hr,Option.some.injEq] at h
    exact publish_step hok hl hr h
  | wakeByRef waker =>
    simp only [State.receiverStep,hr,Option.some.injEq,Except.ok.injEq] at h
    rw [← h]
    exact wakeByRef_step s waker
  | swap | reclaim | dropExchange =>
    simp only [State.receiverStep,hr,Option.some.injEq,State.dropReceiver,State.reclaimWaker,
      State.dropExchange] at h
    obtain ⟨⟨previous,u⟩,-,h⟩ := bind_eq_ok h
    dsimp only at h
    repeat' split at h
    all_goals cases h
    all_goals exact .of_quiet rfl
  | load | dropLoad =>
    simp only [State.receiverStep,hr,Option.some.injEq,State.pollLoad,State.dropLoad] at h
    obtain ⟨state,-,h⟩ := bind_eq_ok h
    repeat' split at h
    all_goals cases h
    all_goals exact .of_quiet rfl
  | dropRaced message =>
    simp only [State.receiverStep,hr,Option.some.injEq] at h
    obtain ⟨u,-,h⟩ := bind_eq_ok h
    cases message <;> cases h <;> exact .of_quiet rfl
  | dropStale | dropWaker | dropMessage | free =>
    simp only [State.receiverStep,hr,Option.some.injEq] at h
    obtain ⟨u,-,h⟩ := bind_eq_ok h
    cases h
    exact .of_quiet rfl

/-! ### Runs -/

theorem setSender (hl : Listening s) (stage : SenderStage T W)
    (hc : ∀ stored, ¬s.Claimed stored) : Listening {s with sender := stage} := by
  refine ⟨hl.unpolled,?_,hl.publish,hl.awaking⟩
  intro hr waker seen hp
  cases hl.covered hr waker seen hp with
  | published stored hb hw hreach => exact .published stored hb hw hreach
  | claimed stored hs => exact absurd hs (hc stored)
  | woken waker hw hreach => exact .woken waker hw hreach

theorem actSender (hok : Ok s) (hl : Listening s) {a : SenderAction T}
    (h : s.actSender a = some (.ok t)) : Listening t := by
  have hidle (hs : s.sender = .sender ∨ s.sender = .error) (stored : Stored W) :
      ¬s.Claimed stored := by
    rintro (⟨_,hs',_⟩ | ⟨_,hs'⟩ | ⟨_,hs'⟩) <;> simp [hs'] at hs
  cases a with
  | isDisconnected | asInner =>
    simp only [State.actSender] at h
    split at h <;> simp only [reduceCtorEq,Option.some.injEq] at h
    obtain ⟨_,-,h⟩ := bind_eq_ok h
    cases h
    exact hl
  | send | drop =>
    simp only [State.actSender] at h
    split at h <;> cases h
    rename_i hs
    exact hl.setSender _ (hidle (.inl hs))
  | intoInner | dropError =>
    simp only [State.actSender] at h
    split at h <;> cases h
    rename_i hs
    exact hl.setSender _ (hidle (.inr hs))
  | step => exact hl.senderStep hok h

theorem actReceiver (hok : Ok s) (hl : Listening s) {a : ReceiverAction W}
    (h : s.actReceiver a = some (.ok t)) : Listening t := by
  cases a with
  | isDisconnected | hasMessage =>
    simp only [State.actReceiver] at h
    split at h <;> simp only [reduceCtorEq,Option.some.injEq] at h
    obtain ⟨_,-,h⟩ := bind_eq_ok h
    cases h
    exact hl
  | tryRecv =>
    simp only [State.actReceiver,State.tryRecv] at h
    split at h <;> simp only [reduceCtorEq,Option.some.injEq] at h
    rename_i hr
    have hpending := hl.unpolled (hr ▸ .receiver)
    obtain ⟨state,-,h⟩ := bind_eq_ok h
    repeat' split at h
    all_goals cases h
    all_goals exact .of_none hpending (by rintro _ ⟨⟩)
  | intoFuture =>
    simp only [State.actReceiver] at h
    split at h <;> cases h
    rename_i hr
    exact .of_none (hl.unpolled (hr ▸ .receiver)) (by rintro _ ⟨⟩)
  | poll | drop =>
    simp only [State.actReceiver] at h
    split at h <;> cases h <;> exact .of_quiet rfl
  | step => exact hl.receiverStep hok h

theorem next (hok : Ok s) (hl : Listening s) {a : Action T W} (h : s.next a = some t) :
    Listening t := by
  obtain ⟨hx,-⟩ := Transition.step_ok (fun _ => hok.act) h
  cases a with
  | sender action => exact hl.actSender hok hx
  | receiver action => exact hl.actReceiver hok hx

end Listening

variable [Wake W] {s : State T W}

theorem reachable_listening (h : (machine T W).Reachable s) : Listening s := by
  have hboth : Ok s ∧ Listening s := by
    refine (machine T W).invariant (fun s => Ok s ∧ Listening s) ?_ ?_ h
    · rintro s rfl
      exact ⟨Ok.channel_ok T W,.of_none rfl (by rintro _ ⟨⟩)⟩
    · rintro s a t ⟨hok,hl⟩ hn
      exact ⟨hok.next hn,hl.next hok hn⟩
  exact hboth.2

/-- A `Recv` whose latest poll was given `waker`, saw the byte `seen` last and returned
pending. -/
structure Attended (s : State T W) (waker : W) (seen : UInt8) : Prop where
  covered : s.Covered waker
  /-- A poll that saw `AWAKING` has woken its own waker. -/
  awaking : seen = Byte.awaking → waker ∈ s.wakes
  /-- A finished sender has woken the task. -/
  finished : s.sender = .done → s.byte = some Byte.message ∨ s.byte = some Byte.disconnected →
    ∃ woken ∈ s.wakes, Reaches woken (some waker)

theorem recv_attended (h : (machine T W).Reachable s) (hr : s.receiver = .future) {waker : W}
    {seen : UInt8} (hp : s.pending = some (waker,seen)) : Attended s waker seen := by
  have hl := reachable_listening h
  have hcovered := hl.covered hr waker seen hp
  refine ⟨hcovered,?_,?_⟩
  · rintro rfl
    exact hl.awaking hr waker hp
  · intro hs hbyte
    cases hcovered with
    | published stored hb =>
      rw [hb] at hbyte
      exact absurd hbyte (by decide)
    | claimed stored hc =>
      rcases hc with ⟨_,hs',_⟩ | ⟨_,hs'⟩ | ⟨_,hs'⟩ <;> rw [hs] at hs' <;> cases hs'
    | woken woken hw hreach => exact ⟨woken,hw,hreach⟩

/-- The second poll brings another waker while the sender is awakening the first one. -/
def awakeRun : List (Action ℕ ℕ) :=
  [.receiver .intoFuture,.receiver (.poll 7),.receiver .step,.receiver .step,.receiver .step,
   .sender (.send 42),.sender .step,.sender .step,
   .receiver (.poll 8),.receiver .step,.receiver .step,
   .sender .step,.sender .step,.sender .step]

theorem recv_attended_awakeRun :
    ∃ s, (machine ℕ ℕ).exec (channel ℕ ℕ) awakeRun = some s ∧ s.sender = .done ∧
      s.byte = some Byte.message ∧ s.wakes = [8,7] ∧ Attended s 8 Byte.awaking := by
  refine ⟨_,rfl,rfl,rfl,rfl,?_⟩
  have hreach : (machine ℕ ℕ).Reachable _ :=
    ⟨channel ℕ ℕ,awakeRun,rfl,fun _ _ => trivial,rfl⟩
  exact recv_attended hreach rfl rfl

end Oneshot
end Asyncband
