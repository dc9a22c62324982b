import Asyncband.MpscBounded

/-! The values of sending calls.
A call carries the value it was given until it ends. Storing that value in the channel and
ending the call with success are one step; every other end hands the value back. -/
namespace Asyncband
namespace Mpsc
namespace Bounded

variable {T W : Type} {s t : State T W} {a : Action T W} {p : ℕ} {c c' : SendCall T W} {v : T}
    {payload : Option T} {waiter : Option WaiterId}

/-- The value that a call carries, or hands back. -/
def SendCall.value (c : SendCall T W) : Option T :=
  match c.stage with
  | .unsent value => some value
  | .reserving payload _ => payload
  | .permit payload => payload
  | .rejecting value => some value
  | .done (.refused _ value) => value
  | .done (.failed value) => value
  | _ => none

def Action.given : Action T W → Option T
  | .trySend _ value => some value
  | .send _ value => some value
  | .sendPermit _ value => some value
  | _ => none

/-- What a step does to the sending calls and to the values put into the channel. -/
inductive Sends (s : State T W) (a : Action T W) (t : State T W) : Prop
  | keep (h : (t.published,t.sends) = (s.published,s.sends))
  | enter (c : SendCall T W) (hc : c.stage ≠ .done .sent) (hv : c.value = a.given)
      (h : (t.published,t.sends) = (s.published,s.sends++[c]))
  /-- `try_send` succeeds at once. -/
  | enterSent (v : T) (c : SendCall T W) (hv : a.given = some v) (hc : c.stage = .done .sent)
      (h : (t.published,t.sends) = (s.published++[v],s.sends++[c]))
  | change (p : ℕ) (c c' : SendCall T W) (hp : s.sends[p]? = some c) (hc : c.stage ≠ .done .sent)
      (hc' : c'.stage ≠ .done .sent)
      (hv : c'.stage = .cancelled ∨ c'.value = c.value ∨ c.value = none ∧ c'.value = a.given)
      (h : (t.published,t.sends) = (s.published,s.sends.set p c'))
  | send (p : ℕ) (v : T) (c c' : SendCall T W) (hp : s.sends[p]? = some c) (hv : c.value = some v)
      (hc' : c'.stage = .done .sent)
      (h : (t.published,t.sends) = (s.published++[v],s.sends.set p c'))

namespace State

theorem acquire_kept (h : s.acquire = .ok t) : (t.published,t.sends) = (s.published,s.sends) := by
  simp only [acquire] at h
  split at h
  · cases h
  · split at h <;> cases h
    rfl

theorem release_kept (h : s.release = .ok t) : (t.published,t.sends) = (s.published,s.sends) := by
  simp only [release] at h
  split at h
  · cases h
    rfl
  · obtain ⟨⟨x,w⟩,-,h⟩ := bind_eq_ok h
    rcases x with _ | ⟨q,waker⟩ <;> cases h <;> rfl

theorem pop_kept {x : Received T} (h : s.pop = .ok (x,t)) :
    (t.published,t.sends) = (s.published,s.sends) := by
  simp only [pop] at h
  split at h
  · obtain ⟨u,hu,h⟩ := bind_eq_ok h
    cases h
    have hkept := release_kept hu
    exact hkept
  · cases h
    rfl

section

variable (hp : s.sends[p]? = some c)
include hp

theorem pollSend_sends (hc : c.stage = .unsent v) : Sends s a (s.pollSend p c v) := by
  have hvalue : c.value = some v := by rw [SendCall.value,hc]
  have hne : c.stage ≠ .done .sent := by simp [hc]
  rw [pollSend,trySend]
  cases hacq : s.acquire with
  | ok u =>
    obtain ⟨hpub,hs⟩ := Prod.mk.inj (acquire_kept hacq)
    exact .send p v c _ hp hvalue rfl (Prod.ext (congrArg (·++[v]) hpub) (congrArg (List.set · p _) hs))
  | error error =>
    cases error with
    | full =>
      exact .change p c {c with stage := .reserving (some v) none} hp hne (by simp)
        (.inr (.inl hvalue.symm)) rfl
    | disconnected =>
      exact .change p c {c with stage := .done (.failed (some v))} hp hne (by simp)
        (.inr (.inl hvalue.symm)) rfl

theorem permitSend_sends (hc : c.stage = .permit (some v)) : Sends s a (s.permitSend p c v) := by
  have hvalue : c.value = some v := by rw [SendCall.value,hc]
  rw [permitSend]
  split
  · exact .change p c {c with stage := .rejecting v} hp (by simp [hc]) (by simp)
      (.inr (.inl hvalue.symm)) rfl
  · exact .send p v c _ hp hvalue rfl rfl

theorem pollReserve_sends [Wake W] {waker : W} (hc : c.stage = .reserving payload waiter)
    (h : s.pollReserve p c payload waiter waker = .ok t) : Sends s a t := by
  have hvalue : c.value = payload := by rw [SendCall.value,hc]
  have hchange {d : SendCall T W} (hd : d.stage ≠ .done .sent) (hdv : d.value = payload)
      (ht : (t.published,t.sends) = (s.published,s.sends.set p d)) : Sends s a t :=
    .change p c d hp (by simp [hc]) hd (.inr (.inl (hdv.trans hvalue.symm))) ht
  simp only [pollReserve] at h
  split at h
  · cases h
    exact hchange (d := {c with stage := .done (.failed payload)}) (by simp) rfl rfl
  · split at h
    · obtain ⟨r,-,h⟩ := bind_eq_ok h
      split at h <;> obtain ⟨w,-,h⟩ := bind_eq_ok h <;> cases h
      · exact hchange (d := {c with stage := .permit payload}) (by simp) rfl rfl
      · exact hchange (d := {c with lastWaker := some waker}) (by simp [hc]) hvalue rfl
    · split at h <;> cases h
      · exact hchange (d := {c with stage := .permit payload}) (by simp) rfl rfl
      · exact hchange (d := ⟨c.sender,.reserving payload _,some waker⟩) (by simp) rfl rfl

theorem dropReserve_sends (hc : c.stage = .reserving payload waiter)
    (h : s.dropReserve p c waiter = .ok t) : Sends s a t := by
  have hchange (ht : (t.published,t.sends) =
      (s.published,s.sends.set p {c with stage := .cancelled})) : Sends s a t :=
    .change p c _ hp (by simp [hc]) (by simp) (.inl rfl) ht
  simp only [dropReserve] at h
  split at h
  · cases h
    exact hchange rfl
  · split at h
    · cases h
      exact hchange rfl
    · obtain ⟨⟨r,w⟩,-,h⟩ := bind_eq_ok h
      dsimp only at h
      split at h
      · have hkept := release_kept h
        exact hchange hkept
      · cases h
        exact hchange rfl

theorem advance_sends [Wake W] {waker : W} (h : s.advance p c waker = some (.ok t)) :
    Sends s a t := by
  simp only [advance] at h
  split at h
  · next hc =>
    cases h
    exact pollSend_sends hp hc
  · next hc => exact pollReserve_sends hp hc (Option.some.inj h)
  · next hc =>
    cases h
    exact permitSend_sends hp hc
  · next value hc =>
    exact .change p c {c with stage := .done (.failed (some value))} hp (by simp [hc]) (by simp)
      (.inr (.inl (by rw [SendCall.value,SendCall.value,hc]))) (release_kept (Option.some.inj h))
  · cases h

theorem drop_sends (h : s.drop p c = some (.ok t)) : Sends s a t := by
  simp only [drop] at h
  split at h
  · next hc =>
    cases h
    exact .change p c _ hp (by simp [hc]) (by simp) (.inl rfl) rfl
  · next hc => exact dropReserve_sends hp hc (Option.some.inj h)
  · next hc =>
    exact .change p c {c with stage := .done .released} hp (by simp [hc]) (by simp)
      (.inr (.inl (by rw [SendCall.value,SendCall.value,hc]))) (release_kept (Option.some.inj h))
  · cases h

end

theorem act_sends [Wake W] (h : s.act a = some (.ok t)) : Sends s a t := by
  cases a with
  | cloneSender | recv | dropRecv =>
    obtain ⟨-,⟨⟩⟩ := Option.ite_none_right_eq_some.mp h
    exact .keep rfl
  | dropSender k =>
    obtain ⟨-,⟨⟩⟩ := Option.ite_none_right_eq_some.mp h
    refine .keep ?_
    simp only [Inbox.dropSender]
    split <;> rfl
  | dropReceiver =>
    obtain ⟨-,h⟩ := Option.ite_none_right_eq_some.mp h
    obtain ⟨_,-,h⟩ := bind_eq_ok (Option.some.inj h)
    cases h
    exact .keep rfl
  | trySend k value =>
    obtain ⟨-,h⟩ := Option.ite_none_right_eq_some.mp h
    cases hacq : s.acquire with
    | ok u =>
      obtain ⟨hpub,hs⟩ := Prod.mk.inj (acquire_kept hacq)
      simp only [hacq] at h
      cases h
      exact .enterSent value _ rfl rfl (Prod.ext (congrArg (·++[value]) hpub) (congrArg (·++[_]) hs))
    | error error =>
      simp only [hacq] at h
      cases h
      exact .enter ⟨k,.done (.refused error (some value)),none⟩ (by simp) rfl rfl
  | tryReserve k =>
    obtain ⟨-,⟨⟩⟩ := Option.ite_none_right_eq_some.mp h
    rw [tryReserve]
    cases hacq : s.acquire with
    | ok u =>
      obtain ⟨hpub,hs⟩ := Prod.mk.inj (acquire_kept hacq)
      exact .enter ⟨k,.permit none,none⟩ (by simp) rfl (Prod.ext hpub (congrArg (·++[_]) hs))
    | error error => exact .enter ⟨k,.done (.refused error none),none⟩ (by simp) rfl rfl
  | send k value =>
    obtain ⟨-,⟨⟩⟩ := Option.ite_none_right_eq_some.mp h
    exact .enter ⟨k,.unsent value,none⟩ (by simp) rfl rfl
  | reserve k =>
    obtain ⟨-,⟨⟩⟩ := Option.ite_none_right_eq_some.mp h
    exact .enter ⟨k,.reserving none none,none⟩ (by simp) rfl rfl
  | sendPermit p value =>
    obtain ⟨c,hp,h⟩ := Option.bind_eq_some_iff.mp h
    simp only [sendPermit] at h
    split at h
    · next hc =>
      cases h
      exact .change p c {c with stage := .permit (some value)} hp (by simp [hc]) (by simp)
        (.inr (.inr ⟨by rw [SendCall.value,hc],rfl⟩)) rfl
    · cases h
  | advance p waker =>
    obtain ⟨c,hp,h⟩ := Option.bind_eq_some_iff.mp h
    exact advance_sends hp h
  | drop p =>
    obtain ⟨c,hp,h⟩ := Option.bind_eq_some_iff.mp h
    exact drop_sends hp h
  | tryRecv | pollRecv =>
    obtain ⟨-,h⟩ := Option.ite_none_right_eq_some.mp h
    obtain ⟨⟨x,u⟩,hu,h⟩ := bind_eq_ok (Option.some.inj h)
    have hkept := pop_kept hu
    cases x <;> cases h <;> exact .keep hkept

end State
end Bounded
end Mpsc
end Asyncband
