import Asyncband.SpmcQueue

/-! Delivery and wake-ups of the SPMC queue.
`Ok` relates the logs of published and received values to the queue and to what the
calls returned. With a single sender at most one waiter stands in the send queue, and
while it is linked the queue is full; this is what makes a plain notification enough. -/
namespace Asyncband
namespace Spmc

namespace SendCall

variable {T W : Type}

def sentValue (c : SendCall T W) : Option T :=
  match c.stage with
  | .done .sent => some c.given
  | _ => none

/-- The value that was given away is still in the call, or came back with its error. -/
def Accounted (c : SendCall T W) : Prop :=
  match c.stage with
  | .unsent value => c.given = value
  | .sending value _ => value = some c.given
  | .done (.full value) => c.given = value
  | .done (.disconnected value) => c.given = value
  | .done (.failed value) => c.given = value
  | _ => True

theorem isLive_of_waiter {c : SendCall T W} {id : WaiterId} (h : c.waiter = some id) :
    c.isLive = true := by
  obtain ⟨stage,given,last⟩ := c
  cases stage with
  | sending value waiter => rfl
  | unsent value => cases h
  | done outcome => cases h
  | cancelled => cases h

end SendCall

/-- A step after which a send that waits in a full queue could go on hands out its waker. -/
def Wakes {T W : Type} (s t : State T W) : Prop :=
  ∀ id ∈ s.sendWaiters.order, ∀ waker f, s.sendWaiters.get? id = some ⟨.waiting waker,f⟩ →
    s.hasCapacity = false → s.receivers ≠ 0 → t.hasCapacity = true ∨ t.receivers = 0 →
    ∃ fresh, t.woken = s.woken++fresh ∧ waker ∈ fresh

namespace Wakes

variable {T W : Type} {s t : State T W}

theorem quiet (hv : t.values = s.values) (hc : t.capacity = s.capacity)
    (hr : t.receivers = s.receivers) : Wakes s t := by
  intro id _ waker f _ hfull hr0 hgo
  have hsame : t.hasCapacity = s.hasCapacity := by
    rw [State.hasCapacity,State.hasCapacity,hv,hc]
  rcases hgo with hgo | hgo
  · rw [hsame,hfull] at hgo
    cases hgo
  · exact absurd (hr.symm.trans hgo) hr0

theorem of_room (hc : s.hasCapacity = true) : Wakes s t := by
  intro id _ waker f _ hfull
  rw [hc] at hfull
  cases hfull

end Wakes

/-- A call that did not end by disconnection leaves the calls that did as they were. -/
theorem disconnected_set {T W : Type} (s : State T W) (r : ℕ) (d : RecvCall T W)
    (hd : d.stage ≠ .done .disconnected) (q : ℕ) (e : RecvCall T W)
    (he : (s.recvs.set r d)[q]? = some e) (hstage : e.stage = .done .disconnected) :
    ∃ q' : ℕ, s.recvs[q']? = some e := by
  rcases Table.getElem?_set_cases he with ⟨-,rfl⟩ | ⟨-,he⟩
  · exact absurd hstage hd
  · exact ⟨q,he⟩

structure Ok {T W : Type} [Wake W] (capacity : Option ℕ) (s : State T W) : Prop where
  recv : RecvOk s.values (s.senderAlive = true) s.recvWaiters s.recvs s.woken
  roster : s.receivers ≠ 0 → Roster s.sendWaiters (Table.lookup SendCall.waiter s.sends)
    (Table.lookup SendCall.lastWaker s.sends) s.woken
  cleared : s.receivers = 0 → ∀ id, s.sendWaiters.get? id = none
  full : s.sendWaiters.order ≠ [] → s.hasCapacity = false
  capacity_eq : s.capacity = capacity
  bound : ∀ n, s.capacity = some n → s.values.length ≤ n
  single : ∀ (p q : ℕ) c d, s.sends[p]? = some c → s.sends[q]? = some d →
    c.isLive = true → d.isLive = true → p = q
  borrowed : ∀ (p : ℕ) c, s.sends[p]? = some c → c.isLive = true → s.senderAlive = true
  accounted : ∀ (p : ℕ) c, s.sends[p]? = some c → c.Accounted
  published : Table.Recorded SendCall.sentValue s.sends s.published
  taken : Table.Recorded RecvCall.received s.recvs s.taken
  history : s.published.map Prod.snd = s.taken.map Prod.snd++s.discarded++s.values
  kept : s.receivers ≠ 0 → s.discarded = []
  emptied : s.receivers = 0 → s.values = []
  ended : ∀ (r : ℕ) c, s.recvs[r]? = some c → c.stage = .done .disconnected →
    s.senderAlive = false ∧ s.values = []
  running : s.panicked = none

namespace Ok

variable {T W : Type} [Wake W] {capacity : Option ℕ} {s t : State T W} {p r : ℕ}
  {c c' : SendCall T W} {d d' : RecvCall T W}
variable {w : Waiters W} {v given : T} {last : Option W} {value : Option T} {waiter : Option WaiterId}
    {waker : W} {x : Except String (State T W)} {a : Action T W}

section

variable (h : Ok capacity s)
include h

theorem order_single (hr : s.receivers ≠ 0) {a b : WaiterId} (ha : a ∈ s.sendWaiters.order)
    (hb : b ∈ s.sendWaiters.order) : a = b := by
  have hlive : ∀ id ∈ s.sendWaiters.order, ∃ (q : ℕ) (c : SendCall T W),
      s.sends[q]? = some c ∧ c.waiter = some id := by
    intro id hid
    obtain ⟨waker,q,hget⟩ := (h.roster hr).linked_waiting hid
    have hslot := (h.roster hr).owned id _ hget
    obtain ⟨c,hc,hw⟩ := Option.bind_eq_some_iff.mp hslot
    exact ⟨q,c,hc,hw⟩
  obtain ⟨p,c,hc,hwc⟩ := hlive a ha
  obtain ⟨q,d,hd,hwd⟩ := hlive b hb
  have hpq := h.single p q c d hc hd (SendCall.isLive_of_waiter hwc) (SendCall.isLive_of_waiter hwd)
  subst hpq
  rw [hc] at hd
  cases hd
  exact Option.some.inj (hwc.symm.trans hwd)

theorem order_nil (hc : s.hasCapacity = true) : s.sendWaiters.order = [] := by
  by_contra ho
  rw [h.full ho] at hc
  cases hc

theorem change (hp : s.sends[p]? = some c) (hroster : s.receivers ≠ 0 →
      Roster w (Function.update (Table.lookup SendCall.waiter s.sends) p c'.waiter)
        (Function.update (Table.lookup SendCall.lastWaker s.sends) p c'.lastWaker) s.woken)
    (hcleared : s.receivers = 0 → ∀ id, w.get? id = none)
    (hfull : w.order ≠ [] → s.hasCapacity = false) (hlive : c'.isLive = true → c.isLive = true)
    (hsent : c'.sentValue = c.sentValue) (hacc : c'.Accounted) :
    Ok capacity {s.setSend p c' with sendWaiters := w} where
  recv := h.recv
  roster hr := by
    show Roster w (Table.lookup SendCall.waiter (s.sends.set p c'))
      (Table.lookup SendCall.lastWaker (s.sends.set p c')) s.woken
    rw [Table.lookup_set _ hp,Table.lookup_set _ hp]
    exact hroster hr
  cleared := hcleared
  full := hfull
  capacity_eq := h.capacity_eq
  bound := h.bound
  single q q' e e' he he' hl hl' := by
    rcases Table.getElem?_set_cases he with ⟨rfl,rfl⟩ | ⟨-,hq⟩
    · rcases Table.getElem?_set_cases he' with ⟨rfl,-⟩ | ⟨-,hq'⟩
      · rfl
      · exact h.single _ _ c e' hp hq' (hlive hl) hl'
    · rcases Table.getElem?_set_cases he' with ⟨rfl,rfl⟩ | ⟨-,hq'⟩
      · exact h.single _ _ e c hq hp hl (hlive hl')
      · exact h.single _ _ e e' hq hq' hl hl'
  borrowed := Table.forall_set h.borrowed (fun hl => h.borrowed p c hp (hlive hl))
  accounted := Table.forall_set h.accounted hacc
  published := h.published.set_same hp hsent
  taken := h.taken
  history := h.history
  kept := h.kept
  emptied := h.emptied
  ended := h.ended
  running := h.running

theorem restage (hp : s.sends[p]? = some c) (hwaiter : c'.waiter = c.waiter)
    (hlast : c'.lastWaker = c.lastWaker) (hlive : c'.isLive = true → c.isLive = true)
    (hsent : c'.sentValue = c.sentValue) (hacc : c'.Accounted) : Ok capacity (s.setSend p c') := by
  refine h.change hp ?_ h.cleared h.full hlive hsent hacc
  intro hr
  rw [← Table.lookup_set SendCall.waiter hp,← Table.lookup_set SendCall.lastWaker hp,
    Table.lookup_set_same hp hwaiter,Table.lookup_set_same hp hlast]
  exact h.roster hr

theorem finish (hp : s.sends[p]? = some c) (hr : s.receivers = 0)
    (hlive : c'.isLive = true → c.isLive = true) (hsent : c'.sentValue = c.sentValue)
    (hacc : c'.Accounted) : Ok capacity (s.setSend p c') :=
  h.change hp (fun hn => absurd hr hn) h.cleared h.full hlive hsent hacc

theorem append (hwaiter : c.waiter = none) (hlast : c.lastWaker = none)
    (hlive : c.isLive = true → s.senderFree = true) (hsent : c.sentValue = none) (hacc : c.Accounted) :
    Ok capacity {s with sends := s.sends++[c]} := by
  have hnone : ∀ (q : ℕ) e, s.sends[q]? = some e → e.isLive = true → c.isLive = true → False := by
    intro q e he hl hc
    have hfree := hlive hc
    rw [State.senderFree,Bool.and_eq_true,Bool.not_eq_true'] at hfree
    have hany : s.sends.any SendCall.isLive = true :=
      List.any_eq_true.mpr ⟨e,List.mem_of_getElem? he,hl⟩
    rw [hfree.2] at hany
    cases hany
  refine {h with roster := fun hr => ?_,single := fun q q' e e' he he' hl hl' => ?_,
                 borrowed := fun q e he hl => ?_,accounted := fun q e he => ?_,
                 published := h.published.push_none hsent}
  · show Roster s.sendWaiters (Table.lookup SendCall.waiter (s.sends++[c]))
      (Table.lookup SendCall.lastWaker (s.sends++[c])) s.woken
    rw [Table.lookup_push _ hwaiter,Table.lookup_push _ hlast]
    exact h.roster hr
  · rcases Table.getElem?_push he with hq | ⟨rfl,rfl⟩
    · rcases Table.getElem?_push he' with hq' | ⟨-,rfl⟩
      · exact h.single q q' e e' hq hq' hl hl'
      · exact (hnone q e hq hl hl').elim
    · rcases Table.getElem?_push he' with hq' | ⟨rfl,-⟩
      · exact (hnone q' e' hq' hl' hl).elim
      · rfl
  · rcases Table.getElem?_push he with he | ⟨-,rfl⟩
    · exact h.borrowed q e he hl
    · have hfree := hlive hl
      rw [State.senderFree,Bool.and_eq_true] at hfree
      exact hfree.1
  · rcases Table.getElem?_push he with he | ⟨-,rfl⟩
    · exact h.accounted q e he
    · exact hacc

/-- A value enters the queue. Its call ends there, so before it may be taken as ended. -/
theorem publish (hp : s.sends[p]? = some ⟨.cancelled,v,last⟩) (hr : s.receivers ≠ 0)
    (hc : s.hasCapacity = true) (hs : s.senderAlive = true) :
    ∃ x w, s.recvWaiters.notifyOne = .ok (x,w) ∧
      Ok capacity {s.setSend p ⟨.done .sent,v,last⟩ with
        values := s.values++[v],recvWaiters := w,published := s.published++[(p,v)],
        woken := s.woken++x.toList.map Prod.snd} := by
  obtain ⟨x,w,hn,hrecv⟩ := h.recv.push v
  refine ⟨x,w,hn,?_⟩
  refine {h with recv := hrecv,roster := fun _ => ?_,full := fun ho => ?_,bound := fun n hn => ?_,
                 single := ?_,borrowed := ?_,accounted := ?_,published := ?_,
                 history := ?_,emptied := fun h0 => absurd h0 hr,
                 ended := fun r d hd he => ?_}
  · show Roster s.sendWaiters (Table.lookup SendCall.waiter (s.sends.set p ⟨.done .sent,v,last⟩))
      (Table.lookup SendCall.lastWaker (s.sends.set p ⟨.done .sent,v,last⟩)) _
    rw [Table.lookup_set _ hp,Table.lookup_set _ hp]
    show Roster s.sendWaiters (Function.update (Table.lookup SendCall.waiter s.sends) p none)
      (Function.update (Table.lookup SendCall.lastWaker s.sends) p last) _
    rw [Table.update_lookup _ hp none rfl,Table.update_lookup _ hp last rfl]
    exact (h.roster hr).mono (List.subset_append_left _ _)
  · exact absurd (h.order_nil hc) ho
  · have hcap : s.capacity = some n := hn
    rw [State.hasCapacity,hcap] at hc
    have hlt : s.values.length < n := of_decide_eq_true hc
    show (s.values++[v]).length ≤ n
    rw [List.length_append,List.length_singleton]
    omega
  · intro q q' e e' he he' hl hl'
    rcases Table.getElem?_set_cases he with ⟨-,rfl⟩ | ⟨-,hq⟩
    · cases hl
    · rcases Table.getElem?_set_cases he' with ⟨-,rfl⟩ | ⟨-,hq'⟩
      · cases hl'
      · exact h.single q q' e e' hq hq' hl hl'
  · exact fun _ _ _ _ => hs
  · intro q e he
    rcases Table.getElem?_set_cases he with ⟨-,rfl⟩ | ⟨-,hq⟩
    · exact trivial
    · exact h.accounted q e hq
  · exact h.published.set_new hp rfl rfl
  · show (s.published++[(p,v)]).map Prod.snd = s.taken.map Prod.snd++s.discarded++(s.values++[v])
    rw [List.map_append,h.history]
    simp
  · have hdead := (h.ended r d hd he).1
    rw [hs] at hdead
    cases hdead

/-- A pop with room for a sender selects the waiter, if there is one; no other is left. -/
theorem notifySender (hr : s.receivers ≠ 0) :
    ∃ x w, s.sendWaiters.notifyOne = .ok (x,w) ∧ w.order = [] ∧
      Roster w (Table.lookup SendCall.waiter s.sends) (Table.lookup SendCall.lastWaker s.sends)
        (s.woken++x.toList.map Prod.snd) ∧
      ∀ id ∈ s.sendWaiters.order, ∃ f waker, x = some (f,waker) ∧
        s.sendWaiters.get? id = some ⟨.waiting waker,f⟩ := by
  cases ho : s.sendWaiters.order with
  | nil =>
    refine ⟨none,s.sendWaiters,Waiters.notifyOne_nil ho,ho,?_,by simp⟩
    simpa using h.roster hr
  | cons id ids =>
    have hid : id ∈ s.sendWaiters.order := by simp [ho]
    obtain ⟨waker,f,hget⟩ := (h.roster hr).linked_waiting hid
    obtain ⟨w,hn,how,-⟩ := Waiters.notifyOne_cons ho hget
    rcases (h.roster hr).notifyOne with ⟨hnil,-⟩ | ⟨_,f',waker',w',hn',-,-,-,hroster⟩
    · rw [ho] at hnil
      cases hnil
    rw [hn] at hn'
    cases hn'
    have hnd := s.sendWaiters.order_nodup
    rw [ho] at hnd
    have hids : ids = [] := by
      rw [List.eq_nil_iff_forall_not_mem]
      intro id' hid'
      have heq := h.order_single hr hid (show id' ∈ s.sendWaiters.order by simp [ho,hid'])
      exact (List.nodup_cons.mp hnd).1 (heq ▸ hid')
    refine ⟨some (f,waker),w,hn,how.trans hids,hroster,?_⟩
    intro id' hid'
    rw [hids,List.mem_singleton] at hid'
    exact ⟨f,waker,rfl,hid' ▸ hget⟩

/-- A value leaves the queue. What the receiving call does with its waiter is still open. -/
theorem pop (r : ℕ) :
    s.values = [] ∧ s.pop r = .ok (if s.senderAlive then .empty else .disconnected,s) ∨
    ∃ v values, ∃ (x : Option (ℕ × W)) (sw : Waiters W), s.values = v::values ∧ s.pop r = .ok (.value v,
        {s with values := values,sendWaiters := sw,taken := s.taken++[(r,v)],
                woken := s.woken++x.toList.map Prod.snd}) ∧
      ∀ (w : Waiters W) (recvs : List (RecvCall T W)),
        RecvOk values (s.senderAlive = true) w recvs (s.woken++x.toList.map Prod.snd) →
        Table.Recorded RecvCall.received recvs (s.taken++[(r,v)]) →
        (∀ (q : ℕ) d, recvs[q]? = some d → d.stage = .done .disconnected →
          ∃ q' : ℕ, s.recvs[q']? = some d) →
        Ok capacity {s with values := values,sendWaiters := sw,taken := s.taken++[(r,v)],
                            woken := s.woken++x.toList.map Prod.snd,recvWaiters := w,recvs := recvs} ∧
        Wakes s {s with values := values,sendWaiters := sw,taken := s.taken++[(r,v)],
                        woken := s.woken++x.toList.map Prod.snd,recvWaiters := w,recvs := recvs} := by
  cases hv : s.values with
  | nil => exact Or.inl ⟨rfl,by rw [State.pop,hv]⟩
  | cons v values =>
    right
    have hr : s.receivers ≠ 0 := by
      intro h0
      rw [h.emptied h0] at hv
      cases hv
    obtain ⟨x,sw,hn,ho,hroster,hselected⟩ := h.notifySender hr
    refine ⟨v,values,x,sw,rfl,?_,?_⟩
    · simp only [State.pop,hv,hn]
      rfl
    · intro w recvs hrecv htaken hended
      refine ⟨?_,?_⟩
      swap
      · intro id hid waker f hget _ _ _
        obtain ⟨f',waker',rfl,hget'⟩ := hselected id hid
        rw [hget] at hget'
        cases hget'
        exact ⟨[waker],rfl,List.mem_singleton_self _⟩
      refine {h with recv := hrecv,roster := fun _ => hroster,cleared := fun h0 => absurd h0 hr,
                     full := fun hw => absurd ho hw,bound := fun n hn => ?_,taken := htaken,
                     history := ?_,emptied := fun h0 => absurd h0 hr,ended := ?_}
      · have hb := h.bound n hn
        rw [hv,List.length_cons] at hb
        exact Nat.le_of_succ_le hb
      · rw [h.history,hv,h.kept hr]
        simp
      · intro q d hd he
        obtain ⟨q',hq'⟩ := hended q d hd he
        have hnil := (h.ended q' d hq' he).2
        rw [hv] at hnil
        cases hnil

theorem trySend (hf : s.senderFree = true) (v : T) :
    ∃ outcome t, s.trySend s.sends.length v = .ok (outcome,t) ∧
      Ok capacity {t with sends := t.sends++[⟨.done outcome,v,none⟩]} ∧
      Wakes s {t with sends := t.sends++[⟨.done outcome,v,none⟩]} := by
  by_cases hr : s.receivers = 0
  · refine ⟨.disconnected v,s,if_pos hr,?_,.quiet rfl rfl rfl⟩
    exact h.append rfl rfl (by simp [SendCall.isLive]) rfl rfl
  cases hc : s.hasCapacity with
  | false =>
    refine ⟨.full v,s,by rw [State.trySend,if_neg hr,hc]; rfl,?_,.quiet rfl rfl rfl⟩
    exact h.append rfl rfl (by simp [SendCall.isLive]) rfl rfl
  | true =>
    have hs : s.senderAlive = true := (Bool.and_eq_true _ _ ▸ hf).1
    have hcall : Ok capacity {s with sends := s.sends++[⟨.cancelled,v,none⟩]} :=
      h.append rfl rfl (by simp [SendCall.isLive]) rfl trivial
    have hnew : (s.sends++[⟨.cancelled,v,none⟩])[s.sends.length]? =
        some (⟨.cancelled,v,none⟩ : SendCall T W) := by simp
    obtain ⟨x,w,hn,hok⟩ := hcall.publish hnew hr hc hs
    refine ⟨.sent,{s with values := s.values++[v],recvWaiters := w,
                          published := s.published++[(s.sends.length,v)],
                          woken := s.woken++x.toList.map Prod.snd},?_,?_,.of_room hc⟩
    · have hn' : s.recvWaiters.notifyOne = .ok (x,w) := hn
      rw [State.trySend,if_neg hr,hc,State.push,hn']
      rfl
    · rw [State.setSend] at hok
      simpa using hok

theorem pollTrySend (hp : s.sends[p]? = some ⟨.unsent v,given,last⟩) :
    ∃ t, s.pollTrySend p ⟨.unsent v,given,last⟩ v = .ok t ∧ Ok capacity t ∧ Wakes s t := by
  obtain rfl : given = v := h.accounted p _ hp
  by_cases hr : s.receivers = 0
  · refine ⟨s.setSend p ⟨.done (.failed given),given,last⟩,?_,?_,.quiet rfl rfl rfl⟩
    · rw [State.pollTrySend,State.trySend,if_pos hr]
      rfl
    · exact h.restage hp rfl rfl (fun _ => rfl) rfl rfl
  cases hc : s.hasCapacity with
  | false =>
    refine ⟨s.setSend p ⟨.sending (some given) none,given,last⟩,?_,?_,.quiet rfl rfl rfl⟩
    · rw [State.pollTrySend,State.trySend,if_neg hr,hc]
      rfl
    · exact h.restage hp rfl rfl (fun _ => rfl) rfl rfl
  | true =>
    have hs := h.borrowed p _ hp rfl
    have hcall : Ok capacity (s.setSend p ⟨.cancelled,given,last⟩) :=
      h.restage hp rfl rfl (fun _ => rfl) rfl trivial
    obtain ⟨x,w,hn,hok⟩ := hcall.publish (Table.getElem?_set_self' hp _) hr hc hs
    have hn' : s.recvWaiters.notifyOne = .ok (x,w) := hn
    refine ⟨_,?_,hok,.of_room hc⟩
    rw [State.pollTrySend,State.trySend,if_neg hr,hc,State.push,hn']
    simp only [State.setSend,List.set_set]
    rfl

theorem pollSend (hp : s.sends[p]? = some ⟨.sending value waiter,given,last⟩) (waker : W) :
    ∃ t, s.pollSend p ⟨.sending value waiter,given,last⟩ value waiter waker = .ok t ∧
      Ok capacity t ∧ Wakes s t := by
  obtain rfl : value = some given := h.accounted p _ hp
  by_cases hr : s.receivers = 0
  · refine ⟨s.setSend p ⟨.done (.failed given),given,last⟩,?_,?_,.quiet rfl rfl rfl⟩
    · rw [State.pollSend,if_pos hr]
      rfl
    · exact h.finish hp hr (fun _ => rfl) rfl rfl
  cases hc : s.hasCapacity with
  | false =>
    obtain ⟨id,w,hreg,hroster⟩ := (h.roster hr).register p waker
    rw [Table.lookup_eq hp] at hreg
    have hreg' : s.sendWaiters.register p waiter waker = .ok (id,w) := hreg
    refine ⟨{s.setSend p ⟨.sending (some given) (some id),given,some waker⟩ with sendWaiters := w},
      ?_,?_,.quiet rfl rfl rfl⟩
    · simp only [State.pollSend,if_neg hr,hc,hreg']
      rfl
    · exact h.change hp (fun _ => hroster) (fun h0 => absurd h0 hr) (fun _ => hc) (fun _ => rfl)
        rfl rfl
  | true =>
    have hs := h.borrowed p _ hp rfl
    cases waiter with
    | none =>
      have hcall : Ok capacity (s.setSend p ⟨.cancelled,given,last⟩) :=
        h.restage hp rfl rfl (fun _ => rfl) rfl trivial
      obtain ⟨x,w,hn,hok⟩ := hcall.publish (Table.getElem?_set_self' hp _) hr hc hs
      have hn' : s.recvWaiters.notifyOne = .ok (x,w) := hn
      refine ⟨_,?_,hok,.of_room hc⟩
      simp only [State.pollSend,if_neg hr,hc,if_true,State.takeValue,State.push,hn',State.setSend,
        List.set_set]
      rfl
    | some id =>
      obtain ⟨retired,sw,-,-,hrem,ho,-,-,-,hroster⟩ := (h.roster hr).removeWaiter (Table.lookup_eq hp)
      have hcall : Ok capacity
          {s.setSend p ⟨.cancelled,given,last⟩ with sendWaiters := sw} := by
        refine h.change hp (fun _ => ?_) (fun h0 => absurd h0 hr) (fun hw => ?_) (fun _ => rfl)
          rfl trivial
        · show Roster sw _ (Function.update (Table.lookup SendCall.lastWaker s.sends) p last) s.woken
          rw [Table.update_lookup _ hp last rfl]
          exact hroster
        · exact absurd (by rw [ho,h.order_nil hc]; rfl) hw
      obtain ⟨x,w,hn,hok⟩ := hcall.publish (Table.getElem?_set_self' hp _) hr hc hs
      have hn' : s.recvWaiters.notifyOne = .ok (x,w) := hn
      refine ⟨_,?_,hok,.of_room hc⟩
      simp only [State.pollSend,if_neg hr,hc,if_true,State.takeValue,State.push,hn',State.setSend,
        List.set_set,bind,Except.bind,hrem]

theorem dropSend (hp : s.sends[p]? = some ⟨.sending value waiter,given,last⟩) :
    ∃ t, s.dropSend p ⟨.sending value waiter,given,last⟩ waiter = .ok t ∧ Ok capacity t ∧ Wakes s t := by
  cases waiter with
  | none => exact ⟨_,rfl,h.restage hp rfl rfl (fun _ => rfl) rfl trivial,.quiet rfl rfl rfl⟩
  | some id =>
    by_cases hr : s.receivers = 0
    · refine ⟨s.setSend p ⟨.cancelled,given,last⟩,if_pos hr,?_,.quiet rfl rfl rfl⟩
      exact h.finish hp hr (fun _ => rfl) rfl trivial
    obtain ⟨retired,w,-,-,hrem,ho,-,-,-,hroster⟩ := (h.roster hr).removeWaiter (Table.lookup_eq hp)
    refine ⟨{s.setSend p ⟨.cancelled,given,last⟩ with sendWaiters := w},?_,?_,.quiet rfl rfl rfl⟩
    · have hr' : (s.setSend p ⟨.cancelled,given,last⟩).receivers ≠ 0 := hr
      have hrem' : (s.setSend p ⟨.cancelled,given,last⟩).sendWaiters.removeWaiter id =
          .ok (retired,w) := hrem
      simp only [State.dropSend,if_neg hr',hrem']
      rfl
    · refine h.change hp (fun _ => ?_) (fun h0 => absurd h0 hr) (fun hw => ?_) (fun _ => rfl)
        rfl trivial
      · show Roster w _ (Function.update (Table.lookup SendCall.lastWaker s.sends) p last) s.woken
        rw [Table.update_lookup _ hp last rfl]
        exact hroster
      · exact h.full fun hnil => hw (by rw [ho,hnil]; rfl)

theorem with_recv {recvs : List (RecvCall T W)} {woken : List W}
    (hrecv : RecvOk s.values (s.senderAlive = true) w recvs woken) (hw : s.woken ⊆ woken)
    (htaken : Table.Recorded RecvCall.received recvs s.taken)
    (hended : ∀ (q : ℕ) d, recvs[q]? = some d → d.stage = .done .disconnected →
      (∃ q' : ℕ, s.recvs[q']? = some d) ∨ s.senderAlive = false ∧ s.values = []) :
    Ok capacity {s with recvWaiters := w,recvs := recvs,woken := woken} := by
  refine {h with recv := hrecv,roster := fun hr => (h.roster hr).mono hw,taken := htaken,
                 ended := fun q d hd he => ?_}
  rcases hended q d hd he with ⟨q',hq'⟩ | hdone
  · exact h.ended q' d hq' he
  · exact hdone

theorem setRecv (hr : s.recvs[r]? = some d) (hwaiter : d'.waiter = d.waiter)
    (hlast : d'.lastWaker = d.lastWaker) (hrec : d'.received = d.received)
    (hd : d'.stage = .done .disconnected → s.senderAlive = false ∧ s.values = []) :
    Ok capacity (s.setRecv r d') := by
  refine h.with_recv (h.recv.set_same hr hwaiter hlast) (List.Subset.refl _)
    (h.taken.set_same hr hrec) ?_
  intro q e he hstage
  rcases Table.getElem?_set_cases he with ⟨-,rfl⟩ | ⟨-,he⟩
  · exact Or.inr (hd hstage)
  · exact Or.inl ⟨q,he⟩

theorem pollTryRecv (hr : s.recvs[r]? = some ⟨.unpolled,last⟩) :
    ∃ t, s.pollTryRecv r ⟨.unpolled,last⟩ = .ok t ∧ Ok capacity t ∧ Wakes s t := by
  rcases h.pop r with ⟨hv,hpop⟩ | ⟨v,values,x,sw,hv,hpop,hok⟩
  · cases hs : s.senderAlive with
    | true =>
      rw [hs] at hpop
      refine ⟨s.setRecv r ⟨.receiving none,last⟩,by rw [State.pollTryRecv,hpop]; rfl,?_,.quiet rfl rfl rfl⟩
      exact h.setRecv hr rfl rfl rfl (by simp)
    | false =>
      rw [hs] at hpop
      refine ⟨s.setRecv r ⟨.done .disconnected,last⟩,by rw [State.pollTryRecv,hpop]; rfl,?_,.quiet rfl rfl rfl⟩
      exact h.setRecv hr rfl rfl rfl (fun _ => ⟨hs,hv⟩)
  · refine ⟨_,by rw [State.pollTryRecv,hpop]; rfl,?_⟩
    apply hok s.recvWaiters (s.recvs.set r ⟨.done (.value v),last⟩)
    · have hrecv := h.recv.mono (List.subset_append_left s.woken (x.toList.map Prod.snd))
      exact (hrecv.shrink (by simp [hv])).set_same hr rfl rfl
    · exact h.taken.set_new hr rfl rfl
    · exact disconnected_set s r _ (by simp)

theorem pollRecv (hr : s.recvs[r]? = some ⟨.receiving waiter,last⟩) (waker : W) :
    ∃ t, s.pollRecv r ⟨.receiving waiter,last⟩ waiter waker = .ok t ∧ Ok capacity t ∧ Wakes s t := by
  rcases h.pop r with ⟨hv,hpop⟩ | ⟨v,values,x,sw,hv,hpop,hok⟩
  · cases hs : s.senderAlive with
    | true =>
      rw [hs] at hpop
      have hrecv : RecvOk ([] : List T) (s.senderAlive = true) s.recvWaiters s.recvs s.woken := by
        rw [← hv]
        exact h.recv
      obtain ⟨id,w,hreg,hrecv'⟩ := hrecv.register hs hr waker
      have hreg' : s.recvWaiters.register r waiter waker = .ok (id,w) := hreg
      refine ⟨{s.setRecv r ⟨.receiving (some id),some waker⟩ with recvWaiters := w},?_,?_,.quiet rfl rfl rfl⟩
      · simp only [State.pollRecv,hs,if_true,hpop,bind,Except.bind,hreg']
      · rw [← hv] at hrecv'
        refine h.with_recv hrecv' (List.Subset.refl _) (h.taken.set_same hr rfl) ?_
        exact fun q e he hstage => Or.inl (disconnected_set s r _ (by simp) q e he hstage)
    | false =>
      rw [hs] at hpop
      have hdead : ¬ s.senderAlive = true := by simp [hs]
      refine ⟨s.setRecv r ⟨.done .disconnected,last⟩,?_,?_,.quiet rfl rfl rfl⟩
      · simp only [State.pollRecv,hs,hpop]
        rfl
      · refine h.with_recv (RecvOk.dead hdead (h.recv.cleared hdead)) (List.Subset.refl _)
          (h.taken.set_same hr rfl) (fun _ _ _ _ => Or.inr ⟨hs,hv⟩)
  · have hrecv := h.recv.mono (List.subset_append_left s.woken (x.toList.map Prod.snd))
    have hdisc := disconnected_set s r ⟨.done (.value v),last⟩ (by simp)
    have htaken := h.taken.set_new (y := ⟨.done (.value v),last⟩) hr rfl rfl
    cases hs : s.senderAlive with
    | false =>
      have hdead : ¬ s.senderAlive = true := by simp [hs]
      refine ⟨_,?_,hok s.recvWaiters (s.recvs.set r ⟨.done (.value v),last⟩)
        (RecvOk.dead hdead (h.recv.cleared hdead)) htaken hdisc⟩
      simp only [State.pollRecv,hs,hpop]
      rfl
    | true =>
      cases waiter with
      | none =>
        refine ⟨_,?_,hok s.recvWaiters (s.recvs.set r ⟨.done (.value v),last⟩)
          ((hrecv.shrink (by simp [hv])).set_same hr rfl rfl) htaken hdisc⟩
        simp only [State.pollRecv,hs,if_true,hpop]
        rfl
      | some id =>
        rw [hv] at hrecv
        obtain ⟨retired,w,hrem,hrecv'⟩ := hrecv.consume hs hr rfl ⟨.done (.value v),last⟩ rfl rfl
        refine ⟨_,?_,hok w (s.recvs.set r ⟨.done (.value v),last⟩) hrecv' htaken hdisc⟩
        simp only [State.pollRecv,hs,if_true,hpop,bind,Except.bind,State.setRecv,hrem]

theorem dropRecv (hr : s.recvs[r]? = some ⟨.receiving waiter,last⟩) :
    ∃ t, s.dropRecv r ⟨.receiving waiter,last⟩ waiter = .ok t ∧ Ok capacity t ∧ Wakes s t := by
  have hdisc := disconnected_set s r ⟨.cancelled,last⟩ (by simp)
  cases waiter with
  | none => exact ⟨_,rfl,h.setRecv hr rfl rfl rfl (by simp),.quiet rfl rfl rfl⟩
  | some id =>
    cases hs : s.senderAlive with
    | false =>
      have hdead : ¬ s.senderAlive = true := by simp [hs]
      refine ⟨s.setRecv r ⟨.cancelled,last⟩,?_,?_,.quiet rfl rfl rfl⟩
      · have hs' : (s.setRecv r ⟨.cancelled,last⟩).senderAlive = false := hs
        simp only [State.dropRecv,hs']
        rfl
      · refine h.with_recv (RecvOk.dead hdead (h.recv.cleared hdead)) (List.Subset.refl _)
          (h.taken.set_same hr rfl) (fun q e he hstage => Or.inl (hdisc q e he hstage))
    | true =>
      obtain ⟨x,w,hdrop,hrecv⟩ := h.recv.drop hs hr rfl ⟨.cancelled,last⟩ rfl rfl
      refine ⟨{s.setRecv r ⟨.cancelled,last⟩ with
        recvWaiters := w,woken := s.woken++x.toList.map Prod.snd},?_,?_,.quiet rfl rfl rfl⟩
      · have hs' : (s.setRecv r ⟨.cancelled,last⟩).senderAlive = true := hs
        have hdrop' : (s.setRecv r ⟨.cancelled,last⟩).recvWaiters.dropRecv
            (s.setRecv r ⟨.cancelled,last⟩).values id = .ok (x,w) := hdrop
        simp only [State.dropRecv,hs',if_true,hdrop']
        rfl
      · exact h.with_recv hrecv (List.subset_append_left _ _) (h.taken.set_same hr rfl)
          (fun q e he hstage => Or.inl (hdisc q e he hstage))

theorem dropSender (hf : s.senderFree = true) :
    ∃ t, s.dropSender = .ok t ∧ Ok capacity t ∧ Wakes s t := by
  rw [State.senderFree,Bool.and_eq_true,Bool.not_eq_true'] at hf
  have hdrain := (h.recv.roster hf.1).drain_notifyOne
  refine ⟨{s with senderAlive := false,recvWaiters := .new,
                  woken := s.woken++s.recvWaiters.wakers},?_,?_,.quiet rfl rfl rfl⟩
  · rw [State.dropSender,hdrain]
    rfl
  · refine {h with recv := RecvOk.dead (by simp) (fun _ => WaitList.get?_new _),
                   roster := fun hr => (h.roster hr).mono (List.subset_append_left _ _),
                   borrowed := fun p c hp hl => ?_,
                   ended := fun q d hd he => ⟨rfl,(h.ended q d hd he).2⟩}
    have hany : s.sends.any SendCall.isLive = true :=
      List.any_eq_true.mpr ⟨c,List.mem_of_getElem? hp,hl⟩
    rw [hf.2] at hany
    cases hany

theorem dropReceiver (hr : s.receivers ≠ 0) :
    ∃ t, s.dropReceiver = .ok t ∧ Ok capacity t ∧ Wakes s t := by
  by_cases hlast : s.receivers-1 = 0
  · have hdrain := (h.roster hr).drain_notifyOne
    refine ⟨{s with receivers := s.receivers-1,values := [],discarded := s.discarded++s.values,
                    sendWaiters := .new,woken := s.woken++s.sendWaiters.wakers},?_,?_,?_⟩
    · simp only [State.dropReceiver,hlast,ne_eq,not_true_eq_false,if_false,hdrain]
      rfl
    · refine {h with recv := (h.recv.mono (List.subset_append_left _ _)).shrink (Nat.zero_le _),
                     roster := fun hn => absurd hlast hn,cleared := fun _ _ => WaitList.get?_new _,
                     full := fun hw => absurd WaitList.order_new hw,bound := fun n _ => Nat.zero_le n,
                     history := ?_,kept := fun hn => absurd hlast hn,emptied := fun _ => rfl,
                     ended := fun q d hd he => ⟨(h.ended q d hd he).1,rfl⟩}
      rw [h.history]
      simp
    · intro id hid waker f hget _ _ _
      exact ⟨s.sendWaiters.wakers,rfl,Waiters.mem_wakers hid hget⟩
  · refine ⟨{s with receivers := s.receivers-1},if_pos hlast,?_,?_⟩
    swap
    · intro id _ waker f _ hfull _ hgo
      rcases hgo with hgo | hgo
      · exact absurd (hgo.symm.trans hfull) (by simp)
      · exact absurd hgo hlast
    exact {h with roster := fun _ => h.roster hr,cleared := fun h0 => absurd h0 hlast,
                  kept := fun _ => h.kept hr,emptied := fun h0 => absurd h0 hlast}

theorem advance (hp : s.sends[p]? = some c) (hx : s.advance p c waker = some x) :
    ∃ t, x = .ok t ∧ Ok capacity t ∧ Wakes s t := by
  obtain ⟨stage,given,last⟩ := c
  rw [State.advance] at hx
  split at hx
  · next v hstage =>
    cases hstage
    cases hx
    exact h.pollTrySend hp
  · next value waiter hstage =>
    cases hstage
    cases hx
    exact h.pollSend hp waker
  · cases hx

theorem drop (hp : s.sends[p]? = some c) (hx : s.drop p c = some x) :
    ∃ t, x = .ok t ∧ Ok capacity t ∧ Wakes s t := by
  obtain ⟨stage,given,last⟩ := c
  rw [State.drop] at hx
  split at hx
  · next v hstage =>
    cases hstage
    cases hx
    exact ⟨_,rfl,h.restage hp rfl rfl (fun _ => rfl) rfl trivial,.quiet rfl rfl rfl⟩
  · next value waiter hstage =>
    cases hstage
    cases hx
    exact h.dropSend hp
  · cases hx

theorem advanceRecv (hr : s.recvs[r]? = some d) (hx : s.advanceRecv r d waker = some x) :
    ∃ t, x = .ok t ∧ Ok capacity t ∧ Wakes s t := by
  obtain ⟨stage,last⟩ := d
  rw [State.advanceRecv] at hx
  split at hx
  · next hstage =>
    cases hstage
    cases hx
    exact h.pollTryRecv hr
  · next waiter hstage =>
    cases hstage
    cases hx
    exact h.pollRecv hr waker
  · cases hx

theorem cancelRecv (hr : s.recvs[r]? = some d) (hx : s.cancelRecv r d = some x) :
    ∃ t, x = .ok t ∧ Ok capacity t ∧ Wakes s t := by
  obtain ⟨stage,last⟩ := d
  rw [State.cancelRecv] at hx
  split at hx
  · next hstage =>
    cases hstage
    cases hx
    exact ⟨_,rfl,h.setRecv hr rfl rfl rfl (by simp),.quiet rfl rfl rfl⟩
  · next waiter hstage =>
    cases hstage
    cases hx
    exact h.dropRecv hr
  · cases hx

theorem tryRecv :
    ∃ result t, s.pop s.recvs.length = .ok (result,t) ∧
      Ok capacity {t with recvs := t.recvs++[⟨.done result,none⟩]} ∧
      Wakes s {t with recvs := t.recvs++[⟨.done result,none⟩]} := by
  rcases h.pop s.recvs.length with ⟨hv,hpop⟩ | ⟨v,values,x,sw,hv,hpop,hok⟩
  · refine ⟨_,s,hpop,?_,.quiet rfl rfl rfl⟩
    refine h.with_recv (h.recv.push_call rfl rfl) (List.Subset.refl _)
      (h.taken.push_none (by cases s.senderAlive <;> rfl)) ?_
    intro q d hd hstage
    rcases Table.getElem?_push hd with hd | ⟨-,rfl⟩
    · exact Or.inl ⟨q,hd⟩
    · cases hs : s.senderAlive with
      | true => simp [hs] at hstage
      | false => exact Or.inr ⟨rfl,hv⟩
  · refine ⟨_,_,hpop,hok s.recvWaiters (s.recvs++[⟨.done (.value v),none⟩]) ?_ ?_ ?_⟩
    · have hrecv := h.recv.mono (List.subset_append_left s.woken (x.toList.map Prod.snd))
      exact (hrecv.shrink (by simp [hv])).push_call rfl rfl
    · exact h.taken.push_new rfl
    · intro q d hd hstage
      rcases Table.getElem?_push hd with hd | ⟨-,rfl⟩
      · exact ⟨q,hd⟩
      · cases hstage

/-- No action panics, each keeps the invariant and wakes a send that it lets go on. -/
theorem act (hx : s.act a = some x) : ∃ t, x = .ok t ∧ Ok capacity t ∧ Wakes s t := by
  cases a with
  | cloneReceiver =>
    obtain ⟨hr,hx⟩ := Option.ite_none_left_eq_some.mp hx
    cases hx
    refine ⟨_,rfl,{h with roster := fun _ => h.roster hr,cleared := fun h0 => ?_,
                          kept := fun _ => h.kept hr,emptied := fun h0 => ?_},?_⟩
    · exact absurd h0 (Nat.succ_ne_zero _)
    · exact absurd h0 (Nat.succ_ne_zero _)
    · intro id _ waker f _ hfull _ hgo
      rcases hgo with hgo | hgo
      · exact absurd (hgo.symm.trans hfull) (by simp)
      · exact absurd hgo (Nat.succ_ne_zero _)
  | dropReceiver =>
    obtain ⟨hr,hx⟩ := Option.ite_none_left_eq_some.mp hx
    cases hx
    exact h.dropReceiver hr
  | dropSender =>
    obtain ⟨hf,hx⟩ := Option.ite_none_right_eq_some.mp hx
    cases hx
    exact h.dropSender hf
  | trySend value =>
    obtain ⟨hf,hx⟩ := Option.ite_none_right_eq_some.mp hx
    cases hx
    obtain ⟨outcome,t,ht,hok,hwakes⟩ := h.trySend hf value
    exact ⟨_,by rw [ht]; rfl,hok,hwakes⟩
  | send value =>
    obtain ⟨hf,hx⟩ := Option.ite_none_right_eq_some.mp hx
    cases hx
    exact ⟨_,rfl,h.append rfl rfl (fun _ => hf) rfl rfl,.quiet rfl rfl rfl⟩
  | advance p waker =>
    obtain ⟨c,hp,hx⟩ := Option.bind_eq_some_iff.mp hx
    exact h.advance hp hx
  | drop p =>
    obtain ⟨c,hp,hx⟩ := Option.bind_eq_some_iff.mp hx
    exact h.drop hp hx
  | tryRecv =>
    obtain ⟨-,hx⟩ := Option.ite_none_left_eq_some.mp hx
    cases hx
    obtain ⟨result,t,ht,hok,hwakes⟩ := h.tryRecv
    exact ⟨_,by rw [ht]; rfl,hok,hwakes⟩
  | recv =>
    obtain ⟨-,hx⟩ := Option.ite_none_left_eq_some.mp hx
    cases hx
    refine ⟨_,rfl,?_,.quiet rfl rfl rfl⟩
    refine h.with_recv (h.recv.push_call rfl rfl) (List.Subset.refl _) (h.taken.push_none rfl) ?_
    intro q d hd hstage
    rcases Table.getElem?_push hd with hd | ⟨-,rfl⟩
    · exact Or.inl ⟨q,hd⟩
    · cases hstage
  | advanceRecv r waker =>
    obtain ⟨d,hr,hx⟩ := Option.bind_eq_some_iff.mp hx
    exact h.advanceRecv hr hx
  | dropRecv r =>
    obtain ⟨d,hr,hx⟩ := Option.bind_eq_some_iff.mp hx
    exact h.cancelRecv hr hx

theorem next (hn : s.next a = some t) : Ok capacity t ∧ Wakes s t :=
  (Transition.step_ok (fun _ => h.act) hn).2

end

end Ok

section Reachable

variable {T W : Type} {capacity : Option ℕ} {s : State T W}

theorem created_eq (h : Created capacity s) : s = new T W capacity := by
  cases capacity with
  | none => exact h
  | some n =>
    rw [Created,bounded] at h
    split at h
    · exact (Except.ok.inj h).symm
    · cases h

variable [Wake W]

theorem new_ok (capacity : Option ℕ) : Ok capacity (new T W capacity) where
  recv := RecvOk.new rfl
  roster _ := Registry.new
  cleared h := absurd h Nat.one_ne_zero
  full h := absurd WaitList.order_new h
  capacity_eq := rfl
  bound _ _ := Nat.zero_le _
  single := by simp [new]
  borrowed := by simp [new]
  accounted := by simp [new]
  published := Table.Recorded.nil _
  taken := Table.Recorded.nil _
  history := rfl
  kept _ := rfl
  emptied _ := rfl
  ended := by simp [new]
  running := rfl

theorem reachable_ok (h : (machine T W capacity).Reachable s) : Ok capacity s := by
  apply (machine T W capacity).invariant (Ok capacity) _ _ h
  · intro s hs
    rw [created_eq hs]
    exact new_ok capacity
  · exact fun s a t hs hn => (hs.next hn).1

structure Delivery (capacity : Option ℕ) (s : State T W) : Prop where
  bound : ∀ n, capacity = some n → s.values.length ≤ n
  waiting : ∀ id ∈ s.sendWaiters.order, s.receivers ≠ 0 ∧
    (∃ n, capacity = some n ∧ s.values.length = n) ∧
    ∃ (p : ℕ) (c : SendCall T W) (waker : W), s.sends[p]? = some c ∧ c.waiter = some id ∧
      s.sendWaiters.get? id = some ⟨.waiting waker,p⟩ ∧ Reaches waker c.lastWaker
  history : s.published.map Prod.snd = s.taken.map Prod.snd++s.discarded++s.values
  sent : Table.Recorded SendCall.sentValue s.sends s.published
  received : Table.Recorded RecvCall.received s.recvs s.taken
  kept : s.receivers ≠ 0 → s.discarded = []
  handedBack : ∀ (p : ℕ) c v, s.sends[p]? = some c →
    (c.stage = .done (.full v) ∨ c.stage = .done (.disconnected v) ∨ c.stage = .done (.failed v)) →
    v = c.given
  ended : ∀ (r : ℕ) c, s.recvs[r]? = some c → c.stage = .done .disconnected →
    s.senderAlive = false ∧ s.values = []

theorem Ok.delivery (h : Ok capacity s) : Delivery capacity s where
  bound n hn := h.bound n (h.capacity_eq.trans hn)
  waiting id hid := by
    have hr : s.receivers ≠ 0 := by
      intro h0
      rw [order_eq_nil_of_vacant (h.cleared h0)] at hid
      cases hid
    obtain ⟨waker,p,hget⟩ := (h.roster hr).linked_waiting hid
    obtain ⟨c,hp,hw⟩ := Option.bind_eq_some_iff.mp ((h.roster hr).owned id _ hget)
    have hserved : Reaches waker (Table.lookup SendCall.lastWaker s.sends p) :=
      (h.roster hr).fits id _ hget
    rw [Table.lookup_eq hp] at hserved
    refine ⟨hr,?_,p,c,waker,hp,hw,hget,hserved⟩
    have hfull := h.full (List.ne_nil_of_mem hid)
    rw [State.hasCapacity] at hfull
    cases hc : s.capacity with
    | none =>
      rw [hc] at hfull
      cases hfull
    | some n =>
      rw [hc] at hfull
      have hle := h.bound n hc
      have hge : ¬ s.values.length < n := of_decide_eq_false hfull
      exact ⟨n,h.capacity_eq.symm.trans hc,by omega⟩
  history := h.history
  sent := h.published
  received := h.taken
  kept := h.kept
  handedBack p c v hp hv := by
    have hacc := h.accounted p c hp
    rcases hv with hv | hv | hv
    · rw [SendCall.Accounted,hv] at hacc
      exact hacc.symm
    · rw [SendCall.Accounted,hv] at hacc
      exact hacc.symm
    · rw [SendCall.Accounted,hv] at hacc
      exact hacc.symm
  ended := h.ended

/-- Whole runs of the SPMC queue: nothing panics; the values leave in the order in which they
were sent, each successful send once and to one receiver, the rest with the last receiver;
failed sends hand their value back; and a step that lets a waiting send go on hands out the
waker of its latest pending poll. -/
theorem delivery_and_wakeup (h : (machine T W capacity).Reachable s) :
    s.panicked = none ∧ Delivery capacity s ∧
    ∀ a t, s.next a = some t → ∀ (p : ℕ) c id, s.sends[p]? = some c → c.waiter = some id →
      id ∈ s.sendWaiters.order → t.hasCapacity = true ∨ t.receivers = 0 →
      ∃ fresh waker, t.woken = s.woken++fresh ∧ waker ∈ fresh ∧ Reaches waker c.lastWaker := by
  have hok := reachable_ok h
  refine ⟨hok.running,hok.delivery,?_⟩
  intro a t hn p c id hp hw hid hgo
  obtain ⟨hr,-,q,d,waker,hq,hwd,hget,hreach⟩ := hok.delivery.waiting id hid
  obtain ⟨fresh,hfresh,hmem⟩ :=
    (hok.next hn).2 id hid waker q hget (hok.full (List.ne_nil_of_mem hid)) hr hgo
  have hpq := hok.single p q c d hp hq (SendCall.isLive_of_waiter hw) (SendCall.isLive_of_waiter hwd)
  subst hpq
  rw [hp] at hq
  cases hq
  exact ⟨fresh,waker,hfresh,hmem,hreach⟩

end Reachable

/-- A send waits behind a value in a queue of one slot; a receive lets it go on. -/
def waitRun : List (Action ℕ ℕ) := [.trySend 5,.send 6,.advance 1 7,.advance 1 7]

theorem delivery_and_wakeup_waitRun :
    ∃ s t, (machine ℕ ℕ (some 1)).exec (new ℕ ℕ (some 1)) waitRun = some s ∧
      s.next .tryRecv = some t ∧ t.taken = [(0,5)] ∧
      ∃ fresh waker, t.woken = s.woken++fresh ∧ waker ∈ fresh ∧ Reaches waker (some 7) := by
  refine ⟨_,_,rfl,rfl,rfl,?_⟩
  have hreach : (machine ℕ ℕ (some 1)).Reachable _ :=
    ⟨new ℕ ℕ (some 1),waitRun,rfl,fun _ _ => trivial,rfl⟩
  exact (delivery_and_wakeup hreach).2.2 .tryRecv _ rfl 1 _ 0 rfl rfl (by decide) (Or.inl rfl)

end Spmc
end Asyncband
