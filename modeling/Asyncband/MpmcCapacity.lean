import Asyncband.Fifo
import Asyncband.MpmcQueue

/-! Capacity of the bounded MPMC queue.
A slot of the queue is free, holds a value, or belongs to a permit or to a granted
waiter. `Ok` carries that account through every step, together with the order in which
waiting reservations are served and the receiving side. `spare` counts the slots in the
hands of the critical section itself, so that each of its pieces keeps the account. -/
namespace Asyncband
namespace Mpmc

namespace SendCall

variable {T W : Type}

def weight (c : SendCall T W) : ℕ :=
  match c.stage with
  | .permit _ => 1
  | .rejecting _ => 1
  | _ => 0

def fresh (c : SendCall T W) : Bool :=
  match c.stage with
  | .unsent _ => true
  | .reserving _ none => true
  | _ => false

def isCancelled (c : SendCall T W) : Bool :=
  match c.stage with
  | .cancelled => true
  | _ => false

/-- The value that was given away is still in the call, or came back with its error. -/
def Accounted (c : SendCall T W) : Prop :=
  match c.stage with
  | .unsent value => c.given = some value
  | .reserving payload _ => c.given = payload
  | .permit payload => c.given = payload
  | .rejecting value => c.given = some value
  | .done (.refused _ value) => c.given = value
  | .done (.failed value) => c.given = value
  | _ => True

end SendCall

namespace State

variable {T W : Type} {s : State T W} {p : ℕ} {c : SendCall T W}

def permits (s : State T W) : ℕ := Table.total SendCall.weight s.sends

def live (s : State T W) (p : ℕ) : Bool := !(s.sends[p]?.any SendCall.isCancelled)

theorem live_set (hp : s.sends[p]? = some c) (c' : SendCall T W) :
    (s.setSend p c').live p = !c'.isCancelled ∧ ∀ q, q ≠ p → (s.setSend p c').live q = s.live q := by
  refine ⟨?_,fun q hq => ?_⟩
  · rw [live,setSend,Table.getElem?_set_self' hp,Option.any_some]
  · rw [live,setSend,List.getElem?_set_ne (Ne.symm hq),live]

theorem live_set_same (hp : s.sends[p]? = some c) (c' : SendCall T W)
    (hc : c'.isCancelled = c.isCancelled) : (s.setSend p c').live = s.live := by
  funext q
  obtain ⟨hself,hother⟩ := live_set hp c'
  by_cases hq : q = p
  · rw [hq,hself,hc,live,hp,Option.any_some]
  · exact hother q hq

end State

structure Ok {T W : Type} [Wake W] (capacity : Option ℕ) (spare : ℕ) (s : State T W) : Prop where
  recv : RecvOk s.values (s.senders ≠ 0) s.recvWaiters s.recvs s.woken
  roster : s.receivers ≠ 0 → Roster s.sendWaiters (Table.lookup SendCall.waiter s.sends)
    (Table.lookup SendCall.lastWaker s.sends) s.woken
  cleared : s.receivers = 0 → ∀ id, s.sendWaiters.get? id = none
  full : s.sendWaiters.order ≠ [] → s.available = some 0
  conserved : s.receivers ≠ 0 →
    s.available.map (·+(s.values.length+s.permits+s.sendWaiters.notified+spare)) = capacity
  fifo : s.receivers ≠ 0 → Fifo s.live s.registered s.granted s.sendWaiters.owners
  enlisted : ∀ p ∈ s.registered, ∃ c, s.sends[p]? = some c ∧ c.fresh = false
  rejecting : ∀ (p : ℕ) c v, s.sends[p]? = some c → c.stage = .rejecting v → s.receivers = 0
  accounted : ∀ (p : ℕ) c, s.sends[p]? = some c → c.Accounted
  running : s.panicked = none

namespace Ok

variable {T W : Type} [Wake W] {capacity : Option ℕ} {spare spare' : ℕ} {s t : State T W} {p r : ℕ}
  {c c' : SendCall T W}

section

variable (h : Ok capacity spare s) (hp : s.sends[p]? = some c)
include h hp

theorem change {w : Waiters W} {available : Option ℕ} {registered : List ℕ}
    (hroster : s.receivers ≠ 0 →
      Roster w (Function.update (Table.lookup SendCall.waiter s.sends) p c'.waiter)
        (Function.update (Table.lookup SendCall.lastWaker s.sends) p c'.lastWaker) s.woken)
    (hcleared : s.receivers = 0 → ∀ id, w.get? id = none) (hfull : w.order ≠ [] → available = some 0)
    (hcons : s.receivers ≠ 0 → ∀ permits, permits+c.weight = s.permits+c'.weight →
      available.map (·+(s.values.length+permits+w.notified+spare')) = capacity)
    (hfifo : s.receivers ≠ 0 → Fifo (s.setSend p c').live registered s.granted w.owners)
    (hold : ∀ q ∈ registered, q ≠ p → q ∈ s.registered) (hfresh : p ∈ registered → c'.fresh = false)
    (hrej : ∀ v, c'.stage = .rejecting v → s.receivers = 0) (hacc : c'.Accounted) :
    Ok capacity spare' {s.setSend p c' with
      sendWaiters := w,available := available,registered := registered} where
  recv := h.recv
  roster hr := by
    show Roster w (Table.lookup SendCall.waiter (s.sends.set p c'))
      (Table.lookup SendCall.lastWaker (s.sends.set p c')) s.woken
    rw [Table.lookup_set _ hp,Table.lookup_set _ hp]
    exact hroster hr
  cleared := hcleared
  full := hfull
  conserved hr := hcons hr _ (Table.total_set SendCall.weight hp c')
  fifo := hfifo
  enlisted q hq := by
    by_cases hqp : q = p
    · subst hqp
      exact ⟨c',Table.getElem?_set_self' hp c',hfresh hq⟩
    · obtain ⟨d,hd,hf⟩ := h.enlisted q (hold q hq hqp)
      exact ⟨d,(List.getElem?_set_ne (Ne.symm hqp)).trans hd,hf⟩
  rejecting q d v hd hv := by
    rcases Table.getElem?_set_cases hd with ⟨-,rfl⟩ | ⟨-,hd⟩
    · exact hrej v hv
    · exact h.rejecting q d v hd hv
  accounted := Table.forall_set h.accounted hacc
  running := h.running

theorem fresh_not_registered (hf : c.fresh = true) : p ∉ s.registered := by
  intro hreg
  obtain ⟨d,hd,hfalse⟩ := h.enlisted p hreg
  rw [hp] at hd
  cases hd
  rw [hf] at hfalse
  cases hfalse

theorem registered_not_fresh (hreg : p ∈ s.registered) : c.fresh = false := by
  obtain ⟨d,hd,hf⟩ := h.enlisted p hreg
  rw [hp] at hd
  cases hd
  exact hf

theorem restage (hwaiter : c'.waiter = c.waiter) (hlast : c'.lastWaker = c.lastWaker)
    (hweight : c'.weight+spare' = c.weight+spare)
    (hlive : c.fresh = true ∨ c'.isCancelled = c.isCancelled)
    (hfresh : c.fresh = false → c'.fresh = false)
    (hrej : ∀ v, c'.stage = .rejecting v → s.receivers = 0) (hacc : c'.Accounted) :
    Ok capacity spare' (s.setSend p c') := by
  refine h.change hp ?_ h.cleared h.full ?_ ?_ (fun q hq _ => hq) ?_ hrej hacc
  · intro hr
    rw [← Table.lookup_set SendCall.waiter hp,← Table.lookup_set SendCall.lastWaker hp,
      Table.lookup_set_same hp hwaiter,Table.lookup_set_same hp hlast]
    exact h.roster hr
  · intro hr permits hpermits
    have hcons := h.conserved hr
    have heq : s.values.length+permits+s.sendWaiters.notified+spare' =
        s.values.length+s.permits+s.sendWaiters.notified+spare := by omega
    rw [heq]
    exact hcons
  · intro hr
    apply (h.fifo hr).congr
    intro q hq
    obtain ⟨hself,hother⟩ := State.live_set hp c'
    by_cases hqp : q = p
    · subst hqp
      have hc : c'.isCancelled = c.isCancelled :=
        hlive.resolve_left fun hf => h.fresh_not_registered hp hf hq
      rw [hself,hc,State.live,hp,Option.any_some]
    · exact hother q hqp
  · exact fun hreg => hfresh (h.registered_not_fresh hp hreg)

theorem finish (hr : s.receivers = 0) (hfresh : c'.fresh = false) (hacc : c'.Accounted) :
    Ok capacity spare' (s.setSend p c') :=
  h.change hp (fun hn => absurd hr hn) h.cleared h.full (fun hn => absurd hr hn)
    (fun hn => absurd hr hn) (fun _ hq _ => hq) (fun _ => hfresh) (fun _ _ => hr) hacc

end

theorem append (h : Ok capacity spare s) (hwaiter : c.waiter = none) (hlast : c.lastWaker = none)
    (hweight : c.weight+spare' = spare) (hcan : c.isCancelled = false)
    (hrej : ∀ v, c.stage ≠ .rejecting v) (hacc : c.Accounted) :
    Ok capacity spare' {s with sends := s.sends++[c]} where
  recv := h.recv
  roster hr := by
    show Roster s.sendWaiters (Table.lookup SendCall.waiter (s.sends++[c]))
      (Table.lookup SendCall.lastWaker (s.sends++[c])) s.woken
    rw [Table.lookup_push _ hwaiter,Table.lookup_push _ hlast]
    exact h.roster hr
  cleared := h.cleared
  full := h.full
  conserved hr := by
    have heq : s.values.length+Table.total SendCall.weight (s.sends++[c])+s.sendWaiters.notified+spare'
        = s.values.length+s.permits+s.sendWaiters.notified+spare := by
      rw [Table.total_append,Table.total_cons,Table.total_nil,State.permits]
      omega
    show s.available.map (·+(s.values.length+Table.total SendCall.weight (s.sends++[c])+
      s.sendWaiters.notified+spare')) = capacity
    rw [heq]
    exact h.conserved hr
  fifo hr := by
    apply (h.fifo hr).congr
    intro q hq
    obtain ⟨d,hd,-⟩ := h.enlisted q hq
    show (!((s.sends++[c])[q]?.any SendCall.isCancelled)) = s.live q
    rw [Table.getElem?_push_old hd,State.live,hd]
  enlisted q hq := by
    obtain ⟨d,hd,hf⟩ := h.enlisted q hq
    exact ⟨d,Table.getElem?_push_old hd c,hf⟩
  rejecting q d v hd hv := by
    rcases Table.getElem?_push hd with hd | ⟨-,rfl⟩
    · exact h.rejecting q d v hd hv
    · exact absurd hv (hrej v)
  accounted := Table.forall_push h.accounted hacc
  running := h.running

theorem of_disconnected (h : Ok capacity spare s) (hr : s.receivers = 0) : Ok capacity spare' s :=
  {h with conserved := fun hn => absurd hr hn}

end Ok

structure Released {T W : Type} (s t : State T W) : Prop where
  values : t.values = s.values
  senders : t.senders = s.senders
  receivers : t.receivers = s.receivers
  recvWaiters : t.recvWaiters = s.recvWaiters
  recvs : t.recvs = s.recvs
  woken : s.woken ⊆ t.woken

namespace Ok

variable {T W : Type} [Wake W] {capacity : Option ℕ} {spare spare' : ℕ} {s t : State T W} {p r : ℕ}
  {c c' : SendCall T W}
variable {v : T} {given payload : Option T} {last : Option W} {id : WaiterId}
    {waiter : Option WaiterId} {x : Except String (State T W)} {waker : W} {d : RecvCall T W}
    {a : Action T W}

theorem release (h : Ok capacity 1 s) : ∃ t, s.release = .ok t ∧ Ok capacity 0 t ∧ Released s t := by
  have hsame : Released s s := ⟨rfl,rfl,rfl,rfl,rfl,List.Subset.refl _⟩
  by_cases hr : s.receivers = 0
  · exact ⟨s,by rw [State.release,if_pos hr],h.of_disconnected hr,hsame⟩
  have hcons := h.conserved hr
  cases ha : s.available with
  | none =>
    refine ⟨s,by rw [State.release,if_neg hr,ha],{h with conserved := fun _ => ?_},hsame⟩
    rw [ha] at hcons ⊢
    exact hcons
  | some a =>
    rw [ha] at hcons
    rcases (h.roster hr).notifyOne with ⟨ho,hn⟩ | ⟨id,q,waker,w,hn,ho,howners,hcount,hroster⟩
    · -- nobody waits
      refine ⟨{s with available := some (a+1)},?_,?_,⟨rfl,rfl,rfl,rfl,rfl,List.Subset.refl _⟩⟩
      · simp only [State.release,if_neg hr,ha,hn]
        rfl
      · refine {h with full := fun hw => absurd ho hw,conserved := fun _ => ?_}
        rw [← hcons]
        show some (a+1+(s.values.length+s.permits+s.sendWaiters.notified+0)) =
          some (a+(s.values.length+s.permits+s.sendWaiters.notified+1))
        congr 1
        omega
    · -- the slot stays out of `available` and belongs to the granted waiter
      refine ⟨{s with sendWaiters := w,granted := s.granted++[q],woken := s.woken++[waker]},?_,?_,
        ⟨rfl,rfl,rfl,rfl,rfl,List.subset_append_left _ _⟩⟩
      · simp only [State.release,if_neg hr,ha,hn]
        rfl
      · refine {h with recv := h.recv.mono (List.subset_append_left _ _),roster := fun _ => hroster,
                       cleared := fun h0 => absurd h0 hr,full := fun _ => ?_,
                       conserved := fun _ => ?_,fifo := fun _ => ?_}
        · exact h.full (by simp [ho])
        · rw [← hcons]
          show s.available.map (·+(s.values.length+s.permits+w.notified+0)) = _
          rw [ha]
          show some (a+(s.values.length+s.permits+w.notified+0)) =
            some (a+(s.values.length+s.permits+s.sendWaiters.notified+1))
          congr 1
          omega
        · have hf := h.fifo hr
          rw [howners] at hf
          exact Fifo.serve (show Fifo s.live s.registered s.granted ([q]++w.owners) from hf)

theorem order_nil (h : Ok capacity spare s) (hc : s.hasCapacity = true) :
    s.sendWaiters.order = [] := by
  by_contra ho
  rw [State.hasCapacity,h.full ho] at hc
  cases hc

theorem claim (h : Ok capacity 0 s) (hc : s.hasCapacity = true) : Ok capacity 1 s.claim := by
  refine {h with full := fun hw => absurd (h.order_nil hc) hw,conserved := fun hr => ?_}
  have hcons := h.conserved hr
  rw [← hcons]
  cases ha : s.available with
  | none => rw [State.claim,ha]; rfl
  | some a =>
    have hpos : a ≠ 0 := by
      rintro rfl
      rw [State.hasCapacity,ha] at hc
      cases hc
    show (s.available.map (·-1)).map (·+(s.values.length+s.permits+s.sendWaiters.notified+1)) = _
    rw [ha]
    show some (a-1+(s.values.length+s.permits+s.sendWaiters.notified+1)) =
      some (a+(s.values.length+s.permits+s.sendWaiters.notified+0))
    congr 1
    omega

theorem acquire (h : Ok capacity 0 s) :
    s.receivers = 0 ∧ s.acquire = .error .disconnected ∨
    s.receivers ≠ 0 ∧ s.available = some 0 ∧ s.acquire = .error .full ∨
    s.receivers ≠ 0 ∧ s.sendWaiters.order = [] ∧ s.acquire = .ok s.claim ∧ Ok capacity 1 s.claim := by
  by_cases hr : s.receivers = 0
  · exact Or.inl ⟨hr,by rw [State.acquire,if_pos hr]⟩
  · right
    cases hc : s.hasCapacity with
    | false =>
      left
      refine ⟨hr,?_,by rw [State.acquire,if_neg hr,hc]; rfl⟩
      simpa [State.hasCapacity] using hc
    | true =>
      right
      exact ⟨hr,h.order_nil hc,by rw [State.acquire,if_neg hr,hc]; rfl,h.claim hc⟩

/-- The queued value owns the slot, and the first waiting receiver is notified. -/
theorem push (h : Ok capacity 1 s) (value : T) :
    ∃ t, s.push value = .ok t ∧ Ok capacity 0 t ∧ t.sends = s.sends := by
  obtain ⟨x,w,hn,hrecv⟩ := h.recv.push value
  refine ⟨{s with values := s.values++[value],recvWaiters := w,
                  woken := s.woken++x.toList.map Prod.snd},by rw [State.push,hn]; rfl,?_,rfl⟩
  refine {h with recv := hrecv,roster := fun hr => ?_,conserved := fun hr => ?_}
  · exact (h.roster hr).mono (List.subset_append_left _ _)
  · rw [← h.conserved hr]
    show s.available.map (·+((s.values++[value]).length+s.permits+s.sendWaiters.notified+0)) = _
    congr 1
    funext a
    rw [List.length_append,List.length_singleton]
    omega

section

variable (h : Ok capacity 0 s)
include h

theorem pop :
    (∃ v values t, s.values = v::values ∧ s.pop = .ok (.value v,t) ∧ Ok capacity 0 t ∧
      Released {s with values := values} t) ∨
    s.values = [] ∧ s.pop = .ok (if s.senders = 0 then .disconnected else .empty,s) := by
  cases hv : s.values with
  | nil => exact Or.inr ⟨rfl,by rw [State.pop,hv]⟩
  | cons v values =>
    left
    have htaken : Ok capacity 1 {s with values := values} := by
      refine {h with recv := h.recv.shrink (by simp [hv]),conserved := fun hr => ?_}
      rw [← h.conserved hr]
      show s.available.map (·+(values.length+s.permits+s.sendWaiters.notified+1)) = _
      congr 1
      funext a
      rw [hv,List.length_cons]
      omega
    obtain ⟨t,ht,hok,hrel⟩ := htaken.release
    refine ⟨v,values,t,rfl,?_,hok,hrel⟩
    simp only [State.pop,hv,ht]
    rfl

theorem trySend (v : T) :
    s.receivers = 0 ∧ s.trySend v = .ok (.refused .disconnected (some v),s) ∨
    s.receivers ≠ 0 ∧ s.available = some 0 ∧ s.trySend v = .ok (.refused .full (some v),s) ∨
    ∃ t, s.sendWaiters.order = [] ∧ s.trySend v = .ok (.sent,t) ∧ Ok capacity 0 t ∧
      t.sends = s.sends := by
  rcases h.acquire with ⟨hr,ha⟩ | ⟨hr,hz,ha⟩ | ⟨-,ho,ha,hok⟩
  · exact Or.inl ⟨hr,by rw [State.trySend,ha]⟩
  · exact Or.inr (Or.inl ⟨hr,hz,by rw [State.trySend,ha]⟩)
  · obtain ⟨t,hpush,hok',hsends⟩ := hok.push v
    refine Or.inr (Or.inr ⟨t,ho,?_,hok',hsends⟩)
    simp only [State.trySend,ha,hpush]
    rfl

theorem tryReserve : Ok capacity 0 s.tryReserve := by
  rw [State.tryReserve]
  rcases h.acquire with ⟨-,ha⟩ | ⟨-,-,ha⟩ | ⟨-,-,ha,hok⟩
  · rw [ha]
    exact h.append rfl rfl rfl rfl (by simp) rfl
  · rw [ha]
    exact h.append rfl rfl rfl rfl (by simp) rfl
  · rw [ha]
    exact hok.append rfl rfl rfl rfl (by simp) rfl

theorem pollSend (hp : s.sends[p]? = some ⟨.unsent v,given,last⟩) :
    ∃ t, s.pollSend p ⟨.unsent v,given,last⟩ v = .ok t ∧ Ok capacity 0 t := by
  have hgiven : given = some v := h.accounted p _ hp
  rcases h.trySend v with ⟨hr,ht⟩ | ⟨hr,-,ht⟩ | ⟨t,-,ht,hok,hsends⟩
  · refine ⟨_,by rw [State.pollSend,ht]; rfl,?_⟩
    exact h.finish hp hr rfl hgiven
  · refine ⟨_,by rw [State.pollSend,ht]; rfl,?_⟩
    exact h.restage hp rfl rfl rfl (Or.inl rfl) (by simp [SendCall.fresh]) (by simp) hgiven
  · refine ⟨_,by rw [State.pollSend,ht]; rfl,?_⟩
    rw [← hsends] at hp
    exact hok.restage hp rfl rfl rfl (Or.inl rfl) (by simp [SendCall.fresh]) (by simp) trivial

theorem await_new (hr : s.receivers ≠ 0) (hz : s.available = some 0)
    (hp : s.sends[p]? = some ⟨.reserving payload none,given,last⟩) (waker : W) :
    ∃ id t, s.await p ⟨.reserving payload none,given,last⟩ payload none waker = .ok t ∧
      Ok capacity 0 t ∧ t.sends[p]? = some ⟨.reserving payload (some id),given,some waker⟩ := by
  obtain ⟨id,w,hreg,howners,hcount,hroster⟩ :=
    (h.roster hr).registerWaiter_new (Table.lookup_eq hp) waker
  refine ⟨id,_,by rw [State.await,hreg]; rfl,?_,Table.getElem?_set_self' hp _⟩
  have hnot : p ∉ s.registered := h.fresh_not_registered hp rfl
  have hgiven : given = payload := h.accounted p _ hp
  refine h.change hp (fun _ => hroster) (fun h0 => absurd h0 hr) (fun _ => hz) ?_ ?_ ?_
    (fun _ => rfl) (by simp) hgiven
  · intro _ permits hpermits
    have hsame : permits = s.permits := hpermits
    rw [hsame,hcount]
    exact h.conserved hr
  · intro _
    rw [State.live_set_same hp ⟨.reserving payload (some id),given,some waker⟩ rfl,howners]
    apply (h.fifo hr).enter hnot
    rw [State.live,hp]
    rfl
  · intro q hq hqp
    simpa [hqp] using hq

theorem await_linked (hr : s.receivers ≠ 0) (hid : id ∈ s.sendWaiters.order)
    (hp : s.sends[p]? = some ⟨.reserving payload (some id),given,last⟩) (waker : W) :
    ∃ t, s.await p ⟨.reserving payload (some id),given,last⟩ payload (some id) waker = .ok t ∧
      Ok capacity 0 t := by
  obtain ⟨w,hreg,howners,hcount,hroster⟩ :=
    (h.roster hr).registerWaiter_linked (Table.lookup_eq hp) hid waker
  refine ⟨_,by rw [State.await,hreg]; rfl,?_⟩
  have hgiven : given = payload := h.accounted p _ hp
  refine h.change hp (fun _ => ?_) (fun h0 => absurd h0 hr) ?_ ?_ ?_ (fun q hq _ => hq)
    (fun _ => rfl) (by simp) hgiven
  · show Roster w (Function.update (Table.lookup SendCall.waiter s.sends) p (some id)) _ s.woken
    rw [Table.update_lookup _ hp (some id) rfl]
    exact hroster
  · intro _
    exact h.full (List.ne_nil_of_mem hid)
  · intro _ permits hpermits
    have hsame : permits = s.permits := hpermits
    rw [hsame,hcount]
    exact h.conserved hr
  · intro _
    rw [State.live_set_same hp ⟨.reserving payload (some id),given,some waker⟩ rfl,howners]
    exact h.fifo hr

theorem pollReserve_granted (hr : s.receivers ≠ 0) (hid : s.sendWaiters.get? id = some ⟨.notified,p⟩)
    (hp : s.sends[p]? = some ⟨.reserving payload (some id),given,last⟩) (waker : W) :
    ∃ t, s.pollReserve p ⟨.reserving payload (some id),given,last⟩ payload (some id) waker = .ok t ∧
      Ok capacity 0 t := by
  obtain ⟨w,hrem,ho,-,howners,hcount,hroster⟩ := (h.roster hr).removeSelected hid
  have hgiven : given = payload := h.accounted p _ hp
  refine ⟨{s.setSend p ⟨.permit payload,given,last⟩ with sendWaiters := w},?_,?_⟩
  · simp only [State.pollReserve,if_neg hr,WaitList.waiterMut_ok hid,bind,Except.bind,hrem]
  · refine h.change hp (fun _ => ?_) (fun h0 => absurd h0 hr) ?_ ?_ ?_ (fun q hq _ => hq)
      (fun _ => rfl) (by simp) hgiven
    · show Roster w _ (Function.update (Table.lookup SendCall.lastWaker s.sends) p last) s.woken
      rw [Table.update_lookup _ hp last rfl]
      exact hroster
    · rw [ho]
      exact h.full
    · intro _ permits hpermits
      have hone : permits+0 = s.permits+1 := hpermits
      rw [← h.conserved hr]
      congr 1
      funext a
      omega
    · intro _
      rw [State.live_set_same hp ⟨.permit payload,given,last⟩ rfl,howners]
      exact h.fifo hr

theorem pollReserve (hp : s.sends[p]? = some ⟨.reserving payload waiter,given,last⟩) (waker : W) :
    ∃ t, s.pollReserve p ⟨.reserving payload waiter,given,last⟩ payload waiter waker = .ok t ∧
      Ok capacity 0 t := by
  have hgiven : given = payload := h.accounted p _ hp
  by_cases hr : s.receivers = 0
  · refine ⟨s.setSend p ⟨.done (.failed payload),given,last⟩,if_pos hr,?_⟩
    exact h.finish hp hr rfl hgiven
  cases waiter with
  | some id =>
    obtain ⟨⟨v,q⟩,hget,hq⟩ := (h.roster hr).held p id (Table.lookup_eq hp)
    cases hq
    cases v with
    | notified => exact h.pollReserve_granted hr hget hp waker
    | waiting current =>
      have hid : id ∈ s.sendWaiters.order := ((h.roster hr).linked id _ hget).mpr ⟨current,rfl⟩
      obtain ⟨t,ht,hok⟩ := h.await_linked hr hid hp waker
      refine ⟨t,?_,hok⟩
      simp only [State.pollReserve,if_neg hr,WaitList.waiterMut_ok hget]
      exact ht
  | none =>
    cases hc : s.hasCapacity with
    | true =>
      refine ⟨s.claim.setSend p ⟨.permit payload,given,last⟩,?_,?_⟩
      · simp only [State.pollReserve,if_neg hr,hc,if_true]
      · exact (h.claim hc).restage hp rfl rfl rfl (Or.inr rfl) (by simp [SendCall.fresh]) (by simp)
          hgiven
    | false =>
      have hz : s.available = some 0 := by simpa [State.hasCapacity] using hc
      obtain ⟨id,t,ht,hok,-⟩ := h.await_new hr hz hp waker
      refine ⟨t,?_,hok⟩
      rw [State.pollReserve,if_neg hr,hc]
      exact ht

theorem dropReserve (hp : s.sends[p]? = some ⟨.reserving payload waiter,given,last⟩) :
    ∃ t, s.dropReserve p ⟨.reserving payload waiter,given,last⟩ waiter = .ok t ∧ Ok capacity 0 t := by
  cases waiter with
  | none =>
    refine ⟨_,rfl,?_⟩
    exact h.restage hp rfl rfl rfl (Or.inl rfl) (by simp [SendCall.fresh]) (by simp) trivial
  | some id =>
    by_cases hr : s.receivers = 0
    · refine ⟨s.setSend p ⟨.cancelled,given,last⟩,if_pos hr,?_⟩
      exact h.finish hp hr rfl trivial
    obtain ⟨⟨v,q⟩,w,hget,hq,hrem,ho,-,howners,hcount,hroster⟩ :=
      (h.roster hr).removeWaiter (Table.lookup_eq hp)
    obtain rfl : p = q := hq.symm
    -- the slot of a granted waiter is in the destructor's hands
    have hok : Ok capacity v.mark {s.setSend p ⟨.cancelled,given,last⟩ with sendWaiters := w} := by
      refine h.change hp (fun _ => ?_) (fun h0 => absurd h0 hr) ?_ ?_ ?_ (fun q hq _ => hq)
        (fun _ => rfl) (by simp) trivial
      · show Roster w _ (Function.update (Table.lookup SendCall.lastWaker s.sends) p last) s.woken
        rw [Table.update_lookup _ hp last rfl]
        exact hroster
      · intro hw
        exact h.full fun hnil => hw (by rw [ho,hnil]; rfl)
      · intro _ permits hpermits
        have hsame : permits = s.permits := hpermits
        have hmark : w.notified+v.mark = s.sendWaiters.notified := hcount
        rw [← h.conserved hr]
        congr 1
        funext a
        omega
      · intro _
        obtain ⟨hself,hother⟩ := State.live_set hp ⟨.cancelled,given,last⟩
        rw [howners]
        exact (h.fifo hr).cancel hself hother
    have hr' : (s.setSend p ⟨.cancelled,given,last⟩).receivers ≠ 0 := hr
    have hrem' : (s.setSend p ⟨.cancelled,given,last⟩).sendWaiters.removeWaiter id =
        .ok (⟨v,p⟩,w) := hrem
    cases v with
    | waiting waker => exact ⟨_,by simp only [State.dropReserve,if_neg hr',hrem']; rfl,hok⟩
    | notified =>
      obtain ⟨t,ht,hok',-⟩ := hok.release
      exact ⟨t,by simp only [State.dropReserve,if_neg hr',hrem']; exact ht,hok'⟩

theorem permitSend (hp : s.sends[p]? = some ⟨.permit (some v),given,last⟩) :
    ∃ t, s.permitSend p ⟨.permit (some v),given,last⟩ v = .ok t ∧ Ok capacity 0 t := by
  have hgiven : given = some v := h.accounted p _ hp
  by_cases hr : s.receivers = 0
  · refine ⟨s.setSend p ⟨.rejecting v,given,last⟩,if_pos hr,?_⟩
    exact h.finish hp hr rfl hgiven
  · have hspent : Ok capacity 1 (s.setSend p ⟨.done .sent,given,last⟩) :=
      h.restage hp rfl rfl rfl (Or.inr rfl) (fun _ => rfl) (by simp) trivial
    obtain ⟨t,ht,hok,-⟩ := hspent.push v
    exact ⟨t,by rw [State.permitSend,if_neg hr]; exact ht,hok⟩

theorem dropPermit (hp : s.sends[p]? = some c) (hw : c.weight = 1) (hwaiter : c.waiter = none)
    (hcan : c.isCancelled = false) {outcome : Outcome T}
    (hacc : SendCall.Accounted (⟨.done outcome,c.given,c.lastWaker⟩ : SendCall T W)) :
    ∃ t, s.dropPermit p c outcome = .ok t ∧ Ok capacity 0 t := by
  have hspent : Ok capacity 1 (s.setSend p ⟨.done outcome,c.given,c.lastWaker⟩) :=
    h.restage hp hwaiter.symm rfl (by rw [hw]; rfl) (Or.inr hcan.symm) (fun _ => rfl) (by simp) hacc
  obtain ⟨t,ht,hok,-⟩ := hspent.release
  exact ⟨t,ht,hok⟩

end

theorem with_recv (h : Ok capacity spare s) {w : Waiters W} {recvs : List (RecvCall T W)}
    {woken : List W} (hrecv : RecvOk s.values (s.senders ≠ 0) w recvs woken)
    (hw : s.woken ⊆ woken) :
    Ok capacity spare {s with recvWaiters := w,recvs := recvs,woken := woken} :=
  {h with recv := hrecv,roster := fun hr => (h.roster hr).mono hw}

section

variable (h : Ok capacity 0 s)
include h

theorem pollTryRecv (hr : s.recvs[r]? = some ⟨.unpolled,last⟩) :
    ∃ t, s.pollTryRecv r ⟨.unpolled,last⟩ = .ok t ∧ Ok capacity 0 t := by
  rcases h.pop with ⟨v,values,t,-,hpop,hok,hrel⟩ | ⟨hv,hpop⟩
  · refine ⟨t.setRecv r ⟨.done (.value v),last⟩,by rw [State.pollTryRecv,hpop]; rfl,?_⟩
    have hr' : t.recvs[r]? = some ⟨.unpolled,last⟩ := by rw [hrel.recvs]; exact hr
    exact hok.with_recv (hok.recv.set_same hr' rfl rfl) (List.Subset.refl _)
  · by_cases hs : s.senders = 0
    · rw [if_pos hs] at hpop
      refine ⟨s.setRecv r ⟨.done .disconnected,last⟩,by rw [State.pollTryRecv,hpop]; rfl,?_⟩
      exact h.with_recv (h.recv.set_same hr rfl rfl) (List.Subset.refl _)
    · rw [if_neg hs] at hpop
      refine ⟨s.setRecv r ⟨.receiving none,last⟩,by rw [State.pollTryRecv,hpop]; rfl,?_⟩
      exact h.with_recv (h.recv.set_same hr rfl rfl) (List.Subset.refl _)

/-- Once the senders are gone, polls of `Recv` leave the waiter storage alone. -/
theorem pollRecv_dead (hs : s.senders = 0) (waker : W) :
    ∃ t, s.pollRecv r ⟨.receiving waiter,last⟩ waiter waker = .ok t ∧ Ok capacity 0 t := by
  have hvacant := h.recv.cleared (fun hn => hn hs)
  rcases h.pop with ⟨v,values,t,-,hpop,hok,hrel⟩ | ⟨hv,hpop⟩
  · refine ⟨t.setRecv r ⟨.done (.value v),last⟩,?_,?_⟩
    · simp only [State.pollRecv,if_pos hs,hpop]
      rfl
    · refine hok.with_recv (RecvOk.dead ?_ ?_) (List.Subset.refl _)
      · rw [hrel.senders]
        exact fun hn => hn hs
      · rw [hrel.recvWaiters]
        exact hvacant
  · rw [if_pos hs] at hpop
    refine ⟨s.setRecv r ⟨.done .disconnected,last⟩,?_,?_⟩
    · simp only [State.pollRecv,if_pos hs,hpop]
      rfl
    · exact h.with_recv (RecvOk.dead (fun hn => hn hs) hvacant) (List.Subset.refl _)

theorem pollRecv (hr : s.recvs[r]? = some ⟨.receiving waiter,last⟩) (waker : W) :
    ∃ t, s.pollRecv r ⟨.receiving waiter,last⟩ waiter waker = .ok t ∧ Ok capacity 0 t := by
  by_cases hs : s.senders = 0
  · exact h.pollRecv_dead hs waker
  rcases h.pop with ⟨v,values,t,hv,hpop,hok,hrel⟩ | ⟨hv,hpop⟩
  · have hr' : t.recvs[r]? = some ⟨.receiving waiter,last⟩ := by rw [hrel.recvs]; exact hr
    cases waiter with
    | none =>
      refine ⟨t.setRecv r ⟨.done (.value v),last⟩,?_,?_⟩
      · simp only [State.pollRecv,if_neg hs,hpop]
        rfl
      · exact hok.with_recv (hok.recv.set_same hr' rfl rfl) (List.Subset.refl _)
    | some id =>
      -- the account still counts the value, which pays for the notification that goes
      have hrecv : RecvOk (v::t.values) (t.senders ≠ 0) t.recvWaiters t.recvs t.woken := by
        rw [hrel.values,hrel.senders,hrel.recvWaiters,hrel.recvs,← hv]
        exact h.recv.mono hrel.woken
      obtain ⟨retired,w,hrem,hrecv'⟩ :=
        hrecv.consume (hrel.senders ▸ hs) hr' rfl ⟨.done (.value v),last⟩ rfl rfl
      refine ⟨{t.setRecv r ⟨.done (.value v),last⟩ with recvWaiters := w},?_,?_⟩
      · have hrem' : (t.setRecv r ⟨.done (.value v),last⟩).recvWaiters.removeWaiter id =
            .ok (retired,w) := hrem
        simp only [State.pollRecv,if_neg hs,hpop,bind,Except.bind,hrem']
      · exact hok.with_recv hrecv' (List.Subset.refl _)
  · rw [if_neg hs] at hpop
    have hrecv := h.recv
    rw [hv] at hrecv
    obtain ⟨id,w,hreg,hrecv'⟩ := hrecv.register hs hr waker
    refine ⟨{s.setRecv r ⟨.receiving (some id),some waker⟩ with recvWaiters := w},?_,?_⟩
    · have hreg' : s.recvWaiters.register r waiter waker = .ok (id,w) := hreg
      simp only [State.pollRecv,if_neg hs,hpop,bind,Except.bind,hreg']
    · rw [← hv] at hrecv'
      exact h.with_recv hrecv' (List.Subset.refl _)

theorem dropRecv (hr : s.recvs[r]? = some ⟨.receiving waiter,last⟩) :
    ∃ t, s.dropRecv r ⟨.receiving waiter,last⟩ waiter = .ok t ∧ Ok capacity 0 t := by
  cases waiter with
  | none =>
    refine ⟨s.setRecv r ⟨.cancelled,last⟩,rfl,?_⟩
    exact h.with_recv (h.recv.set_same hr rfl rfl) (List.Subset.refl _)
  | some id =>
    by_cases hs : s.senders = 0
    · refine ⟨s.setRecv r ⟨.cancelled,last⟩,if_pos hs,?_⟩
      refine h.with_recv (RecvOk.dead ?_ ?_) (List.Subset.refl _)
      · exact fun hn => hn hs
      · exact h.recv.cleared fun hn => hn hs
    · obtain ⟨x,w,hdrop,hrecv⟩ := h.recv.drop hs hr rfl ⟨.cancelled,last⟩ rfl rfl
      refine ⟨{s.setRecv r ⟨.cancelled,last⟩ with
        recvWaiters := w,woken := s.woken++x.toList.map Prod.snd},?_,?_⟩
      · have hs' : (s.setRecv r ⟨.cancelled,last⟩).senders ≠ 0 := hs
        have hdrop' : (s.setRecv r ⟨.cancelled,last⟩).recvWaiters.dropRecv
            (s.setRecv r ⟨.cancelled,last⟩).values id = .ok (x,w) := hdrop
        simp only [State.dropRecv,if_neg hs',hdrop']
        rfl
      · exact h.with_recv hrecv (List.subset_append_left _ _)

theorem dropSender (hs : s.senders ≠ 0) : ∃ t, s.dropSender = .ok t ∧ Ok capacity 0 t := by
  by_cases hlast : s.senders-1 = 0
  · have hdrain := (h.recv.roster hs).drain_notifyOne
    refine ⟨{s with senders := s.senders-1,recvWaiters := .new,
                    woken := s.woken++s.recvWaiters.wakers},?_,?_⟩
    · simp only [State.dropSender,hlast,ne_eq,not_true_eq_false,if_false,hdrain]
      rfl
    · refine {h with recv := RecvOk.dead (fun hn => hn hlast) (fun _ => WaitList.get?_new _),
                     roster := fun hr => (h.roster hr).mono (List.subset_append_left _ _)}
  · refine ⟨{s with senders := s.senders-1},if_pos hlast,?_⟩
    exact {h with recv := h.recv.alive_congr (iff_of_true hlast hs)}

theorem dropReceiver (hr : s.receivers ≠ 0) : ∃ t, s.dropReceiver = .ok t ∧ Ok capacity 0 t := by
  by_cases hlast : s.receivers-1 = 0
  · have hdrain := (h.roster hr).drain_takeWaitingWaker
    refine ⟨{s with receivers := s.receivers-1,values := [],sendWaiters := .new,
                    woken := s.woken++s.sendWaiters.wakers},?_,?_⟩
    · simp only [State.dropReceiver,hlast,ne_eq,not_true_eq_false,if_false,hdrain]
      rfl
    · refine {h with recv := (h.recv.mono (List.subset_append_left _ _)).shrink (Nat.zero_le _),
                     roster := fun hn => absurd hlast hn,cleared := fun _ _ => WaitList.get?_new _,
                     full := fun hw => absurd WaitList.order_new hw,
                     conserved := fun hn => absurd hlast hn,fifo := fun hn => absurd hlast hn,
                     rejecting := fun _ _ _ _ _ => hlast}
  · refine ⟨{s with receivers := s.receivers-1},if_pos hlast,?_⟩
    exact {h with roster := fun _ => h.roster hr,cleared := fun h0 => absurd h0 hlast,
                  conserved := fun _ => h.conserved hr,fifo := fun _ => h.fifo hr,
                  rejecting := fun p c v hp hv => absurd (h.rejecting p c v hp hv) hr}

theorem sendPermit (hp : s.sends[p]? = some c) {value : T} (hx : s.sendPermit p c value = some x) :
    ∃ t, x = .ok t ∧ Ok capacity 0 t := by
  obtain ⟨stage,given,last⟩ := c
  rw [State.sendPermit] at hx
  split at hx
  · next hstage =>
    cases hstage
    cases hx
    exact ⟨_,rfl,h.restage hp rfl rfl rfl (Or.inr rfl) (fun _ => rfl) (by simp) rfl⟩
  · cases hx

theorem advance (hp : s.sends[p]? = some c) (hx : s.advance p c waker = some x) :
    ∃ t, x = .ok t ∧ Ok capacity 0 t := by
  obtain ⟨stage,given,last⟩ := c
  rw [State.advance] at hx
  split at hx
  · next v hstage =>
    cases hstage
    cases hx
    exact h.pollSend hp
  · next payload waiter hstage =>
    cases hstage
    cases hx
    exact h.pollReserve hp waker
  · next v hstage =>
    cases hstage
    cases hx
    exact h.permitSend hp
  · next v hstage =>
    cases hstage
    cases hx
    have hgiven : given = some v := h.accounted p _ hp
    exact h.dropPermit hp rfl rfl rfl hgiven
  · cases hx

theorem drop (hp : s.sends[p]? = some c) (hx : s.drop p c = some x) :
    ∃ t, x = .ok t ∧ Ok capacity 0 t := by
  obtain ⟨stage,given,last⟩ := c
  rw [State.drop] at hx
  split at hx
  · next v hstage =>
    cases hstage
    cases hx
    refine ⟨_,rfl,?_⟩
    exact h.restage hp rfl rfl rfl (Or.inl rfl) (by simp [SendCall.fresh]) (by simp) trivial
  · next payload waiter hstage =>
    cases hstage
    cases hx
    exact h.dropReserve hp
  · next hstage =>
    cases hstage
    cases hx
    exact h.dropPermit hp rfl rfl rfl trivial
  · cases hx

theorem advanceRecv (hr : s.recvs[r]? = some d) (hx : s.advanceRecv r d waker = some x) :
    ∃ t, x = .ok t ∧ Ok capacity 0 t := by
  obtain ⟨stage,last⟩ := d
  rw [State.advanceRecv] at hx
  split at hx
  · next hstage =>
    cases hstage
    cases hx
    exact h.pollTryRecv hr
  · next waiter hstage =>
    cases hstage
    cases hx
    exact h.pollRecv hr waker
  · cases hx

theorem cancelRecv (hr : s.recvs[r]? = some d) (hx : s.cancelRecv r d = some x) :
    ∃ t, x = .ok t ∧ Ok capacity 0 t := by
  obtain ⟨stage,last⟩ := d
  rw [State.cancelRecv] at hx
  split at hx
  · next hstage =>
    cases hstage
    cases hx
    exact ⟨_,rfl,h.with_recv (h.recv.set_same hr rfl rfl) (List.Subset.refl _)⟩
  · next waiter hstage =>
    cases hstage
    cases hx
    exact h.dropRecv hr
  · cases hx

theorem act (hx : s.act a = some x) : ∃ t, x = .ok t ∧ Ok capacity 0 t := by
  cases a with
  | cloneSender =>
    obtain ⟨hs,hx⟩ := Option.ite_none_left_eq_some.mp hx
    cases hx
    exact ⟨_,rfl,{h with recv := h.recv.alive_congr (iff_of_true (Nat.succ_ne_zero _) hs)}⟩
  | dropSender =>
    obtain ⟨hs,hx⟩ := Option.ite_none_left_eq_some.mp hx
    cases hx
    exact h.dropSender hs
  | cloneReceiver =>
    obtain ⟨hr,hx⟩ := Option.ite_none_left_eq_some.mp hx
    cases hx
    refine ⟨_,rfl,{h with roster := fun _ => h.roster hr,cleared := fun h0 => ?_,
                          conserved := fun _ => h.conserved hr,fifo := fun _ => h.fifo hr,
                          rejecting := fun p c v hp hv => ?_}⟩
    · exact absurd h0 (Nat.succ_ne_zero _)
    · exact absurd (h.rejecting p c v hp hv) hr
  | dropReceiver =>
    obtain ⟨hr,hx⟩ := Option.ite_none_left_eq_some.mp hx
    cases hx
    exact h.dropReceiver hr
  | trySend value =>
    obtain ⟨-,hx⟩ := Option.ite_none_left_eq_some.mp hx
    cases hx
    rcases h.trySend value with ⟨-,ht⟩ | ⟨-,-,ht⟩ | ⟨t,-,ht,hok,-⟩
    · refine ⟨_,by rw [ht]; rfl,?_⟩
      exact h.append rfl rfl rfl rfl (by simp) rfl
    · refine ⟨_,by rw [ht]; rfl,?_⟩
      exact h.append rfl rfl rfl rfl (by simp) rfl
    · refine ⟨_,by rw [ht]; rfl,?_⟩
      exact hok.append rfl rfl rfl rfl (by simp) trivial
  | tryReserve =>
    obtain ⟨-,hx⟩ := Option.ite_none_left_eq_some.mp hx
    cases hx
    exact ⟨_,rfl,h.tryReserve⟩
  | send | reserve =>
    obtain ⟨-,hx⟩ := Option.ite_none_left_eq_some.mp hx
    cases hx
    exact ⟨_,rfl,h.append rfl rfl rfl rfl (by simp) rfl⟩
  | sendPermit p value =>
    obtain ⟨c,hp,hx⟩ := Option.bind_eq_some_iff.mp hx
    exact h.sendPermit hp hx
  | advance p waker =>
    obtain ⟨c,hp,hx⟩ := Option.bind_eq_some_iff.mp hx
    exact h.advance hp hx
  | drop p =>
    obtain ⟨c,hp,hx⟩ := Option.bind_eq_some_iff.mp hx
    exact h.drop hp hx
  | tryRecv =>
    obtain ⟨-,hx⟩ := Option.ite_none_left_eq_some.mp hx
    cases hx
    rcases h.pop with ⟨v,values,t,-,hpop,hok,-⟩ | ⟨-,hpop⟩
    · refine ⟨_,by rw [hpop]; rfl,?_⟩
      exact hok.with_recv (hok.recv.push_call rfl rfl) (List.Subset.refl _)
    · refine ⟨_,by rw [hpop]; rfl,?_⟩
      exact h.with_recv (h.recv.push_call rfl rfl) (List.Subset.refl _)
  | recv =>
    obtain ⟨-,hx⟩ := Option.ite_none_left_eq_some.mp hx
    cases hx
    exact ⟨_,rfl,h.with_recv (h.recv.push_call rfl rfl) (List.Subset.refl _)⟩
  | advanceRecv r waker =>
    obtain ⟨d,hr,hx⟩ := Option.bind_eq_some_iff.mp hx
    exact h.advanceRecv hr hx
  | dropRecv r =>
    obtain ⟨d,hr,hx⟩ := Option.bind_eq_some_iff.mp hx
    exact h.cancelRecv hr hx

theorem next (hn : s.next a = some t) : Ok capacity 0 t :=
  (Transition.step_ok (fun _ => h.act) hn).2

omit h in
theorem next_of_sender {u : State T W} (ha : s.act a = if s.senders = 0 then none else some (.ok u))
    (hn : s.next a = some t) : t = u := by
  obtain ⟨-,x,hx,rfl⟩ := Transition.step_eq_some hn
  obtain ⟨-,⟨⟩⟩ := Option.ite_none_left_eq_some.mp (ha ▸ hx)
  rfl

end

end Ok

section Reachable

variable {T W : Type} {capacity : Option ℕ} {s : State T W}

theorem created_eq (h : Created capacity s) : s = new T W capacity := by
  cases capacity with
  | none => exact h
  | some n =>
    rw [Created,bounded] at h
    split at h
    · exact (Except.ok.inj h).symm
    · cases h

variable [Wake W]

theorem new_ok (capacity : Option ℕ) : Ok capacity 0 (new T W capacity) where
  recv := RecvOk.new Nat.one_ne_zero
  roster _ := Registry.new
  cleared h := absurd h Nat.one_ne_zero
  full h := absurd WaitList.order_new h
  conserved _ := by
    have hzero : (new T W capacity).sendWaiters.notified = 0 := WaitList.total_new _
    show capacity.map (·+(0+0+(new T W capacity).sendWaiters.notified+0)) = capacity
    rw [hzero]
    exact Option.map_id'
  fifo _ := by
    have hnil : (new T W capacity).sendWaiters.owners = [] := by
      rw [Waiters.owners,show (new T W capacity).sendWaiters.order = [] from WaitList.order_new]
      rfl
    rw [hnil]
    exact Fifo.empty
  enlisted := by simp [new]
  rejecting := by simp [new]
  accounted := by simp [new]
  running := rfl

theorem reachable_ok (h : (machine T W capacity).Reachable s) : Ok capacity 0 s := by
  apply (machine T W capacity).invariant (Ok capacity 0) _ _ h
  · intro s hs
    rw [created_eq hs]
    exact new_ok capacity
  · exact fun s a t hs hn => hs.next hn

/-- The slots of a bounded queue with a receiver, and the waiters for them. -/
structure Conserved (capacity : ℕ) (s : State T W) : Prop where
  account : ∃ available, s.available = some available ∧
    available+s.values.length+s.permits+s.sendWaiters.notified = capacity
  full : s.sendWaiters.order ≠ [] → s.available = some 0
  owner : ∀ id r, s.sendWaiters.get? id = some r →
    ∃! p, Table.lookup SendCall.waiter s.sends p = some id
  held : ∀ p id, Table.lookup SendCall.waiter s.sends p = some id →
    ∃ r, s.sendWaiters.get? id = some r ∧ r.owner = p
  linked : ∀ id r, s.sendWaiters.get? id = some r →
    (id ∈ s.sendWaiters.order ↔ ∃ waker, r.waiter = .waiting waker) ∧
      (id ∉ s.sendWaiters.order ↔ r.waiter = .notified)
  fifo : Fifo s.live s.registered s.granted s.sendWaiters.owners

/-- No capacity is given to a call that did not wait. -/
structure Refusing (s : State T W) : Prop where
  trySend : ∀ v t, s.next (.trySend v) = some t →
    t = {s with sends := s.sends++[⟨.done (.refused .full (some v)),some v,none⟩]}
  tryReserve : ∀ t, s.next .tryReserve = some t →
    t = {s with sends := s.sends++[⟨.done (.refused .full none),none,none⟩]}
  send : ∀ p v given last waker t, s.sends[p]? = some ⟨.unsent v,given,last⟩ →
    s.next (.advance p waker) = some t → t = s.setSend p ⟨.reserving (some v) none,given,last⟩
  reserve : ∀ p payload given last waker t, s.sends[p]? = some ⟨.reserving payload none,given,last⟩ →
    s.next (.advance p waker) = some t →
    ∃ id, t.sends[p]? = some ⟨.reserving payload (some id),given,some waker⟩

/-- A queue without receivers: every waiter id is stale, and every sending call that moves
returns an error with the value it was given. -/
structure Disconnected (s : State T W) : Prop where
  vacant : ∀ id, s.sendWaiters.get? id = none
  trySend : ∀ v t, s.next (.trySend v) = some t →
    t = {s with sends := s.sends++[⟨.done (.refused .disconnected (some v)),some v,none⟩]}
  tryReserve : ∀ t, s.next .tryReserve = some t →
    t = {s with sends := s.sends++[⟨.done (.refused .disconnected none),none,none⟩]}
  send : ∀ p v given last waker, s.sends[p]? = some ⟨.unsent v,given,last⟩ →
    s.next (.advance p waker) = some (s.setSend p ⟨.done (.failed (some v)),given,last⟩)
  reserve : ∀ p payload waiter given last waker,
    s.sends[p]? = some ⟨.reserving payload waiter,given,last⟩ →
    s.next (.advance p waker) = some (s.setSend p ⟨.done (.failed payload),given,last⟩)
  permit : ∀ p v given last waker, s.sends[p]? = some ⟨.permit (some v),given,last⟩ →
    s.next (.advance p waker) = some (s.setSend p ⟨.rejecting v,given,last⟩)
  rejecting : ∀ p v given last waker, s.sends[p]? = some ⟨.rejecting v,given,last⟩ →
    s.next (.advance p waker) = some (s.setSend p ⟨.done (.failed (some v)),given,last⟩)

theorem Ok.conserved_of_receiver {n : ℕ} (h : Ok (some n) 0 s) (hr : s.receivers ≠ 0) :
    Conserved n s where
  account := by
    obtain ⟨a,ha,hsum⟩ := Option.map_eq_some_iff.mp (h.conserved hr)
    exact ⟨a,ha,by omega⟩
  full := h.full
  owner _ _ hid := (h.roster hr).existsUnique_owner hid
  held := (h.roster hr).held
  linked id r hid := by
    have hl := (h.roster hr).linked id r hid
    exact ⟨hl,(not_congr hl).trans Waiter.not_linked⟩
  fifo := h.fifo hr

theorem Ok.refusing (h : Ok capacity 0 s) (ho : s.sendWaiters.order ≠ []) : Refusing s := by
  have hr : s.receivers ≠ 0 := fun h0 => ho (order_eq_nil_of_vacant (h.cleared h0))
  have hz : s.available = some 0 := h.full ho
  have hcap : s.hasCapacity = false := by rw [State.hasCapacity,hz]; rfl
  have hacq : s.acquire = .error .full := by rw [State.acquire,if_neg hr,hcap]; rfl
  refine ⟨?_,?_,?_,?_⟩
  · intro v t hn
    apply Ok.next_of_sender _ hn
    simp only [State.act,State.trySend,hacq]
    rfl
  · intro t hn
    apply Ok.next_of_sender _ hn
    simp only [State.act,State.tryReserve,hacq]
  · intro p v given last waker t hp hn
    refine Option.some.inj (hn.symm.trans (Transition.step_of_act h.running ?_))
    simp only [State.act,hp,Option.bind_some,State.advance,State.pollSend,State.trySend,hacq]
    rfl
  · intro p payload given last waker t hp hn
    obtain ⟨id,u,hu,-,hsend⟩ := h.await_new hr hz hp waker
    have ht : t = u := by
      refine Option.some.inj (hn.symm.trans (Transition.step_of_act h.running ?_))
      simp only [State.act,hp,Option.bind_some,State.advance,State.pollReserve,if_neg hr,hcap]
      exact congrArg some hu
    exact ⟨id,by rw [ht]; exact hsend⟩

theorem Ok.disconnected (h : Ok capacity 0 s) (hr : s.receivers = 0) : Disconnected s := by
  have hacq : s.acquire = .error .disconnected := by rw [State.acquire,if_pos hr]
  refine ⟨h.cleared hr,?_,?_,?_,?_,?_,?_⟩
  · intro v t hn
    apply Ok.next_of_sender _ hn
    simp only [State.act,State.trySend,hacq]
    rfl
  · intro t hn
    apply Ok.next_of_sender _ hn
    simp only [State.act,State.tryReserve,hacq]
  · intro p v given last waker hp
    apply Transition.step_of_act h.running
    simp only [State.act,hp,Option.bind_some,State.advance,State.pollSend,State.trySend,hacq]
    rfl
  · intro p payload waiter given last waker hp
    apply Transition.step_of_act h.running
    simp only [State.act,hp,Option.bind_some,State.advance,State.pollReserve,if_pos hr]
  · intro p v given last waker hp
    apply Transition.step_of_act h.running
    simp only [State.act,hp,Option.bind_some,State.advance,State.permitSend,if_pos hr]
  · intro p v given last waker hp
    apply Transition.step_of_act h.running
    simp only [State.act,hp,Option.bind_some,State.advance,State.dropPermit,State.release]
    rw [if_pos (show (s.setSend p ⟨.done (.failed (some v)),given,last⟩).receivers = 0 from hr)]

/-- Bounded queues, in every reachable state: nothing panics; with a receiver every slot is
accounted for, waiters and reservations match, and grants follow the order of registration;
while a reservation waits no other call gets capacity; without receivers no waiter is
left to be found by a stale id, and sending calls fail; and a failed call hands back what it
was given. -/
theorem capacity_conserved {n : ℕ} (h : (machine T W (some n)).Reachable s) :
    s.panicked = none ∧ (s.receivers ≠ 0 → Conserved n s) ∧
    (s.sendWaiters.order ≠ [] → Refusing s) ∧ (s.receivers = 0 → Disconnected s) ∧
    ∀ (p : ℕ) c v, s.sends[p]? = some c →
      (c.stage = .done (.failed v) ∨ ∃ e, c.stage = .done (.refused e v)) → v = c.given := by
  have hok := reachable_ok h
  refine ⟨hok.running,hok.conserved_of_receiver,hok.refusing,hok.disconnected,?_⟩
  intro p c v hp hv
  have hacc := hok.accounted p c hp
  rcases hv with hv | ⟨e,hv⟩
  · rw [SendCall.Accounted,hv] at hacc
    exact hacc.symm
  · rw [SendCall.Accounted,hv] at hacc
    exact hacc.symm

end Reachable

/-- In a queue of one slot, two calls wait behind a value; a receive then serves the first. -/
def waitRun : List (Action ℕ ℕ) :=
  [.trySend 5,.reserve,.advance 1 7,.send 9,.advance 2 8,.advance 2 8,.tryRecv]

theorem capacity_conserved_waitRun :
    ∃ s, (machine ℕ ℕ (some 1)).exec (new ℕ ℕ (some 1)) waitRun = some s ∧
      s.granted = [1] ∧ s.sendWaiters.owners = [2] ∧ Conserved 1 s ∧ Refusing s := by
  refine ⟨_,rfl,rfl,rfl,?_⟩
  have h := capacity_conserved (T := ℕ) (W := ℕ) (n := 1)
    ⟨new ℕ ℕ (some 1),waitRun,rfl,fun _ _ => trivial,rfl⟩
  exact ⟨h.2.1 (by decide),h.2.2.1 (by decide)⟩

end Mpmc
end Asyncband
