import Asyncband.Fifo
import Asyncband.MpscBoundedSends

/-! Where the slots of a bounded MPSC channel are.
While the receiver is alive, a slot is free, under a queued value, in a permit or with a
waiter that was granted it; inside a step it may be in the hands of the running code, which
`Ok` counts as `spare`. -/
namespace Asyncband
namespace Mpsc
namespace Bounded

variable {T W : Type} {s : State T W}

namespace SendCall

def kept (c : SendCall T W) : Bool :=
  match c.stage with
  | .cancelled => false
  | _ => true

def fresh (c : SendCall T W) : Bool :=
  match c.stage with
  | .unsent _ => true
  | .reserving _ waiter => waiter.isNone
  | _ => false

end SendCall

def Fits [Wake W] (woken : List W) (last : ℕ → Option W) (p : ℕ) (r : Waiter W) : Prop :=
  if r.grant then ∃ waker ∈ woken, Reaches waker (last p)
  else ∃ waker, r.waker = some waker ∧ Reaches waker (last p)

structure Slots [Wake W] (capacity spare : ℕ) (s : State T W) : Prop where
  registry : Registry Waiter.owner (fun r => r.grant = false)
    (Fits s.woken (Table.lookup SendCall.lastWaker s.sends)) s.sendWaiters
    (Table.lookup SendCall.waiter s.sends)
  balance : s.available+s.queue.length+s.permits+s.grants+spare = capacity
  full : s.available ≠ 0 → s.sendWaiters.order = []
  line : Line SendCall.kept SendCall.fresh s.sends s.registered s.granted s.waiting

structure Ok [Wake W] (capacity spare : ℕ) (s : State T W) : Prop where
  inbox : s.toInbox.Ok s.queue
  tied : ∀ (p : ℕ) c, s.sends[p]? = some c → c.isLive = true → s.holds c.sender = true
  slots : s.receiver = true → Slots capacity spare s
  sound : s.panicked = none

section Wakers

variable [Wake W] {woken woken' : List W} {last : ℕ → Option W} {p q : ℕ} {r : Waiter W}

theorem Fits.mono {last' : ℕ → Option W} (h : Fits woken last p r) (hw : woken ⊆ woken')
    (hlast : last' p = last p) : Fits woken' last' p r := by
  rw [Fits] at h ⊢
  rw [hlast]
  split at h
  · next hg =>
    rw [if_pos hg]
    exact h.imp fun _ hm => ⟨hw hm.1,hm.2⟩
  · next hg =>
    rw [if_neg hg]
    exact h

theorem Fits.other {x : Option W} (hq : q ≠ p) (h : Fits woken last q r) :
    Fits woken (Function.update last p x) q r :=
  h.mono (List.Subset.refl _) (Function.update_of_ne hq ..)

theorem Fits.linked (h : Fits woken last p r) (hr : r.grant = false) :
    ∃ waker, r.waker = some waker ∧ Reaches waker (last p) := by
  rwa [Fits,if_neg (by simp [hr])] at h

end Wakers

namespace Slots

variable [Wake W] {capacity spare : ℕ} {s : State T W} {p : ℕ} {c : SendCall T W}
variable {c' : SendCall T W} {available spare' : ℕ}

section

variable (h : Slots capacity spare s)
include h

theorem change (hp : s.sends[p]? = some c) {w : WaitList (Waiter W)} {registered : List ℕ}
    (hreg : Registry Waiter.owner (fun r => r.grant = false)
      (Fits s.woken (Function.update (Table.lookup SendCall.lastWaker s.sends) p c'.lastWaker)) w
      (Function.update (Table.lookup SendCall.waiter s.sends) p c'.waiter))
    (hbalance : available+c'.permits+(w.total fun r => r.grant.toNat)+spare' =
      s.available+c.permits+s.grants+spare) (hfull : available ≠ 0 → w.order = [])
    (hline : Line SendCall.kept SendCall.fresh (s.sends.set p c') registered s.granted
      (w.queue.map Waiter.owner)) :
    Slots capacity spare' {s.setSend p c' with
      sendWaiters := w,available := available,registered := registered} := by
  refine ⟨?_,?_,hfull,hline⟩
  · show Registry _ _ (Fits s.woken (Table.lookup SendCall.lastWaker (s.sends.set p c'))) w
      (Table.lookup SendCall.waiter (s.sends.set p c'))
    rw [Table.lookup_set _ hp,Table.lookup_set _ hp]
    exact hreg
  · have hold := h.balance
    have hset := Table.total_set SendCall.permits hp c'
    show available+s.queue.length+Table.total SendCall.permits (s.sends.set p c')+
      (w.total fun r => r.grant.toNat)+spare' = capacity
    rw [State.permits] at hold
    omega

theorem restage (hp : s.sends[p]? = some c) (hwaiter : c'.waiter = c.waiter)
    (hlast : c'.lastWaker = c.lastWaker)
    (hbalance : available+c'.permits+spare' = s.available+c.permits+spare)
    (hfull : available ≠ 0 → s.available ≠ 0) (hkept : c.fresh = true ∨ c'.kept = c.kept)
    (hfresh : c.fresh = false → c'.fresh = false) :
    Slots capacity spare' {s.setSend p c' with available := available} := by
  refine h.change hp ?_ ?_ (fun ha => h.full (hfull ha)) (h.line.set hp hkept hfresh)
  · rw [Table.update_lookup _ hp _ hwaiter,Table.update_lookup _ hp _ hlast]
    exact h.registry
  · show available+c'.permits+s.grants+spare' = _
    omega

theorem with_inbox {i : Inbox T W} (hw : s.woken ⊆ i.woken) :
    Slots capacity spare {s with toInbox := i} :=
  ⟨⟨h.registry.held,h.registry.owned,h.registry.linked,fun id r hid =>
    (h.registry.fits id r hid).mono hw rfl⟩,h.balance,h.full,h.line⟩

theorem push (hwaiter : c.waiter = none) (hlast : c.lastWaker = none)
    (hspare : c.permits+spare' = spare) : Slots capacity spare' {s with sends := s.sends++[c]} := by
  refine ⟨?_,?_,h.full,h.line.push c⟩
  · show Registry _ _ (Fits s.woken (Table.lookup SendCall.lastWaker (s.sends++[c]))) s.sendWaiters
      (Table.lookup SendCall.waiter (s.sends++[c]))
    rw [Table.lookup_push _ hwaiter,Table.lookup_push _ hlast]
    exact h.registry
  · have hold := h.balance
    have htotal : ({s with sends := s.sends++[c]} : State T W).permits = s.permits+c.permits := by
      rw [State.permits,Table.total_append,State.permits]
      simp
    rw [htotal]
    show s.available+s.queue.length+(s.permits+c.permits)+s.grants+spare' = capacity
    omega

end

theorem release (h : Slots capacity (spare+1) s) (hr : s.receiver = true) :
    ∃ t, s.release = .ok t ∧ Slots capacity spare t ∧ t.queue = s.queue ∧ t.sends = s.sends ∧
      t.panicked = s.panicked ∧ ∃ wakers, t.toInbox = {s.toInbox with woken := s.woken++wakers} := by
  have hbalance := h.balance
  rcases h.registry.selectFirst (fun r => r) Waiter.take (fun r => some (r.owner,r.waker))
      (fun r => {r with grant := true,waker := none}) (fun r _ => ⟨_,rfl,rfl⟩) (fun _ => rfl)
      (fun _ => by simp) with ⟨ho,hsel⟩ | ⟨id,r,a,w,hsel,hid,hl,ha,horder,hqueue,hget,hreg⟩
  · refine ⟨{s with available := s.available+1},?_,⟨h.registry,?_,fun _ => ho,h.line⟩,rfl,rfl,rfl,[],?_⟩
    · simp only [State.release,hr,Bool.not_true,Bool.false_eq_true,if_false,hsel,bind,Except.bind]
    · show s.available+1+s.queue.length+s.permits+s.grants+spare = capacity
      omega
    · simp
  · cases ha
    obtain ⟨waker,hwaker,hreach⟩ := (h.registry.fits id r hid).linked hl
    have hgrants := WaitList.total_update hget fun r => r.grant.toNat
    rw [hid] at hgrants
    simp only [Option.elim_some,hl,Bool.toNat_false,Bool.toNat_true,Nat.add_zero] at hgrants
    have hzero : s.available = 0 := by
      by_contra hne
      rw [h.full hne] at horder
      cases horder
    refine ⟨{s with sendWaiters := w,granted := s.granted++[r.owner],
                    woken := s.woken++r.waker.toList},?_,⟨?_,?_,?_,?_⟩,rfl,rfl,rfl,r.waker.toList,rfl⟩
    · simp only [State.release,hr,Bool.not_true,Bool.false_eq_true,if_false,hsel,bind,Except.bind]
    · refine hreg _ ?_ fun q x _ hx => hx.mono (List.subset_append_left ..) rfl
      rw [Fits,if_pos rfl]
      exact ⟨waker,by rw [hwaker]; simp,hreach⟩
    · show s.available+s.queue.length+s.permits+(w.total fun r => r.grant.toNat)+spare = capacity
      rw [State.grants] at hbalance
      omega
    · intro ha
      exact absurd hzero ha
    · have hline := h.line
      rw [State.waiting,hqueue,List.map_cons] at hline
      exact hline.serve

end Slots

namespace Ok

variable [Wake W] {capacity spare : ℕ} {s : State T W} {p : ℕ} {c : SendCall T W}
variable {c' : SendCall T W} {spare' q : ℕ} {v : T} {last : Option W} {payload : Option T}
    {index : WaiterId} {r : Waiter W} {waiter : Option WaiterId} {x : Except String (State T W)}
    {a : Action T W} {t : State T W}

theorem new (capacity : ℕ) : Ok capacity 0 (new T W capacity) where
  inbox := Inbox.Ok.new
  tied p c hc := by cases hc
  slots _ := by
    refine ⟨Registry.new,?_,fun _ => WaitList.order_new,?_⟩
    · simp [Bounded.new,State.permits,State.grants]
    · have hwaiting : (Bounded.new T W capacity).waiting = [] :=
        congrArg (List.map Waiter.owner) (WaitList.queue_nil WaitList.order_new)
      rw [hwaiting]
      exact Line.empty
  sound := rfl

section

variable {w : WaitList (Waiter W)} {available : ℕ} {registered : List ℕ}
    (h : Ok capacity spare s) (hp : s.sends[p]? = some c)
    (hlive : c'.isLive = true → c.isLive = true) (hsender : c'.sender = c.sender)
include h hp hlive hsender

theorem tied_set :
    ∀ (q : ℕ) d, (s.sends.set p c')[q]? = some d → d.isLive = true → s.holds d.sender = true := by
  intro q d hd hl
  rcases Table.getElem?_set_cases hd with ⟨-,rfl⟩ | ⟨-,hd⟩
  · rw [hsender]
    exact h.tied p c hp (hlive hl)
  · exact h.tied q d hd hl

theorem setSend
    (hslots : s.receiver = true → Slots capacity spare' {s.setSend p c' with
      sendWaiters := w,available := available,registered := registered}) :
    Ok capacity spare' {s.setSend p c' with
      sendWaiters := w,available := available,registered := registered} :=
  ⟨h.inbox,h.tied_set hp hlive hsender,hslots,h.sound⟩

theorem restage (hwaiter : c'.waiter = c.waiter) (hlast : c'.lastWaker = c.lastWaker)
    (hspare : c'.permits+spare' = c.permits+spare) (hkept : c.fresh = true ∨ c'.kept = c.kept)
    (hfresh : c.fresh = false → c'.fresh = false) : Ok capacity spare' (s.setSend p c') :=
  h.setSend hp hlive hsender fun hr =>
    (h.slots hr).restage hp hwaiter hlast (by omega) (fun ha => ha) hkept hfresh

end

theorem of_dropped (h : Ok capacity spare s) (hr : s.receiver = false) (hp : s.sends[p]? = some c)
    (hlive : c'.isLive = true → c.isLive = true) (hsender : c'.sender = c.sender) :
    Ok capacity spare' (s.setSend p c') := by
  refine h.setSend hp hlive hsender fun hr' => ?_
  cases hr.symm.trans hr'

theorem push (h : Ok capacity spare s) (hh : s.holds c.sender = true) (hwaiter : c.waiter = none)
    (hlast : c.lastWaker = none) (hspare : c.permits+spare' = spare) :
    Ok capacity spare' {s with sends := s.sends++[c]} := by
  refine ⟨h.inbox,fun q d hd hl => ?_,fun hr => (h.slots hr).push hwaiter hlast hspare,h.sound⟩
  rcases Table.getElem?_push hd with hd | ⟨-,rfl⟩
  · exact h.tied q d hd hl
  · exact hh

theorem release (h : Ok capacity 1 s) :
    ∃ t, s.release = .ok t ∧ Ok capacity 0 t ∧ t.queue = s.queue ∧
      ∃ wakers, t.toInbox = {s.toInbox with woken := s.woken++wakers} := by
  cases hr : s.receiver with
  | true =>
    obtain ⟨t,ht,hslots,hqueue,hsends,hpanicked,wakers,hinbox⟩ := (h.slots hr).release hr
    refine ⟨t,ht,⟨?_,fun q d hd hl => ?_,fun _ => hslots,hpanicked.trans h.sound⟩,hqueue,wakers,hinbox⟩
    · rw [hinbox,hqueue]
      exact h.inbox.grow wakers
    · rw [hsends] at hd
      rw [hinbox]
      exact h.tied q d hd hl
  | false =>
    refine ⟨s,by rw [State.release,hr]; rfl,⟨h.inbox,h.tied,fun hr' => ?_,h.sound⟩,rfl,[],by simp⟩
    cases hr.symm.trans hr'

theorem publish (h : Ok capacity 1 s) (hs : s.senders ≠ 0) (hr : s.receiver = true) (v : T) :
    Ok capacity 0 (s.push v) := by
  refine ⟨h.inbox.publish hs hr v,h.tied,fun _ => ?_,h.sound⟩
  have hslots := (h.slots hr).with_inbox (i := s.toInbox.publish v) (List.subset_append_left ..)
  refine ⟨hslots.registry,?_,hslots.full,hslots.line⟩
  have hold := (h.slots hr).balance
  show s.available+(s.queue++[v]).length+s.permits+s.grants+0 = capacity
  rw [List.length_append,List.length_singleton]
  omega

theorem live_senders (h : Ok capacity spare s) (hp : s.sends[p]? = some c) (hl : c.isLive = true) :
    s.senders ≠ 0 :=
  h.inbox.senders_ne (h.tied p c hp hl)

section

variable (h : Ok capacity 0 s)
include h

theorem claim (ha : s.available ≠ 0) : Ok capacity 1 {s with available := s.available-1} := by
  refine ⟨h.inbox,h.tied,fun hr => ?_,h.sound⟩
  have hslots := h.slots hr
  have hold := hslots.balance
  refine ⟨hslots.registry,?_,fun _ => hslots.full ha,hslots.line⟩
  show s.available-1+s.queue.length+s.permits+s.grants+1 = capacity
  omega

theorem acquire :
    (∃ error, s.acquire = .error error) ∨
    s.acquire = .ok {s with available := s.available-1} ∧ s.receiver = true ∧
      Ok capacity 1 {s with available := s.available-1} := by
  cases hr : s.receiver with
  | false => exact Or.inl ⟨_,by rw [State.acquire,hr]; rfl⟩
  | true =>
    by_cases ha : s.available = 0
    · refine Or.inl ⟨.full,?_⟩
      rw [State.acquire,hr,if_pos ha]
      rfl
    · refine Or.inr ⟨?_,rfl,h.claim ha⟩
      rw [State.acquire,hr,if_neg ha]
      rfl

theorem trySend (hs : s.senders ≠ 0) (v : T) :
    ∃ t, Ok capacity 0 t ∧ t.sends = s.sends ∧ t.handles = s.handles ∧
      s.toInbox.Moves none t.toInbox ∧
      (s.trySend v = (.sent,t) ∨ ∃ error, s.trySend v = (.refused error (some v),t)) := by
  rcases h.acquire with ⟨error,he⟩ | ⟨ht,hr,hok⟩
  · refine ⟨s,h,rfl,rfl,.of_eq rfl List.prefix_rfl rfl rfl rfl,Or.inr ⟨error,?_⟩⟩
    rw [State.trySend,he]
  · exact ⟨_,hok.publish hs hr v,rfl,rfl,.publish _ v,Or.inl (by rw [State.trySend,ht])⟩

theorem tryReserve (hq : s.holds q = true) :
    Ok capacity 0 (s.tryReserve q) ∧ s.toInbox.Moves none (s.tryReserve q).toInbox := by
  rcases h.acquire with ⟨error,he⟩ | ⟨ht,hr,hok⟩
  · rw [State.tryReserve,he]
    exact ⟨h.push hq rfl rfl rfl,.of_eq rfl List.prefix_rfl rfl rfl rfl⟩
  · rw [State.tryReserve,ht]
    exact ⟨hok.push hq rfl rfl rfl,.of_eq rfl List.prefix_rfl rfl rfl rfl⟩

theorem pollSend (hp : s.sends[p]? = some ⟨q,.unsent v,last⟩) :
    Ok capacity 0 (s.pollSend p ⟨q,.unsent v,last⟩ v) ∧
      s.toInbox.Moves none (s.pollSend p ⟨q,.unsent v,last⟩ v).toInbox := by
  obtain ⟨t,hok,hsends,-,hmoves,hcases⟩ := h.trySend (h.live_senders hp rfl) v
  rw [← hsends] at hp
  rcases hcases with ht | ⟨error,ht⟩
  · rw [State.pollSend,ht]
    exact ⟨hok.restage hp (by simp [SendCall.isLive]) rfl rfl rfl rfl (Or.inl rfl) (by simp [SendCall.fresh]),hmoves⟩
  · rw [State.pollSend,ht]
    cases error with
    | full => exact ⟨hok.restage hp (fun _ => rfl) rfl rfl rfl rfl (Or.inl rfl) (by simp [SendCall.fresh]),hmoves⟩
    | disconnected =>
      exact ⟨hok.restage hp (fun _ => rfl) rfl rfl rfl rfl (Or.inl rfl) (by simp [SendCall.fresh]),hmoves⟩

end

section

variable (h : Ok capacity 0 s) (hr : s.receiver = true)
    (hp : s.sends[p]? = some ⟨q,.reserving payload (some index),last⟩)
    (hi : s.sendWaiters.get? index = some r)
include h hr hp hi

theorem pollReserve_granted (hg : r.grant = true) (waker : W) :
    ∃ w, s.pollReserve p ⟨q,.reserving payload (some index),last⟩ payload (some index) waker =
        .ok {s.setSend p ⟨q,.permit payload,last⟩ with sendWaiters := w} ∧
      Ok capacity 0 {s.setSend p ⟨q,.permit payload,last⟩ with sendWaiters := w} := by
  have hslots := h.slots hr
  have howner : r.owner = p := hslots.registry.owner_eq hi (Table.lookup_eq hp)
  obtain ⟨w,hrem,ho,hqueue,hget,hreg⟩ := hslots.registry.removeUnlinked _ hi (by simp [hg])
    fun _ _ _ hx => hx
  have hgrants := WaitList.total_update hget fun r => r.grant.toNat
  rw [hi] at hgrants
  simp only [Option.elim_some,Option.elim_none,hg,Bool.toNat_true,Nat.add_zero] at hgrants
  refine ⟨w,?_,h.setSend hp (fun _ => rfl) rfl fun _ => hslots.change hp ?_ ?_ ?_ ?_⟩
  · simp only [State.pollReserve,hr,Bool.not_true,Bool.false_eq_true,if_false,
      WaitList.waiterMut_ok hi,hg,if_true,hrem,bind,Except.bind]
  · rw [Table.update_lookup SendCall.lastWaker hp last rfl,← howner]
    exact hreg
  · simp only [SendCall.permits,State.grants,State.setSend]
    omega
  · intro ha
    rw [ho]
    exact hslots.full ha
  · rw [hqueue]
    exact hslots.line.set hp (Or.inr rfl) fun _ => rfl

theorem pollReserve_linked (hg : r.grant = false) (waker : W) :
    ∃ w, s.pollReserve p ⟨q,.reserving payload (some index),last⟩ payload (some index) waker =
        .ok {s.setSend p ⟨q,.reserving payload (some index),some waker⟩ with sendWaiters := w} ∧
      Ok capacity 0 {s.setSend p ⟨q,.reserving payload (some index),some waker⟩ with sendWaiters := w} := by
  have hslots := h.slots hr
  have howner : r.owner = p := hslots.registry.owner_eq hi (Table.lookup_eq hp)
  obtain ⟨kept,hkept,hreach⟩ := registerWaker_reaches r.waker waker
  obtain ⟨w,hset,ho,hqueue,hget,hreg⟩ := hslots.registry.setWaiter (Fits s.woken
      (Function.update (Table.lookup SendCall.lastWaker s.sends) p (some waker))) hi
    ⟨false,registerWaker r.waker waker,r.owner⟩ rfl (by rw [hg])
    (by
      rw [Fits,if_neg (by simp),howner,Function.update_self]
      exact ⟨kept,hkept,hreach⟩)
    (by rw [howner]; exact fun _ _ hq hx => hx.other hq)
  have hgrants := WaitList.total_update hget fun r => r.grant.toNat
  rw [hi] at hgrants
  simp only [Option.elim_some,hg,Bool.toNat_false,Nat.add_zero] at hgrants
  refine ⟨w,?_,h.setSend hp (fun _ => rfl) rfl fun _ => hslots.change hp ?_ ?_ ?_ ?_⟩
  · simp only [State.pollReserve,hr,Bool.not_true,Bool.false_eq_true,if_false,
      WaitList.waiterMut_ok hi,hg,hset,bind,Except.bind]
  · show Registry _ _ _ w (Function.update (Table.lookup SendCall.waiter s.sends) p (some index))
    rw [Table.update_lookup SendCall.waiter hp (some index) rfl]
    exact hreg
  · simp only [SendCall.permits,State.grants,State.setSend]
    omega
  · intro ha
    rw [ho]
    exact hslots.full ha
  · rw [hqueue]
    exact hslots.line.set hp (Or.inr rfl) fun _ => rfl

end

section

variable (h : Ok capacity 0 s)
include h

theorem pollReserve_new (hr : s.receiver = true)
    (hp : s.sends[p]? = some ⟨q,.reserving payload none,last⟩) (waker : W) :
    ∃ t, s.pollReserve p ⟨q,.reserving payload none,last⟩ payload none waker = .ok t ∧
      Ok capacity 0 t ∧ t.toInbox = s.toInbox := by
  have hslots := h.slots hr
  by_cases ha : s.available = 0
  · obtain ⟨index,w,hpush,hqueue,hget,hn,hreg⟩ := hslots.registry.pushBack (Fits s.woken
        (Function.update (Table.lookup SendCall.lastWaker s.sends) p (some waker)))
      (r := ⟨false,some waker,p⟩) (Table.lookup_eq hp) rfl rfl
      (by
        rw [Fits,if_neg (by simp),Function.update_self]
        exact ⟨waker,rfl,waker,rfl,Or.inl rfl⟩) fun _ _ hq hx => hx.other hq
    have hgrants := WaitList.total_update hget fun r => r.grant.toNat
    rw [hn] at hgrants
    simp only [Option.elim_some,Option.elim_none,Bool.toNat_false,Nat.add_zero] at hgrants
    refine ⟨{s.setSend p ⟨q,.reserving payload (some index),some waker⟩ with
      sendWaiters := w,registered := s.registered++[p]},?_,
      h.setSend hp (fun _ => rfl) rfl fun _ => hslots.change hp hreg ?_ ?_ ?_,rfl⟩
    · simp only [State.pollReserve,hr,Bool.not_true,Bool.false_eq_true,if_false,ha,ne_eq,
        not_true_eq_false,hpush]
    · simp only [SendCall.permits,State.grants,State.setSend]
      omega
    · intro hne
      exact absurd ha hne
    · rw [hqueue,List.map_append,List.map_singleton]
      exact hslots.line.enter hp rfl rfl rfl
  · refine ⟨{s.setSend p ⟨q,.permit payload,last⟩ with available := s.available-1},?_,
      h.setSend hp (fun _ => rfl) rfl fun _ => hslots.restage hp rfl rfl ?_ ?_ (Or.inl rfl) ?_,rfl⟩
    · simp only [State.pollReserve,hr,Bool.not_true,Bool.false_eq_true,if_false,ne_eq,ha,
        not_false_eq_true,if_true]
    · simp only [SendCall.permits]
      omega
    · intro _
      exact ha
    · exact fun _ => rfl

theorem pollReserve (hp : s.sends[p]? = some ⟨q,.reserving payload waiter,last⟩) (waker : W) :
    ∃ t, s.pollReserve p ⟨q,.reserving payload waiter,last⟩ payload waiter waker = .ok t ∧
      Ok capacity 0 t ∧ s.toInbox.Moves none t.toInbox := by
  cases hr : s.receiver with
  | false =>
    refine ⟨s.setSend p ⟨q,.done (.failed payload),last⟩,?_,h.of_dropped hr hp (fun _ => rfl) rfl,
      .of_eq rfl List.prefix_rfl rfl rfl rfl⟩
    simp only [State.pollReserve,hr,Bool.not_false,if_true]
  | true =>
    cases waiter with
    | none =>
      obtain ⟨t,ht,hok,hinbox⟩ := h.pollReserve_new hr hp waker
      exact ⟨t,ht,hok,hinbox ▸ .of_eq rfl List.prefix_rfl rfl rfl rfl⟩
    | some index =>
      obtain ⟨r,hi,-⟩ := (h.slots hr).registry.held p index (Table.lookup_eq hp)
      cases hg : r.grant with
      | true =>
        obtain ⟨w,ht,hok⟩ := h.pollReserve_granted hr hp hi hg waker
        exact ⟨_,ht,hok,.of_eq rfl List.prefix_rfl rfl rfl rfl⟩
      | false =>
        obtain ⟨w,ht,hok⟩ := h.pollReserve_linked hr hp hi hg waker
        exact ⟨_,ht,hok,.of_eq rfl List.prefix_rfl rfl rfl rfl⟩

theorem dropReserve (hp : s.sends[p]? = some ⟨q,.reserving payload waiter,last⟩) :
    ∃ t, s.dropReserve p ⟨q,.reserving payload waiter,last⟩ waiter = .ok t ∧ Ok capacity 0 t ∧
      s.toInbox.Moves none t.toInbox := by
  cases waiter with
  | none =>
    exact ⟨_,rfl,h.restage hp (fun _ => rfl) rfl rfl rfl rfl (Or.inl rfl) (by simp [SendCall.fresh]),
      .of_eq rfl List.prefix_rfl rfl rfl rfl⟩
  | some index =>
    cases hr : s.receiver with
    | false =>
      refine ⟨s.setSend p ⟨q,.cancelled,last⟩,?_,h.of_dropped hr hp (fun _ => rfl) rfl,
        .of_eq rfl List.prefix_rfl rfl rfl rfl⟩
      simp only [State.dropReserve,State.setSend,hr,Bool.not_false,if_true]
    | true =>
      have hslots := h.slots hr
      obtain ⟨r,w,hi,-,hrem,ho,hqueue,hget,hreg⟩ := hslots.registry.removeWaiter (Fits s.woken
        (Function.update (Table.lookup SendCall.lastWaker s.sends) p last)) (Table.lookup_eq hp)
        fun _ _ hq hx => hx.other hq
      have hgrants := WaitList.total_update hget fun r => r.grant.toNat
      rw [hi] at hgrants
      simp only [Option.elim_some,Option.elim_none,Nat.add_zero] at hgrants
      -- the slot of a granted waiter is in the destructor's hands
      have hok : Ok capacity r.grant.toNat {s.setSend p ⟨q,.cancelled,last⟩ with sendWaiters := w} := by
        refine h.setSend hp (by simp [SendCall.isLive]) rfl fun _ => hslots.change hp hreg ?_ ?_ ?_
        · simp only [SendCall.permits,State.grants,State.setSend]
          omega
        · intro ha
          rw [ho,hslots.full ha]
          rfl
        · rw [hqueue]
          exact hslots.line.cancel hp rfl rfl
      have hstep : s.dropReserve p ⟨q,.reserving payload (some index),last⟩ (some index) =
          if r.grant then State.release {s.setSend p ⟨q,.cancelled,last⟩ with sendWaiters := w}
          else .ok {s.setSend p ⟨q,.cancelled,last⟩ with sendWaiters := w} := by
        simp only [State.dropReserve,State.setSend,hr,Bool.not_true,Bool.false_eq_true,if_false,hrem,
          bind,Except.bind]
      rw [hstep]
      cases hg : r.grant with
      | true =>
        rw [hg] at hok
        obtain ⟨t,ht,hokt,-,wakers,hinbox⟩ := hok.release
        exact ⟨t,ht,hokt,hinbox ▸ .of_eq rfl List.prefix_rfl rfl rfl rfl⟩
      | false =>
        rw [hg] at hok
        exact ⟨_,rfl,hok,.of_eq rfl List.prefix_rfl rfl rfl rfl⟩

theorem permitSend (hp : s.sends[p]? = some ⟨q,.permit (some v),last⟩) :
    Ok capacity 0 (s.permitSend p ⟨q,.permit (some v),last⟩ v) ∧
      s.toInbox.Moves none (s.permitSend p ⟨q,.permit (some v),last⟩ v).toInbox := by
  cases hr : s.receiver with
  | false =>
    rw [State.permitSend,hr]
    exact ⟨h.of_dropped hr hp (fun _ => rfl) rfl,.of_eq rfl List.prefix_rfl rfl rfl rfl⟩
  | true =>
    rw [State.permitSend,hr]
    have hok : Ok capacity 1 (s.setSend p ⟨q,.done .sent,last⟩) :=
      h.restage hp (fun _ => rfl) rfl rfl rfl rfl (Or.inr rfl) fun _ => rfl
    exact ⟨hok.publish (h.live_senders hp rfl) hr v,.publish _ v⟩

theorem dropPermit (hp : s.sends[p]? = some c) (hpermit : c.permits = 1) (hwaiter : c.waiter = none)
    (hkept : c.kept = true) (outcome : Mpmc.Outcome T) :
    ∃ t, s.dropPermit p c outcome = .ok t ∧ Ok capacity 0 t ∧ s.toInbox.Moves none t.toInbox := by
  have hok : Ok capacity 1 (s.setSend p {c with stage := .done outcome}) :=
    h.restage hp (by simp [SendCall.isLive]) rfl hwaiter.symm rfl hpermit.symm (Or.inr hkept.symm)
      fun _ => rfl
  obtain ⟨t,ht,hokt,-,wakers,hinbox⟩ := hok.release
  exact ⟨t,ht,hokt,hinbox ▸ .of_eq rfl List.prefix_rfl rfl rfl rfl⟩

theorem pop_value (hr : s.receiver = true) {queue : List T} (hq : s.queue = v::queue) :
    ∃ t wakers, s.pop = .ok (.value v,t) ∧ t.toInbox = {s.toInbox with woken := s.woken++wakers} ∧
      Ok capacity 0 {t with toInbox := t.toInbox.answer (.value v)} := by
  have hslots := h.slots hr
  have hspare : Slots capacity 1 {s with queue := queue} := by
    refine ⟨hslots.registry,?_,hslots.full,hslots.line⟩
    have hold := hslots.balance
    rw [hq,List.length_cons] at hold
    show s.available+queue.length+s.permits+s.grants+1 = capacity
    omega
  obtain ⟨t,ht,hslotst,hqueue,hsends,hpanicked,wakers,hinbox⟩ := hspare.release hr
  refine ⟨t,wakers,?_,hinbox,?_,?_,fun _ => ?_,hpanicked.trans h.sound⟩
  · simp only [State.pop,hq,ht,bind,Except.bind]
  · show (t.toInbox.answer (.value v)).Ok t.queue
    have htake := h.inbox
    rw [hq] at htake
    rw [hinbox,hqueue]
    exact (htake.grow wakers).take
  · intro p c hc hl
    show t.toInbox.holds c.sender = true
    rw [hinbox]
    exact h.tied p c (hsends ▸ hc) hl
  · exact hslotst.with_inbox (List.Subset.refl _)

theorem with_inbox {i : Inbox T W} (hok : i.Ok s.queue) (hhandles : i.handles = s.handles)
    (hreceiver : i.receiver = s.receiver) (hwoken : i.woken = s.woken) :
    Ok capacity 0 {s with toInbox := i} := by
  refine ⟨hok,fun p c hc hl => ?_,fun hr => ?_,h.sound⟩
  · show i.holds c.sender = true
    rw [Inbox.holds,hhandles]
    exact h.tied p c hc hl
  · exact (h.slots (hreceiver ▸ hr)).with_inbox (hwoken ▸ List.Subset.refl _)

theorem pop_empty (hq : s.queue = []) :
    (s.senders = 0 ∧ s.pop = .ok (.disconnected,s) ∧
      Ok capacity 0 {s with toInbox := s.toInbox.answer .disconnected}) ∨
    (s.senders ≠ 0 ∧ s.pop = .ok (.empty,s) ∧
      Ok capacity 0 {s with toInbox := s.toInbox.answer .empty}) := by
  by_cases hs : s.senders = 0
  · refine Or.inl ⟨hs,by rw [State.pop,hq,if_pos hs],?_⟩
    exact h.with_inbox (h.inbox.refuse rfl fun _ => ⟨hs,hq⟩) rfl rfl rfl
  · refine Or.inr ⟨hs,by rw [State.pop,hq,if_neg hs],?_⟩
    exact h.with_inbox (h.inbox.refuse rfl (by simp)) rfl rfl rfl

theorem tryRecv (hr : s.receiver = true) :
    ∃ t, s.tryRecv = .ok t ∧ Ok capacity 0 t ∧ s.toInbox.Moves none t.toInbox := by
  cases hq : s.queue with
  | nil =>
    rcases h.pop_empty hq with ⟨-,hpop,hok⟩ | ⟨-,hpop,hok⟩
    · refine ⟨_,?_,hok,.of_eq rfl (List.prefix_append ..) rfl rfl rfl⟩
      simp only [State.tryRecv,hpop,bind,Except.bind]
    · refine ⟨_,?_,hok,.of_eq rfl (List.prefix_append ..) rfl rfl rfl⟩
      simp only [State.tryRecv,hpop,bind,Except.bind]
  | cons v queue =>
    obtain ⟨t,wakers,hpop,hinbox,hok⟩ := h.pop_value hr hq
    refine ⟨_,?_,hok,?_⟩
    · simp only [State.tryRecv,hpop,bind,Except.bind]
    · rw [hinbox]
      exact .of_eq rfl (List.prefix_append ..) rfl rfl rfl

theorem pollRecv (hr : s.receiver = true) (waker : W) :
    ∃ t, s.pollRecv waker = .ok t ∧ Ok capacity 0 t ∧ s.toInbox.Moves (some waker) t.toInbox ∧
      (t.recv.isSome → ∃ kept, t.recvWaker = some kept ∧ Reaches kept (some waker)) := by
  cases hq : s.queue with
  | nil =>
    rcases h.pop_empty hq with ⟨hs,hpop,hok⟩ | ⟨hs,hpop,hok⟩
    · have hnone : s.recvWaker = none := by
        by_contra hne
        exact (h.inbox.waker (Option.isSome_iff_ne_none.mpr hne)).2.1 hs
      refine ⟨_,by simp only [State.pollRecv,hpop,bind,Except.bind]; rfl,?_,?_,fun hrecv => ?_⟩
      · exact hok.with_inbox (hok.inbox.release.clear rfl) rfl rfl rfl
      · exact .of_eq hnone.symm (List.prefix_append ..) rfl rfl rfl
      · cases hrecv
    · refine ⟨_,by simp only [State.pollRecv,hpop,bind,Except.bind]; rfl,?_,.pending _ waker,
        fun _ => registerWaker_reaches s.recvWaker waker⟩
      refine h.with_inbox ?_ rfl rfl rfl
      have hinbox := h.inbox
      rw [hq] at hinbox ⊢
      exact hinbox.pending hs hr waker
  | cons v queue =>
    obtain ⟨t,wakers,hpop,hinbox,hok⟩ := h.pop_value hr hq
    refine ⟨_,by simp only [State.pollRecv,hpop,bind,Except.bind]; rfl,
      hok.with_inbox hok.inbox.release rfl rfl rfl,?_,fun hrecv => ?_⟩
    · rw [hinbox]
      exact .of_eq rfl (List.prefix_append ..) rfl rfl rfl
    · cases hrecv

theorem dropReceiver (hrecv : s.recv = none) :
    ∃ t, s.dropReceiver = .ok t ∧ Ok capacity 0 t ∧ s.toInbox.Moves none t.toInbox := by
  obtain ⟨w,hw,-,-⟩ := WaitList.selectAll_spec (w:=s.sendWaiters) (fun r => r) Waiter.takeWaker
    (fun r => some r.waker) (fun r => {r with waker := none}) (fun _ _ r _ => ⟨r.waker,rfl,rfl⟩) s.sendWaiters.order.length le_rfl
  refine ⟨_,by simp only [State.dropReceiver,hw,bind,Except.bind]; rfl,?_,?_⟩
  · refine ⟨(h.inbox.dropReceiver hrecv).grow _,h.tied,fun hr => ?_,h.sound⟩
    cases hr
  · exact .dropReceiver rfl rfl rfl rfl

theorem dropSender (hq : s.holds q = true) (hfree : s.unborrowed q = true) :
    Ok capacity 0 {s with toInbox := s.toInbox.dropSender q} := by
  have hother : ∀ r, r ≠ q → s.holds r = true → (s.toInbox.dropSender q).holds r = true := by
    intro r hr hold
    rw [Inbox.holds_iff] at hold ⊢
    have hhandles : (s.toInbox.dropSender q).handles = s.handles.set q false := by
      rw [Inbox.dropSender]
      split <;> rfl
    rw [hhandles,List.getElem?_set_ne (Ne.symm hr),hold]
  refine ⟨h.inbox.dropSender hq,fun p c hc hl => hother _ ?_ (h.tied p c hc hl),fun hr => ?_,h.sound⟩
  · rintro rfl
    have hall := List.all_eq_true.mp hfree c (List.mem_of_getElem? hc)
    simp [hl] at hall
  · have hreceiver : (s.toInbox.dropSender q).receiver = s.receiver := by
      rw [Inbox.dropSender]
      split <;> rfl
    have hwoken : s.woken ⊆ (s.toInbox.dropSender q).woken := by
      rw [Inbox.dropSender]
      split
      · exact List.subset_append_left _ _
      · exact List.Subset.refl _
    exact (h.slots (hreceiver ▸ hr)).with_inbox hwoken

theorem cloneSender (hq : s.holds q = true) :
    Ok capacity 0 {s with toInbox := s.toInbox.cloneSender} := by
  refine ⟨h.inbox.cloneSender hq,fun p c hc hl => ?_,
    fun hr => (h.slots hr).with_inbox (List.Subset.refl _),h.sound⟩
  have hold := Inbox.holds_iff.mp (h.tied p c hc hl)
  exact Inbox.holds_iff.mpr (Table.getElem?_push_old hold true)

theorem advance (hp : s.sends[p]? = some c) {waker : W} (hx : s.advance p c waker = some x) :
    ∃ t, x = .ok t ∧ Ok capacity 0 t ∧ s.toInbox.Moves none t.toInbox := by
  obtain ⟨q,stage,last⟩ := c
  unfold State.advance at hx
  split at hx
  · next v hstage =>
    obtain rfl : stage = _ := hstage
    cases hx
    exact ⟨_,rfl,h.pollSend hp⟩
  · next payload waiter hstage =>
    obtain rfl : stage = _ := hstage
    cases hx
    exact h.pollReserve hp waker
  · next v hstage =>
    obtain rfl : stage = _ := hstage
    cases hx
    exact ⟨_,rfl,h.permitSend hp⟩
  · next v hstage =>
    obtain rfl : stage = _ := hstage
    cases hx
    exact h.dropPermit hp rfl rfl rfl _
  · cases hx

theorem drop (hp : s.sends[p]? = some c) (hx : s.drop p c = some x) :
    ∃ t, x = .ok t ∧ Ok capacity 0 t ∧ s.toInbox.Moves none t.toInbox := by
  obtain ⟨q,stage,last⟩ := c
  unfold State.drop at hx
  split at hx
  · next v hstage =>
    obtain rfl : stage = _ := hstage
    cases hx
    exact ⟨_,rfl,h.restage hp (fun _ => rfl) rfl rfl rfl rfl (Or.inl rfl) (by simp [SendCall.fresh]),
      .of_eq rfl List.prefix_rfl rfl rfl rfl⟩
  · next payload waiter hstage =>
    obtain rfl : stage = _ := hstage
    cases hx
    exact h.dropReserve hp
  · next hstage =>
    obtain rfl : stage = _ := hstage
    cases hx
    exact h.dropPermit hp rfl rfl rfl _
  · cases hx

theorem sendPermit (hp : s.sends[p]? = some c) (hx : s.sendPermit p c v = some x) :
    ∃ t, x = .ok t ∧ Ok capacity 0 t ∧ s.toInbox.Moves none t.toInbox := by
  obtain ⟨q,stage,last⟩ := c
  unfold State.sendPermit at hx
  split at hx
  · next hstage =>
    obtain rfl : stage = _ := hstage
    cases hx
    exact ⟨_,rfl,h.restage hp (fun _ => rfl) rfl rfl rfl rfl (Or.inr rfl) (fun _ => rfl),
      .of_eq rfl List.prefix_rfl rfl rfl rfl⟩
  · cases hx

theorem act (hx : s.act a = some x) :
    ∃ t, x = .ok t ∧ Ok capacity 0 t ∧ s.toInbox.Moves a.polled t.toInbox := by
  have hidle : s.idle = true → s.receiver = true ∧ s.recv = none := by
    intro hi
    rw [State.idle,Bool.and_eq_true,Option.isNone_iff_eq_none] at hi
    exact hi
  have hsame : ∀ {t : State T W}, t.toInbox = s.toInbox → s.toInbox.Moves a.polled t.toInbox :=
    fun ht => ht ▸ .of_eq rfl List.prefix_rfl rfl rfl rfl
  cases a with
  | cloneSender q =>
    obtain ⟨hq,⟨⟩⟩ := Option.ite_none_right_eq_some.mp hx
    exact ⟨_,rfl,h.cloneSender hq,.cloneSender (h.inbox.senders_ne hq)⟩
  | dropSender q =>
    obtain ⟨hq,⟨⟩⟩ := Option.ite_none_right_eq_some.mp hx
    rw [Bool.and_eq_true] at hq
    exact ⟨_,rfl,h.dropSender hq.1 hq.2,.dropSender _ q⟩
  | dropReceiver =>
    obtain ⟨hi,⟨⟩⟩ := Option.ite_none_right_eq_some.mp hx
    exact h.dropReceiver (hidle hi).2
  | trySend q v =>
    obtain ⟨hq,-⟩ := Option.ite_none_right_eq_some.mp hx
    obtain ⟨t,hok,hsends,hhandles,hmoves,hcases⟩ := h.trySend (h.inbox.senders_ne hq) v
    have hq' : t.holds q = true := by rwa [Inbox.holds,hhandles]
    rcases hcases with ht | ⟨error,ht⟩
    · simp only [State.act,hq,if_true,ht] at hx
      cases hx
      exact ⟨_,rfl,hok.push hq' rfl rfl rfl,hmoves⟩
    · simp only [State.act,hq,if_true,ht] at hx
      cases hx
      exact ⟨_,rfl,hok.push hq' rfl rfl rfl,hmoves⟩
  | tryReserve q =>
    obtain ⟨hq,⟨⟩⟩ := Option.ite_none_right_eq_some.mp hx
    exact ⟨_,rfl,h.tryReserve hq⟩
  | send | reserve =>
    obtain ⟨hq,⟨⟩⟩ := Option.ite_none_right_eq_some.mp hx
    exact ⟨_,rfl,h.push hq rfl rfl rfl,hsame rfl⟩
  | sendPermit p v =>
    obtain ⟨c,hp,hx⟩ := Option.bind_eq_some_iff.mp hx
    exact h.sendPermit hp hx
  | advance p waker =>
    obtain ⟨c,hp,hx⟩ := Option.bind_eq_some_iff.mp hx
    exact h.advance hp hx
  | drop p =>
    obtain ⟨c,hp,hx⟩ := Option.bind_eq_some_iff.mp hx
    exact h.drop hp hx
  | tryRecv =>
    obtain ⟨hi,⟨⟩⟩ := Option.ite_none_right_eq_some.mp hx
    exact h.tryRecv (hidle hi).1
  | recv =>
    obtain ⟨hi,⟨⟩⟩ := Option.ite_none_right_eq_some.mp hx
    exact ⟨_,rfl,h.with_inbox (h.inbox.begin (hidle hi).1) rfl rfl rfl,
      .of_eq rfl List.prefix_rfl rfl rfl rfl⟩
  | pollRecv waker =>
    obtain ⟨hr,⟨⟩⟩ := Option.ite_none_right_eq_some.mp hx
    obtain ⟨t,ht,hok,hmoves,-⟩ := h.pollRecv (h.inbox.borrowed hr) waker
    exact ⟨t,ht,hok,hmoves⟩
  | dropRecv =>
    obtain ⟨-,⟨⟩⟩ := Option.ite_none_right_eq_some.mp hx
    exact ⟨_,rfl,h.with_inbox h.inbox.release rfl rfl rfl,.of_eq rfl List.prefix_rfl rfl rfl rfl⟩

theorem next (hn : s.next a = some t) :
    s.act a = some (.ok t) ∧ Ok capacity 0 t ∧ s.toInbox.Moves a.polled t.toInbox :=
  Transition.step_ok (fun _ => h.act) hn

end

end Ok

variable [Wake W] {capacity : ℕ}

theorem reachable_ok (h : (machine T W capacity).Reachable s) : Ok capacity 0 s := by
  refine (machine T W capacity).invariant (Ok capacity 0) (fun s hs => ?_)
    (fun s a t hs hn => (hs.next hn).2.1) h
  have hnew : bounded T W capacity = .ok s := hs
  rw [bounded] at hnew
  split at hnew
  · cases hnew
    exact Ok.new capacity
  · cases hnew

/-- The receiver of a channel without senders and without values gets nothing any more. -/
theorem Ok.refuses (h : Ok capacity 0 s) (hs : s.senders = 0) (hq : s.queue = []) :
    (s.idle = true → ∃ t, s.next .tryRecv = some t ∧ t.answers = s.answers++[.disconnected]) ∧
      ∀ waker, s.recv.isSome → ∃ t, s.next (.pollRecv waker) = some t ∧ t.recv = none ∧
        t.answers = s.answers++[.disconnected] := by
  have hpop : s.pop = .ok (.disconnected,s) := by rw [State.pop,hq,if_pos hs]
  refine ⟨fun hi => ?_,fun waker hr => ?_⟩
  · refine ⟨{s with toInbox := s.toInbox.answer .disconnected},Transition.step_of_act h.sound ?_,rfl⟩
    simp only [State.act,hi,if_true,State.tryRecv,hpop,bind,Except.bind]
  · refine ⟨{s with toInbox := {s.toInbox.ready .disconnected with recvWaker := none}},
      Transition.step_of_act h.sound ?_,rfl,rfl⟩
    simp only [State.act,hr,if_true,State.pollRecv,hpop,bind,Except.bind]

structure State.Contract (capacity : ℕ) (s : State T W) : Prop where
  conserved : s.receiver = true → s.available+s.queue.length+s.permits+s.grants = capacity
  full : s.receiver = true → s.sendWaiters.order ≠ [] → s.available = 0
  fair : s.receiver = true →
    Fifo (fun p => s.sends[p]?.any SendCall.kept) s.registered s.granted s.waiting
  waker : s.recvWaker.isSome → s.queue = [] ∧ s.senders ≠ 0 ∧ s.receiver = true
  left : ∀ waker t, s.next (.pollRecv waker) = some t → t.recv.isSome →
    ∃ kept, t.recvWaker = some kept ∧ Reaches kept (some waker)
  woken : ∀ waker, s.recv = some (some waker) →
    (∃ kept, s.recvWaker = some kept ∧ Reaches kept (some waker)) ∨
      ∃ kept ∈ s.woken.drop s.mark, Reaches kept (some waker)
  received : s.received <+: s.published
  stored : s.receiver = true → s.published = s.received++s.queue
  closed : .disconnected ∈ s.answers → s.senders = 0 ∧ s.queue = []
  refuses : s.senders = 0 → s.queue = [] →
    (s.idle = true → ∃ t, s.next .tryRecv = some t ∧ t.answers = s.answers++[.disconnected]) ∧
      ∀ waker, s.recv.isSome → ∃ t, s.next (.pollRecv waker) = some t ∧ t.recv = none ∧
        t.answers = s.answers++[.disconnected]
  moves : ∀ a t, s.next a = some t → s.toInbox.Moves a.polled t.toInbox
  sends : ∀ a t, s.next a = some t → Sends s a t
  sound : s.panicked = none

theorem bounded_contract (T W : Type) [Wake W] (capacity : ℕ) (s : State T W)
    (h : (machine T W capacity).Reachable s) : s.Contract capacity := by
  have hok := reachable_ok h
  refine ⟨fun hr => (hok.slots hr).balance,fun hr ho => ?_,fun hr => (hok.slots hr).line.fifo,
    hok.inbox.waker,fun waker t hn hr => ?_,hok.inbox.woken,?_,hok.inbox.stored,hok.inbox.closed,
    fun hs hq => hok.refuses hs hq,fun a t hn => (hok.next hn).2.2,
    fun a t hn => State.act_sends (hok.next hn).1,hok.sound⟩
  · by_contra ha
    exact ho ((hok.slots hr).full ha)
  · obtain ⟨hrecv,hx⟩ := Option.ite_none_right_eq_some.mp (hok.next hn).1
    obtain ⟨u,hu,-,-,hleft⟩ := hok.pollRecv (hok.inbox.borrowed hrecv) waker
    cases (Option.some.inj hx).symm.trans hu
    exact hleft hr
  · exact (List.prefix_append _ _).trans hok.inbox.delivered

/-- With one slot: a second `send` waits, `recv` takes the first value and grants its slot,
the granted `send` publishes, and after the last sender is gone `recv` drains the queue
before it reports the disconnection. -/
def drainRun : List (Action ℕ ℕ) :=
  [.trySend 0 3,.send 0 4,.advance 1 7,.advance 1 7,.recv,.pollRecv 5,.advance 1 7,.advance 1 7,
    .dropSender 0,.tryRecv,.recv,.pollRecv 6]

theorem bounded_contract_drainRun :
    ∃ s, (machine ℕ ℕ 1).exec (new ℕ ℕ 1) drainRun = some s ∧ s.Contract 1 ∧
      s.received = [3,4] ∧ s.granted = [1] ∧ s.answers = [.value 3,.value 4,.disconnected] := by
  have hrun : ((machine ℕ ℕ 1).exec (new ℕ ℕ 1) drainRun).map (fun s => (s.received,s.granted,
      s.answers)) = some ([3,4],[1],[.value 3,.value 4,.disconnected]) := by
    decide +kernel
  obtain ⟨s,hs,hend⟩ := Option.map_eq_some_iff.mp hrun
  simp only [Prod.mk.injEq] at hend
  exact ⟨s,hs,bounded_contract ℕ ℕ 1 s ((machine ℕ ℕ 1).reachable_of_exec rfl hs),hend⟩

end Bounded
end Mpsc
end Asyncband
