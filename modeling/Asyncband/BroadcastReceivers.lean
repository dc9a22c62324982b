import Asyncband.BroadcastChannel

/-! Receivers of a broadcast channel and their pending `recv` futures.
`Subscribed` ties the cursors of the backlog to what the receivers have got, `Borrowed`
says that a future has its receiver to itself. A token counts while its receiver has
caught up and there is a sender; `Watched` says that the tokens that count are the
occupied slots, and that the owner of any other token was woken or is about to be. -/
namespace Asyncband
namespace Broadcast

variable {T W : Type} {s : Channel T W} {r : ℕ}

/-- The sequence that each receiver got is a segment of all values from its subscription
on, and the cursor of a live one is where the segment ends. -/
structure Subscribed (cursor : SlotId → Option ℕ) (values : List T) (receivers : List (Receiver T)) :
    Prop where
  position : ∀ (r : ℕ) x, receivers[r]? = some x → x.live = true →
    cursor x.key = some (x.since+x.received.length)
  keys : ∀ (r r' : ℕ) x x', receivers[r]? = some x → receivers[r']? = some x' → x.live = true →
    x'.live = true → x.key = x'.key → r = r'
  owned : ∀ key c, cursor key = some c → ∃ (r : ℕ) (x : Receiver T), receivers[r]? = some x ∧
    x.live = true ∧ x.key = key
  segment : ∀ (r : ℕ) x, receivers[r]? = some x → x.since ≤ values.length ∧
    x.received <+: values.drop x.since

namespace Subscribed

variable {cursor : SlotId → Option ℕ} {values : List T} {receivers : List (Receiver T)} {r : ℕ}
  {x : Receiver T}

theorem nil : Subscribed (fun _ => none) ([] : List T) [] :=
  ⟨by simp,by simp,by simp,by simp⟩

theorem publish (h : Subscribed cursor values receivers) (value : T) :
    Subscribed cursor (values++[value]) receivers := by
  refine ⟨h.position,h.keys,h.owned,fun r x hx => ?_⟩
  obtain ⟨hle,hseg⟩ := h.segment r x hx
  refine ⟨by simp; omega,?_⟩
  rw [List.drop_append_of_le_length hle]
  exact hseg.trans (List.prefix_append _ _)

theorem subscribe (h : Subscribed cursor values receivers) {key : SlotId} (hfresh : cursor key = none) :
    Subscribed (Function.update cursor key (some values.length)) values
      (receivers++[⟨key,true,values.length,[],false⟩]) := by
  have hne : ∀ (r : ℕ) x, receivers[r]? = some x → x.live = true → x.key ≠ key := by
    intro r x hx hl he
    have hc := h.position r x hx hl
    rw [he,hfresh] at hc
    cases hc
  refine ⟨?_,?_,?_,?_⟩
  · intro r x hx hl
    rcases Table.getElem?_push hx with hx | ⟨-,rfl⟩
    · rw [Function.update_of_ne (hne r x hx hl)]
      exact h.position r x hx hl
    · exact Function.update_self ..
  · intro r r' x x' hx hx' hl hl' he
    rcases Table.getElem?_push hx with hold | ⟨hr,rfl⟩ <;>
      rcases Table.getElem?_push hx' with hold' | ⟨hr',rfl⟩
    · exact h.keys r r' x x' hold hold' hl hl' he
    · exact absurd he (hne r x hold hl)
    · exact absurd he.symm (hne r' x' hold' hl')
    · exact hr.trans hr'.symm
  · intro k c hk
    by_cases hkk : k = key
    · exact ⟨receivers.length,⟨key,true,values.length,[],false⟩,by simp,rfl,hkk.symm⟩
    · rw [Function.update_of_ne hkk] at hk
      obtain ⟨r,x,hx,hl,he⟩ := h.owned k c hk
      exact ⟨r,x,Table.getElem?_push_old hx _,hl,he⟩
  · exact Table.forall_push h.segment ⟨Nat.le_refl _,List.nil_prefix⟩

section

variable (h : Subscribed cursor values receivers) (hx : receivers[r]? = some x) (hl : x.live = true)
include h hx hl

theorem set (y : Receiver T) (hkey : y.key = x.key) {c : Option ℕ}
    (hc : y.live = true → c = some (y.since+y.received.length)) (hdead : c ≠ none → y.live = true)
    (hseg : y.since ≤ values.length ∧ y.received <+: values.drop y.since) :
    Subscribed (Function.update cursor x.key c) values (receivers.set r y) := by
  have hne : ∀ (r' : ℕ) x', r' ≠ r → receivers[r']? = some x' → x'.live = true → x'.key ≠ x.key :=
    fun r' x' hr hx' hl' he => hr (h.keys r' r x' x hx' hx hl' hl he)
  refine ⟨?_,?_,?_,?_⟩
  · intro r' x' hx' hl'
    rcases Table.getElem?_set_cases hx' with ⟨rfl,rfl⟩ | ⟨hr,hx'⟩
    · rw [hkey,Function.update_self]
      exact hc hl'
    · rw [Function.update_of_ne (hne r' x' hr hx' hl')]
      exact h.position r' x' hx' hl'
  · intro r₁ r₂ x₁ x₂ h₁ h₂ hl₁ hl₂ he
    rcases Table.getElem?_set_cases h₁ with ⟨rfl,rfl⟩ | ⟨hr₁,hold₁⟩ <;>
      rcases Table.getElem?_set_cases h₂ with ⟨rfl,rfl⟩ | ⟨hr₂,hold₂⟩
    · rfl
    · exact absurd (he.symm.trans hkey) (hne r₂ x₂ hr₂ hold₂ hl₂)
    · exact absurd (he.trans hkey) (hne r₁ x₁ hr₁ hold₁ hl₁)
    · exact h.keys r₁ r₂ x₁ x₂ hold₁ hold₂ hl₁ hl₂ he
  · intro k d hk
    by_cases hkx : k = x.key
    · subst hkx
      rw [Function.update_self] at hk
      exact ⟨r,y,Table.getElem?_set_self' hx y,hdead (by rw [hk]; exact Option.some_ne_none d),hkey⟩
    · rw [Function.update_of_ne hkx] at hk
      obtain ⟨r',x',hx',hl',he⟩ := h.owned k d hk
      have hr : r ≠ r' := by
        rintro rfl
        rw [hx] at hx'
        cases hx'
        exact hkx he.symm
      exact ⟨r',x',by rw [List.getElem?_set_ne hr,hx'],hl',he⟩
  · intro r' x' hx'
    rcases Table.getElem?_set_cases hx' with ⟨rfl,rfl⟩ | ⟨-,hx'⟩
    · exact hseg
    · exact h.segment r' x' hx'

theorem receive {msg : T} (hmsg : values[x.since+x.received.length]? = some msg) :
    Subscribed (Function.update cursor x.key (some (x.since+x.received.length+1))) values
      (receivers.set r {x with received := x.received++[msg]}) := by
  obtain ⟨hle,⟨rest,hrest⟩⟩ := h.segment r x hx
  refine h.set hx hl {x with received := x.received++[msg]} rfl (fun _ => ?_) (fun _ => hl) ⟨hle,?_⟩
  · rw [List.length_append,List.length_singleton,Nat.add_assoc]
  rw [← List.getElem?_drop,← hrest,List.getElem?_append_right (Nat.le_refl _),Nat.sub_self] at hmsg
  cases rest with
  | nil => cases hmsg
  | cons y rest =>
    cases hmsg
    exact ⟨rest,by rw [← hrest]; simp⟩

theorem drop :
    Subscribed (Function.update cursor x.key none) values (receivers.set r {x with live := false}) :=
  h.set hx hl {x with live := false} rfl (by rintro ⟨⟩) (fun hne => absurd rfl hne) (h.segment r x hx)

theorem setEnded : Subscribed cursor values (receivers.set r {x with ended := true}) := by
  have hc := h.position r x hx hl
  have hset := h.set hx hl {x with ended := true} rfl (fun _ => hc) (fun _ => hl) (h.segment r x hx)
  rwa [Function.update_eq_self] at hset

end

end Subscribed

/-- A live `recv` future has its receiver to itself. -/
structure Borrowed (receivers : List (Receiver T)) (recvs : List (Recv T W)) : Prop where
  holder : ∀ (f : ℕ) c, recvs[f]? = some c → c.isLive = true →
    ∃ x, receivers[c.receiver]? = some x ∧ x.live = true
  unique : ∀ (f g : ℕ) c d, recvs[f]? = some c → recvs[g]? = some d → c.isLive = true →
    d.isLive = true → c.receiver = d.receiver → f = g

namespace Borrowed

variable {receivers : List (Receiver T)} {recvs : List (Recv T W)} {r f : ℕ} {x : Receiver T}
  {c : Recv T W}

section

variable (h : Borrowed receivers recvs)
include h

theorem push_receiver (y : Receiver T) : Borrowed (receivers++[y]) recvs := by
  refine ⟨?_,h.unique⟩
  intro f c hc hl
  obtain ⟨x,hx,hlive⟩ := h.holder f c hc hl
  exact ⟨x,Table.getElem?_push_old hx y,hlive⟩

theorem set_receiver (hx : receivers[r]? = some x) (y : Receiver T)
    (hy : ∀ (f : ℕ) c, recvs[f]? = some c → c.isLive = true → c.receiver = r → y.live = true) :
    Borrowed (receivers.set r y) recvs := by
  refine ⟨?_,h.unique⟩
  intro f c hc hl
  by_cases hr : c.receiver = r
  · exact ⟨y,by rw [hr]; exact Table.getElem?_set_self' hx y,hy f c hc hl hr⟩
  · obtain ⟨z,hz,hlive⟩ := h.holder f c hc hl
    exact ⟨z,by rw [List.getElem?_set_ne (Ne.symm hr),hz],hlive⟩

theorem push_recv (d : Recv T W) (hx : receivers[d.receiver]? = some x) (hlive : x.live = true)
    (hfree : ∀ (f : ℕ) c, recvs[f]? = some c → c.receiver = d.receiver → c.isLive = false) :
    Borrowed receivers (recvs++[d]) := by
  constructor
  · exact Table.forall_push h.holder (fun _ => ⟨x,hx,hlive⟩)
  · intro f g c e hc he hl hl' hr
    rcases Table.getElem?_push hc with hold | ⟨hf,rfl⟩ <;>
      rcases Table.getElem?_push he with hold' | ⟨hg,rfl⟩
    · exact h.unique f g c e hold hold' hl hl' hr
    · rw [hfree f c hold hr] at hl
      cases hl
    · rw [hfree g e hold' hr.symm] at hl'
      cases hl'
    · exact hf.trans hg.symm

theorem set_recv (hc : recvs[f]? = some c) (hl : c.isLive = true) (d : Recv T W)
    (hd : d.receiver = c.receiver) : Borrowed receivers (recvs.set f d) := by
  constructor
  · intro g e he hle
    rcases Table.getElem?_set_cases he with ⟨rfl,rfl⟩ | ⟨-,he⟩
    · rw [hd]
      exact h.holder g c hc hl
    · exact h.holder g e he hle
  · intro g k e e' he he' hle hle' hr
    rcases Table.getElem?_set_cases he with ⟨rfl,rfl⟩ | ⟨-,hold⟩ <;>
      rcases Table.getElem?_set_cases he' with ⟨rfl,rfl⟩ | ⟨-,hold'⟩
    · rfl
    · exact h.unique g k c e' hc hold' hl hle' (hd ▸ hr)
    · exact h.unique g k e c hold hc hle hl (hr.trans hd)
    · exact h.unique g k e e' hold hold' hle hle' hr

end

end Borrowed

theorem Channel.isFree_iff :
    s.isFree r = true ↔ ∀ (f : ℕ) c, s.recvs[f]? = some c → c.receiver = r → c.isLive = false := by
  simp only [Channel.isFree,List.all_eq_true,Bool.not_eq_true',Bool.and_eq_false_iff,
    beq_eq_false_iff_ne]
  constructor
  · intro h f c hc hr
    rcases h c (List.mem_of_getElem? hc) with hl | hne
    · exact hl
    · exact absurd hr hne
  · intro h c hc
    obtain ⟨f,hf⟩ := List.mem_iff_getElem?.mp hc
    by_cases hr : c.receiver = r
    · exact .inl (h f c hf hr)
    · exact .inr hr

theorem Channel.idle_eq_some {x : Receiver T} :
    s.idle r = some x ↔ s.receivers[r]? = some x ∧ x.live = true ∧ s.isFree r = true := by
  simp [Channel.idle,Option.filter_eq_some_iff]

theorem Recv.isLive_of_token {c : Recv T W} {id : SlotId} (h : c.token = some id) :
    c.isLive = true := by
  cases hs : c.stage with
  | live token => simp [Recv.isLive,hs]
  | _ => simp [Recv.token,hs] at h

/-! ### Registrations -/

namespace Channel

def caughtUp (s : Channel T W) (r : ℕ) : Bool :=
  (s.receivers[r]?.bind fun x => s.inner.log.cursor x.key) == some s.inner.log.tail

/-- The token of a future as far as it counts while there are senders. -/
def seat (s : Channel T W) (c : Recv T W) : Option SlotId :=
  if s.caughtUp c.receiver then c.token else none

def slot (s : Channel T W) : ℕ → Option SlotId := Table.lookup s.seat s.recvs

theorem slot_eq {s : Channel T W} {f : ℕ} {c : Recv T W} (hc : s.recvs[f]? = some c) :
    s.slot f = s.seat c := Table.lookup_eq hc

def latest (s : Channel T W) : ℕ → Option W := Table.lookup Recv.lastWaker s.recvs

def Woken [Wake W] (s : Channel T W) (c : Recv T W) : Prop :=
  ∃ waker ∈ s.woken.drop c.mark, Reaches waker c.lastWaker

def Holds [Wake W] (s : Channel T W) (id : SlotId) (c : Recv T W) : Prop :=
  ∃ waker, s.inner.waiters.wakers.get? id = some waker ∧ Reaches waker c.lastWaker

end Channel

structure Watched [Wake W] (s : Channel T W) : Prop where
  enrolled : s.senders ≠ 0 → Enrolled s.inner.waiters s.slot s.latest
  watched : ∀ (f : ℕ) c id, s.recvs[f]? = some c → c.token = some id → s.Woken c ∨
    s.caughtUp c.receiver = true ∧ (s.senders ≠ 0 ∨ .disconnecting ∈ s.handles ∧ s.Holds id c)
  mark : ∀ (f : ℕ) c, s.recvs[f]? = some c → c.mark ≤ s.woken.length

namespace Watched

variable [Wake W] {s t : Channel T W} {c : Recv T W} {f : ℕ} {id : SlotId}

theorem woken_mono (h : s.Woken c) {taken : List W} (ht : t.woken = s.woken++taken) : t.Woken c := by
  obtain ⟨waker,hw,hr⟩ := h
  refine ⟨waker,?_,hr⟩
  rw [ht,List.drop_append]
  exact List.mem_append_left _ hw

section

variable (h : Watched s)
include h

theorem woken_of_holds (hc : s.recvs[f]? = some c) (hh : s.Holds id c)
    (ht : t.woken = s.woken++s.inner.waiters.wakeAll) : t.Woken c := by
  obtain ⟨waker,hw,hr⟩ := hh
  refine ⟨waker,?_,hr⟩
  rw [ht,List.drop_append_of_le_length (h.mark f c hc)]
  exact List.mem_append_right _ (WakerSet.mem_wakeAll.mpr ⟨id,hw⟩)

theorem holds (hs : s.senders ≠ 0) (hc : s.recvs[f]? = some c) (ht : c.token = some id)
    (hcaught : s.caughtUp c.receiver = true) : s.Holds id c := by
  have hslot : s.slot f = some id := by rw [Channel.slot_eq hc,Channel.seat,if_pos hcaught,ht]
  obtain ⟨waker,hw,hr⟩ := (h.enrolled hs).held f id hslot
  rw [Channel.latest,Table.lookup_eq hc] at hr
  exact ⟨waker,hw,hr⟩

theorem congr (hrecvs : t.recvs = s.recvs) (hwaiters : t.inner.waiters = s.inner.waiters)
    (hwoken : t.woken = s.woken) (hsenders : t.senders = 0 ↔ s.senders = 0)
    (hhandles : SenderStage.disconnecting ∈ s.handles → SenderStage.disconnecting ∈ t.handles)
    (hcaught : ∀ (f : ℕ) c, s.recvs[f]? = some c → c.isLive = true →
      t.caughtUp c.receiver = s.caughtUp c.receiver) : Watched t := by
  refine ⟨?_,?_,?_⟩
  · intro hs
    rw [hwaiters]
    refine (h.enrolled (mt hsenders.mpr hs)).congr ?_ ?_
    · funext f
      rw [Channel.slot,Channel.slot,hrecvs,Table.lookup,Table.lookup]
      cases hc : s.recvs[f]? with
      | none => rfl
      | some c =>
        rw [Option.bind_some,Option.bind_some,Channel.seat,Channel.seat]
        cases ht : c.token with
        | none => simp
        | some id => rw [hcaught f c hc (Recv.isLive_of_token ht)]
    · intro f id _
      rw [Channel.latest,Channel.latest,hrecvs]
  · intro f c id hc ht
    rw [hrecvs] at hc
    rw [hcaught f c hc (Recv.isLive_of_token ht),Ne,hsenders,Channel.Woken,hwoken,Channel.Holds,hwaiters]
    rcases h.watched f c id hc ht with hw | ⟨hcau,hs | ⟨hd,hh⟩⟩
    · exact .inl hw
    · exact .inr ⟨hcau,.inl hs⟩
    · exact .inr ⟨hcau,.inr ⟨hhandles hd,hh⟩⟩
  · rw [hrecvs,hwoken]
    exact h.mark

/-- A publication takes all wakers, and every receiver has a message to read. -/
theorem publish (hs : s.senders ≠ 0) (hrecvs : t.recvs = s.recvs)
    (hwaiters : t.inner.waiters = s.inner.waiters.takeAll.2)
    (hwoken : t.woken = s.woken++s.inner.waiters.takeAll.1)
    (hbehind : ∀ (f : ℕ) c, s.recvs[f]? = some c → c.isLive = true → t.caughtUp c.receiver = false) :
    Watched t := by
  rw [WakerSet.takeAll_eq] at hwoken
  refine ⟨?_,?_,?_⟩
  · intro _
    rw [hwaiters]
    refine (Enrolled.takeAll s.inner.waiters t.latest).congr ?_ (fun _ _ _ => rfl)
    funext f
    rw [Channel.slot,hrecvs,Table.lookup]
    cases hc : s.recvs[f]? with
    | none => rfl
    | some c =>
      rw [Option.bind_some,Channel.seat]
      cases ht : c.token with
      | none => simp
      | some id =>
        rw [hbehind f c hc (Recv.isLive_of_token ht)]
        rfl
  · intro f c id hc ht
    rw [hrecvs] at hc
    rcases h.watched f c id hc ht with hw | ⟨hcau,-⟩
    · exact .inl (woken_mono hw hwoken)
    · exact .inl (h.woken_of_holds hc (h.holds hs hc ht hcau) hwoken)
  · intro f c hc
    rw [hrecvs] at hc
    have hle := h.mark f c hc
    rw [hwoken,List.length_append]
    omega

theorem closing (hrecvs : t.recvs = s.recvs) (hinner : t.inner = s.inner)
    (hreceivers : t.receivers = s.receivers) (hwoken : t.woken = s.woken) (hzero : t.senders = 0)
    (hhandles : SenderStage.disconnecting ∈ t.handles) (hs : s.senders ≠ 0) : Watched t := by
  refine ⟨fun hne => absurd hzero hne,?_,?_⟩
  · intro f c id hc ht
    rw [hrecvs] at hc
    rw [Channel.caughtUp,hreceivers,Channel.Woken,hwoken,Channel.Holds,hinner]
    rcases h.watched f c id hc ht with hw | ⟨hcau,-⟩
    · exact .inl hw
    · exact .inr ⟨hcau,.inr ⟨hhandles,h.holds hs hc ht hcau⟩⟩
  · rw [hrecvs,hwoken]
    exact h.mark

theorem disconnect (hrecvs : t.recvs = s.recvs) (hzero : s.senders = 0)
    (hsenders : t.senders = s.senders) (hwoken : t.woken = s.woken++s.inner.waiters.wakeAll) :
    Watched t := by
  refine ⟨fun hne => absurd (hsenders.trans hzero) hne,?_,?_⟩
  · intro f c id hc ht
    rw [hrecvs] at hc
    rcases h.watched f c id hc ht with hw | ⟨-,hs | ⟨-,hh⟩⟩
    · exact .inl (woken_mono hw hwoken)
    · exact absurd hzero hs
    · exact .inl (h.woken_of_holds hc hh hwoken)
  · intro f c hc
    rw [hrecvs] at hc
    have hle := h.mark f c hc
    rw [hwoken,List.length_append]
    omega

theorem push_recv (r : ℕ) : Watched {s with recvs := s.recvs++[⟨r,.live none,none,0⟩]} := by
  refine ⟨?_,?_,?_⟩
  · intro hs
    refine (h.enrolled hs).congr ?_ ?_
    · have hseat : s.seat ⟨r,.live none,none,0⟩ = none := by
        rw [Channel.seat]
        split <;> rfl
      exact Table.lookup_push s.recvs hseat
    · intro f id _
      have hwaker : Table.lookup Recv.lastWaker (s.recvs++[⟨r,.live none,none,0⟩]) =
          Table.lookup Recv.lastWaker s.recvs := Table.lookup_push s.recvs rfl
      exact congrFun hwaker f
  · intro f c id hc ht
    rcases Table.getElem?_push hc with hc | ⟨-,rfl⟩
    · exact h.watched f c id hc ht
    · cases ht
  · exact Table.forall_push h.mark (Nat.zero_le _)

theorem finish (hc : s.recvs[f]? = some c) (d : Recv T W) (hd : d.token = none)
    (hmark : d.mark = c.mark) (hseat : s.senders ≠ 0 → s.seat c = none)
    (hrecvs : t.recvs = s.recvs.set f d) (hwaiters : t.inner.waiters = s.inner.waiters)
    (hwoken : t.woken = s.woken) (hsenders : t.senders = s.senders) (hhandles : t.handles = s.handles)
    (hcaught : ∀ (g : ℕ) e, g ≠ f → s.recvs[g]? = some e → e.isLive = true →
      t.caughtUp e.receiver = s.caughtUp e.receiver) : Watched t := by
  refine ⟨?_,?_,?_⟩
  · intro hs
    rw [hsenders] at hs
    rw [hwaiters]
    have hslot : ∀ g, t.slot g = s.slot g := by
      intro g
      by_cases hg : g = f
      · subst hg
        rw [Channel.slot_eq (s := t) (c := d) (by rw [hrecvs]; exact Table.getElem?_set_self' hc d),Channel.slot_eq hc,
          hseat hs,Channel.seat,hd]
        split <;> rfl
      · rw [Channel.slot,Channel.slot,hrecvs,Table.lookup,Table.lookup,List.getElem?_set_ne (Ne.symm hg)]
        cases he : s.recvs[g]? with
        | none => rfl
        | some e =>
          rw [Option.bind_some,Option.bind_some,Channel.seat,Channel.seat]
          cases ht : e.token with
          | none => simp
          | some id => rw [hcaught g e hg he (Recv.isLive_of_token ht)]
    refine (h.enrolled hs).congr (funext hslot) ?_
    intro g id hg
    have hgf : g ≠ f := by
      rintro rfl
      rw [Channel.slot_eq hc,hseat hs] at hg
      cases hg
    rw [Channel.latest,Channel.latest,hrecvs,Table.lookup,Table.lookup,
      List.getElem?_set_ne (Ne.symm hgf)]
  · intro g e id he ht
    rw [hrecvs] at he
    rcases Table.getElem?_set_cases he with ⟨rfl,rfl⟩ | ⟨hg,he⟩
    · rw [hd] at ht
      cases ht
    · rw [hcaught g e hg he (Recv.isLive_of_token ht),hsenders,hhandles,Channel.Woken,hwoken,
        Channel.Holds,hwaiters]
      exact h.watched g e id he ht
  · intro g e he
    rw [hrecvs] at he
    rw [hwoken]
    rcases Table.getElem?_set_cases he with ⟨rfl,rfl⟩ | ⟨-,he⟩
    · rw [hmark]
      exact h.mark g c hc
    · exact h.mark g e he

end

end Watched

end Broadcast
end Asyncband
