import Asyncband.Receiving

/-! What the two MPSC channels share: the endpoints and the single receiver.
Senders are cloned and dropped, and the last one to go wakes the receiver. The receiver is
borrowed mutably by `recv`, so at most one `recv` future exists, and it is the only task
whose waker the channel keeps. `Inbox` has no storage; its invariant is stated against the
values that the channel holds for the receiver. -/
namespace Asyncband

def Received.toOption {T : Type} : Received T → Option T
  | .value v => some v
  | _ => none

namespace Mpsc

structure Inbox (T W : Type) where
  senders : ℕ
  receiver : Bool
  recvWaker : Option W
  /-- The sending endpoints in the order of their creation, and whether each still exists. -/
  handles : List Bool
  /-- The live `recv` future, with the waker of its latest poll that returned pending. -/
  recv : Option (Option W)
  /-- Ghost: how many wakers had been woken at that poll. -/
  mark : ℕ
  /-- Ghost: the values that were put into the channel, in that order. -/
  published : List T
  /-- Ghost: what `recv` and `try_recv` returned. -/
  answers : List (Received T)
  /-- Ghost: the wakers that were handed out to be woken. -/
  woken : List W

namespace Inbox

variable {T W : Type}

def new (T W : Type) : Inbox T W := ⟨1,true,none,[true],none,0,[],[],[]⟩

def holds (i : Inbox T W) (h : ℕ) : Bool := i.handles[h]? == some true

def wake (i : Inbox T W) : Inbox T W :=
  {i with recvWaker := none,woken := i.woken++i.recvWaker.toList}

def cloneSender (i : Inbox T W) : Inbox T W :=
  {i with senders := i.senders+1,handles := i.handles++[true]}

def dropSender (i : Inbox T W) (h : ℕ) : Inbox T W :=
  let i := {i with senders := i.senders-1,handles := i.handles.set h false}
  if i.senders = 0 then i.wake else i

/-- A value was stored under the lock. -/
def publish (i : Inbox T W) (value : T) : Inbox T W := {i with published := i.published++[value]}.wake

def answer (i : Inbox T W) (result : Received T) : Inbox T W := {i with answers := i.answers++[result]}

def ready (i : Inbox T W) (result : Received T) : Inbox T W := {i.answer result with recv := none}

def pending [Wake W] (i : Inbox T W) (waker : W) : Inbox T W :=
  {i with recvWaker := registerWaker i.recvWaker waker,recv := some (some waker),mark := i.woken.length}

def dropReceiver (i : Inbox T W) : Inbox T W := {i with receiver := false,recvWaker := none}

def received (i : Inbox T W) : List T := i.answers.filterMap Received.toOption

/-- `values` are those that the channel holds for the receiver. -/
structure Ok [Wake W] (values : List T) (i : Inbox T W) : Prop where
  counted : i.senders = Table.total Bool.toNat i.handles
  waker : i.recvWaker.isSome → values = [] ∧ i.senders ≠ 0 ∧ i.receiver = true
  marked : i.mark ≤ i.woken.length
  woken : ∀ waker, i.recv = some (some waker) →
    (∃ kept, i.recvWaker = some kept ∧ Reaches kept (some waker)) ∨
      ∃ kept ∈ i.woken.drop i.mark, Reaches kept (some waker)
  borrowed : i.recv.isSome → i.receiver = true
  delivered : i.received++values <+: i.published
  stored : i.receiver = true → i.published = i.received++values
  closed : .disconnected ∈ i.answers → i.senders = 0 ∧ values = []

/-- What a step may do. The waker that the receiver left behind stays, a new poll replaces
it, or it is woken in the step that publishes a value or drops the last sender; `polled` is
the waker of a poll of `recv`. The other clauses are what no step takes back. -/
structure Moves [Wake W] (polled : Option W) (i j : Inbox T W) : Prop where
  kept : ∀ waker, i.recvWaker = some waker → j.recvWaker = some waker ∨
    (∃ kept, j.recvWaker = some kept ∧ Reaches kept polled) ∨
    (j.recvWaker = none ∧ j.woken = i.woken++[waker] ∧
      ((∃ v, j.published = i.published++[v]) ∨ j.senders = 0)) ∨
    j.receiver = false
  answers : i.answers <+: j.answers
  published : i.published <+: j.published
  senders : i.senders = 0 → j.senders = 0
  receiver : i.receiver = false → j.receiver = false

variable {i : Inbox T W} {values : List T} {h : ℕ} {v : T}

theorem holds_iff : i.holds h = true ↔ i.handles[h]? = some true := beq_iff_eq

theorem received_answer (i : Inbox T W) (result : Received T) :
    (i.answer result).received = i.received++result.toOption.toList := by
  show (i.answers++[result]).filterMap Received.toOption = _
  rw [List.filterMap_append]
  cases result <;> rfl

variable [Wake W]

namespace Moves

variable {polled : Option W} {j : Inbox T W}

theorem of_eq (hwaker : j.recvWaker = i.recvWaker) (hanswers : i.answers <+: j.answers)
    (hpublished : j.published = i.published) (hsenders : j.senders = i.senders)
    (hreceiver : j.receiver = i.receiver) : Moves polled i j where
  kept _ hw := Or.inl (hwaker.trans hw)
  answers := hanswers
  published := hpublished ▸ List.prefix_rfl
  senders := hsenders.trans
  receiver := hreceiver.trans

theorem publish (i : Inbox T W) (v : T) : Moves polled i (i.publish v) where
  kept waker hw := by
    refine Or.inr (Or.inr (Or.inl ⟨rfl,?_,Or.inl ⟨v,rfl⟩⟩))
    show i.woken++i.recvWaker.toList = _
    rw [hw]
    rfl
  answers := List.prefix_rfl
  published := List.prefix_append _ _
  senders hs := hs
  receiver hr := hr

theorem cloneSender (hs : i.senders ≠ 0) : Moves polled i i.cloneSender where
  kept _ hw := Or.inl hw
  answers := List.prefix_rfl
  published := List.prefix_rfl
  senders hz := absurd hz hs
  receiver hr := hr

theorem dropSender (i : Inbox T W) (h : ℕ) : Moves polled i (i.dropSender h) := by
  by_cases hs : i.senders-1 = 0
  · rw [Inbox.dropSender,if_pos hs]
    refine ⟨fun waker hw => ?_,List.prefix_rfl,List.prefix_rfl,fun _ => hs,fun hr => hr⟩
    refine Or.inr (Or.inr (Or.inl ⟨rfl,?_,Or.inr hs⟩))
    show i.woken++i.recvWaker.toList = _
    rw [hw]
    rfl
  · rw [Inbox.dropSender,if_neg hs]
    refine ⟨fun _ hw => Or.inl hw,List.prefix_rfl,List.prefix_rfl,fun hz => ?_,fun hr => hr⟩
    exact absurd (by rw [hz]) hs

theorem pending (i : Inbox T W) (waker : W) : Moves (some waker) i (i.pending waker) :=
  ⟨fun _ _ => Or.inr (Or.inl (registerWaker_reaches i.recvWaker waker)),List.prefix_rfl,
    List.prefix_rfl,fun hs => hs,fun hr => hr⟩

theorem dropReceiver (hreceiver : j.receiver = false) (hanswers : j.answers = i.answers)
    (hpublished : j.published = i.published) (hsenders : j.senders = i.senders) : Moves polled i j :=
  ⟨fun _ _ => Or.inr (Or.inr (Or.inr hreceiver)),hanswers ▸ List.prefix_rfl,
    hpublished ▸ List.prefix_rfl,hsenders.trans,fun _ => hreceiver⟩

end Moves

namespace Ok

theorem new : Ok [] (new T W) where
  counted := rfl
  waker h := by cases h
  marked := le_rfl
  woken waker h := by cases h
  borrowed h := by cases h
  delivered := List.prefix_rfl
  stored _ := rfl
  closed h := by cases h

theorem senders_ne (hok : Ok values i) (hh : i.holds h = true) : i.senders ≠ 0 := by
  have hle := Table.le_total Bool.toNat (holds_iff.mp hh)
  rw [← hok.counted] at hle
  exact Nat.one_le_iff_ne_zero.mp hle

theorem recvWaker_eq (hok : Ok (v::values) i) : i.recvWaker = none := by
  cases hw : i.recvWaker with
  | none => rfl
  | some waker =>
    have hnil := (hok.waker (by rw [hw,Option.isSome_some])).1
    cases hnil

section

variable (hok : Ok values i)
include hok

theorem grow (wakers : List W) : Ok values {i with woken := i.woken++wakers} := by
  refine {hok with marked := ?_,woken := fun waker hw => ?_}
  · show i.mark ≤ (i.woken++wakers).length
    rw [List.length_append]
    exact Nat.le_add_right_of_le hok.marked
  · rcases hok.woken waker hw with hkept | ⟨kept,hm,hreach⟩
    · exact Or.inl hkept
    · refine Or.inr ⟨kept,?_,hreach⟩
      show kept ∈ (i.woken++wakers).drop i.mark
      rw [List.drop_append_of_le_length hok.marked]
      exact List.mem_append_left _ hm

theorem wake : Ok values i.wake := by
  have hgrow := hok.grow i.recvWaker.toList
  refine {hgrow with waker := fun hw => (by cases hw),woken := fun waker hw => Or.inr ?_}
  rcases hgrow.woken waker hw with ⟨kept,hkept,hreach⟩ | hold
  · refine ⟨kept,?_,hreach⟩
    show kept ∈ (i.woken++i.recvWaker.toList).drop i.mark
    rw [show i.recvWaker = some kept from hkept,List.drop_append_of_le_length hok.marked]
    exact List.mem_append_right _ (List.mem_singleton_self kept)
  · exact hold

theorem cloneSender (hh : i.holds h = true) : Ok values i.cloneSender := by
  have hs := hok.senders_ne hh
  refine {hok with counted := ?_,waker := fun hw => ?_,closed := fun hm => ?_}
  · show i.senders+1 = Table.total Bool.toNat (i.handles++[true])
    rw [Table.total_append,← hok.counted]
    rfl
  · obtain ⟨hnil,-,hr⟩ := hok.waker hw
    exact ⟨hnil,Nat.succ_ne_zero _,hr⟩
  · exact absurd (hok.closed hm).1 hs

theorem dropSender (hh : i.holds h = true) : Ok values (i.dropSender h) := by
  have hs := hok.senders_ne hh
  have htotal := Table.total_set Bool.toNat (holds_iff.mp hh) false
  have hcounted : i.senders-1 = Table.total Bool.toNat (i.handles.set h false) := by
    rw [← hok.counted] at htotal
    simp only [Bool.toNat_true,Bool.toNat_false,Nat.add_zero] at htotal
    omega
  have hclosed : ∀ j : Inbox T W, j.answers = i.answers → j.senders = i.senders-1 →
      .disconnected ∈ j.answers → j.senders = 0 ∧ values = [] := by
    intro j ha _ hm
    rw [ha] at hm
    exact absurd (hok.closed hm).1 hs
  by_cases hlast : i.senders-1 = 0
  · have hwake := hok.wake
    rw [Inbox.dropSender,if_pos hlast]
    exact {hwake with counted := hcounted,waker := fun hw => (by cases hw),
                      closed := hclosed _ rfl rfl}
  · rw [Inbox.dropSender,if_neg hlast]
    refine {hok with counted := hcounted,waker := fun hw => ?_,closed := hclosed _ rfl rfl}
    obtain ⟨hnil,-,hr⟩ := hok.waker hw
    exact ⟨hnil,hlast,hr⟩

theorem publish (hs : i.senders ≠ 0) (hr : i.receiver = true) (v : T) :
    Ok (values++[v]) (i.publish v) := by
  have hwake := hok.wake
  have hstored : i.published++[v] = i.received++(values++[v]) := by
    rw [hok.stored hr,List.append_assoc]
  exact {hwake with waker := fun hw => (by cases hw),delivered := hstored ▸ List.prefix_rfl,
                    stored := fun _ => hstored,
                    closed := fun hm => absurd (hok.closed hm).1 hs}

end

theorem take (hok : Ok (v::values) i) : Ok values (i.answer (.value v)) := by
  have hreceived : (i.answer (.value v)).received++values = i.received++v::values := by
    rw [received_answer]
    simp [Received.toOption]
  have hnone := hok.recvWaker_eq
  refine {hok with waker := fun hw => ?_,delivered := hreceived ▸ hok.delivered,
                   stored := fun hr => hreceived ▸ hok.stored hr,closed := fun hm => ?_}
  · rw [show (i.answer (.value v)).recvWaker = none from hnone] at hw
    cases hw
  · rcases List.mem_append.mp hm with hm | hm
    · cases (hok.closed hm).2
    · cases List.mem_singleton.mp hm

theorem refuse (hok : Ok values i) {result : Received T} (hresult : result.toOption = none)
    (hclosed : result = .disconnected → i.senders = 0 ∧ values = []) : Ok values (i.answer result) := by
  have hreceived : (i.answer result).received = i.received := by
    rw [received_answer,hresult]
    exact List.append_nil _
  refine {hok with delivered := hreceived ▸ hok.delivered,stored := fun hr => hreceived ▸ hok.stored hr,
                   closed := fun hm => ?_}
  rcases List.mem_append.mp hm with hm | hm
  · exact hok.closed hm
  · exact hclosed (List.mem_singleton.mp hm).symm

theorem release (hok : Ok values i) : Ok values {i with recv := none} :=
  {hok with woken := fun waker hw => (by cases hw),borrowed := fun hw => by cases hw}

theorem clear (hok : Ok values i) (hrecv : i.recv = none) : Ok values {i with recvWaker := none} := by
  refine {hok with waker := fun hw => (by cases hw),woken := fun waker hw => ?_}
  cases hrecv.symm.trans hw

theorem begin (hok : Ok values i) (hr : i.receiver = true) : Ok values {i with recv := some none} :=
  {hok with woken := fun waker hw => (by cases hw),borrowed := fun _ => hr}

theorem pending (hok : Ok [] i) (hs : i.senders ≠ 0) (hr : i.receiver = true) (waker : W) :
    Ok [] (i.pending waker) := by
  refine {hok with waker := fun _ => ⟨rfl,hs,hr⟩,marked := le_rfl,woken := fun current hw => Or.inl ?_,
                   borrowed := fun _ => hr}
  cases hw
  exact registerWaker_reaches i.recvWaker waker

theorem dropReceiver (hok : Ok values i) (hrecv : i.recv = none) : Ok [] i.dropReceiver where
  counted := hok.counted
  waker hw := by cases hw
  marked := hok.marked
  woken waker hw := by cases hrecv.symm.trans hw
  borrowed hw := by
    rw [show i.dropReceiver.recv = none from hrecv] at hw
    cases hw
  delivered := (List.append_nil i.received).symm ▸ (List.prefix_append _ _).trans hok.delivered
  stored hr := by cases hr
  closed hm := ⟨(hok.closed hm).1,rfl⟩

end Ok
end Inbox
end Mpsc
end Asyncband
