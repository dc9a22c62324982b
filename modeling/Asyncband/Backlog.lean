import Asyncband.Arena
import Asyncband.Checked

/-! The committed backlog of the broadcast channels.
`Raw` is the storage as written, with its panics and debug assertions; `Backlog` is
the storage together with the cursor accounting, which is all that reclaiming looks
at. Allocation sizes are left out: `shrink_buffer` only resets the peak. -/
namespace Asyncband

def u64Max : ℕ := 2^64-1

namespace Backlog

structure Slot (T : Type) where
  msg : T
  /-- The number of receivers whose next read is this message. -/
  cursors : ℕ

inductive Retention
  | elastic (peakLen : ℕ)
  | fixed

structure Received (T : Type) where
  msg : T
  reclaimed : Bool

structure Reclaimed (T : Type) where
  first : Option T
  rest : List T

structure Raw (T : Type) where
  /-- The messages with versions in `[head, tail)`. -/
  buffer : List (Slot T)
  head : ℕ
  atTail : ℕ
  tail : ℕ
  receivers : Arena ℕ
  retention : Retention

variable {T : Type}

namespace Reclaimed

def empty : Reclaimed T := ⟨none,[]⟩

def len (r : Reclaimed T) : ℕ := r.first.toList.length+r.rest.length

def messages (r : Reclaimed T) : List T := r.first.toList++r.rest

end Reclaimed

namespace Raw

def new (retention : Retention) : Raw T := ⟨[],0,0,0,.new,retention⟩

def retained (b : Raw T) : ℕ := b.buffer.length

def hasReceivers (b : Raw T) : Bool := !b.receivers.isEmpty

def advanceTail (b : Raw T) : Except String (Raw T) :=
  if b.tail+1 ≤ u64Max then .ok {b with tail := b.tail+1}
  else .error "broadcast channel version counter overflowed"

def publishDiscarded (b : Raw T) : Except String (Raw T) :=
  if b.hasReceivers then .error "assertion failed: !self.has_receivers()"
  else if b.buffer.isEmpty = false then .error "assertion failed: self.buffer.is_empty()"
  else if b.atTail ≠ 0 then .error "assertion `left == right` failed"
  else do
    let b ← b.advanceTail
    return {b with head := b.tail}

def recordPeak (retention : Retention) (len : ℕ) : Retention :=
  match retention with
  | .elastic peakLen => .elastic (max peakLen len)
  | .fixed => .fixed

def publishRetained (b : Raw T) (msg : T) : Except String (Raw T) :=
  if b.hasReceivers = false then .error "assertion failed: self.has_receivers()"
  else do
    let b ← b.advanceTail
    let buffer := b.buffer++[⟨msg,b.atTail⟩]
    return {b with
      atTail := 0
      buffer := buffer
      retention := recordPeak b.retention buffer.length}

def subscribe (b : Raw T) : SlotId × Raw T :=
  let (key,receivers) := b.receivers.insert b.tail
  (key,{b with atTail := b.atTail+1,receivers := receivers})

def addCursor (buffer : List (Slot T)) (i : ℕ) : Except String (List (Slot T)) :=
  match buffer[i]? with
  | none => .error "Out of bounds access"
  | some slot => .ok (buffer.set i {slot with cursors := slot.cursors+1})

/-- `buffer[i].cursors -= 1`, together with the slot afterwards. -/
def dropCursor (buffer : List (Slot T)) (i : ℕ) : Except String (Slot T × List (Slot T)) :=
  match buffer[i]? with
  | none => .error "Out of bounds access"
  | some slot =>
    if slot.cursors = 0 then .error "attempt to subtract with overflow"
    else
      let slot := {slot with cursors := slot.cursors-1}
      .ok (slot,buffer.set i slot)

def shrinkBuffer (b : Raw T) : Raw T :=
  match b.retention with
  | .fixed => b
  | .elastic _ => if b.buffer.isEmpty then {b with retention := .elastic 0} else b

def reclaimVacated (b : Raw T) : Except String (Reclaimed T × Raw T) :=
  if (b.buffer.head?.any fun slot => slot.cursors == 0) = false then
    .error "assertion failed: self.buffer.front().is_some_and(|slot| slot.cursors == 0)"
  else
    let first := b.buffer.head?.map Slot.msg
    let buffer := b.buffer.tail
    let extra := (buffer.takeWhile fun slot => slot.cursors == 0).length
    let reclaimed : Reclaimed T := ⟨first,(buffer.take extra).map Slot.msg⟩
    let b : Raw T := {b with buffer := buffer.drop extra,head := b.head+reclaimed.len}
    if b.head ≤ b.tail then .ok (reclaimed,b.shrinkBuffer)
    else .error "assertion failed: self.head <= self.tail"

def removeReceiver (b : Raw T) (key : SlotId) : Except String (Reclaimed T × Raw T) := do
  let (cursor,receivers) ← b.receivers.remove key
  if cursor = b.tail then
    return (.empty,{b with receivers := receivers,atTail := ← Checked.sub b.atTail 1})
  else
    let offset ← Checked.sub cursor b.head
    let (slot,buffer) ← dropCursor b.buffer offset
    let b : Raw T := {b with receivers := receivers,buffer := buffer}
    if offset = 0 ∧ slot.cursors = 0 then b.reclaimVacated else return (.empty,b)

/-- The cursor is counted at its next version before it leaves this one. -/
def countNext (b : Raw T) (version : ℕ) : Except String (ℕ × List (Slot T)) :=
  if version+1 = b.tail then .ok (b.atTail+1,b.buffer)
  else (addCursor b.buffer (version-b.head+1)).map (b.atTail,·)

/-- The end of `receive`, with the slot that the cursor left. -/
def takeMessage (b : Raw T) (offset : ℕ) (slot : Slot T) :
    Except String (Option (Received T) × Raw T) :=
  if offset = 0 ∧ slot.cursors = 0 then
    match b.buffer with
    | [] => .error "head slot must exist"
    | front::rest =>
      if b.head+1 ≤ b.tail then
        .ok (some ⟨front.msg,true⟩,{b with buffer := rest,head := b.head+1}.shrinkBuffer)
      else .error "assertion failed: self.head <= self.tail"
  else .ok (some ⟨slot.msg,false⟩,b)

def receive (b : Raw T) (key : SlotId) : Except String (Option (Received T) × Raw T) :=
  match b.receivers.get? key with
  | none => .error "active broadcast receiver must be registered"
  | some version =>
    if b.tail ≤ version then .ok (none,b)
    else if version < b.head then .error "assertion failed: version >= self.head"
    else do
      let (atTail,buffer) ← b.countNext version
      let (slot,buffer) ← dropCursor buffer (version-b.head)
      {b with
        receivers := b.receivers.set key (version+1)
        atTail := atTail
        buffer := buffer}.takeMessage (version-b.head) slot

def count (receivers : Arena ℕ) (v : ℕ) : ℕ := receivers.total fun c => if c = v then 1 else 0

/-- Every cursor is counted exactly once. -/
structure Counted (b : Raw T) : Prop where
  length : b.head+b.buffer.length = b.tail
  tail_le : b.tail ≤ u64Max
  slots : ∀ i slot, b.buffer[i]? = some slot → slot.cursors = count b.receivers (b.head+i)
  atTail : b.atTail = count b.receivers b.tail
  bounds : ∀ key c, b.receivers.get? key = some c → b.head ≤ c ∧ c ≤ b.tail

/-- Moreover the head is as far as it can be. -/
structure Inv (b : Raw T) : Prop extends Counted b where
  front : ∀ slot, b.buffer.head? = some slot → slot.cursors ≠ 0

theorem new_inv (retention : Retention) : (new retention : Raw T).Inv where
  length := rfl
  tail_le := Nat.zero_le _
  slots := by simp [new]
  atTail := rfl
  bounds := by simp [new]
  front := by simp [new]

variable {receivers : Arena ℕ} {key : SlotId} {c i : ℕ} {x : Option ℕ} {b b' : Raw T}
    {buffer : List (Slot T)} {slot : Slot T} {msg : T}

theorem count_pos (h : receivers.get? key = some c) : 0 < count receivers c := by
  have hle := Arena.le_total (fun v => if v = c then 1 else 0) h
  simpa [count,Nat.succ_le_iff] using hle

theorem exists_of_count_pos {v : ℕ} (h : 0 < count receivers v) :
    ∃ key, receivers.get? key = some v := by
  obtain ⟨key,c,hc,hpos⟩ := Arena.exists_of_total_pos h
  by_cases hcv : c = v
  · exact ⟨key,by rw [hc,hcv]⟩
  · simp [hcv] at hpos

theorem count_update {receivers' : Arena ℕ}
    (h : receivers'.get? = Function.update receivers.get? key x) (v : ℕ) :
    count receivers' v + (if receivers.get? key = some v then 1 else 0) =
      count receivers v + if x = some v then 1 else 0 := by
  have hsum := Arena.total_update h fun c => if c = v then 1 else 0
  have helim (o : Option ℕ) : o.elim 0 (fun c => if c = v then 1 else 0) =
      if o = some v then 1 else 0 := by
    cases o <;> simp
  rw [helim,helim] at hsum
  exact hsum

theorem hasReceivers_iff (b : Raw T) :
    b.hasReceivers = true ↔ ∃ key c, b.receivers.get? key = some c := by
  have hempty := b.receivers.isEmpty_iff
  unfold hasReceivers
  cases he : b.receivers.isEmpty with
  | true =>
    have hnone := hempty.mp he
    simp [hnone]
  | false =>
    simp only [Bool.not_false,true_iff]
    by_contra hno
    have hall : ∀ id, b.receivers.get? id = none := by
      intro id
      cases hid : b.receivers.get? id with
      | none => rfl
      | some c => exact absurd ⟨id,c,hid⟩ hno
    rw [hempty.mpr hall] at he
    cases he

section

variable (h : b.Inv) (hr : b.hasReceivers = false)
include h hr

theorem Inv.buffer_nil : b.buffer = [] := by
  cases hb : b.buffer with
  | nil => rfl
  | cons slot rest =>
    have hne := h.front slot (by simp [hb])
    have hcount := h.slots 0 slot (by simp [hb])
    have hpos : 0 < count b.receivers (b.head+0) := by omega
    obtain ⟨key,hkey⟩ := exists_of_count_pos hpos
    have htrue := b.hasReceivers_iff.mpr ⟨key,_,hkey⟩
    rw [hr] at htrue
    cases htrue

theorem Inv.atTail_zero : b.atTail = 0 := by
  rw [h.atTail]
  by_contra hne
  obtain ⟨key,hkey⟩ := exists_of_count_pos (Nat.pos_of_ne_zero hne)
  have htrue := b.hasReceivers_iff.mpr ⟨key,_,hkey⟩
  rw [hr] at htrue
  cases htrue

theorem publishDiscarded_spec (ht : b.tail < u64Max) :
    ∃ b', b.publishDiscarded = .ok b' ∧ b'.Inv ∧ b'.tail = b.tail+1 ∧ b'.head = b.tail+1 ∧
      b'.receivers = b.receivers ∧ b'.buffer = [] := by
  have hbuffer := h.buffer_nil hr
  have hzero := h.atTail_zero hr
  have hnone (key : SlotId) (c : ℕ) : b.receivers.get? key ≠ some c := by
    intro hkey
    have htrue := b.hasReceivers_iff.mpr ⟨key,c,hkey⟩
    rw [hr] at htrue
    cases htrue
  refine ⟨{b with tail := b.tail+1,head := b.tail+1},?_,?_,rfl,rfl,rfl,hbuffer⟩
  · simp [publishDiscarded,hr,hbuffer,hzero,advanceTail,Nat.succ_le_of_lt ht,bind,Except.bind,
      pure,Except.pure]
  · refine ⟨⟨by simp [hbuffer],ht,by simp [hbuffer],?_,
      fun key c hkey => absurd hkey (hnone key c)⟩,by simp [hbuffer]⟩
    show b.atTail = b.receivers.total _
    rw [hzero]
    by_contra hne
    obtain ⟨key,c,hkey,-⟩ := Arena.exists_of_total_pos (Nat.pos_of_ne_zero (Ne.symm hne))
    exact hnone key c hkey

end

theorem publishRetained_spec (h : b.Inv) (hr : b.hasReceivers = true) (ht : b.tail < u64Max) (msg : T) :
    ∃ b', b.publishRetained msg = .ok b' ∧ b'.Inv ∧ b'.tail = b.tail+1 ∧ b'.head = b.head ∧
      b'.receivers = b.receivers ∧ b'.buffer = b.buffer++[⟨msg,b.atTail⟩] := by
  have hlength := h.length
  refine ⟨{b with
    tail := b.tail+1
    atTail := 0
    buffer := b.buffer++[⟨msg,b.atTail⟩]
    retention := recordPeak b.retention (b.buffer++[Slot.mk msg b.atTail]).length},?_,?_,rfl,rfl,rfl,rfl⟩
  · simp [publishRetained,hr,advanceTail,Nat.succ_le_of_lt ht,bind,Except.bind,pure,Except.pure]
  · have hnone : count b.receivers (b.tail+1) = 0 := by
      by_contra hne
      obtain ⟨key,hkey⟩ := exists_of_count_pos (Nat.pos_of_ne_zero hne)
      have hle := (h.bounds key _ hkey).2
      omega
    refine ⟨⟨?_,ht,?_,hnone.symm,?_⟩,?_⟩
    · simp only [List.length_append,List.length_singleton]
      omega
    · intro i slot hi
      rcases Table.getElem?_push hi with hi | ⟨rfl,rfl⟩
      · exact h.slots i slot hi
      · show b.atTail = count b.receivers (b.head+b.buffer.length)
        rw [hlength]
        exact h.atTail
    · intro key c hkey
      have hb := h.bounds key c hkey
      exact ⟨hb.1,Nat.le_succ_of_le hb.2⟩
    · intro slot hslot
      cases hb : b.buffer with
      | nil =>
        -- every cursor is at the tail, and there is one
        simp only [hb,List.nil_append,List.head?_cons,Option.some.injEq] at hslot
        subst hslot
        obtain ⟨key,c,hkey⟩ := b.hasReceivers_iff.mp hr
        have hbounds := h.bounds key c hkey
        simp only [hb,List.length_nil] at hlength
        have hc : c = b.tail := by omega
        have hpos := count_pos hkey
        rw [hc,← h.atTail] at hpos
        exact Nat.ne_of_gt hpos
      | cons front rest =>
        apply h.front
        simpa [hb] using hslot

theorem subscribe_spec (h : b.Inv) :
    b.subscribe.2.Inv ∧ b.receivers.get? b.subscribe.1 = none ∧
      b.subscribe.2.receivers.get? =
        Function.update b.receivers.get? b.subscribe.1 (some b.tail) ∧
      b.subscribe.2.buffer = b.buffer ∧ b.subscribe.2.head = b.head ∧
      b.subscribe.2.tail = b.tail := by
  obtain ⟨hfresh,hget⟩ := b.receivers.insert_spec b.tail
  have hcount (v : ℕ) : count b.subscribe.2.receivers v = count b.receivers v + if b.tail = v then 1 else 0 := by
    have hsum := count_update hget v
    simp only [hfresh,reduceCtorEq,if_false,Option.some.injEq] at hsum
    exact hsum
  refine ⟨⟨⟨h.length,h.tail_le,?_,?_,?_⟩,h.front⟩,hfresh,hget,rfl,rfl,rfl⟩
  · intro i slot hi
    have hlt : i < b.buffer.length := (List.getElem?_eq_some_iff.mp hi).1
    have hlength := h.length
    have hne : b.tail ≠ b.head+i := by omega
    show slot.cursors = count b.subscribe.2.receivers (b.head+i)
    rw [hcount,if_neg hne]
    exact h.slots i slot hi
  · show b.atTail+1 = count b.subscribe.2.receivers b.tail
    rw [hcount,if_pos rfl,h.atTail]
  · intro key c hkey
    rw [show b.subscribe.2.receivers.get? = _ from hget] at hkey
    by_cases hk : key = (b.receivers.insert b.tail).1
    · subst hk
      simp only [Function.update_self,Option.some.injEq] at hkey
      subst hkey
      have hlength := h.length
      exact ⟨by show b.head ≤ b.tail; omega,Nat.le_refl _⟩
    · rw [Function.update_of_ne hk] at hkey
      exact h.bounds key c hkey

theorem Counted.vacate (h : b.Counted) {k : ℕ} (hk : k ≤ b.buffer.length)
    (hzero : ∀ i slot, i < k → b.buffer[i]? = some slot → slot.cursors = 0) :
    Counted {b with buffer := b.buffer.drop k,head := b.head+k} where
  length := by
    have hlength := h.length
    simp only [List.length_drop]
    omega
  tail_le := h.tail_le
  slots i slot hi := by
    rw [List.getElem?_drop] at hi
    have hslot := h.slots (k+i) slot hi
    rwa [← Nat.add_assoc] at hslot
  atTail := h.atTail
  bounds key c hkey := by
    have hbounds := h.bounds key c hkey
    refine ⟨?_,hbounds.2⟩
    show b.head+k ≤ c
    by_contra hlt
    have hi : c-b.head < b.buffer.length := by omega
    have hslot := h.slots (c-b.head) _ (List.getElem?_eq_getElem hi)
    have hnone := hzero (c-b.head) _ (by omega) (List.getElem?_eq_getElem hi)
    have hpos : 0 < count b.receivers c := count_pos hkey
    rw [Nat.add_sub_cancel' hbounds.1] at hslot
    omega

theorem map_msg_set (h : buffer[i]? = some slot) (n : ℕ) :
    (buffer.set i {slot with cursors := n}).map Slot.msg = buffer.map Slot.msg := by
  rw [List.map_set]
  exact Table.set_self (by simp [h])

theorem dropCursor_eq (h : buffer[i]? = some slot) (hpos : 0 < slot.cursors) :
    dropCursor buffer i =
      .ok ({slot with cursors := slot.cursors-1},
        buffer.set i {slot with cursors := slot.cursors-1}) := by
  simp [dropCursor,h,Nat.ne_of_gt hpos]

theorem shrinkBuffer_eq (b : Raw T) : ∃ retention, b.shrinkBuffer = {b with retention := retention} := by
  unfold shrinkBuffer
  split
  · exact ⟨b.retention,rfl⟩
  · split
    · exact ⟨_,rfl⟩
    · exact ⟨b.retention,rfl⟩

theorem Counted.slotOf (h : b.Counted) (hkey : b.receivers.get? key = some c) (hlt : c < b.tail) :
    ∃ slot, b.buffer[c-b.head]? = some slot ∧ slot.cursors = count b.receivers c ∧ 0 < slot.cursors := by
  have hbounds := h.bounds key c hkey
  have hlength := h.length
  have hi : c-b.head < b.buffer.length := by omega
  have hslot := h.slots (c-b.head) _ (List.getElem?_eq_getElem hi)
  rw [Nat.add_sub_cancel' hbounds.1] at hslot
  have hpos := count_pos hkey
  exact ⟨_,List.getElem?_eq_getElem hi,hslot,by omega⟩

theorem Counted.leave (h : b.Counted) {atTail : ℕ} (hkey : b.receivers.get? key = some c)
    (hlt : c < b.tail) (hget : receivers.get? = Function.update b.receivers.get? key x)
    (hx : ∀ v, x = some v → v = c+1) (hlength : buffer.length = b.buffer.length)
    (hslots : ∀ i slot, buffer[i]? = some slot →
      slot.cursors = count b.receivers (b.head+i) + if x = some (b.head+i) then 1 else 0)
    (hatTail : atTail = count b.receivers b.tail + if x = some b.tail then 1 else 0)
    (hslot : buffer[c-b.head]? = some slot) :
    Counted {b with
      receivers := receivers
      atTail := atTail
      buffer := buffer.set (c-b.head) {slot with cursors := slot.cursors-1}} := by
  have hbounds := h.bounds key c hkey
  have hcount (v : ℕ) : count receivers v + (if c = v then 1 else 0) =
      count b.receivers v + if x = some v then 1 else 0 := by
    have hsum := count_update hget v
    simpa [hkey] using hsum
  refine ⟨by simpa [hlength] using h.length,h.tail_le,?_,?_,?_⟩
  · intro i other hi
    show other.cursors = count receivers (b.head+i)
    have hv := hcount (b.head+i)
    rcases Table.getElem?_set_cases hi with ⟨rfl,rfl⟩ | ⟨hne,hi⟩
    · have hold := hslots (c-b.head) slot hslot
      simp only
      rw [if_pos (by omega)] at hv
      omega
    · have hold := hslots i other hi
      rw [if_neg (by omega)] at hv
      omega
  · show atTail = count receivers b.tail
    have hv := hcount b.tail
    rw [if_neg (by omega)] at hv
    omega
  · intro key' c' hkey'
    rw [show receivers.get? = _ from hget] at hkey'
    by_cases hk : key' = key
    · subst hk
      rw [Function.update_self] at hkey'
      have hc' := hx c' hkey'
      exact ⟨by show b.head ≤ c'; omega,by show c' ≤ b.tail; omega⟩
    · rw [Function.update_of_ne hk] at hkey'
      exact h.bounds key' c' hkey'

theorem takeWhile_zero (h : i < (buffer.takeWhile fun slot => slot.cursors == 0).length)
    (hi : buffer[i]? = some slot) : slot.cursors = 0 := by
  induction buffer generalizing i with
  | nil => simp at hi
  | cons first rest ih =>
    by_cases hz : first.cursors = 0
    · cases i with
      | zero =>
        simp only [List.getElem?_cons_zero,Option.some.injEq] at hi
        rwa [← hi]
      | succ i =>
        apply ih _ (by simpa using hi)
        simpa [List.takeWhile_cons,hz] using h
    · simp [hz] at h

theorem drop_takeWhile_head
    (h : (buffer.drop (buffer.takeWhile fun slot => slot.cursors == 0).length).head? = some slot) :
    slot.cursors ≠ 0 := by
  induction buffer with
  | nil => simp at h
  | cons first rest ih =>
    by_cases hz : first.cursors = 0
    · apply ih
      simpa [List.takeWhile_cons,hz] using h
    · simp only [List.takeWhile_cons,beq_iff_eq,hz,if_false,List.length_nil,List.drop_zero,
        List.head?_cons,Option.some.injEq] at h
      rwa [← h]

/-- What removing a receiver gives back: the messages between the old and the new head. -/
structure Removed (b : Raw T) (key : SlotId) (r : Reclaimed T) (b' : Raw T) : Prop where
  inv : b'.Inv
  receivers : b'.receivers.get? = Function.update b.receivers.get? key none
  tail : b'.tail = b.tail
  head : b'.head = b.head+r.len
  messages : b.buffer.map Slot.msg = r.messages++b'.buffer.map Slot.msg

theorem reclaimVacated_spec (h : b.Counted) (hfront : b.buffer.head? = some slot)
    (hzero : slot.cursors = 0) :
    ∃ r b', b.reclaimVacated = .ok (r,b') ∧ b'.Inv ∧ b'.receivers = b.receivers ∧
      b'.tail = b.tail ∧ b'.head = b.head+r.len ∧
      b.buffer.map Slot.msg = r.messages++b'.buffer.map Slot.msg := by
  obtain ⟨rest,hbuffer⟩ : ∃ rest, b.buffer = slot::rest := by
    cases hb : b.buffer with
    | nil => simp [hb] at hfront
    | cons first rest =>
      simp only [hb,List.head?_cons,Option.some.injEq] at hfront
      exact ⟨rest,by rw [hfront]⟩
  let extra := (rest.takeWhile fun slot => slot.cursors == 0).length
  have hextra : extra ≤ rest.length := (List.takeWhile_sublist _).length_le
  let r : Reclaimed T := ⟨some slot.msg,(rest.take extra).map Slot.msg⟩
  have hlen : r.len = 1+extra := by
    simp [r,Reclaimed.len,Nat.min_eq_left hextra]
  have hdrop : rest.drop extra = b.buffer.drop r.len := by
    rw [hbuffer,hlen,Nat.add_comm,List.drop_succ_cons]
  have hcounted := h.vacate (k := r.len)
    (by rw [hlen,hbuffer,List.length_cons]; omega) (by
      intro i other hi hother
      rw [hlen] at hi
      rw [hbuffer] at hother
      cases i with
      | zero =>
        simp only [List.getElem?_cons_zero,Option.some.injEq] at hother
        rw [← hother]
        exact hzero
      | succ i =>
        exact takeWhile_zero (show i < extra by omega) (by simpa using hother))
  obtain ⟨retention,hshrink⟩ :=
    shrinkBuffer_eq {b with buffer := rest.drop extra,head := b.head+r.len}
  refine ⟨r,{b with buffer := rest.drop extra,head := b.head+r.len,retention := retention},
    ?_,⟨?_,?_⟩,rfl,rfl,rfl,?_⟩
  · have hle : b.head+r.len ≤ b.tail := by
      have hlength := h.length
      rw [hbuffer,List.length_cons] at hlength
      omega
    simp only [reclaimVacated,hbuffer,List.head?_cons,Option.any_some,hzero,BEq.rfl,Bool.true_eq_false,
      if_false,List.tail_cons,Option.map_some]
    rw [if_pos hle,hshrink]
  · rw [hdrop]
    exact ⟨hcounted.length,hcounted.tail_le,hcounted.slots,hcounted.atTail,hcounted.bounds⟩
  · intro other hother
    exact drop_takeWhile_head hother
  · rw [hbuffer]
    show slot.msg::rest.map Slot.msg = _
    simp only [r,Reclaimed.messages,Option.toList_some,List.cons_append,List.nil_append,
      List.cons.injEq,true_and]
    rw [← List.map_append,List.take_append_drop]

theorem removeReceiver_spec (h : b.Inv) (hkey : b.receivers.get? key = some c) :
    ∃ r b', b.removeReceiver key = .ok (r,b') ∧ Removed b key r b' := by
  obtain ⟨receivers,hremove,hget⟩ := Arena.remove_spec hkey
  have hbounds := h.bounds key c hkey
  by_cases htail : c = b.tail
  · have hpos : 1 ≤ b.atTail := by
      rw [h.atTail,← htail]
      exact count_pos hkey
    have hcount (v : ℕ) : count receivers v + (if c = v then 1 else 0) = count b.receivers v := by
      have hsum := count_update hget v
      simpa [hkey] using hsum
    refine ⟨.empty,{b with receivers := receivers,atTail := b.atTail-1},?_,?_⟩
    · simp [removeReceiver,hremove,htail,Checked.sub,hpos,bind,Except.bind,pure,Except.pure]
    · refine ⟨⟨⟨h.length,h.tail_le,?_,?_,?_⟩,h.front⟩,hget,rfl,rfl,rfl⟩
      · intro i slot hi
        have hlt : i < b.buffer.length := (List.getElem?_eq_some_iff.mp hi).1
        have hlength := h.length
        have hv := hcount (b.head+i)
        rw [if_neg (by omega),Nat.add_zero] at hv
        show slot.cursors = count receivers (b.head+i)
        rw [hv]
        exact h.slots i slot hi
      · have hv := hcount b.tail
        rw [if_pos htail,← h.atTail] at hv
        show b.atTail-1 = count receivers b.tail
        omega
      · intro key' c' hkey'
        rw [show receivers.get? = _ from hget] at hkey'
        by_cases hk : key' = key
        · subst hk
          simp at hkey'
        · rw [Function.update_of_ne hk] at hkey'
          exact h.bounds key' c' hkey'
  · have hlt : c < b.tail := by omega
    obtain ⟨slot,hslot,hcursors,hpos⟩ := h.slotOf hkey hlt
    let b₁ : Raw T := {b with
      receivers := receivers
      buffer := b.buffer.set (c-b.head) {slot with cursors := slot.cursors-1}}
    have hcounted : b₁.Counted := h.leave hkey hlt hget nofun rfl
      (fun i slot hi => by simpa using h.slots i slot hi) (by simpa using h.atTail) hslot
    have hmessages : b₁.buffer.map Slot.msg = b.buffer.map Slot.msg := map_msg_set hslot _
    have hrun : b.removeReceiver key =
        if c-b.head = 0 ∧ slot.cursors-1 = 0 then b₁.reclaimVacated else .ok (.empty,b₁) := by
      simp [removeReceiver,hremove,htail,Checked.sub,hbounds.1,dropCursor_eq hslot hpos,bind,
        Except.bind,pure,Except.pure,b₁]
    by_cases hvacated : c-b.head = 0 ∧ slot.cursors-1 = 0
    · have hfront : b₁.buffer.head? = some {slot with cursors := slot.cursors-1} := by
        rw [List.head?_eq_getElem?]
        have hself : b₁.buffer[c-b.head]? = some {slot with cursors := slot.cursors-1} :=
          Table.getElem?_set_self' hslot _
        rwa [hvacated.1] at hself
      obtain ⟨r,b',hreclaim,hinv,hreceivers,htail',hhead,hsplit⟩ :=
        reclaimVacated_spec hcounted hfront hvacated.2
      refine ⟨r,b',by rw [hrun,if_pos hvacated,hreclaim],hinv,?_,htail',hhead,?_⟩
      · rw [hreceivers]
        exact hget
      · rw [← hmessages]
        exact hsplit
    · refine ⟨.empty,b₁,by rw [hrun,if_neg hvacated],⟨hcounted,?_⟩,hget,rfl,rfl,?_⟩
      · intro other hother
        rw [List.head?_eq_getElem?] at hother
        rcases Table.getElem?_set_cases hother with ⟨hzero,rfl⟩ | ⟨-,hold⟩
        · intro hcursors
          exact hvacated ⟨hzero.symm,hcursors⟩
        · exact h.front other (by rw [List.head?_eq_getElem?]; exact hold)
      · exact hmessages.symm

structure Delivered (b : Raw T) (key : SlotId) (c : ℕ) (r : Received T) (b' : Raw T) : Prop where
  inv : b'.Inv
  receivers : b'.receivers.get? = Function.update b.receivers.get? key (some (c+1))
  tail : b'.tail = b.tail
  head : b'.head = b.head+r.reclaimed.toNat
  msg : (b.buffer.map Slot.msg)[c-b.head]? = some r.msg
  messages : b'.buffer.map Slot.msg = (b.buffer.map Slot.msg).drop r.reclaimed.toNat

theorem receive_tail (hkey : b.receivers.get? key = some c) (htail : b.tail ≤ c) :
    b.receive key = .ok (none,b) := by
  simp [receive,hkey,htail]

theorem countNext_spec (h : b.Counted) (hhead : b.head ≤ c) (hlt : c < b.tail) :
    ∃ atTail buffer, b.countNext c = .ok (atTail,buffer) ∧
      buffer.length = b.buffer.length ∧ buffer.map Slot.msg = b.buffer.map Slot.msg ∧
      (∀ i slot, buffer[i]? = some slot → slot.cursors =
        count b.receivers (b.head+i) + if some (c+1) = some (b.head+i) then 1 else 0) ∧
      atTail = count b.receivers b.tail + if some (c+1) = some b.tail then 1 else 0 := by
  have hlength := h.length
  unfold countNext
  by_cases hlast : c+1 = b.tail
  · refine ⟨b.atTail+1,b.buffer,by rw [if_pos hlast],rfl,rfl,?_,?_⟩
    · intro i slot hi
      have hlt : i < b.buffer.length := (List.getElem?_eq_some_iff.mp hi).1
      rw [if_neg (by simp only [Option.some.injEq]; omega)]
      exact h.slots i slot hi
    · rw [if_pos (by rw [hlast]),h.atTail]
  · have hi : c-b.head+1 < b.buffer.length := by omega
    have hslot := List.getElem?_eq_getElem hi
    refine ⟨b.atTail,_,by rw [if_neg hlast,addCursor,hslot]; rfl,by simp,map_msg_set hslot _,?_,?_⟩
    · intro i slot hslot'
      rcases Table.getElem?_set_cases hslot' with ⟨rfl,rfl⟩ | ⟨hne,hold⟩
      · have hcursors := h.slots _ _ hslot
        rw [if_pos (by simp only [Option.some.injEq]; omega)]
        simp only
        omega
      · rw [if_neg (by simp only [Option.some.injEq]; omega)]
        exact h.slots i slot hold
    · rw [if_neg (by simpa using hlast),h.atTail]
      rfl

/-- When the cursor leaves the head for the last time, the next slot has a cursor. -/
theorem takeMessage_spec (h : b.Counted) {offset : ℕ} (hslot : b.buffer[offset]? = some slot)
    (hfront : offset ≠ 0 → ∀ slot, b.buffer.head? = some slot → slot.cursors ≠ 0)
    (hnext : ∀ slot, b.buffer[offset+1]? = some slot → slot.cursors ≠ 0) :
    ∃ r b', b.takeMessage offset slot = .ok (some r,b') ∧ b'.Inv ∧ b'.receivers = b.receivers ∧
      b'.tail = b.tail ∧ b'.head = b.head+r.reclaimed.toNat ∧ r.msg = slot.msg ∧
      b'.buffer.map Slot.msg = (b.buffer.map Slot.msg).drop r.reclaimed.toNat := by
  unfold takeMessage
  by_cases hvacated : offset = 0 ∧ slot.cursors = 0
  · obtain ⟨rfl,hzero⟩ := hvacated
    cases hbuffer : b.buffer with
    | nil => simp [hbuffer] at hslot
    | cons front rest =>
      rw [hbuffer] at hslot hnext
      simp only [List.getElem?_cons_zero,Option.some.injEq] at hslot
      subst hslot
      have hcounted := h.vacate (k := 1) (by simp [hbuffer]) (by
        intro i other hi hother
        have hi : i = 0 := by omega
        subst hi
        simp only [hbuffer,List.getElem?_cons_zero,Option.some.injEq] at hother
        rw [← hother]
        exact hzero)
      simp only [hbuffer,List.drop_succ_cons,List.drop_zero] at hcounted
      have hle : b.head+1 ≤ b.tail := by
        have hlength := hcounted.length
        simp only at hlength
        omega
      obtain ⟨retention,hshrink⟩ := shrinkBuffer_eq {b with buffer := rest,head := b.head+1}
      refine ⟨⟨front.msg,true⟩,{b with buffer := rest,head := b.head+1,retention := retention},
        ?_,⟨⟨hcounted.length,hcounted.tail_le,hcounted.slots,hcounted.atTail,hcounted.bounds⟩,?_⟩,
        rfl,rfl,rfl,rfl,by simp⟩
      · rw [if_pos ⟨rfl,hzero⟩]
        simp only [if_pos hle]
        rw [hshrink]
      · intro other hother
        apply hnext
        rwa [List.getElem?_cons_succ,← List.head?_eq_getElem?]
  · refine ⟨⟨slot.msg,false⟩,b,by rw [if_neg hvacated],⟨h,?_⟩,rfl,rfl,rfl,rfl,rfl⟩
    intro other hother
    by_cases hoffset : offset = 0
    · subst hoffset
      rw [List.head?_eq_getElem?,hslot,Option.some.injEq] at hother
      subst hother
      exact fun hzero => hvacated ⟨rfl,hzero⟩
    · exact hfront hoffset other hother

theorem receive_spec (h : b.Inv) (hkey : b.receivers.get? key = some c) (hlt : c < b.tail) :
    ∃ r b', b.receive key = .ok (some r,b') ∧ Delivered b key c r b' := by
  have hbounds := h.bounds key c hkey
  have hlength := h.length
  have hget := Arena.get?_set hkey (c+1)
  obtain ⟨atTail,buffer,hcount,hlen,hmsg,hslots,hatTail⟩ := countNext_spec h.toCounted hbounds.1 hlt
  have hi : c-b.head < buffer.length := by omega
  obtain ⟨slot,hslot⟩ : ∃ slot, buffer[c-b.head]? = some slot := ⟨_,List.getElem?_eq_getElem hi⟩
  have hpos : 0 < slot.cursors := by
    have hc := hslots _ slot hslot
    have hp := count_pos hkey
    rw [Nat.add_sub_cancel' hbounds.1] at hc
    omega
  let b₁ : Raw T := {b with
    receivers := b.receivers.set key (c+1)
    atTail := atTail
    buffer := buffer.set (c-b.head) {slot with cursors := slot.cursors-1}}
  have hcounted : b₁.Counted := h.leave hkey hlt hget
    (fun v hv => (Option.some.inj hv).symm) hlen hslots hatTail hslot
  have hmessages : b₁.buffer.map Slot.msg = b.buffer.map Slot.msg := (map_msg_set hslot _).trans hmsg
  have hread : (b.buffer.map Slot.msg)[c-b.head]? = some slot.msg := by
    rw [← hmsg]
    simp [hslot]
  have hrun : b.receive key =
      b₁.takeMessage (c-b.head) {slot with cursors := slot.cursors-1} := by
    simp only [receive,hkey,Nat.not_le.mpr hlt,if_false,Nat.not_lt.mpr hbounds.1,hcount,bind,
      Except.bind,dropCursor_eq hslot hpos]
    rfl
  have hself : b₁.buffer[c-b.head]? = some {slot with cursors := slot.cursors-1} :=
    Table.getElem?_set_self' hslot _
  obtain ⟨r,b',htake,hinv,hreceivers,htail,hhead,hr,hrest⟩ := takeMessage_spec hcounted hself
    (by
      intro hoffset other hother
      rw [List.head?_eq_getElem?] at hother
      rcases Table.getElem?_set_cases hother with ⟨hzero,-⟩ | ⟨-,hold⟩
      · exact absurd hzero.symm hoffset
      · -- the head slot still counts what it counted before
        have h0 : 0 < b.buffer.length := by omega
        have hc := hslots 0 other hold
        have hold' := h.slots 0 _ (List.getElem?_eq_getElem h0)
        have hne := h.front _ (by rw [List.head?_eq_getElem?]; exact List.getElem?_eq_getElem h0)
        omega)
    (by
      intro other hother
      rcases Table.getElem?_set_cases hother with ⟨hzero,-⟩ | ⟨-,hold⟩
      · omega
      · have hc := hslots _ other hold
        rw [if_pos (by simp only [Option.some.injEq]; omega)] at hc
        omega)
  refine ⟨r,b',hrun.trans htake,hinv,?_,htail,hhead,by rw [hr]; exact hread,?_⟩
  · rw [hreceivers]
    exact hget
  · rw [hrest,hmessages]

/-- A publication that does not panic found a receiver and room in the counter. -/
theorem publishRetained_cases (hok : b.publishRetained msg = .ok b') :
    b.hasReceivers = true ∧ b.tail < u64Max := by
  cases hr : b.hasReceivers with
  | false => simp [publishRetained,hr] at hok
  | true =>
    refine ⟨rfl,?_⟩
    by_contra ht
    have herr : b.advanceTail = .error "broadcast channel version counter overflowed" :=
      if_neg (by omega)
    simp [publishRetained,hr,herr,bind,Except.bind] at hok

theorem publishDiscarded_cases (h : b.Inv) (hok : b.publishDiscarded = .ok b') :
    b.hasReceivers = false ∧ b.tail < u64Max := by
  cases hr : b.hasReceivers with
  | true => simp [publishDiscarded,hr] at hok
  | false =>
    refine ⟨rfl,?_⟩
    by_contra ht
    have herr : b.advanceTail = .error "broadcast channel version counter overflowed" :=
      if_neg (by omega)
    simp [publishDiscarded,hr,h.buffer_nil hr,h.atTail_zero hr,herr,bind,Except.bind] at hok

theorem publishRetained_ok (h : b.Inv) (hok : b.publishRetained msg = .ok b') : b'.Inv := by
  obtain ⟨hr,ht⟩ := publishRetained_cases hok
  obtain ⟨b₁,hrun,hinv,-⟩ := publishRetained_spec h hr ht msg
  cases hrun.symm.trans hok
  exact hinv

theorem publishDiscarded_ok (h : b.Inv) (hok : b.publishDiscarded = .ok b') : b'.Inv := by
  obtain ⟨hr,ht⟩ := publishDiscarded_cases h hok
  obtain ⟨b₁,hrun,hinv,-⟩ := publishDiscarded_spec h hr ht
  cases hrun.symm.trans hok
  exact hinv

theorem removeReceiver_ok (h : b.Inv) {r : Reclaimed T} (hok : b.removeReceiver key = .ok (r,b')) :
    b'.Inv := by
  cases hkey : b.receivers.get? key with
  | none =>
    obtain ⟨message,hm⟩ := Arena.Raw.remove_panic hkey
    simp [removeReceiver,Arena.remove,hm,Except.map,bind,Except.bind] at hok
  | some c =>
    obtain ⟨r₁,b₁,hrun,hremoved⟩ := removeReceiver_spec h hkey
    cases hrun.symm.trans hok
    exact hremoved.inv

theorem receive_ok (h : b.Inv) {r : Option (Received T)} (hok : b.receive key = .ok (r,b')) :
    b'.Inv := by
  cases hkey : b.receivers.get? key with
  | none => simp [receive,hkey] at hok
  | some c =>
    rcases Nat.lt_or_ge c b.tail with hlt | hge
    · obtain ⟨r₁,b₁,hrun,hdelivered⟩ := receive_spec h hkey hlt
      cases hrun.symm.trans hok
      exact hdelivered.inv
    · cases (receive_tail hkey hge).symm.trans hok
      exact h

end Raw
end Backlog

structure Backlog (T : Type) where
  raw : Backlog.Raw T
  inv : raw.Inv

namespace Backlog

variable {T : Type} {b b' : Backlog T} {key : SlotId} {c : ℕ} {msg : T}

def elastic : Backlog T := ⟨.new (.elastic 0),Raw.new_inv _⟩

def fixed : Backlog T := ⟨.new .fixed,Raw.new_inv _⟩

def retained (b : Backlog T) : ℕ := b.raw.retained

def hasReceivers (b : Backlog T) : Bool := b.raw.hasReceivers

def cursor (b : Backlog T) (key : SlotId) : Option ℕ := b.raw.receivers.get? key

def publishRetained (b : Backlog T) (msg : T) : Except String (Backlog T) :=
  match h : b.raw.publishRetained msg with
  | .ok raw => .ok ⟨raw,Raw.publishRetained_ok b.inv h⟩
  | .error message => .error message

def publishDiscarded (b : Backlog T) : Except String (Backlog T) :=
  match h : b.raw.publishDiscarded with
  | .ok raw => .ok ⟨raw,Raw.publishDiscarded_ok b.inv h⟩
  | .error message => .error message

/-- The message comes back when no subscription can read it. -/
def publish (b : Backlog T) (msg : T) : Except String (Option T × Backlog T) :=
  if b.hasReceivers then (b.publishRetained msg).map (none,·)
  else b.publishDiscarded.map (some msg,·)

def subscribe (b : Backlog T) : SlotId × Backlog T :=
  (b.raw.subscribe.1,⟨b.raw.subscribe.2,(Raw.subscribe_spec b.inv).1⟩)

def removeReceiver (b : Backlog T) (key : SlotId) : Except String (Reclaimed T × Backlog T) :=
  match h : b.raw.removeReceiver key with
  | .ok (r,raw) => .ok (r,⟨raw,Raw.removeReceiver_ok b.inv h⟩)
  | .error message => .error message

def receive (b : Backlog T) (key : SlotId) : Except String (Option (Received T) × Backlog T) :=
  match h : b.raw.receive key with
  | .ok (r,raw) => .ok (r,⟨raw,Raw.receive_ok b.inv h⟩)
  | .error message => .error message

def messages (b : Backlog T) : List T := b.raw.buffer.map Slot.msg

def head (b : Backlog T) : ℕ := b.raw.head

def tail (b : Backlog T) : ℕ := b.raw.tail

theorem messages_length (b : Backlog T) : b.messages.length = b.retained := by
  simp [messages,retained,Raw.retained]

theorem head_add_retained (b : Backlog T) : b.head+b.retained = b.tail := b.inv.length

theorem cursor_bounds (h : b.cursor key = some c) : b.head ≤ c ∧ c ≤ b.tail := b.inv.bounds key c h

theorem hasReceivers_iff (b : Backlog T) :
    b.hasReceivers = true ↔ ∃ key c, b.cursor key = some c := b.raw.hasReceivers_iff

theorem head_attained (b : Backlog T) (h : b.hasReceivers = true) :
    ∃ key, b.cursor key = some b.head := by
  have hlength := b.inv.length
  cases hb : b.raw.buffer with
  | nil =>
    obtain ⟨key,c,hkey⟩ := b.hasReceivers_iff.mp h
    have hbounds := b.inv.bounds key c hkey
    rw [hb,List.length_nil] at hlength
    have hc : c = b.raw.head := by omega
    exact ⟨key,by rw [hkey,hc]; rfl⟩
  | cons slot rest =>
    have hne := b.inv.front slot (by simp [hb])
    have hcount := b.inv.slots 0 slot (by simp [hb])
    rw [Nat.add_zero] at hcount
    have hpos : 0 < Raw.count b.raw.receivers b.raw.head := by omega
    exact Raw.exists_of_count_pos hpos

theorem retained_eq_zero (b : Backlog T) (h : b.hasReceivers = false) : b.retained = 0 := by
  rw [retained,Raw.retained,b.inv.buffer_nil h,List.length_nil]

theorem publishRetained_spec (b : Backlog T) (hr : b.hasReceivers = true) (ht : b.tail < u64Max)
    (msg : T) :
    ∃ b', b.publishRetained msg = .ok b' ∧ b'.tail = b.tail+1 ∧ b'.head = b.head ∧
      b'.cursor = b.cursor ∧ b'.messages = b.messages++[msg] := by
  obtain ⟨raw,hrun,-,htail,hhead,hreceivers,hbuffer⟩ := Raw.publishRetained_spec b.inv hr ht msg
  unfold publishRetained
  split
  · next raw' h =>
    cases hrun.symm.trans h
    exact ⟨_,rfl,htail,hhead,by funext key; simp [cursor,hreceivers],by simp [messages,hbuffer]⟩
  · next message h => cases hrun.symm.trans h

theorem publishDiscarded_spec (b : Backlog T) (hr : b.hasReceivers = false)
    (ht : b.tail < u64Max) :
    ∃ b', b.publishDiscarded = .ok b' ∧ b'.tail = b.tail+1 ∧ b'.head = b.tail+1 ∧
      b'.cursor = b.cursor ∧ b'.messages = [] := by
  obtain ⟨raw,hrun,-,htail,hhead,hreceivers,hbuffer⟩ := Raw.publishDiscarded_spec b.inv hr ht
  unfold publishDiscarded
  split
  · next raw' h =>
    cases hrun.symm.trans h
    exact ⟨_,rfl,htail,hhead,by funext key; simp [cursor,hreceivers],by simp [messages,hbuffer]⟩
  · next message h => cases hrun.symm.trans h

theorem subscribe_spec (b : Backlog T) :
    b.cursor b.subscribe.1 = none ∧
      b.subscribe.2.cursor = Function.update b.cursor b.subscribe.1 (some b.tail) ∧
      b.subscribe.2.messages = b.messages ∧ b.subscribe.2.head = b.head ∧
      b.subscribe.2.tail = b.tail := by
  obtain ⟨-,hfresh,hget,hbuffer,hhead,htail⟩ := Raw.subscribe_spec b.inv
  exact ⟨hfresh,hget,congrArg (List.map Slot.msg) hbuffer,hhead,htail⟩

theorem removeReceiver_spec (b : Backlog T) (h : b.cursor key = some c) :
    ∃ r b', b.removeReceiver key = .ok (r,b') ∧ b'.cursor = Function.update b.cursor key none ∧
      b'.tail = b.tail ∧ b'.head = b.head+r.len ∧ b.messages = r.messages++b'.messages := by
  obtain ⟨r,raw,hrun,hremoved⟩ := Raw.removeReceiver_spec b.inv h
  unfold removeReceiver
  split
  · next r' raw' h' =>
    cases hrun.symm.trans h'
    exact ⟨_,_,rfl,hremoved.receivers,hremoved.tail,hremoved.head,hremoved.messages⟩
  · next message h' => cases hrun.symm.trans h'

theorem receive_none (b : Backlog T) (h : b.cursor key = some b.tail) :
    b.receive key = .ok (none,b) := by
  have hrun := Raw.receive_tail h (Nat.le_refl _)
  unfold receive
  split
  · next r raw h' =>
    cases hrun.symm.trans h'
    rfl
  · next message h' => cases hrun.symm.trans h'

theorem receive_spec (b : Backlog T) (h : b.cursor key = some c) (hlt : c < b.tail) :
    ∃ r b', b.receive key = .ok (some r,b') ∧
      b'.cursor = Function.update b.cursor key (some (c+1)) ∧ b'.tail = b.tail ∧
      b'.head = b.head+r.reclaimed.toNat ∧ b.messages[c-b.head]? = some r.msg ∧
      b'.messages = b.messages.drop r.reclaimed.toNat := by
  obtain ⟨r,raw,hrun,hd⟩ := Raw.receive_spec b.inv h hlt
  unfold receive
  split
  · next r' raw' h' =>
    cases hrun.symm.trans h'
    exact ⟨_,_,rfl,hd.receivers,hd.tail,hd.head,hd.msg,hd.messages⟩
  · next message h' => cases hrun.symm.trans h'

theorem hasReceivers_of_cursor (h : b'.cursor = b.cursor) : b'.hasReceivers = b.hasReceivers := by
  rw [Bool.eq_iff_iff,hasReceivers_iff,hasReceivers_iff,h]

theorem publishRetained_error {message : String} (hr : b.hasReceivers = true)
    (h : b.publishRetained msg = .error message) : u64Max ≤ b.tail := by
  by_contra ht
  obtain ⟨b',hrun,-⟩ := b.publishRetained_spec hr (by omega) msg
  cases hrun.symm.trans h

theorem publishRetained_retained (h : b.publishRetained msg = .ok b') :
    b'.retained = b.retained+1 ∧ b'.hasReceivers = b.hasReceivers ∧ b.tail ≤ b'.tail := by
  have hcases : b.hasReceivers = true ∧ b.tail < u64Max := by
    unfold publishRetained at h
    split at h
    · next raw hraw => exact Raw.publishRetained_cases hraw
    · cases h
  obtain ⟨b₁,hrun,htail,-,hcursor,hmessages⟩ := b.publishRetained_spec hcases.1 hcases.2 msg
  cases hrun.symm.trans h
  refine ⟨?_,hasReceivers_of_cursor hcursor,by omega⟩
  rw [← messages_length,← messages_length,hmessages,List.length_append,List.length_singleton]

theorem publishDiscarded_retained (h : b.publishDiscarded = .ok b') :
    b'.retained = 0 ∧ b'.hasReceivers = b.hasReceivers ∧ b.tail ≤ b'.tail := by
  have hcases : b.hasReceivers = false ∧ b.tail < u64Max := by
    unfold publishDiscarded at h
    split at h
    · next raw hraw => exact Raw.publishDiscarded_cases b.inv hraw
    · cases h
  obtain ⟨b₁,hrun,htail,-,hcursor,hmessages⟩ := b.publishDiscarded_spec hcases.1 hcases.2
  cases hrun.symm.trans h
  refine ⟨?_,hasReceivers_of_cursor hcursor,by omega⟩
  rw [← messages_length,hmessages,List.length_nil]

theorem subscribe_retained (b : Backlog T) :
    b.subscribe.2.retained = b.retained ∧ b.subscribe.2.hasReceivers = true ∧
      b.subscribe.2.tail = b.tail := by
  obtain ⟨-,hcursor,hmessages,-,htail⟩ := b.subscribe_spec
  refine ⟨by rw [← messages_length,hmessages,messages_length],?_,htail⟩
  exact b.subscribe.2.hasReceivers_iff.mpr ⟨b.subscribe.1,b.tail,by simp [hcursor]⟩

theorem removeReceiver_retained {r : Reclaimed T} (hkey : (b.cursor key).isSome = true)
    (h : b.removeReceiver key = .ok (r,b')) : b'.retained+r.len = b.retained ∧ b'.tail = b.tail := by
  obtain ⟨c,hc⟩ := Option.isSome_iff_exists.mp hkey
  obtain ⟨r₁,b₁,hrun,-,htail,hhead,-⟩ := b.removeReceiver_spec hc
  cases hrun.symm.trans h
  have hlength := b.head_add_retained
  have hlength' := b'.head_add_retained
  exact ⟨by omega,htail⟩

theorem receive_retained {r : Option (Received T)} (hkey : (b.cursor key).isSome = true)
    (h : b.receive key = .ok (r,b')) :
    b'.retained+r.elim 0 (fun r => r.reclaimed.toNat) = b.retained ∧
      b'.hasReceivers = b.hasReceivers ∧ b'.tail = b.tail := by
  obtain ⟨c,hc⟩ := Option.isSome_iff_exists.mp hkey
  rcases Nat.lt_or_ge c b.tail with hlt | hge
  · obtain ⟨r₁,b₁,hrun,hcursor,htail,hhead,-⟩ := b.receive_spec hc hlt
    cases hrun.symm.trans h
    have hlength := b.head_add_retained
    have hlength' := b'.head_add_retained
    refine ⟨?_,?_,htail⟩
    · show b'.retained+r₁.reclaimed.toNat = b.retained
      omega
    · have hb : b.hasReceivers = true := b.hasReceivers_iff.mpr ⟨key,c,hc⟩
      rw [hb]
      exact b'.hasReceivers_iff.mpr ⟨key,c+1,by simp [hcursor]⟩
  · have htail : c = b.tail := Nat.le_antisymm (cursor_bounds hc).2 hge
    subst htail
    cases (b.receive_none hc).symm.trans h
    exact ⟨rfl,rfl,rfl⟩

end Backlog
end Asyncband
