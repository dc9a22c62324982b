import Asyncband.Table
import Asyncband.Transition
import Mathlib.Data.List.Nodup
import Mathlib.Data.List.Range
import Mathlib.Data.List.ReduceOption

/-! The batch of wakers that a release collects and wakes.
The inline slots are memory that may be uninitialized: a slot keeps its bytes after the waker
was moved out of it, and whether it may be read again is up to `inline_len`. A read of a slot
that was never written is a fault. -/
namespace Asyncband
namespace WakerBatch

def stackSize : ℕ := 32

structure Entry (W : Type) where
  /-- Ghost: wakers are numbered in the order in which they were pushed. -/
  id : ℕ
  waker : W

inductive Event
  | woken (id : ℕ) | dropped (id : ℕ)
  deriving DecidableEq

def Event.id : Event → ℕ
  | .woken id => id
  | .dropped id => id

structure State (W : Type) where
  inline : List (Option (Entry W))
  inlineLen : ℕ
  spilled : List (Entry W)
  /-- Ghost: the number of pushed wakers. -/
  pushed : ℕ
  /-- Ghost: the inline slots that were written since the last `wake_all`. -/
  written : List ℕ
  /-- Ghost: the inline slots that the latest operation read or dropped. -/
  touched : List ℕ
  /-- Ghost: what happened to the wakers. -/
  log : List Event
  gone : Bool
  fault : Option String

def new (W : Type) : State W := ⟨.replicate stackSize none,0,[],0,[],[],[],false,none⟩

/-- The loop of `wake_all`. The call of `wake` that panics is `fuse` calls away. -/
structure Pass where
  touched : List ℕ
  log : List Event
  fuse : Option ℕ
  panicked : Bool

def Pass.wake (p : Pass) (id : ℕ) : Pass :=
  {p with log := p.log++[.woken id],fuse := p.fuse.map Nat.pred,panicked := p.fuse = some 0}

def uninitialized : String := "read of an uninitialized slot"

namespace State

variable {W : Type}

def willSpill (s : State W) : Bool := s.inlineLen = stackSize

def push (s : State W) (waker : W) : Except String (State W) :=
  let entry : Entry W := ⟨s.pushed,waker⟩
  let t := {s with pushed := s.pushed+1,touched := []}
  if s.willSpill then .ok {t with spilled := s.spilled++[entry]}
  else if s.inlineLen < s.inline.length then
    .ok {t with
      inline := s.inline.set s.inlineLen (some entry)
      inlineLen := s.inlineLen+1
      written := s.written++[s.inlineLen]}
  else .error "index out of bounds"

/-- The wake loop over inline slots; a panic leaves the slots behind it alone. -/
def wakeInline (inline : List (Option (Entry W))) : List ℕ → Pass → Except String Pass
  | [], p => .ok p
  | i::is, p =>
    match inline[i]? with
    | some (some entry) =>
      let p := {p with touched := p.touched++[i]}.wake entry.id
      if p.panicked then .ok p else wakeInline inline is p
    | _ => .error uninitialized

/-- The wake loop over a drained vector; a panic drops the rest of the vector. -/
def drain : List (Entry W) → Pass → Pass
  | [], p => p
  | entry::rest, p =>
    let p := p.wake entry.id
    if p.panicked then {p with log := p.log++rest.map fun entry => .dropped entry.id} else drain rest p

/-- `panicAt` is the number of the call of `wake` that panics. -/
def wakeAll (s : State W) (panicAt : Option ℕ) : Except String (State W) := do
  let p ← wakeInline s.inline (List.range s.inlineLen) ⟨[],s.log,panicAt,false⟩
  let t := {s with inlineLen := 0,written := []}
  if p.panicked then .ok {t with touched := p.touched,log := p.log}
  else
    let p := drain s.spilled p
    .ok {t with spilled := [],touched := p.touched,log := p.log}

def dropInline (inline : List (Option (Entry W))) : List ℕ → List Event → Except String (List Event)
  | [], log => .ok log
  | i::is, log =>
    match inline[i]? with
    | some (some entry) => dropInline inline is (log++[.dropped entry.id])
    | _ => .error uninitialized

/-- The destructor, and behind it that of the vector. -/
def drop (s : State W) : Except String (State W) := do
  let log ← dropInline s.inline (List.range s.inlineLen) s.log
  .ok {s with
    inlineLen := 0
    spilled := []
    written := []
    touched := List.range s.inlineLen
    log := log++s.spilled.map fun entry => .dropped entry.id
    gone := true}

end State

inductive Action (W : Type)
  | push (waker : W) | wakeAll (panicAt : Option ℕ) | drop

namespace State

variable {W : Type}

def act (s : State W) : Action W → Except String (State W)
  | .push waker => s.push waker
  | .wakeAll panicAt => s.wakeAll panicAt
  | .drop => s.drop

/-- Nothing is done to a batch that was dropped. -/
def perform (s : State W) (a : Action W) : Option (Except String (State W)) :=
  if s.gone then none else some (s.act a)

instance : Transition.Faulty (State W) String :=
  ⟨fault,fun s message => {s with fault := some message}⟩

abbrev next (s : State W) (a : Action W) : Option (State W) := Transition.step perform s a

/-- The wakers in the batch, first pushed first as long as no call of `wake` panics. -/
def pending (s : State W) : List ℕ :=
  (s.inline.take s.inlineLen).reduceOption.map Entry.id++s.spilled.map Entry.id

end State

def machine (W : Type) : Transition.Machine (State W) (Action W) where
  init s := s = new W
  next := State.next

/-- `es` are the entries that the batch owns inline. -/
structure Ok {W : Type} (s : State W) (es : List (Entry W)) : Prop where
  length : s.inline.length = stackSize
  bound : s.inlineLen ≤ stackSize
  owned : s.inline.take s.inlineLen = es.map some
  written : s.written = List.range s.inlineLen
  once : (s.log.map Event.id++(es.map Entry.id++s.spilled.map Entry.id)).Nodup
  issued : ∀ id ∈ s.log.map Event.id++(es.map Entry.id++s.spilled.map Entry.id), id < s.pushed
  sound : s.fault = none

def wokenAll {W : Type} (es : List (Entry W)) : List Event := es.map fun entry => .woken entry.id

def droppedAll {W : Type} (es : List (Entry W)) : List Event := es.map fun entry => .dropped entry.id

@[simp] theorem ids_wokenAll {W : Type} (es : List (Entry W)) :
    (wokenAll es).map Event.id = es.map Entry.id := by
  rw [wokenAll,List.map_map]
  rfl

@[simp] theorem ids_droppedAll {W : Type} (es : List (Entry W)) :
    (droppedAll es).map Event.id = es.map Entry.id := by
  rw [droppedAll,List.map_map]
  rfl

namespace State

variable {W : Type} {inline : List (Option (Entry W))}

/-- The loop wakes the first `n` of the entries, all of them if no call panics. -/
theorem wakeInline_ok (es : List (Entry W)) (i : ℕ) (p : Pass) (hp : p.panicked = false)
    (h : ∀ (j : ℕ) e, es[j]? = some e → inline[i+j]? = some (some e)) :
    ∃ q n, wakeInline inline (List.range' i es.length) p = .ok q ∧ n ≤ es.length ∧
      q.touched = p.touched++List.range' i n ∧ q.log = p.log++wokenAll (es.take n) ∧
      (q.panicked = false → n = es.length) ∧
      (p.fuse = none → q.fuse = none ∧ q.panicked = false) := by
  induction es generalizing i p with
  | nil => exact ⟨p,0,rfl,Nat.le_refl 0,by simp,by simp [wokenAll],fun _ => rfl,fun hf => ⟨hf,hp⟩⟩
  | cons e es ih =>
    have hread : inline[i]? = some (some e) := h 0 e rfl
    have hstep : wakeInline inline (List.range' i (e::es).length) p =
        if (Pass.wake {p with touched := p.touched++[i]} e.id).panicked then
          .ok (Pass.wake {p with touched := p.touched++[i]} e.id)
        else wakeInline inline (List.range' (i+1) es.length)
          (Pass.wake {p with touched := p.touched++[i]} e.id) := by
      rw [List.length_cons,List.range'_succ,wakeInline,hread]
    rw [hstep]
    split
    · next hpanic =>
      refine ⟨_,1,rfl,by simp,rfl,rfl,fun hno => ?_,fun hf => ?_⟩
      · rw [hpanic] at hno
        cases hno
      · have hzero : p.fuse = some 0 := of_decide_eq_true hpanic
        rw [hf] at hzero
        cases hzero
    · next hcalm =>
      obtain ⟨q,n,hrun,hn,htouched,hlog,hall,hfuse⟩ := ih (i+1)
        (Pass.wake {p with touched := p.touched++[i]} e.id) (Bool.eq_false_iff.mpr hcalm)
        fun j d hd => by
          rw [Nat.add_assoc,Nat.add_comm 1 j]
          exact h (j+1) d hd
      refine ⟨q,n+1,hrun,Nat.succ_le_succ hn,?_,?_,fun hno => congrArg Nat.succ (hall hno),
        fun hf => hfuse (congrArg (Option.map Nat.pred) hf)⟩
      · rw [htouched,List.range'_succ]
        simp [Pass.wake]
      · rw [hlog]
        simp [Pass.wake,wokenAll]

/-- The drained wakers are woken in their order, and behind a panic they are dropped. -/
theorem drain_ok (es : List (Entry W)) (p : Pass) :
    ∃ n, (drain es p).touched = p.touched ∧
      (drain es p).log = p.log++(wokenAll (es.take n)++droppedAll (es.drop n)) ∧
      (p.fuse = none → n = es.length) := by
  induction es generalizing p with
  | nil => exact ⟨0,rfl,by simp [drain,wokenAll,droppedAll],fun _ => rfl⟩
  | cons e es ih =>
    rw [drain]
    split
    · next hpanic =>
      refine ⟨1,rfl,by simp [Pass.wake,wokenAll,droppedAll],fun hf => ?_⟩
      have hzero : p.fuse = some 0 := of_decide_eq_true hpanic
      rw [hf] at hzero
      cases hzero
    · obtain ⟨n,htouched,hlog,hall⟩ := ih (p.wake e.id)
      refine ⟨n+1,htouched,?_,fun hf => congrArg Nat.succ (hall (congrArg (Option.map Nat.pred) hf))⟩
      rw [hlog]
      simp [Pass.wake,wokenAll,droppedAll]

theorem dropInline_ok (es : List (Entry W)) (i : ℕ) (log : List Event)
    (h : ∀ (j : ℕ) e, es[j]? = some e → inline[i+j]? = some (some e)) :
    dropInline inline (List.range' i es.length) log = .ok (log++droppedAll es) := by
  induction es generalizing i log with
  | nil => simp [dropInline,droppedAll]
  | cons e es ih =>
    have hread : inline[i]? = some (some e) := h 0 e rfl
    rw [List.length_cons,List.range'_succ,dropInline,hread]
    simp only
    rw [ih (i+1) _ fun j d hd => by
      rw [Nat.add_assoc,Nat.add_comm 1 j]
      exact h (j+1) d hd]
    simp [droppedAll]

end State

namespace Ok

variable {W : Type} {s t : State W} {es : List (Entry W)}

theorem new : Ok (new W) [] where
  length := List.length_replicate
  bound := Nat.zero_le _
  owned := rfl
  written := rfl
  once := List.nodup_nil
  issued id hid := by cases hid
  sound := rfl

section

variable (h : Ok s es)
include h

theorem len : es.length = s.inlineLen := by
  have hlen := congrArg List.length h.owned
  rw [List.length_take,h.length,Nat.min_eq_left h.bound,List.length_map] at hlen
  exact hlen.symm

theorem pending : s.pending = es.map Entry.id++s.spilled.map Entry.id := by
  rw [State.pending,h.owned]
  simp [List.reduceOption]

theorem read (j : ℕ) (e : Entry W) (hj : es[j]? = some e) : s.inline[0+j]? = some (some e) := by
  have hlt : j < s.inlineLen := h.len ▸ (List.getElem?_eq_some_iff.mp hj).1
  have htake : (s.inline.take s.inlineLen)[j]? = some (some e) := by
    rw [h.owned,List.getElem?_map,hj]
    rfl
  rw [Nat.zero_add]
  rwa [List.getElem?_take_of_lt hlt] at htake

theorem range : List.range s.inlineLen = List.range' 0 es.length := by
  rw [h.len,List.range_eq_range']

theorem shrink {log : List Event} {spilled : List (Entry W)}
    (hsub : List.Sublist (log.map Event.id++spilled.map Entry.id)
      (s.log.map Event.id++(es.map Entry.id++s.spilled.map Entry.id))) (touched : List ℕ) (gone : Bool) :
    Ok {s with
      inlineLen := 0,written := [],spilled := spilled,log := log,touched := touched,gone := gone} [] where
  length := h.length
  bound := Nat.zero_le _
  owned := rfl
  written := rfl
  once := h.once.sublist hsub
  issued id hid := h.issued id (hsub.subset hid)
  sound := h.sound

theorem fresh (ids : List ℕ)
    (hperm : ids.Perm (s.pushed::(s.log.map Event.id++(es.map Entry.id++s.spilled.map Entry.id)))) :
    ids.Nodup ∧ ∀ id ∈ ids, id < s.pushed+1 := by
  refine ⟨hperm.nodup_iff.mpr (List.nodup_cons.mpr ⟨fun hid => ?_,h.once⟩),fun id hid => ?_⟩
  · exact absurd (h.issued _ hid) (Nat.lt_irrefl _)
  · rcases List.mem_cons.mp (hperm.subset hid) with rfl | hid
    · exact Nat.lt_succ_self _
    · exact Nat.lt_succ_of_lt (h.issued id hid)

theorem spill (waker : W) :
    Ok {s with pushed := s.pushed+1,touched := [],spilled := s.spilled++[⟨s.pushed,waker⟩]} es := by
  obtain ⟨honce,hissued⟩ := h.fresh (s.log.map Event.id++(es.map Entry.id++
    (s.spilled++[(⟨s.pushed,waker⟩ : Entry W)]).map Entry.id)) (by
      rw [List.map_append,← List.append_assoc,← List.append_assoc,List.append_assoc _ (es.map _)]
      exact List.perm_append_singleton _ _)
  exact ⟨h.length,h.bound,h.owned,h.written,honce,hissued,h.sound⟩

theorem store (waker : W) (hroom : s.inlineLen < stackSize) :
    Ok {s with
      pushed := s.pushed+1,touched := [],inline := s.inline.set s.inlineLen (some ⟨s.pushed,waker⟩)
      inlineLen := s.inlineLen+1,written := s.written++[s.inlineLen]} (es++[⟨s.pushed,waker⟩]) := by
  obtain ⟨honce,hissued⟩ := h.fresh (s.log.map Event.id++
    ((es++[(⟨s.pushed,waker⟩ : Entry W)]).map Entry.id++s.spilled.map Entry.id)) (by
      rw [List.map_append,List.append_assoc,← List.append_assoc]
      refine List.perm_middle.trans ?_
      rw [List.append_assoc]
      exact List.Perm.refl _)
  refine ⟨?_,hroom,?_,?_,honce,hissued,h.sound⟩
  · exact List.length_set.trans h.length
  · show (s.inline.set s.inlineLen _).take (s.inlineLen+1) = _
    have hget : s.inlineLen < (s.inline.set s.inlineLen (some (⟨s.pushed,waker⟩ : Entry W))).length := by
      rw [List.length_set,h.length]
      exact hroom
    rw [List.take_add_one,List.take_set_of_le (Nat.le_refl _),h.owned,List.map_append,
      List.getElem?_eq_getElem hget,List.getElem_set_self]
    rfl
  · show s.written++[s.inlineLen] = List.range (s.inlineLen+1)
    rw [h.written,List.range_succ]

theorem push (waker : W) : ∃ t es', s.push waker = .ok t ∧ Ok t es' ∧
    t.pushed = s.pushed+1 ∧ t.log = s.log ∧ t.gone = s.gone ∧
    (es' = es++[⟨s.pushed,waker⟩] ∧ t.spilled = s.spilled ∨
      es' = es ∧ t.spilled = s.spilled++[⟨s.pushed,waker⟩]) ∧
    ((s.spilled ≠ [] → s.inlineLen = stackSize) → t.spilled ≠ [] → t.inlineLen = stackSize) := by
  by_cases hfull : s.inlineLen = stackSize
  · refine ⟨_,es,?_,h.spill waker,rfl,rfl,rfl,Or.inr ⟨rfl,rfl⟩,fun _ _ => hfull⟩
    rw [State.push,if_pos (show s.willSpill = true from decide_eq_true hfull)]
  · have hroom : s.inlineLen < stackSize := Nat.lt_of_le_of_ne h.bound hfull
    refine ⟨_,_,?_,h.store waker hroom,rfl,rfl,rfl,Or.inl ⟨rfl,rfl⟩,fun hs ht => absurd (hs ht) hfull⟩
    rw [State.push,if_neg (show ¬s.willSpill = true from fun hw => hfull (of_decide_eq_true hw)),
      if_pos (h.length ▸ hroom)]

end

structure Woke (s : State W) (es : List (Entry W)) (panicAt : Option ℕ) (t : State W) : Prop where
  ok : Ok t []
  pushed : t.pushed = s.pushed
  gone : t.gone = s.gone
  touched : t.touched <+: s.written
  calm : panicAt = none → t.touched = s.written ∧ t.spilled = [] ∧
    t.log = s.log++(wokenAll es++wokenAll s.spilled)

theorem wakeAll (h : Ok s es) (panicAt : Option ℕ) : ∃ t, s.wakeAll panicAt = .ok t ∧ Woke s es panicAt t := by
  obtain ⟨p,n,hloop,hn,htouched,hlog,hall,hfuse⟩ :=
    State.wakeInline_ok es 0 ⟨[],s.log,panicAt,false⟩ rfl h.read
  rw [← h.range] at hloop
  have hwritten : s.written = List.range' 0 es.length := h.written.trans h.range
  have hlead : p.touched <+: s.written := by
    rw [htouched,hwritten,List.nil_append]
    exact ⟨List.range' (0+n) (es.length-n),by rw [List.range'_append_1,Nat.add_sub_cancel' hn]⟩
  cases hpanic : p.panicked with
  | true =>
    have hsub : List.Sublist (p.log.map Event.id++s.spilled.map Entry.id)
        (s.log.map Event.id++(es.map Entry.id++s.spilled.map Entry.id)) := by
      rw [hlog,List.map_append,ids_wokenAll,List.append_assoc]
      exact (((List.take_sublist n es).map _).append_right _).append_left _
    refine ⟨{s with inlineLen := 0,written := [],touched := p.touched,log := p.log},?_,
      h.shrink hsub _ _,rfl,rfl,hlead,fun hnone => ?_⟩
    · simp only [State.wakeAll,hloop,hpanic,bind,Except.bind,if_true]
    · rw [(hfuse hnone).2] at hpanic
      cases hpanic
  | false =>
    obtain rfl := hall hpanic
    obtain ⟨m,htouched',hlog',hall'⟩ := State.drain_ok s.spilled p
    rw [List.take_length] at hlog
    have hids : (State.drain s.spilled p).log.map Event.id =
        s.log.map Event.id++(es.map Entry.id++s.spilled.map Entry.id) := by
      rw [hlog',hlog,List.map_append,List.map_append,List.map_append,ids_wokenAll,ids_wokenAll,
        ids_droppedAll,← List.map_append,List.take_append_drop,List.append_assoc]
    have hsub : List.Sublist ((State.drain s.spilled p).log.map Event.id++([] : List (Entry W)).map Entry.id)
        (s.log.map Event.id++(es.map Entry.id++s.spilled.map Entry.id)) := by
      rw [hids,List.map_nil,List.append_nil]
    refine ⟨{s with inlineLen := 0,written := [],spilled := [],touched := (State.drain s.spilled p).touched
                    log := (State.drain s.spilled p).log},?_,h.shrink hsub _ _,rfl,rfl,?_,fun hnone => ?_⟩
    · simp only [State.wakeAll,hloop,hpanic,bind,Except.bind,Bool.false_eq_true,if_false]
    · show (State.drain s.spilled p).touched <+: s.written
      rw [htouched']
      exact hlead
    · obtain rfl := hall' (hfuse hnone).1
      refine ⟨htouched'.trans (htouched.trans hwritten.symm),rfl,?_⟩
      show (State.drain s.spilled p).log = _
      rw [hlog',hlog]
      simp [droppedAll]

theorem drop (h : Ok s es) : ∃ t, s.drop = .ok t ∧ Ok t [] ∧ t.pushed = s.pushed ∧ t.gone = true ∧
    t.touched = s.written ∧ t.spilled = [] ∧ t.log = s.log++(droppedAll es++droppedAll s.spilled) := by
  have hdrop := State.dropInline_ok es 0 s.log h.read
  rw [← h.range] at hdrop
  have hsub : List.Sublist
      ((s.log++droppedAll es++droppedAll s.spilled).map Event.id++([] : List (Entry W)).map Entry.id)
      (s.log.map Event.id++(es.map Entry.id++s.spilled.map Entry.id)) := by
    simp
  refine ⟨_,?_,h.shrink hsub (List.range s.inlineLen) true,rfl,rfl,h.written.symm,rfl,by simp⟩
  simp only [State.drop,hdrop,bind,Except.bind]
  rfl

theorem act (h : Ok s es) (a : Action W) : ∃ t es', s.act a = .ok t ∧ Ok t es' := by
  cases a with
  | push waker =>
    obtain ⟨t,es',hpush,hok,-⟩ := h.push waker
    exact ⟨t,es',hpush,hok⟩
  | wakeAll panicAt =>
    obtain ⟨t,hwake,hwoke⟩ := h.wakeAll panicAt
    exact ⟨t,[],hwake,hwoke.ok⟩
  | drop =>
    obtain ⟨t,hdrop,hok,-⟩ := h.drop
    exact ⟨t,[],hdrop,hok⟩

theorem next (h : Ok s es) {a : Action W} (hn : s.next a = some t) :
    s.gone = false ∧ s.act a = .ok t ∧ ∃ es', Ok t es' := by
  obtain ⟨-,x,hx,rfl⟩ := Transition.step_eq_some hn
  obtain ⟨hlive,⟨⟩⟩ := Option.ite_none_left_eq_some.mp hx
  obtain ⟨u,es',hact,hok⟩ := h.act a
  rw [hact]
  exact ⟨Bool.eq_false_iff.mpr hlive,rfl,es',hok⟩

end Ok

variable {W : Type} {s : State W} {es : List (Entry W)} {m : ℕ}

theorem reachable_ok (h : (machine W).Reachable s) : ∃ es, Ok s es := by
  refine (machine W).invariant (fun s => ∃ es, Ok s es) ?_ ?_ h
  · rintro s rfl
    exact ⟨[],.new⟩
  · rintro s a t ⟨es,hok⟩ hn
    exact (hok.next hn).2.2

/-- In every run: no waker has two ends, and no slot is taken for what it is not. -/
structure State.Contract (s : State W) : Prop where
  /-- No waker is woken twice, dropped twice, or both, also behind a panic, -/
  once : (s.log.map Event.id).Nodup
  /-- and those in the batch are neither woken nor dropped. -/
  pending : s.pending.Nodup ∧ ∀ id ∈ s.pending, id < s.pushed ∧ id ∉ s.log.map Event.id
  written : s.written = List.range s.inlineLen
  initialized : ∀ i ∈ s.written, ∃ entry, s.inline[i]? = some (some entry)
  wakes : ∀ panicAt t, s.next (.wakeAll panicAt) = some t →
    t.touched <+: s.written ∧ (panicAt = none → t.touched = s.written)
  drops : ∀ t, s.next .drop = some t → t.touched = s.written
  sound : s.fault = none

theorem Ok.contract (h : Ok s es) : s.Contract where
  once := (List.nodup_append.mp h.once).1
  pending := by
    rw [h.pending]
    obtain ⟨-,hpending,hdisjoint⟩ := List.nodup_append.mp h.once
    refine ⟨hpending,fun id hid => ⟨h.issued id (List.mem_append_right _ hid),fun hlog => ?_⟩⟩
    exact hdisjoint id hlog id hid rfl
  written := h.written
  initialized i hi := by
    rw [h.written,List.mem_range,← h.len] at hi
    have hread := h.read i es[i] (List.getElem?_eq_getElem hi)
    rw [Nat.zero_add] at hread
    exact ⟨_,hread⟩
  wakes panicAt t hn := by
    obtain ⟨u,hwake,hwoke⟩ := h.wakeAll panicAt
    obtain ⟨-,hact,-⟩ := h.next hn
    cases hwake.symm.trans hact
    exact ⟨hwoke.touched,fun hnone => (hwoke.calm hnone).1⟩
  drops t hn := by
    obtain ⟨u,hdrop,-,-,-,htouched,-⟩ := h.drop
    obtain ⟨-,hact,-⟩ := h.next hn
    cases hdrop.symm.trans hact
    exact htouched
  sound := h.sound

theorem range_append {n : ℕ} (h : m ≤ n) : List.range m++List.range' m (n-m) = List.range n := by
  have hjoin := List.range'_append_1 (s := 0) (m := m) (n := n-m)
  rwa [Nat.zero_add,Nat.add_sub_cancel' h,← List.range_eq_range',← List.range_eq_range'] at hjoin

theorem wokenAll_eq (es : List (Entry W)) : wokenAll es = (es.map Entry.id).map .woken := by
  rw [wokenAll,List.map_map]
  rfl

theorem droppedAll_eq (es : List (Entry W)) : droppedAll es = (es.map Entry.id).map .dropped := by
  rw [droppedAll,List.map_map]
  rfl

def Action.Calm (a : Action W) : Prop := ∀ k, a ≠ .wakeAll (some k)

/-- The first `m` wakers were pushed before the last `wake_all`. -/
structure Split (s : State W) (es : List (Entry W)) (m : ℕ) : Prop where
  ok : Ok s es
  bound : m ≤ s.pushed
  log : s.log = (List.range m).map .woken++
    if s.gone then (List.range' m (s.pushed-m)).map .dropped else []
  pending : s.gone = false → es.map Entry.id++s.spilled.map Entry.id = List.range' m (s.pushed-m)
  full : s.spilled ≠ [] → s.inlineLen = stackSize

namespace Split

variable {s t : State W} {es : List (Entry W)} {m : ℕ}

theorem new : Split (new W) [] 0 :=
  ⟨.new,Nat.le_refl 0,rfl,fun _ => rfl,fun h => absurd rfl h⟩

section

variable (h : Split s es m) (hlive : s.gone = false)
include h hlive

theorem live_log : s.log = (List.range m).map .woken := by
  rw [h.log,hlive]
  simp

theorem push (waker : W) (ht : s.push waker = .ok t) : ∃ es', Split t es' m := by
  obtain ⟨u,es',hpush,hok,hpushed,hlog,hgone,hcases,hfull⟩ := h.ok.push waker
  cases hpush.symm.trans ht
  have hbound := h.bound
  refine ⟨es',hok,by omega,?_,fun _ => ?_,hfull h.full⟩
  · rw [hlog,h.live_log hlive,hgone,hlive]
    simp
  · have hpending := h.pending hlive
    have hlen : t.pushed-m = s.pushed-m+1 := by omega
    rw [hlen,List.range'_concat,← hpending]
    have hlast : m+1*(s.pushed-m) = s.pushed := by omega
    rw [hlast]
    rcases hcases with ⟨rfl,hspilled⟩ | ⟨rfl,hspilled⟩
    · -- an inline slot was free, so nothing is spilled
      have hnone : s.spilled = [] := by
        by_contra hsome
        have hlen := hok.len
        have hbound := hok.bound
        rw [List.length_append,h.ok.len,h.full hsome,List.length_singleton] at hlen
        omega
      simp [hspilled,hnone]
    · simp [hspilled]

theorem wakeAll (ht : s.wakeAll none = .ok t) :
    Split t [] s.pushed ∧ t.log = s.log++s.pending.map .woken ∧ t.spilled = [] := by
  obtain ⟨u,hwake,hwoke⟩ := h.ok.wakeAll none
  cases hwake.symm.trans ht
  obtain ⟨-,hspilled,hlog⟩ := hwoke.calm rfl
  have hlog' : t.log = s.log++s.pending.map .woken := by
    rw [hlog,h.ok.pending,wokenAll_eq,wokenAll_eq,List.map_append]
  refine ⟨⟨hwoke.ok,hwoke.pushed.ge,?_,fun _ => ?_,fun hne => absurd hspilled hne⟩,hlog',hspilled⟩
  · rw [hlog',h.ok.pending,h.pending hlive,h.live_log hlive,hwoke.gone,hlive,← List.map_append,
      range_append h.bound]
    simp
  · rw [hspilled,hwoke.pushed,Nat.sub_self]
    rfl

theorem drop (ht : s.drop = .ok t) : Split t [] m := by
  obtain ⟨u,hdrop,hok,hpushed,hgone,-,hspilled,hlog⟩ := h.ok.drop
  cases hdrop.symm.trans ht
  refine ⟨hok,hpushed ▸ h.bound,?_,fun hno => ?_,fun hne => absurd hspilled hne⟩
  · rw [hlog,droppedAll_eq,droppedAll_eq,← List.map_append,h.pending hlive,h.live_log hlive,hgone,hpushed]
    rfl
  · rw [hgone] at hno
    cases hno

end

theorem next (h : Split s es m) {a : Action W} (ha : a.Calm) (hn : s.next a = some t) :
    ∃ es' m', Split t es' m' := by
  obtain ⟨hlive,hact,-⟩ := h.ok.next hn
  cases a with
  | push waker =>
    obtain ⟨es',hsplit⟩ := h.push hlive waker hact
    exact ⟨es',m,hsplit⟩
  | wakeAll panicAt =>
    cases panicAt with
    | none => exact ⟨[],s.pushed,(h.wakeAll hlive hact).1⟩
    | some k => exact absurd rfl (ha k)
  | drop => exact ⟨[],m,h.drop hlive hact⟩

end Split

theorem reachable_split (h : (machine W).ReachableVia Action.Calm s) : ∃ es m, Split s es m := by
  refine (machine W).invariantVia (fun s => ∃ es m, Split s es m) ?_ ?_ h
  · rintro s rfl
    exact ⟨[],0,.new⟩
  · rintro s a t ha ⟨es,m,hsplit⟩ hn
    exact hsplit.next ha hn

/-- As long as no call of `wake` panics the wakers end in the order of the pushes: those in
front of the last `wake_all` are woken, the others wait, or are dropped with the batch. -/
structure State.Orderly (s : State W) : Prop where
  ends : ∃ m, m ≤ s.pushed ∧
    s.log = (List.range m).map .woken++(if s.gone then (List.range' m (s.pushed-m)).map .dropped else []) ∧
    (s.gone = false → s.pending = List.range' m (s.pushed-m))
  pushes : ∀ waker t, s.next (.push waker) = some t → t.log = s.log ∧ t.pending = s.pending++[s.pushed]
  wakes : ∀ t, s.next (.wakeAll none) = some t → t.log = s.log++s.pending.map .woken ∧ t.pending = []
  drops : ∀ t, s.next .drop = some t → t.log = s.log++s.pending.map .dropped

theorem Split.orderly (h : Split s es m) : s.Orderly where
  ends := ⟨m,h.bound,h.log,fun hlive => by rw [h.ok.pending,h.pending hlive]⟩
  pushes waker t hn := by
    obtain ⟨hlive,hact,-⟩ := h.ok.next hn
    obtain ⟨es',hsplit⟩ := h.push hlive waker hact
    obtain ⟨u,-,hpush,-,hpushed,hlog,hgone,-⟩ := h.ok.push waker
    cases hpush.symm.trans hact
    have hbound := h.bound
    have hlen : t.pushed-m = s.pushed-m+1 := by omega
    have hlast : m+1*(s.pushed-m) = s.pushed := by omega
    refine ⟨hlog,?_⟩
    rw [hsplit.ok.pending,hsplit.pending (hgone.trans hlive),h.ok.pending,h.pending hlive,hlen,
      List.range'_concat,hlast]
  wakes t hn := by
    obtain ⟨hlive,hact,-⟩ := h.ok.next hn
    obtain ⟨hsplit,hlog,hspilled⟩ := h.wakeAll hlive hact
    exact ⟨hlog,by rw [hsplit.ok.pending,hspilled]; rfl⟩
  drops t hn := by
    obtain ⟨hlive,hact,-⟩ := h.ok.next hn
    obtain ⟨u,hdrop,-,-,-,-,-,hlog⟩ := h.ok.drop
    cases hdrop.symm.trans hact
    rw [hlog,h.ok.pending,droppedAll_eq,droppedAll_eq,List.map_append]

theorem wakerBatch_ownership (W : Type) :
    (∀ s, (machine W).Reachable s → s.Contract) ∧
      ∀ s, (machine W).ReachableVia Action.Calm s → s.Orderly := by
  refine ⟨fun s h => ?_,fun s h => ?_⟩
  · obtain ⟨es,hok⟩ := reachable_ok h
    exact hok.contract
  · obtain ⟨es,m,hsplit⟩ := reachable_split h
    exact hsplit.orderly

def spillRun : List (Action ℕ) :=
  (List.range 35).map .push++[.wakeAll none,.push 7,.push 8,.drop]

/-- The third call panics, so the spilled waker waits for the next `wake_all`. -/
def panicRun : List (Action ℕ) :=
  (List.range 33).map .push++[.wakeAll (some 2),.push 7,.wakeAll none,.drop]

theorem wakerBatch_ownership_runs :
    (∃ s, (machine ℕ).exec (new ℕ) spillRun = some s ∧ s.Contract ∧ s.Orderly ∧ s.pushed = 37 ∧
      s.log = (List.range 35).map .woken++[.dropped 35,.dropped 36]) ∧
    ∃ s, (machine ℕ).exec (new ℕ) panicRun = some s ∧ s.Contract ∧
      s.log = [.woken 0,.woken 1,.woken 2,.woken 33,.woken 32] := by
  obtain ⟨hall,hcalm⟩ := wakerBatch_ownership ℕ
  have hrun₁ : ((machine ℕ).exec (new ℕ) spillRun).map (fun s => (s.pushed,s.log)) =
      some (37,(List.range 35).map .woken++[.dropped 35,.dropped 36]) := by
    decide +kernel
  have hrun₂ : ((machine ℕ).exec (new ℕ) panicRun).map (fun s => s.log) =
      some [.woken 0,.woken 1,.woken 2,.woken 33,.woken 32] := by
    decide +kernel
  obtain ⟨s₁,hs₁,hend₁⟩ := Option.map_eq_some_iff.mp hrun₁
  obtain ⟨s₂,hs₂,hend₂⟩ := Option.map_eq_some_iff.mp hrun₂
  have hvia : (machine ℕ).ReachableVia Action.Calm s₁ := by
    refine ⟨new ℕ,spillRun,rfl,fun a ha k => ?_,hs₁⟩
    rintro rfl
    simp [spillRun] at ha
  simp only [Prod.mk.injEq] at hend₁
  exact ⟨⟨s₁,hs₁,hall s₁ (Transition.Machine.reachable_of_exec _ rfl hs₁),hcalm s₁ hvia,hend₁⟩,
    s₂,hs₂,hall s₂ (Transition.Machine.reachable_of_exec _ rfl hs₂),hend₂⟩

end WakerBatch
end Asyncband
