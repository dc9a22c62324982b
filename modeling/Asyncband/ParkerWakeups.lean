import Asyncband.Parker

/-! No wake-up is missed.
While a parker is published its thread is on the way into or out of the condition variable,
and whoever replaced the published state by a notification still has to pass the mutex, which
the thread holds until it sleeps. -/
namespace Asyncband
namespace Blocking

open Transition

/-- An unparker that found the parker published and has not got the mutex yet. -/
def Locking (unparkers : List Unparker) (p : ℕ) : Prop :=
  ∃ i : ℕ, unparkers[i]? = some ⟨p,.locking⟩

/-- An unparker that has yet to notify the parker. -/
def Pending (unparkers : List Unparker) (p : ℕ) : Prop :=
  ∃ (i : ℕ) (u : Unparker), unparkers[i]? = some u ∧ u.parker = p ∧
    (u.stage = .locking ∨ u.stage = .locked ∨ u.stage = .notifying)

namespace Stage

def holds : Stage → Bool
  | .publishing _ | .swapping | .waiting _ | .checking _ | .leaving => true
  | _ => false

def parked : Stage → Bool
  | .polling | .clock => false
  | _ => true

def sleeping : Stage → Bool
  | .asleep _ => true
  | _ => false

def untimed : Stage → Bool
  | .clock => false
  | .token timeout | .locking timeout | .publishing timeout | .waiting timeout | .asleep timeout
  | .relocking timeout | .checking timeout => timeout.isNone
  | _ => true

/-- A notification was taken for a park that has not returned yet. -/
def owing : Stage → ℕ
  | .leaving => 1
  | _ => 0

/-- How the word of the parker fits to the stage of the innermost call. -/
def Fits (unparkers : List Unparker) (p state : ℕ) : Stage → Prop
  | .swapping => state = NOTIFIED
  | .waiting _ => state = PARKED ∨ state = NOTIFIED ∧ Locking unparkers p
  | .asleep _ => state = PARKED ∨ state = NOTIFIED ∧ Pending unparkers p
  | .relocking _ | .checking _ => state = PARKED ∨ state = NOTIFIED
  | _ => state = EMPTY ∨ state = NOTIFIED

end Stage

structure Parker.Ok (q : Parker) : Prop where
  state : q.state = EMPTY ∨ q.state = PARKED ∨ q.state = NOTIFIED
  accounted : q.stored = q.consumed+if q.state = NOTIFIED then 1 else 0
  fresh : q.fresh = true → q.state = NOTIFIED

/-- A call without deadline took one notification for each park that returned or is about
to return. -/
def Frame.Paid (f : Frame) : Prop :=
  f.deadline = none → f.stage.untimed = true ∧ f.consumed = f.parks+f.stage.owing

structure Active (unparkers : List Unparker) (f : Frame) (q : Parker) : Prop where
  fits : f.stage.Fits unparkers f.parker q.state
  lock : q.lock = some .thread ↔ f.stage.holds = true

/-- A parker on which the thread does not park now. -/
structure Resting (q : Parker) : Prop where
  state : q.state ≠ PARKED
  lock : q.lock ≠ some .thread

structure Ok (s : State) : Prop where
  parker : ∀ (p : ℕ) q, s.parkers[p]? = some q → q.Ok
  active : ∀ f frames, s.frames = f::frames →
    ∃ q, s.parkers[f.parker]? = some q ∧ Active s.unparkers f q
  resting : ∀ (p : ℕ) q, s.parkers[p]? = some q → (∀ f frames, s.frames = f::frames → f.parker ≠ p) →
    Resting q
  outer : ∀ f frames, s.frames = f::frames → ∀ g ∈ frames, g.stage = .polling
  distinct : (s.frames.map Frame.parker).Nodup
  range : ∀ f ∈ s.frames, f.parker < s.parkers.length
  cached : ∀ f ∈ s.frames.getLast?, f.parker = 0
  borrowed : s.borrowed = !s.frames.isEmpty
  paid : ∀ f ∈ s.frames, f.Paid
  locked : ∀ (p : ℕ) q i, s.parkers[p]? = some q → q.lock = some (.unparker i) →
    s.unparkers[i]? = some ⟨p,.locked⟩
  holding : ∀ (i : ℕ) p, s.unparkers[i]? = some ⟨p,.locked⟩ →
    ∃ q, s.parkers[p]? = some q ∧ q.lock = some (.unparker i)
  target : ∀ (i : ℕ) u, s.unparkers[i]? = some u → u.parker < s.parkers.length
  cache : 0 < s.parkers.length
  sound : s.panicked = none

namespace Parker.Ok

variable {q : Parker}

theorem new : Parker.new.Ok := ⟨Or.inl rfl,rfl,fun h => by cases h⟩

theorem poll (h : q.Ok) : q.poll.Ok := ⟨h.state,h.accounted,fun hfresh => by cases hfresh⟩

theorem setLock (h : q.Ok) (lock : Option Holder) : {q with lock := lock}.Ok :=
  ⟨h.state,h.accounted,h.fresh⟩

theorem publish (h : q.Ok) (hempty : q.state = EMPTY) : {q with state := PARKED}.Ok := by
  refine ⟨Or.inr (Or.inl rfl),?_,fun hfresh => ?_⟩
  · have haccounted := h.accounted
    rw [hempty] at haccounted
    exact haccounted
  · cases hempty.symm.trans (h.fresh hfresh)

theorem swapEmpty (h : q.Ok) : q.swapEmpty.Ok := by
  have haccounted := h.accounted
  unfold Parker.swapEmpty
  split
  · next hnotified =>
    rw [if_pos hnotified] at haccounted
    exact ⟨Or.inl rfl,haccounted,fun hfresh => by cases hfresh⟩
  · next hnot =>
    rw [if_neg hnot] at haccounted
    exact ⟨Or.inl rfl,haccounted,fun hfresh => absurd (h.fresh hfresh) hnot⟩

theorem swapNotified (h : q.Ok) : q.swapNotified.Ok := by
  refine ⟨Or.inr (Or.inr rfl),?_,fun _ => rfl⟩
  have haccounted := h.accounted
  simp only [Parker.swapNotified,if_true]
  split at haccounted <;> simp_all

end Parker.Ok

theorem Parker.consume_eq_some {q q' : Parker} (h : q.consume = some q') :
    q.state = NOTIFIED ∧ q' = q.swapEmpty := by
  obtain ⟨hstate,⟨⟩⟩ := Option.ite_none_right_eq_some.mp h
  exact ⟨hstate,rfl⟩

theorem Parker.consume_eq_none {q : Parker} (h : q.consume = none) : q.state ≠ NOTIFIED := by
  intro hstate
  rw [Parker.consume,if_pos hstate] at h
  cases h

@[simp] theorem Parker.swapEmpty_state (q : Parker) : q.swapEmpty.state = EMPTY := by
  unfold Parker.swapEmpty
  split <;> rfl

@[simp] theorem Parker.swapEmpty_lock (q : Parker) : q.swapEmpty.lock = q.lock := by
  unfold Parker.swapEmpty
  split <;> rfl

section Steps

variable {s t : State} {f g : Frame} {frames : List Frame} {q q' : Parker} {p i : ℕ}
variable {stage : Stage} {unparkers : List Unparker} {state : ℕ} {u v : Unparker}
    {x : Except String State} {a : Action}

section

variable (h : Ok s) (hframes : s.frames = f::frames) (hq : s.parkers[f.parker]? = some q)
    (hparker : g.parker = f.parker)
include h hframes hq hparker

theorem Ok.move (hok : q'.Ok) (hactive : Active s.unparkers g q') (hpaid : g.Paid)
    (hlock : ∀ j, q'.lock = some (.unparker j) ↔ q.lock = some (.unparker j)) :
    Ok {s with frames := g::frames,parkers := s.parkers.set f.parker q'} := by
  have hmap : (g::frames).map Frame.parker = s.frames.map Frame.parker := by
    rw [hframes,List.map_cons,List.map_cons,hparker]
  have hlen : (s.parkers.set f.parker q').length = s.parkers.length := List.length_set
  have hmem (e : Frame) (he : e ∈ frames) : e ∈ s.frames := by
    rw [hframes]
    exact List.mem_cons_of_mem f he
  refine ⟨?_,?_,?_,?_,hmap ▸ h.distinct,?_,?_,?_,?_,?_,?_,?_,hlen ▸ h.cache,h.sound⟩
  · exact Table.forall_set h.parker hok
  · rintro _ _ ⟨⟩
    refine ⟨q',?_,hactive⟩
    rw [hparker]
    exact Table.getElem?_set_self' hq q'
  · intro p r hr hoff
    have hne : f.parker ≠ p := hparker ▸ hoff g frames rfl
    rw [List.getElem?_set_ne hne] at hr
    refine h.resting p r hr fun f' frames' hframes' => ?_
    cases hframes.symm.trans hframes'
    exact hne
  · rintro _ _ ⟨⟩
    exact h.outer f frames hframes
  · intro e he
    rw [hlen]
    rcases List.mem_cons.mp he with rfl | he
    · rw [hparker]
      exact h.range f (by rw [hframes]; exact List.mem_cons_self)
    · exact h.range e (hmem e he)
  · intro e he
    cases frames with
    | nil =>
      obtain rfl : g = e := by simpa using he
      rw [hparker]
      exact h.cached f (by rw [hframes]; rfl)
    | cons f' frames => exact h.cached e (by rw [hframes]; exact he)
  · have hborrowed := h.borrowed
    rw [hframes] at hborrowed
    exact hborrowed
  · intro e he
    rcases List.mem_cons.mp he with rfl | he
    · exact hpaid
    · exact h.paid e (hmem e he)
  · intro p r j hr hj
    rcases Table.getElem?_set_cases hr with ⟨rfl,rfl⟩ | ⟨-,hr⟩
    · exact h.locked _ q j hq ((hlock j).mp hj)
    · exact h.locked p r j hr hj
  · intro j p hj
    obtain ⟨r,hr,hheld⟩ := h.holding j p hj
    by_cases hp : p = f.parker
    · subst hp
      cases hq.symm.trans hr
      exact ⟨q',Table.getElem?_set_self' hq q',(hlock j).mpr hheld⟩
    · exact ⟨r,(List.getElem?_set_ne (Ne.symm hp)).trans hr,hheld⟩
  · intro j u hu
    rw [hlen]
    exact h.target j u hu

theorem Ok.restage (hactive : Active s.unparkers g q) (hpaid : g.Paid) :
    Ok {s with frames := g::frames} := by
  have hmove := h.move hframes hq hparker (h.parker _ q hq) hactive hpaid fun _ => Iff.rfl
  rwa [Table.set_self hq] at hmove

end

theorem Ok.park (h : Ok s) (hframes : s.frames = f::frames) (hq : s.parkers[f.parker]? = some q)
    {x : Except String (Frame × Parker)} (hx : f.park q = some x) :
    ∃ g q', x = .ok (g,q') ∧ Ok {s with frames := g::frames,parkers := s.parkers.set f.parker q'} := by
  have hok := h.parker _ q hq
  have hpaid : f.Paid := h.paid f (by rw [hframes]; exact List.mem_cons_self)
  obtain ⟨q₀,hq₀,hfits,hlock⟩ := h.active f frames hframes
  cases hq.symm.trans hq₀
  obtain ⟨p,deadline,stage,parks,consumed⟩ := f
  simp only at hq hfits hlock
  -- the thread takes the mutex or gives it back
  have hmutex (lock : Option Holder) (hold : q.lock = none ∨ q.lock = some .thread)
      (hnew : lock = none ∨ lock = some .thread) (j : ℕ) :
      lock = some (.unparker j) ↔ q.lock = some (.unparker j) := by
    rcases hold with hold | hold <;> rcases hnew with hnew | hnew <;> simp [hold,hnew]
  -- the word is set back to `EMPTY`
  have hswap {g : Frame} (hparker : g.parker = p) (hholds : g.stage.holds = stage.holds)
      (hstage : g.stage.Fits s.unparkers g.parker EMPTY) (hpaid : g.Paid) :
      Ok {s with frames := g::frames,parkers := s.parkers.set p q.swapEmpty} := by
    refine h.move hframes hq hparker hok.swapEmpty ⟨?_,?_⟩ hpaid fun j => ?_
    · rwa [q.swapEmpty_state]
    · rw [q.swapEmpty_lock,hholds]
      exact hlock
    · rw [q.swapEmpty_lock]
  -- the park took a notification and returns
  have hconsumed (hholds : stage.holds = false) (howing : stage.owing = 0) :
      Ok {s with
        frames := (⟨p,deadline,.polling,parks+1,consumed+1⟩ : Frame)::frames
        parkers := s.parkers.set p q.swapEmpty.poll} := by
    refine h.move hframes hq rfl hok.swapEmpty.poll ⟨Or.inl q.swapEmpty_state,?_⟩ ?_ fun j => ?_
    · show q.swapEmpty.lock = some .thread ↔ _
      rw [q.swapEmpty_lock,hlock,hholds]
      rfl
    · intro hnone
      obtain ⟨-,hcount⟩ := hpaid hnone
      simp only [howing] at hcount
      exact ⟨rfl,congrArg (·+1) hcount⟩
    · show q.swapEmpty.lock = _ ↔ _
      rw [q.swapEmpty_lock]
  -- the stage changes and the parker does not
  have hstay {g : Frame} (hparker : g.parker = p) (hholds : g.stage.holds = stage.holds)
      (hstage : g.stage.Fits s.unparkers g.parker q.state) (hpaid : g.Paid) :
      Ok {s with frames := g::frames,parkers := s.parkers.set p q} := by
    refine h.move hframes hq hparker hok ⟨hstage,?_⟩ hpaid fun _ => Iff.rfl
    rw [hholds]
    exact hlock
  cases stage with
  | polling => cases hx
  | clock => cases hx
  | asleep timeout => cases hx
  | token timeout =>
    simp only [Frame.park] at hx
    split at hx
    · next q' hconsume =>
      obtain ⟨-,rfl⟩ := Parker.consume_eq_some hconsume
      cases hx
      exact ⟨_,_,rfl,hconsumed rfl rfl⟩
    · cases hx
      refine ⟨_,_,rfl,h.move hframes hq rfl hok.poll ⟨hfits,hlock⟩ ?_ fun _ => Iff.rfl⟩
      intro hnone
      cases (hpaid hnone).1
    · cases hx
      exact ⟨_,_,rfl,hstay rfl rfl hfits hpaid⟩
    · cases hx
      exact ⟨_,_,rfl,hstay rfl rfl hfits hpaid⟩
  | yielding =>
    simp only [Frame.park] at hx
    split at hx
    · next q' hconsume =>
      obtain ⟨-,rfl⟩ := Parker.consume_eq_some hconsume
      cases hx
      exact ⟨_,_,rfl,hconsumed rfl rfl⟩
    · cases hx
      exact ⟨_,_,rfl,hstay rfl rfl hfits hpaid⟩
  | locking | relocking =>
    obtain ⟨hfree,⟨⟩⟩ := Option.ite_none_right_eq_some.mp hx
    exact ⟨_,_,rfl,h.move hframes hq rfl (hok.setLock _) ⟨hfits,⟨fun _ => rfl,fun _ => rfl⟩⟩ hpaid
      (hmutex _ (Or.inl hfree) (Or.inr rfl))⟩
  | publishing timeout =>
    have hheld : q.lock = some .thread := hlock.mpr rfl
    simp only [Frame.park] at hx
    split at hx
    · next hempty =>
      cases hx
      exact ⟨_,_,rfl,h.move hframes hq rfl (hok.publish hempty) ⟨Or.inl rfl,hlock⟩ hpaid
        fun _ => Iff.rfl⟩
    · next hne =>
      have hnotified : q.state = NOTIFIED := hfits.resolve_left hne
      rw [if_pos hnotified] at hx
      cases hx
      exact ⟨_,_,rfl,hstay rfl rfl hnotified fun hnone => ⟨rfl,(hpaid hnone).2⟩⟩
  | swapping =>
    simp only [Frame.park,if_pos (show q.state = NOTIFIED from hfits)] at hx
    cases hx
    refine ⟨_,_,rfl,hswap rfl rfl (Or.inl rfl) fun hnone => ⟨rfl,?_⟩⟩
    exact congrArg (·+1) (hpaid hnone).2
  | waiting timeout =>
    have hheld : q.lock = some .thread := hlock.mpr rfl
    cases hx
    refine ⟨_,_,rfl,h.move hframes hq rfl (hok.setLock _) ⟨?_,?_⟩ hpaid
      (hmutex _ (Or.inr hheld) (Or.inl rfl))⟩
    · refine hfits.imp_right (And.imp_right ?_)
      rintro ⟨i,hi⟩
      exact ⟨i,_,hi,rfl,Or.inl rfl⟩
    · simp [Frame.enter,Stage.holds]
  | checking timeout =>
    cases timeout with
    | none =>
      simp only [Frame.park] at hx
      split at hx
      · next q' hconsume =>
        obtain ⟨-,rfl⟩ := Parker.consume_eq_some hconsume
        cases hx
        refine ⟨_,_,rfl,hswap rfl rfl (Or.inl rfl) fun hnone => ⟨rfl,?_⟩⟩
        exact congrArg (·+1) (hpaid hnone).2
      · next hconsume =>
        cases hx
        have hparked : q.state = PARKED := hfits.resolve_right (Parker.consume_eq_none hconsume)
        exact ⟨_,_,rfl,hstay rfl rfl (Or.inl hparked) hpaid⟩
    | some d =>
      simp only [Frame.park] at hx
      split at hx
      · cases hx
        refine ⟨_,_,rfl,hswap rfl rfl (Or.inl rfl) fun hnone => ?_⟩
        cases (hpaid hnone).1
      · next hne =>
        rw [if_pos (hfits.resolve_right hne)] at hx
        cases hx
        refine ⟨_,_,rfl,hswap rfl rfl (Or.inl rfl) fun hnone => ?_⟩
        cases (hpaid hnone).1
  | leaving =>
    have hheld : q.lock = some .thread := hlock.mpr rfl
    cases hx
    refine ⟨_,_,rfl,h.move hframes hq rfl (hok.setLock none).poll ⟨hfits,?_⟩ ?_
      (hmutex none (Or.inr hheld) (Or.inl rfl))⟩
    · simp [Parker.poll,Frame.returned,Stage.holds]
    · exact fun hnone => ⟨rfl,(hpaid hnone).2⟩

theorem Stage.fits_outside (h : stage.parked = false) (unparkers : List Unparker) (p state : ℕ) :
    stage.Fits unparkers p state ↔ state = EMPTY ∨ state = NOTIFIED := by
  cases stage <;> first | exact Iff.rfl | cases h

theorem Stage.holds_outside (h : stage.parked = false) : stage.holds = false := by
  cases stage <;> first | rfl | cases h

theorem Ok.idle (h : Ok s) (hframes : s.frames = f::frames) (hstage : f.stage.parked = false) :
    ∃ q, s.parkers[f.parker]? = some q ∧ Resting q := by
  obtain ⟨q,hq,hactive⟩ := h.active f frames hframes
  refine ⟨q,hq,fun hparked => ?_,fun hlock => ?_⟩
  · rcases (Stage.fits_outside hstage _ _ _).mp hactive.fits with hstate | hstate <;>
      cases hstate.symm.trans hparked
  · have hholds := hactive.lock.mp hlock
    rw [Stage.holds_outside hstage] at hholds
    cases hholds

theorem Ok.all_resting (h : Ok s)
    (hpolling : ∀ f frames, s.frames = f::frames → f.stage = .polling) (hq : s.parkers[p]? = some q) :
    Resting q := by
  by_cases hused : ∃ f frames, s.frames = f::frames ∧ f.parker = p
  · obtain ⟨f,frames,hframes,rfl⟩ := hused
    obtain ⟨q',hq',hresting⟩ := h.idle hframes (by rw [hpolling f frames hframes]; rfl)
    cases hq.symm.trans hq'
    exact hresting
  · exact h.resting p q hq fun f frames hframes hp => hused ⟨f,frames,hframes,hp⟩

theorem Resting.active (h : Resting q) (hok : q.Ok) (unparkers : List Unparker)
    (hstage : f.stage = .polling) : Active unparkers f q := by
  constructor
  · rw [hstage]
    exact hok.state.imp_right fun hstate => hstate.resolve_left h.state
  · rw [hstage]
    exact ⟨fun hlock => absurd hlock h.lock,fun hholds => by cases hholds⟩

theorem Ok.call (h : Ok s) (hpolling : ∀ f frames, s.frames = f::frames → f.stage = .polling)
    (deadline : Option ℕ) : Ok (s.call deadline) := by
  have houter (g : Frame) (hg : g ∈ s.frames) : g.stage = .polling := by
    cases hframes : s.frames with
    | nil =>
      rw [hframes] at hg
      cases hg
    | cons f frames =>
      rw [hframes] at hg
      rcases List.mem_cons.mp hg with rfl | hg
      · exact hpolling g frames hframes
      · exact h.outer f frames hframes g hg
  have hpaid {p : ℕ} : (⟨p,deadline,.polling,0,0⟩ : Frame).Paid := fun _ => ⟨rfl,rfl⟩
  unfold State.call
  split
  · next hborrowed =>
    have hnonempty : s.frames ≠ [] := by
      intro hnil
      rw [h.borrowed,hnil] at hborrowed
      cases hborrowed
    refine ⟨?_,?_,?_,?_,?_,?_,?_,?_,?_,?_,?_,?_,?_,h.sound⟩
    · exact Table.forall_push h.parker .new
    · rintro _ _ ⟨⟩
      refine ⟨.new,List.getElem?_concat_length,Resting.active ⟨?_,?_⟩ .new _ rfl⟩
      · exact fun hstate => by cases hstate
      · exact fun hlock => by cases hlock
    · intro p q hq hoff
      rcases Table.getElem?_push hq with hq | ⟨rfl,-⟩
      · exact h.all_resting hpolling hq
      · exact absurd rfl (hoff _ _ rfl)
    · rintro _ _ ⟨⟩
      exact houter
    · refine List.nodup_cons.mpr ⟨fun hmem => ?_,h.distinct⟩
      obtain ⟨g,hg,hp⟩ := List.mem_map.mp hmem
      exact absurd hp (Nat.ne_of_lt (h.range g hg))
    · intro g hg
      rw [List.length_append]
      rcases List.mem_cons.mp hg with rfl | hg
      · exact Nat.lt_succ_self _
      · exact Nat.lt_succ_of_lt (h.range g hg)
    · intro g hg
      refine h.cached g ?_
      rwa [List.getLast?_cons_of_ne_nil hnonempty] at hg
    · exact hborrowed
    · intro g hg
      rcases List.mem_cons.mp hg with rfl | hg
      · exact hpaid
      · exact h.paid g hg
    · intro p q j hq hj
      rcases Table.getElem?_push hq with hq | ⟨-,rfl⟩
      · exact h.locked p q j hq hj
      · cases hj
    · intro j p hj
      obtain ⟨q,hq,hlock⟩ := h.holding j p hj
      exact ⟨q,Table.getElem?_push_old hq _,hlock⟩
    · intro j u hu
      rw [List.length_append]
      exact Nat.lt_succ_of_lt (h.target j u hu)
    · rw [List.length_append]
      exact Nat.succ_pos _
  · next hborrowed =>
    have hnil : s.frames = [] := by
      rw [h.borrowed] at hborrowed
      simpa using hborrowed
    obtain ⟨q₀,hq₀⟩ : ∃ q, s.parkers[0]? = some q := ⟨_,List.getElem?_eq_getElem h.cache⟩
    have hresting := h.all_resting hpolling hq₀
    rw [hnil,Table.modify_eq_set hq₀]
    have hrow {p : ℕ} {r : Parker} (hr : (s.parkers.set 0 q₀.poll)[p]? = some r) :
        ∃ q, s.parkers[p]? = some q ∧ r.lock = q.lock ∧ r.state = q.state ∧ (q.Ok → r.Ok) := by
      rcases Table.getElem?_set_cases hr with ⟨rfl,rfl⟩ | ⟨-,hr⟩
      · exact ⟨q₀,hq₀,rfl,rfl,Parker.Ok.poll⟩
      · exact ⟨r,hr,rfl,rfl,id⟩
    refine ⟨?_,?_,?_,?_,List.nodup_singleton _,?_,?_,rfl,?_,?_,?_,?_,?_,h.sound⟩
    · intro p r hr
      obtain ⟨q,hq,-,-,hok⟩ := hrow hr
      exact hok (h.parker p q hq)
    · rintro _ _ ⟨⟩
      refine ⟨q₀.poll,Table.getElem?_set_self' hq₀ _,?_⟩
      exact Resting.active (q:=q₀.poll) ⟨hresting.state,hresting.lock⟩ (h.parker 0 q₀ hq₀).poll _ rfl
    · intro p r hr _
      obtain ⟨q,hq,hlock,hstate,-⟩ := hrow hr
      have hrest := h.all_resting hpolling hq
      exact ⟨hstate ▸ hrest.state,hlock ▸ hrest.lock⟩
    · rintro _ _ ⟨⟩ g hg
      cases hg
    · intro g hg
      obtain rfl := List.mem_singleton.mp hg
      rw [List.length_set]
      exact h.cache
    · intro g hg
      cases hg
      rfl
    · intro g hg
      obtain rfl := List.mem_singleton.mp hg
      exact hpaid
    · intro p r j hr hj
      obtain ⟨q,hq,hlock,-⟩ := hrow hr
      exact h.locked p q j hq (hlock ▸ hj)
    · intro j p hj
      obtain ⟨q,hq,hlock⟩ := h.holding j p hj
      by_cases hp : p = 0
      · subst hp
        cases hq₀.symm.trans hq
        exact ⟨q₀.poll,Table.getElem?_set_self' hq₀ _,hlock⟩
      · exact ⟨q,(List.getElem?_set_ne (Ne.symm hp)).trans hq,hlock⟩
    · intro j u hu
      rw [List.length_set]
      exact h.target j u hu
    · rw [List.length_set]
      exact h.cache

theorem Ok.leave (h : Ok s) (hframes : s.frames = f::frames) (hstage : f.stage.parked = false) :
    Ok (s.leave f frames) := by
  have hnodup := h.distinct
  rw [hframes,List.map_cons,List.nodup_cons] at hnodup
  have hother (g : Frame) (hg : g ∈ frames) : g.parker ≠ f.parker := fun hp =>
    hnodup.1 (List.mem_map.mpr ⟨g,hg,hp⟩)
  have hmem (g : Frame) (hg : g ∈ frames) : g ∈ s.frames := by
    rw [hframes]
    exact List.mem_cons_of_mem f hg
  have hlast : frames.getLast? = s.frames.getLast? ∨ frames = [] := by
    rw [hframes]
    cases frames with
    | nil => exact Or.inr rfl
    | cons g frames => exact Or.inl rfl
  -- the parker of the call that returns rests, and the others rested before
  have hresting (p : ℕ) (q : Parker) (hq : s.parkers[p]? = some q) : Resting q := by
    by_cases hp : f.parker = p
    · subst hp
      obtain ⟨q',hq',hrest⟩ := h.idle hframes hstage
      cases hq.symm.trans hq'
      exact hrest
    · refine h.resting p q hq fun f' frames' hframes' => ?_
      cases hframes.symm.trans hframes'
      exact hp
  refine ⟨h.parker,?_,fun p q hq _ => hresting p q hq,?_,hnodup.2,?_,?_,?_,?_,h.locked,h.holding,
    h.target,h.cache,h.sound⟩
  · rintro g frames' (rfl : frames = g::frames')
    have hg : g ∈ s.frames := hmem g List.mem_cons_self
    have hq := List.getElem?_eq_getElem (h.range g hg)
    refine ⟨_,hq,(hresting _ _ hq).active (h.parker _ _ hq) _ ?_⟩
    exact h.outer f _ hframes g List.mem_cons_self
  · rintro g frames' (rfl : frames = g::frames') e he
    exact h.outer f _ hframes e (List.mem_cons_of_mem g he)
  · exact fun g hg => h.range g (hmem g hg)
  · intro g (hg : g ∈ frames.getLast?)
    rcases hlast with hlast | rfl
    · exact h.cached g (hlast ▸ hg)
    · cases hg
  · show (if f.parker = 0 then false else s.borrowed) = !frames.isEmpty
    have hborrowed := h.borrowed
    rw [hframes] at hborrowed
    cases frames with
    | nil =>
      rw [if_pos (h.cached f (by rw [hframes]; rfl))]
      rfl
    | cons g frames =>
      have hne : f.parker ≠ 0 := by
        intro hzero
        obtain ⟨e,he⟩ : ∃ e, e ∈ (g::frames).getLast? :=
          ⟨_,List.getLast?_eq_some_getLast (List.cons_ne_nil g frames)⟩
        have hcached := h.cached e (by rw [hframes]; exact he)
        exact hother e (List.mem_of_getLast? he) (hcached.trans hzero.symm)
      rw [if_neg hne,hborrowed]
      rfl
  · exact fun g hg => h.paid g (hmem g hg)

/-- The unparkers change. Only a thread that holds the mutex relies on one that waits for it,
and only a thread that sleeps on one that has yet to notify it. -/
theorem Stage.Fits.transfer {unparkers' : List Unparker} (h : stage.Fits unparkers p state)
    (hlocking : stage.holds = true → Locking unparkers p → Locking unparkers' p)
    (hpending : stage.sleeping = true → Pending unparkers p → Pending unparkers' p) :
    stage.Fits unparkers' p state := by
  cases stage with
  | waiting timeout => exact h.imp_right (And.imp_right (hlocking rfl))
  | asleep timeout => exact h.imp_right (And.imp_right (hpending rfl))
  | _ => exact h

theorem Stage.Fits.notified (h : stage.Fits unparkers p state) (hstate : state ≠ PARKED) :
    stage.Fits unparkers p NOTIFIED := by
  cases stage with
  | swapping => exact rfl
  | waiting | asleep => exact Or.inr ⟨rfl,(h.resolve_left hstate).2⟩
  | _ => exact Or.inr rfl

theorem Locking.fits (h : Locking unparkers p) (stage : Stage) : stage.Fits unparkers p NOTIFIED := by
  obtain ⟨i,hi⟩ := h
  cases stage with
  | swapping => exact rfl
  | waiting timeout => exact Or.inr ⟨rfl,i,hi⟩
  | asleep timeout => exact Or.inr ⟨rfl,i,_,hi,rfl,Or.inl rfl⟩
  | _ => exact Or.inr rfl

theorem Locking.set (h : Locking unparkers p) (hu : unparkers[i]? = some u)
    (hstage : u.parker = p → u.stage ≠ .locking) : Locking (unparkers.set i v) p := by
  obtain ⟨j,hj⟩ := h
  refine ⟨j,?_⟩
  rw [List.getElem?_set_ne]
  · exact hj
  · rintro rfl
    cases hu.symm.trans hj
    exact hstage rfl rfl

theorem Pending.set (h : Pending unparkers p) (hu : unparkers[i]? = some u) (hv : u.parker = p →
      v.parker = p ∧ (v.stage = .locking ∨ v.stage = .locked ∨ v.stage = .notifying)) :
    Pending (unparkers.set i v) p := by
  obtain ⟨j,w,hj,hp,hstage⟩ := h
  by_cases hji : j = i
  · subst hji
    cases hu.symm.trans hj
    exact ⟨j,v,Table.getElem?_set_self' hu v,hv hp⟩
  · exact ⟨j,w,(List.getElem?_set_ne (Ne.symm hji)).trans hj,hp,hstage⟩

/-- One step of an unparker. The parker it works on may be in use by the innermost call. -/
theorem Ok.unparked (h : Ok s) {stage stage' : UnparkStage} (hu : s.unparkers[i]? = some ⟨p,stage⟩)
    (hq : s.parkers[p]? = some q) (hok : q'.Ok)
    (hthread : q'.lock = some .thread ↔ q.lock = some .thread)
    (hpublished : q'.state = PARKED → q.state = PARKED)
    (hlock : ∀ j, q'.lock = some (.unparker j) ↔
      j = i ∧ stage' = .locked ∨ j ≠ i ∧ q.lock = some (.unparker j))
    (hfits : ∀ f frames, s.frames = f::frames → f.parker = p →
      f.stage.Fits (s.unparkers.set i ⟨p,stage'⟩) p q'.state) :
    Ok {s with parkers := s.parkers.set p q',unparkers := s.unparkers.set i ⟨p,stage'⟩} := by
  have hlen : (s.parkers.set p q').length = s.parkers.length := List.length_set
  refine ⟨?_,?_,?_,h.outer,h.distinct,?_,h.cached,h.borrowed,h.paid,?_,?_,?_,hlen ▸ h.cache,h.sound⟩
  · exact Table.forall_set h.parker hok
  · intro f frames hframes
    obtain ⟨r,hr,hactive⟩ := h.active f frames hframes
    by_cases hp : f.parker = p
    · subst hp
      cases hq.symm.trans hr
      exact ⟨q',Table.getElem?_set_self' hq q',hfits f frames hframes rfl,hthread.trans hactive.lock⟩
    · refine ⟨r,(List.getElem?_set_ne (Ne.symm hp)).trans hr,?_,hactive.lock⟩
      exact hactive.fits.transfer (fun _ hlocking => hlocking.set hu fun hp' => absurd hp'.symm hp)
        fun _ hpending => hpending.set hu fun hp' => absurd hp'.symm hp
  · intro p' r hr hoff
    rcases Table.getElem?_set_cases hr with ⟨rfl,rfl⟩ | ⟨-,hr⟩
    · have hrest := h.resting _ q hq hoff
      exact ⟨mt hpublished hrest.state,mt hthread.mp hrest.lock⟩
    · exact h.resting p' r hr hoff
  · intro f hf
    rw [hlen]
    exact h.range f hf
  · intro p' r j hr hj
    rcases Table.getElem?_set_cases hr with ⟨rfl,rfl⟩ | ⟨hp,hr⟩
    · rcases (hlock j).mp hj with ⟨rfl,rfl⟩ | ⟨hji,hj⟩
      · exact Table.getElem?_set_self' hu _
      · exact (List.getElem?_set_ne (Ne.symm hji)).trans (h.locked _ q j hq hj)
    · have hheld := h.locked p' r j hr hj
      refine (List.getElem?_set_ne ?_).trans hheld
      rintro rfl
      cases hu.symm.trans hheld
      exact hp rfl
  · intro j p' hj
    rcases Table.getElem?_set_cases hj with ⟨rfl,hv⟩ | ⟨hji,hj⟩
    · cases hv
      exact ⟨q',Table.getElem?_set_self' hq q',(hlock j).mpr (Or.inl ⟨rfl,rfl⟩)⟩
    · obtain ⟨r,hr,hheld⟩ := h.holding j p' hj
      by_cases hp : p' = p
      · subst hp
        cases hq.symm.trans hr
        exact ⟨q',Table.getElem?_set_self' hq q',(hlock j).mpr (Or.inr ⟨hji,hheld⟩)⟩
      · exact ⟨r,(List.getElem?_set_ne (Ne.symm hp)).trans hr,hheld⟩
  · intro j u hj
    rw [hlen]
    rcases Table.getElem?_set_cases hj with ⟨rfl,rfl⟩ | ⟨-,hj⟩
    · exact h.target j ⟨p,stage⟩ hu
    · exact h.target j u hj

theorem Ok.rouse (h : Ok s) (hframes : s.frames = f::frames) {timeout : Option ℕ}
    (hstage : f.stage = .asleep timeout) :
    Ok {s with frames := f.enter (.relocking timeout)::frames} := by
  obtain ⟨q,hq,hfits,hlock⟩ := h.active f frames hframes
  have hpaid : f.Paid := h.paid f (by rw [hframes]; exact List.mem_cons_self)
  rw [hstage] at hfits hlock
  refine h.restage hframes hq rfl ⟨hfits.imp_right And.left,hlock⟩ fun hnone => ?_
  have hcount := hpaid hnone
  rw [hstage] at hcount
  exact hcount

theorem State.notifyOne_cases (s : State) (p : ℕ) :
    (∃ f frames timeout, s.frames = f::frames ∧ f.parker = p ∧ f.stage = .asleep timeout ∧
      s.notifyOne p = {s with frames := f.enter (.relocking timeout)::frames}) ∨
    (s.notifyOne p = s ∧ ∀ f frames, s.frames = f::frames → f.parker = p → f.stage.sleeping = false) := by
  unfold State.notifyOne
  split
  · next f frames hframes =>
    split
    · next timeout hstage =>
      split
      · next hp => exact Or.inl ⟨f,frames,timeout,hframes,hp,hstage,rfl⟩
      · next hp =>
        refine Or.inr ⟨rfl,fun f' frames' hframes' hp' => ?_⟩
        cases hframes.symm.trans hframes'
        exact absurd hp' hp
    · next hawake =>
      refine Or.inr ⟨rfl,fun f' frames' hframes' _ => ?_⟩
      cases hframes.symm.trans hframes'
      cases hstage : f.stage with
      | asleep timeout => exact absurd hstage (hawake timeout)
      | _ => rfl
  · next hframes =>
    refine Or.inr ⟨rfl,fun f' frames' hframes' _ => ?_⟩
    cases hframes.symm.trans hframes'

theorem Ok.unpark (h : Ok s) (hu : s.unparkers[i]? = some u) (hx : s.unpark i u = some x) :
    ∃ t, x = .ok t ∧ Ok t := by
  obtain ⟨q,hq,hx⟩ := Option.bind_eq_some_iff.mp hx
  obtain ⟨p,stage⟩ := u
  simp only at hq hx
  have hok := h.parker p q hq
  -- the mutex is not touched by an unparker that does not hold it
  have hkeep {stage' : UnparkStage} (hstage : stage ≠ .locked) (hstage' : stage' ≠ .locked) (j : ℕ) :
      q.lock = some (.unparker j) ↔ j = i ∧ stage' = .locked ∨ j ≠ i ∧ q.lock = some (.unparker j) := by
    constructor
    · intro hj
      refine Or.inr ⟨?_,hj⟩
      rintro rfl
      cases hu.symm.trans (h.locked p q j hq hj)
      exact hstage rfl
    · rintro (⟨-,hlocked⟩ | ⟨-,hj⟩)
      · exact absurd hlocked hstage'
      · exact hj
  have htop {f : Frame} {frames : List Frame} (hframes : s.frames = f::frames) (hp : f.parker = p) :
      f.stage.Fits s.unparkers p q.state ∧ (q.lock = some .thread ↔ f.stage.holds = true) := by
    subst hp
    obtain ⟨q',hq',hfits,hlock⟩ := h.active f frames hframes
    cases hq.symm.trans hq'
    exact ⟨hfits,hlock⟩
  cases stage with
  | swapping =>
    simp only at hx
    split at hx
    · next hstate =>
      cases hx
      refine ⟨_,rfl,h.unparked hu hq hok.swapNotified Iff.rfl (fun hstate => by cases hstate)
        (hkeep (by decide) (by decide)) fun f frames hframes hp => ?_⟩
      have hne : q.state ≠ PARKED := by
        intro hparked
        rw [hparked] at hstate
        revert hstate
        decide
      refine ((htop hframes hp).1.notified hne).transfer ?_ ?_
      · exact fun _ hlocking => hlocking.set hu fun _ hstage => by cases hstage
      · rintro - ⟨j,w,hj,hw,hstage⟩
        refine ⟨j,w,(List.getElem?_set_ne ?_).trans hj,hw,hstage⟩
        rintro rfl
        cases hu.symm.trans hj
        rcases hstage with hstage | hstage | hstage <;> cases hstage
    · next hne =>
      have hparked : q.state = PARKED := by
        rcases hok.state with hstate | hstate | hstate
        · exact absurd (Or.inl hstate) hne
        · exact hstate
        · exact absurd (Or.inr hstate) hne
      rw [if_pos hparked] at hx
      cases hx
      refine ⟨_,rfl,h.unparked hu hq hok.swapNotified Iff.rfl (fun hstate => by cases hstate)
        (hkeep (by decide) (by decide)) fun f frames _ _ => ?_⟩
      exact Locking.fits ⟨i,Table.getElem?_set_self' hu _⟩ f.stage
  | locking =>
    obtain ⟨hfree,⟨⟩⟩ := Option.ite_none_right_eq_some.mp hx
    refine ⟨_,rfl,h.unparked hu hq (hok.setLock _) ?_ id ?_ fun f frames hframes hp => ?_⟩
    · rw [hfree]
      constructor <;> intro hthread <;> cases hthread
    · intro j
      rw [hfree]
      simp [eq_comm]
    · obtain ⟨hfits,hlock⟩ := htop hframes hp
      refine hfits.transfer (fun hholds _ => ?_) fun _ hpending => hpending.set hu fun _ => ?_
      · cases hfree.symm.trans (hlock.mpr hholds)
      · exact ⟨rfl,Or.inr (Or.inl rfl)⟩
  | locked =>
    cases hx
    obtain ⟨q₀,hq₀,hheld⟩ := h.holding i p hu
    cases hq.symm.trans hq₀
    refine ⟨_,rfl,h.unparked hu hq (hok.setLock _) ?_ id ?_ fun f frames hframes hp => ?_⟩
    · rw [hheld]
      constructor <;> intro hthread <;> cases hthread
    · intro j
      rw [hheld]
      simp [eq_comm]
    · obtain ⟨hfits,hlock⟩ := htop hframes hp
      refine hfits.transfer (fun hholds _ => ?_) fun _ hpending => hpending.set hu fun _ => ?_
      · cases hheld.symm.trans (hlock.mpr hholds)
      · exact ⟨rfl,Or.inr (Or.inr rfl)⟩
  | notifying =>
    cases hx
    refine ⟨_,rfl,?_⟩
    have hlocking {us : List Unparker} (hus : us[i]? = some ⟨p,.notifying⟩) (h : Locking us p) :
        Locking (us.set i ⟨p,.done⟩) p := h.set hus fun _ hstage => by cases hstage
    rcases State.notifyOne_cases
        {s with parkers := s.parkers.set p q,unparkers := s.unparkers.set i ⟨p,.done⟩} p with
      ⟨f,frames,timeout,hframes,hp,hstage,heq⟩ | ⟨heq,hawake⟩
    · rw [heq]
      -- the thread leaves the condition variable first
      refine (h.rouse hframes hstage).unparked hu hq hok Iff.rfl id (hkeep (by decide) (by decide)) ?_
      rintro _ _ ⟨⟩ hp
      obtain ⟨hfits,-⟩ := htop hframes hp
      rw [hstage] at hfits
      exact hfits.imp_right And.left
    · rw [heq]
      refine h.unparked hu hq hok Iff.rfl id (hkeep (by decide) (by decide)) ?_
      intro f frames hframes hp
      obtain ⟨hfits,-⟩ := htop hframes hp
      refine hfits.transfer (fun _ => hlocking hu) fun hsleeping => ?_
      rw [hawake f frames hframes hp] at hsleeping
      cases hsleeping
  | done => cases hx

theorem Ok.wake (h : Ok s) (hp : p < s.parkers.length) :
    Ok {s with unparkers := s.unparkers++[⟨p,.swapping⟩]} := by
  refine ⟨h.parker,?_,h.resting,h.outer,h.distinct,h.range,h.cached,h.borrowed,h.paid,?_,?_,?_,h.cache,
    h.sound⟩
  · intro f frames hframes
    obtain ⟨q,hq,hfits,hlock⟩ := h.active f frames hframes
    refine ⟨q,hq,hfits.transfer ?_ ?_,hlock⟩
    · rintro - ⟨j,hj⟩
      exact ⟨j,Table.getElem?_push_old hj _⟩
    · rintro - ⟨j,u,hj,hu⟩
      exact ⟨j,u,Table.getElem?_push_old hj _,hu⟩
  · intro p' q j hq hj
    exact Table.getElem?_push_old (h.locked p' q j hq hj) _
  · intro j p' hj
    rcases Table.getElem?_push hj with hj | ⟨-,hj⟩
    · exact h.holding j p' hj
    · cases hj
  · exact Table.forall_push h.target hp

/-- The innermost call is between two operations outside of the condition variable and does
not touch its parker. -/
theorem Ok.outside (h : Ok s) (hframes : s.frames = f::frames) (hold : f.stage.parked = false)
    (hfits : ∀ state, state = EMPTY ∨ state = NOTIFIED → stage.Fits s.unparkers f.parker state)
    (hholds : stage.holds = false) (howing : stage.owing = 0)
    (huntimed : f.deadline = none → stage.untimed = true) :
    Ok {s with frames := f.enter stage::frames} := by
  obtain ⟨q,hq,hactive⟩ := h.active f frames hframes
  have hpaid : f.Paid := h.paid f (by rw [hframes]; exact List.mem_cons_self)
  have hdue : f.stage.owing = 0 := by
    cases hstage : f.stage <;> first | rfl | (rw [hstage] at hold; cases hold)
  refine h.restage hframes hq rfl ⟨?_,?_⟩ fun hnone => ⟨huntimed hnone,?_⟩
  · exact hfits q.state ((Stage.fits_outside hold _ _ _).mp hactive.fits)
  · have hlock := hactive.lock
    rw [Stage.holds_outside hold] at hlock
    exact hlock.trans (by simp [Frame.enter,hholds])
  · have hcount := (hpaid hnone).2
    rw [hdue] at hcount
    simpa [Frame.enter,howing] using hcount

theorem Ok.act (h : Ok s) (hx : s.act a = some x) : ∃ t, x = .ok t ∧ Ok t := by
  cases a with
  | call deadline =>
    simp only [State.act] at hx
    split at hx
    · next hframes =>
      cases hx
      refine ⟨_,rfl,h.call (fun f frames hf => ?_) deadline⟩
      cases hframes.symm.trans hf
    · next f frames hframes =>
      obtain ⟨hstage,⟨⟩⟩ := Option.ite_none_right_eq_some.mp hx
      refine ⟨_,rfl,h.call (fun f' frames' hf => ?_) deadline⟩
      cases hframes.symm.trans hf
      exact hstage
  | ready =>
    simp only [State.act] at hx
    split at hx
    · cases hx
    · next f frames hframes =>
      obtain ⟨hstage,⟨⟩⟩ := Option.ite_none_right_eq_some.mp hx
      exact ⟨_,rfl,h.leave hframes (by rw [hstage]; rfl)⟩
  | pending =>
    simp only [State.act] at hx
    split at hx
    · cases hx
    · next f frames hframes =>
      split at hx
      · next hstage =>
        have hold : f.stage.parked = false := by rw [hstage]; rfl
        split at hx
        · cases hx
          exact ⟨_,rfl,h.outside hframes hold (fun _ => id) rfl rfl fun _ => rfl⟩
        · next d hdeadline =>
          cases hx
          refine ⟨_,rfl,h.outside hframes hold (fun _ => id) rfl rfl fun hnone => ?_⟩
          cases hdeadline.symm.trans hnone
      · cases hx
  | clock now =>
    simp only [State.act] at hx
    split at hx
    · cases hx
    · next f frames hframes =>
      split at hx
      · next deadline hstage hdeadline =>
        have hold : f.stage.parked = false := by rw [hstage]; rfl
        split at hx
        · cases hx
          exact ⟨_,rfl,h.leave hframes hold⟩
        · cases hx
          refine ⟨_,rfl,h.outside hframes hold (fun _ => id) rfl rfl fun hnone => ?_⟩
          cases hdeadline.symm.trans hnone
      · cases hx
  | proceed =>
    simp only [State.act] at hx
    split at hx
    · cases hx
    · next f frames hframes =>
      obtain ⟨q,hq,hx⟩ := Option.bind_eq_some_iff.mp hx
      obtain ⟨y,hy,rfl⟩ := Option.map_eq_some_iff.mp hx
      obtain ⟨g,q',rfl,hok⟩ := h.park hframes hq hy
      exact ⟨_,rfl,hok⟩
  | rouse =>
    simp only [State.act] at hx
    split at hx
    · cases hx
    · next f frames hframes =>
      split at hx
      · next timeout hstage =>
        cases hx
        exact ⟨_,rfl,h.rouse hframes hstage⟩
      · cases hx
  | wake p =>
    obtain ⟨hp,⟨⟩⟩ := Option.ite_none_right_eq_some.mp hx
    exact ⟨_,rfl,h.wake hp⟩
  | unpark i =>
    obtain ⟨u,hu,hx⟩ := Option.bind_eq_some_iff.mp hx
    exact h.unpark hu hx

theorem Ok.next (h : Ok s) (hn : s.next a = some t) : s.act a = some (.ok t) ∧ Ok t :=
  Transition.step_ok (fun _ => h.act) hn

theorem new_ok : Ok new := by
  refine ⟨?_,?_,?_,?_,List.nodup_nil,?_,?_,rfl,?_,?_,?_,?_,Nat.one_pos,rfl⟩
  · intro p q hq
    rcases Table.getElem?_push (l:=[]) hq with hq | ⟨-,rfl⟩
    · cases hq
    · exact .new
  · rintro _ _ ⟨⟩
  · intro p q hq _
    rcases Table.getElem?_push (l:=[]) hq with hq | ⟨-,rfl⟩
    · cases hq
    · exact ⟨by decide,by decide⟩
  · rintro _ _ ⟨⟩
  · exact fun f hf => by cases hf
  · exact fun f hf => by cases hf
  · exact fun f hf => by cases hf
  · intro p q j hq hj
    rcases Table.getElem?_push (l:=[]) hq with hq | ⟨-,rfl⟩
    · cases hq
    · cases hj
  · exact fun j p hj => by cases hj
  · exact fun j u hj => by cases hj

theorem reachable_ok (h : machine.Reachable s) : Ok s := by
  refine machine.invariant Ok ?_ ?_ h
  · rintro _ rfl
    exact new_ok
  · exact fun s a t hs hn => (hs.next hn).2

end Steps
end Blocking
end Asyncband
