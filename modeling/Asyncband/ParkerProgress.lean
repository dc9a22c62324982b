import Asyncband.ParkerWakeups

/-! A park that was notified returns.
Each step of the thread inside of the park and each step of an unparker brings the return
nearer, and one of them is always possible: whoever holds the mutex can give it back, and a
thread that sleeps has an unparker that is still going to notify it. -/
namespace Asyncband
namespace Blocking

open Transition

/-- How far a park that was notified is from its return. -/
def Stage.rank : Stage → ℕ
  | .polling | .clock => 0
  | .token _ => 10
  | .yielding => 9
  | .locking _ => 8
  | .publishing _ => 7
  | .swapping => 6
  | .waiting _ => 5
  | .asleep _ => 4
  | .relocking _ => 3
  | .checking _ => 2
  | .leaving => 1

def UnparkStage.rank : UnparkStage → ℕ
  | .swapping => 4
  | .locking => 3
  | .locked => 2
  | .notifying => 1
  | .done => 0

/-- Steps that the thread inside of a park or an unparker takes of itself. -/
def Action.own : Action → Prop
  | .proceed | .unpark _ => True
  | _ => False

/-- The same steps, and the returns of the condition variable for no reason. -/
def Action.free : Action → Prop
  | .proceed | .unpark _ | .rouse => True
  | _ => False

section Steps

variable {s t : State} {f g : Frame} {frames : List Frame} {q q' : Parker} {p i : ℕ}
variable {u : Unparker} {parks : ℕ} {a : Action}

/-- A step of a park that was notified: it returns, or gets nearer to its return. -/
theorem Frame.park_notified (hparked : f.stage.parked = true)
    (hnotified : q.state = NOTIFIED ∨ f.stage = .leaving) (hx : f.park q = some (.ok (g,q'))) :
    g.parker = f.parker ∧ (g.stage = .polling ∧ g.parks = f.parks+1 ∨
      g.stage.parked = true ∧ g.parks = f.parks ∧ (q'.state = NOTIFIED ∨ g.stage = .leaving) ∧
        g.stage.rank < f.stage.rank) := by
  have hconsume (hstate : q.state = NOTIFIED) : q.consume = some q.swapEmpty := if_pos hstate
  obtain ⟨p,deadline,stage,parks,consumed⟩ := f
  cases stage with
  | polling => cases hx
  | clock => cases hx
  | asleep timeout => cases hx
  | token | yielding =>
    have hstate := hnotified.resolve_right (by simp)
    simp only [Frame.park,hconsume hstate] at hx
    cases hx
    exact ⟨rfl,Or.inl ⟨rfl,rfl⟩⟩
  | locking | relocking =>
    have hstate := hnotified.resolve_right (by simp)
    obtain ⟨-,⟨⟩⟩ := Option.ite_none_right_eq_some.mp hx
    exact ⟨rfl,Or.inr ⟨rfl,rfl,Or.inl hstate,Nat.le_of_ble_eq_true rfl⟩⟩
  | publishing timeout =>
    have hstate := hnotified.resolve_right (by simp)
    simp only [Frame.park,hstate] at hx
    cases hx
    exact ⟨rfl,Or.inr ⟨rfl,rfl,Or.inl hstate,Nat.le_of_ble_eq_true rfl⟩⟩
  | swapping =>
    have hstate := hnotified.resolve_right (by simp)
    simp only [Frame.park,if_pos hstate] at hx
    cases hx
    exact ⟨rfl,Or.inr ⟨rfl,rfl,Or.inr rfl,Nat.le_of_ble_eq_true rfl⟩⟩
  | waiting timeout =>
    have hstate := hnotified.resolve_right (by simp)
    cases hx
    exact ⟨rfl,Or.inr ⟨rfl,rfl,Or.inl hstate,Nat.le_of_ble_eq_true rfl⟩⟩
  | checking timeout =>
    have hstate := hnotified.resolve_right (by simp)
    cases timeout with
    | none =>
      simp only [Frame.park,hconsume hstate] at hx
      cases hx
      exact ⟨rfl,Or.inr ⟨rfl,rfl,Or.inr rfl,Nat.le_of_ble_eq_true rfl⟩⟩
    | some d =>
      simp only [Frame.park,if_pos hstate] at hx
      cases hx
      exact ⟨rfl,Or.inr ⟨rfl,rfl,Or.inr rfl,Nat.le_of_ble_eq_true rfl⟩⟩
  | leaving =>
    cases hx
    exact ⟨rfl,Or.inl ⟨rfl,rfl⟩⟩

structure Nudge (s : State) (i : ℕ) (u : Unparker) (t : State) : Prop where
  parker : ∃ q q', s.parkers[u.parker]? = some q ∧ t.parkers = s.parkers.set u.parker q' ∧
    q'.consumed = q.consumed ∧ (q'.state = q.state ∨ q'.state = NOTIFIED)
  unparker : ∃ stage, t.unparkers = s.unparkers.set i ⟨u.parker,stage⟩ ∧ stage.rank < u.stage.rank
  frames : t.frames = s.frames ∨ ∃ f frames timeout, s.frames = f::frames ∧ f.stage = .asleep timeout ∧
    t.frames = f.enter (.relocking timeout)::frames

theorem State.unpark_nudge (hx : s.unpark i u = some (.ok t)) : Nudge s i u t := by
  obtain ⟨q,hq,hx⟩ := Option.bind_eq_some_iff.mp hx
  obtain ⟨p,stage⟩ := u
  simp only at hq hx
  cases stage with
  | swapping =>
    simp only at hx
    split at hx
    · cases hx
      exact ⟨⟨q,_,hq,rfl,rfl,Or.inr rfl⟩,⟨_,rfl,Nat.le_of_ble_eq_true rfl⟩,Or.inl rfl⟩
    · split at hx
      · cases hx
        exact ⟨⟨q,_,hq,rfl,rfl,Or.inr rfl⟩,⟨_,rfl,Nat.le_of_ble_eq_true rfl⟩,Or.inl rfl⟩
      · cases hx
  | locking =>
    obtain ⟨-,⟨⟩⟩ := Option.ite_none_right_eq_some.mp hx
    exact ⟨⟨q,_,hq,rfl,rfl,Or.inl rfl⟩,⟨_,rfl,Nat.le_of_ble_eq_true rfl⟩,Or.inl rfl⟩
  | locked =>
    cases hx
    exact ⟨⟨q,_,hq,rfl,rfl,Or.inl rfl⟩,⟨_,rfl,Nat.le_of_ble_eq_true rfl⟩,Or.inl rfl⟩
  | notifying =>
    cases hx
    rcases State.notifyOne_cases
        {s with parkers := s.parkers.set p q,unparkers := s.unparkers.set i ⟨p,.done⟩} p with
      ⟨f,frames,timeout,hframes,-,hstage,heq⟩ | ⟨heq,-⟩
    · rw [heq]
      exact ⟨⟨q,q,hq,rfl,rfl,Or.inl rfl⟩,⟨_,rfl,Nat.le_of_ble_eq_true rfl⟩,
        Or.inr ⟨f,frames,timeout,hframes,hstage,rfl⟩⟩
    · rw [heq]
      exact ⟨⟨q,q,hq,rfl,rfl,Or.inl rfl⟩,⟨_,rfl,Nat.le_of_ble_eq_true rfl⟩,Or.inl rfl⟩
  | done => cases hx

/-- The innermost call parks on `p`, and a notification is there or was taken. -/
structure Notified (p parks : ℕ) (frames : List Frame) (s : State) : Prop where
  ok : Ok s
  top : ∃ f q, s.frames = f::frames ∧ f.parker = p ∧ f.parks = parks ∧ f.stage.parked = true ∧
    s.parkers[p]? = some q ∧ (q.state = NOTIFIED ∨ f.stage = .leaving)

def Returned (p parks : ℕ) (frames : List Frame) (s : State) : Prop :=
  ∃ f, s.frames = f::frames ∧ f.parker = p ∧ f.stage = .polling ∧ f.parks = parks+1

def State.distance (s : State) : ℕ :=
  (s.frames.head?.elim 0 fun f => f.stage.rank)+Table.total (fun u => u.stage.rank) s.unparkers

theorem State.distance_eq (hframes : s.frames = f::frames) :
    s.distance = f.stage.rank+Table.total (fun u => u.stage.rank) s.unparkers := by
  rw [State.distance,hframes]
  rfl

theorem Notified.step (h : Notified p parks frames s) (ha : a.free) (hn : s.next a = some t) :
    Returned p parks frames t ∨ Notified p parks frames t ∧ t.distance < s.distance := by
  obtain ⟨hact,hok⟩ := h.ok.next hn
  obtain ⟨f,q,hframes,hp,hparks,hparked,hq,hnotified⟩ := h.top
  subst hp
  -- the condition variable is left
  have hroused {timeout : Option ℕ} (hstage : f.stage = .asleep timeout) :
      q.state = NOTIFIED ∧ (Stage.relocking timeout).rank < f.stage.rank := by
    rw [hstage] at hnotified ⊢
    exact ⟨hnotified.resolve_right (by simp),Nat.le_of_ble_eq_true rfl⟩
  cases a with
  | proceed =>
    simp only [State.act,hframes,hq,Option.bind_some] at hact
    obtain ⟨x,hx,hxt⟩ := Option.map_eq_some_iff.mp hact
    cases x with
    | error message => cases hxt
    | ok x =>
      obtain ⟨g,q'⟩ := x
      cases hxt
      obtain ⟨hparker,hreturned | ⟨hparked',hparks',hnotified',hrank⟩⟩ :=
        Frame.park_notified hparked hnotified hx
      · exact Or.inl ⟨g,rfl,hparker,hreturned.1,hreturned.2.trans (by rw [hparks])⟩
      · refine Or.inr ⟨⟨hok,g,q',rfl,hparker,hparks'.trans hparks,hparked',?_,hnotified'⟩,?_⟩
        · exact Table.getElem?_set_self' hq q'
        · rw [State.distance_eq hframes]
          exact Nat.add_lt_add_right hrank _
  | rouse =>
    simp only [State.act,hframes] at hact
    split at hact
    · next timeout hstage =>
      cases hact
      obtain ⟨hstate,hrank⟩ := hroused hstage
      refine Or.inr ⟨⟨hok,_,q,rfl,rfl,hparks,rfl,hq,Or.inl hstate⟩,?_⟩
      rw [State.distance_eq hframes]
      exact Nat.add_lt_add_right hrank _
    · cases hact
  | unpark i =>
    obtain ⟨u,hu,hact⟩ := Option.bind_eq_some_iff.mp hact
    obtain ⟨⟨r,r',hr,hparkers,-,hstate⟩,⟨stage,hunparkers,hrank⟩,hthread⟩ := State.unpark_nudge hact
    -- a notification stays, and the unparkers get nearer to their ends
    obtain ⟨q',hq',hkept⟩ : ∃ q', t.parkers[f.parker]? = some q' ∧
        (q.state = NOTIFIED → q'.state = NOTIFIED) := by
      rw [hparkers]
      by_cases hp : u.parker = f.parker
      · rw [hp] at hr ⊢
        cases hq.symm.trans hr
        refine ⟨r',Table.getElem?_set_self' hq r',fun hnotified => ?_⟩
        exact hstate.elim (fun hsame => hsame.trans hnotified) id
      · exact ⟨q,(List.getElem?_set_ne hp).trans hq,id⟩
    have htotal := Table.total_set (fun u => u.stage.rank) hu ⟨u.parker,stage⟩
    rw [← hunparkers] at htotal
    simp only at htotal
    rw [State.distance_eq hframes]
    rcases hthread with hsame | ⟨f',frames',timeout,hframes',hstage,hroused'⟩
    · rw [hframes] at hsame
      refine Or.inr ⟨⟨hok,f,q',hsame,rfl,hparks,hparked,hq',hnotified.imp_left hkept⟩,?_⟩
      rw [State.distance_eq hsame]
      omega
    · cases hframes.symm.trans hframes'
      obtain ⟨hstate,hless⟩ := hroused hstage
      refine Or.inr ⟨⟨hok,_,q',hroused',rfl,hparks,rfl,hq',Or.inl (hkept hstate)⟩,?_⟩
      rw [State.distance_eq hroused']
      simp only [Frame.enter]
      omega
  | call | ready | pending | clock | wake => cases ha

theorem Ok.enabled (h : Ok s) (hx : (s.act a).isSome = true) : ∃ t, s.next a = some t := by
  obtain ⟨x,hx⟩ := Option.isSome_iff_exists.mp hx
  exact ⟨_,Transition.step_settle h.sound hx⟩

theorem Ok.enabled_unpark (h : Ok s) (hu : s.unparkers[i]? = some u)
    (hx : (s.unpark i u).isSome = true) : ∃ a t, a.own ∧ s.next a = some t := by
  obtain ⟨t,ht⟩ := h.enabled (a:=.unpark i) (by simpa only [State.act,hu,Option.bind_some] using hx)
  exact ⟨.unpark i,t,trivial,ht⟩

theorem Ok.mutex (h : Ok s) (hq : s.parkers[p]? = some q) (hheld : q.lock ≠ none)
    (hthread : q.lock ≠ some .thread) : ∃ a t, a.own ∧ s.next a = some t := by
  cases hlock : q.lock with
  | none => exact absurd hlock hheld
  | some holder =>
    cases holder with
    | thread => exact absurd hlock hthread
    | unparker i =>
      refine h.enabled_unpark (h.locked p q i hq hlock) ?_
      simp only [State.unpark,hq]
      rfl

/-- While a park that was notified has not returned, the thread or an unparker can move. -/
theorem Notified.enabled (h : Notified p parks frames s) : ∃ a t, a.own ∧ s.next a = some t := by
  obtain ⟨f,q,hframes,rfl,-,hparked,hq,hnotified⟩ := h.top
  obtain ⟨q₀,hq₀,hfits,hlock⟩ := h.ok.active f frames hframes
  cases hq.symm.trans hq₀
  have hproceed (hx : (f.park q).isSome = true) : ∃ a t, a.own ∧ s.next a = some t := by
    obtain ⟨x,hx⟩ := Option.isSome_iff_exists.mp hx
    obtain ⟨t,ht⟩ := h.ok.enabled (a:=.proceed) (by simp only [State.act,hframes,hq,Option.bind_some,hx]; rfl)
    exact ⟨.proceed,t,trivial,ht⟩
  -- the mutex is free, or an unparker has it
  have hwait (hholds : f.stage.holds = false)
      (hfree : q.lock = none → ∃ a t, a.own ∧ s.next a = some t) : ∃ a t, a.own ∧ s.next a = some t := by
    by_cases hnone : q.lock = none
    · exact hfree hnone
    · refine h.ok.mutex hq hnone fun hthread => ?_
      rw [hlock.mp hthread] at hholds
      cases hholds
  obtain ⟨p,deadline,stage,parks,consumed⟩ := f
  cases stage with
  | polling => cases hparked
  | clock => cases hparked
  | token | yielding | swapping =>
    refine hproceed ?_
    simp only [Frame.park]
    split <;> rfl
  | locking | relocking =>
    refine hwait rfl fun hnone => hproceed ?_
    simp only [Frame.park,if_pos hnone,Option.isSome_some]
  | publishing timeout =>
    refine hproceed ?_
    simp only [Frame.park]
    split
    · rfl
    · split <;> rfl
  | waiting timeout => exact hproceed rfl
  | asleep timeout =>
    have hstate := hnotified.resolve_right (by simp)
    have hpending : Pending s.unparkers p := by
      rcases hfits with hstate' | ⟨-,hpending⟩
      · cases hstate.symm.trans hstate'
      · exact hpending
    obtain ⟨i,⟨p',stage⟩,hu,rfl,hstage⟩ := hpending
    rcases hstage with rfl | rfl | rfl
    · refine hwait rfl fun hnone => h.ok.enabled_unpark hu ?_
      simp only [State.unpark,hq,Option.bind_some,if_pos hnone,Option.isSome_some]
    · refine h.ok.enabled_unpark hu ?_
      simp only [State.unpark,hq]
      rfl
    · refine h.ok.enabled_unpark hu ?_
      simp only [State.unpark,hq]
      rfl
  | checking timeout =>
    refine hproceed ?_
    cases timeout with
    | none =>
      simp only [Frame.park]
      split <;> rfl
    | some d =>
      simp only [Frame.park]
      split
      · rfl
      · split <;> rfl
  | leaving => exact hproceed rfl

theorem Notified.returns (h : Notified p parks frames s) :
    machine.Inevitably Action.own Action.free (Returned p parks frames) s :=
  .of_measure machine (Notified p parks frames) State.distance (fun _ h => h.enabled)
    (fun _ _ _ h ha hn => h.step ha hn) h

theorem Ok.nested (h : Ok s) (hframes : s.frames = f::frames) (hg : g ∈ frames)
    (hq : s.parkers[g.parker]? = some q) (hn : s.next a = some t) :
    ∃ q', t.parkers[g.parker]? = some q' ∧ q'.consumed = q.consumed ∧
      (q.state = NOTIFIED → q'.state = NOTIFIED) := by
  obtain ⟨hact,-⟩ := h.next hn
  have hother : f.parker ≠ g.parker := by
    have hnodup := h.distinct
    rw [hframes,List.map_cons,List.nodup_cons] at hnodup
    exact fun hp => hnodup.1 (List.mem_map.mpr ⟨g,hg,hp.symm⟩)
  have hsame (heq : t.parkers = s.parkers) : ∃ q', t.parkers[g.parker]? = some q' ∧
      q'.consumed = q.consumed ∧ (q.state = NOTIFIED → q'.state = NOTIFIED) := ⟨q,heq ▸ hq,rfl,id⟩
  cases a with
  | call deadline =>
    have hborrowed : s.borrowed = true := by rw [h.borrowed,hframes]; rfl
    simp only [State.act,hframes] at hact
    obtain ⟨-,⟨⟩⟩ := Option.ite_none_right_eq_some.mp hact
    simp only [State.call,hborrowed,if_true]
    exact ⟨q,Table.getElem?_push_old hq _,rfl,id⟩
  | ready =>
    simp only [State.act,hframes] at hact
    obtain ⟨-,⟨⟩⟩ := Option.ite_none_right_eq_some.mp hact
    exact hsame rfl
  | pending =>
    simp only [State.act,hframes] at hact
    obtain ⟨-,hact⟩ := Option.ite_none_right_eq_some.mp hact
    split at hact <;> cases hact <;> exact hsame rfl
  | clock now =>
    simp only [State.act,hframes] at hact
    split at hact
    · split at hact <;> cases hact <;> exact hsame rfl
    · cases hact
  | proceed =>
    simp only [State.act,hframes] at hact
    obtain ⟨r,-,hact⟩ := Option.bind_eq_some_iff.mp hact
    obtain ⟨x,-,hxt⟩ := Option.map_eq_some_iff.mp hact
    cases x with
    | error message => cases hxt
    | ok x =>
      cases hxt
      exact ⟨q,(List.getElem?_set_ne hother).trans hq,rfl,id⟩
  | rouse =>
    simp only [State.act,hframes] at hact
    split at hact
    · cases hact
      exact hsame rfl
    · cases hact
  | wake p =>
    obtain ⟨-,⟨⟩⟩ := Option.ite_none_right_eq_some.mp hact
    exact hsame rfl
  | unpark i =>
    obtain ⟨u,hu,hact⟩ := Option.bind_eq_some_iff.mp hact
    obtain ⟨r,r',hr,hparkers,hconsumed,hstate⟩ := (State.unpark_nudge hact).parker
    rw [hparkers]
    by_cases hp : u.parker = g.parker
    · rw [hp] at hr ⊢
      cases hq.symm.trans hr
      refine ⟨r',Table.getElem?_set_self' hq r',hconsumed,fun hnotified => ?_⟩
      exact hstate.elim (fun hsame => hsame.trans hnotified) id
    · exact ⟨q,(List.getElem?_set_ne hp).trans hq,rfl,id⟩

/-- The thread sleeps on a parker that holds a notification: somebody is about to notify it. -/
theorem Ok.awaited (h : Ok s) (hframes : s.frames = f::frames) (hq : s.parkers[f.parker]? = some q)
    (hnotified : q.state = NOTIFIED) (hsleeping : f.stage.sleeping = true) :
    Pending s.unparkers f.parker := by
  obtain ⟨q₀,hq₀,hfits,-⟩ := h.active f frames hframes
  cases hq.symm.trans hq₀
  cases hstage : f.stage with
  | asleep timeout =>
    rw [hstage] at hfits
    rcases hfits with hparked | ⟨-,hpending⟩
    · cases hnotified.symm.trans hparked
    · exact hpending
  | _ =>
    rw [hstage] at hsleeping
    cases hsleeping

end Steps

structure State.Contract (s : State) : Prop where
  /-- A notification since the latest poll stays until it is consumed. -/
  stored : ∀ (p : ℕ) q, s.parkers[p]? = some q → q.fresh = true → q.state = NOTIFIED
  /-- Every stored notification was consumed, except for the one that is there. -/
  accounted : ∀ (p : ℕ) q, s.parkers[p]? = some q →
    q.stored = q.consumed+if q.state = NOTIFIED then 1 else 0
  /-- The thread does not sleep on a notification unless an unparker has yet to notify it. -/
  awaited : ∀ f frames q, s.frames = f::frames → s.parkers[f.parker]? = some q →
    q.state = NOTIFIED → f.stage.sleeping = true → Pending s.unparkers f.parker
  /-- A park with a notification returns. -/
  returns : ∀ f frames q, s.frames = f::frames → s.parkers[f.parker]? = some q →
    q.state = NOTIFIED → f.stage.parked = true →
    machine.Inevitably Action.own Action.free (Returned f.parker f.parks frames) s
  /-- Each park without deadline that returned consumed one notification. -/
  untimed : ∀ f ∈ s.frames, f.deadline = none → f.consumed = f.parks+f.stage.owing
  /-- No step of a nested call takes a notification of an outer call. -/
  nested : ∀ f frames, s.frames = f::frames → ∀ g ∈ frames, ∀ q, s.parkers[g.parker]? = some q →
    ∀ a t, s.next a = some t → ∃ q', t.parkers[g.parker]? = some q' ∧ q'.consumed = q.consumed ∧
      (q.state = NOTIFIED → q'.state = NOTIFIED)
  sound : s.panicked = none

/-- Blocking waits never miss a wake-up. -/
theorem blocking_waits_wake {s : State} (h : machine.Reachable s) : s.Contract := by
  have hok := reachable_ok h
  constructor
  · exact fun p q hq => (hok.parker p q hq).fresh
  · exact fun p q hq => (hok.parker p q hq).accounted
  · exact fun f frames q hframes hq => hok.awaited hframes hq
  · intro f frames q hframes hq hnotified hparked
    exact Notified.returns ⟨hok,f,q,hframes,rfl,rfl,hparked,hq,Or.inl hnotified⟩
  · exact fun f hf hnone => (hok.paid f hf hnone).2
  · exact fun f frames hframes g hg q hq a t hn => hok.nested hframes hg hq hn
  · exact hok.sound

/-- A nested timed wait expires while it is notified, the notification of its condition
variable comes late, and the outer call is woken twice: before it parks, and between
publishing its parker and going to sleep. -/
def nestedRun : List Action :=
  [.call none,.call (some 5),.pending,.clock 3,.proceed,.proceed,.proceed,.wake 1,.wake 0,.unpark 1,
    .proceed,.rouse,.unpark 0,.proceed,.proceed,.proceed,.unpark 0,.unpark 0,.ready,
    .pending,.proceed,.pending,.proceed,.proceed,.proceed,.proceed,.unpark 0,.wake 0,.unpark 2,.proceed]

theorem blocking_waits_wake_nestedRun : ∃ s : State, machine.Reachable s ∧ s.Contract ∧
    s.frames = [⟨0,none,.asleep none,1,1⟩] ∧ s.parkers[0]? = some ⟨NOTIFIED,none,2,1,true⟩ ∧
    Pending s.unparkers 0 := by
  have hrun : (machine.exec new nestedRun).map (fun s => (s.frames,s.parkers[0]?)) =
      some ([⟨0,none,.asleep none,1,1⟩],some ⟨NOTIFIED,none,2,1,true⟩) := by
    decide +kernel
  obtain ⟨s,hs,hend⟩ := Option.map_eq_some_iff.mp hrun
  simp only [Prod.mk.injEq] at hend
  obtain ⟨hframes,hq⟩ := hend
  have hreach : machine.Reachable s := machine.reachable_of_exec rfl hs
  have hcontract := blocking_waits_wake hreach
  exact ⟨s,hreach,hcontract,hframes,hq,hcontract.awaited _ _ _ hframes hq rfl rfl⟩

end Blocking
end Asyncband
