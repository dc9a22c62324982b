import Asyncband.AutoResetEvent

/-! Where the signals of an auto-reset event are.
A signal is stored, held by a selected wait, consumed, merged into a stored one or
cleared. Inside a step it may also be in the hands of the running code; `Ok` counts those
signals as `spare`, so that `signal` is the step that places one of them. -/
namespace Asyncband
namespace AutoResetEvent

variable {W : Type} {s : State W}

structure Ok [Wake W] (isSet : Bool) (spare : ℕ) (s : State W) : Prop where
  roster : Roster s.waiters (Table.lookup Wait.waiter s.waits) (Table.lookup Wait.lastWaker s.waits)
    s.woken
  exclusive : s.isSet = true → s.waiters.order = []
  balance : s.sets+isSet.toNat = Table.total Wait.completed s.waits+s.answers.count true+s.isSet.toNat+
    s.waiters.notified+s.merged+s.cleared+spare
  line : Line Wait.live Wait.fresh s.waits s.registered s.assigned s.waiters.owners
  sound : s.panicked = none

theorem State.Selected.keep {t : State W} {g : ℕ} (h : s.Selected g)
    (hwaits : t.waits[g]? = s.waits[g]?)
    (hget : ∀ id, s.waiters.get? id = some ⟨.notified,g⟩ → t.waiters.get? id = some ⟨.notified,g⟩) :
    t.Selected g := by
  obtain ⟨c,id,hc,hid,hn⟩ := h
  exact ⟨c,id,hwaits.trans hc,hid,hget id hn⟩

namespace Ok

variable [Wake W] {isSet : Bool} {spare : ℕ} {s : State W} {f : ℕ} {c : Wait W}
variable {id : WaiterId} {last : Option W}

theorem new : Ok isSet 0 (withState W isSet) where
  roster := Registry.new
  exclusive _ := WaitList.order_new
  balance := by
    simp [withState,Waiters.notified]
  line := by
    have howners : (withState W isSet).waiters.owners = [] := by
      rw [Waiters.owners_eq]
      exact congrArg (List.map Registration.owner) (WaitList.queue_nil WaitList.order_new)
    rw [howners]
    exact Line.empty
  sound := rfl

theorem selected_eq (h : Ok isSet spare s) : s.selected = s.waiters.notified := by
  have htotal := s.waiters.total_owned s.waits Wait.waiter (fun r => some r.owner)
    (by
      intro f c id hc hid
      obtain ⟨r,hr,rfl⟩ := h.roster.held f id ((Table.lookup_eq hc).trans hid)
      exact ⟨r,hr,rfl⟩)
    (by
      rintro id r f hr ⟨⟩
      exact Option.bind_eq_some_iff.mp (h.roster.owned id r hr)) fun r => r.waiter.mark
  simp only [Option.isSome_some,if_true] at htotal
  exact htotal.symm

theorem row {r : Registration W} (h : Ok isSet spare s) (hr : s.waiters.get? id = some r) :
    ∃ c, s.waits[r.owner]? = some c ∧ c.stage = .waiting id := by
  obtain ⟨c,hc,hid⟩ := Option.bind_eq_some_iff.mp (h.roster.owned id r hr)
  refine ⟨c,hc,?_⟩
  rw [Wait.waiter] at hid
  split at hid
  · next id' hstage =>
    cases hid
    exact hstage
  · cases hid

theorem signal (h : Ok isSet (spare+1) s) :
    ∃ t, s.signal = .ok t ∧ Ok isSet spare t ∧ t.waits = s.waits ∧
      (∀ id g, s.waiters.get? id = some ⟨.notified,g⟩ → t.waiters.get? id = some ⟨.notified,g⟩) ∧
      (s.waiters.owners = [] ∧ t.isSet = true ∧ t.waiters = s.waiters ∨
        ∃ g, s.waiters.owners = g::t.waiters.owners ∧ t.isSet = s.isSet ∧ t.Selected g) := by
  have hbalance := h.balance
  rcases h.roster.selectFirst select fun _ _ => rfl with
    ⟨ho,hsel⟩ | ⟨id,g,waker,w,hsel,hr,hg,howners,hcount,hroster⟩
  · have howners : s.waiters.owners = [] := by rw [Waiters.owners,ho,List.filterMap_nil]
    refine ⟨{s with isSet := true,merged := s.merged+s.isSet.toNat},?_,?_,rfl,fun _ _ h => h,
      Or.inl ⟨howners,rfl,rfl⟩⟩
    · simp only [State.signal,hsel,bind,Except.bind]
    · refine ⟨h.roster,fun _ => ho,?_,h.line,h.sound⟩
      simp only [Bool.toNat_true]
      omega
  · have hunset : s.isSet = false := by
      cases hs : s.isSet with
      | false => rfl
      | true =>
        rw [Waiters.owners,h.exclusive hs] at howners
        cases howners
    refine ⟨{s with waiters := w,assigned := s.assigned++[g],woken := s.woken++[waker]},?_,?_,rfl,?_,?_⟩
    · simp only [State.signal,hsel,bind,Except.bind]
    · refine ⟨hroster,fun hs => ?_,?_,?_,h.sound⟩
      · rw [hunset] at hs
        cases hs
      · show s.sets+isSet.toNat = Table.total Wait.completed s.waits+s.answers.count true+s.isSet.toNat+
          w.notified+s.merged+s.cleared+spare
        omega
      · have hline := h.line
        rw [howners] at hline
        exact hline.serve
    · intro i q hi
      have hne : i ≠ id := by
        rintro rfl
        rw [hr] at hi
        cases hi
      show w.get? i = some ⟨.notified,q⟩
      rw [hg,Function.update_of_ne hne,hi]
    · obtain ⟨c,hc,hstage⟩ := h.row hr
      refine Or.inr ⟨g,howners,rfl,c,id,hc,hstage,?_⟩
      show w.get? id = some ⟨.notified,g⟩
      rw [hg,Function.update_self]

theorem push (h : Ok isSet 0 s) : Ok isSet 0 {s with waits := s.waits++[⟨.unpolled,none⟩]} := by
  have hwaiter : Table.lookup Wait.waiter (s.waits++[⟨.unpolled,none⟩]) =
      Table.lookup Wait.waiter s.waits := Table.lookup_push s.waits rfl
  have hlast : Table.lookup Wait.lastWaker (s.waits++[⟨.unpolled,none⟩]) =
      Table.lookup Wait.lastWaker s.waits := Table.lookup_push s.waits rfl
  refine ⟨?_,h.exclusive,?_,h.line.push _,h.sound⟩
  · rw [hwaiter,hlast]
    exact h.roster
  · simpa [Wait.completed] using h.balance

theorem change (h : Ok isSet spare s) (hf : s.waits[f]? = some c) {c' : Wait W} {w : Waiters W}
    {stored : Bool} {registered : List ℕ} {spare' : ℕ}
    (hroster : Roster w (Function.update (Table.lookup Wait.waiter s.waits) f c'.waiter)
      (Function.update (Table.lookup Wait.lastWaker s.waits) f c'.lastWaker) s.woken)
    (hexclusive : stored = true → w.order = [])
    (hbalance : c'.completed+stored.toNat+w.notified+spare' =
      c.completed+s.isSet.toNat+s.waiters.notified+spare)
    (hline : Line Wait.live Wait.fresh (s.waits.set f c') registered s.assigned w.owners) :
    Ok isSet spare' {s.setWait f c' with waiters := w,isSet := stored,registered := registered} := by
  refine ⟨?_,hexclusive,?_,hline,h.sound⟩
  · show Roster w (Table.lookup Wait.waiter (s.waits.set f c'))
      (Table.lookup Wait.lastWaker (s.waits.set f c')) s.woken
    rw [Table.lookup_set _ hf,Table.lookup_set _ hf]
    exact hroster
  · have hold := h.balance
    have hset := Table.total_set Wait.completed hf c'
    show s.sets+isSet.toNat = Table.total Wait.completed (s.waits.set f c')+s.answers.count true+
      stored.toNat+w.notified+s.merged+s.cleared+spare'
    omega

theorem pollWait_notified (h : Ok isSet 0 s) (hf : s.waits[f]? = some ⟨.waiting id,last⟩)
    (hr : s.waiters.get? id = some ⟨.notified,f⟩) (waker : W) :
    ∃ t, s.pollWait f ⟨.waiting id,last⟩ (some id) waker = .ok t ∧ Ok isSet 0 t ∧
      t.waits = s.waits.set f ⟨.completed,last⟩ ∧
      t.waiters.get? = Function.update s.waiters.get? id none := by
  obtain ⟨w,hrem,ho,hg,howners,hcount,hroster⟩ := h.roster.removeSelected hr
  refine ⟨{s.setWait f ⟨.completed,last⟩ with waiters := w},?_,?_,rfl,hg⟩
  · simp only [State.pollWait,WaitList.waiterMut_ok hr,hrem,bind,Except.bind]
  · refine h.change hf ?_ (fun hs => ho.trans (h.exclusive hs)) ?_ ?_
    · rw [Table.update_lookup Wait.lastWaker hf last rfl]
      exact hroster
    · simp only [Wait.completed,State.setWait,reduceCtorEq,if_false,if_true]
      omega
    · rw [howners]
      exact h.line.set hf (Or.inr rfl) fun _ => rfl

theorem pollWait_linked (h : Ok isSet 0 s) {current : W} (hf : s.waits[f]? = some ⟨.waiting id,last⟩)
    (hr : s.waiters.get? id = some ⟨.waiting current,f⟩) (waker : W) :
    ∃ t, s.pollWait f ⟨.waiting id,last⟩ (some id) waker = .ok t ∧ Ok isSet 0 t ∧
      t.waits = s.waits.set f ⟨.waiting id,some waker⟩ ∧
      ∀ i g, s.waiters.get? i = some ⟨.notified,g⟩ → t.waiters.get? i = some ⟨.notified,g⟩ := by
  obtain ⟨w,hw,ho,hg,howners,hcount,hroster⟩ := h.roster.refresh hr waker
  refine ⟨{s.setWait f ⟨.waiting id,some waker⟩ with waiters := w},?_,?_,rfl,?_⟩
  · simp only [State.pollWait,WaitList.waiterMut_ok hr,hw,bind,Except.bind]
  · refine h.change hf ?_ (fun hs => ho.trans (h.exclusive hs)) ?_ ?_
    · show Roster w (Function.update (Table.lookup Wait.waiter s.waits) f (some id)) _ s.woken
      rw [Table.update_lookup Wait.waiter hf (some id) rfl]
      exact hroster
    · simp only [Wait.completed,State.setWait,reduceCtorEq,if_false]
      omega
    · rw [howners]
      exact h.line.set hf (Or.inr rfl) fun _ => rfl
  · intro i g hi
    have hne : i ≠ id := by
      rintro rfl
      rw [hr] at hi
      cases hi
    exact (hg i hne).trans hi

theorem pollWait_new (h : Ok isSet 0 s) (hf : s.waits[f]? = some ⟨.unpolled,last⟩) (waker : W) :
    ∃ t stage, s.pollWait f ⟨.unpolled,last⟩ none waker = .ok t ∧ Ok isSet 0 t ∧
      t.waits = s.waits.set f stage ∧
      ∀ i g, s.waiters.get? i = some ⟨.notified,g⟩ → t.waiters.get? i = some ⟨.notified,g⟩ := by
  cases hs : s.isSet with
  | true =>
    refine ⟨{s.setWait f ⟨.completed,last⟩ with isSet := false},_,?_,?_,rfl,fun _ _ hi => hi⟩
    · simp only [State.pollWait,hs,if_true]
    · refine h.change hf ?_ (by simp) ?_ (h.line.set hf (Or.inl rfl) fun _ => rfl)
      · show Roster s.waiters (Function.update (Table.lookup Wait.waiter s.waits) f none) _ s.woken
        rw [Table.update_lookup Wait.waiter hf none rfl,
          Table.update_lookup Wait.lastWaker hf last rfl]
        exact h.roster
      · simp only [Wait.completed,State.setWait,reduceCtorEq,if_false,if_true,hs,Bool.toNat_true,
          Bool.toNat_false]
  | false =>
    obtain ⟨id,w,hp,hn,hg,howners,hcount,hroster⟩ :=
      h.roster.pushBack (Table.lookup_eq hf) waker
    refine ⟨{s.setWait f ⟨.waiting id,some waker⟩ with
      waiters := w,registered := s.registered++[f]},_,?_,?_,rfl,?_⟩
    · simp only [State.pollWait,hs,Bool.false_eq_true,if_false,hp]
    · refine h.change hf hroster ?_ ?_ ?_
      · intro hset
        cases hs.symm.trans hset
      · simp only [Wait.completed,State.setWait,reduceCtorEq,if_false]
        omega
      · rw [howners]
        exact h.line.enter hf rfl rfl rfl
    · intro i g hi
      have hne : i ≠ id := by
        rintro rfl
        rw [hn] at hi
        cases hi
      show w.get? i = some ⟨.notified,g⟩
      rw [hg,Function.update_of_ne hne,hi]

theorem unregisterWaiter (h : Ok isSet 0 s) {v : Waiter W} (hf : s.waits[f]? = some ⟨.waiting id,last⟩)
    (hr : s.waiters.get? id = some ⟨v,f⟩) :
    ∃ t, (s.setWait f ⟨.cancelled,last⟩).unregisterWaiter id = .ok t ∧ Ok isSet 0 t ∧
      t.waits = s.waits.set f ⟨.cancelled,last⟩ ∧
      (∀ i g, g ≠ f → s.waiters.get? i = some ⟨.notified,g⟩ →
        t.waiters.get? i = some ⟨.notified,g⟩) ∧
      (v = .notified → s.waiters.owners = [] ∧ t.isSet = true ∧ t.waiters.owners = [] ∨
        ∃ g, s.waiters.owners = g::t.waiters.owners ∧ t.isSet = s.isSet ∧ t.Selected g) := by
  obtain ⟨⟨v',f'⟩,w,hr',-,hrem,ho,hg,howners,hcount,hroster⟩ :=
    h.roster.removeWaiter (Table.lookup_eq hf)
  cases hr.symm.trans hr'
  have hother : ∀ i g, g ≠ f → s.waiters.get? i = some ⟨.notified,g⟩ →
      w.get? i = some ⟨.notified,g⟩ := by
    intro i g hgf hi
    have hne : i ≠ id := by
      rintro rfl
      rw [hr] at hi
      cases hi
      exact hgf rfl
    rw [hg,Function.update_of_ne hne,hi]
  -- the signal of a selected wait is in the destructor's hands
  have hok : Ok isSet v.mark {s.setWait f ⟨.cancelled,last⟩ with waiters := w} := by
    refine h.change hf ?_ ?_ ?_ ?_
    · rw [Table.update_lookup Wait.lastWaker hf last rfl]
      exact hroster
    · intro hs
      rw [ho,h.exclusive hs]
      rfl
    · simp only [Wait.completed,State.setWait,reduceCtorEq,if_false]
      have hmark : w.notified+v.mark = s.waiters.notified := hcount
      omega
    · rw [howners]
      exact h.line.cancel hf rfl rfl
  have hrem' : (s.setWait f ⟨.cancelled,last⟩).waiters.removeWaiter id = .ok (⟨v,f⟩,w) := hrem
  cases v with
  | waiting waker =>
    refine ⟨_,by simp only [State.unregisterWaiter,hrem',bind,Except.bind],hok,rfl,hother,?_⟩
    rintro ⟨⟩
  | notified =>
    obtain ⟨t,ht,htok,hwaits,hkeep,hcases⟩ := hok.signal
    have hlinked : f ∉ s.waiters.owners := by
      rw [h.roster.mem_owners (Table.lookup_eq hf)]
      exact fun hid => Waiter.not_linked.mpr rfl ((h.roster.linked id _ hr).mp hid)
    have hsame : w.owners = s.waiters.owners := by
      rw [howners,List.filter_eq_self]
      intro g hg
      have hne : g ≠ f := fun heq => hlinked (heq ▸ hg)
      simp [hne]
    refine ⟨t,by simp only [State.unregisterWaiter,hrem',bind,Except.bind]; exact ht,htok,hwaits,
      fun i g hgf hi => hkeep i g (hother i g hgf hi),fun _ => ?_⟩
    simp only [hsame] at hcases
    rcases hcases with ⟨hnil,hset,hwaiters⟩ | hcases
    · exact Or.inl ⟨hnil,hset,by rw [hwaiters,hsame,hnil]⟩
    · exact Or.inr hcases

end Ok

def Keeps (s t : State W) (a : Action W) : Prop :=
  ∀ g, s.Selected g → t.Selected g ∨ a = .drop g ∨
    ∃ waker c, a = .poll g waker ∧ t.waits[g]? = some c ∧ c.stage = .completed

namespace Ok

variable [Wake W] {isSet : Bool} {s t : State W} {f : ℕ}
variable {c : Wait W} {x : Except String (State W)} {a : Action W}

theorem poll (h : Ok isSet 0 s) (hf : s.waits[f]? = some c) (waker : W)
    (hx : s.poll f c waker = some x) :
    ∃ t, x = .ok t ∧ Ok isSet 0 t ∧ Keeps s t (.poll f waker) ∧
      (s.Selected f → ∃ c, t.waits[f]? = some c ∧ c.stage = .completed) := by
  -- a wait that is selected for another call stays so
  have hother {t : State W} {c' : Wait W} {g : ℕ} (hwaits : t.waits = s.waits.set f c')
      (hg : s.Selected g) (hgf : g ≠ f) (hget : ∀ i, s.waiters.get? i = some ⟨.notified,g⟩ →
        t.waiters.get? i = some ⟨.notified,g⟩) : t.Selected g :=
    hg.keep (by rw [hwaits,List.getElem?_set_ne (Ne.symm hgf)]) hget
  obtain ⟨stage,last⟩ := c
  cases stage with
  | unpolled =>
    obtain rfl := Option.some.inj hx
    obtain ⟨t,c',ht,hok,hwaits,hget⟩ := h.pollWait_new hf waker
    have hnot : ¬ s.Selected f := by
      rintro ⟨c,id,hc,hid,-⟩
      cases hf.symm.trans hc
      cases hid
    refine ⟨t,ht,hok,fun g hg => Or.inl ?_,fun hs => absurd hs hnot⟩
    exact hother hwaits hg (fun heq => hnot (heq ▸ hg)) fun i => hget i g
  | waiting id =>
    obtain rfl := Option.some.inj hx
    obtain ⟨⟨v,f'⟩,hr,hf'⟩ := h.roster.held f id (Table.lookup_eq hf)
    obtain rfl : f = f' := hf'.symm
    cases v with
    | notified =>
      obtain ⟨t,ht,hok,hwaits,hget⟩ := h.pollWait_notified hf hr waker
      have hdone : t.waits[f]? = some ⟨.completed,last⟩ := by
        rw [hwaits,Table.getElem?_set_self' hf]
      refine ⟨t,ht,hok,fun g hg => ?_,fun _ => ⟨_,hdone,rfl⟩⟩
      by_cases hgf : g = f
      · subst hgf
        exact Or.inr (Or.inr ⟨waker,_,rfl,hdone,rfl⟩)
      · refine Or.inl (hother hwaits hg hgf fun i hi => ?_)
        have hne : i ≠ id := by
          rintro rfl
          cases hr.symm.trans hi
          exact hgf rfl
        rw [hget,Function.update_of_ne hne,hi]
    | waiting current =>
      obtain ⟨t,ht,hok,hwaits,hget⟩ := h.pollWait_linked hf hr waker
      have hnot : ¬ s.Selected f := by
        rintro ⟨c,i,hc,hi,hn⟩
        cases hf.symm.trans hc
        cases hi
        cases hr.symm.trans hn
      refine ⟨t,ht,hok,fun g hg => Or.inl ?_,fun hs => absurd hs hnot⟩
      exact hother hwaits hg (fun heq => hnot (heq ▸ hg)) fun i => hget i g
  | completed => cases hx
  | cancelled => cases hx

theorem drop (h : Ok isSet 0 s) (hf : s.waits[f]? = some c) (hx : s.drop f c = some x) :
    ∃ t, x = .ok t ∧ Ok isSet 0 t ∧ Keeps s t (.drop f) ∧
      (s.Selected f → s.waiters.owners = [] ∧ t.isSet = true ∧ t.waiters.owners = [] ∨
        ∃ g, s.waiters.owners = g::t.waiters.owners ∧ t.isSet = s.isSet ∧ t.Selected g) := by
  obtain ⟨stage,last⟩ := c
  cases stage with
  | unpolled =>
    obtain rfl := Option.some.inj hx
    have hnot : ¬ s.Selected f := by
      rintro ⟨c,id,hc,hid,-⟩
      cases hf.symm.trans hc
      cases hid
    refine ⟨_,rfl,h.change hf ?_ h.exclusive ?_ (h.line.set hf (Or.inl rfl) fun _ => rfl),
      fun g hg => Or.inl ?_,fun hs => absurd hs hnot⟩
    · show Roster s.waiters (Function.update (Table.lookup Wait.waiter s.waits) f none) _ s.woken
      rw [Table.update_lookup Wait.waiter hf none rfl,Table.update_lookup Wait.lastWaker hf last rfl]
      exact h.roster
    · simp only [Wait.completed,reduceCtorEq,if_false]
    · have hgf : g ≠ f := fun heq => hnot (heq ▸ hg)
      exact hg.keep (List.getElem?_set_ne (Ne.symm hgf)) fun _ hi => hi
  | waiting id =>
    obtain rfl := Option.some.inj hx
    obtain ⟨⟨v,f'⟩,hr,hf'⟩ := h.roster.held f id (Table.lookup_eq hf)
    obtain rfl : f = f' := hf'.symm
    obtain ⟨t,ht,hok,hwaits,hget,hpass⟩ := h.unregisterWaiter hf hr
    refine ⟨t,ht,hok,fun g hg => ?_,?_⟩
    · by_cases hgf : g = f
      · exact Or.inr (Or.inl (by rw [hgf]))
      · refine Or.inl (hg.keep ?_ fun i => hget i g hgf)
        rw [hwaits,List.getElem?_set_ne (Ne.symm hgf)]
    · rintro ⟨c,i,hc,hi,hn⟩
      cases hf.symm.trans hc
      cases hi
      cases hr.symm.trans hn
      exact hpass rfl
  | completed =>
    obtain rfl := Option.some.inj hx
    refine ⟨s,rfl,h,fun g hg => Or.inl hg,?_⟩
    rintro ⟨c,id,hc,hid,-⟩
    cases hf.symm.trans hc
    cases hid
  | cancelled => cases hx

theorem act (h : Ok isSet 0 s) (hx : s.act a = some x) :
    ∃ t, x = .ok t ∧ Ok isSet 0 t ∧ Keeps s t a := by
  have hbalance := h.balance
  cases a with
  | set =>
    obtain rfl := Option.some.inj hx
    have hissued : Ok isSet 1 {s with sets := s.sets+1} :=
      ⟨h.roster,h.exclusive,by simp only; omega,h.line,h.sound⟩
    obtain ⟨t,ht,hok,hwaits,hget,-⟩ := hissued.signal
    exact ⟨t,ht,hok,fun g hg => Or.inl (hg.keep (by rw [hwaits]) fun i => hget i g)⟩
  | reset =>
    obtain rfl := Option.some.inj hx
    refine ⟨_,rfl,⟨h.roster,by simp [State.reset],?_,h.line,h.sound⟩,fun g hg => Or.inl hg⟩
    simp only [State.reset,Bool.toNat_false]
    omega
  | isSet =>
    obtain rfl := Option.some.inj hx
    exact ⟨s,rfl,h,fun g hg => Or.inl hg⟩
  | tryWait =>
    obtain rfl := Option.some.inj hx
    refine ⟨_,rfl,⟨h.roster,by simp [State.tryWait],?_,h.line,h.sound⟩,fun g hg => Or.inl hg⟩
    have hcount : (s.answers++[s.isSet]).count true = s.answers.count true+s.isSet.toNat := by
      cases s.isSet <;> simp
    simp only [State.tryWait,Bool.toNat_false,hcount]
    omega
  | wait =>
    obtain rfl := Option.some.inj hx
    refine ⟨_,rfl,h.push,fun g hg => Or.inl ?_⟩
    obtain ⟨c,id,hc,hid,hn⟩ := hg
    exact ⟨c,id,Table.getElem?_push_old hc _,hid,hn⟩
  | poll f waker =>
    obtain ⟨c,hf,hx⟩ := Option.bind_eq_some_iff.mp hx
    obtain ⟨t,ht,hok,hkeeps,-⟩ := h.poll hf waker hx
    exact ⟨t,ht,hok,hkeeps⟩
  | drop f =>
    obtain ⟨c,hf,hx⟩ := Option.bind_eq_some_iff.mp hx
    obtain ⟨t,ht,hok,hkeeps,-⟩ := h.drop hf hx
    exact ⟨t,ht,hok,hkeeps⟩

theorem next (h : Ok isSet 0 s) (hn : s.next a = some t) :
    s.act a = some (.ok t) ∧ Ok isSet 0 t ∧ Keeps s t a := by
  exact Transition.step_ok (fun _ => h.act) hn

end Ok

theorem reachable_ok [Wake W] {isSet : Bool} (h : (machine W isSet).Reachable s) : Ok isSet 0 s := by
  refine (machine W isSet).invariant _ ?_ ?_ h
  · rintro s rfl
    exact Ok.new
  · intro s a t hs hn
    exact (hs.next hn).2.1

theorem State.signal_counts {t : State W} (h : s.signal = .ok t) :
    t.sets = s.sets ∧ t.answers = s.answers := by
  obtain ⟨⟨x,w⟩,-,h⟩ := bind_eq_ok h
  rcases x with _ | ⟨f,waker⟩ <;> cases h <;> exact ⟨rfl,rfl⟩

theorem State.pollWait_counts [Wake W] {t : State W} {f : ℕ} {c : Wait W} {id : Option WaiterId}
    {waker : W} (h : s.pollWait f c id waker = .ok t) :
    t.sets = s.sets ∧ t.answers = s.answers := by
  cases id with
  | none =>
    simp only [State.pollWait] at h
    split at h <;> cases h <;> exact ⟨rfl,rfl⟩
  | some id =>
    obtain ⟨⟨v,g⟩,-,h⟩ := bind_eq_ok h
    cases v <;> obtain ⟨_,-,h⟩ := bind_eq_ok h <;> cases h <;> exact ⟨rfl,rfl⟩

theorem State.unregisterWaiter_counts {t : State W} {id : WaiterId}
    (h : s.unregisterWaiter id = .ok t) : t.sets = s.sets ∧ t.answers = s.answers := by
  obtain ⟨⟨⟨v,g⟩,w⟩,-,h⟩ := bind_eq_ok h
  cases v with
  | notified => exact signal_counts (s := {s with waiters := w}) h
  | waiting waker => cases h; exact ⟨rfl,rfl⟩

/-- Only `set` and `try_wait` calls are counted, and every one of them is. -/
theorem State.act_counts [Wake W] {t : State W} {a : Action W} (h : s.act a = some (.ok t)) :
    t.sets = s.sets+a.sets ∧ t.answers.length = s.answers.length+a.tries := by
  have hsame (ht : t.sets = s.sets ∧ t.answers = s.answers) :
      t.sets = s.sets+0 ∧ t.answers.length = s.answers.length+0 := ⟨ht.1,congrArg _ ht.2⟩
  cases a with
  | set =>
    obtain ⟨hsets,hanswers⟩ := signal_counts (Option.some.inj h)
    exact ⟨hsets,congrArg _ hanswers⟩
  | reset | isSet | wait => cases h; exact ⟨rfl,rfl⟩
  | tryWait => cases h; exact ⟨rfl,List.length_append⟩
  | poll f waker =>
    obtain ⟨c,-,h⟩ := Option.bind_eq_some_iff.mp h
    simp only [State.poll] at h
    split at h
    · exact hsame (pollWait_counts (Option.some.inj h))
    · exact hsame (pollWait_counts (Option.some.inj h))
    · cases h
  | drop f =>
    obtain ⟨c,-,h⟩ := Option.bind_eq_some_iff.mp h
    simp only [State.drop] at h
    split at h
    · cases h; exact ⟨rfl,rfl⟩
    · have hcounts := unregisterWaiter_counts (Option.some.inj h)
      exact hsame hcounts
    · cases h; exact ⟨rfl,rfl⟩
    · cases h

theorem exec_counts [Wake W] {isSet : Bool} {run : List (Action W)}
    (h : (machine W isSet).exec (withState W isSet) run = some s) :
    s.sets = Table.total Action.sets run ∧ s.answers.length = Table.total Action.tries run := by
  refine (machine W isSet).exec_history (fun run s => s.sets = Table.total Action.sets run ∧
    s.answers.length = Table.total Action.tries run) ⟨rfl,rfl⟩ ?_ h
  rintro run s a t hrun ⟨hsets,htries⟩ hn
  have hok := reachable_ok ((machine W isSet).reachable_of_exec rfl hrun)
  obtain ⟨hsets',htries'⟩ := State.act_counts (hok.next hn).1
  simp only [Table.total_append,Table.total_cons,Table.total_nil]
  omega

/-- What holds of an event that was created with `isSet`. -/
structure SignalLaw [Wake W] (isSet : Bool) (s : State W) : Prop where
  exclusive : s.isSet = true → s.waiters.order = []
  linked : ∀ id r, s.waiters.get? id = some r →
    (id ∈ s.waiters.order ↔ ∃ waker, r.waiter = .waiting waker) ∧
    (id ∉ s.waiters.order ↔ r.waiter = .notified)
  balance : s.sets+isSet.toNat = Table.total Wait.completed s.waits+s.answers.count true+s.isSet.toNat+
    s.selected+s.merged+s.cleared
  /-- Whatever run led here, each of its `set` and `try_wait` calls is counted. -/
  counted : ∀ run, (machine W isSet).exec (withState W isSet) run = some s →
    s.sets = Table.total Action.sets run ∧ s.answers.length = Table.total Action.tries run
  answers : ∃ t, s.next .tryWait = some t ∧ t.answers = s.answers++[s.isSet] ∧ t.isSet = false
  /-- The waits that were not cancelled are assigned signals in the order in which they
  registered. -/
  order : Fifo (fun f => s.waits[f]?.any Wait.live) s.registered s.assigned s.waiters.owners
  /-- A selected wait stays so until its next poll, which completes it, or its drop. -/
  keeps : ∀ a t, s.next a = some t → Keeps s t a
  completes : ∀ f waker, s.Selected f → ∃ t c, s.next (.poll f waker) = some t ∧
    t.waits[f]? = some c ∧ c.stage = .completed
  /-- The signal of a cancelled wait goes to the oldest queued wait, or it is stored. -/
  passes : ∀ f, s.Selected f → ∃ t, s.next (.drop f) = some t ∧
    (s.waiters.owners = [] ∧ t.isSet = true ∧ t.waiters.owners = [] ∨
      ∃ g, s.waiters.owners = g::t.waiters.owners ∧ t.isSet = s.isSet ∧ t.Selected g)
  sound : s.panicked = none

theorem signal_accounting [Wake W] {isSet : Bool} {s : State W}
    (h : (machine W isSet).Reachable s) : SignalLaw isSet s := by
  have hok := reachable_ok h
  refine ⟨hok.exclusive,?_,?_,fun run => exec_counts,
    ⟨_,Transition.step_of_act hok.sound rfl,rfl,rfl⟩,hok.line.fifo,fun a t hn => (hok.next hn).2.2,?_,?_,hok.sound⟩
  · intro id r hr
    have hl := hok.roster.linked id r hr
    exact ⟨hl,(not_congr hl).trans Waiter.not_linked⟩
  · rw [hok.selected_eq]
    exact hok.balance
  · rintro f waker ⟨c,id,hc,hid,hn⟩
    obtain ⟨stage,last⟩ := c
    cases hid
    obtain ⟨t,ht,-,-,hdone⟩ := hok.poll hc waker rfl
    obtain ⟨c,hc',hstage⟩ := hdone ⟨_,id,hc,rfl,hn⟩
    refine ⟨t,c,Transition.step_of_act hok.sound ?_,hc',hstage⟩
    simp [State.act,hc,State.poll,ht]
  · rintro f ⟨c,id,hc,hid,hn⟩
    obtain ⟨stage,last⟩ := c
    cases hid
    obtain ⟨t,ht,-,-,hpass⟩ := hok.drop hc rfl
    refine ⟨t,Transition.step_of_act hok.sound ?_,hpass ⟨_,id,hc,rfl,hn⟩⟩
    simp [State.act,hc,State.drop,ht]

/-- A selected wait is cancelled and hands its signal on; later signals are stored,
merged and cleared. -/
def passRun : List (Action ℕ) :=
  [.wait,.wait,.poll 0 7,.poll 1 8,.set,.drop 0,.set,.set,.reset]

theorem signal_accounting_passRun :
    ∃ s, (machine ℕ false).exec (withState ℕ false) passRun = some s ∧ s.assigned = [0,1] ∧
      s.selected = 1 ∧ s.merged = 1 ∧ s.cleared = 1 ∧ s.woken = [7,8] ∧ SignalLaw false s := by
  have hrun : ((machine ℕ false).exec (withState ℕ false) passRun).map (fun s =>
      (s.assigned,s.selected,s.merged,s.cleared,s.woken)) = some ([0,1],1,1,1,[7,8]) := by
    decide +kernel
  obtain ⟨s,hs,hend⟩ := Option.map_eq_some_iff.mp hrun
  simp only [Prod.mk.injEq] at hend
  have hreach := (machine ℕ false).reachable_of_exec rfl hs
  exact ⟨s,hs,hend.1,hend.2.1,hend.2.2.1,hend.2.2.2.1,hend.2.2.2.2,signal_accounting hreach⟩

end AutoResetEvent
end Asyncband
