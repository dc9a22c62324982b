import Asyncband.Condvar

/-! Where the selections of a condition variable are.
A selection is with the wait that holds it, in a node, in a baton or in a destructor that
has not finished, until that wait returns with its mutex or nobody is left to take the
selection over. -/
namespace Asyncband
namespace Condvar

variable {W : Type} {s t : State W} {f n : ℕ} {c c' : Wait W} {a : Action W}

def Node.Linked (r : Node W) : Prop := ∃ waker, r.state = .waiting waker

def Node.waker (r : Node W) : Option W :=
  match r.state with
  | .waiting waker => some waker
  | _ => none

def Fits [Wake W] (woken : List W) (selection : ℕ → Option ℕ) (last : ℕ → Option W) (f : ℕ)
    (r : Node W) : Prop :=
  match r.state with
  | .waiting waker => Reaches waker (last f) ∧ selection f = none
  | .notifiedOne => (∃ waker ∈ woken, Reaches waker (last f)) ∧ (selection f).isSome
  | .notifiedAll => (∃ waker ∈ woken, Reaches waker (last f)) ∧ selection f = none

/-- Without a node, the stage tells whether the wait holds a selection. -/
def Wait.Sound (c : Wait W) : Prop :=
  match c.stage with
  | .unpolled => c.selection = none
  | .relocking baton => c.selection.isSome = baton
  | .passing => c.selection.isSome
  | .cancelled => c.selection = none
  | _ => True

/-- `hand` is a selection in the hands of the running step. -/
structure Ok [Wake W] (hand : Option ℕ) (s : State W) : Prop where
  registry : Registry Node.owner Node.Linked
    (Fits s.woken (Table.lookup Wait.selection s.waits) (Table.lookup Wait.lastWaker s.waits))
    s.waiters (Table.lookup Wait.waiter s.waits)
  custody : Custody (Table.lookup Wait.selection s.waits) hand s.issued s.ended
  rows : ∀ (f : ℕ) c, s.waits[f]? = some c → c.Sound
  order : List.Sublist s.queue s.registered
  nodup : s.registered.Nodup
  enlisted : ∀ f ∈ s.registered, ∃ c, s.waits[f]? = some c ∧ c.stage ≠ .unpolled
  guards : ∀ (f : ℕ) c, s.waits[f]? = some c → c.guarding = true → s.mutexes[c.mutex]? = some (.wait f)
  sound : s.panicked = none

theorem State.notifyAll_nil (hnil : s.queue = []) : s.notifyAll = .ok s := by
  have ho : s.waiters.order = [] := WaitList.queue_eq_nil.mp (List.map_eq_nil_iff.mp hnil)
  simp only [State.notifyAll,ho,List.length_nil,WaitList.selectAll,bind,Except.bind,List.append_nil]

/-- The wait has the selection and can still hand it on. -/
def State.Holds (s : State W) (f n : ℕ) : Prop :=
  ∃ c, s.waits[f]? = some c ∧ c.selection = some n ∧
    ((∃ id, c.waiter = some id ∧ s.waiters.get? id = some ⟨.notifiedOne,f⟩) ∨
      c.stage = .relocking true ∨ c.stage = .passing)

def State.Consumed (s : State W) (f n : ℕ) : Prop :=
  ∃ c, s.waits[f]? = some c ∧ c.selection = some n ∧ c.stage = .returned

/-- A step that returns from no wait and leaves the mutexes. -/
structure Calm (s t : State W) : Prop where
  returned : ∀ (g : ℕ) d, d.stage = .returned → (t.waits[g]? = some d ↔ s.waits[g]? = some d)
  mutexes : t.mutexes = s.mutexes

theorem Calm.trans {u : State W} (h : Calm s t) (h' : Calm t u) : Calm s u where
  returned g d hd := (h'.returned g d hd).trans (h.returned g d hd)
  mutexes := h'.mutexes.trans h.mutexes

theorem returned_set_iff (hf : s.waits[f]? = some c) (hc : c.stage ≠ .returned)
    (hc' : c'.stage ≠ .returned) (g : ℕ) (d : Wait W) (hd : d.stage = .returned) :
    (s.waits.set f c')[g]? = some d ↔ s.waits[g]? = some d := by
  by_cases hgf : g = f
  · subst hgf
    rw [Table.getElem?_set_self' hf,hf]
    refine iff_of_false ?_ ?_
    · rintro ⟨⟩
      exact hc' hd
    · rintro ⟨⟩
      exact hc hd
  · rw [List.getElem?_set_ne (Ne.symm hgf)]

theorem Calm.set (hf : s.waits[f]? = some c) (hwaits : t.waits = s.waits.set f c')
    (hc : c.stage ≠ .returned) (hc' : c'.stage ≠ .returned) (hmutexes : t.mutexes = s.mutexes) :
    Calm s t :=
  ⟨fun g d hd => by rw [hwaits]; exact returned_set_iff hf hc hc' g d hd,hmutexes⟩

/-- What a step does to the selections and the mutexes. -/
structure Moves (s : State W) (a : Action W) (t : State W) : Prop where
  kept : ∀ (g : ℕ) d, d.stage = .returned → s.waits[g]? = some d → t.waits[g]? = some d
  returns : ∀ (g : ℕ) d, d.stage = .returned → t.waits[g]? = some d → s.waits[g]? = some d ∨
    a = .relock g ∧ s.mutexes[d.mutex]? = some .free ∧ t.mutexes[d.mutex]? = some .task
  releases : ∀ (m : ℕ) f, s.mutexes[m]? = some (.wait f) → t.mutexes[m]? = some (.wait f) ∨
    ∃ c, s.waits[f]? = some c ∧
      (a = .drop f ∧ c.stage = .unpolled ∨ a = .release f ∧ ∃ id, c.stage = .releasing id)
  issues : t.issued = s.issued ∨ a = .notifyOne ∧ t.issued = s.issued+1
  ends : t.ended = s.ended ∨ ∃ f n, (a = .drop f ∨ a = .pass f) ∧ s.Holds f n ∧ s.queue = [] ∧
    t.ended = s.ended++[n]

theorem Calm.moves (h : Calm s t)
    (hissued : t.issued = s.issued ∨ a = .notifyOne ∧ t.issued = s.issued+1)
    (hended : t.ended = s.ended ∨ ∃ f n, (a = .drop f ∨ a = .pass f) ∧ s.Holds f n ∧ s.queue = [] ∧
      t.ended = s.ended++[n]) : Moves s a t where
  kept g d hd := (h.returned g d hd).mpr
  returns g d hd ht := Or.inl ((h.returned g d hd).mp ht)
  releases m f hm := Or.inl (by rw [h.mutexes]; exact hm)
  issues := hissued
  ends := hended

theorem Moves.setWait (hf : s.waits[f]? = some c) (hc : c.stage ≠ .returned)
    (hc' : c'.stage ≠ .returned) : Moves s a (s.setWait f c') :=
  (Calm.set (t := s.setWait f c') hf rfl hc hc' rfl).moves (Or.inl rfl) (Or.inl rfl)

theorem Moves.setMutex {m : ℕ} {holder : Holder}
    (hreturned : ∀ (g : ℕ) d, d.stage = .returned → (t.waits[g]? = some d ↔ s.waits[g]? = some d))
    (hmutexes : t.mutexes = s.mutexes.set m holder)
    (hm : ∀ f, s.mutexes[m]? = some (.wait f) → ∃ c, s.waits[f]? = some c ∧
      (a = .drop f ∧ c.stage = .unpolled ∨ a = .release f ∧ ∃ id, c.stage = .releasing id))
    (hissued : t.issued = s.issued) (hended : t.ended = s.ended) : Moves s a t where
  kept g d hd := (hreturned g d hd).mpr
  returns g d hd ht := Or.inl ((hreturned g d hd).mp ht)
  releases k f hk := by
    by_cases hkm : k = m
    · exact Or.inr (hm f (hkm ▸ hk))
    · exact Or.inl (by rw [hmutexes,List.getElem?_set_ne (Ne.symm hkm),hk])
  issues := Or.inl hissued
  ends := Or.inl hended

/-- The step wakes the task that polled the wait last. -/
def State.Wakes [Wake W] (s t : State W) (g : ℕ) : Prop :=
  ∃ c waker, t.waits[g]? = some c ∧ Reaches waker c.lastWaker ∧ t.woken = s.woken++[waker]

/-- Where a selection goes that its cancelled holder gives up. -/
def Passed [Wake W] (s t : State W) (n : ℕ) : Prop :=
  s.queue = [] ∧ t.queue = [] ∧ t.ended = s.ended++[n] ∨
  ∃ g, s.queue = g::t.queue ∧ t.Holds g n ∧ s.Wakes t g ∧ t.ended = s.ended

namespace Ok

variable [Wake W] {hand : Option ℕ} {s : State W} {f : ℕ} {c : Wait W}
variable {w : WaitList (Node W)} {hand' : Option ℕ} {woken : List W} {m g : ℕ} {id : WaiterId}
    {state : WaitState W} {r : Except String (State W)}

theorem new (mutexes : ℕ) : Ok none (new W mutexes) where
  registry := Registry.new
  custody := Custody.empty
  rows f c hc := by cases hc
  order := by
    have hqueue : (Condvar.new W mutexes).queue = [] :=
      congrArg (List.map Node.owner) (WaitList.queue_nil WaitList.order_new)
    rw [hqueue]
    exact List.Sublist.refl []
  nodup := List.nodup_nil
  enlisted f hf := by cases hf
  guards f c hc := by cases hc
  sound := rfl

section

variable (h : Ok hand s)
include h

theorem change (hf : s.waits[f]? = some c) {registered : List ℕ}
    (hreg : Registry Node.owner Node.Linked
      (Fits woken (Function.update (Table.lookup Wait.selection s.waits) f c'.selection)
        (Function.update (Table.lookup Wait.lastWaker s.waits) f c'.lastWaker)) w
      (Function.update (Table.lookup Wait.waiter s.waits) f c'.waiter))
    (hcustody : Custody (Function.update (Table.lookup Wait.selection s.waits) f c'.selection) hand'
      s.issued s.ended) (hrow : c'.Sound) (horder : List.Sublist (w.queue.map Node.owner) registered)
    (hnodup : registered.Nodup) (hold : ∀ g ∈ registered, g ≠ f → g ∈ s.registered)
    (hstage : f ∈ registered → c'.stage ≠ .unpolled)
    (hguard : c'.guarding = true → c.guarding = true ∧ c'.mutex = c.mutex) :
    Ok hand' {s.setWait f c' with waiters := w,woken := woken,registered := registered} := by
  refine ⟨?_,?_,?_,horder,hnodup,?_,?_,h.sound⟩
  · show Registry _ _ (Fits woken (Table.lookup Wait.selection (s.waits.set f c'))
      (Table.lookup Wait.lastWaker (s.waits.set f c'))) w (Table.lookup Wait.waiter (s.waits.set f c'))
    rw [Table.lookup_set _ hf,Table.lookup_set _ hf,Table.lookup_set _ hf]
    exact hreg
  · show Custody (Table.lookup Wait.selection (s.waits.set f c')) hand' s.issued s.ended
    rw [Table.lookup_set _ hf]
    exact hcustody
  · exact Table.forall_set h.rows hrow
  · intro g hg
    by_cases hgf : g = f
    · subst hgf
      exact ⟨c',Table.getElem?_set_self' hf c',hstage hg⟩
    · obtain ⟨d,hd,hne⟩ := h.enlisted g (hold g hg hgf)
      exact ⟨d,(List.getElem?_set_ne (Ne.symm hgf)).trans hd,hne⟩
  · intro g d hd hgd
    rcases Table.getElem?_set_cases hd with ⟨rfl,rfl⟩ | ⟨-,hd⟩
    · obtain ⟨hold,hm⟩ := hguard hgd
      rw [hm]
      exact h.guards g c hf hold
    · exact h.guards g d hd hgd

theorem update (hf : s.waits[f]? = some c) (hreg : Registry Node.owner Node.Linked
      (Fits woken (Function.update (Table.lookup Wait.selection s.waits) f c'.selection)
        (Function.update (Table.lookup Wait.lastWaker s.waits) f c'.lastWaker)) w
      (Function.update (Table.lookup Wait.waiter s.waits) f c'.waiter))
    (hcustody : Custody (Function.update (Table.lookup Wait.selection s.waits) f c'.selection) hand'
      s.issued s.ended) (hrow : c'.Sound) (hqueue : List.Sublist (w.queue.map Node.owner) s.queue)
    (hstage : c'.stage = .unpolled → c.stage = .unpolled)
    (hguard : c'.guarding = true → c.guarding = true ∧ c'.mutex = c.mutex) :
    Ok hand' {s.setWait f c' with waiters := w,woken := woken} := by
  refine h.change hf hreg hcustody hrow (hqueue.trans h.order) h.nodup (fun g hg _ => hg) ?_ hguard
  intro hm hu
  obtain ⟨d,hd,hne⟩ := h.enlisted f hm
  cases hf.symm.trans hd
  exact hne (hstage hu)

theorem restage (hf : s.waits[f]? = some c) (hwaiter : c'.waiter = c.waiter)
    (hsel : c'.selection = c.selection) (hlast : c'.lastWaker = c.lastWaker) (hrow : c'.Sound)
    (hstage : c'.stage = .unpolled → c.stage = .unpolled)
    (hguard : c'.guarding = true → c.guarding = true ∧ c'.mutex = c.mutex) :
    Ok hand (s.setWait f c') := by
  refine h.update hf ?_ ?_ hrow (List.Sublist.refl _) hstage hguard
  · rw [Table.update_lookup _ hf _ hwaiter,Table.update_lookup _ hf _ hsel,
      Table.update_lookup _ hf _ hlast]
    exact h.registry
  · rw [Table.update_lookup _ hf _ hsel]
    exact h.custody

theorem setMutex (holder : Holder)
    (hm : ∀ (f : ℕ) c, s.waits[f]? = some c → c.guarding = true → c.mutex ≠ m) :
    Ok hand (s.setMutex m holder) := by
  refine {h with guards := fun f c hc hg => ?_}
  show (s.mutexes.set m holder)[c.mutex]? = some (.wait f)
  rw [List.getElem?_set_ne (Ne.symm (hm f c hc hg))]
  exact h.guards f c hc hg

theorem unguarded {holder : Holder} (hm : s.mutexes[m]? = some holder)
    (hholder : ∀ f, holder ≠ .wait f) :
    ∀ (f : ℕ) c, s.waits[f]? = some c → c.guarding = true → c.mutex ≠ m := by
  intro f c hc hg heq
  have hguard := h.guards f c hc hg
  rw [heq,hm] at hguard
  exact hholder f (Option.some.inj hguard)

theorem leave (hf : s.waits[f]? = some c) (hg : c.guarding = true) (hok : Ok hand (s.setWait f c'))
    (hc' : c'.guarding = false) (holder : Holder) :
    Ok hand ((s.setWait f c').setMutex c.mutex holder) := by
  refine hok.setMutex holder fun g d hd hgd heq => ?_
  rcases Table.getElem?_set_cases hd with ⟨-,rfl⟩ | ⟨hgf,hd⟩
  · rw [hc'] at hgd
    cases hgd
  · have hmine := h.guards f c hf hg
    have hother := h.guards g d hd hgd
    rw [heq,hmine] at hother
    cases hother
    exact hgf rfl

theorem waiting_selection {waker : W} (hr : s.waiters.get? id = some ⟨.waiting waker,g⟩) :
    ∃ c, s.waits[g]? = some c ∧ c.waiter = some id ∧ c.selection = none := by
  obtain ⟨c,hc,hid⟩ := Option.bind_eq_some_iff.mp (h.registry.owned id _ hr)
  have hsel := (h.registry.fits id _ hr).2
  rw [Table.lookup_eq hc] at hsel
  exact ⟨c,hc,hid,hsel⟩

theorem node (hf : s.waits[f]? = some c) (hid : c.waiter = some id) :
    ∃ state, s.waiters.get? id = some ⟨state,f⟩ ∧
      Fits s.woken (fun _ => c.selection) (fun _ => c.lastWaker) f ⟨state,f⟩ := by
  obtain ⟨⟨state,f'⟩,hr,hf'⟩ := h.registry.held f id ((Table.lookup_eq hf).trans hid)
  obtain rfl : f = f' := hf'.symm
  refine ⟨state,hr,?_⟩
  have hfit : Fits s.woken _ _ f ⟨state,f⟩ := h.registry.fits id _ hr
  rw [Fits,Table.lookup_eq hf,Table.lookup_eq hf] at hfit
  exact hfit

end

theorem fits_other {woken' : List W} {selection : ℕ → Option ℕ} {last : ℕ → Option W} {x : Option ℕ}
    {y : Option W} {r : Node W} (hw : woken ⊆ woken') (hg : g ≠ f) (hr : Fits woken selection last g r) :
    Fits woken' (Function.update selection f x) (Function.update last f y) g r := by
  obtain ⟨state,owner⟩ := r
  rw [Fits] at hr ⊢
  rw [Function.update_of_ne hg,Function.update_of_ne hg]
  cases state with
  | waiting waker => exact hr
  | notifiedOne | notifiedAll => exact ⟨hr.1.imp fun _ hm => ⟨hw hm.1,hm.2⟩,hr.2⟩

theorem notifyOneLocked (h : Ok hand s) :
    s.queue = [] ∧ notifyOneLocked s.waiters = .ok (none,s.waiters) ∨
    ∃ g c waker w, notifyOneLocked s.waiters = .ok (some (g,waker),w) ∧ s.waits[g]? = some c ∧
      c.stage ≠ .returned ∧ s.queue = g::w.queue.map Node.owner ∧ Reaches waker c.lastWaker ∧
      ∀ n, hand = some n → Ok none (s.select g waker w (some n)) := by
  rcases h.registry.selectFirst (fun r => r) selectOne
      (fun r => r.waker.map fun waker => (r.owner,waker))
      (fun r => ⟨.notifiedOne,r.owner⟩)
      (by rintro ⟨state,g⟩ ⟨waker,rfl⟩; exact ⟨(g,waker),rfl,rfl⟩) (fun _ => rfl)
      (by rintro r ⟨waker,hw⟩; cases hw) with
    ⟨ho,hsel⟩ | ⟨id,⟨state,g⟩,a,w,hsel,hr,hl,ha,-,hqueue,hget,hreg⟩
  · exact Or.inl ⟨by rw [State.queue,WaitList.queue_nil ho,List.map_nil],hsel⟩
  · obtain ⟨waker,rfl⟩ := hl
    cases ha
    obtain ⟨c,hc,hid,hnone⟩ := h.waiting_selection hr
    have hline : s.queue = g::w.queue.map Node.owner := by rw [State.queue,hqueue,List.map_cons]
    have hstage : c.stage ≠ .returned := by
      intro hstage
      rw [Wait.waiter,hstage] at hid
      cases hid
    have hreach := (h.registry.fits id _ hr).1
    rw [Table.lookup_eq hc] at hreach
    refine Or.inr ⟨g,c,waker,w,hsel,hc,hstage,hline,hreach,?_⟩
    rintro n rfl
    have hmodify : s.waits.modify g (fun c => {c with selection := some n}) =
        s.waits.set g {c with selection := some n} := Table.modify_eq_set hc _
    rw [State.select,hmodify]
    refine h.update hc ?_ (h.custody.place ((Table.lookup_eq hc).trans hnone)) ?_ ?_ (fun hu => hu)
      fun hg => ⟨hg,rfl⟩
    · show Registry _ _ _ w (Function.update (Table.lookup Wait.waiter s.waits) g c.waiter)
      rw [Table.update_lookup Wait.waiter hc c.waiter rfl]
      refine hreg _ ?_ fun q r hq hr => fits_other (List.subset_append_left _ _) hq hr
      refine ⟨⟨waker,by simp,?_⟩,?_⟩
      · rw [Function.update_self]
        exact hreach
      · rw [Function.update_self]
        rfl
    · have hrow := h.rows g c hc
      rw [Wait.waiter] at hid
      rw [Wait.Sound] at hrow ⊢
      split at hid <;> simp_all
    · rw [hline]
      exact List.sublist_cons_self ..

theorem notifyOne (h : Ok none s) :
    s.queue = [] ∧ s.notifyOne = .ok s ∨
    ∃ g c t, s.notifyOne = .ok t ∧ Ok none t ∧ s.queue = g::t.queue ∧ s.waits[g]? = some c ∧
      t.waits = s.waits.set g {c with selection := some s.issued} ∧ c.stage ≠ .returned ∧
      t.issued = s.issued+1 ∧ t.ended = s.ended ∧ Calm s t ∧ s.Wakes t g := by
  rcases h.notifyOneLocked with ⟨hnil,hsel⟩ | ⟨g,c,waker,w,hsel,hc,hstage,hqueue,hreach,-⟩
  · exact Or.inl ⟨hnil,by simp only [State.notifyOne,hsel,bind,Except.bind]⟩
  · have hissued : Ok (some s.issued) {s with issued := s.issued+1} :=
      {h with custody := h.custody.issue}
    rcases hissued.notifyOneLocked with ⟨hnil,-⟩ | ⟨g',c',waker',w',hsel',-,-,-,-,hok⟩
    · cases hqueue.symm.trans hnil
    · cases hsel.symm.trans hsel'
      refine Or.inr ⟨g,c,_,?_,hok s.issued rfl,hqueue,hc,Table.modify_eq_set hc _,hstage,rfl,
        rfl,Calm.set hc (Table.modify_eq_set hc _) hstage hstage rfl,
        {c with selection := some s.issued},waker,?_,hreach,rfl⟩
      · simp only [State.notifyOne,hsel,bind,Except.bind]
      · exact (congrArg (·[g]?) (Table.modify_eq_set hc _)).trans (Table.getElem?_set_self' hc _)

/-- A destructor hands the selection on to the first wait in line, or the selection ends. -/
theorem passOn (h : Ok (some n) s) :
    ∃ t, s.passOn (some n) = .ok t ∧ Ok none t ∧ Calm s t ∧ t.issued = s.issued ∧
      (s.queue = [] ∧ t.queue = [] ∧ t.ended = s.ended++[n] ∨
        ∃ g c, s.queue = g::t.queue ∧ t.waits[g]? = some c ∧ c.selection = some n ∧
          c.stage ≠ .returned ∧ s.Wakes t g ∧ t.ended = s.ended) := by
  rcases h.notifyOneLocked with ⟨hnil,hsel⟩ | ⟨g,c,waker,w,hsel,hc,hstage,hqueue,hreach,hok⟩
  · refine ⟨{s with ended := s.ended++[n]},?_,{h with custody := h.custody.finish},
      ⟨fun _ _ _ => Iff.rfl,rfl⟩,rfl,Or.inl ⟨hnil,hnil,rfl⟩⟩
    simp only [State.passOn,hsel,bind,Except.bind]
    rfl
  · have hwaits : (s.select g waker w (some n)).waits = s.waits.set g {c with selection := some n} :=
      Table.modify_eq_set hc _
    have hg : (s.select g waker w (some n)).waits[g]? = some {c with selection := some n} := by
      rw [hwaits,Table.getElem?_set_self' hc]
    refine ⟨_,?_,hok n rfl,Calm.set hc hwaits hstage hstage rfl,rfl,
      Or.inr ⟨g,_,hqueue,hg,rfl,hstage,⟨_,waker,hg,hreach,rfl⟩,rfl⟩⟩
    simp only [State.passOn,hsel,bind,Except.bind]

theorem notifyAll (h : Ok none s) :
    ∃ t, s.notifyAll = .ok t ∧ Ok none t ∧ t.queue = [] ∧ t.waits = s.waits ∧
      t.issued = s.issued ∧ t.ended = s.ended ∧ Calm s t ∧
      (∀ id, t.waiters.get? id = (s.waiters.get? id).map fun r =>
        if id ∈ s.waiters.order then ⟨.notifiedAll,r.owner⟩ else r) ∧
      t.woken = s.woken++s.waiters.queue.filterMap Node.waker := by
  obtain ⟨w,hw,ho,hget,hreg⟩ := h.registry.selectAll (fun r => r) selectAll Node.waker
    (fun r => ⟨.notifiedAll,r.owner⟩)
    (by rintro ⟨state,g⟩ ⟨waker,rfl⟩; exact ⟨waker,rfl,rfl⟩) (fun _ => rfl)
    (by rintro r ⟨waker,hw⟩; cases hw)
  have hqueue : w.queue = [] := WaitList.queue_nil ho
  let t : State W := {s with waiters := w,woken := s.woken++s.waiters.queue.filterMap Node.waker}
  refine ⟨t,by simp only [State.notifyAll,hw,bind,Except.bind]; rfl,?_,?_,rfl,
    rfl,rfl,⟨fun _ _ _ => Iff.rfl,rfl⟩,hget,rfl⟩
  · refine {h with registry := hreg _ ?_ ?_, order := ?_}
    · rintro id ⟨state,g⟩ hr ⟨waker,rfl⟩
      obtain ⟨hreach,hnone⟩ := h.registry.fits id _ hr
      have hm : (⟨.waiting waker,g⟩ : Node W) ∈ s.waiters.queue :=
        h.registry.mem_queue.mpr ⟨⟨waker,rfl⟩,id,hr⟩
      exact ⟨⟨waker,List.mem_append_right _ (List.mem_filterMap.mpr ⟨_,hm,rfl⟩),hreach⟩,hnone⟩
    · rintro id ⟨state,g⟩ hr hl hfit
      cases state with
      | waiting waker => exact absurd ⟨waker,rfl⟩ hl
      | notifiedOne
      | notifiedAll => exact ⟨hfit.1.imp fun _ hm => ⟨List.mem_append_left _ hm.1,hm.2⟩,hfit.2⟩
    · show List.Sublist (w.queue.map Node.owner) s.registered
      rw [hqueue]
      exact List.nil_sublist _
  · show w.queue.map Node.owner = []
    rw [hqueue,List.map_nil]

section

variable (h : Ok none s) (hf : s.waits[f]? = some c)
include h hf

theorem register (hc : c.stage = .unpolled) (waker : W) :
    Ok none (s.register f c waker) ∧ Moves s (.poll f waker) (s.register f c waker) := by
  have hwaiter : c.waiter = none := by rw [Wait.waiter,hc]
  have hnone : c.selection = none := by
    have hrow := h.rows f c hf
    rwa [Wait.Sound,hc] at hrow
  obtain ⟨id,w,hp,hqueue,hget,hn,hreg⟩ := h.registry.pushBack
    (Fits s.woken (Function.update (Table.lookup Wait.selection s.waits) f c.selection)
      (Function.update (Table.lookup Wait.lastWaker s.waits) f (some waker)))
    (r := ⟨.waiting waker,f⟩) ((Table.lookup_eq hf).trans hwaiter) rfl ⟨waker,rfl⟩
    (by
      refine ⟨?_,?_⟩
      · rw [Function.update_self]
        exact ⟨waker,rfl,Or.inl rfl⟩
      · rw [Function.update_self,hnone])
    fun _ _ => fits_other (List.Subset.refl _)
  have hnew : f ∉ s.registered := by
    intro hm
    obtain ⟨d,hd,hne⟩ := h.enlisted f hm
    cases hf.symm.trans hd
    exact hne hc
  have hstep : s.register f c waker =
      {s.setWait f {c with stage := .releasing id,lastWaker := some waker} with
        waiters := w,registered := s.registered++[f]} := by
    rw [State.register,hp]
  have hcalm : Calm s (s.register f c waker) :=
    Calm.set hf (congrArg State.waits hstep) (by simp [hc]) (by simp) (by rw [hstep]; rfl)
  refine ⟨?_,hcalm.moves (Or.inl (by rw [hstep]; rfl)) (Or.inl (by rw [hstep]; rfl))⟩
  rw [hstep]
  refine h.change hf hreg ?_ trivial ?_ ?_ ?_ (by simp) fun _ => ⟨by rw [Wait.guarding,hc],rfl⟩
  · rw [Table.update_lookup Wait.selection hf c.selection rfl]
    exact h.custody
  · rw [hqueue,List.map_append,List.map_singleton]
    exact h.order.append_right [f]
  · rw [List.nodup_append]
    refine ⟨h.nodup,List.nodup_singleton f,?_⟩
    intro a ha b hb heq
    rw [List.mem_singleton.mp hb] at heq
    exact hnew (heq ▸ ha)
  · intro g hg hgf
    rcases List.mem_append.mp hg with hg | hg
    · exact hg
    · exact absurd (List.mem_singleton.mp hg) hgf

theorem pollWait_notified (hc : c.stage = .queued id) (hr : s.waiters.get? id = some ⟨state,f⟩)
    (baton : Bool) (hbaton : c.selection.isSome = baton) (hstate : ∀ waker, state ≠ .waiting waker) :
    ∃ w, s.waiters.removeUnlinkedWaiter id = .ok (⟨state,f⟩,w) ∧
      Ok none {s.setWait f {c with stage := .relocking baton} with waiters := w} ∧
      Calm s {s.setWait f {c with stage := .relocking baton} with waiters := w} := by
  obtain ⟨w,hrem,-,hqueue,-,hreg⟩ := h.registry.removeUnlinked
    (Fits s.woken (Table.lookup Wait.selection s.waits) (Table.lookup Wait.lastWaker s.waits)) hr
    (by rintro ⟨waker,hw⟩; exact hstate waker hw) fun _ _ _ hq => hq
  refine ⟨w,hrem,?_,Calm.set hf rfl (by simp [hc]) (by simp) rfl⟩
  refine h.update hf ?_ ?_ hbaton ?_ (by simp) (by simp [Wait.guarding])
  · rw [Table.update_lookup Wait.selection hf c.selection rfl,
      Table.update_lookup Wait.lastWaker hf c.lastWaker rfl]
    exact hreg
  · rw [Table.update_lookup Wait.selection hf c.selection rfl]
    exact h.custody
  · rw [hqueue]
    exact List.Sublist.refl _

theorem rewake (hc : c.stage = .queued id) {waker : W} (hqueue : w.queue.map Node.owner = s.queue)
    (hreg : Registry Node.owner Node.Linked (Fits s.woken
      (Function.update (Table.lookup Wait.selection s.waits) f c.selection)
      (Function.update (Table.lookup Wait.lastWaker s.waits) f (some waker))) w
      (Table.lookup Wait.waiter s.waits)) :
    Ok none {s.setWait f {c with lastWaker := some waker} with waiters := w} ∧
      Calm s {s.setWait f {c with lastWaker := some waker} with waiters := w} := by
  refine ⟨?_,Calm.set hf rfl (by simp [hc]) (by simp [hc]) rfl⟩
  refine h.update hf ?_ ?_ ?_ (by rw [hqueue]) (fun hu => hu) fun hg => ⟨hg,rfl⟩
  · show Registry _ _ _ w (Function.update (Table.lookup Wait.waiter s.waits) f c.waiter)
    rw [Table.update_lookup Wait.waiter hf c.waiter rfl]
    exact hreg
  · rw [Table.update_lookup Wait.selection hf c.selection rfl]
    exact h.custody
  · rw [Wait.Sound,hc]
    trivial

theorem pollWait (hc : c.stage = .queued id) (waker : W) :
    ∃ t, s.pollWait f c id waker = .ok t ∧ Ok none t ∧ Moves s (.poll f waker) t := by
  obtain ⟨state,hr,hfit⟩ := h.node hf (show c.waiter = some id by rw [Wait.waiter,hc])
  have hmoves : ∀ {t : State W}, Calm s t → t.issued = s.issued → t.ended = s.ended →
      Moves s (.poll f waker) t := fun hcalm hi he => hcalm.moves (Or.inl hi) (Or.inl he)
  cases state with
  | waiting current =>
    have hkept : ∀ kept, Reaches kept (some waker) → Fits s.woken
        (Function.update (Table.lookup Wait.selection s.waits) f c.selection)
        (Function.update (Table.lookup Wait.lastWaker s.waits) f (some waker)) f ⟨.waiting kept,f⟩ := by
      intro kept hreach
      rw [Fits,Function.update_self,Function.update_self]
      exact ⟨hreach,hfit.2⟩
    by_cases hwake : Wake.willWake current waker = true
    · obtain ⟨hok,hcalm⟩ := h.rewake hf hc (w:=s.waiters) rfl (h.registry.refit _ hr
        (hkept current ⟨waker,rfl,Or.inr hwake⟩) fun _ _ => fits_other (List.Subset.refl _))
      refine ⟨_,?_,hok,hmoves hcalm rfl rfl⟩
      simp only [State.pollWait,WaitList.waiterMut_ok hr,hwake,bind,Except.bind,if_true]
      rfl
    · obtain ⟨w,hset,-,hqueue,-,hreg⟩ := h.registry.setWaiter _ hr ⟨.waiting waker,f⟩ rfl
        (iff_of_true ⟨waker,rfl⟩ ⟨current,rfl⟩) (hkept waker ⟨waker,rfl,Or.inl rfl⟩)
        fun _ _ => fits_other (List.Subset.refl _)
      obtain ⟨hok,hcalm⟩ := h.rewake hf hc hqueue hreg
      refine ⟨_,?_,hok,hmoves hcalm rfl rfl⟩
      simp only [State.pollWait,WaitList.waiterMut_ok hr,hwake,bind,Except.bind,State.setWait,hset]
      rfl
  | notifiedOne =>
    obtain ⟨w,hrem,hok,hcalm⟩ := h.pollWait_notified hf hc hr true hfit.2 (by simp)
    refine ⟨_,?_,hok,hmoves hcalm rfl rfl⟩
    simp only [State.pollWait,WaitList.waiterMut_ok hr,hrem,bind,Except.bind]
  | notifiedAll =>
    have hnone : c.selection = none := hfit.2
    obtain ⟨w,hrem,hok,hcalm⟩ := h.pollWait_notified hf hc hr false
      (by rw [hnone,Option.isSome_none]) (by simp)
    refine ⟨_,?_,hok,hmoves hcalm rfl rfl⟩
    simp only [State.pollWait,WaitList.waiterMut_ok hr,hrem,bind,Except.bind]

/-- A selection that is not consumed is in a node, in a baton or in a destructor. -/
theorem holds (hn : c.selection = some n) (hc : c.stage ≠ .returned) : s.Holds f n := by
  refine ⟨c,hf,hn,?_⟩
  have hrow := h.rows f c hf
  cases hid : c.waiter with
  | none =>
    cases hstage : c.stage <;> simp_all [Wait.Sound,Wait.waiter]
  | some id =>
    obtain ⟨state,hr,hfit⟩ := h.node hf hid
    cases state with
    | waiting waker => cases hn.symm.trans hfit.2
    | notifiedOne => exact Or.inl ⟨id,rfl,hr⟩
    | notifiedAll => cases hn.symm.trans hfit.2

end

theorem filter_queue (h : Ok hand s) (hr : s.waiters.get? id = some ⟨state,f⟩)
    (hstate : ∀ waker, state ≠ .waiting waker) : s.queue.filter (· ≠ f) = s.queue := by
  refine List.filter_eq_self.mpr fun g hg => decide_eq_true ?_
  rintro rfl
  obtain ⟨q,hq,howner⟩ := List.mem_map.mp hg
  obtain ⟨⟨waker,hw⟩,i,hi⟩ := h.registry.mem_queue.mp hq
  have hslot := h.registry.owned i q hi
  rw [howner] at hslot
  cases (h.registry.owned id _ hr).symm.trans hslot
  cases hr.symm.trans hi
  exact hstate waker hw

theorem cancel (h : Ok none s) (hf : s.waits[f]? = some c)
    (hqueue : List.Sublist (w.queue.map Node.owner) s.queue)
    (hreg : Registry Node.owner Node.Linked (Fits s.woken
      (Function.update (Table.lookup Wait.selection s.waits) f none)
      (Function.update (Table.lookup Wait.lastWaker s.waits) f c.lastWaker)) w
      (Function.update (Table.lookup Wait.waiter s.waits) f none)) :
    Ok c.selection {s.setWait f {c with stage := .cancelled,selection := none} with waiters := w} := by
  refine h.update hf hreg ?_ rfl hqueue (by simp) (by simp [Wait.guarding])
  have htake := h.custody.take f
  rwa [Table.lookup_eq hf] at htake

/-- The destructor of a selected wait, or of its baton, hands the selection on. -/
theorem handOn {u : State W} (h : Ok (some n) u) (hcalm : Calm s u) (hqueue : u.queue = s.queue)
    (hissued : u.issued = s.issued) (hended : u.ended = s.ended) (hwoken : u.woken = s.woken) :
    ∃ t, u.passOn (some n) = .ok t ∧ Ok none t ∧ Calm s t ∧ t.issued = s.issued ∧ Passed s t n := by
  obtain ⟨t,ht,hok,hcalm',hi,hcases⟩ := h.passOn
  rw [hqueue,hended] at hcases
  refine ⟨t,ht,hok,hcalm.trans hcalm',hi.trans hissued,?_⟩
  rcases hcases with hend | ⟨g,d,hg,hd,hn,hstage,⟨e,waker,he,hreach,hwake⟩,hend⟩
  · exact Or.inl hend
  · exact Or.inr ⟨g,hg,hok.holds hd hn hstage,⟨e,waker,he,hreach,by rw [hwake,hwoken]⟩,hend⟩

section

variable (h : Ok none s)
include h

theorem dropWait (hf : s.waits[f]? = some c) (hc : c.stage = .queued id) :
    ∃ t, s.dropWait f c id = .ok t ∧ Ok none t ∧ Calm s t ∧ t.issued = s.issued ∧
      ((∃ n, c.selection = some n ∧ Passed s t n) ∨
        c.selection = none ∧ t.queue = s.queue.filter (· ≠ f) ∧ t.ended = s.ended ∧
          t.waits = s.waits.set f {c with stage := .cancelled,selection := none}) := by
  have hwaiter : c.waiter = some id := by rw [Wait.waiter,hc]
  obtain ⟨state,hr,hfit⟩ := h.node hf hwaiter
  obtain ⟨r,w,hr',-,hrem,-,hqueue,-,hreg⟩ := h.registry.removeWaiter (Fits s.woken
    (Function.update (Table.lookup Wait.selection s.waits) f none)
    (Function.update (Table.lookup Wait.lastWaker s.waits) f c.lastWaker))
    ((Table.lookup_eq hf).trans hwaiter) fun _ _ => fits_other (List.Subset.refl _)
  cases hr.symm.trans hr'
  have hok := h.cancel hf (by rw [hqueue]; exact List.filter_sublist) hreg
  have hcalm : Calm s {s.setWait f {c with stage := .cancelled,selection := none} with waiters := w} :=
    Calm.set hf rfl (by simp [hc]) (by simp) rfl
  have hstay : c.selection = none → state ≠ .notifiedOne → ∃ t, s.dropWait f c id = .ok t ∧ Ok none t ∧
      Calm s t ∧ t.issued = s.issued ∧ t.queue = s.queue.filter (· ≠ f) ∧ t.ended = s.ended ∧
        t.waits = s.waits.set f {c with stage := .cancelled,selection := none} := by
    intro hnone hstate
    refine ⟨_,?_,hnone ▸ hok,hcalm,rfl,hqueue,rfl,rfl⟩
    cases state with
    | notifiedOne => exact absurd rfl hstate
    | waiting | notifiedAll => simp only [State.dropWait,State.setWait,hrem,bind,Except.bind]
  cases state with
  | waiting | notifiedAll =>
    obtain ⟨t,ht,hok,hcalm,hi,hrest⟩ := hstay hfit.2 (by simp)
    exact ⟨t,ht,hok,hcalm,hi,Or.inr ⟨hfit.2,hrest⟩⟩
  | notifiedOne =>
    obtain ⟨n,hn⟩ : ∃ n, c.selection = some n := Option.isSome_iff_exists.mp hfit.2
    have hsame : w.queue.map Node.owner = s.queue := hqueue.trans (h.filter_queue hr (by simp))
    rw [hn] at hok
    obtain ⟨t,ht,hok,hcalm,hi,hpass⟩ := hok.handOn hcalm hsame rfl rfl rfl
    refine ⟨t,?_,hok,hcalm,hi,Or.inl ⟨n,hn,hpass⟩⟩
    simp only [State.dropWait,State.setWait,hrem,bind,Except.bind]
    rw [hn]
    exact ht

theorem pass (hf : s.waits[f]? = some c) (hc : c.stage = .passing) :
    ∃ n t, c.selection = some n ∧
      (s.setWait f {c with stage := .cancelled,selection := none}).passOn c.selection = .ok t ∧
      Ok none t ∧ Calm s t ∧ t.issued = s.issued ∧ Passed s t n := by
  have hrow := h.rows f c hf
  rw [Wait.Sound,hc] at hrow
  obtain ⟨n,hn⟩ := Option.isSome_iff_exists.mp hrow
  have hslot : Table.lookup Wait.waiter s.waits f = none := by
    rw [Table.lookup_eq hf,Wait.waiter,hc]
  have hok := h.cancel hf (List.Sublist.refl _) (by
    rw [← hslot,Function.update_eq_self]
    exact h.registry.refit_absent _ hslot fun _ _ => fits_other (List.Subset.refl _))
  rw [hn] at hok
  obtain ⟨t,ht,hok,hcalm,hi,hpass⟩ := hok.handOn
    (Calm.set hf rfl (by simp [hc]) (by simp) rfl) rfl rfl rfl rfl
  exact ⟨n,t,hn,by rw [hn]; exact ht,hok,hcalm,hi,hpass⟩

theorem wait (hm : s.mutexes[m]? = some .task) :
    Ok none {s.setMutex m (.wait s.waits.length) with
      waits := s.waits++[⟨m,.unpolled,none,none⟩]} := by
  have hfree := h.unguarded hm (by simp)
  refine ⟨?_,?_,?_,h.order,h.nodup,?_,?_,h.sound⟩
  · show Registry _ _ (Fits _ (Table.lookup Wait.selection (s.waits++[_]))
      (Table.lookup Wait.lastWaker (s.waits++[_]))) s.waiters (Table.lookup Wait.waiter (s.waits++[_]))
    rw [Table.lookup_push _ rfl,Table.lookup_push _ rfl,Table.lookup_push _ rfl]
    exact h.registry
  · show Custody (Table.lookup Wait.selection (s.waits++[_])) none s.issued s.ended
    rw [Table.lookup_push _ rfl]
    exact h.custody
  · exact Table.forall_push h.rows rfl
  · intro f hf
    obtain ⟨c,hc,hne⟩ := h.enlisted f hf
    exact ⟨c,Table.getElem?_push_old hc _,hne⟩
  · intro f c hc hg
    show (s.mutexes.set m _)[c.mutex]? = some (.wait f)
    rcases Table.getElem?_push hc with hc | ⟨rfl,rfl⟩
    · rw [List.getElem?_set_ne (Ne.symm (hfree f c hc hg))]
      exact h.guards f c hc hg
    · exact Table.getElem?_set_self' hm _

theorem poll (hf : s.waits[f]? = some c) {waker : W} (ha : s.poll f c waker = some r) :
    ∃ t, r = .ok t ∧ Ok none t ∧ Moves s (.poll f waker) t := by
  unfold State.poll at ha
  split at ha
  · next hc =>
    cases ha
    exact ⟨_,rfl,h.register hf hc waker⟩
  · next id hc =>
    cases ha
    exact h.pollWait hf hc waker
  · cases ha

theorem release (hf : s.waits[f]? = some c) (ha : s.release f c = some r) :
    ∃ t, r = .ok t ∧ Ok none t ∧ Moves s (.release f) t := by
  unfold State.release at ha
  split at ha
  · next id hc =>
    cases ha
    have hguard : c.guarding = true := by rw [Wait.guarding,hc]
    have hok : Ok none (s.setWait f {c with stage := .queued id}) :=
      h.restage hf (by rw [Wait.waiter,Wait.waiter,hc]) rfl rfl trivial (by simp) (by simp [Wait.guarding])
    refine ⟨_,rfl,h.leave hf hguard hok rfl .free,
      Moves.setMutex (returned_set_iff hf (by simp [hc]) (by simp)) rfl ?_ rfl rfl⟩
    intro g hg
    cases (h.guards f c hf hguard).symm.trans hg
    exact ⟨c,hf,Or.inr ⟨rfl,id,hc⟩⟩
  · cases ha

theorem relock (hf : s.waits[f]? = some c) (ha : s.relock f c = some r) :
    ∃ t, r = .ok t ∧ Ok none t ∧ Moves s (.relock f) t := by
  unfold State.relock at ha
  split at ha
  · next baton hc =>
    split at ha
    · next hfree =>
      cases ha
      have hok : Ok none (s.setWait f {c with stage := .returned}) :=
        h.restage hf (by rw [Wait.waiter,Wait.waiter,hc]) rfl rfl trivial (by simp) (by simp [Wait.guarding])
      refine ⟨_,rfl,hok.setMutex .task (hok.unguarded hfree (by simp)),?_,?_,?_,Or.inl rfl,Or.inl rfl⟩
      · intro g d hd hg
        have hgf : g ≠ f := by
          rintro rfl
          cases hf.symm.trans hg
          rw [hc] at hd
          cases hd
        exact (List.getElem?_set_ne (Ne.symm hgf)).trans hg
      · intro g d hd hg
        rcases Table.getElem?_set_cases hg with ⟨rfl,rfl⟩ | ⟨-,hg⟩
        · exact Or.inr ⟨rfl,hfree,Table.getElem?_set_self' hfree _⟩
        · exact Or.inl hg
      · intro m g hm
        have hne : c.mutex ≠ m := by
          rintro rfl
          cases hfree.symm.trans hm
        exact Or.inl ((List.getElem?_set_ne hne).trans hm)
    · cases ha
  · cases ha

theorem drop (hf : s.waits[f]? = some c) (ha : s.drop f c = some r) :
    ∃ t, r = .ok t ∧ Ok none t ∧ Moves s (.drop f) t := by
  unfold State.drop at ha
  have hrow := h.rows f c hf
  split at ha
  · next hc =>
    cases ha
    rw [Wait.Sound,hc] at hrow
    have hguard : c.guarding = true := by rw [Wait.guarding,hc]
    have hok : Ok none (s.setWait f {c with stage := .cancelled}) :=
      h.restage hf (by rw [Wait.waiter,Wait.waiter,hc]) rfl rfl hrow (by simp) (by simp [Wait.guarding])
    refine ⟨_,rfl,h.leave hf hguard hok rfl .free,
      Moves.setMutex (returned_set_iff hf (by simp [hc]) (by simp)) rfl ?_ rfl rfl⟩
    intro g hg
    cases (h.guards f c hf hguard).symm.trans hg
    exact ⟨c,hf,Or.inl ⟨rfl,hc⟩⟩
  · next id hc =>
    cases ha
    obtain ⟨t,ht,hok,hcalm,hi,hcases⟩ := h.dropWait hf hc
    refine ⟨t,ht,hok,hcalm.moves (Or.inl hi) ?_⟩
    rcases hcases with ⟨n,hn,⟨hnil,-,hend⟩ | ⟨-,-,-,-,hend⟩⟩ | ⟨-,-,hend,-⟩
    · exact Or.inr ⟨f,n,Or.inl rfl,h.holds hf hn (by simp [hc]),hnil,hend⟩
    · exact Or.inl hend
    · exact Or.inl hend
  · next hc =>
    cases ha
    rw [Wait.Sound,hc] at hrow
    refine ⟨_,rfl,?_,Moves.setWait hf (by simp [hc]) (by simp)⟩
    exact h.restage hf (by rw [Wait.waiter,Wait.waiter,hc]) rfl rfl hrow (by simp) (by simp [Wait.guarding])
  · next hc =>
    cases ha
    rw [Wait.Sound,hc] at hrow
    refine ⟨_,rfl,?_,Moves.setWait hf (by simp [hc]) (by simp)⟩
    exact h.restage hf (by rw [Wait.waiter,Wait.waiter,hc]) rfl rfl
      (Option.isSome_eq_false_iff.mp hrow |> Option.isNone_iff_eq_none.mp) (by simp) (by simp [Wait.guarding])
  · cases ha

theorem act (ha : s.act a = some r) : ∃ t, r = .ok t ∧ Ok none t ∧ Moves s a t := by
  cases a with
  | lock m =>
    simp only [State.act] at ha
    split at ha
    · next hm =>
      cases ha
      refine ⟨_,rfl,h.setMutex .task (h.unguarded hm (by simp)),
        Moves.setMutex (fun _ _ _ => Iff.rfl) rfl (fun f hf => ?_) rfl rfl⟩
      cases hm.symm.trans hf
    · cases ha
  | unlock m =>
    simp only [State.act] at ha
    split at ha
    · next hm =>
      cases ha
      refine ⟨_,rfl,h.setMutex .free (h.unguarded hm (by simp)),
        Moves.setMutex (fun _ _ _ => Iff.rfl) rfl (fun f hf => ?_) rfl rfl⟩
      cases hm.symm.trans hf
    · cases ha
  | wait m =>
    simp only [State.act] at ha
    split at ha
    · next hm =>
      cases ha
      refine ⟨_,rfl,h.wait hm,Moves.setMutex (fun g d hd => ⟨fun hg => ?_,fun hg => ?_⟩) rfl
        (fun f hf => ?_) rfl rfl⟩
      · rcases Table.getElem?_push hg with hg | ⟨-,rfl⟩
        · exact hg
        · cases hd
      · exact Table.getElem?_push_old hg _
      · cases hm.symm.trans hf
    · cases ha
  | poll f waker =>
    obtain ⟨c,hf,ha⟩ := Option.bind_eq_some_iff.mp ha
    exact h.poll hf ha
  | release f =>
    obtain ⟨c,hf,ha⟩ := Option.bind_eq_some_iff.mp ha
    exact h.release hf ha
  | relock f =>
    obtain ⟨c,hf,ha⟩ := Option.bind_eq_some_iff.mp ha
    exact h.relock hf ha
  | drop f =>
    obtain ⟨c,hf,ha⟩ := Option.bind_eq_some_iff.mp ha
    exact h.drop hf ha
  | pass f =>
    obtain ⟨c,hf,ha⟩ := Option.bind_eq_some_iff.mp ha
    unfold State.pass at ha
    split at ha
    · next hc =>
      cases ha
      obtain ⟨n,t,hn,ht,hok,hcalm,hi,hpass⟩ := h.pass hf hc
      refine ⟨t,ht,hok,hcalm.moves (Or.inl hi) ?_⟩
      rcases hpass with ⟨hnil,-,hend⟩ | ⟨-,-,-,-,hend⟩
      · exact Or.inr ⟨f,n,Or.inr rfl,h.holds hf hn (by simp [hc]),hnil,hend⟩
      · exact Or.inl hend
    · cases ha
  | notifyOne =>
    cases ha
    rcases h.notifyOne with ⟨-,hsame⟩ | ⟨g,c,t,ht,hok,-,-,-,-,hi,hend,hcalm,-⟩
    · exact ⟨s,hsame,h,Calm.moves ⟨fun _ _ _ => Iff.rfl,rfl⟩ (Or.inl rfl) (Or.inl rfl)⟩
    · exact ⟨t,ht,hok,hcalm.moves (Or.inr ⟨rfl,hi⟩) (Or.inl hend)⟩
  | notifyAll =>
    cases ha
    obtain ⟨t,ht,hok,-,-,hi,hend,hcalm,-⟩ := h.notifyAll
    exact ⟨t,ht,hok,hcalm.moves (Or.inl hi) (Or.inl hend)⟩

theorem next (hn : s.next a = some t) : s.act a = some (.ok t) ∧ Ok none t ∧ Moves s a t :=
  Transition.step_ok (fun _ => h.act) hn

end

end Ok

theorem reachable_ok [Wake W] (h : (machine W).Reachable s) : Ok none s := by
  refine (machine W).invariant (Ok none) ?_ (fun s a t hs hn => (hs.next hn).2.1) h
  rintro s ⟨mutexes,rfl⟩
  exact Ok.new mutexes

theorem Ok.holds_or_consumed [Wake W] (h : Ok none s) (f n : ℕ) :
    Table.lookup Wait.selection s.waits f = some n ↔ s.Holds f n ∨ s.Consumed f n := by
  constructor
  · intro hf
    obtain ⟨c,hc,hn⟩ := Option.bind_eq_some_iff.mp hf
    by_cases hstage : c.stage = .returned
    · exact Or.inr ⟨c,hc,hn,hstage⟩
    · exact Or.inl (h.holds hc hn hstage)
  · rintro (⟨c,hc,hn,-⟩ | ⟨c,hc,hn,-⟩)
    · rw [Table.lookup_eq hc,hn]
    · rw [Table.lookup_eq hc,hn]

theorem State.Holds.not_consumed (h : s.Holds f n) : ¬ s.Consumed f n := by
  rintro ⟨d,hd,-,hstage⟩
  obtain ⟨c,hc,-,hplace⟩ := h
  cases hc.symm.trans hd
  rcases hplace with ⟨id,hid,-⟩ | hplace | hplace
  · rw [Wait.waiter,hstage] at hid
    cases hid
  · cases hplace.symm.trans hstage
  · cases hplace.symm.trans hstage

inductive State.Placed (s : State W) (n : ℕ) : Prop
  | held (f : ℕ) (hf : s.Holds f n) (honly : ∀ g, s.Holds g n → g = f)
      (hconsumed : ∀ g, ¬ s.Consumed g n) (hended : n ∉ s.ended)
  | consumed (f : ℕ) (hf : s.Consumed f n) (honly : ∀ g, s.Consumed g n → g = f)
      (hheld : ∀ g, ¬ s.Holds g n) (hended : n ∉ s.ended)
  | ended (hn : n ∈ s.ended) (hheld : ∀ g, ¬ s.Holds g n) (hconsumed : ∀ g, ¬ s.Consumed g n)

theorem Ok.placed [Wake W] (h : Ok none s) (hn : n < s.issued) : s.Placed n := by
  rcases h.custody.place_unique hn with ⟨⟨f,hf,honly⟩,hended⟩ | ⟨hended,hnone⟩
  · have hother : ∀ g, s.Holds g n ∨ s.Consumed g n → g = f :=
      fun g hg => honly g ((h.holds_or_consumed g n).mpr hg)
    rcases (h.holds_or_consumed f n).mp hf with hold | hcons
    · refine .held f hold (fun g hg => hother g (Or.inl hg)) (fun g hg => ?_) hended
      rw [hother g (Or.inr hg)] at hg
      exact hold.not_consumed hg
    · refine .consumed f hcons (fun g hg => hother g (Or.inr hg)) (fun g hg => ?_) hended
      rw [hother g (Or.inl hg)] at hg
      exact hg.not_consumed hcons
  · exact .ended hended (fun g hg => hnone g ((h.holds_or_consumed g n).mpr (Or.inl hg)))
      fun g hg => hnone g ((h.holds_or_consumed g n).mpr (Or.inr hg))

def State.Broadcast (s : State W) (f : ℕ) (c : Wait W) : Prop :=
  (∃ id, c.stage = .queued id ∧ s.waiters.get? id = some ⟨.notifiedAll,f⟩) ∨ c.stage = .relocking false

theorem Ok.drop_broadcast [Wake W] (h : Ok none s) (hf : s.waits[f]? = some c) (hb : s.Broadcast f c)
    (hn : s.next (.drop f) = some t) :
    t.queue = s.queue ∧ t.issued = s.issued ∧ t.ended = s.ended ∧
      ∀ g, g ≠ f → t.waits[g]? = s.waits[g]? := by
  have hact := (h.next hn).1
  rw [State.act,hf,Option.bind_some,State.drop] at hact
  rcases hb with ⟨id,hc,hr⟩ | hc
  · rw [hc] at hact
    obtain ⟨state,hr',hfit⟩ := h.node hf (show c.waiter = some id by rw [Wait.waiter,hc])
    cases hr.symm.trans hr'
    have hnone : c.selection = none := hfit.2
    obtain ⟨u,hu,-,-,hi,⟨n,hsome,-⟩ | ⟨-,hqueue,hend,hwaits⟩⟩ := h.dropWait hf hc
    · cases hnone.symm.trans hsome
    · cases (Option.some.inj hact).symm.trans hu
      refine ⟨?_,hi,hend,fun g hg => by rw [hwaits,List.getElem?_set_ne (Ne.symm hg)]⟩
      exact hqueue.trans (h.filter_queue hr (by simp))
  · rw [hc] at hact
    cases hact
    exact ⟨rfl,rfl,rfl,fun g hg => List.getElem?_set_ne (Ne.symm hg)⟩

/-- The destructors of a holder: cancelling the relocking only marks the wait, and every
other one hands the selection on. -/
theorem Ok.give_up [Wake W] (h : Ok none s) (hf : s.Holds f n) (ha : a = .drop f ∨ a = .pass f)
    (hn : s.next a = some t) :
    (∃ c, s.waits[f]? = some c ∧ c.stage = .relocking true ∧ t = s.setWait f {c with stage := .passing}) ∨
      Passed s t n := by
  have hact := (h.next hn).1
  obtain ⟨c,hc,hsel,hplace⟩ := hf
  rcases ha with rfl | rfl
  · rw [State.act,hc,Option.bind_some,State.drop] at hact
    rcases hplace with ⟨id,hid,hr⟩ | hstage | hstage
    · cases hstage : c.stage with
      | queued i =>
        rw [hstage] at hact
        obtain ⟨u,hu,-,-,-,⟨m,hm,hpass⟩ | ⟨hnone,-⟩⟩ := h.dropWait hc hstage
        · cases (Option.some.inj hact).symm.trans hu
          cases hsel.symm.trans hm
          exact Or.inr hpass
        · cases hsel.symm.trans hnone
      | _ => simp_all [Wait.waiter]
    · rw [hstage] at hact
      cases hact
      exact Or.inl ⟨c,hc,hstage,rfl⟩
    · rw [hstage] at hact
      cases hact
  · rw [State.act,hc,Option.bind_some,State.pass] at hact
    split at hact
    · next hstage =>
      obtain ⟨m,u,hm,hu,-,-,-,hpass⟩ := h.pass hc hstage
      cases (Option.some.inj hact).symm.trans hu
      cases hsel.symm.trans hm
      exact Or.inr hpass
    · cases hact

/-- Selections are neither lost nor duplicated. -/
structure State.Accounted [Wake W] (s : State W) : Prop where
  linked : ∀ id r, s.waiters.get? id = some r →
    (id ∈ s.waiters.order ↔ ∃ waker, r.state = .waiting waker)
  oldest : List.Sublist s.queue s.registered ∧ s.registered.Nodup
  selects : ∀ g rest, s.queue = g::rest → ∃ t, s.next .notifyOne = some t ∧ t.queue = rest ∧
    t.issued = s.issued+1 ∧ t.Holds g s.issued ∧ s.Wakes t g
  notifies : ∃ t, s.next .notifyAll = some t ∧ t.queue = [] ∧ t.waits = s.waits ∧
    t.issued = s.issued ∧ t.ended = s.ended ∧
    (∀ id, t.waiters.get? id = (s.waiters.get? id).map fun r =>
      if id ∈ s.waiters.order then ⟨.notifiedAll,r.owner⟩ else r) ∧
    t.woken = s.woken++s.waiters.queue.filterMap Node.waker
  /-- The waker of a waiting node reaches the latest poll; that of a notified one was woken. -/
  waking : ∀ (f : ℕ) c id, s.waits[f]? = some c → c.waiter = some id →
    ∃ state, s.waiters.get? id = some ⟨state,f⟩ ∧
      Fits s.woken (fun _ => c.selection) (fun _ => c.lastWaker) f ⟨state,f⟩
  idle : s.queue = [] → s.next .notifyOne = some s ∧ s.next .notifyAll = some s
  placed : ∀ n < s.issued, s.Placed n
  passes : ∀ f n a t, s.Holds f n → a = .drop f ∨ a = .pass f → s.next a = some t →
    (∃ c, s.waits[f]? = some c ∧ c.stage = .relocking true ∧ t = s.setWait f {c with stage := .passing}) ∨
      Passed s t n
  broadcast : ∀ f c t, s.waits[f]? = some c → s.Broadcast f c → s.next (.drop f) = some t →
    t.queue = s.queue ∧ t.issued = s.issued ∧ t.ended = s.ended ∧
      ∀ g, g ≠ f → t.waits[g]? = s.waits[g]?
  registered : ∀ (f : ℕ) c id, s.waits[f]? = some c → c.stage = .releasing id →
    s.mutexes[c.mutex]? = some (.wait f) ∧ ∃ r, s.waiters.get? id = some r ∧ r.owner = f
  moves : ∀ a t, s.next a = some t → Moves s a t
  sound : s.panicked = none

theorem selection_accounting (W : Type) [Wake W] (s : State W) (h : (machine W).Reachable s) :
    s.Accounted := by
  have hok := reachable_ok h
  refine ⟨hok.registry.linked,⟨hok.order,hok.nodup⟩,?_,?_,fun f c id => hok.node,?_,fun n hn => hok.placed hn,
    fun f n a t hf ha hn => hok.give_up hf ha hn,fun f c t hf hb hn => hok.drop_broadcast hf hb hn,?_,
    fun a t hn => (hok.next hn).2.2,hok.sound⟩
  · intro g rest hqueue
    rcases hok.notifyOne with ⟨hnil,-⟩ | ⟨g',c,t,ht,hokt,hline,hc,hwaits,hstage,hi,-,-,hwakes⟩
    · cases hqueue.symm.trans hnil
    · cases hqueue.symm.trans hline
      have hg : t.waits[g]? = some {c with selection := some s.issued} := by
        rw [hwaits,Table.getElem?_set_self' hc]
      exact ⟨t,Transition.step_of_act hok.sound (congrArg some ht),rfl,hi,hokt.holds hg rfl hstage,
        hwakes⟩
  · obtain ⟨t,ht,-,hqueue,hwaits,hi,hend,-,hrest⟩ := hok.notifyAll
    exact ⟨t,Transition.step_of_act hok.sound (congrArg some ht),hqueue,hwaits,hi,hend,hrest⟩
  · intro hnil
    refine ⟨?_,Transition.step_of_act hok.sound (congrArg some (State.notifyAll_nil hnil))⟩
    rcases hok.notifyOne with ⟨-,hsame⟩ | ⟨g,c,t,-,-,hline,-⟩
    · exact Transition.step_of_act hok.sound (congrArg some hsame)
    · cases hnil.symm.trans hline
  · intro f c id hf hstage
    refine ⟨hok.guards f c hf (by rw [Wait.guarding,hstage]),?_⟩
    obtain ⟨state,hr,-⟩ := hok.node hf (show c.waiter = some id by rw [Wait.waiter,hstage])
    exact ⟨_,hr,rfl⟩

/-- Three waits: the selected first one is cancelled and the second one returns in its
place; the selection of the third one ends with it. -/
def handOnRun : List (Action ℕ) :=
  [.lock 0,.wait 0,.poll 0 7,.release 0,.lock 0,.wait 0,.poll 1 8,.release 1,.lock 0,.wait 0,
    .poll 2 9,.release 2,.notifyOne,.drop 0,.poll 1 8,.relock 1,.unlock 0,.notifyOne,.drop 2]

theorem selection_accounting_handOnRun :
    ∃ s, (machine ℕ).exec (new ℕ 1) handOnRun = some s ∧ s.Accounted ∧ s.issued = 2 ∧
      s.ended = [1] ∧ s.Consumed 1 0 := by
  have hrun : ((machine ℕ).exec (new ℕ 1) handOnRun).map (fun s => (s.issued,s.ended,
      s.waits[1]?.map fun c => (c.stage,c.selection))) = some (2,[1],some (.returned,some 0)) := by
    decide +kernel
  obtain ⟨s,hs,hend⟩ := Option.map_eq_some_iff.mp hrun
  simp only [Prod.mk.injEq] at hend
  obtain ⟨hi,he,hc⟩ := hend
  obtain ⟨c,hc,hstage⟩ := Option.map_eq_some_iff.mp hc
  simp only [Prod.mk.injEq] at hstage
  exact ⟨s,hs,selection_accounting ℕ s ((machine ℕ).reachable_of_exec ⟨1,rfl⟩ hs),hi,he,
    c,hc,hstage.2,hstage.1⟩

end Condvar
end Asyncband
