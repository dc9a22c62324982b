import Asyncband.ManualResetEvent

/-! The cohorts of a manual-reset event.
A `set` that changes the flag releases the waits that are in line at that moment, in one
critical section, and nothing else ever releases a wait. A released wait keeps its
detached node, so neither a `reset` nor a later period takes the release back. -/
namespace Asyncband
namespace ManualResetEvent

variable {W : Type} {s t : State W} {a : Action W} {f g : ℕ} {c : Wait W} {b : Bool}

/-- A waiter in line holds a waker of its latest poll; the waker of a released one was
handed out. -/
def Fits [Wake W] (woken : List W) (last : ℕ → Option W) (f : ℕ) (r : Waiter W) : Prop :=
  if r.notified then ∃ waker ∈ woken, Reaches waker (last f)
  else ∃ waker, r.waker = some waker ∧ Reaches waker (last f)

structure Ok [Wake W] (s : State W) : Prop where
  registry : Registry Waiter.owner (fun r => r.notified = false)
    (Fits s.woken (Table.lookup Wait.lastWaker s.waits)) s.waiters (Table.lookup Wait.waiter s.waits)
  unset : s.isSet = true → s.waiters.order = []
  sound : s.panicked = none

/-- What a step of one wait does: it leaves the rows and the nodes of the others, it
releases nobody, and it returns only for a reason. -/
structure Local (s t : State W) (a : Action W) (f : ℕ) : Prop where
  waits : ∀ g, g ≠ f → t.waits[g]? = s.waits[g]?
  nodes : ∀ g, g ≠ f → ∀ i r, r.owner = g → (t.waiters.get? i = some r ↔ s.waiters.get? i = some r)
  flag : t.isSet = s.isSet
  woken : t.woken = s.woken
  released : ¬ t.Holds f true
  ready : t.Completed f → s.Completed f ∨ s.Holds f true ∨
    s.isSet = true ∧ ¬ s.Completed f ∧ (s.Polled f ∨ ∃ waker, a = .poll f waker)
  completes : s.Holds f true → (∃ waker, a = .poll f waker) ∧ t.Completed f ∨ a = .drop f

theorem Local.holds_iff (h : Local s t a f) (hg : g ≠ f) (b : Bool) : t.Holds g b ↔ s.Holds g b := by
  constructor
  · rintro ⟨c,id,r,hc,hid,hr,ho,hb⟩
    exact ⟨c,id,r,(h.waits g hg) ▸ hc,hid,(h.nodes g hg id r ho).mp hr,ho,hb⟩
  · rintro ⟨c,id,r,hc,hid,hr,ho,hb⟩
    exact ⟨c,id,r,(h.waits g hg).trans hc,hid,(h.nodes g hg id r ho).mpr hr,ho,hb⟩

theorem Local.completed_iff (h : Local s t a f) (hg : g ≠ f) : t.Completed g ↔ s.Completed g := by
  rw [State.Completed,State.Completed,h.waits g hg]

theorem not_holds (hf : s.waits[f]? = some c) (hstage : ∀ id, c.stage ≠ .waiting id) (b : Bool) :
    ¬ s.Holds f b := by
  rintro ⟨d,id,r,hd,hid,-⟩
  cases hf.symm.trans hd
  exact hstage id hid

theorem holds_eq {id : WaiterId} {r : Waiter W} (hf : s.waits[f]? = some c)
    (hid : c.stage = .waiting id) (hr : s.waiters.get? id = some r) (h : s.Holds f b) :
    r.notified = b := by
  obtain ⟨d,i,q,hd,hi,hq,-,hb⟩ := h
  cases hf.symm.trans hd
  cases hid.symm.trans hi
  cases hr.symm.trans hq
  exact hb

theorem State.Holds.polled (h : s.Holds f b) : s.Polled f := by
  obtain ⟨c,id,r,hc,hid,-⟩ := h
  exact ⟨c,hc,by rw [hid]; simp⟩

theorem State.Holds.not_completed (h : s.Holds f b) : ¬ s.Completed f := by
  rintro ⟨c,hc,hstage⟩
  exact not_holds hc (by simp [hstage]) b h

theorem setWait_local {c' : Wait W} (hf : s.waits[f]? = some c) (hold : ∀ id, c.stage ≠ .waiting id)
    (hnew : ∀ id, c'.stage ≠ .waiting id)
    (hready : c'.stage = .completed → s.isSet = true ∧ c.stage ≠ .completed ∧
      (c.stage ≠ .unpolled ∨ ∃ waker, a = .poll f waker)) : Local s (s.setWait f c') a f where
  waits g hg := List.getElem?_set_ne (Ne.symm hg)
  nodes _ _ _ _ _ := Iff.rfl
  flag := rfl
  woken := rfl
  released := not_holds (Table.getElem?_set_self' hf c') hnew true
  ready := by
    rintro ⟨d,hd,hstage⟩
    cases (Table.getElem?_set_self' hf c').symm.trans hd
    obtain ⟨hset,hne,hpolled⟩ := hready hstage
    refine Or.inr (Or.inr ⟨hset,?_,hpolled.imp_left fun hp => ⟨c,hf,hp⟩⟩)
    rintro ⟨e,he,hdone⟩
    cases hf.symm.trans he
    exact hne hdone
  completes hs := absurd hs (not_holds hf hold true)

namespace Ok

variable [Wake W] {s : State W} {f : ℕ} {last : Option W} {c' : Wait W} {r : Waiter W} {id : WaiterId}

theorem new (isSet : Bool) : Ok (withState W isSet) :=
  ⟨Registry.new,fun _ => WaitList.order_new,rfl⟩

theorem change (h : Ok s) (hf : s.waits[f]? = some c) {w : WaitList (Waiter W)}
    (hreg : Registry Waiter.owner (fun r => r.notified = false)
      (Fits s.woken (Function.update (Table.lookup Wait.lastWaker s.waits) f c'.lastWaker)) w
      (Function.update (Table.lookup Wait.waiter s.waits) f c'.waiter))
    (hunset : s.isSet = true → w.order = []) : Ok {s.setWait f c' with waiters := w} := by
  refine ⟨?_,hunset,h.sound⟩
  show Registry Waiter.owner _ (Fits s.woken (Table.lookup Wait.lastWaker (s.waits.set f c'))) w
    (Table.lookup Wait.waiter (s.waits.set f c'))
  rw [Table.lookup_set _ hf,Table.lookup_set _ hf]
  exact hreg

theorem restage (h : Ok s) (hf : s.waits[f]? = some c) (hwaiter : c'.waiter = c.waiter)
    (hlast : c'.lastWaker = c.lastWaker) : Ok (s.setWait f c') := by
  refine h.change hf ?_ h.unset
  rw [Table.update_lookup _ hf _ hwaiter,Table.update_lookup _ hf _ hlast]
  exact h.registry

theorem fits_other {woken : List W} {last : ℕ → Option W} {g : ℕ} {x : Option W} (hg : g ≠ f)
    (hr : Fits woken last g r) : Fits woken (Function.update last f x) g r := by
  rwa [Fits,Function.update_of_ne hg]

theorem probe (h : Ok s) (hf : s.waits[f]? = some ⟨.unpolled,last⟩) (waker : W) :
    Ok (s.probe f ⟨.unpolled,last⟩ waker) ∧
      Local s (s.probe f ⟨.unpolled,last⟩ waker) (.poll f waker) f := by
  rw [State.probe]
  split
  · next hset =>
    exact ⟨h.restage hf rfl rfl,setWait_local hf (by simp) (by simp)
      fun _ => ⟨hset,by simp,Or.inr ⟨waker,rfl⟩⟩⟩
  · exact ⟨h.restage hf rfl rfl,setWait_local hf (by simp) (by simp) (by simp)⟩

theorem pollWait_new (h : Ok s) {current : W} (hf : s.waits[f]? = some ⟨.probed current,last⟩)
    (waker : W) :
    ∃ t, s.pollWait f ⟨.probed current,last⟩ none waker = .ok t ∧ Ok t ∧ Local s t (.advance f) f := by
  cases hset : s.isSet with
  | true =>
    refine ⟨s.setWait f ⟨.completed,last⟩,by simp only [State.pollWait,hset,if_true],
      h.restage hf rfl rfl,setWait_local hf (by simp) (by simp) fun _ => ⟨hset,by simp,?_⟩⟩
    exact Or.inl (by simp)
  | false =>
    obtain ⟨id,w,hp,-,hg,hn,hreg⟩ := h.registry.pushBack
      (Fits s.woken (Function.update (Table.lookup Wait.lastWaker s.waits) f (some waker)))
      (r := ⟨false,some waker,f⟩) (Table.lookup_eq hf) rfl rfl
      (by
        rw [Fits,Function.update_self]
        exact ⟨waker,rfl,waker,rfl,Or.inl rfl⟩)
      fun _ _ => fits_other
    refine ⟨{s.setWait f ⟨.waiting id,some waker⟩ with waiters := w},?_,
      h.change hf hreg (by simp [hset]),?_⟩
    · simp only [State.pollWait,hset,Bool.false_eq_true,if_false,hp]
    have hrow := Table.getElem?_set_self' hf (⟨.waiting id,some waker⟩ : Wait W)
    have hnode : w.get? id = some ⟨false,some waker,f⟩ := by rw [hg,Function.update_self]
    constructor
    · exact fun g hgf => List.getElem?_set_ne (Ne.symm hgf)
    · rintro g hgf i r rfl
      refine Registry.get?_other hg (fun q hq => ?_) (fun q hq => ?_) hgf
      · rw [hn] at hq
        cases hq
      · cases hq
        rfl
    · rfl
    · rfl
    · intro hh
      cases holds_eq hrow rfl hnode hh
    · rintro ⟨d,hd,hstage⟩
      cases hrow.symm.trans hd
      cases hstage
    · exact fun hh => absurd hh (not_holds hf (by simp) true)

theorem pollWait_registered (h : Ok s) (hf : s.waits[f]? = some ⟨.waiting id,last⟩) (waker : W) :
    ∃ t, s.pollWait f ⟨.waiting id,last⟩ (some id) waker = .ok t ∧ Ok t ∧
      Local s t (.poll f waker) f := by
  obtain ⟨⟨notified,slot,f'⟩,hr,hf'⟩ := h.registry.held f id (Table.lookup_eq hf)
  obtain rfl : f = f' := hf'.symm
  have hown : ∀ q, s.waiters.get? id = some q → q.owner = f := by
    intro q hq
    cases hr.symm.trans hq
    rfl
  cases notified with
  | true =>
    obtain ⟨w,hrem,ho,-,hg,hreg⟩ := h.registry.removeUnlinked
      (Fits s.woken (Table.lookup Wait.lastWaker s.waits)) hr (by simp) fun _ _ _ hq => hq
    have hok : Ok {s.setWait f ⟨.completed,last⟩ with waiters := w} := by
      refine h.change hf ?_ fun hs => ho.trans (h.unset hs)
      rw [Table.update_lookup Wait.lastWaker hf last rfl]
      exact hreg
    have hrow := Table.getElem?_set_self' hf (⟨.completed,last⟩ : Wait W)
    refine ⟨_,?_,hok,?_⟩
    · simp only [State.pollWait,WaitList.waiterMut_ok hr,hrem,bind,Except.bind,if_true]
    constructor
    · exact fun g hgf => List.getElem?_set_ne (Ne.symm hgf)
    · rintro g hgf i r rfl
      exact Registry.get?_other hg hown (by rintro q ⟨⟩) hgf
    · rfl
    · rfl
    · exact not_holds hrow (by simp) true
    · exact fun _ => Or.inr (Or.inl ⟨_,id,_,hf,rfl,hr,rfl,rfl⟩)
    · exact fun _ => Or.inl ⟨⟨waker,rfl⟩,_,hrow,rfl⟩
  | false =>
    have hset : s.isSet = false := by
      cases hs : s.isSet with
      | false => rfl
      | true =>
        have hid := (h.registry.linked id _ hr).mpr rfl
        rw [h.unset hs] at hid
        cases hid
    obtain ⟨kept,hkept,hreach⟩ := registerWaker_reaches slot waker
    obtain ⟨w,hw,ho,-,hg,hreg⟩ := h.registry.setWaiter
      (Fits s.woken (Function.update (Table.lookup Wait.lastWaker s.waits) f (some waker)))
      hr ⟨false,registerWaker slot waker,f⟩ rfl Iff.rfl
      (by
        rw [Fits,Function.update_self]
        exact ⟨kept,hkept,hreach⟩)
      fun _ _ => fits_other
    have hok : Ok {s.setWait f ⟨.waiting id,some waker⟩ with waiters := w} := by
      refine h.change hf ?_ (by simp [hset])
      show Registry Waiter.owner _ _ w
        (Function.update (Table.lookup Wait.waiter s.waits) f (some id))
      rw [Table.update_lookup Wait.waiter hf (some id) rfl]
      exact hreg
    have hrow := Table.getElem?_set_self' hf (⟨.waiting id,some waker⟩ : Wait W)
    have hnode : w.get? id = some ⟨false,registerWaker slot waker,f⟩ := by
      rw [hg,Function.update_self]
    refine ⟨_,?_,hok,?_⟩
    · simp only [State.pollWait,WaitList.waiterMut_ok hr,hset,hw,bind,Except.bind,
        Bool.false_eq_true,if_false]
    constructor
    · exact fun g hgf => List.getElem?_set_ne (Ne.symm hgf)
    · rintro g hgf i r rfl
      refine Registry.get?_other hg hown ?_ hgf
      rintro q ⟨⟩
      rfl
    · rfl
    · rfl
    · intro hh
      cases holds_eq hrow rfl hnode hh
    · rintro ⟨d,hd,hstage⟩
      cases hrow.symm.trans hd
      cases hstage
    · intro hh
      cases holds_eq hf rfl hr hh

theorem unregisterWaiter (h : Ok s) (hf : s.waits[f]? = some ⟨.waiting id,last⟩) :
    ∃ t, (s.setWait f ⟨.cancelled,last⟩).unregisterWaiter id = .ok t ∧ Ok t ∧
      Local s t (.drop f) f := by
  obtain ⟨r,w,hr,hrf,hrem,ho,-,hg,hreg⟩ := h.registry.removeWaiter
    (Fits s.woken (Table.lookup Wait.lastWaker s.waits)) (Table.lookup_eq hf) fun _ _ _ hq => hq
  have hok : Ok {s.setWait f ⟨.cancelled,last⟩ with waiters := w} := by
    refine h.change hf ?_ fun hs => ?_
    · rw [Table.update_lookup Wait.lastWaker hf last rfl]
      exact hreg
    · rw [ho,h.unset hs]
      rfl
  have hrem' : (s.setWait f ⟨.cancelled,last⟩).waiters.removeWaiter id = .ok (r,w) := hrem
  have hrow := Table.getElem?_set_self' hf (⟨.cancelled,last⟩ : Wait W)
  refine ⟨_,?_,hok,?_⟩
  · simp only [State.unregisterWaiter,hrem',bind,Except.bind]
  constructor
  · exact fun g hgf => List.getElem?_set_ne (Ne.symm hgf)
  · rintro g hgf i q rfl
    refine Registry.get?_other hg (fun q hq => ?_) (by rintro q ⟨⟩) hgf
    cases hr.symm.trans hq
    exact hrf
  · rfl
  · rfl
  · exact not_holds hrow (by simp) true
  · rintro ⟨d,hd,hstage⟩
    cases hrow.symm.trans hd
    cases hstage
  · exact fun _ => Or.inr rfl

theorem holds_of_get? (h : Ok s) (hr : s.waiters.get? id = some r) : s.Holds r.owner r.notified := by
  obtain ⟨c,hc,hid⟩ := Option.bind_eq_some_iff.mp (h.registry.owned id r hr)
  rw [Wait.waiter] at hid
  split at hid
  · next i hstage =>
    cases hid
    exact ⟨c,id,r,hc,hstage,hr,rfl,rfl⟩
  · cases hid

theorem mem_cohort (h : Ok s) : f ∈ s.cohort ↔ s.Holds f false := by
  rw [State.cohort,List.mem_map]
  constructor
  · rintro ⟨r,hr,rfl⟩
    obtain ⟨hl,id,hid⟩ := h.registry.mem_queue.mp hr
    exact hl ▸ h.holds_of_get? hid
  · rintro ⟨c,id,r,-,-,hr,ho,hb⟩
    exact ⟨r,h.registry.mem_queue.mpr ⟨hb,id,hr⟩,ho⟩

end Ok

structure Released [Wake W] (s t : State W) : Prop where
  flag : t.isSet = true
  waits : t.waits = s.waits
  holds : ∀ f, t.Holds f true ↔ s.Holds f true ∨ f ∈ s.cohort
  cohort : t.cohort = []
  /-- One waker for each wait of the cohort, of its latest poll. -/
  woken : ∃ wakers, t.woken = s.woken++wakers ∧
    List.Forall₂ (fun f waker => Reaches waker (Table.lookup Wait.lastWaker s.waits f)) s.cohort wakers

theorem forall₂_filterMap {A B C : Type} {P : B → C → Prop} {f : A → B} {g : A → Option C}
    {l : List A} (h : ∀ a ∈ l, ∃ c, g a = some c ∧ P (f a) c) :
    List.Forall₂ P (l.map f) (l.filterMap g) := by
  induction l with
  | nil => exact List.Forall₂.nil
  | cons a l ih =>
    obtain ⟨c,hc,hp⟩ := h a (by simp)
    rw [List.map_cons,List.filterMap_cons,hc]
    exact List.Forall₂.cons hp (ih fun b hb => h b (by simp [hb]))

namespace Ok

variable [Wake W] {s t : State W} {f : ℕ}

theorem set (h : Ok s) (hset : s.isSet = false) :
    ∃ t, s.set = .ok t ∧ Ok t ∧ Released s t := by
  obtain ⟨w,hw,ho,hg,hreg⟩ := h.registry.selectAll Waiter.mark Waiter.takeWaker
    (fun r => some r.waker) (fun r => ⟨true,none,r.owner⟩) (fun r _ => ⟨r.waker,rfl,rfl⟩) (fun _ => rfl) (by simp)
  have hwakers : (s.waiters.queue.filterMap fun r => some r.waker).reduceOption =
      s.waiters.queue.filterMap Waiter.waker := List.filterMap_filterMap ..
  have hlatest : ∀ r ∈ s.waiters.queue, ∃ waker, r.waker = some waker ∧
      Reaches waker (Table.lookup Wait.lastWaker s.waits r.owner) := by
    intro r hr
    obtain ⟨hl,id,hid⟩ := h.registry.mem_queue.mp hr
    have hfit := h.registry.fits id r hid
    rwa [Fits,if_neg (by simp [hl])] at hfit
  let t : State W :=
    {s with isSet := true,waiters := w,woken := s.woken++s.waiters.queue.filterMap Waiter.waker}
  have hok : Ok t := by
    refine ⟨hreg _ ?_ ?_,fun _ => ho,h.sound⟩
    · intro id r hr hl
      obtain ⟨waker,hwaker,hreach⟩ := hlatest r (h.registry.mem_queue.mpr ⟨hl,id,hr⟩)
      refine ⟨waker,List.mem_append_right _ ?_,hreach⟩
      exact List.mem_filterMap.mpr ⟨r,h.registry.mem_queue.mpr ⟨hl,id,hr⟩,hwaker⟩
    · intro id r hr hl hfit
      have hb : r.notified = true := by simpa using hl
      rw [Fits,if_pos hb] at hfit ⊢
      obtain ⟨waker,hm,hreach⟩ := hfit
      exact ⟨waker,List.mem_append_left _ hm,hreach⟩
  refine ⟨t,?_,hok,rfl,rfl,?_,?_,_,rfl,forall₂_filterMap hlatest⟩
  · simp only [State.set,hset,Bool.false_eq_true,if_false,hw,bind,Except.bind,hwakers]
    rfl
  · intro f
    rw [h.mem_cohort]
    constructor
    · rintro ⟨c,id,r,hc,hid,hr,ho',-⟩
      have hr' : w.get? id = some r := hr
      rw [hg] at hr'
      obtain ⟨q,hq,rfl⟩ := Option.map_eq_some_iff.mp hr'
      have hown : q.owner = f := by
        rw [← ho']
        split <;> rfl
      have hb : q.notified = true ∨ q.notified = false := by cases q.notified <;> simp
      exact hb.imp (fun hb => ⟨c,id,q,hc,hid,hq,hown,hb⟩) fun hb => ⟨c,id,q,hc,hid,hq,hown,hb⟩
    · intro hs
      have hnode : ∃ c id r, s.waits[f]? = some c ∧ c.stage = .waiting id ∧
          s.waiters.get? id = some r ∧ r.owner = f := by
        rcases hs with ⟨c,id,r,hc,hid,hr,hown,-⟩ | ⟨c,id,r,hc,hid,hr,hown,-⟩ <;>
          exact ⟨c,id,r,hc,hid,hr,hown⟩
      obtain ⟨c,id,r,hc,hid,hr,hown⟩ := hnode
      have hr' : w.get? id = some (if id ∈ s.waiters.order then ⟨true,none,r.owner⟩ else r) := by
        rw [hg,hr]
        rfl
      refine ⟨c,id,_,hc,hid,hr',?_,?_⟩
      · split
        · exact hown
        · exact hown
      · split
        · rfl
        · next hid => simpa using (not_congr (h.registry.linked id r hr)).mp hid
  · show w.queue.map Waiter.owner = []
    rw [WaitList.queue_nil ho]
    rfl

/-- Every enabled action returns; a step is local to one wait, or it releases a cohort, or
it leaves the waits as they are. -/
theorem act (h : Ok s) {x : Except String (State W)} (hx : s.act a = some x) :
    ∃ t, x = .ok t ∧ Ok t ∧ ((∃ f, Local s t a f) ∨ a = .set ∧ s.isSet = false ∧ Released s t ∨
      (∀ f b, t.Holds f b ↔ s.Holds f b) ∧ ∀ f, t.Completed f ↔ s.Completed f) := by
  cases a with
  | set =>
    obtain rfl := Option.some.inj hx
    cases hset : s.isSet with
    | true =>
      exact ⟨s,by simp only [State.set,hset,if_true],h,
        Or.inr (Or.inr ⟨fun _ _ => Iff.rfl,fun _ => Iff.rfl⟩)⟩
    | false =>
      obtain ⟨t,ht,hok,hrel⟩ := h.set hset
      exact ⟨t,ht,hok,Or.inr (Or.inl ⟨rfl,rfl,hrel⟩)⟩
  | reset =>
    obtain rfl := Option.some.inj hx
    exact ⟨_,rfl,⟨h.registry,by simp [State.reset],h.sound⟩,
      Or.inr (Or.inr ⟨fun _ _ => Iff.rfl,fun _ => Iff.rfl⟩)⟩
  | tryWait =>
    obtain rfl := Option.some.inj hx
    exact ⟨s,rfl,h,Or.inr (Or.inr ⟨fun _ _ => Iff.rfl,fun _ => Iff.rfl⟩)⟩
  | wait =>
    obtain rfl := Option.some.inj hx
    have hwaiter : Table.lookup Wait.waiter (s.waits++[⟨.unpolled,none⟩]) =
        Table.lookup Wait.waiter s.waits := Table.lookup_push s.waits rfl
    have hlast : Table.lookup Wait.lastWaker (s.waits++[⟨.unpolled,none⟩]) =
        Table.lookup Wait.lastWaker s.waits := Table.lookup_push s.waits rfl
    refine ⟨_,rfl,⟨?_,h.unset,h.sound⟩,Or.inr (Or.inr ⟨fun f b => ?_,fun f => ?_⟩)⟩
    · simp only [hwaiter,hlast]
      exact h.registry
    · constructor
      · rintro ⟨c,id,r,hc,hid,hr,ho,hb⟩
        rcases Table.getElem?_push hc with hc | ⟨-,rfl⟩
        · exact ⟨c,id,r,hc,hid,hr,ho,hb⟩
        · cases hid
      · rintro ⟨c,id,r,hc,hid,hr,ho,hb⟩
        exact ⟨c,id,r,Table.getElem?_push_old hc _,hid,hr,ho,hb⟩
    · constructor
      · rintro ⟨c,hc,hstage⟩
        rcases Table.getElem?_push hc with hc | ⟨-,rfl⟩
        · exact ⟨c,hc,hstage⟩
        · cases hstage
      · rintro ⟨c,hc,hstage⟩
        exact ⟨c,Table.getElem?_push_old hc _,hstage⟩
  | poll f waker =>
    obtain ⟨⟨stage,last⟩,hf,hx⟩ := Option.bind_eq_some_iff.mp hx
    cases stage with
    | unpolled =>
      obtain rfl := Option.some.inj hx
      obtain ⟨hok,hlocal⟩ := h.probe hf waker
      exact ⟨_,rfl,hok,Or.inl ⟨f,hlocal⟩⟩
    | waiting id =>
      obtain rfl := Option.some.inj hx
      obtain ⟨t,ht,hok,hlocal⟩ := h.pollWait_registered hf waker
      exact ⟨t,ht,hok,Or.inl ⟨f,hlocal⟩⟩
    | _ => cases hx
  | advance f =>
    obtain ⟨⟨stage,last⟩,hf,hx⟩ := Option.bind_eq_some_iff.mp hx
    cases stage with
    | probed waker =>
      obtain rfl := Option.some.inj hx
      obtain ⟨t,ht,hok,hlocal⟩ := h.pollWait_new hf waker
      exact ⟨t,ht,hok,Or.inl ⟨f,hlocal⟩⟩
    | _ => cases hx
  | drop f =>
    obtain ⟨⟨stage,last⟩,hf,hx⟩ := Option.bind_eq_some_iff.mp hx
    cases stage with
    | unpolled =>
      obtain rfl := Option.some.inj hx
      exact ⟨_,rfl,h.restage hf rfl rfl,
        Or.inl ⟨f,setWait_local hf (by simp) (by simp) (by simp)⟩⟩
    | waiting id =>
      obtain rfl := Option.some.inj hx
      obtain ⟨t,ht,hok,hlocal⟩ := h.unregisterWaiter hf
      exact ⟨t,ht,hok,Or.inl ⟨f,hlocal⟩⟩
    | completed =>
      obtain rfl := Option.some.inj hx
      exact ⟨s,rfl,h,Or.inr (Or.inr ⟨fun _ _ => Iff.rfl,fun _ => Iff.rfl⟩)⟩
    | _ => cases hx

section

variable (h : Ok s) (hn : s.next a = some t)
include h hn

theorem next :
    Ok t ∧ ((∃ f, Local s t a f) ∨ a = .set ∧ s.isSet = false ∧ Released s t ∨
      (∀ f b, t.Holds f b ↔ s.Holds f b) ∧ ∀ f, t.Completed f ↔ s.Completed f) := by
  exact (Transition.step_ok (fun _ => h.act) hn).2

theorem released_origin (ht : t.Holds f true) :
    s.Holds f true ∨ a = .set ∧ s.isSet = false ∧ f ∈ s.cohort ∧ Released s t := by
  rcases (h.next hn).2 with ⟨g,hlocal⟩ | ⟨ha,hset,hrel⟩ | ⟨hholds,-⟩
  · by_cases hfg : f = g
    · subst hfg
      exact absurd ht hlocal.released
    · exact Or.inl ((hlocal.holds_iff hfg true).mp ht)
  · exact ((hrel.holds f).mp ht).imp_right fun hc => ⟨ha,hset,hc,hrel⟩
  · exact Or.inl ((hholds f true).mp ht)

theorem keeps (hs : s.Holds f true) :
    t.Holds f true ∨ a = .drop f ∨ (∃ waker, a = .poll f waker) ∧ t.Completed f := by
  rcases (h.next hn).2 with ⟨g,hlocal⟩ | ⟨-,-,hrel⟩ | ⟨hholds,-⟩
  · by_cases hfg : f = g
    · subst hfg
      exact Or.inr (hlocal.completes hs).symm
    · exact Or.inl ((hlocal.holds_iff hfg true).mpr hs)
  · exact Or.inl ((hrel.holds f).mpr (Or.inl hs))
  · exact Or.inl ((hholds f true).mpr hs)

/-- A wait returns because it was released or because its poll found the event set. -/
theorem ready_origin (ht : t.Completed f) :
    s.Completed f ∨ s.Holds f true ∨
      s.isSet = true ∧ ¬ s.Completed f ∧ (s.Polled f ∨ ∃ waker, a = .poll f waker) := by
  rcases (h.next hn).2 with ⟨g,hlocal⟩ | ⟨-,-,hrel⟩ | ⟨-,hdone⟩
  · by_cases hfg : f = g
    · subst hfg
      exact hlocal.ready ht
    · exact Or.inl ((hlocal.completed_iff hfg).mp ht)
  · obtain ⟨c,hc,hstage⟩ := ht
    rw [hrel.waits] at hc
    exact Or.inl ⟨c,hc,hstage⟩
  · exact Or.inl ((hdone f).mp ht)

end

theorem completes (h : Ok s) (hs : s.Holds f true) (waker : W) :
    ∃ t, s.next (.poll f waker) = some t ∧ t.Completed f := by
  obtain ⟨⟨stage,last⟩,id,r,hc,hid,hr,ho,hb⟩ := hs
  cases hid
  obtain ⟨t,ht,-,hlocal⟩ := h.pollWait_registered hc waker
  have hn : s.next (.poll f waker) = some t := by
    apply Transition.step_of_act h.sound
    simp [State.act,hc,State.poll,ht]
  rcases hlocal.completes ⟨_,id,r,hc,rfl,hr,ho,hb⟩ with ⟨-,hdone⟩ | ha
  · exact ⟨t,hn,hdone⟩
  · cases ha

end Ok

/-- The event was set while the wait was under way: at `u` its first poll had begun, or
was the next step, and it had not returned. -/
def SetDuring (f : ℕ) (u : State W) (post : List (Action W)) : Prop :=
  u.isSet = true ∧ ¬ u.Completed f ∧ (u.Polled f ∨ ∃ waker, post.head? = some (.poll f waker))

theorem SetDuring.append {u : State W} {post : List (Action W)} (h : SetDuring f u post)
    (more : List (Action W)) : SetDuring f u (post++more) := by
  refine ⟨h.1,h.2.1,h.2.2.imp_right ?_⟩
  rintro ⟨waker,hw⟩
  exact ⟨waker,by rw [List.head?_append,hw]; rfl⟩

/-- What holds in a state between critical sections. -/
structure CohortLaw [Wake W] (s : State W) : Prop where
  unset : s.waiters.order ≠ [] → s.isSet = false
  linked : ∀ id r, s.waiters.get? id = some r → (id ∈ s.waiters.order ↔ r.notified = false)
  cohort : ∀ f, f ∈ s.cohort ↔ s.Holds f false
  set : s.isSet = false → ∃ t, s.next .set = some t ∧ Released s t
  /-- Nothing else releases a wait, so that waits which register later are not released. -/
  origin : ∀ a t f, s.next a = some t → t.Holds f true →
    s.Holds f true ∨ a = .set ∧ s.isSet = false ∧ f ∈ s.cohort
  keeps : ∀ a t f, s.next a = some t → s.Holds f true →
    t.Holds f true ∨ a = .drop f ∨ (∃ waker, a = .poll f waker) ∧ t.Completed f
  completes : ∀ f waker, s.Holds f true → ∃ t, s.next (.poll f waker) = some t ∧ t.Completed f
  sound : s.panicked = none

theorem Ok.law [Wake W] (h : Ok s) : CohortLaw s where
  unset ho := by
    cases hset : s.isSet with
    | false => rfl
    | true => exact absurd (h.unset hset) ho
  linked := h.registry.linked
  cohort _ := h.mem_cohort
  set hset := by
    obtain ⟨t,ht,-,hrel⟩ := h.set hset
    exact ⟨t,Transition.step_of_act h.sound (congrArg some ht),hrel⟩
  origin a t f hn ht :=
    (h.released_origin hn ht).imp_right fun ho => ⟨ho.1,ho.2.1,ho.2.2.1⟩
  keeps _ _ _ hn hs := h.keeps hn hs
  completes _ waker hs := h.completes hs waker
  sound := h.sound

/-- In every state of a run from the start, and of every wait that has returned. -/
theorem cohorts [Wake W] {isSet : Bool} {run : List (Action W)} {s : State W}
    (h : (machine W isSet).exec (withState W isSet) run = some s) :
    CohortLaw s ∧ ∀ f, s.Completed f →
      (machine W isSet).Visited (withState W isSet) run (SetDuring f) := by
  -- a released wait owes its return to the same moment as a completed one
  have hmain : Ok s ∧ ∀ f, s.Holds f true ∨ s.Completed f →
      (machine W isSet).Visited (withState W isSet) run (SetDuring f) := by
    refine (machine W isSet).exec_history (fun run s => Ok s ∧ ∀ f, s.Holds f true ∨ s.Completed f →
      (machine W isSet).Visited (withState W isSet) run (SetDuring f)) ?_ ?_ h
    · refine ⟨Ok.new isSet,fun f hf => ?_⟩
      rcases hf with ⟨c,id,r,hc,-⟩ | ⟨c,hc,-⟩ <;> cases hc
    · rintro as s a t hs ⟨hok,hpast⟩ hn
      refine ⟨(hok.next hn).1,fun f hf => ?_⟩
      have hearlier (hold : s.Holds f true ∨ s.Completed f) :
          (machine W isSet).Visited (withState W isSet) (as++[a]) (SetDuring f) :=
        (hpast f hold).snoc _ a fun u post hp => hp.append [a]
      rcases hf with hf | hf
      · rcases hok.released_origin hn hf with hold | ⟨-,-,-,hrel⟩
        · exact hearlier (Or.inl hold)
        · exact ⟨as++[a],[],t,by simp,(machine W isSet).exec_snoc hs hn,hrel.flag,
            hf.not_completed,Or.inl hf.polled⟩
      · rcases hok.ready_origin hn hf with hold | hold | ⟨hset,hnot,hpolled⟩
        · exact hearlier (Or.inr hold)
        · exact hearlier (Or.inl hold)
        · refine ⟨as,[a],s,rfl,hs,hset,hnot,hpolled.imp_right ?_⟩
          rintro ⟨waker,rfl⟩
          exact ⟨waker,rfl⟩
  exact ⟨hmain.1.law,fun f hf => hmain.2 f (Or.inr hf)⟩

/-- A wait is released, the event is reset, and a second wait registers before the
released one is polled. -/
def periodRun : List (Action ℕ) :=
  [.wait,.poll 0 7,.advance 0,.poll 0 8,.set,.reset,.wait,.poll 1 9,.advance 1,.poll 0 8]

theorem cohorts_periodRun :
    ∃ s, (machine ℕ false).exec (withState ℕ false) periodRun = some s ∧ s.woken = [8] ∧
      s.cohort = [1] ∧ s.isSet = false ∧ CohortLaw s ∧
      (machine ℕ false).Visited (withState ℕ false) periodRun (SetDuring 0) := by
  have hrun : ((machine ℕ false).exec (withState ℕ false) periodRun).map (fun s =>
      (s.woken,s.cohort,s.isSet,s.waits[0]?.map Wait.stage)) =
      some ([8],[1],false,some .completed) := by decide +kernel
  obtain ⟨s,hs,hend⟩ := Option.map_eq_some_iff.mp hrun
  simp only [Prod.mk.injEq] at hend
  obtain ⟨hlaw,hready⟩ := cohorts hs
  obtain ⟨c,hc,hstage⟩ := Option.map_eq_some_iff.mp hend.2.2.2
  exact ⟨s,hs,hend.1,hend.2.1,hend.2.2.1,hlaw,hready 0 ⟨c,hc,hstage⟩⟩

end ManualResetEvent
end Asyncband
