import Asyncband.SemaphoreLease

/-! What users of a leased semaphore may rely on.
The three ways of using the semaphore are creating a future, making a call and
letting a call take a step. Each keeps the lease and everything users know about
their futures and calls, and says how the held permits change. -/
namespace Asyncband
namespace Semaphore

variable {W : Type} {s : State W}

/-- Call `c` was made for this intent, which it may already have served. -/
def Serving (s : State W) (c : ℕ) (intent : Intent) : Prop :=
  ∃ call, s.calls[c]? = some call ∧ (call.intent = intent ∨ call.intent = .other)

def Queued (s : State W) (f : ℕ) : Prop :=
  ∃ a id, s.acquires[f]? = some a ∧ a.phase = .queued id

/-- A future that left the queue, or never enters it. -/
def Settled (s : State W) (f : ℕ) : Prop :=
  ∃ a, s.acquires[f]? = some a ∧ (a.phase = .ready ∨ a.phase = .dropped)

/-- Call `c` drops a future, which it may already have taken out of the queue. -/
def Dropping (s : State W) (c f : ℕ) : Prop :=
  s.calls[c]? = some (.started (.drop f)) ∨ Settled s f

def Draining (s : State W) (c upTo : ℕ) : Prop :=
  ∃ call, s.calls[c]? = some call ∧
    (call = .started (.drainPermits upTo) ∨ ∃ available, call = .drainPermits upTo available)

theorem Settled.not_queued {f : ℕ} (h : Settled s f) : ¬Queued s f := by
  rintro ⟨a,id,ha,hphase⟩
  obtain ⟨b,hb,hsettled⟩ := h
  cases ha.symm.trans hb
  simp [hphase] at hsettled

theorem assigned_eq_zero (h : ∀ f, ¬Queued s f) : s.assigned = 0 := by
  apply Table.total_eq_zero.mpr
  intro f a ha
  cases hphase : a.phase with
  | queued id => exact absurd ⟨a,id,ha,hphase⟩ (h f)
  | _ => simp [Acquire.assigned,hphase]

/-- Later states of a semaphore keep requests and calls. -/
structure Later (s s' : State W) : Prop where
  requested : ∀ f n, s.requested f = some n → s'.requested f = some n
  serving : ∀ c intent, Serving s c intent → Serving s' c intent
  settled : ∀ f, Settled s f → Settled s' f
  dropping : ∀ c f, Dropping s c f → Dropping s' c f

theorem Later.refl (s : State W) : Later s s :=
  ⟨fun _ _ h => h,fun _ _ h => h,fun _ h => h,fun _ _ h => h⟩

theorem distribute_acquires (s : State W) (c n : ℕ) :
    (distribute s c n).acquires = s.acquires := by
  unfold distribute
  split
  · rfl
  · split <;> rfl

theorem dropQueued_acquires (s : State W) (c f : ℕ) (a : Acquire W) (id : WaiterId) :
    (dropQueued s c f a id).acquires = s.acquires.set f {a with phase := .dropped,busy := none} ∨
      ∃ message r, (dropQueued s c f a id).calls = s.calls.set c (.panicked message r) := by
  unfold dropQueued
  split
  · exact Or.inr ⟨_,_,rfl⟩
  · split
    · exact Or.inr ⟨_,_,rfl⟩
    · dsimp only
      split
      · exact Or.inr ⟨_,_,rfl⟩
      · left
        split
        · rw [distribute_acquires]
          rfl
        · rfl

theorem borrow_acquires (s : State W) (d : ℕ) (op : Op W) (f : ℕ) :
    ((borrow s d op).acquires[f]?).map (fun a => (a.requestedPermits,a.phase)) =
      (s.acquires[f]?).map (fun a => (a.requestedPermits,a.phase)) := by
  have hmodify (g : ℕ) :
      ((s.acquires.modify g fun a => {a with busy := some d})[f]?).map
        (fun a => (a.requestedPermits,a.phase)) =
      (s.acquires[f]?).map (fun a => (a.requestedPermits,a.phase)) := by
    rw [List.getElem?_modify]
    by_cases hg : g = f <;> cases s.acquires[f]? <;> simp [hg]
  cases op with
  | poll g w => exact hmodify g
  | drop g => exact hmodify g
  | _ => rfl

section Steps

variable [Wake W] {s s' : State W} {c : ℕ} {call call' : Call W} {permits : ℕ}
variable {f n upTo : ℕ} {spurious : Bool} {op : Op W} {intent : Intent}

section

variable (h : Effect s c call call' s')
include h

theorem Effect.acquires :
    s'.acquires = s.acquires ∨
    ∃ f a a', s.acquires[f]? = some a ∧ s'.acquires = s.acquires.set f a' ∧
      a'.requestedPermits = a.requestedPermits ∧
      (a'.phase = a.phase ∨ a'.phase = .ready ∨ a'.phase = .dropped ∨
        a.phase = .unpolled ∧ call.intent = .poll f) := by
  cases h with
  | dropIdle hf _ hphase =>
    refine Or.inr ⟨_,_,_,hf,rfl,rfl,?_⟩
    rcases hphase with ⟨-,rfl⟩ | ⟨-,rfl⟩ <;> simp
  | acquire _ hf | cancel _ hf | claim _ hf => exact Or.inr ⟨_,_,_,hf,rfl,rfl,by simp⟩
  | enqueue _ hf _ hphase _ _ _ _ hintent =>
    exact Or.inr ⟨_,_,_,hf,rfl,rfl,Or.inr (Or.inr (Or.inr ⟨hphase,hintent⟩))⟩
  | refresh _ hf => exact Or.inr ⟨_,_,_,hf,rfl,rfl,Or.inl rfl⟩
  | _ => exact Or.inl rfl

theorem Effect.requested (hf : s.requested f = some n) : s'.requested f = some n := by
  obtain ⟨a,ha,hn⟩ := Option.map_eq_some_iff.mp hf
  apply Option.map_eq_some_iff.mpr
  rcases h.acquires with heq | ⟨g,b,b',hb,heq,hr,-⟩
  · exact ⟨a,by rw [heq]; exact ha,hn⟩
  · by_cases hg : g = f
    · subst hg
      cases ha.symm.trans hb
      exact ⟨b',by rw [heq]; exact Table.getElem?_set_self' ha b',hr.trans hn⟩
    · exact ⟨a,by rw [heq,List.getElem?_set_ne hg]; exact ha,hn⟩

theorem Effect.settled (hf : Settled s f) : Settled s' f := by
  obtain ⟨a,ha,hphase⟩ := hf
  rcases h.acquires with heq | ⟨g,b,b',hb,heq,-,hstep⟩
  · exact ⟨a,by rw [heq]; exact ha,hphase⟩
  · by_cases hg : g = f
    · subst hg
      cases ha.symm.trans hb
      refine ⟨b',by rw [heq]; exact Table.getElem?_set_self' ha b',?_⟩
      rcases hstep with hsame | hready | hdropped | ⟨hunpolled,-⟩
      · rwa [hsame]
      · exact Or.inl hready
      · exact Or.inr hdropped
      · simp [hunpolled] at hphase
    · exact ⟨a,by rw [heq,List.getElem?_set_ne hg]; exact ha,hphase⟩

theorem Effect.queued (hf : Queued s' f) : Queued s f ∨ call.intent = .poll f := by
  obtain ⟨a,id,ha,hphase⟩ := hf
  rcases h.acquires with heq | ⟨g,b,b',hb,heq,-,hstep⟩
  · exact Or.inl ⟨a,id,by rw [← heq]; exact ha,hphase⟩
  · rw [heq] at ha
    rcases Table.getElem?_set_cases ha with ⟨rfl,rfl⟩ | ⟨-,ha⟩
    · rcases hstep with hsame | hready | hdropped | ⟨-,hintent⟩
      · exact Or.inl ⟨b,id,hb,by rw [← hsame]; exact hphase⟩
      · simp [hphase] at hready
      · simp [hphase] at hdropped
      · exact Or.inr hintent
    · exact Or.inl ⟨a,id,ha,hphase⟩

theorem Effect.acquired_settled (hdone : call' = .finished .acquired) (hintent : call.intent = .poll f) :
    Settled s' f := by
  have hself {g : ℕ} {a a' : Acquire W} (hg : s.acquires[g]? = some a)
      (hsame : call.intent = .poll g) (hphase : a'.phase = .ready) :
      ∃ b, (s.acquires.set g a')[f]? = some b ∧ (b.phase = .ready ∨ b.phase = .dropped) := by
    have heq : g = f := by simpa [hintent] using hsame.symm
    subst heq
    exact ⟨a',Table.getElem?_set_self' hg a',Or.inl hphase⟩
  have hquiet (hq : call'.quiet = true) : False := by
    simp [hdone,Call.quiet] at hq
  cases h with
  | acquire _ hf _ _ _ hpoll => exact hself hf hpoll rfl
  | claim _ hf _ _ _ _ _ _ hcall => exact hself hf (by rw [hcall]; rfl) rfl
  | tryAcquire _ htry => simp [hintent] at htry
  | idle _ _ _ hq => exact (hquiet hq).elim
  | surplus _ _ _ _ _ hcalm
  | distribute _ _ _ _ _ hcalm
  | cancel _ _ _ _ _ _ _ _ _ _ _ _ hcalm => exact (hquiet (Call.calm_spec hcalm).2.2.2).elim
  | _ => cases hdone

end

theorem Effect.loaded_of_panicked {message : String} {r : ℕ}
    (h : Effect s c call (.panicked message r) s') : call.loaded ≠ none := by
  cases h with
  | idle _ _ _ hq => cases hq
  | overflow _ hloaded => simp [hloaded]
  | surplusOverflow _ hloaded => simp [hloaded]
  | surplus _ _ _ _ _ hcalm => cases hcalm
  | distribute _ _ _ _ _ hcalm => cases hcalm
  | cancel _ _ _ _ _ _ _ _ _ _ _ _ hcalm => cases hcalm

theorem Inv.drop_settled (hI : Inv s) (hc : s.calls[c]? = some (.started (.drop f)))
    (h : Semaphore.advance s c spurious = some s') : Settled s' f := by
  obtain ⟨call₁,heffect,-⟩ := advance_effect hI hc h
  have hself {a a' : Acquire W} (ha : s.acquires[f]? = some a)
      (hset : s'.acquires = s.acquires.set f a') (hphase : a'.phase = .ready ∨ a'.phase = .dropped) :
      Settled s' f :=
    ⟨a',by rw [hset]; exact Table.getElem?_set_self' ha a',hphase⟩
  simp only [Semaphore.advance,hc,begin] at h
  split at h
  · cases h
  · next a ha =>
    split at h
    · next id hphase =>
      split at h
      · cases h
      · cases h
        rcases dropQueued_acquires s c f a id with hset | ⟨message,r,hpanic⟩
        · exact hself ha hset (Or.inr rfl)
        · have hcall : call₁ = .panicked message r := by
            have hget := Table.getElem?_set_self' hc call₁
            rw [← heffect.calls_eq,hpanic,Table.getElem?_set_self' hc] at hget
            exact (Option.some.inj hget).symm
          subst hcall
          exact absurd rfl heffect.loaded_of_panicked
    · next hphase =>
      cases h
      exact hself ha rfl (Or.inl hphase)
    · cases h
      exact hself ha rfl (Or.inr rfl)

theorem create_later (h : next s (.acquire n) = some s') :
    Later s s' ∧ s'.calls = s.calls ∧ s'.requested s.acquires.length = some n ∧
      ∀ f, Queued s' f → Queued s f := by
  simp only [next] at h
  split at h
  · cases h
    have hsettled (f : ℕ) : Settled s f →
        Settled {s with acquires := s.acquires++[⟨n,.unpolled,none,none⟩]} f := by
      rintro ⟨a,ha,hphase⟩
      exact ⟨a,Table.getElem?_push_old ha _,hphase⟩
    refine ⟨⟨?_,fun _ _ hc => hc,hsettled,?_⟩,rfl,by simp [State.requested],?_⟩
    · intro f m hf
      obtain ⟨a,ha,hm⟩ := Option.map_eq_some_iff.mp hf
      exact Option.map_eq_some_iff.mpr ⟨a,Table.getElem?_push_old ha _,hm⟩
    · intro d f hdrop
      exact hdrop.imp_right (hsettled f)
    · rintro f ⟨a,id,ha,hphase⟩
      rcases Table.getElem?_push ha with ha | ⟨-,rfl⟩
      · exact ⟨a,id,ha,hphase⟩
      · cases hphase
  · cases h

theorem make_later (h : next s (.call op) = some s') :
    Later s s' ∧ s'.calls = s.calls++[.started op] ∧ ∀ f, Queued s' f → Queued s f := by
  simp only [next] at h
  split at h
  · cases h
    have hcalls : (borrow s s.calls.length op).calls = s.calls := by cases op <;> rfl
    have hsame := borrow_acquires s s.calls.length op
    have hold {c : ℕ} {call : Call W} (hc : s.calls[c]? = some call) :
        ((borrow s s.calls.length op).calls++[.started op])[c]? = some call := by
      rw [hcalls]
      exact Table.getElem?_push_old hc _
    have hfuture {f : ℕ} {a : Acquire W} (ha : s.acquires[f]? = some a) :
        ∃ b, (borrow s s.calls.length op).acquires[f]? = some b ∧
          b.requestedPermits = a.requestedPermits ∧ b.phase = a.phase := by
      have hf := hsame f
      rw [ha,Option.map_some] at hf
      obtain ⟨b,hb,heq⟩ := Option.map_eq_some_iff.mp hf
      exact ⟨b,hb,congrArg Prod.fst heq,congrArg Prod.snd heq⟩
    have hsettled (f : ℕ) : Settled s f → Settled {borrow s s.calls.length op with
        calls := (borrow s s.calls.length op).calls++[.started op]} f := by
      rintro ⟨a,ha,hphase⟩
      obtain ⟨b,hb,-,heq⟩ := hfuture ha
      exact ⟨b,hb,by rwa [heq]⟩
    refine ⟨⟨?_,?_,hsettled,?_⟩,by rw [hcalls],?_⟩
    · intro f m hf
      obtain ⟨a,ha,hm⟩ := Option.map_eq_some_iff.mp hf
      obtain ⟨b,hb,hr,-⟩ := hfuture ha
      exact Option.map_eq_some_iff.mpr ⟨b,hb,hr.trans hm⟩
    · rintro c intent ⟨call,hc,hi⟩
      exact ⟨call,hold hc,hi⟩
    · rintro c f (hc | hf)
      · exact Or.inl (hold hc)
      · exact Or.inr (hsettled f hf)
    · rintro f ⟨b,id,hb,hphase⟩
      have hf := hsame f
      rw [hb,Option.map_some] at hf
      obtain ⟨a,ha,heq⟩ := Option.map_eq_some_iff.mp hf.symm
      exact ⟨a,id,ha,(congrArg Prod.snd heq).trans hphase⟩
  · cases h

theorem Effect.other_call (h : Effect s c call call' s') {d : ℕ} (hdc : d ≠ c) :
    s'.calls[d]? = s.calls[d]? := by
  rw [h.calls_eq,List.getElem?_set_ne (Ne.symm hdc)]

theorem Effect.own_call (h : Effect s c call call' s') (hc : s.calls[c]? = some call) :
    s'.calls[c]? = some call' := by
  rw [h.calls_eq]
  exact Table.getElem?_set_self' hc call'

theorem Effect.later (heffect : Effect s c call call' s') (hI : Inv s) (hc : s.calls[c]? = some call)
    (h : advance s c spurious = some s') : Later s s' := by
  refine ⟨fun f n => heffect.requested,?_,fun f => heffect.settled,?_⟩
  · rintro d i ⟨other,hd,hi⟩
    by_cases hdc : d = c
    · subst hdc
      cases hc.symm.trans hd
      refine ⟨call',heffect.own_call hc,?_⟩
      rcases heffect.intent with heq | heq
      · rwa [heq]
      · exact Or.inr heq
    · exact ⟨other,(heffect.other_call hdc).trans hd,hi⟩
  · rintro d f (hd | hf)
    · by_cases hdc : d = c
      · subst hdc
        exact Or.inr (hI.drop_settled hd h)
      · exact Or.inl ((heffect.other_call hdc).trans hd)
    · exact Or.inr (heffect.settled hf)

theorem Loan.create (hL : Loan permits s) (h : next s (.acquire n) = some s') :
    Loan permits s' ∧ s'.taken = s.taken := by
  simp only [next] at h
  split at h
  · next hn =>
    cases h
    exact ⟨hL.acquire hn,rfl⟩
  · cases h

theorem Lease.create (hL : Lease permits s) (h : next s (.acquire n) = some s') :
    Lease permits s' ∧ s'.held = s.held ∧ Later s s' ∧
      s'.requested s.acquires.length = some n ∧ ∀ f, Queued s' f → Queued s f := by
  obtain ⟨hlater,hcalls,hrequested,hqueued⟩ := create_later h
  obtain ⟨hloan,-⟩ := hL.toLoan.create h
  have hledger : s'.ledger = s.ledger := by
    simp only [next] at h
    split at h
    · cases h
      rfl
    · cases h
  refine ⟨⟨hloan,hcalls ▸ hL.leasing,hledger ▸ hL.drained⟩,?_,hlater,hrequested,hqueued⟩
  rw [State.held,State.held,State.argument,State.argument,hledger,hcalls]

theorem Loan.make (hL : Loan permits s) (h : next s (.call op) = some s')
    (hop : op.intent.lending = true) (hle : op.released ≤ s.taken) :
    Loan permits s' ∧ s.taken = s'.taken+op.released ∧ s'.ledger = s.ledger := by
  simp only [next] at h
  split at h
  · next hs =>
    cases h
    obtain ⟨hloan,htaken⟩ := hL.start hs hop hle
    exact ⟨hloan,htaken,by cases op <;> rfl⟩
  · cases h

theorem Lease.make (hL : Lease permits s) (h : next s (.call op) = some s')
    (hop : op.intent.leasing = true) (hle : op.released ≤ s.held) :
    Lease permits s' ∧ s.held = s'.held+op.released ∧ Later s s' ∧
      s'.calls[s.calls.length]? = some (.started op) ∧ ∀ f, Queued s' f → Queued s f := by
  obtain ⟨hlater,hcalls,hqueued⟩ := make_later h
  rw [hL.held_taken] at hle
  obtain ⟨hloan,htaken,hledger⟩ := hL.toLoan.make h (Intent.leasing_iff.mp hop).1 hle
  have hlease : Lease permits s' := by
    refine ⟨hloan,?_,hledger ▸ hL.drained⟩
    rw [hcalls]
    intro call hcall
    rcases List.mem_append.mp hcall with hcall | hcall
    · exact hL.leasing call hcall
    · rw [List.mem_singleton.mp hcall]
      exact hop
  refine ⟨hlease,?_,hlater,by simp [hcalls],hqueued⟩
  rw [hL.held_taken,hlease.held_taken]
  exact htaken

/-- A call of a user, other than a drain, makes a step. Only its success changes what
users own. -/
theorem Loan.step (hL : Loan permits s) (hserving : Serving s c intent) (hdrain : intent ≠ .drain)
    (h : Semaphore.advance s c spurious = some s') :
    Loan permits s' ∧ Later s s' ∧ (∀ f, Queued s' f → Queued s f ∨ intent = .poll f) ∧
      ((s'.calls[c]? ≠ some (.finished .acquired) ∧ s'.taken = s.taken) ∨
        (s'.calls[c]? = some (.finished .acquired) ∧ (∀ f, intent = .poll f → Settled s' f) ∧
          ∃ n, intent.gain s = some n ∧ s'.taken = s.taken+n)) := by
  obtain ⟨call,call',hc,heffect,hloan⟩ := hL.advance h
  obtain ⟨call₀,hc₀,hi⟩ := hserving
  cases hc.symm.trans hc₀
  have hne : call.intent ≠ .drain := by
    rcases hi with hi | hi
    · rwa [hi]
    · rw [hi]
      exact nofun
  have hpoll {f : ℕ} (hf : call.intent = .poll f) : intent = .poll f := by
    rw [hf] at hi
    simpa [eq_comm] using hi
  refine ⟨hloan,heffect.later hL.inv hc h,fun f hf => (heffect.queued hf).imp_right hpoll,?_⟩
  rw [heffect.own_call hc]
  rcases heffect.taken hL hc hne with ⟨hne,heq⟩ | ⟨hdone,n,hn,heq⟩
  · exact Or.inl ⟨fun heq => hne (Option.some.inj heq),heq⟩
  · rcases hi with rfl | hi
    · exact Or.inr ⟨by rw [hdone],fun f hf => heffect.acquired_settled hdone hf,n,hn,heq⟩
    · rw [hi] at hn
      cases hn

/-- A step of `drain_permits`, which ends it or only looks at the count again. -/
theorem advance_draining (hd : Draining s c upTo) (h : Semaphore.advance s c spurious = some s') :
    (Draining s' c upTo ∧ s'.ledger = s.ledger) ∨
      ∃ n, s'.calls[c]? = some (.finished (.drained n)) ∧
        s'.ledger = {s.ledger with drained := s.ledger.drained+n} := by
  obtain ⟨call,hc,rfl | ⟨available,rfl⟩⟩ := hd
  · simp only [Semaphore.advance,hc,begin] at h
    split at h
    · cases h
      exact Or.inr ⟨0,Table.getElem?_set_self' hc _,rfl⟩
    · cases h
      exact Or.inl ⟨⟨_,Table.getElem?_set_self' hc _,Or.inr ⟨_,rfl⟩⟩,rfl⟩
  · simp only [Semaphore.advance,hc] at h
    split at h
    · cases h
      exact Or.inr ⟨_,Table.getElem?_set_self' hc _,rfl⟩
    · cases h
      exact Or.inl ⟨⟨_,Table.getElem?_set_self' hc _,Or.inr ⟨_,rfl⟩⟩,rfl⟩

theorem Loan.drain (hL : Loan permits s) (hd : Draining s c upTo)
    (h : Semaphore.advance s c spurious = some s') :
    Loan permits s' ∧ Later s s' ∧ (∀ f, Queued s' f → Queued s f) ∧
      ((Draining s' c upTo ∧ s'.taken = s.taken) ∨
        ∃ n, s'.calls[c]? = some (.finished (.drained n)) ∧ s'.taken = s.taken+n) := by
  obtain ⟨call,call',hc,heffect,hloan⟩ := hL.advance h
  have hcall : call.intent = .drain ∧ call.argument = 0 := by
    obtain ⟨call₀,hc₀,heq⟩ := hd
    cases hc.symm.trans hc₀
    rcases heq with rfl | ⟨available,rfl⟩ <;> exact ⟨rfl,rfl⟩
  have hargument := heffect.argument_total hc
  have hreleased := heffect.released (ordinary_of_lending (hL.lending call (List.mem_of_getElem? hc)))
  have hcovered := hL.covered
  refine ⟨hloan,heffect.later hL.inv hc h,?_,?_⟩
  · intro f hf
    refine (heffect.queued hf).resolve_right ?_
    rw [hcall.1]
    exact nofun
  · rcases advance_draining hd h with ⟨hd',hledger⟩ | ⟨n,hdone,hledger⟩
    · refine Or.inl ⟨hd',?_⟩
      rw [hledger] at hreleased
      rw [State.taken,State.taken,hledger]
      omega
    · refine Or.inr ⟨n,hdone,?_⟩
      rw [hledger] at hreleased
      rw [State.taken,State.taken,hledger]
      simp only at hreleased ⊢
      omega

theorem Lease.serving (hL : Lease permits s) (h : Serving s c intent) :
    ∃ intent', Serving s c intent' ∧ intent' ≠ .drain ∧ (intent' = intent ∨ intent' = .other) := by
  obtain ⟨call,hc,hi⟩ := h
  exact ⟨call.intent,⟨call,hc,Or.inl rfl⟩,hL.not_drain hc,hi⟩

/-- A call of a user makes a step. Only its success changes what users hold. -/
theorem Lease.step (hL : Lease permits s) (hserving : Serving s c intent)
    (h : Semaphore.advance s c spurious = some s') :
    Lease permits s' ∧ Later s s' ∧ (∀ f, Queued s' f → Queued s f ∨ intent = .poll f) ∧
      ((s'.calls[c]? ≠ some (.finished .acquired) ∧ s'.held = s.held) ∨
        (s'.calls[c]? = some (.finished .acquired) ∧ (∀ f, intent = .poll f → Settled s' f) ∧
          ∃ n, intent.gain s = some n ∧ s'.held = s.held+n)) := by
  obtain ⟨-,-,-,-,hlease⟩ := hL.advance h
  obtain ⟨intent',hserving',hdrain,hcases⟩ := hL.serving hserving
  obtain ⟨-,hlater,hqueued,htaken⟩ := hL.toLoan.step hserving' hdrain h
  rw [hL.held_taken,hlease.held_taken]
  rcases hcases with rfl | rfl
  · exact ⟨hlease,hlater,hqueued,htaken⟩
  · refine ⟨hlease,hlater,fun f hf => (hqueued f hf).imp_right nofun,?_⟩
    rcases htaken with hsame | ⟨-,-,n,hgain,-⟩
    · exact Or.inl hsame
    · cases hgain

end Steps
end Semaphore
end Asyncband
