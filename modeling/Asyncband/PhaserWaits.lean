import Asyncband.PhaserAccounting

/-! Waits on a phaser.
A token of a wait counts while the observed phase is current and the phaser is open;
this is the comparison that the code makes under its lock before it touches the waker
set. `Seats` says that the tokens that count are exactly the occupied slots, so an
advance or a close takes the wakers of exactly the waits that it completes. -/
namespace Asyncband
namespace Phaser

variable {W : Type}
variable {s : State W} {c : WaitCall W} {phase observed p : ℕ} {token : Option SlotId}
    {q : PhaserParticipant} {owner : Option ℕ}

namespace WaitCall

def seat (phase : ℕ) (closed : Bool) (c : WaitCall W) : Option SlotId :=
  match c.stage with
  | .waiting observed token => if observed = phase ∧ closed = false then token else none
  | _ => none

theorem seat_closed (phase : ℕ) (c : WaitCall W) : c.seat phase true = none := by
  simp only [seat]
  split <;> simp

theorem seat_of_not_live {c : WaitCall W} (h : c.isLive = false) (phase : ℕ) (closed : Bool) :
    c.seat phase closed = none := by
  cases hs : c.stage <;> simp_all [isLive,seat]

end WaitCall

namespace State

def slot (s : State W) : ℕ → Option SlotId :=
  Table.lookup (WaitCall.seat s.phase s.closed) s.waits

def latest (s : State W) : ℕ → Option W := Table.lookup WaitCall.lastWaker s.waits

end State

/-- What a completed wait was right about. -/
def Justified (s : State W) (c : WaitCall W) : Prop :=
  match c.stage with
  | .done observed (.ok next) => next ≤ s.phase ∧ ∃ k, observed = some k ∧ k < next ∧
      ∀ p, c.owner = some p → (p,k) ∈ s.arrivals
  | .done _ .closed => s.closed = true ∧ ∀ (p : ℕ) q k, c.owner = some p →
      s.participants[p]? = some q → q.pending = some k → k = s.phase
  | _ => True

/-- What may happen to the state without making a completed wait wrong. -/
structure Later (s t : State W) : Prop where
  phase : s.phase ≤ t.phase
  closed : s.closed = true → t.closed = true ∧ t.phase = s.phase
  arrivals : s.arrivals ⊆ t.arrivals
  pending : s.closed = true → ∀ (p : ℕ) q k, t.participants[p]? = some q → q.pending = some k →
    ∃ q', s.participants[p]? = some q' ∧ q'.pending = some k

theorem Justified.mono {t : State W} (h : Justified s c) (hl : Later s t) : Justified t c := by
  simp only [Justified] at h ⊢
  split at h
  · obtain ⟨hle,k,hk,hlt,hp⟩ := h
    exact ⟨hle.trans hl.phase,k,hk,hlt,fun p ho => hl.arrivals (hp p ho)⟩
  · obtain ⟨hc,hp⟩ := h
    obtain ⟨hc',hphase⟩ := hl.closed hc
    refine ⟨hc',fun p q k ho hq hk => ?_⟩
    obtain ⟨q',hq',hk'⟩ := hl.pending hc p q k hq hk
    rw [hphase]
    exact hp p q' k ho hq' hk'
  · trivial

/-- A wait looks out for a phase that was there already, and it has a token once a poll
has returned pending. -/
def Watching (phase : ℕ) (c : WaitCall W) : Prop :=
  match c.stage with
  | .unpolled => c.lastWaker = none
  | .waiting observed token => observed ≤ phase ∧ (c.lastWaker.isSome = true → token.isSome = true)
  | _ => True

theorem Watching.unpolled (h : Watching phase c) (hs : c.stage = .unpolled) : c.lastWaker = none := by
  simpa only [Watching,hs] using h

theorem Watching.waiting (h : Watching phase c) (hs : c.stage = .waiting observed token) :
    observed ≤ phase ∧ (c.lastWaker.isSome = true → token.isSome = true) := by
  simpa only [Watching,hs] using h

theorem Watching.mono (h : Watching phase c) {later : ℕ} (hle : phase ≤ later) : Watching later c := by
  simp only [Watching] at h ⊢
  split at h
  · exact h
  · exact ⟨h.1.trans hle,h.2⟩
  · trivial

/-- The tokens that count, and what the waits look out for or have returned. -/
structure Seats [Wake W] (s : State W) : Prop where
  enrolled : Enrolled s.waiters s.slot s.latest
  watching : ∀ (w : ℕ) c, s.waits[w]? = some c → Watching s.phase c
  justified : ∀ (w : ℕ) c, s.waits[w]? = some c → Justified s c

/-- Everybody who was registered has arrived once or withdrawn. -/
structure Rendezvous (phase : ℕ) (t : State W) : Prop where
  participants : ∀ (p : ℕ) q, t.participants[p]? = some q → q.registered = true →
    t.arrivals.count (p,phase) = 1
  iterators : ∀ (i : ℕ) b, t.iterators[i]? = some b → b.remaining = 0

structure PhaseLaw (s t : State W) : Prop where
  phase : t.phase = s.phase ∨ t.phase = s.phase+1 ∧ s.closed = false ∧ Rendezvous s.phase t
  closed : s.closed = true → t.closed = true ∧ t.phase = s.phase

/-- An advance and a close take all wakers, nothing else takes one. -/
structure WakeLaw (s t : State W) : Prop where
  taken : t.phase ≠ s.phase ∨ t.closed ≠ s.closed →
    t.woken = s.woken++s.waiters.wakeAll ∧ ∀ id, t.waiters.wakers.get? id = none
  kept : t.phase = s.phase → t.closed = s.closed → t.woken = s.woken

/-- One step, as far as it concerns phases and wakers. -/
structure Stepped [Wake W] (s t : State W) : Prop where
  ok : Ok t
  seats : Seats t
  phases : PhaseLaw s t
  wakes : WakeLaw s t

section Advance

variable [Wake W] {s u : State W}

theorem Seats.later (h : Seats s) (hsteady : Steady s u) (hl : Later s u) : Seats u := by
  refine ⟨?_,?_,?_⟩
  · rw [hsteady.waiters]
    refine h.enrolled.congr ?_ ?_
    · rw [State.slot,State.slot,hsteady.phase,hsteady.closed,hsteady.waits]
    · intro p id _
      rw [State.latest,State.latest,hsteady.waits]
  · rw [hsteady.waits,hsteady.phase]
    exact h.watching
  · intro w c hc
    rw [hsteady.waits] at hc
    exact (h.justified w c hc).mono hl

theorem Seats.fired (h : Seats u) {t : State W} (hphase : t.phase = u.phase+1)
    (hwaits : t.waits = u.waits) (hwaiters : t.waiters = u.waiters.takeAll.2) (hl : Later u t) :
    Seats t := by
  refine ⟨?_,?_,?_⟩
  · rw [hwaiters]
    have hslot : t.slot = fun _ => none := by
      funext w
      simp only [State.slot,hwaits,hphase,Table.lookup]
      cases hc : u.waits[w]? with
      | none => rfl
      | some c =>
        rw [Option.bind_some,WaitCall.seat]
        split
        · rename_i observed token hs
          have hle := ((h.watching w c hc).waiting hs).1
          rw [if_neg (by omega)]
        · rfl
    rw [hslot]
    exact .takeAll _ _
  · intro w c hc
    rw [hwaits] at hc
    exact (h.watching w c hc).mono (by omega)
  · intro w c hc
    rw [hwaits] at hc
    exact (h.justified w c hc).mono hl

theorem Stepped.advance (hs : Seats s) (hcore : Core u) (hsteady : Steady s u) (hl : Later s u)
    (hw : u.advanceIfReady.advances < phaseCount) : Stepped s u.advanceIfReady := by
  have hok := hcore.advance hw
  have hseats := hs.later hsteady hl
  by_cases hready : u.closed ∨ u.unarrived ≠ 0
  · have heq : u.advanceIfReady = u := by rw [State.advanceIfReady,if_pos hready]
    rw [heq] at hok ⊢
    refine ⟨hok,hseats,⟨.inl hsteady.phase,fun hc => ⟨hsteady.closed.trans hc,hsteady.phase⟩⟩,?_,?_⟩
    · rintro (hne | hne)
      · exact absurd hsteady.phase hne
      · exact absurd hsteady.closed hne
    · intro _ _
      exact hsteady.woken
  · have hclosed : u.closed = false := by
      by_contra hc
      exact hready (.inl (Bool.not_eq_false _ ▸ hc))
    have hz : u.unarrived = 0 := by
      by_contra hz
      exact hready (.inr hz)
    have hadv : u.advances+1 < phaseCount := by
      rwa [State.advanceIfReady,if_neg hready] at hw
    have hphase : (u.phase+1)%phaseCount = u.phase+1 := by
      rw [hcore.phase]
      exact Nat.mod_eq_of_lt hadv
    have heq : u.advanceIfReady =
        {u with phase := u.phase+1,unarrived := u.registered,waiters := u.waiters.takeAll.2,
                advances := u.advances+1,woken := u.woken++u.waiters.takeAll.1} := by
      rw [State.advanceIfReady,if_neg hready,hphase]
    have hlater : Later u u.advanceIfReady := by
      rw [heq]
      refine ⟨Nat.le_succ _,fun hc => ?_,fun _ h => h,fun _ p q k hq hk => ⟨q,hq,hk⟩⟩
      rw [hclosed] at hc
      cases hc
    obtain ⟨hparts,hiters⟩ := hcore.all_arrived hz
    have hsclosed : s.closed = false := hsteady.closed ▸ hclosed
    have hnext : u.advanceIfReady.phase = s.phase+1 := by
      rw [heq,← hsteady.phase]
    refine ⟨hok,hseats.fired (by rw [heq]) (by rw [heq]) (by rw [heq]) hlater,⟨.inr ⟨hnext,hsclosed,?_⟩,?_⟩,
      ?_,?_⟩
    · rw [heq,← hsteady.phase]
      exact ⟨hparts,hiters⟩
    · intro hc
      rw [hsclosed] at hc
      cases hc
    · intro _
      rw [heq]
      refine ⟨?_,u.waiters.get?_takeAll⟩
      rw [WakerSet.takeAll_eq,hsteady.woken,hsteady.waiters]
    · intro hsame
      omega

theorem Stepped.quiet (hs : Seats s) (hok : Ok u) (hsteady : Steady s u) (hl : Later s u) :
    Stepped s u := by
  refine ⟨hok,hs.later hsteady hl,⟨.inl hsteady.phase,fun hc => ⟨hsteady.closed.trans hc,hsteady.phase⟩⟩,
    ?_,fun _ _ => hsteady.woken⟩
  rintro (hne | hne)
  · exact absurd hsteady.phase hne
  · exact absurd hsteady.closed hne

end Advance

/-! ### Participants -/

theorem Later.refl (s : State W) : Later s s :=
  ⟨Nat.le_refl _,fun hc => ⟨hc,rfl⟩,fun _ h => h,fun _ _ q _ hq hk => ⟨q,hq,hk⟩⟩

theorem Steady.refl (s : State W) : Steady s s := ⟨rfl,rfl,rfl,rfl,rfl,rfl⟩

theorem State.idle_eq_some :
    s.idle p = some q ↔ s.participants[p]? = some q ∧ q.registered = true ∧ s.isFree p = true := by
  simp [State.idle,Option.filter_eq_some_iff]

section Participants

variable [Wake W] {s : State W} {i : ℕ} {b : PhaserParticipants}

section

variable (hok : Ok s) (hs : Seats s)
include hok hs

theorem Stepped.refl : Stepped s s := .quiet hs hok (.refl s) (.refl s)

theorem Stepped.registerOne : Stepped s s.registerOne.2 := by
  have hok' := hok.registerOne
  rcases hok.doRegister_cases 1 with ⟨e,heq,-⟩ | ⟨-,heq⟩
  · simp only [State.registerOne,heq]
    exact .refl hok hs
  · simp only [State.registerOne,heq] at hok' ⊢
    refine .quiet hs hok' ⟨rfl,rfl,rfl,rfl,rfl,rfl⟩
      ⟨Nat.le_refl _,fun hc => ⟨hc,rfl⟩,fun _ h => h,?_⟩
    intro _ p q k hq hk
    rcases Table.getElem?_push hq with hq | ⟨-,rfl⟩
    · exact ⟨q,hq,hk⟩
    · cases hk

theorem Stepped.register (parties : ℕ) : Stepped s (s.register parties).2 := by
  have hok' := hok.register parties
  rcases hok.doRegister_cases parties with ⟨e,heq,-⟩ | ⟨-,heq⟩
  · simp only [State.register,heq]
    exact .refl hok hs
  · simp only [State.register,heq] at hok' ⊢
    exact .quiet hs hok' ⟨rfl,rfl,rfl,rfl,rfl,rfl⟩
      ⟨Nat.le_refl _,fun hc => ⟨hc,rfl⟩,fun _ h => h,fun _ _ q _ hq hk => ⟨q,hq,hk⟩⟩

theorem Stepped.yield (hb : s.iterators[i]? = some b) : Stepped s (s.yield i b) := by
  have hok' := hok.yield hb
  rw [State.yield] at hok' ⊢
  split at hok' <;> rename_i hz
  · rw [if_pos hz]
    exact .refl hok hs
  · rw [if_neg hz]
    refine .quiet hs hok' ⟨rfl,rfl,rfl,rfl,rfl,rfl⟩
      ⟨Nat.le_refl _,fun hc => ⟨hc,rfl⟩,fun _ h => h,?_⟩
    intro _ p q k hq hk
    rcases Table.getElem?_push hq with hq | ⟨-,rfl⟩
    · exact ⟨q,hq,hk⟩
    · cases hk

theorem Stepped.dropParticipants (hb : s.iterators[i]? = some b) :
    ∃ t, s.dropParticipants i b = .ok t ∧ (t.advances < phaseCount → Stepped s t) := by
  by_cases hz : b.remaining = 0
  · exact ⟨s,by rw [State.dropParticipants,if_pos hz],fun _ => .refl hok hs⟩
  · obtain ⟨u,heq,hcore,hsteady,hparts,harr⟩ := hok.dropParticipants hb hz
    refine ⟨_,heq,Stepped.advance hs hcore hsteady ⟨?_,?_,?_,?_⟩⟩
    · exact Nat.le_of_eq hsteady.phase.symm
    · exact fun hc => ⟨hsteady.closed.trans hc,hsteady.phase⟩
    · rw [harr]
      exact fun _ h => h
    · intro _ p q k hq hk
      exact ⟨q,hparts ▸ hq,hk⟩

theorem Stepped.arrive (hq : s.participants[p]? = some q) (hreg : q.registered = true)
    (hfree : ∀ (w : ℕ) c, s.waits[w]? = some c → c.owner = some p → c.isLive = true →
      c.stage = .unpolled) (hc : s.closed = false) :
    ∃ u : State W, s.arrive p q = .ok (.ok s.phase,u.advanceIfReady) ∧ u.waits = s.waits ∧
      u.participants = s.participants.set p {q with pending := some s.phase} ∧
      (q.pending = some s.phase → u.unarrived = s.unarrived ∧ u.arrivals = s.arrivals) ∧
      (u.advanceIfReady.advances < phaseCount → Stepped s u.advanceIfReady) := by
  obtain ⟨u,heq,hcore,hsteady,hparts,harr,hrepeat⟩ := hok.arrive hq hreg hc hfree
  refine ⟨u,heq,hsteady.waits,hparts,hrepeat,Stepped.advance hs hcore hsteady ⟨?_,?_,harr,?_⟩⟩
  · exact Nat.le_of_eq hsteady.phase.symm
  · intro ho
    rw [hc] at ho
    cases ho
  · intro ho
    rw [hc] at ho
    cases ho

theorem Stepped.doDeregister (hq : s.participants[p]? = some q) (hreg : q.registered = true)
    (hfree : s.isFree p = true) :
    ∃ r t, s.doDeregister p q = .ok (r,t) ∧ (t.advances < phaseCount → Stepped s t) := by
  obtain ⟨r,u,heq,hcore,hsteady,hparts,harr⟩ := hok.doDeregister hq hreg hfree
  refine ⟨r,_,heq,Stepped.advance hs hcore hsteady ⟨?_,?_,?_,?_⟩⟩
  · exact Nat.le_of_eq hsteady.phase.symm
  · exact fun hc => ⟨hsteady.closed.trans hc,hsteady.phase⟩
  · rw [harr]
    exact fun _ h => h
  · intro _ p' q' k hq' hk
    rw [hparts] at hq'
    rcases Table.getElem?_set_cases hq' with ⟨rfl,rfl⟩ | ⟨-,hq'⟩
    · exact ⟨q,hq,hk⟩
    · exact ⟨q',hq',hk⟩

theorem Stepped.close : Stepped s s.close := by
  by_cases hc : s.closed = true
  · rw [State.close,if_pos hc]
    exact .refl hok hs
  · rw [State.close,if_neg hc]
    have hlater : Later s {s with closed := true,waiters := .new,
                                  woken := s.woken++s.waiters.wakeAll} :=
      ⟨Nat.le_refl _,fun ho => absurd ho hc,fun _ h => h,fun ho => absurd ho hc⟩
    refine ⟨⟨⟨hok.registered,hok.unarrived,hok.bound,hok.phase,hok.history,hok.borrowing,
      hok.panicked⟩,?_⟩,⟨?_,hs.watching,fun w c hw => (hs.justified w c hw).mono hlater⟩,
      ⟨.inl rfl,fun ho => absurd ho hc⟩,?_,?_⟩
    · intro ho
      cases ho
    · refine (Enrolled.of_empty (s := (WakerSet.new : WakerSet W)) Arena.get?_new s.latest).congr ?_ ?_
      · funext w
        simp only [State.slot,Table.lookup]
        cases s.waits[w]? with
        | none => rfl
        | some c => exact c.seat_closed s.phase
      · intro p id h
        cases h
    · intro _
      exact ⟨rfl,Arena.get?_new⟩
    · intro _ ho
      exact absurd ho.symm hc

end

end Participants

/-! ### Wait futures -/

theorem State.completion_eq_none :
    s.completion observed = none ↔ observed = s.phase ∧ s.closed = false := by
  simp only [State.completion]
  by_cases hphase : s.phase = observed
  · by_cases hc : s.closed = true
    · simp [hphase,hc]
    · simp [hphase,hc]
  · simp [hphase,Ne.symm hphase]

theorem State.completion_cases {result : Completion} (h : s.completion observed = some result) :
    s.phase ≠ observed ∧ result = .ok s.phase ∨
      s.phase = observed ∧ s.closed = true ∧ result = .closed := by
  simp only [State.completion] at h
  by_cases hphase : s.phase = observed
  · by_cases hc : s.closed = true
    · simp [hphase,hc] at h
      exact .inr ⟨hphase,hc,h.symm⟩
    · simp [hphase,hc] at h
  · simp [hphase] at h
    exact .inl ⟨hphase,h.symm⟩

theorem WaitCall.seat_of_completion (hstage : c.stage = .waiting observed token)
    (h : s.completion observed ≠ none) : c.seat s.phase s.closed = none := by
  simp only [WaitCall.seat,hstage]
  exact if_neg fun hcur => h (State.completion_eq_none.mpr hcur)

theorem WaitCall.seat_of_current (hstage : c.stage = .waiting observed token)
    (h : s.completion observed = none) : c.seat s.phase s.closed = token := by
  simp only [WaitCall.seat,hstage]
  exact if_pos (State.completion_eq_none.mp h)

theorem State.consume_of_none (s : State W) (h : owner = none) (result : Completion) :
    s.consume owner result = s := by
  subst h
  rfl

theorem State.consume_closed (s : State W) (owner : Option ℕ) : s.consume owner .closed = s := by
  cases owner <;> rfl

theorem State.consume_of_some {next : ℕ} (h : owner = some p) (hq : s.participants[p]? = some q) :
    s.consume owner (.ok next) = s.setParticipant p {q with pending := none} := by
  subst h
  simp only [State.consume,hq]

theorem State.advanceIfReady_waits (s : State W) : s.advanceIfReady.waits = s.waits := by
  rw [State.advanceIfReady]
  split <;> rfl

theorem State.advanceIfReady_participants (s : State W) :
    s.advanceIfReady.participants = s.participants := by
  rw [State.advanceIfReady]
  split <;> rfl

section Waits

variable [Wake W] {s : State W} {w : ℕ} {t : State W}

section

variable (hok : Ok s) (hs : Seats s)
include hok hs

theorem Stepped.rewait {waits : List (WaitCall W)} {waiters : WakerSet W}
    (hb : Borrowing s.participants waits)
    (henr : Enrolled waiters (Table.lookup (WaitCall.seat s.phase s.closed) waits)
      (Table.lookup WaitCall.lastWaker waits)) (hnew : ∀ (w : ℕ) c, waits[w]? = some c →
      s.waits[w]? = some c ∨ Justified s c ∧ Watching s.phase c) :
    Stepped s {s with waits := waits,waiters := waiters} := by
  refine ⟨⟨⟨hok.registered,hok.unarrived,hok.bound,hok.phase,hok.history,hb,hok.panicked⟩,hok.awaited⟩,
    ⟨henr,?_,?_⟩,⟨.inl rfl,fun hc => ⟨hc,rfl⟩⟩,?_,fun _ _ => rfl⟩
  · intro w c hc
    rcases hnew w c hc with hold | ⟨-,hw⟩
    · exact hs.watching w c hold
    · exact hw
  · intro w c hc
    rcases hnew w c hc with hold | ⟨hj,-⟩
    · exact hs.justified w c hold
    · exact hj
  · rintro (hne | hne)
    · exact absurd rfl hne
    · exact absurd rfl hne

theorem Stepped.setWait (hc : s.waits[w]? = some c) (d : WaitCall W)
    (hb : Borrowing s.participants (s.waits.set w d))
    (hseat : d.seat s.phase s.closed = c.seat s.phase s.closed) (hlast : d.lastWaker = c.lastWaker)
    (hw : Watching s.phase d) (hj : Justified s d) : Stepped s (s.setWait w d) := by
  refine .rewait hok hs hb ?_ ?_
  · rw [Table.lookup_set_same hc hseat,Table.lookup_set_same hc hlast]
    exact hs.enrolled
  · intro v e he
    rcases Table.getElem?_set_cases he with ⟨rfl,rfl⟩ | ⟨-,he⟩
    · exact .inr ⟨hj,hw⟩
    · exact .inl he

theorem Stepped.pushWait (d : WaitCall W) (hb : Borrowing s.participants (s.waits++[d]))
    (hseat : d.seat s.phase s.closed = none) (hlast : d.lastWaker = none) (hw : Watching s.phase d)
    (hj : Justified s d) : Stepped s {s with waits := s.waits++[d]} := by
  refine .rewait hok hs hb ?_ ?_
  · rw [Table.lookup_push _ hseat,Table.lookup_push _ hlast]
    exact hs.enrolled
  · intro v e he
    rcases Table.getElem?_push he with he | ⟨-,rfl⟩
    · exact .inl he
    · exact .inr ⟨hj,hw⟩

theorem Stepped.wait (hq : s.participants[p]? = some q) (hreg : q.registered = true)
    (hfree : s.isFree p = true) : Stepped s {s with waits := s.waits++[⟨some p,.unpolled,none⟩]} := by
  refine .pushWait hok hs _ (hok.borrowing.push_wait _ ?_) rfl rfl rfl trivial
  rintro p' ⟨⟩
  exact ⟨⟨q,hq,hreg⟩,rfl,State.isFree_iff.mp hfree⟩

theorem Stepped.observe (hle : observed ≤ s.advances) :
    Stepped s {s with waits := s.waits++[⟨none,.waiting observed none,none⟩]} := by
  refine .pushWait hok hs _ (hok.borrowing.push_wait _ (by rintro _ ⟨⟩)) ?_ rfl ⟨?_,by rintro ⟨⟩⟩ trivial
  · simp only [WaitCall.seat]
    split <;> rfl
  · rw [hok.phase]
    exact hle

theorem Stepped.finishWait (hc : s.waits[w]? = some c) (d : WaitCall W) (howner : d.owner = c.owner)
    (hlast : d.lastWaker = c.lastWaker) (hlive : d.isLive = false)
    (hseat : c.seat s.phase s.closed = none) (hj : Justified s d) : Stepped s (s.setWait w d) := by
  have hdead : ∀ observed token, d.stage ≠ .waiting observed token := by
    intro observed token hstage
    simp [WaitCall.isLive,hstage] at hlive
  refine .setWait hok hs hc d (hok.borrowing.set_wait hc d howner ?_ ?_) ?_ hlast ?_ hj
  · intro hl
    rw [hlive] at hl
    cases hl
  · exact fun p q observed token _ _ hstage => absurd hstage (hdead observed token)
  · rw [hseat,WaitCall.seat_of_not_live hlive]
  · cases hstage : d.stage with
    | unpolled => simp [WaitCall.isLive,hstage] at hlive
    | waiting observed token => exact absurd hstage (hdead observed token)
    | done => simp only [Watching,hstage]
    | cancelled => simp only [Watching,hstage]

end

theorem Stepped.consume (h : Stepped s t) (hq : t.participants[p]? = some q)
    (hne : q.pending ≠ some t.phase)
    (hfree : ∀ (w : ℕ) c, t.waits[w]? = some c → c.owner = some p → c.isLive = false)
    (hsame : t.phase = s.phase) : Stepped s (t.setParticipant p {q with pending := none}) := by
  have howes := Table.total_set (PhaserParticipant.owes t.phase) hq {q with pending := none}
  have hlive := Table.total_set PhaserParticipant.weight hq {q with pending := none}
  rw [PhaserParticipant.owes_eq hne,PhaserParticipant.owes_eq (q := {q with pending := none}) (by simp)]
    at howes
  have howes' : Table.total (PhaserParticipant.owes t.phase)
      (t.participants.set p {q with pending := none}) = t.owing := Nat.add_right_cancel howes
  have hlive' : Table.total PhaserParticipant.weight
      (t.participants.set p {q with pending := none}) = t.live := Nat.add_right_cancel hlive
  have hlater : Later t (t.setParticipant p {q with pending := none}) := by
    refine ⟨Nat.le_refl _,fun hc => ⟨hc,rfl⟩,fun _ h => h,?_⟩
    intro _ p' q' k hq' hk
    rcases Table.getElem?_set_cases hq' with ⟨rfl,rfl⟩ | ⟨-,hq'⟩
    · cases hk
    · exact ⟨q',hq',hk⟩
  refine ⟨⟨⟨?_,?_,h.ok.bound,h.ok.phase,h.ok.history.set hq _ (.inr ⟨rfl,hne⟩),?_,h.ok.panicked⟩,
    h.ok.awaited⟩,⟨h.seats.enrolled,h.seats.watching,fun w c hw => (h.seats.justified w c hw).mono hlater⟩,
    ⟨.inl hsame,h.phases.closed⟩,h.wakes.taken,h.wakes.kept⟩
  · show t.registered = Table.total PhaserParticipant.weight
      (t.participants.set p {q with pending := none})+t.unyielded
    rw [hlive',h.ok.registered]
  · show t.unarrived = t.unyielded+Table.total (PhaserParticipant.owes t.phase)
      (t.participants.set p {q with pending := none})
    rw [howes',h.ok.unarrived]
  · refine h.ok.borrowing.set_participant hq _ fun w c hw hp hl => ?_
    rw [hfree w c hw hp] at hl
    cases hl

section

variable (hok : Ok s) (hs : Seats s) (hc : s.waits[w]? = some c)
    (hstage : c.stage = .waiting observed token)
include hok hs hc hstage

theorem Stepped.completed {result : Completion} (hresult : s.completion observed = some result) :
    Stepped s ((s.setWait w {c with stage := .done (some observed) result}).consume c.owner
      result) := by
  have hlivec : c.isLive = true := by simp [WaitCall.isLive,hstage]
  have hle := ((hs.watching w c hc).waiting hstage).1
  have hseat := WaitCall.seat_of_completion (s := s) hstage (by simp [hresult])
  rcases State.completion_cases hresult with ⟨hne,rfl⟩ | ⟨heq,hclosed,rfl⟩
  · have hj : Justified s {c with stage := .done (some observed) (.ok s.phase)} := by
      refine ⟨Nat.le_refl _,observed,rfl,by omega,fun p hp => ?_⟩
      obtain ⟨q,hq,-,hpend⟩ := hok.borrowing.holder w c p hc hp hlivec
      exact (hok.history.pending p q observed hq (hpend observed token hstage)).2
    have hstep := Stepped.finishWait hok hs hc {c with stage := .done (some observed) (.ok s.phase)}
      rfl rfl rfl hseat hj
    rcases Option.eq_none_or_eq_some c.owner with howner | ⟨p,howner⟩
    · rw [State.consume_of_none _ howner]
      exact hstep
    · obtain ⟨q,hq,-,hpend⟩ := hok.borrowing.holder w c p hc howner hlivec
      have hpending := hpend observed token hstage
      have hq' : (s.setWait w {c with stage := .done (some observed) (.ok s.phase)}).participants[p]? =
          some q := hq
      rw [State.consume_of_some howner hq']
      refine hstep.consume hq' ?_ ?_ rfl
      · rw [hpending]
        exact fun h => hne (Option.some.inj h).symm
      · intro v d hd hp
        rcases Table.getElem?_set_cases hd with ⟨rfl,rfl⟩ | ⟨hv,hd⟩
        · rfl
        · by_contra hl
          exact hv (hok.borrowing.unique v w d c p hd hc hp howner (Bool.not_eq_false _ ▸ hl) hlivec)
  · have hj : Justified s {c with stage := .done (some observed) .closed} := by
      refine ⟨hclosed,fun p q k hp hq hk => ?_⟩
      obtain ⟨q',hq',-,hpend⟩ := hok.borrowing.holder w c p hc hp hlivec
      rw [hq] at hq'
      cases hq'
      rw [hpend observed token hstage] at hk
      rw [heq]
      exact (Option.some.inj hk).symm
    have hstep := Stepped.finishWait hok hs hc {c with stage := .done (some observed) .closed}
      rfl rfl rfl hseat hj
    rw [State.consume_closed]
    exact hstep

theorem Stepped.pollWait (waker : W) :
    ∃ t, s.pollWait w c observed token waker = .ok t ∧ Stepped s t := by
  cases hresult : s.completion observed with
  | some result =>
    exact ⟨_,by simp only [State.pollWait,hresult],.completed hok hs hc hstage hresult⟩
  | none =>
    have hcur := State.completion_eq_none.mp hresult
    have hslot : s.slot w = token := by
      rw [State.slot,Table.lookup_eq hc,WaitCall.seat_of_current hstage hresult]
    obtain ⟨id,waiters,hreg,henr⟩ := hs.enrolled.register w waker
    rw [hslot] at hreg
    have hdstage : (⟨c.owner,.waiting observed (some id),some waker⟩ : WaitCall W).seat s.phase
        s.closed = some id := WaitCall.seat_of_current rfl hresult
    refine ⟨{s.setWait w ⟨c.owner,.waiting observed (some id),some waker⟩ with waiters := waiters},
      by simp only [State.pollWait,hresult,hreg,bind,Except.bind],.rewait hok hs ?_ ?_ ?_⟩
    · refine hok.borrowing.set_wait hc _ rfl (fun _ => by simp [WaitCall.isLive,hstage]) ?_
      rintro p q _ _ hp hq ⟨⟩
      obtain ⟨q',hq',-,hpend⟩ := hok.borrowing.holder w c p hc hp (by simp [WaitCall.isLive,hstage])
      rw [hq] at hq'
      cases hq'
      exact hpend observed token hstage
    · show Enrolled waiters (Table.lookup _ (s.waits.set w _)) (Table.lookup _ (s.waits.set w _))
      rw [Table.lookup_set _ hc,hdstage,Table.lookup_set _ hc]
      exact henr
    · intro v d hd
      rcases Table.getElem?_set_cases hd with ⟨rfl,rfl⟩ | ⟨-,hd⟩
      · exact .inr ⟨trivial,Nat.le_of_eq hcur.1,fun _ => rfl⟩
      · exact .inl hd

theorem Stepped.dropWait :
    ∃ t, s.dropWait w c observed token = .ok t ∧ Stepped s t ∧
      t.waiters.wakers.get? = match s.slot w with
        | some id => Function.update s.waiters.wakers.get? id none
        | none => s.waiters.wakers.get? := by
  have hfinish := fun hseat => Stepped.finishWait hok hs hc {c with stage := .cancelled} rfl rfl rfl
    hseat trivial
  have hslot : s.slot w = c.seat s.phase s.closed := Table.lookup_eq hc
  by_cases hcomp : s.completion observed = none
  · have hseat := WaitCall.seat_of_current hstage hcomp
    cases token with
    | none =>
      refine ⟨s.setWait w {c with stage := .cancelled},rfl,hfinish hseat,?_⟩
      rw [hslot,hseat]
      rfl
    | some id =>
      rw [hseat] at hslot
      obtain ⟨waiters,hun,hget,henr⟩ := hs.enrolled.unregister hslot
      have hcomp' : (s.setWait w {c with stage := .cancelled}).completion observed = none := hcomp
      refine ⟨{s.setWait w {c with stage := .cancelled} with waiters := waiters},?_,.rewait hok hs ?_ ?_ ?_,?_⟩
      · have hun' : (s.setWait w {c with stage := .cancelled}).waiters.unregister (some id) =
            .ok waiters := hun
        simp only [State.dropWait,hcomp',bind,Except.bind,hun']
        rfl
      · exact hok.borrowing.set_wait hc _ rfl (by rintro ⟨⟩) (by rintro _ _ _ _ _ _ ⟨⟩)
      · show Enrolled waiters (Table.lookup _ (s.waits.set w _)) (Table.lookup _ (s.waits.set w _))
        rw [Table.lookup_set _ hc,Table.lookup_set_same (y := {c with stage := .cancelled}) hc rfl]
        exact henr
      · intro v d hd
        rcases Table.getElem?_set_cases hd with ⟨rfl,rfl⟩ | ⟨-,hd⟩
        · exact .inr ⟨trivial,trivial⟩
        · exact .inl hd
      · rw [hslot]
        exact hget
  · have hseat := WaitCall.seat_of_completion hstage hcomp
    have hcomp' : ((s.setWait w {c with stage := .cancelled}).completion observed).isSome = true :=
      Option.isSome_iff_ne_none.mpr hcomp
    refine ⟨s.setWait w {c with stage := .cancelled},?_,hfinish hseat,?_⟩
    · simp only [State.dropWait,hcomp',if_true]
      split <;> rfl
    · rw [hslot,hseat]
      rfl

end

/-- A wait whose owner has arrived begins to look out for the phase of that arrival. -/
theorem Stepped.lookOut (hok : Ok s) (hs : Seats s) (hc : s.waits[w]? = some c)
    (hstage : c.stage = .unpolled) (hle : observed ≤ s.phase)
    (hpend : ∀ (p : ℕ) q, c.owner = some p → s.participants[p]? = some q → q.pending = some observed) :
    Stepped s (s.setWait w {c with stage := .waiting observed none}) := by
  refine .setWait hok hs hc _ (hok.borrowing.set_wait hc _ rfl ?_ ?_) ?_ rfl ⟨hle,?_⟩ trivial
  · intro _
    simp [WaitCall.isLive,hstage]
  · rintro p q _ _ hp hq ⟨⟩
    exact hpend p q hp hq
  · simp [WaitCall.seat,hstage]
  · intro hsome
    rw [(hs.watching w c hc).unpolled hstage] at hsome
    cases hsome

theorem Stepped.then_setWait (h : Stepped s t) {d : WaitCall W} (hset : Stepped t (t.setWait w d)) :
    Stepped s (t.setWait w d) := by
  refine ⟨hset.ok,hset.seats,⟨?_,h.phases.closed⟩,h.wakes.taken,h.wakes.kept⟩
  rcases h.phases.phase with hsame | ⟨hnext,hclosed,hmet⟩
  · exact .inl hsame
  · exact .inr ⟨hnext,hclosed,hmet.participants,hmet.iterators⟩

theorem Stepped.startWait (hok : Ok s) (hs : Seats s) (hc : s.waits[w]? = some c)
    (hstage : c.stage = .unpolled) (howner : c.owner = some p) (hq : s.participants[p]? = some q) :
    ∃ t, s.startWait w c p q = .ok t ∧ (t.advances < phaseCount → Stepped s t) := by
  have hlivec : c.isLive = true := by simp [WaitCall.isLive,hstage]
  have hseat : c.seat s.phase s.closed = none := by simp [WaitCall.seat,hstage]
  cases hpend : q.pending with
  | some k =>
    refine ⟨s.setWait w {c with stage := .waiting k none},by simp only [State.startWait,hpend],
      fun _ => .lookOut hok hs hc hstage (hok.history.pending p q k hq hpend).1 ?_⟩
    intro p' q' hp' hq'
    rw [howner] at hp'
    cases hp'
    rw [hq] at hq'
    cases hq'
    exact hpend
  | none =>
    by_cases hclosed : s.closed = true
    · have harr : s.arrive p q = .ok (.closed,s) := by rw [State.arrive,if_pos hclosed]
      refine ⟨s.setWait w {c with stage := .done none .closed},
        by simp only [State.startWait,hpend,harr,bind,Except.bind],fun _ =>
          .finishWait hok hs hc _ rfl rfl rfl hseat ⟨hclosed,fun p' q' k hp' hq' hk => ?_⟩⟩
      have hpp : c.owner = some p' := hp'
      rw [howner] at hpp
      cases hpp
      rw [hq] at hq'
      cases hq'
      rw [hpend] at hk
      cases hk
    · obtain ⟨q',hq',hreg,-⟩ := hok.borrowing.holder w c p hc howner hlivec
      rw [hq] at hq'
      cases hq'
      have hfree : ∀ (v : ℕ) d, s.waits[v]? = some d → d.owner = some p → d.isLive = true →
          d.stage = .unpolled := by
        intro v d hd hp hl
        have hvw := hok.borrowing.unique v w d c p hd hc hp howner hl hlivec
        subst hvw
        rw [hc] at hd
        cases hd
        exact hstage
      obtain ⟨u,harr,hwaits,hparts,-,hstep⟩ :=
        Stepped.arrive hok hs hq hreg hfree (Bool.eq_false_iff.mpr hclosed)
      refine ⟨u.advanceIfReady.setWait w {c with stage := .waiting s.phase none},
        by simp only [State.startWait,hpend,harr,bind,Except.bind],fun hw => ?_⟩
      have hstepped := hstep hw
      refine hstepped.then_setWait (.lookOut hstepped.ok hstepped.seats ?_ hstage ?_ ?_)
      · rw [State.advanceIfReady_waits,hwaits,hc]
      · rcases hstepped.phases.phase with hsame | ⟨hnext,-⟩
        · exact Nat.le_of_eq hsame.symm
        · omega
      · intro p' q' hp' hq'
        rw [howner] at hp'
        cases hp'
        rw [State.advanceIfReady_participants,hparts,Table.getElem?_set_self' hq] at hq'
        cases hq'
        rfl

end Waits

end Phaser
end Asyncband
