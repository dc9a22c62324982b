import Asyncband.PhaserWaits

/-! Runs of the phaser.
Every enabled action returns, and it satisfies the laws of `Stepped` as long as the phase
number has not wrapped. That condition is about the end of a run because the number of
advances never decreases. -/
namespace Asyncband
namespace Phaser

variable {W : Type}

def State.arrivalsOf (s : State W) (p : ℕ) : List (ℕ × ℕ) := s.arrivals.filter fun x => x.1 == p

/-- What a step leaves alone that moves at most the participant `who`. -/
structure Frame (who : Option ℕ) (s t : State W) : Prop where
  advances : s.advances ≤ t.advances
  pending : ∀ (p : ℕ) q, who ≠ some p → s.participants[p]? = some q →
    ∃ q', t.participants[p]? = some q' ∧ q'.pending = q.pending
  arrivals : ∀ p, who ≠ some p → t.arrivalsOf p = s.arrivalsOf p

namespace Frame

variable {who : Option ℕ} {s t u : State W}
variable {p w observed : ℕ} {q : PhaserParticipant} {r : Completion × State W} {c : WaitCall W}
    {token : Option SlotId}

theorem of_eq (hparts : t.participants = s.participants) (harr : t.arrivals = s.arrivals)
    (hadv : s.advances ≤ t.advances) : Frame who s t := by
  refine ⟨hadv,fun p q _ hq => ⟨q,hparts ▸ hq,rfl⟩,fun p _ => ?_⟩
  rw [State.arrivalsOf,State.arrivalsOf,harr]

theorem refl (who : Option ℕ) (s : State W) : Frame who s s := .of_eq rfl rfl (Nat.le_refl _)

theorem trans (h : Frame who s u) (h' : Frame who u t) : Frame who s t := by
  refine ⟨h.advances.trans h'.advances,fun p q hp hq => ?_,fun p hp => ?_⟩
  · obtain ⟨q',hq',hpend⟩ := h.pending p q hp hq
    obtain ⟨q'',hq'',hpend'⟩ := h'.pending p q' hp hq'
    exact ⟨q'',hq'',hpend'.trans hpend⟩
  · exact (h'.arrivals p hp).trans (h.arrivals p hp)

theorem advanceIfReady (h : Frame who s u) : Frame who s u.advanceIfReady := by
  refine h.trans ?_
  rw [State.advanceIfReady]
  split
  · exact .refl who u
  · exact .of_eq rfl rfl (Nat.le_succ _)

theorem push (h : Frame who s u) (q : PhaserParticipant) :
    Frame who s {u with participants := u.participants++[q]} :=
  h.trans ⟨Nat.le_refl _,fun _ r _ hr => ⟨r,Table.getElem?_push_old hr q,rfl⟩,fun _ _ => rfl⟩

theorem set (hq : s.participants[p]? = some q) (r : PhaserParticipant)
    (hr : who = some p ∨ r.pending = q.pending) : Frame who s (s.setParticipant p r) := by
  refine ⟨Nat.le_refl _,fun p' q' hp hq' => ?_,fun _ _ => rfl⟩
  by_cases hpp : p' = p
  · subst hpp
    rw [hq] at hq'
    cases hq'
    rcases hr with hr | hr
    · exact absurd hr hp
    · exact ⟨r,Table.getElem?_set_self' hq r,hr⟩
  · exact ⟨q',(List.getElem?_set_ne (Ne.symm hpp)).trans hq',rfl⟩

theorem doRegister (s : State W) (parties : ℕ) : Frame none s (s.doRegister parties).2 := by
  simp only [State.doRegister]
  split
  · exact .refl _ s
  · split
    · exact .refl _ s
    · split <;> exact .of_eq rfl rfl (Nat.le_refl _)

theorem registerOne (s : State W) : Frame none s s.registerOne.2 := by
  have h := doRegister s 1
  rw [State.registerOne]
  split <;> rename_i heq
  · rw [heq] at h
    exact h.push _
  · rw [heq] at h
    exact h

theorem register (s : State W) (parties : ℕ) : Frame none s (s.register parties).2 := by
  have h := doRegister s parties
  rw [State.register]
  split <;> rename_i heq
  · rw [heq] at h
    exact h.trans (.of_eq rfl rfl (Nat.le_refl _))
  · rw [heq] at h
    exact h

theorem yield (s : State W) (i : ℕ) (b : PhaserParticipants) : Frame none s (s.yield i b) := by
  rw [State.yield]
  split
  · exact .refl _ s
  · exact (refl none s).push _ |>.trans (.of_eq rfl rfl (Nat.le_refl _))

theorem dropParticipants {i : ℕ} {b : PhaserParticipants} (h : s.dropParticipants i b = .ok t) :
    Frame none s t := by
  rw [State.dropParticipants] at h
  split at h
  · cases h
    exact .refl _ s
  · obtain ⟨registered,-,h⟩ := bind_eq_ok h
    obtain ⟨unarrived,-,h⟩ := bind_eq_ok h
    cases h
    exact advanceIfReady (.of_eq rfl rfl (Nat.le_refl _))

theorem arrive (hq : s.participants[p]? = some q) (h : s.arrive p q = .ok r) :
    Frame (some p) s r.2 := by
  rw [State.arrive] at h
  split at h
  · cases h
    exact .refl _ s
  · obtain ⟨unarrived,-,h⟩ := bind_eq_ok h
    cases h
    refine advanceIfReady ((set hq {q with pending := some s.phase} (.inl rfl)).trans
      ⟨Nat.le_refl _,fun _ r _ hr => ⟨r,hr,rfl⟩,?_⟩)
    intro p' hp'
    have hne : p ≠ p' := fun he => hp' (congrArg some he)
    simp only [State.arrivalsOf,State.setParticipant]
    split
    · simp [hne]
    · rfl

theorem doDeregister (hq : s.participants[p]? = some q) (h : s.doDeregister p q = .ok r) :
    Frame none s r.2 := by
  obtain ⟨registered,-,h⟩ := bind_eq_ok h
  obtain ⟨unarrived,-,h⟩ := bind_eq_ok h
  cases h
  exact advanceIfReady ((set hq {q with registered := false} (.inr rfl)).trans
    (.of_eq rfl rfl (Nat.le_refl _)))

theorem startWait (hq : s.participants[p]? = some q) (h : s.startWait w c p q = .ok t) :
    Frame (some p) s t := by
  rw [State.startWait] at h
  split at h
  · cases h
    exact .of_eq rfl rfl (Nat.le_refl _)
  · obtain ⟨⟨result,u⟩,hr,h⟩ := bind_eq_ok h
    have hframe := arrive hq hr
    cases result <;> cases h <;> exact hframe.trans (.of_eq rfl rfl (Nat.le_refl _))

theorem consume (s : State W) (owner : Option ℕ) (result : Completion) :
    Frame owner s (s.consume owner result) := by
  cases owner with
  | none => exact .refl _ s
  | some p =>
    cases result with
    | closed => exact .refl _ s
    | ok next =>
      cases hq : s.participants[p]? with
      | none =>
        simp only [State.consume,hq]
        exact .refl _ s
      | some q =>
        simp only [State.consume,hq]
        exact set hq _ (.inl rfl)

theorem pollWait [Wake W] {waker : W} (h : s.pollWait w c observed token waker = .ok t) :
    Frame c.owner s t := by
  rw [State.pollWait] at h
  split at h
  · cases h
    exact (of_eq (s := s) (t := s.setWait w _) rfl rfl (Nat.le_refl _)).trans (consume _ _ _)
  · obtain ⟨x,-,h⟩ := bind_eq_ok h
    cases h
    exact .of_eq rfl rfl (Nat.le_refl _)

theorem dropWait (h : s.dropWait w c observed token = .ok t) : Frame none s t := by
  rw [State.dropWait] at h
  split at h
  · cases h
    exact .of_eq rfl rfl (Nat.le_refl _)
  · split at h
    · cases h
      exact .of_eq rfl rfl (Nat.le_refl _)
    · obtain ⟨x,-,h⟩ := bind_eq_ok h
      cases h
      exact .of_eq rfl rfl (Nat.le_refl _)

theorem close (s : State W) : Frame none s s.close := by
  rw [State.close]
  split
  · exact .refl _ s
  · exact .of_eq rfl rfl (Nat.le_refl _)

end Frame

/-- The participant whose pending observation or arrivals an action may change. -/
def State.mover (s : State W) : Action W → Option ℕ
  | .arrive p => some p
  | .poll w _ => s.waits[w]?.bind WaitCall.owner
  | _ => none

theorem map_snd_eq_ok {α β : Type} {x : Except String (α × β)} {b : β}
    (h : x.map Prod.snd = .ok b) : ∃ a, x = .ok (a,b) := by
  cases x with
  | error message => cases h
  | ok y =>
    cases h
    exact ⟨y.1,rfl⟩

section Act

variable [Wake W] {s t : State W} {a : Action W}

theorem Frame.act (h : s.act a = some (.ok t)) : Frame (s.mover a) s t := by
  cases a with
  | registerOne =>
    cases h
    exact .registerOne s
  | register parties =>
    cases h
    exact .register s parties
  | yield i =>
    obtain ⟨b,-,h⟩ := Option.map_eq_some_iff.mp h
    cases h
    exact .yield s i b
  | dropParticipants i =>
    obtain ⟨b,-,h⟩ := Option.map_eq_some_iff.mp h
    exact .dropParticipants h
  | arrive p =>
    obtain ⟨q,hq,h⟩ := Option.map_eq_some_iff.mp h
    obtain ⟨r,hr⟩ := map_snd_eq_ok h
    exact .arrive (State.idle_eq_some.mp hq).1 hr
  | deregister | drop =>
    obtain ⟨q,hq,h⟩ := Option.map_eq_some_iff.mp h
    obtain ⟨r,hr⟩ := map_snd_eq_ok h
    exact .doDeregister (State.idle_eq_some.mp hq).1 hr
  | wait p =>
    obtain ⟨q,-,h⟩ := Option.map_eq_some_iff.mp h
    cases h
    exact .of_eq rfl rfl (Nat.le_refl _)
  | observe observed =>
    simp only [State.act] at h
    split at h <;> cases h
    exact .of_eq rfl rfl (Nat.le_refl _)
  | poll w waker =>
    obtain ⟨c,hc,h⟩ := Option.bind_eq_some_iff.mp h
    have hmover : s.mover (.poll w waker) = c.owner := by rw [State.mover,hc,Option.bind_some]
    rw [hmover]
    split at h
    · obtain ⟨p,hp,h⟩ := Option.bind_eq_some_iff.mp h
      obtain ⟨q,hq,h⟩ := Option.map_eq_some_iff.mp h
      rw [hp]
      exact .startWait hq h
    · exact .pollWait (Option.some.inj h)
    · cases h
  | cancel w =>
    obtain ⟨c,-,h⟩ := Option.bind_eq_some_iff.mp h
    split at h
    · cases h
      exact .of_eq rfl rfl (Nat.le_refl _)
    · exact .dropWait (Option.some.inj h)
    · cases h
  | close =>
    cases h
    exact .close s

theorem Stepped.act (hok : Ok s) (hs : Seats s) {x : Except String (State W)} (h : s.act a = some x) :
    ∃ t, x = .ok t ∧ (t.advances < phaseCount → Stepped s t) := by
  cases a with
  | registerOne =>
    cases h
    exact ⟨_,rfl,fun _ => .registerOne hok hs⟩
  | register parties =>
    cases h
    exact ⟨_,rfl,fun _ => .register hok hs parties⟩
  | yield i =>
    obtain ⟨b,hb,rfl⟩ := Option.map_eq_some_iff.mp h
    exact ⟨_,rfl,fun _ => .yield hok hs hb⟩
  | dropParticipants i =>
    obtain ⟨b,hb,rfl⟩ := Option.map_eq_some_iff.mp h
    exact Stepped.dropParticipants hok hs hb
  | arrive p =>
    obtain ⟨q,hidle,rfl⟩ := Option.map_eq_some_iff.mp h
    obtain ⟨hq,hreg,hfree⟩ := State.idle_eq_some.mp hidle
    by_cases hclosed : s.closed = true
    · have harr : s.arrive p q = .ok (.closed,s) := by rw [State.arrive,if_pos hclosed]
      exact ⟨s,by rw [harr]; rfl,fun _ => .refl hok hs⟩
    · have hunborrowed : ∀ (w : ℕ) c, s.waits[w]? = some c → c.owner = some p → c.isLive = true →
          c.stage = .unpolled := by
        intro w c hc hp hl
        rw [State.isFree_iff.mp hfree w c hc hp] at hl
        cases hl
      obtain ⟨u,harr,-,-,-,hstep⟩ :=
        Stepped.arrive hok hs hq hreg hunborrowed (Bool.eq_false_iff.mpr hclosed)
      exact ⟨u.advanceIfReady,by rw [harr]; rfl,hstep⟩
  | deregister | drop =>
    obtain ⟨q,hidle,rfl⟩ := Option.map_eq_some_iff.mp h
    obtain ⟨hq,hreg,hfree⟩ := State.idle_eq_some.mp hidle
    obtain ⟨r,t,heq,hstep⟩ := Stepped.doDeregister hok hs hq hreg hfree
    exact ⟨t,by rw [heq]; rfl,hstep⟩
  | wait p =>
    obtain ⟨q,hidle,rfl⟩ := Option.map_eq_some_iff.mp h
    obtain ⟨hq,hreg,hfree⟩ := State.idle_eq_some.mp hidle
    exact ⟨_,rfl,fun _ => .wait hok hs hq hreg hfree⟩
  | observe observed =>
    simp only [State.act] at h
    split at h <;> cases h
    rename_i hle
    exact ⟨_,rfl,fun _ => .observe hok hs hle.1⟩
  | poll w waker =>
    obtain ⟨c,hc,h⟩ := Option.bind_eq_some_iff.mp h
    split at h <;> rename_i hstage
    · obtain ⟨p,hp,h⟩ := Option.bind_eq_some_iff.mp h
      obtain ⟨q,hq,rfl⟩ := Option.map_eq_some_iff.mp h
      exact Stepped.startWait hok hs hc hstage hp hq
    · cases h
      obtain ⟨t,heq,hstep⟩ := Stepped.pollWait hok hs hc hstage waker
      exact ⟨t,heq,fun _ => hstep⟩
    · cases h
  | cancel w =>
    obtain ⟨c,hc,h⟩ := Option.bind_eq_some_iff.mp h
    split at h <;> rename_i hstage
    · cases h
      exact ⟨_,rfl,fun _ => .finishWait hok hs hc {c with stage := .cancelled} rfl rfl rfl
        (by simp [WaitCall.seat,hstage]) trivial⟩
    · cases h
      obtain ⟨t,heq,hstep,-⟩ := Stepped.dropWait hok hs hc hstage
      exact ⟨t,heq,fun _ => hstep⟩
    · cases h
  | close =>
    cases h
    exact ⟨_,rfl,fun _ => .close hok hs⟩

theorem advances_le (h : s.next a = some t) : s.advances ≤ t.advances := by
  obtain ⟨-,x,hx,rfl⟩ := Transition.step_eq_some h
  cases x with
  | error message => exact Nat.le_refl _
  | ok t => exact (Frame.act hx).advances

theorem act_of_next (hok : Ok s) (hs : Seats s) (h : s.next a = some t) :
    s.act a = some (.ok t) ∧ (t.advances < phaseCount → Stepped s t) :=
  Transition.step_ok (fun _ => Stepped.act hok hs) h

theorem new_ok : Ok (new W) ∧ Seats (new W) := by
  refine ⟨⟨⟨rfl,rfl,Nat.zero_le _,rfl,.nil,.nil,rfl⟩,?_⟩,?_,?_,?_⟩
  · intro _ h
    cases h
  · exact Enrolled.of_empty Arena.get?_new _
  · intro w c hc
    cases hc
  · intro w c hc
    cases hc

theorem reachable_ok (h : (machine W).Reachable s) (hw : s.advances < phaseCount) :
    Ok s ∧ Seats s := by
  refine (machine W).invariant (fun s => s.advances < phaseCount → Ok s ∧ Seats s) ?_ ?_ h hw
  · rintro s rfl _
    exact new_ok
  · intro s a t ih hn hw
    obtain ⟨hok,hs⟩ := ih ((advances_le hn).trans_lt hw)
    have hstep := (act_of_next hok hs hn).2 hw
    exact ⟨hstep.ok,hstep.seats⟩

theorem exec_closed (hok : Ok s) (hs : Seats s) (hc : s.closed = true) {labels : List (Action W)}
    (h : (machine W).exec s labels = some t) (hw : t.advances < phaseCount) :
    t.closed = true ∧ t.phase = s.phase := by
  have hinv : t.advances < phaseCount →
      Ok t ∧ Seats t ∧ t.closed = true ∧ t.phase = s.phase := by
    refine (machine W).exec_invariant (fun _ => True)
      (fun u => u.advances < phaseCount → Ok u ∧ Seats u ∧ u.closed = true ∧ u.phase = s.phase) ?_
      (fun _ _ => trivial) (fun _ => ⟨hok,hs,hc,rfl⟩) h
    intro u a v _ ih hn hv
    obtain ⟨huok,hus,huc,hup⟩ := ih ((advances_le hn).trans_lt hv)
    have hstep := (act_of_next huok hus hn).2 hv
    obtain ⟨hvc,hvp⟩ := hstep.phases.closed huc
    exact ⟨hstep.ok,hstep.seats,hvc,hvp.trans hup⟩
  exact (hinv hw).2.2

end Act

theorem Ok.arrive_again {s : State W} (hok : Ok s) {p : ℕ} {q : PhaserParticipant}
    (hq : s.participants[p]? = some q) (hreg : q.registered = true) (hpend : q.pending = some s.phase) :
    ∃ r, s.arrive p q = .ok (r,s) := by
  by_cases hclosed : s.closed = true
  · exact ⟨.closed,by rw [State.arrive,if_pos hclosed]⟩
  · have hout : s.outstanding q = false := by simp [State.outstanding,hpend]
    have hsame : {q with pending := some s.phase} = q := by rw [← hpend]
    have hset : s.participants.set p q = s.participants := by
      obtain ⟨hlt,he⟩ := List.getElem?_eq_some_iff.mp hq
      rw [← he]
      exact List.set_getElem_self hlt
    -- Somebody else is still to arrive, so the phase does not advance a second time.
    have hweight : q.weight ≤ s.live := Table.le_total PhaserParticipant.weight hq
    have hone : q.weight = 1 := by rw [PhaserParticipant.weight,if_pos hreg]
    have hpos := hok.awaited (Bool.eq_false_iff.mpr hclosed) (by rw [hok.registered]; omega)
    have hstay : s.advanceIfReady = s := by
      rw [State.advanceIfReady,if_pos (.inr (Nat.ne_of_gt hpos))]
    refine ⟨.ok s.phase,?_⟩
    rw [State.arrive,if_neg hclosed]
    simp only [State.discharge,hout,hsame,hset,bind,Except.bind,Bool.false_eq_true,if_false]
    rw [hstay]

/-- The accounts of a phaser, and how they go with its phases. -/
structure Accounts [Wake W] (s : State W) : Prop where
  registered : s.registered = s.live+s.unyielded
  unarrived : s.unarrived = s.unyielded+s.owing
  unarrived_le : s.unarrived ≤ s.registered
  awaited : s.closed = false → 0 < s.registered → 0 < s.unarrived
  /-- Nothing underflows: every enabled action returns. -/
  returns : s.panicked = none ∧ ∀ a x, s.act a = some x → ∃ t, x = .ok t
  phases : ∀ a t, s.next a = some t → t.advances < phaseCount → PhaseLaw s t
  closes : ∃ t, s.next .close = some t ∧ t.closed = true ∧ t.phase = s.phase ∧
    (s.closed = false → t.woken = s.woken++s.waiters.wakeAll)
  frozen : s.closed = true → ∀ labels t, (machine W).exec s labels = some t →
    t.advances < phaseCount → t.closed = true ∧ t.phase = s.phase
  repeated : ∀ p q, s.idle p = some q → q.pending = some s.phase → s.next (.arrive p) = some s
  refused : ∀ parties e, (s.register parties).1 = .error e → (s.register parties).2 = s ∧
    (e = .closed ∨ e = .panicked "Phaser registered-party count overflow")
  refusedOne : ∀ e, s.registerOne.1 = .error e → s.registerOne.2 = s ∧
    (e = .closed ∨ e = .panicked "Phaser registered-party count overflow")

section Rendezvous

variable [Wake W] {s : State W}

theorem rendezvous_accounts (h : (machine W).Reachable s) (hw : s.advances < phaseCount) :
    Accounts s := by
  obtain ⟨hok,hs⟩ := reachable_ok h hw
  refine ⟨hok.registered,hok.unarrived,hok.unarrived_le,hok.awaited,⟨hok.panicked,?_⟩,?_,?_,?_,?_,?_,?_⟩
  · intro a x hx
    obtain ⟨t,ht,-⟩ := Stepped.act hok hs hx
    exact ⟨t,ht⟩
  · intro a t hn ht
    exact ((act_of_next hok hs hn).2 ht).phases
  · refine ⟨s.close,Transition.step_of_act hok.panicked rfl,?_⟩
    cases hc : s.closed <;> simp [State.close,hc]
  · intro hc labels t ht hlt
    exact exec_closed hok hs hc ht hlt
  · intro p q hidle hpend
    obtain ⟨hq,hreg,-⟩ := State.idle_eq_some.mp hidle
    obtain ⟨r,hr⟩ := hok.arrive_again hq hreg hpend
    have hact : s.act (.arrive p) = some (.ok s) := by
      rw [State.act,hidle,Option.map_some,hr]
      rfl
    exact Transition.step_of_act hok.panicked hact
  · intro parties e he
    rcases hok.doRegister_cases parties with ⟨e',heq,hcases⟩ | ⟨-,heq⟩
    · simp only [State.register,heq,Except.error.injEq] at he ⊢
      exact ⟨trivial,he ▸ hcases⟩
    · simp [State.register,heq] at he
  · intro e he
    rcases hok.doRegister_cases 1 with ⟨e',heq,hcases⟩ | ⟨-,heq⟩
    · simp only [State.registerOne,heq,Except.error.injEq] at he ⊢
      exact ⟨trivial,he ▸ hcases⟩
    · simp [State.registerOne,heq] at he

/-- Of a batch of two, one participant is yielded and arrives twice, the other one is
withdrawn; a third one arrives by a wait, which completes the phase. -/
def batchRun : List (Action ℕ) :=
  [.register 2,.yield 0,.registerOne,.arrive 0,.arrive 0,.dropParticipants 0,.wait 1,.poll 0 7]

theorem rendezvous_accounts_batchRun :
    ∃ s, (machine ℕ).exec (new ℕ) batchRun = some s ∧ s.phase = 1 ∧ s.registered = 2 ∧
      s.unarrived = 2 ∧ Accounts s := by
  refine ⟨_,rfl,rfl,rfl,rfl,?_⟩
  have hreach : (machine ℕ).Reachable _ := ⟨new ℕ,batchRun,rfl,fun _ _ => trivial,rfl⟩
  exact rendezvous_accounts hreach (by decide)

end Rendezvous

end Phaser
end Asyncband
