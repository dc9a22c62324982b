import Asyncband.PhaserRendezvous

/-! What the waits of a phaser return and who wakes them.
A wait of a participant looks out for the phase of the pending arrival. It keeps that
observation when it is cancelled, so a retry neither arrives again nor misses a phase that
was completed in between, even if the phaser was closed after that. -/
namespace Asyncband
namespace Phaser

variable {W : Type} {s : State W} {w : ℕ}

/-- The wait is registered for the current phase of an open phaser, under `id`. -/
def State.Seated (s : State W) (w : ℕ) (id : SlotId) : Prop :=
  s.closed = false ∧ ∃ c, s.waits[w]? = some c ∧ c.stage = .waiting s.phase (some id)

theorem State.slot_eq_some {id : SlotId} : s.slot w = some id ↔ s.Seated w id := by
  constructor
  · intro h
    obtain ⟨c,hc,hseat⟩ := Option.bind_eq_some_iff.mp h
    cases hstage : c.stage with
    | waiting observed token =>
      simp only [WaitCall.seat,hstage] at hseat
      split at hseat
      · rename_i hcur
        exact ⟨hcur.2,c,hc,by rw [hstage,hcur.1,hseat]⟩
      · cases hseat
    | unpolled | done | cancelled => simp [WaitCall.seat,hstage] at hseat
  · rintro ⟨hclosed,c,hc,hstage⟩
    rw [State.slot,Table.lookup_eq hc]
    simp only [WaitCall.seat,hstage]
    rw [if_pos ⟨trivial,hclosed⟩]

theorem State.consume_frame (s : State W) (owner : Option ℕ) (result : Completion) :
    (s.consume owner result).waits = s.waits ∧ (s.consume owner result).arrivals = s.arrivals := by
  cases owner with
  | none => exact ⟨rfl,rfl⟩
  | some p =>
    cases result with
    | closed => exact ⟨rfl,rfl⟩
    | ok next =>
      cases hq : s.participants[p]? <;> simp [State.consume,hq,State.setParticipant]

theorem Ok.observed_pending (hok : Ok s) {c : WaitCall W} (hc : s.waits[w]? = some c) {p : ℕ}
    (howner : c.owner = some p) {q : PhaserParticipant} (hq : s.participants[p]? = some q)
    {observed : ℕ} {token : Option SlotId} (hstage : c.stage = .waiting observed token) :
    q.pending = some observed := by
  obtain ⟨q',hq',-,hpend⟩ := hok.borrowing.holder w c p hc howner (by simp [WaitCall.isLive,hstage])
  rw [hq] at hq'
  cases hq'
  exact hpend observed token hstage

section Poll

variable [Wake W] {s t : State W}
variable {c : WaitCall W} {observed p : ℕ} {token : Option SlotId} {q : PhaserParticipant} {waker : W}
    {result : Completion}

section

variable (hc : s.waits[w]? = some c)
include hc

theorem act_poll_waiting (hstage : c.stage = .waiting observed token) (waker : W) :
    s.act (.poll w waker) = some (s.pollWait w c observed token waker) := by
  simp only [State.act,hc,Option.bind_some,hstage]

theorem act_poll_unpolled (hstage : c.stage = .unpolled) (howner : c.owner = some p)
    (hq : s.participants[p]? = some q) (waker : W) :
    s.act (.poll w waker) = some (s.startWait w c p q) := by
  simp only [State.act,hc,Option.bind_some,hstage,howner,hq,Option.map_some]

theorem pollWait_some (hresult : s.completion observed = some result)
    (h : s.pollWait w c observed token waker = .ok t) :
    t.waits[w]? = some {c with stage := .done (some observed) result} := by
  simp only [State.pollWait,hresult,Except.ok.injEq] at h
  rw [← h,(State.consume_frame _ _ _).1]
  exact Table.getElem?_set_self' hc _

theorem pollWait_none (hresult : s.completion observed = none)
    (h : s.pollWait w c observed token waker = .ok t) :
    t.participants = s.participants ∧
      ∃ id, t.waits[w]? = some ⟨c.owner,.waiting observed (some id),some waker⟩ := by
  simp only [State.pollWait,hresult] at h
  obtain ⟨x,-,h⟩ := bind_eq_ok h
  cases h
  exact ⟨rfl,x.1,Table.getElem?_set_self' hc _⟩

end

theorem returned (hok : Ok s) (hs : Seats s) (hc : s.waits[w]? = some c) (howner : c.owner = some p)
    (hq : s.participants[p]? = some q) (h : s.act (.poll w waker) = some (.ok t)) {d : WaitCall W}
    (hd : t.waits[w]? = some d) {observed : Option ℕ} (hdone : d.stage = .done observed result) :
    (∃ k, q.pending = some k ∧ (p,k) ∈ s.arrivals ∧ k < s.phase ∧ result = .ok s.phase) ∨
      s.closed = true ∧ result = .closed ∧ ∀ k, q.pending = some k → k = s.phase := by
  cases hstage : c.stage with
  | unpolled =>
    rw [act_poll_unpolled hc hstage howner hq,Option.some.injEq] at h
    cases hpend : q.pending with
    | some k =>
      simp only [State.startWait,hpend,Except.ok.injEq] at h
      rw [← h,State.setWait,Table.getElem?_set_self' hc] at hd
      cases hd
      cases hdone
    | none =>
      simp only [State.startWait,hpend] at h
      obtain ⟨⟨r,u⟩,hr,h⟩ := bind_eq_ok h
      by_cases hclosed : s.closed = true
      · rw [State.arrive,if_pos hclosed] at hr
        cases hr
        cases h
        rw [State.setWait,Table.getElem?_set_self' hc] at hd
        cases hd
        cases hdone
        exact .inr ⟨hclosed,rfl,by rintro _ ⟨⟩⟩
      · rw [State.arrive,if_neg hclosed] at hr
        obtain ⟨unarrived,-,hr⟩ := bind_eq_ok hr
        cases hr
        cases h
        rw [State.setWait,State.advanceIfReady_waits,Table.getElem?_set_self' hc] at hd
        cases hd
        cases hdone
  | waiting k token =>
    rw [act_poll_waiting hc hstage,Option.some.injEq] at h
    have hpend := hok.observed_pending hc howner hq hstage
    cases hresult : s.completion k with
    | none =>
      obtain ⟨-,id,hw⟩ := pollWait_none hc hresult h
      rw [hw] at hd
      cases hd
      cases hdone
    | some r =>
      rw [pollWait_some hc hresult h] at hd
      cases hd
      cases hdone
      have hle := ((hs.watching w c hc).waiting hstage).1
      rcases State.completion_cases hresult with ⟨hne,rfl⟩ | ⟨heq,hclosed,rfl⟩
      · exact .inl ⟨k,hpend,(hok.history.pending p q k hq hpend).2,by omega,rfl⟩
      · refine .inr ⟨hclosed,rfl,fun k' hk => ?_⟩
        rw [hpend] at hk
        exact (Option.some.inj hk).symm.trans heq.symm
  | done => simp [State.act,hc,hstage] at h
  | cancelled => simp [State.act,hc,hstage] at h

/-- As long as an observation is pending, only an explicit `arrive` records an arrival of
that participant, and only a wait that returns `Ok` for it consumes it. -/
theorem pending_kept (hok : Ok s) (hs : Seats s) (hq : s.participants[p]? = some q) {k : ℕ}
    (hk : q.pending = some k) {a : Action W} (h : s.act a = some (.ok t)) (ha : a ≠ .arrive p) :
    t.arrivalsOf p = s.arrivalsOf p ∧
      ((∃ q', t.participants[p]? = some q' ∧ q'.pending = some k) ∨
        ∃ w waker d next, a = .poll w waker ∧ t.waits[w]? = some d ∧ d.owner = some p ∧
          d.stage = .done (some k) (.ok next) ∧ k < next) := by
  have hframe := Frame.act h
  by_cases hm : s.mover a = some p
  · cases a with
    | arrive p' => exact absurd (congrArg Action.arrive (Option.some.inj hm)) ha
    | poll w waker =>
      obtain ⟨c,hc,howner⟩ := Option.bind_eq_some_iff.mp hm
      cases hstage : c.stage with
      | unpolled =>
        rw [act_poll_unpolled hc hstage howner hq,Option.some.injEq] at h
        simp only [State.startWait,hk,Except.ok.injEq] at h
        rw [← h]
        exact ⟨rfl,.inl ⟨q,hq,hk⟩⟩
      | waiting observed token =>
        rw [act_poll_waiting hc hstage,Option.some.injEq] at h
        have hpend := hok.observed_pending hc howner hq hstage
        rw [hk] at hpend
        cases hpend
        have harr : t.arrivals = s.arrivals := by
          rw [State.pollWait] at h
          split at h
          · cases h
            exact (State.consume_frame _ _ _).2
          · obtain ⟨x,-,h⟩ := bind_eq_ok h
            cases h
            rfl
        refine ⟨by rw [State.arrivalsOf,harr,State.arrivalsOf],?_⟩
        cases hresult : s.completion k with
        | none =>
          obtain ⟨hparts,-⟩ := pollWait_none hc hresult h
          exact .inl ⟨q,hparts ▸ hq,hk⟩
        | some result =>
          have hw := pollWait_some hc hresult h
          have hle := ((hs.watching w c hc).waiting hstage).1
          rcases State.completion_cases hresult with ⟨hne,rfl⟩ | ⟨-,-,rfl⟩
          · exact .inr ⟨w,waker,_,s.phase,rfl,hw,howner,rfl,by omega⟩
          · simp only [State.pollWait,hresult,State.consume_closed,Except.ok.injEq] at h
            rw [← h]
            exact .inl ⟨q,hq,hk⟩
      | done => simp [State.act,hc,hstage] at h
      | cancelled => simp [State.act,hc,hstage] at h
    | _ => cases hm
  · obtain ⟨q',hq',hpend⟩ := hframe.pending p q hm hq
    exact ⟨hframe.arrivals p hm,.inl ⟨q',hq',hpend.trans hk⟩⟩

/-- A cancellation gives up the slot of that wait if it counts, and no other. -/
theorem cancel_slot (hok : Ok s) (hs : Seats s) (h : s.act (.cancel w) = some (.ok t)) (id : SlotId) :
    t.waiters.wakers.get? id = s.waiters.wakers.get? id ∨
      s.Seated w id ∧ t.waiters.wakers.get? id = none := by
  obtain ⟨c,hc,h⟩ := Option.bind_eq_some_iff.mp h
  split at h <;> rename_i hstage
  · cases h
    exact .inl rfl
  · obtain ⟨u,hu,-,hget⟩ := Stepped.dropWait hok hs hc hstage
    rw [hu] at h
    cases h
    cases hslot : s.slot w with
    | none =>
      rw [hslot] at hget
      exact .inl (congrFun hget id)
    | some own =>
      rw [hslot] at hget
      by_cases hid : id = own
      · subst hid
        exact .inr ⟨State.slot_eq_some.mp hslot,(congrFun hget id).trans (Function.update_self ..)⟩
      · exact .inl ((congrFun hget id).trans (Function.update_of_ne hid ..))
  · cases h

end Poll

structure WaitLaws [Wake W] (s : State W) : Prop where
  returns : s.panicked = none ∧ ∀ a x, s.act a = some x → ∃ t, x = .ok t
  /-- A participant's wait returns `Ok` after the phase of the pending arrival, and `Closed`
  when no completed phase is pending. -/
  returned : ∀ (w : ℕ) c p q waker t d observed result, s.waits[w]? = some c → c.owner = some p →
    s.participants[p]? = some q → s.next (.poll w waker) = some t → t.waits[w]? = some d →
    d.stage = .done observed result →
    (∃ k, q.pending = some k ∧ (p,k) ∈ s.arrivals ∧ k < s.phase ∧ result = .ok s.phase) ∨
      s.closed = true ∧ result = .closed ∧ ∀ k, q.pending = some k → k = s.phase
  /-- A phase that is over makes its waits successful, before or after the close. -/
  successful : ∀ (w : ℕ) c observed token waker, s.waits[w]? = some c →
    c.stage = .waiting observed token → observed ≠ s.phase →
    ∃ t, s.next (.poll w waker) = some t ∧
      t.waits[w]? = some {c with stage := .done (some observed) (.ok s.phase)}
  /-- A new wait takes up the pending observation. -/
  resumed : ∀ (w : ℕ) c p q k waker, s.waits[w]? = some c → c.stage = .unpolled →
    c.owner = some p → s.participants[p]? = some q → q.pending = some k →
    s.next (.poll w waker) = some (s.setWait w {c with stage := .waiting k none})
  once : s.arrivals.Nodup
  pending : ∀ (p : ℕ) q k a t, s.participants[p]? = some q → q.pending = some k →
    s.next a = some t → a ≠ .arrive p → t.arrivalsOf p = s.arrivalsOf p ∧
      ((∃ q', t.participants[p]? = some q' ∧ q'.pending = some k) ∨
        ∃ w waker d next, a = .poll w waker ∧ t.waits[w]? = some d ∧ d.owner = some p ∧
          d.stage = .done (some k) (.ok next) ∧ k < next)
  /-- A pending wait for the current phase holds a slot with a waker for its task. -/
  seated : ∀ (w : ℕ) c token waker, s.waits[w]? = some c → c.stage = .waiting s.phase token →
    c.lastWaker = some waker → s.closed = false →
    ∃ id stored, token = some id ∧ s.waiters.wakers.get? id = some stored ∧
      Reaches stored (some waker)
  distinct : ∀ w v id, s.Seated w id → s.Seated v id → w = v
  /-- The wakers that an advance or a close takes are those of these waits. -/
  wakers : ∀ waker, waker ∈ s.waiters.wakeAll ↔
    ∃ w id, s.Seated w id ∧ s.waiters.wakers.get? id = some waker
  wakes : ∀ a t, s.next a = some t → t.advances < phaseCount → WakeLaw s t
  cancelled : ∀ w t, s.next (.cancel w) = some t → ∀ id,
    t.waiters.wakers.get? id = s.waiters.wakers.get? id ∨
      s.Seated w id ∧ t.waiters.wakers.get? id = none

section Completion

variable [Wake W] {s : State W}

theorem waits_complete (h : (machine W).Reachable s) (hw : s.advances < phaseCount) :
    WaitLaws s := by
  obtain ⟨hok,hs⟩ := reachable_ok h hw
  constructor
  case returns =>
    refine ⟨hok.panicked,fun a x hx => ?_⟩
    obtain ⟨t,ht,-⟩ := Stepped.act hok hs hx
    exact ⟨t,ht⟩
  case returned =>
    intro w c p q waker t d observed result hc howner hq hn hd hdone
    exact Phaser.returned hok hs hc howner hq (act_of_next hok hs hn).1 hd hdone
  case successful =>
    intro w c observed token waker hc hstage hne
    obtain ⟨t,ht,-⟩ := Stepped.pollWait hok hs hc hstage waker
    have hresult : s.completion observed = some (.ok s.phase) := by
      rw [State.completion,if_pos (Ne.symm hne)]
    exact ⟨t,Transition.step_of_act hok.panicked (by rw [act_poll_waiting hc hstage,ht]),pollWait_some hc hresult ht⟩
  case resumed =>
    intro w c p q k waker hc hstage howner hq hk
    apply Transition.step_of_act hok.panicked
    rw [act_poll_unpolled hc hstage howner hq]
    simp only [State.startWait,hk]
  case once => exact hok.history.nodup
  case pending =>
    intro p q k a t hq hk hn ha
    exact pending_kept hok hs hq hk (act_of_next hok hs hn).1 ha
  case seated =>
    intro w c token waker hc hstage hlast hclosed
    obtain ⟨id,rfl⟩ := Option.isSome_iff_exists.mp
      (((hs.watching w c hc).waiting hstage).2 (by rw [hlast]; rfl))
    obtain ⟨stored,hstored,hreach⟩ :=
      hs.enrolled.held w id (State.slot_eq_some.mpr ⟨hclosed,c,hc,hstage⟩)
    rw [State.latest,Table.lookup_eq hc,hlast] at hreach
    exact ⟨id,stored,rfl,hstored,hreach⟩
  case distinct =>
    intro w v id hw hv
    exact hs.enrolled.inj w v id (State.slot_eq_some.mpr hw) (State.slot_eq_some.mpr hv)
  case wakers =>
    intro waker
    rw [hs.enrolled.mem_wakeAll]
    simp only [State.slot_eq_some]
  case wakes =>
    intro a t hn ht
    exact ((act_of_next hok hs hn).2 ht).wakes
  case cancelled =>
    intro w t hn id
    exact cancel_slot hok hs (act_of_next hok hs hn).1 id

/-- A participant arrives by a wait that is cancelled, the phase completes, the phaser is
closed, and the retried wait still succeeds; an observer of the next phase stays behind. -/
def retryRun : List (Action ℕ) :=
  [.registerOne,.registerOne,.wait 0,.poll 0 7,.poll 0 7,.observe 0,.poll 1 8,.cancel 0,.arrive 1,
   .observe 1,.poll 2 9,.close,.wait 0,.poll 3 7,.poll 3 7]

theorem waits_complete_retryRun :
    ∃ s, (machine ℕ).exec (new ℕ) retryRun = some s ∧ s.phase = 1 ∧ s.closed = true ∧
      s.woken = [8,9] ∧ s.arrivals = [(0,0),(1,0)] ∧
      s.waits[3]?.map WaitCall.stage = some (.done (some 0) (.ok 1)) ∧ WaitLaws s := by
  refine ⟨_,rfl,rfl,rfl,rfl,rfl,rfl,?_⟩
  have hreach : (machine ℕ).Reachable _ := ⟨new ℕ,retryRun,rfl,fun _ _ => trivial,rfl⟩
  exact waits_complete hreach (by decide)

end Completion

end Phaser
end Asyncband
