import Asyncband.Phaser

/-! Rendezvous accounting of the phaser.
Whether a participant has arrived is not stored: it is read off by comparing its pending
observation with the current phase. `Core` ties the two counters of the state to these
comparisons and to the record of arrivals; `advanceIfReady` turns a state that satisfies
it into one where an open phaser with participants waits for somebody. -/
namespace Asyncband
namespace Phaser

variable {W : Type}

namespace PhaserParticipant

def weight (q : PhaserParticipant) : ℕ := if q.registered then 1 else 0

def owes (phase : ℕ) (q : PhaserParticipant) : ℕ :=
  if q.registered ∧ q.pending ≠ some phase then 1 else 0

variable {phase : ℕ} {q : PhaserParticipant}

theorem owes_eq (h : q.pending ≠ some phase) : q.owes phase = q.weight := by
  simp [owes,weight,h]

theorem owes_arrived (h : q.pending = some phase) : q.owes phase = 0 := by
  simp [owes,h]

theorem owes_withdrawn (h : q.registered = false) : q.owes phase = 0 := by
  simp [owes,h]

theorem owes_le (phase : ℕ) (q : PhaserParticipant) : q.owes phase ≤ q.weight := by
  by_cases h : q.pending = some phase
  · rw [owes_arrived h]
    exact Nat.zero_le _
  · rw [owes_eq h]

end PhaserParticipant

namespace State

def live (s : State W) : ℕ := Table.total PhaserParticipant.weight s.participants

/-- Registered participants that no iterator has yielded yet. -/
def unyielded (s : State W) : ℕ := Table.total PhaserParticipants.remaining s.iterators

/-- Participants that have not arrived in the current phase. -/
def owing (s : State W) : ℕ := Table.total (PhaserParticipant.owes s.phase) s.participants

end State

/-- A live wait of a participant borrows it: there is only one, the participant is still
registered, and its pending observation is the one that the wait looks out for. -/
structure Borrowing (participants : List PhaserParticipant) (waits : List (WaitCall W)) : Prop where
  holder : ∀ (w : ℕ) c p, waits[w]? = some c → c.owner = some p → c.isLive = true →
    ∃ q, participants[p]? = some q ∧ q.registered = true ∧
      ∀ observed token, c.stage = .waiting observed token → q.pending = some observed
  unique : ∀ (w v : ℕ) c d p, waits[w]? = some c → waits[v]? = some d → c.owner = some p →
    d.owner = some p → c.isLive = true → d.isLive = true → w = v

namespace Borrowing

variable {participants : List PhaserParticipant} {waits : List (WaitCall W)}

theorem nil : Borrowing ([] : List PhaserParticipant) ([] : List (WaitCall W)) :=
  ⟨by simp,by simp⟩

section

variable (h : Borrowing participants waits)
include h

theorem push_participant (q : PhaserParticipant) : Borrowing (participants++[q]) waits := by
  refine ⟨?_,h.unique⟩
  intro w c p hc hp hl
  obtain ⟨q,hq,hreg,hpend⟩ := h.holder w c p hc hp hl
  exact ⟨q,Table.getElem?_push_old hq _,hreg,hpend⟩

/-- Only a wait that has not looked at the pending observation yet may borrow `p`. -/
theorem set_participant {p : ℕ} {q : PhaserParticipant} (hq : participants[p]? = some q)
    (r : PhaserParticipant)
    (hfree : ∀ (w : ℕ) c, waits[w]? = some c → c.owner = some p → c.isLive = true →
      c.stage = .unpolled ∧ r.registered = true) : Borrowing (participants.set p r) waits := by
  refine ⟨?_,h.unique⟩
  intro w c p' hc hp hl
  by_cases hpp : p' = p
  · subst hpp
    obtain ⟨hstage,hreg⟩ := hfree w c hc hp hl
    refine ⟨r,Table.getElem?_set_self' hq r,hreg,?_⟩
    intro observed token hw
    rw [hstage] at hw
    cases hw
  · obtain ⟨q',hq',hreg,hpend⟩ := h.holder w c p' hc hp hl
    exact ⟨q',by rw [List.getElem?_set_ne (Ne.symm hpp),hq'],hreg,hpend⟩

theorem set_wait {w : ℕ} {c : WaitCall W} (hc : waits[w]? = some c) (d : WaitCall W)
    (howner : d.owner = c.owner) (hlive : d.isLive = true → c.isLive = true)
    (hpend : ∀ p q observed token, d.owner = some p → participants[p]? = some q →
      d.stage = .waiting observed token → q.pending = some observed) :
    Borrowing participants (waits.set w d) := by
  constructor
  · intro v e p he hp hl
    rcases Table.getElem?_set_cases he with ⟨rfl,rfl⟩ | ⟨-,he⟩
    · obtain ⟨q,hq,hreg,-⟩ := h.holder v c p hc (howner ▸ hp) (hlive hl)
      exact ⟨q,hq,hreg,fun observed token hs => hpend p q observed token hp hq hs⟩
    · exact h.holder v e p he hp hl
  · intro v v' e e' p he he' hp hp' hl hl'
    rcases Table.getElem?_set_cases he with ⟨rfl,rfl⟩ | ⟨-,hold⟩ <;>
      rcases Table.getElem?_set_cases he' with ⟨rfl,rfl⟩ | ⟨-,hold'⟩
    · rfl
    · exact h.unique v v' c e' p hc hold' (howner ▸ hp) hp' (hlive hl) hl'
    · exact h.unique v v' e c p hold hc hp (howner ▸ hp') hl (hlive hl')
    · exact h.unique v v' e e' p hold hold' hp hp' hl hl'

theorem push_wait (d : WaitCall W)
    (hpush : ∀ p, d.owner = some p → (∃ q, participants[p]? = some q ∧ q.registered = true) ∧
      d.stage = .unpolled ∧
      ∀ (w : ℕ) c, waits[w]? = some c → c.owner = some p → c.isLive = false) :
    Borrowing participants (waits++[d]) := by
  constructor
  · intro v e p he hp hl
    rcases Table.getElem?_push he with he | ⟨-,rfl⟩
    · exact h.holder v e p he hp hl
    · obtain ⟨⟨q,hq,hreg⟩,hstage,-⟩ := hpush p hp
      refine ⟨q,hq,hreg,?_⟩
      intro observed token hw
      rw [hstage] at hw
      cases hw
  · intro v v' e e' p he he' hp hp' hl hl'
    rcases Table.getElem?_push he with hold | ⟨hv,rfl⟩ <;>
      rcases Table.getElem?_push he' with hold' | ⟨hv',rfl⟩
    · exact h.unique v v' e e' p hold hold' hp hp' hl hl'
    · obtain ⟨-,-,hfree⟩ := hpush p hp'
      rw [hfree v e hold hp] at hl
      cases hl
    · obtain ⟨-,-,hfree⟩ := hpush p hp
      rw [hfree v' e' hold' hp'] at hl'
      cases hl'
    · exact hv.trans hv'.symm

end

end Borrowing

theorem State.isFree_iff {s : State W} {p : ℕ} : s.isFree p = true ↔
    ∀ (w : ℕ) c, s.waits[w]? = some c → c.owner = some p → c.isLive = false := by
  simp only [State.isFree,List.all_eq_true,Bool.not_eq_true',Bool.and_eq_false_iff,beq_eq_false_iff_ne]
  constructor
  · intro h w c hc hp
    rcases h c (List.mem_of_getElem? hc) with hl | hne
    · exact hl
    · exact absurd hp hne
  · intro h c hc
    obtain ⟨w,hw⟩ := List.mem_iff_getElem?.mp hc
    by_cases hp : c.owner = some p
    · exact .inl (h w c hw hp)
    · exact .inr hp

/-- How pending observations and recorded arrivals belong together: an arrival in the
current phase is recorded exactly for those whose pending observation is that phase. -/
structure History (phase : ℕ) (participants : List PhaserParticipant) (arrivals : List (ℕ × ℕ)) :
    Prop where
  pending : ∀ (p : ℕ) q k, participants[p]? = some q → q.pending = some k →
    k ≤ phase ∧ (p,k) ∈ arrivals
  nodup : arrivals.Nodup
  arrived : ∀ p k, (p,k) ∈ arrivals → k ≤ phase ∧
    (k = phase → ∃ q, participants[p]? = some q ∧ q.pending = some k)

namespace History

variable {phase : ℕ} {participants : List PhaserParticipant} {arrivals : List (ℕ × ℕ)}
variable {p : ℕ} {q : PhaserParticipant}

theorem nil : History 0 [] [] :=
  ⟨by simp,List.nodup_nil,by simp⟩

section

variable (h : History phase participants arrivals)
include h

theorem advance : History (phase+1) participants arrivals := by
  refine ⟨?_,h.nodup,?_⟩
  · intro p q k hq hk
    obtain ⟨hle,hmem⟩ := h.pending p q k hq hk
    exact ⟨Nat.le_succ_of_le hle,hmem⟩
  · intro p k hk
    have hle := (h.arrived p k hk).1
    exact ⟨Nat.le_succ_of_le hle,fun he => by omega⟩

theorem push : History phase (participants++[⟨none,true⟩]) arrivals := by
  refine ⟨?_,h.nodup,?_⟩
  · intro p q k hq hk
    rcases Table.getElem?_push hq with hq | ⟨-,rfl⟩
    · exact h.pending p q k hq hk
    · cases hk
  · intro p k hk
    obtain ⟨hle,hold⟩ := h.arrived p k hk
    refine ⟨hle,fun he => ?_⟩
    obtain ⟨q,hq,hpend⟩ := hold he
    exact ⟨q,Table.getElem?_push_old hq _,hpend⟩

theorem set (hq : participants[p]? = some q) (r : PhaserParticipant)
    (hr : r.pending = q.pending ∨ r.pending = none ∧ q.pending ≠ some phase) :
    History phase (participants.set p r) arrivals := by
  refine ⟨?_,h.nodup,?_⟩
  · intro p' q' k hq' hk
    rcases Table.getElem?_set_cases hq' with ⟨rfl,rfl⟩ | ⟨-,hq'⟩
    · rcases hr with hr | ⟨hr,-⟩
      · exact h.pending p' q k hq (hr ▸ hk)
      · rw [hr] at hk
        cases hk
    · exact h.pending p' q' k hq' hk
  · intro p' k hk
    obtain ⟨hle,hold⟩ := h.arrived p' k hk
    refine ⟨hle,fun he => ?_⟩
    obtain ⟨q',hq',hpend⟩ := hold he
    by_cases hpp : p' = p
    · subst hpp
      rw [hq] at hq'
      cases hq'
      rcases hr with hr | ⟨-,hne⟩
      · exact ⟨r,Table.getElem?_set_self' hq r,hr.trans hpend⟩
      · exact absurd (he ▸ hpend) hne
    · exact ⟨q',by rw [List.getElem?_set_ne (Ne.symm hpp),hq'],hpend⟩

theorem arrive (hq : participants[p]? = some q) (hne : q.pending ≠ some phase) :
    History phase (participants.set p {q with pending := some phase}) (arrivals++[(p,phase)]) := by
  have hnew : (p,phase) ∉ arrivals := by
    intro hmem
    obtain ⟨q',hq',hpend⟩ := (h.arrived p phase hmem).2 rfl
    rw [hq] at hq'
    cases hq'
    exact hne hpend
  refine ⟨?_,?_,?_⟩
  · intro p' q' k hq' hk
    rcases Table.getElem?_set_cases hq' with ⟨rfl,rfl⟩ | ⟨-,hq'⟩
    · cases hk
      exact ⟨Nat.le_refl _,by simp⟩
    · obtain ⟨hle,hmem⟩ := h.pending p' q' k hq' hk
      exact ⟨hle,List.mem_append_left _ hmem⟩
  · exact h.nodup.append (List.nodup_singleton _) (List.disjoint_singleton.mpr hnew)
  · intro p' k hk
    rcases List.mem_append.mp hk with hmem | hmem
    · obtain ⟨hle,hold⟩ := h.arrived p' k hmem
      refine ⟨hle,fun he => ?_⟩
      obtain ⟨q',hq',hpend⟩ := hold he
      by_cases hpp : p' = p
      · subst hpp
        exact absurd (he ▸ hmem) hnew
      · exact ⟨q',by rw [List.getElem?_set_ne (Ne.symm hpp),hq'],hpend⟩
    · cases List.mem_singleton.mp hmem
      exact ⟨Nat.le_refl _,fun _ => ⟨_,Table.getElem?_set_self' hq _,rfl⟩⟩

end

end History

/-- The invariant up to the promise that somebody is still to arrive. It speaks about
runs in which the phase number has not wrapped. -/
structure Core (s : State W) : Prop where
  registered : s.registered = s.live+s.unyielded
  unarrived : s.unarrived = s.unyielded+s.owing
  bound : s.registered ≤ usizeMax
  phase : s.phase = s.advances
  history : History s.phase s.participants s.arrivals
  borrowing : Borrowing s.participants s.waits
  panicked : s.panicked = none

/-- While it is open, a phaser with participants waits for somebody. -/
structure Ok (s : State W) : Prop extends Core s where
  awaited : s.closed = false → 0 < s.registered → 0 < s.unarrived

namespace Core

variable {s : State W}

theorem unarrived_le (h : Core s) : s.unarrived ≤ s.registered := by
  have howing : s.owing ≤ s.live := Table.total_le fun q _ => q.owes_le s.phase
  rw [h.registered,h.unarrived]
  omega

/-- Nobody is left to arrive: every registered participant has arrived exactly once in
the current phase, and no iterator has participants to yield. -/
theorem all_arrived (h : Core s) (hz : s.unarrived = 0) :
    (∀ (p : ℕ) q, s.participants[p]? = some q → q.registered = true →
      s.arrivals.count (p,s.phase) = 1) ∧
    ∀ (i : ℕ) b, s.iterators[i]? = some b → b.remaining = 0 := by
  have hun := h.unarrived
  have hyield : s.unyielded = 0 := by omega
  have howing : s.owing = 0 := by omega
  refine ⟨?_,Table.total_eq_zero.mp hyield⟩
  intro p q hq hreg
  have hzero := Table.total_eq_zero.mp howing p q hq
  have hpend : q.pending = some s.phase := by
    by_contra hne
    simp [PhaserParticipant.owes,hreg,hne] at hzero
  exact List.count_eq_one_of_mem h.history.nodup (h.history.pending p q s.phase hq hpend).2

theorem fired (h : Core s) (hw : s.advances+1 < phaseCount) (hc : s.closed = false)
    (hz : s.unarrived = 0) : Ok s.advanceIfReady := by
  have hphase : (s.phase+1)%phaseCount = s.phase+1 := by
    rw [h.phase]
    exact Nat.mod_eq_of_lt hw
  have heq : s.advanceIfReady =
      {s with phase := s.phase+1,unarrived := s.registered,waiters := s.waiters.takeAll.2,
              advances := s.advances+1,woken := s.woken++s.waiters.takeAll.1} := by
    rw [State.advanceIfReady,if_neg (by simp [hc,hz]),hphase]
  have howes : Table.total (PhaserParticipant.owes (s.phase+1)) s.participants = s.live := by
    apply Table.total_congr
    intro q hq
    obtain ⟨p,hp⟩ := List.mem_iff_getElem?.mp hq
    apply PhaserParticipant.owes_eq
    intro hk
    have hle := (h.history.pending p q _ hp hk).1
    omega
  rw [heq]
  refine ⟨⟨h.registered,?_,h.bound,?_,h.history.advance,h.borrowing,h.panicked⟩,fun _ hpos => hpos⟩
  · show s.registered = s.unyielded+Table.total (PhaserParticipant.owes (s.phase+1)) s.participants
    rw [howes,h.registered,Nat.add_comm]
  · show s.phase+1 = s.advances+1
    rw [h.phase]

theorem advance (h : Core s) (hw : s.advanceIfReady.advances < phaseCount) :
    Ok s.advanceIfReady := by
  by_cases hc : s.closed = true
  · have heq : s.advanceIfReady = s := by rw [State.advanceIfReady,if_pos (.inl hc)]
    rw [heq]
    exact ⟨h,fun ho => by rw [hc] at ho; cases ho⟩
  · by_cases hz : s.unarrived = 0
    · have hadv : s.advanceIfReady.advances = s.advances+1 := by
        rw [State.advanceIfReady,if_neg (by simp [hc,hz])]
      exact h.fired (hadv ▸ hw) (Bool.eq_false_iff.mpr hc) hz
    · have heq : s.advanceIfReady = s := by rw [State.advanceIfReady,if_pos (.inr hz)]
      rw [heq]
      exact ⟨h,fun _ _ => Nat.pos_of_ne_zero hz⟩

/-! ### Registration -/

/-- A failed registration leaves the state alone; the only panic is the documented one. -/
theorem doRegister_cases (h : Core s) (parties : ℕ) :
    (∃ e, s.doRegister parties = (.error e,s) ∧
      (e = .closed ∨ e = .panicked "Phaser registered-party count overflow")) ∨
    s.registered+parties ≤ usizeMax ∧
      s.doRegister parties = (.ok (),{s with registered := s.registered+parties,
                                             unarrived := s.unarrived+parties}) := by
  simp only [State.doRegister]
  by_cases hc : s.closed = true
  · rw [if_pos hc]
    exact .inl ⟨_,rfl,.inl rfl⟩
  · rw [if_neg hc]
    by_cases ho : usizeMax < s.registered+parties
    · rw [if_pos ho]
      exact .inl ⟨_,rfl,.inr rfl⟩
    · have hle := h.unarrived_le
      have hadd : Checked.add usizeMax s.unarrived parties = .ok (s.unarrived+parties) :=
        Checked.add_ok (by omega)
      rw [if_neg ho]
      simp only [hadd]
      exact .inr ⟨by omega,trivial⟩

theorem live_push (participants : List PhaserParticipant) :
    Table.total PhaserParticipant.weight (participants++[⟨none,true⟩]) =
      Table.total PhaserParticipant.weight participants+1 := by
  rw [Table.total_append]
  rfl

theorem owing_push (phase : ℕ) (participants : List PhaserParticipant) :
    Table.total (PhaserParticipant.owes phase) (participants++[⟨none,true⟩]) =
      Table.total (PhaserParticipant.owes phase) participants+1 := by
  rw [Table.total_append]
  simp [PhaserParticipant.owes]

end Core

namespace Ok

variable {s : State W}

theorem registerOne (h : Ok s) : Ok s.registerOne.2 := by
  rcases h.doRegister_cases 1 with ⟨e,heq,-⟩ | ⟨hle,heq⟩
  · rw [State.registerOne,heq]
    exact h
  · rw [State.registerOne,heq]
    refine ⟨⟨?_,?_,hle,h.phase,h.history.push,h.borrowing.push_participant _,h.panicked⟩,
      fun _ _ => Nat.succ_pos _⟩
    · show s.registered+1 = Table.total PhaserParticipant.weight (s.participants++[⟨none,true⟩])+
        s.unyielded
      rw [Core.live_push,h.registered,State.live]
      omega
    · show s.unarrived+1 = s.unyielded+
        Table.total (PhaserParticipant.owes s.phase) (s.participants++[⟨none,true⟩])
      rw [Core.owing_push,h.unarrived,State.owing]
      omega

theorem register (h : Ok s) (parties : ℕ) : Ok (s.register parties).2 := by
  rcases h.doRegister_cases parties with ⟨e,heq,-⟩ | ⟨hle,heq⟩
  · rw [State.register,heq]
    exact h
  · have hyield : Table.total PhaserParticipants.remaining (s.iterators++[⟨parties⟩]) =
        s.unyielded+parties := by
      rw [Table.total_append]
      rfl
    rw [State.register,heq]
    refine ⟨⟨?_,?_,hle,h.phase,h.history,h.borrowing,h.panicked⟩,?_⟩
    · show s.registered+parties = s.live+
        Table.total PhaserParticipants.remaining (s.iterators++[⟨parties⟩])
      rw [hyield,h.registered]
      omega
    · show s.unarrived+parties =
        Table.total PhaserParticipants.remaining (s.iterators++[⟨parties⟩])+s.owing
      rw [hyield,h.unarrived]
      omega
    · intro hc hpos
      show 0 < s.unarrived+parties
      have hold := h.awaited hc
      have hpos : 0 < s.registered+parties := hpos
      omega

theorem yield (h : Ok s) {i : ℕ} {b : PhaserParticipants} (hb : s.iterators[i]? = some b) :
    Ok (s.yield i b) := by
  rw [State.yield]
  split
  · exact h
  · rename_i hne
    have hset := Table.total_set PhaserParticipants.remaining hb ⟨b.remaining-1⟩
    have hyield : Table.total PhaserParticipants.remaining (s.iterators.set i ⟨b.remaining-1⟩)+1 =
        s.unyielded := by
      simp only at hset
      rw [State.unyielded]
      omega
    refine ⟨⟨?_,?_,h.bound,h.phase,h.history.push,h.borrowing.push_participant _,h.panicked⟩,
      h.awaited⟩
    · show s.registered = Table.total PhaserParticipant.weight (s.participants++[⟨none,true⟩])+
        Table.total PhaserParticipants.remaining (s.iterators.set i ⟨b.remaining-1⟩)
      rw [Core.live_push,h.registered,State.live]
      omega
    · show s.unarrived = Table.total PhaserParticipants.remaining
          (s.iterators.set i ⟨b.remaining-1⟩)+
        Table.total (PhaserParticipant.owes s.phase) (s.participants++[⟨none,true⟩])
      rw [Core.owing_push,h.unarrived,State.owing]
      omega

end Ok

/-! ### Arrival and withdrawal -/

/-- The part of the state that an arrival or a withdrawal leaves alone before the phase
may advance. -/
structure Steady (s u : State W) : Prop where
  phase : u.phase = s.phase
  closed : u.closed = s.closed
  advances : u.advances = s.advances
  waiters : u.waiters = s.waiters
  waits : u.waits = s.waits
  woken : u.woken = s.woken

namespace Ok

variable {s : State W} {p : ℕ} {q : PhaserParticipant}

theorem dropParticipants (h : Ok s) {i : ℕ} {b : PhaserParticipants}
    (hb : s.iterators[i]? = some b) (hne : b.remaining ≠ 0) :
    ∃ u, s.dropParticipants i b = .ok u.advanceIfReady ∧ Core u ∧ Steady s u ∧
      u.participants = s.participants ∧ u.arrivals = s.arrivals := by
  have hle : b.remaining ≤ s.unyielded := Table.le_total PhaserParticipants.remaining hb
  have hset := Table.total_set PhaserParticipants.remaining hb ⟨0⟩
  have hyield : Table.total PhaserParticipants.remaining (s.iterators.set i ⟨0⟩)+b.remaining =
      s.unyielded := hset
  have hreg := h.registered
  have hun := h.unarrived
  have hsubr : Checked.sub s.registered b.remaining = .ok (s.registered-b.remaining) :=
    Checked.sub_ok (by omega)
  have hsubu : Checked.sub s.unarrived b.remaining = .ok (s.unarrived-b.remaining) :=
    Checked.sub_ok (by omega)
  refine ⟨{s with registered := s.registered-b.remaining,unarrived := s.unarrived-b.remaining,
                  iterators := s.iterators.set i ⟨0⟩},?_,?_,⟨rfl,rfl,rfl,rfl,rfl,rfl⟩,rfl,rfl⟩
  · rw [State.dropParticipants,if_neg hne,hsubr,hsubu]
    rfl
  · refine ⟨?_,?_,?_,h.phase,h.history,h.borrowing,h.panicked⟩
    · show s.registered-b.remaining = s.live+
        Table.total PhaserParticipants.remaining (s.iterators.set i ⟨0⟩)
      omega
    · show s.unarrived-b.remaining =
        Table.total PhaserParticipants.remaining (s.iterators.set i ⟨0⟩)+s.owing
      omega
    · exact (Nat.sub_le _ _).trans h.bound

section

variable (h : Ok s) (hq : s.participants[p]? = some q) (hreg : q.registered = true)
include h hq hreg

theorem discharge :
    s.discharge q = .ok (s.unarrived-q.owes s.phase) ∧ q.owes s.phase ≤ s.unarrived := by
  have hle : q.owes s.phase ≤ s.owing := Table.le_total (PhaserParticipant.owes s.phase) hq
  have hun := h.unarrived
  refine ⟨?_,by omega⟩
  by_cases hpend : q.pending = some s.phase
  · have hout : s.outstanding q = false := by simp [State.outstanding,hpend]
    rw [State.discharge,hout,PhaserParticipant.owes_arrived hpend]
    rfl
  · have hout : s.outstanding q = true := by simp [State.outstanding,hpend]
    have hone : q.owes s.phase = 1 := by
      rw [PhaserParticipant.owes_eq hpend,PhaserParticipant.weight,if_pos hreg]
    rw [State.discharge,hout,if_pos rfl,Checked.sub_ok (by omega),hone]

theorem arrive (hc : s.closed = false)
    (hfree : ∀ (w : ℕ) c, s.waits[w]? = some c → c.owner = some p → c.isLive = true →
      c.stage = .unpolled) :
    ∃ u, s.arrive p q = .ok (.ok s.phase,u.advanceIfReady) ∧ Core u ∧ Steady s u ∧
      u.participants = s.participants.set p {q with pending := some s.phase} ∧
      s.arrivals ⊆ u.arrivals ∧
      (q.pending = some s.phase → u.unarrived = s.unarrived ∧ u.arrivals = s.arrivals) := by
  obtain ⟨hdis,hle⟩ := h.discharge hq hreg
  have howing := Table.total_set (PhaserParticipant.owes s.phase) hq {q with pending := some s.phase}
  have hlive := Table.total_set PhaserParticipant.weight hq {q with pending := some s.phase}
  rw [PhaserParticipant.owes_arrived (q := {q with pending := some s.phase}) rfl] at howing
  have hun := h.unarrived
  have howing' : Table.total (PhaserParticipant.owes s.phase)
      (s.participants.set p {q with pending := some s.phase})+q.owes s.phase = s.owing := howing
  refine ⟨{s with unarrived := s.unarrived-q.owes s.phase,
                  participants := s.participants.set p {q with pending := some s.phase},
                  arrivals := if s.outstanding q then s.arrivals++[(p,s.phase)] else s.arrivals},
    ?_,?_,⟨rfl,rfl,rfl,rfl,rfl,rfl⟩,rfl,?_,?_⟩
  · rw [State.arrive,if_neg (by simp [hc]),hdis]
    rfl
  · refine ⟨?_,?_,h.bound,h.phase,?_,?_,h.panicked⟩
    · show s.registered = Table.total PhaserParticipant.weight
        (s.participants.set p {q with pending := some s.phase})+s.unyielded
      rw [Nat.add_right_cancel hlive,h.registered]
      rfl
    · show s.unarrived-q.owes s.phase = s.unyielded+Table.total (PhaserParticipant.owes s.phase)
        (s.participants.set p {q with pending := some s.phase})
      omega
    · show History s.phase (s.participants.set p {q with pending := some s.phase})
        (if s.outstanding q then s.arrivals++[(p,s.phase)] else s.arrivals)
      by_cases hpend : q.pending = some s.phase
      · rw [if_neg (by simp [State.outstanding,hpend])]
        exact h.history.set hq _ (.inl hpend.symm)
      · rw [if_pos (by simp [State.outstanding,hpend])]
        exact h.history.arrive hq hpend
    · exact h.borrowing.set_participant hq _ fun w c hw hp hl => ⟨hfree w c hw hp hl,hreg⟩
  · intro x hx
    show x ∈ if s.outstanding q then s.arrivals++[(p,s.phase)] else s.arrivals
    split
    · exact List.mem_append_left _ hx
    · exact hx
  · intro hpend
    refine ⟨?_,?_⟩
    · show s.unarrived-q.owes s.phase = s.unarrived
      rw [PhaserParticipant.owes_arrived hpend,Nat.sub_zero]
    · show (if s.outstanding q then s.arrivals++[(p,s.phase)] else s.arrivals) = s.arrivals
      rw [if_neg (by simp [State.outstanding,hpend])]

theorem doDeregister (hfree : s.isFree p = true) :
    ∃ r u, s.doDeregister p q = .ok (r,u.advanceIfReady) ∧ Core u ∧ Steady s u ∧
      u.participants = s.participants.set p {q with registered := false} ∧
      u.arrivals = s.arrivals := by
  obtain ⟨hdis,hle⟩ := h.discharge hq hreg
  have howing := Table.total_set (PhaserParticipant.owes s.phase) hq {q with registered := false}
  have hlive := Table.total_set PhaserParticipant.weight hq {q with registered := false}
  have hone : q.weight = 1 := by rw [PhaserParticipant.weight,if_pos hreg]
  rw [PhaserParticipant.owes_withdrawn (q := {q with registered := false}) rfl] at howing
  have howing' : Table.total (PhaserParticipant.owes s.phase)
      (s.participants.set p {q with registered := false})+q.owes s.phase = s.owing := howing
  have hlive' : Table.total PhaserParticipant.weight
      (s.participants.set p {q with registered := false})+1 = s.live := by
    rw [hone] at hlive
    exact hlive
  have hun := h.unarrived
  have hr := h.registered
  have hsub : Checked.sub s.registered 1 = .ok (s.registered-1) := Checked.sub_ok (by omega)
  refine ⟨if s.closed then .closed else .ok s.phase,
    {s with registered := s.registered-1,unarrived := s.unarrived-q.owes s.phase,
            participants := s.participants.set p {q with registered := false}},
    ?_,?_,⟨rfl,rfl,rfl,rfl,rfl,rfl⟩,rfl,rfl⟩
  · rw [State.doDeregister,hsub]
    simp only [bind,Except.bind,hdis]
  · refine ⟨?_,?_,(Nat.sub_le _ _).trans h.bound,h.phase,h.history.set hq _ (.inl rfl),?_,h.panicked⟩
    · show s.registered-1 = Table.total PhaserParticipant.weight
        (s.participants.set p {q with registered := false})+s.unyielded
      omega
    · show s.unarrived-q.owes s.phase = s.unyielded+Table.total (PhaserParticipant.owes s.phase)
        (s.participants.set p {q with registered := false})
      omega
    · refine h.borrowing.set_participant hq _ fun w c hw hp hl => ?_
      rw [State.isFree_iff.mp hfree w c hw hp] at hl
      cases hl

end

end Ok

end Phaser
end Asyncband
