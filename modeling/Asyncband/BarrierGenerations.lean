import Asyncband.Barrier
import Asyncband.Custody

/-! Generations of a barrier.
Every arrival gets the next number, and the numbers determine everything: call `k` belongs
to generation `k/n`, and it leads exactly if `n` divides `k+1`. A token counts only while
its generation is the current one; the wakers of the current generation are the occupied
slots. -/
namespace Asyncband
namespace Barrier

variable {W : Type} {n : ℕ}

/-- What the stage says about a call with arrival number `k` among `arrivals` ones. -/
def Stage.Fits (n arrivals k : ℕ) : Stage → Prop
  | .unpolled => False
  | .entering g => g = k/n ∧ (k+1)%n ≠ 0
  | .waiting _ g => g = k/n ∧ (k+1)%n ≠ 0
  | .done leader => (leader = true ↔ (k+1)%n = 0) ∧ (k/n+1)*n ≤ arrivals
  | .cancelled => (k+1)%n ≠ 0

def Stage.Pending : Stage → Prop
  | .unpolled => True
  | .cancelled => True
  | _ => False

def Wait.Sound (n arrivals : ℕ) (c : Wait W) : Prop :=
  match c.arrival with
  | some k => c.stage.Fits n arrivals k
  | none => c.stage.Pending

structure Ok [Wake W] (s : State W) : Prop where
  pos : 0 < s.n
  n_le : s.n ≤ u32Max
  arrived_lt : s.arrived < s.n
  counts : s.arrivals = s.generation*s.n+s.arrived
  generation_le : s.generation ≤ usizeMax
  numbered : Custody (Table.lookup Wait.arrival s.waits) none s.arrivals []
  rows : ∀ (f : ℕ) c, s.waits[f]? = some c → c.Sound s.n s.arrivals
  enrolled : Enrolled s.waiters (Table.lookup (Wait.token s.generation) s.waits)
    (Table.lookup Wait.lastWaker s.waits)
  sound : s.generation < usizeMax → s.panicked = none

theorem Stage.Fits.mono {arrivals arrivals' k : ℕ} {stage : Stage} (h : stage.Fits n arrivals k)
    (hle : arrivals ≤ arrivals') : stage.Fits n arrivals' k := by
  cases stage with
  | done leader => exact ⟨h.1,h.2.trans hle⟩
  | _ => exact h

namespace Ok

variable [Wake W] {s t : State W} {f : ℕ} {c : Wait W}
variable {token : SlotId} {g : ℕ} {c' : Wait W} {waker : W} {x : Except String (State W)}
    {a : Action W}

theorem new {n : ℕ} (hn : n ≤ u32Max) : Ok (new W n) where
  pos := by
    show 0 < if n > 0 then n else 1
    split <;> omega
  n_le := by
    show (if n > 0 then n else 1) ≤ u32Max
    split
    · exact hn
    · decide
  arrived_lt := by
    show 0 < if n > 0 then n else 1
    split <;> omega
  counts := by simp [Barrier.new]
  generation_le := Nat.zero_le _
  numbered := Custody.empty
  rows f c hc := by cases hc
  enrolled := Enrolled.of_empty (fun _ => rfl) _
  sound _ := rfl

section

variable (h : Ok s)
include h

theorem generation_eq : s.arrivals/s.n = s.generation := by
  rw [h.counts,Nat.mul_comm,Nat.mul_add_div h.pos,Nat.div_eq_of_lt h.arrived_lt,Nat.add_zero]

theorem arrived_eq : s.arrivals%s.n = s.arrived := by
  rw [h.counts,Nat.mul_comm,Nat.mul_add_mod,Nat.mod_eq_of_lt h.arrived_lt]

theorem arrival (hf : s.waits[f]? = some c) (hc : ¬ c.stage.Pending) :
    ∃ k, c.arrival = some k ∧ k < s.arrivals ∧ k/s.n ≤ s.generation ∧
      c.stage.Fits s.n s.arrivals k := by
  have hrow := h.rows f c hf
  rw [Wait.Sound] at hrow
  cases hk : c.arrival with
  | none =>
    rw [hk] at hrow
    exact absurd hrow hc
  | some k =>
    rw [hk] at hrow
    have hlt := (h.numbered.held f k ((Table.lookup_eq hf).trans hk)).1
    refine ⟨k,rfl,hlt,?_,hrow⟩
    rw [← h.generation_eq]
    exact Nat.div_le_div_right hlt.le

theorem waiting_le (hf : s.waits[f]? = some c) (hc : c.stage = .waiting token g) :
    g ≤ s.generation := by
  obtain ⟨k,-,-,hle,hfits⟩ := h.arrival hf (by rw [hc]; exact id)
  rw [hc] at hfits
  exact hfits.1 ▸ hle

theorem push : Ok {s with waits := s.waits++[⟨.unpolled,none,none⟩]} := by
  refine ⟨h.pos,h.n_le,h.arrived_lt,h.counts,h.generation_le,?_,?_,?_,h.sound⟩
  · show Custody (Table.lookup Wait.arrival (s.waits++[_])) none s.arrivals []
    rw [Table.lookup_push _ rfl]
    exact h.numbered
  · exact Table.forall_push h.rows trivial
  · show Enrolled s.waiters (Table.lookup (Wait.token s.generation) (s.waits++[_]))
      (Table.lookup Wait.lastWaker (s.waits++[_]))
    rw [Table.lookup_push _ rfl,Table.lookup_push _ rfl]
    exact h.enrolled

theorem setWait (hf : s.waits[f]? = some c) {waiters : WakerSet W} (harrival : c'.arrival = c.arrival)
    (hrow : c'.Sound s.n s.arrivals) (henrolled : Enrolled waiters
      (Function.update (Table.lookup (Wait.token s.generation) s.waits) f (c'.token s.generation))
      (Function.update (Table.lookup Wait.lastWaker s.waits) f c'.lastWaker)) :
    Ok {s.setWait f c' with waiters := waiters} := by
  refine ⟨h.pos,h.n_le,h.arrived_lt,h.counts,h.generation_le,?_,?_,?_,h.sound⟩
  · show Custody (Table.lookup Wait.arrival (s.waits.set f c')) none s.arrivals []
    rw [Table.lookup_set_same hf harrival]
    exact h.numbered
  · exact Table.forall_set h.rows hrow
  · show Enrolled waiters (Table.lookup (Wait.token s.generation) (s.waits.set f c'))
      (Table.lookup Wait.lastWaker (s.waits.set f c'))
    rw [Table.lookup_set _ hf,Table.lookup_set _ hf]
    exact henrolled

theorem restage (hf : s.waits[f]? = some c) (harrival : c'.arrival = c.arrival)
    (hlast : c'.lastWaker = c.lastWaker) (hrow : c'.Sound s.n s.arrivals)
    (htoken : c'.token s.generation = c.token s.generation) : Ok (s.setWait f c') := by
  refine h.setWait hf harrival hrow ?_
  rw [Table.update_lookup _ hf _ htoken,Table.update_lookup _ hf _ hlast]
  exact h.enrolled

theorem numbered_set (hf : s.waits[f]? = some c) (hc : c.arrival = none)
    (hc' : c'.arrival = some s.arrivals) :
    Custody (Table.lookup Wait.arrival (s.waits.set f c')) none (s.arrivals+1) [] := by
  rw [Table.lookup_set _ hf,hc']
  exact h.numbered.issue.place ((Table.lookup_eq hf).trans hc)

theorem rows_set (hrow : c'.Sound s.n (s.arrivals+1)) :
    ∀ (g : ℕ) d, (s.waits.set f c')[g]? = some d → d.Sound s.n (s.arrivals+1) := by
  intro g d hd
  rcases Table.getElem?_set_cases hd with ⟨-,rfl⟩ | ⟨-,hd⟩
  · exact hrow
  · have hold := h.rows g d hd
    rw [Wait.Sound] at hold ⊢
    split at hold
    · exact hold.mono (Nat.le_succ _)
    · exact hold

theorem token_next (hf : s.waits[f]? = some c) (hc' : c'.token (s.generation+1) = none) :
    Table.lookup (Wait.token (s.generation+1)) (s.waits.set f c') = fun _ => none := by
  rw [Table.lookup_set _ hf,hc']
  funext g
  by_cases hgf : g = f
  · rw [hgf,Function.update_self]
  · rw [Function.update_of_ne hgf,Table.lookup]
    cases hd : s.waits[g]? with
    | none => rfl
    | some d =>
      show d.token (s.generation+1) = none
      rw [Wait.token]
      split
      · next token g' hstage => exact if_neg (Nat.ne_of_lt (Nat.lt_succ_of_le (h.waiting_le hd hstage)))
      · rfl

theorem mem_wakeAll : waker ∈ s.waiters.wakeAll ↔
    ∃ (f : ℕ) (c : Wait W) (token : SlotId), s.waits[f]? = some c ∧
      c.stage = .waiting token s.generation ∧ s.waiters.wakers.get? token = some waker := by
  rw [h.enrolled.mem_wakeAll]
  constructor
  · rintro ⟨f,token,hf,hget⟩
    obtain ⟨c,hc,htoken⟩ := Option.bind_eq_some_iff.mp hf
    refine ⟨f,c,token,hc,?_,hget⟩
    rw [Wait.token] at htoken
    split at htoken
    · next token' g hstage =>
      obtain ⟨rfl,⟨⟩⟩ := Option.ite_none_right_eq_some.mp htoken
      exact hstage
    · cases htoken
  · rintro ⟨f,c,token,hc,hstage,hget⟩
    refine ⟨f,token,?_,hget⟩
    rw [Table.lookup_eq hc,Wait.token,hstage]
    exact if_pos rfl

end

/-- What an arrival does to its own call and to the others. -/
structure Arrived (s : State W) (f : ℕ) (t : State W) : Prop where
  arrivals : t.arrivals = s.arrivals+1
  others : ∀ g, g ≠ f → t.waits[g]? = s.waits[g]?
  leads : (s.arrivals+1)%s.n = 0 → (∃ c, t.waits[f]? = some c ∧ c.arrival = some s.arrivals ∧
    c.stage = .done true) ∧ t.woken = s.woken++s.waiters.wakeAll ∧ t.generation = s.generation+1
  follows : (s.arrivals+1)%s.n ≠ 0 → (∃ c, t.waits[f]? = some c ∧ c.arrival = some s.arrivals ∧
    c.stage = .entering s.generation) ∧ t.woken = s.woken ∧ t.generation = s.generation ∧
      t.waiters = s.waiters

theorem arrive (h : Ok s) {last : Option W} (hf : s.waits[f]? = some ⟨.unpolled,none,last⟩) :
    (∃ t, s.arrive f ⟨.unpolled,none,last⟩ = .ok t ∧ Ok t ∧ t.n = s.n ∧ Arrived s f t) ∨
      s.generation = usizeMax ∧ ∃ message, s.arrive f ⟨.unpolled,none,last⟩ = .error message := by
  have hlt := h.arrived_lt
  have hcounts := h.counts
  have harrived : Checked.add u32Max s.arrived 1 = .ok (s.arrived+1) :=
    Checked.add_ok ((Nat.succ_le_of_lt hlt).trans h.n_le)
  by_cases hlast : s.arrived+1 = s.n
  · -- the generation is complete
    have hmod : (s.arrivals+1)%s.n = 0 := by
      rw [hcounts,Nat.add_assoc,hlast,← Nat.succ_mul,Nat.mul_mod_left]
    by_cases hover : s.generation+1 ≤ usizeMax
    · refine Or.inl ⟨{s.setWait f ⟨.done true,some s.arrivals,last⟩ with
        arrived := 0,generation := s.generation+1,waiters := s.waiters.takeAll.2,
        woken := s.woken++s.waiters.takeAll.1,arrivals := s.arrivals+1},?_,?_,rfl,?_⟩
      · simp only [State.arrive,harrived,hlast,if_true,Checked.add_ok hover,bind,Except.bind,
          Nat.add_sub_cancel,State.setWait]
      · refine ⟨h.pos,h.n_le,h.pos,?_,hover,h.numbered_set hf rfl rfl,h.rows_set ?_,?_,fun hg => ?_⟩
        · show s.arrivals+1 = (s.generation+1)*s.n+0
          rw [Nat.succ_mul]
          omega
        · refine ⟨iff_of_true rfl hmod,?_⟩
          rw [h.generation_eq,Nat.succ_mul]
          omega
        · show Enrolled s.waiters.takeAll.2 (Table.lookup (Wait.token (s.generation+1)) (s.waits.set f _)) _
          rw [h.token_next hf rfl]
          exact Enrolled.takeAll _ _
        · have hg' : s.generation+1 < usizeMax := hg
          exact h.sound (by omega)
      · refine ⟨rfl,fun g hg => List.getElem?_set_ne (Ne.symm hg),fun _ => ⟨⟨_,
          Table.getElem?_set_self' hf _,rfl,rfl⟩,?_,rfl⟩,fun hne => absurd hmod hne⟩
        rw [← s.waiters.takeAll_eq]
    · refine Or.inr ⟨?_,"attempt to add with overflow",?_⟩
      · exact Nat.le_antisymm h.generation_le (by omega)
      · simp only [State.arrive,harrived,hlast,if_true,Checked.add_overflow hover,bind,Except.bind]
  · have hmod : (s.arrivals+1)%s.n ≠ 0 := by
      rw [hcounts,Nat.add_assoc,Nat.mul_comm,Nat.mul_add_mod,Nat.mod_eq_of_lt (by omega)]
      exact Nat.succ_ne_zero _
    refine Or.inl ⟨{s.setWait f ⟨.entering s.generation,some s.arrivals,last⟩ with
      arrived := s.arrived+1,arrivals := s.arrivals+1},?_,?_,rfl,?_⟩
    · simp only [State.arrive,harrived,hlast,if_false,bind,Except.bind,Nat.add_sub_cancel,State.setWait]
    · refine ⟨h.pos,h.n_le,?_,?_,h.generation_le,h.numbered_set hf rfl rfl,h.rows_set ?_,?_,h.sound⟩
      · show s.arrived+1 < s.n
        omega
      · show s.arrivals+1 = s.generation*s.n+(s.arrived+1)
        omega
      · exact ⟨h.generation_eq.symm,hmod⟩
      · refine h.enrolled.congr (Table.lookup_set_same hf rfl) fun p id _ => ?_
        exact congrFun (Table.lookup_set_same hf (by rfl)) p
    · exact ⟨rfl,fun g hg => List.getElem?_set_ne (Ne.symm hg),fun hz => absurd hz hmod,
        fun _ => ⟨⟨_,Table.getElem?_set_self' hf _,rfl,rfl⟩,rfl,rfl,rfl⟩⟩

/-- What a poll of a call with arrival number `k` does. -/
structure Polled (s : State W) (f k : ℕ) (t : State W) : Prop where
  arrivals : t.arrivals = s.arrivals
  woken : t.woken = s.woken
  others : ∀ g, g ≠ f → t.waits[g]? = s.waits[g]?
  ready : (k/s.n+1)*s.n ≤ s.arrivals → t.waiters = s.waiters ∧
    ∃ c, t.waits[f]? = some c ∧ c.stage = .done false
  pending : s.arrivals < (k/s.n+1)*s.n → ∃ c token, t.waits[f]? = some c ∧
    c.stage = .waiting token s.generation

section

variable (h : Ok s) (hf : s.waits[f]? = some c)
include h hf

/-- A call of an older generation returns; one of the current generation registers. -/
theorem pollWait {token : Option SlotId}
    (hstage : c.stage = .entering g ∧ token = none ∨ ∃ id, c.stage = .waiting id g ∧ token = some id)
    (waker : W) :
    ∃ k t, c.arrival = some k ∧ s.pollWait f c token g waker = .ok t ∧ Ok t ∧ t.n = s.n ∧
      t.generation = s.generation ∧ Polled s f k t := by
  have hpending : ¬ c.stage.Pending := by
    rcases hstage with ⟨hc,-⟩ | ⟨id,hc,-⟩ <;> rw [hc] <;> exact fun h => h
  obtain ⟨k,hk,hlt,hle,hfits⟩ := h.arrival hf hpending
  have hg : g = k/s.n ∧ (k+1)%s.n ≠ 0 := by
    rcases hstage with ⟨hc,-⟩ | ⟨id,hc,-⟩ <;> rwa [hc] at hfits
  have hcounts := h.counts
  have harrived := h.arrived_lt
  by_cases hold : g < s.generation
  · have hover : (k/s.n+1)*s.n ≤ s.arrivals := by
      rw [← hg.1,hcounts]
      exact (Nat.mul_le_mul_right s.n hold).trans (Nat.le_add_right _ _)
    refine ⟨k,s.setWait f {c with stage := .done false},hk,?_,h.restage hf rfl rfl ?_ ?_,rfl,rfl,
      ⟨rfl,rfl,fun q hq => List.getElem?_set_ne (Ne.symm hq),
        fun _ => ⟨rfl,_,Table.getElem?_set_self' hf _,rfl⟩,fun hn => absurd hover (Nat.not_le_of_lt hn)⟩⟩
    · rw [State.pollWait,if_pos hold]
    · rw [Wait.Sound,hk]
      exact ⟨iff_of_false (by simp) hg.2,hover⟩
    · rcases hstage with ⟨hc,-⟩ | ⟨id,hc,-⟩
      · simp only [Wait.token,hc]
      · simp only [Wait.token,hc,if_neg (Nat.ne_of_lt hold)]
  · have hnow : g = s.generation := Nat.le_antisymm (hg.1 ▸ hle) (Nat.le_of_not_lt hold)
    have hnot : s.arrivals < (k/s.n+1)*s.n := by
      rw [← hg.1,hnow,hcounts,Nat.succ_mul]
      omega
    have htoken : Table.lookup (Wait.token s.generation) s.waits f = token := by
      rw [Table.lookup_eq hf,Wait.token]
      rcases hstage with ⟨hc,rfl⟩ | ⟨id,hc,rfl⟩
      · rw [hc]
      · rw [hc]
        exact if_pos hnow
    obtain ⟨id,w,hreg,henrolled⟩ := h.enrolled.register f waker
    rw [htoken] at hreg
    refine ⟨k,{s.setWait f {c with stage := .waiting id g,lastWaker := some waker} with waiters := w},
      hk,?_,h.setWait hf rfl ?_ ?_,rfl,rfl,⟨rfl,rfl,fun q hq => List.getElem?_set_ne (Ne.symm hq),
        fun hn => absurd hn (Nat.not_le_of_lt hnot),
        fun _ => ⟨_,id,Table.getElem?_set_self' hf _,by rw [hnow]⟩⟩⟩
    · simp only [State.pollWait,if_neg hold,hreg,bind,Except.bind]
    · rw [Wait.Sound,hk]
      exact hg
    · simp only [Wait.token,if_pos hnow]
      exact henrolled

theorem dropWait {id : SlotId} (hc : c.stage = .waiting id g) :
    ∃ t, s.dropWait f c id g = .ok t ∧ Ok t ∧ t.n = s.n ∧ t.arrivals = s.arrivals ∧
      t.generation = s.generation ∧ t.woken = s.woken ∧ (g < s.generation → t.waiters = s.waiters) ∧
      (g = s.generation →
        t.waiters.wakers.get? = Function.update s.waiters.wakers.get? id none) := by
  obtain ⟨k,hk,-,-,hfits⟩ := h.arrival hf (by rw [hc]; exact fun h => h)
  rw [hc] at hfits
  have hrow : (⟨.cancelled,c.arrival,c.lastWaker⟩ : Wait W).Sound s.n s.arrivals := by
    rw [Wait.Sound,hk]
    exact hfits.2
  by_cases hg : g = s.generation
  · have htoken : Table.lookup (Wait.token s.generation) s.waits f = some id := by
      rw [Table.lookup_eq hf,Wait.token,hc]
      exact if_pos hg
    obtain ⟨w,hun,hget,henrolled⟩ := h.enrolled.unregister htoken
    refine ⟨{s.setWait f {c with stage := .cancelled} with waiters := w},?_,
      h.setWait hf rfl hrow ?_,rfl,rfl,rfl,rfl,fun hlt => absurd hg (Nat.ne_of_lt hlt),fun _ => hget⟩
    · simp only [State.dropWait,State.setWait,ne_eq,hg,not_true_eq_false,if_false,hun,bind,Except.bind]
    · rw [Table.update_lookup Wait.lastWaker hf _ rfl]
      exact henrolled
  · refine ⟨s.setWait f {c with stage := .cancelled},?_,h.restage hf rfl rfl hrow ?_,rfl,rfl,rfl,rfl,
      fun _ => rfl,fun heq => absurd heq hg⟩
    · simp only [State.dropWait,State.setWait,ne_eq,hg,not_false_eq_true,if_true]
    · simp only [Wait.token,hc,if_neg hg]

theorem poll (hx : s.poll f c waker = some x) :
    (∃ t, x = .ok t ∧ Ok t ∧ t.n = s.n ∧
      (c.stage = .unpolled ∧ Arrived s f t ∨ ∃ k, c.arrival = some k ∧ Polled s f k t)) ∨
      s.generation = usizeMax ∧ ∃ message, x = .error message := by
  unfold State.poll at hx
  split at hx
  · next hstage =>
    cases hx
    obtain ⟨stage,arrival,last⟩ := c
    obtain rfl : stage = _ := hstage
    have hnone : arrival = none := by
      have hrow := h.rows f _ hf
      cases arrival with
      | none => rfl
      | some k => exact absurd hrow fun h => h
    subst hnone
    rcases h.arrive hf with ⟨t,ht,hok,hn,harrived⟩ | herror
    · exact Or.inl ⟨t,ht,hok,hn,Or.inl ⟨rfl,harrived⟩⟩
    · exact Or.inr herror
  · next g hstage =>
    cases hx
    obtain ⟨k,t,hk,ht,hok,hn,-,hpolled⟩ := h.pollWait hf (Or.inl ⟨hstage,rfl⟩) waker
    exact Or.inl ⟨t,ht,hok,hn,Or.inr ⟨k,hk,hpolled⟩⟩
  · next token g hstage =>
    cases hx
    obtain ⟨k,t,hk,ht,hok,hn,-,hpolled⟩ := h.pollWait hf (Or.inr ⟨token,hstage,rfl⟩) waker
    exact Or.inl ⟨t,ht,hok,hn,Or.inr ⟨k,hk,hpolled⟩⟩
  · cases hx

theorem drop (hx : s.drop f c = some x) : ∃ t, x = .ok t ∧ Ok t ∧ t.n = s.n := by
  unfold State.drop at hx
  split at hx
  · next hstage =>
    cases hx
    have hnone : c.arrival = none := by
      have hrow := h.rows f c hf
      rw [Wait.Sound] at hrow
      cases hk : c.arrival with
      | none => rfl
      | some k =>
        rw [hk,hstage] at hrow
        exact absurd hrow fun h => h
    refine ⟨_,rfl,h.restage hf rfl rfl ?_ ?_,rfl⟩
    · rw [Wait.Sound,hnone]
      trivial
    · simp only [Wait.token,hstage]
  · next token g hstage =>
    cases hx
    obtain ⟨t,ht,hok,hn,-⟩ := h.dropWait hf hstage
    exact ⟨t,ht,hok,hn⟩
  · cases hx

end

theorem act (h : Ok s) (hx : s.act a = some x) :
    (∃ t, x = .ok t ∧ Ok t ∧ t.n = s.n) ∨ s.generation = usizeMax ∧ ∃ message, x = .error message := by
  cases a with
  | wait =>
    cases hx
    exact Or.inl ⟨_,rfl,h.push,rfl⟩
  | poll f waker =>
    obtain ⟨c,hf,hx⟩ := Option.bind_eq_some_iff.mp hx
    rcases h.poll hf hx with ⟨t,ht,hok,hn,-⟩ | herror
    · exact Or.inl ⟨t,ht,hok,hn⟩
    · exact Or.inr herror
  | drop f =>
    obtain ⟨c,hf,hx⟩ := Option.bind_eq_some_iff.mp hx
    exact Or.inl (h.drop hf hx)

theorem next (h : Ok s) (hn : s.next a = some t) :
    Ok t ∧ t.n = s.n ∧ (s.act a = some (.ok t) ∨ t.generation = usizeMax) := by
  obtain ⟨-,x,hx,rfl⟩ := Transition.step_eq_some hn
  rcases h.act hx with ⟨t,rfl,hok,hsize⟩ | ⟨hmax,message,rfl⟩
  · exact ⟨hok,hsize,Or.inl hx⟩
  · refine ⟨{h with sound := fun hlt => ?_},rfl,Or.inr hmax⟩
    exact absurd hmax (Nat.ne_of_lt hlt)

theorem next_poll (h : Ok s) (hf : s.waits[f]? = some c) (hn : s.next (.poll f waker) = some t)
    (hlt : t.generation < usizeMax) :
    c.stage = .unpolled ∧ Arrived s f t ∨ ∃ k, c.arrival = some k ∧ Polled s f k t := by
  rcases (h.next hn).2.2 with hact | hmax
  · rw [State.act,hf] at hact
    rcases h.poll hf hact with ⟨u,⟨⟩,-,-,hcases⟩ | ⟨-,message,⟨⟩⟩
    exact hcases
  · exact absurd hmax (Nat.ne_of_lt hlt)

theorem stale (hf : s.waits[f]? = some c) (hc : c.stage = .waiting token g) (hg : g < s.generation)
    (hs : s.panicked = none) :
    (∃ t, s.next (.drop f) = some t ∧ t.waiters = s.waiters ∧ t.panicked = none) ∧
      ∀ waker, ∃ t, s.next (.poll f waker) = some t ∧ t.waiters = s.waiters ∧ t.panicked = none := by
  refine ⟨⟨s.setWait f {c with stage := .cancelled},Transition.step_of_act hs ?_,rfl,hs⟩,
    fun waker => ⟨s.setWait f {c with stage := .done false},Transition.step_of_act hs ?_,rfl,hs⟩⟩
  · simp only [State.act,hf,Option.bind_some,State.drop,hc,State.dropWait,State.setWait,ne_eq,
      Nat.ne_of_lt hg,not_false_eq_true,if_true]
  · simp only [State.act,hf,Option.bind_some,State.poll,hc,State.pollWait,if_pos hg]

end Ok

theorem reachable_ok [Wake W] {s : State W} (h : (machine W n).Reachable s) :
    Ok s ∧ s.n = if n > 0 then n else 1 := by
  refine (machine W n).invariant (fun s => Ok s ∧ s.n = if n > 0 then n else 1) ?_ ?_ h
  · rintro s ⟨hn,rfl⟩
    exact ⟨Ok.new hn,rfl⟩
  · rintro s a t ⟨hok,hsize⟩ hn
    obtain ⟨hokt,hsame,-⟩ := hok.next hn
    exact ⟨hokt,hsame.trans hsize⟩

structure State.Contract [Wake W] (n : ℕ) (s : State W) : Prop where
  size : s.n = if n > 0 then n else 1
  arrived_lt : s.arrived < s.n
  current : s.generation = s.arrivals/s.n ∧ s.arrived = s.arrivals%s.n
  numbered : ∀ k < s.arrivals, ∃! f, Table.lookup Wait.arrival s.waits f = some k
  member : ∀ (f : ℕ) c k, s.waits[f]? = some c → c.arrival = some k →
    k < s.arrivals ∧ c.stage.Fits s.n s.arrivals k
  absent : ∀ (f : ℕ) c, s.waits[f]? = some c → c.arrival = none → c.stage.Pending
  arrives : ∀ f c waker t, s.waits[f]? = some c → c.stage = .unpolled →
    s.next (.poll f waker) = some t → t.generation < usizeMax → Ok.Arrived s f t
  polls : ∀ f c k waker t, s.waits[f]? = some c → c.arrival = some k →
    s.next (.poll f waker) = some t → t.generation < usizeMax → Ok.Polled s f k t
  registered : ∀ (f : ℕ) c token, s.waits[f]? = some c → c.stage = .waiting token s.generation →
    ∃ waker, s.waiters.wakers.get? token = some waker ∧ Reaches waker c.lastWaker
  takes : ∀ waker, waker ∈ s.waiters.wakeAll ↔
    ∃ (f : ℕ) (c : Wait W) (token : SlotId), s.waits[f]? = some c ∧
      c.stage = .waiting token s.generation ∧ s.waiters.wakers.get? token = some waker
  stale : ∀ f c token g, s.waits[f]? = some c → c.stage = .waiting token g → g < s.generation →
    s.panicked = none → (∃ t, s.next (.drop f) = some t ∧ t.waiters = s.waiters ∧ t.panicked = none) ∧
      ∀ waker, ∃ t, s.next (.poll f waker) = some t ∧ t.waiters = s.waiters ∧ t.panicked = none
  sound : s.generation < usizeMax → s.panicked = none

theorem barrier_generations (W : Type) [Wake W] (n : ℕ) (s : State W)
    (h : (machine W n).Reachable s) : s.Contract n := by
  obtain ⟨hok,hsize⟩ := reachable_ok h
  refine ⟨hsize,hok.arrived_lt,⟨hok.generation_eq.symm,hok.arrived_eq.symm⟩,fun k hk => ?_,
    fun f c k hf hk => ?_,fun f c hf hk => ?_,fun f c waker t hf hc hn hlt => ?_,
    fun f c k waker t hf hk hn hlt => ?_,fun f c token hf hc => ?_,fun waker => hok.mem_wakeAll,
    fun f c token g hf hc hg hs => Ok.stale hf hc hg hs,hok.sound⟩
  · rcases hok.numbered.place_unique hk with ⟨hunique,-⟩ | ⟨hended,-⟩
    · exact hunique
    · cases hended
  · have hrow := hok.rows f c hf
    rw [Wait.Sound,hk] at hrow
    exact ⟨(hok.numbered.held f k ((Table.lookup_eq hf).trans hk)).1,hrow⟩
  · have hrow := hok.rows f c hf
    rwa [Wait.Sound,hk] at hrow
  · rcases hok.next_poll hf hn hlt with ⟨-,harrived⟩ | ⟨k,hk,-⟩
    · exact harrived
    · have hrow := hok.rows f c hf
      rw [Wait.Sound,hk,hc] at hrow
      exact absurd hrow fun h => h
  · rcases hok.next_poll hf hn hlt with ⟨hc,-⟩ | ⟨k',hk',hpolled⟩
    · have hrow := hok.rows f c hf
      rw [Wait.Sound,hk,hc] at hrow
      exact absurd hrow fun h => h
    · cases hk.symm.trans hk'
      exact hpolled
  · have htoken : Table.lookup (Wait.token s.generation) s.waits f = some token := by
      rw [Table.lookup_eq hf,Wait.token,hc]
      exact if_pos rfl
    obtain ⟨waker,hget,hreach⟩ := hok.enrolled.held f token htoken
    rw [Table.lookup_eq hf] at hreach
    exact ⟨waker,hget,hreach⟩

/-- Two participants: the second arrival leads and wakes the first, whose call returns;
a third call arrives in the next generation and reuses the slot of the first, which
another call of the old generation then leaves alone. -/
def rendezvousRun : List (Action ℕ) :=
  [.wait,.wait,.wait,.poll 0 7,.poll 0 7,.poll 1 8,.poll 2 9,.poll 2 9,.poll 0 7]

theorem barrier_generations_rendezvousRun :
    ∃ s, (machine ℕ 2).exec (new ℕ 2) rendezvousRun = some s ∧ s.Contract 2 ∧
      s.generation = 1 ∧ s.woken = [7] ∧
      s.waits.map (fun c => c.stage) = [.done false,.done true,.waiting 0 1] := by
  have hrun : ((machine ℕ 2).exec (new ℕ 2) rendezvousRun).map (fun s => (s.generation,s.woken,
      s.waits.map fun c => c.stage)) = some (1,[7],[.done false,.done true,.waiting 0 1]) := by
    decide +kernel
  obtain ⟨s,hs,hend⟩ := Option.map_eq_some_iff.mp hrun
  simp only [Prod.mk.injEq] at hend
  exact ⟨s,hs,barrier_generations ℕ 2 s ((machine ℕ 2).reachable_of_exec ⟨by decide,rfl⟩ hs),hend⟩

end Barrier
end Asyncband
