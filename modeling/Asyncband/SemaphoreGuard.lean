import Asyncband.SemaphoreClient

/-! The queue lock of a semaphore and the calls of its users.
The lock is held only by a call that is about to use it, and every call that has not ended
is that of a user. So a call that has not ended can go on, or the user that holds the lock
can. -/
namespace Asyncband
namespace Semaphore

variable {W : Type} {s : State W}

namespace Call

def ended : Call W → Bool
  | .finished _ | .panicked _ _ => true
  | _ => false

/-- The call stands at a point where it holds the queue lock. -/
def locked : Call W → Bool
  | .acquiredOrEnqueue _ _ _ lock => lock
  | .surplusLoad _ _ | .surplusAdd _ _ | .surplusExchange _ _ _ | .surplusContended _ _ _
  | .surplusSettled _ => true
  | _ => false

theorem not_locked_of_ended {call : Call W} (h : call.ended = true) : call.locked = false := by
  cases call <;> first | rfl | cases h

end Call

/-- The holder of the lock stands at a point where it holds the lock. -/
def Guarded (s : State W) : Prop :=
  ∀ c, s.lock = some c → ∃ call, s.calls[c]? = some call ∧ call.locked = true

theorem Guarded.free (h : Guarded s)
    (hended : ∀ (c : ℕ) call, s.calls[c]? = some call → call.ended = true) : s.lock = none := by
  cases hlock : s.lock with
  | none => rfl
  | some c =>
    obtain ⟨call,hcall,hlocked⟩ := h c hlock
    rw [Call.not_locked_of_ended (hended c call hcall)] at hlocked
    cases hlocked

/-- The call at `c` moved: it freed the lock, has it, or left alone a lock that it does
not hold. -/
def Moved (s : State W) (c : ℕ) (s' : State W) : Prop :=
  ∃ call', s'.calls = s.calls.set c call' ∧
    (s'.lock = none ∨ s'.lock = some c ∧ call'.locked = true ∨ s'.lock = s.lock ∧ s.lock ≠ some c)

section Moves

variable {s s' : State W} {c : ℕ} {call' : Call W} {spurious : Bool}

theorem Guarded.moved (h : Guarded s) (hmoved : Moved s c s')
    (hc : ∃ call, s.calls[c]? = some call) : Guarded s' := by
  obtain ⟨call,hc⟩ := hc
  obtain ⟨call',hcalls,hlock⟩ := hmoved
  intro d hd
  rcases hlock with hnone | ⟨hself,hlocked⟩ | ⟨hsame,hother⟩
  · cases hnone.symm.trans hd
  · cases hself.symm.trans hd
    refine ⟨call',?_,hlocked⟩
    rw [hcalls]
    exact Table.getElem?_set_self' hc call'
  · obtain ⟨old,hold,hlocked⟩ := h d (hsame ▸ hd)
    have hcd : c ≠ d := fun heq => hother (heq ▸ hsame ▸ hd)
    refine ⟨old,?_,hlocked⟩
    rw [hcalls,List.getElem?_set_ne hcd]
    exact hold

section

variable (hcalls : s'.calls = s.calls.set c call')
include hcalls

theorem Moved.kept (hsame : s'.lock = s.lock) (hother : s.lock ≠ some c) : Moved s c s' :=
  ⟨call',hcalls,Or.inr (Or.inr ⟨hsame,hother⟩)⟩

theorem Moved.freed (hnone : s'.lock = none) : Moved s c s' :=
  ⟨call',hcalls,Or.inl hnone⟩

theorem Moved.held (hsame : s'.lock = s.lock) (hlocked : call'.locked = true) : Moved s c s' := by
  by_cases hown : s.lock = some c
  · exact ⟨call',hcalls,Or.inr (Or.inl ⟨hsame.trans hown,hlocked⟩)⟩
  · exact .kept hcalls hsame hown

end

theorem Moved.panic (s : State W) (c : ℕ) (message : String) (r : ℕ) :
    Moved s c (s.panic c message r) := by
  by_cases hown : s.lock = some c
  · exact .freed rfl (if_pos hown)
  · exact .kept rfl (if_neg hown) hown

theorem Moved.distribute (s : State W) (c n : ℕ) : Moved s c (distribute s c n) := by
  unfold Semaphore.distribute
  split
  · exact .freed rfl (if_pos rfl)
  · next d hd =>
    simp only
    split
    · exact ⟨_,rfl,Or.inr (Or.inl ⟨rfl,rfl⟩)⟩
    · exact .freed rfl rfl

theorem Moved.notifyAll (hfree : s.lock = none) : Moved s c (notifyAll s c) := by
  unfold Semaphore.notifyAll
  split
  · exact .panic s c _ _
  · exact .freed rfl hfree

theorem Moved.pollQueued [Wake W] (hfree : s.lock = none) (f : ℕ) (a : Acquire W) (id : WaiterId)
    (waker : W) : Moved s c (pollQueued s c f a id waker) := by
  unfold Semaphore.pollQueued
  split
  · exact .panic s c _ _
  · split
    · split
      · exact .panic s c _ _
      · exact .freed rfl hfree
    · split
      · exact .panic s c _ _
      · exact .freed rfl hfree

theorem Moved.dropQueued (hfree : s.lock = none) (f : ℕ) (a : Acquire W) (id : WaiterId) :
    Moved s c (dropQueued s c f a id) := by
  unfold Semaphore.dropQueued
  split
  · exact .panic s c _ _
  · split
    · exact .panic s c _ _
    · simp only
      split
      · exact .panic s c _ _
      · split
        · exact Moved.distribute _ c _
        · exact .freed rfl hfree

theorem Moved.takeAll {requested : ℕ} {owner : Option (ℕ × W)} {lock : Bool}
    (hlock : lock = false → s.lock ≠ some c) : Moved s c (takeAll s c requested owner lock) := by
  have hmoved {lock' : Option ℕ} (heq : lock' = if lock then none else s.lock) :
      lock' = none ∨ lock' = some c ∧ False ∨ lock' = s.lock ∧ s.lock ≠ some c := by
    cases lock with
    | false => exact Or.inr (Or.inr ⟨heq,hlock rfl⟩)
    | true => exact Or.inl heq
  unfold Semaphore.takeAll
  cases owner with
  | none | some => exact ⟨_,rfl,(hmoved rfl).imp_right (Or.imp_left fun h => ⟨h.1,h.2.elim⟩)⟩

theorem Moved.begin [Wake W] {op : Op W} (hother : s.lock ≠ some c)
    (h : begin s c op = some s') : Moved s c s' := by
  cases op with
  | tryAcquire n =>
    cases h
    exact .kept rfl rfl hother
  | reducePermits n =>
    cases h
    exact .kept rfl rfl hother
  | drainPermits | releaseWithLock =>
    simp only [Semaphore.begin] at h
    split at h <;> cases h <;> exact .kept rfl rfl hother
  | release n =>
    simp only [Semaphore.begin] at h
    split at h
    · cases h
      exact .kept rfl rfl hother
    · split at h <;> cases h <;> exact .kept rfl rfl hother
  | releaseIfWaiters n =>
    simp only [Semaphore.begin] at h
    obtain ⟨hfree,h⟩ := Option.ite_none_left_eq_some.mp h
    split at h <;> cases h
    · exact .kept rfl rfl hother
    · exact Moved.distribute _ c n
  | notifyAll =>
    obtain ⟨hfree,⟨⟩⟩ := Option.ite_none_left_eq_some.mp h
    exact .notifyAll (not_not.mp hfree)
  | poll f waker =>
    simp only [Semaphore.begin] at h
    split at h
    · cases h
    · split at h
      · obtain ⟨hfree,⟨⟩⟩ := Option.ite_none_left_eq_some.mp h
        exact .pollQueued (not_not.mp hfree) f _ _ waker
      · cases h
        exact .kept rfl rfl hother
  | drop f =>
    simp only [Semaphore.begin] at h
    split at h
    · cases h
    · split at h
      · obtain ⟨hfree,⟨⟩⟩ := Option.ite_none_left_eq_some.mp h
        exact .dropQueued (not_not.mp hfree) f _ _
      · cases h
        exact .kept rfl rfl hother
      · cases h
        exact .kept rfl rfl hother

theorem Moved.takeAndEnqueue (s : State W) (c requested : ℕ) (owner : Option (ℕ × W)) :
    Moved s c (takeAndEnqueue s c requested owner) := by
  unfold Semaphore.takeAndEnqueue
  cases owner with
  | none => exact .freed rfl rfl
  | some p => exact .freed rfl rfl

theorem Guarded.advance_moved [Wake W] (h : Guarded s) (hn : Semaphore.advance s c spurious = some s') :
    Moved s c s' := by
  cases hc : s.calls[c]? with
  | none => simp [Semaphore.advance,hc] at hn
  | some call =>
    -- a call that is not at a locked point does not hold the lock
    have hother (hnot : call.locked = false) : s.lock ≠ some c := by
      intro hlock
      obtain ⟨old,hold,hlocked⟩ := h c hlock
      cases hc.symm.trans hold
      simp [hnot] at hlocked
    simp only [Semaphore.advance,hc] at hn
    cases call with
    | started op => exact .begin (hother rfl) hn
    | tryAcquire n available =>
      simp only at hn
      split at hn
      · cases hn
        exact .kept rfl rfl (hother rfl)
      · split at hn <;> cases hn <;> exact .kept rfl rfl (hother rfl)
    | drainPermits | release =>
      simp only at hn
      split at hn <;> cases hn <;> exact .kept rfl rfl (hother rfl)
    | acquiredOrEnqueue requested available owner lock =>
      simp only at hn
      split at hn
      · obtain ⟨hfree,⟨⟩⟩ := Option.ite_none_left_eq_some.mp hn
        exact ⟨_,rfl,Or.inr (Or.inl ⟨rfl,rfl⟩)⟩
      · next henough =>
        split at hn
        · cases hn
          cases lock with
          | false => exact .kept rfl rfl (hother rfl)
          | true => exact .held rfl rfl rfl
        · split at hn <;> cases hn
          · exact .takeAll fun hlock => hother hlock
          · exact .takeAndEnqueue s c requested owner
    | releaseExchange n available =>
      simp only at hn
      split at hn
      · cases hn
        exact Moved.panic _ c _ _
      · split at hn <;> cases hn <;> exact .kept rfl rfl (hother rfl)
    | releaseLock n =>
      obtain ⟨hfree,⟨⟩⟩ := Option.ite_none_left_eq_some.mp hn
      exact Moved.distribute _ c n
    | relock remaining =>
      obtain ⟨hfree,⟨⟩⟩ := Option.ite_none_left_eq_some.mp hn
      exact Moved.distribute _ c remaining
    | surplusLoad remaining batch =>
      simp only at hn
      split at hn <;> cases hn <;> exact .held rfl rfl rfl
    | surplusAdd | surplusSettled =>
      cases hn
      exact .freed rfl rfl
    | surplusExchange remaining available batch =>
      simp only at hn
      split at hn
      · cases hn
        exact Moved.panic s c _ _
      · split at hn <;> cases hn <;> exact .held rfl rfl rfl
    | surplusContended remaining actual batch =>
      cases hn
      exact .held rfl rfl rfl
    | wakeAll batch remaining =>
      cases batch with
      | cons w batch =>
        cases hn
        exact .kept rfl rfl (hother rfl)
      | nil =>
        simp only at hn
        split at hn <;> cases hn <;> exact .kept rfl rfl (hother rfl)
    | finished outcome => cases hn
    | panicked message remaining => cases hn

theorem Guarded.advance [Wake W] (h : Guarded s) (hn : Semaphore.advance s c spurious = some s') :
    Guarded s' := by
  refine h.moved (h.advance_moved hn) ?_
  cases hc : s.calls[c]? with
  | none => simp [Semaphore.advance,hc] at hn
  | some call => exact ⟨call,rfl⟩

theorem Moved.other (h : Moved s c s') {d : ℕ} (hdc : d ≠ c) : s'.calls[d]? = s.calls[d]? := by
  obtain ⟨call',hcalls,-⟩ := h
  rw [hcalls,List.getElem?_set_ne (Ne.symm hdc)]

theorem borrow_lock (s : State W) (c : ℕ) (op : Op W) :
    (borrow s c op).lock = s.lock ∧ (borrow s c op).calls = s.calls := by
  cases op <;> exact ⟨rfl,rfl⟩

theorem Guarded.next [Wake W] (h : Guarded s) {a : Action W} (hn : Semaphore.next s a = some s') :
    Guarded s' := by
  cases a with
  | acquire n =>
    obtain ⟨-,⟨⟩⟩ := Option.ite_none_right_eq_some.mp hn
    exact h
  | call op =>
    obtain ⟨-,⟨⟩⟩ := Option.ite_none_right_eq_some.mp hn
    obtain ⟨hlock,hcalls⟩ := borrow_lock s s.calls.length op
    intro c hc
    obtain ⟨call,hcall,hlocked⟩ := h c (hlock ▸ hc)
    refine ⟨call,?_,hlocked⟩
    rw [hcalls]
    exact Table.getElem?_push_old hcall _
  | advance c spurious => exact h.advance hn

end Moves

section Attended

/-- The rows of a table use the semaphore, and `of` gives the call that a row is in. -/
structure Attended {R : Type} (of : R → Option ℕ) (s : State W) (rows : List R) : Prop where
  guarded : Guarded s
  call : ∀ (c : ℕ) call, s.calls[c]? = some call → call.ended = true ∨
    ∃ (i : ℕ) (row : R), rows[i]? = some row ∧ of row = some c

namespace Attended

variable {R : Type} {of : R → Option ℕ} {s s' : State W} {rows rows' : List R} {row : R} {i c : ℕ}

theorem new (permits : ℕ) : Attended of (Semaphore.new W permits) [] where
  guarded := by rintro c ⟨⟩
  call c call hc := by simp [Semaphore.new] at hc

theorem kept_of_set (hi : rows[i]? = some row) (hrow : of row = none) (new : R) (j : ℕ) (other : R)
    (hj : rows[j]? = some other) (hother : (of other).isSome) : (rows.set i new)[j]? = some other := by
  by_cases hji : j = i
  · subst hji
    cases hi.symm.trans hj
    rw [hrow] at hother
    cases hother
  · rwa [List.getElem?_set_ne (Ne.symm hji)]

section

variable (h : Attended of s rows)
include h

theorem keep (hkept : ∀ (j : ℕ) row, rows[j]? = some row → (of row).isSome → rows'[j]? = some row) :
    Attended of s rows' := by
  refine ⟨h.guarded,fun c call hc => (h.call c call hc).imp_right ?_⟩
  rintro ⟨j,row,hj,hrow⟩
  exact ⟨j,row,hkept j row hj (by rw [hrow]; rfl),hrow⟩

theorem restage (hi : rows[i]? = some row) {new : R} (hnew : of new = of row) :
    Attended of s (rows.set i new) := by
  refine ⟨h.guarded,fun c call hc => (h.call c call hc).imp_right ?_⟩
  rintro ⟨j,other,hj,hother⟩
  by_cases hji : j = i
  · subst hji
    cases hi.symm.trans hj
    exact ⟨j,new,Table.getElem?_set_self' hi new,hnew.trans hother⟩
  · exact ⟨j,other,(List.getElem?_set_ne (Ne.symm hji)).trans hj,hother⟩

variable [Wake W]

theorem create {n : ℕ} (hsem : Semaphore.next s (.acquire n) = some s')
    (hkept : ∀ (j : ℕ) row, rows[j]? = some row → (of row).isSome → rows'[j]? = some row) :
    Attended of s' rows' := by
  obtain ⟨-,hcalls,-⟩ := create_later hsem
  refine ⟨h.guarded.next hsem,fun c call hc => ?_⟩
  exact (h.keep hkept).call c call (hcalls ▸ hc)

theorem make {op : Op W} (hsem : Semaphore.next s (.call op) = some s')
    (hown : ∃ (i : ℕ) (row : R), rows'[i]? = some row ∧ of row = some s.calls.length)
    (hkept : ∀ (j : ℕ) row, rows[j]? = some row → (of row).isSome → rows'[j]? = some row) :
    Attended of s' rows' := by
  obtain ⟨-,hcalls,-⟩ := make_later hsem
  refine ⟨h.guarded.next hsem,fun c call hc => ?_⟩
  rw [hcalls] at hc
  rcases Table.getElem?_push hc with hc | ⟨rfl,-⟩
  · exact (h.keep hkept).call c call hc
  · exact Or.inr hown

/-- A user leaves its call only when that has ended. -/
theorem advance {spurious : Bool} (hi : rows[i]? = some row) (hrow : of row = some c)
    (hsem : Semaphore.advance s c spurious = some s') (hother : ∀ j, j ≠ i → rows'[j]? = rows[j]?)
    (hown : (∃ call, s'.calls[c]? = some call ∧ call.ended = true) ∨
      ∃ row', rows'[i]? = some row' ∧ of row' = some c) : Attended of s' rows' := by
  refine ⟨h.guarded.advance hsem,fun d call hd => ?_⟩
  by_cases hdc : d = c
  · subst hdc
    rcases hown with ⟨call',hcall,hended⟩ | ⟨row',hi',hrow'⟩
    · cases hcall.symm.trans hd
      exact Or.inl hended
    · exact Or.inr ⟨i,row',hi',hrow'⟩
  · rw [(h.guarded.advance_moved hsem).other hdc] at hd
    refine (h.call d call hd).imp_right ?_
    rintro ⟨j,other,hj,hcall⟩
    have hji : j ≠ i := by
      rintro rfl
      cases hi.symm.trans hj
      exact hdc (Option.some.inj (hcall.symm.trans hrow))
    exact ⟨j,other,(hother j hji).trans hj,hcall⟩

end

end Attended

variable [Wake W] {s : State W} {c : ℕ} {call : Call W}

/-- A call waits for nothing but the lock. -/
theorem Inv.advance_enabled (hI : Inv s) (hc : s.calls[c]? = some call) (hlive : call.ended = false)
    (hlock : s.lock = none ∨ call.locked = true) : ∃ s', Semaphore.advance s c false = some s' := by
  rw [← Option.isSome_iff_exists]
  have hok := hI.calls c call hc
  simp only [Semaphore.advance,hc]
  cases call with
  | started op =>
    have hfree : s.lock = none := hlock.resolve_right Bool.false_ne_true
    cases op with
    | poll | drop =>
      obtain ⟨a,ha,-⟩ := hok
      simp only [begin,ha,hfree]
      split <;> rfl
    | _ =>
      simp only [begin,hfree]
      repeat' split
      all_goals first | rfl | contradiction
  | acquiredOrEnqueue requested available owner lock =>
    rcases hlock with hfree | hlocked
    · simp only [hfree]
      repeat' split
      all_goals first | rfl | contradiction
    · cases hlocked
      simp only
      repeat' split
      all_goals first | rfl | simp_all
  | releaseLock | relock => simp [hlock.resolve_right Bool.false_ne_true]
  | wakeAll batch remaining => cases batch <;> (simp only; repeat' split) <;> rfl
  | finished outcome => cases hlive
  | panicked message remaining => cases hlive
  | _ =>
    simp only
    repeat' split
    all_goals rfl

/-- The user of a call that has not ended can go on, or the one that holds the lock can. -/
theorem Attended.proceeds {R : Type} {of : R → Option ℕ} {rows : List R} {row : R} {i : ℕ}
    (h : Attended of s rows) (hI : Inv s) (hi : rows[i]? = some row) (hrow : of row = some c)
    (hc : s.calls[c]? = some call) (hlive : call.ended = false) :
    ∃ (j : ℕ) (other : R) (d : ℕ), rows[j]? = some other ∧ of other = some d ∧
      (j = i ∨ s.lock = some d) ∧ ∃ s', Semaphore.advance s d false = some s' := by
  cases hlock : s.lock with
  | none => exact ⟨i,row,c,hi,hrow,Or.inl rfl,hI.advance_enabled hc hlive (Or.inl hlock)⟩
  | some d =>
    obtain ⟨holder,hd,hlocked⟩ := h.guarded d hlock
    have hrunning : holder.ended = false := by
      rw [← Bool.not_eq_true]
      intro hended
      rw [Call.not_locked_of_ended hended] at hlocked
      cases hlocked
    obtain ⟨j,other,hj,hother⟩ := (h.call d holder hd).resolve_left (by simp [hrunning])
    exact ⟨j,other,d,hj,hother,Or.inr rfl,hI.advance_enabled hd hrunning (Or.inr hlocked)⟩

end Attended
end Semaphore
end Asyncband
