import Asyncband.SemaphoreTurns

/-! How the only permit of a semaphore goes from task to task.
At any time the permit is available, assigned, held, or on its way back. A task that gives it
back has a bounded number of steps ahead, and behind them the permit is available or
assigned to the task that has waited longest. `Handover` states this for every machine whose
tasks take turns. -/
namespace Asyncband
namespace Turns

open Semaphore (Queued)

variable {P W : Type}

def Phase.returning : Phase → Bool
  | .cancelling _ | .releasing => true
  | _ => false

/-- The steps that a task on its way back has ahead. -/
def Task.ahead (semaphore : Semaphore.State W) (task : Task P) : ℕ :=
  (task.call.bind fun c => semaphore.calls[c]?).elim 0 Semaphore.Call.ahead

/-- The permit is available, and nobody is queued for it. -/
def Free (s : State P W) : Prop :=
  s.semaphore.available = 1 ∧ ∀ f, ¬Queued s.semaphore f

/-- The permit is assigned to the future of a task, and of all queued futures that one has been
queued longest. -/
def Oldest (s : State P W) : Prop :=
  ∃ (i : ℕ) (task : Task P) (f : ℕ) (a : Semaphore.Acquire W), s.tasks[i]? = some task ∧
    task.phase.future? = some f ∧ s.semaphore.acquires[f]? = some a ∧
    a.assigned s.semaphore.waiters = 1 ∧
    ∀ g, Queued s.semaphore g → g ≠ f → List.Sublist [f,g] s.semaphore.enqueued

inductive Located (s : State P W) : Prop
  | free (h : Free s)
  | assigned (h : Oldest s)
  | held {i : ℕ} {task : Task P} (hi : s.tasks[i]? = some task) (hphase : task.phase = .holding)
  | returning {i : ℕ} {task : Task P} (hi : s.tasks[i]? = some task)
      (hphase : task.phase.returning = true) (hflight : task.inFlight s.semaphore = 1)

/-- The task has the permit in its call, or it cancels the future to which the permit is
assigned. -/
def Task.Bears (semaphore : Semaphore.State W) (task : Task P) : Prop :=
  task.inFlight semaphore = 1 ∨ ∃ f a, task.phase = .cancelling f ∧
    semaphore.acquires[f]? = some a ∧ a.assigned semaphore.waiters = 1

/-- What one step of a task on its way back does. -/
structure Returned (s : State P W) (i : ℕ) (task : Task P) (t : State P W) (task' : Task P) : Prop where
  tasks : t.tasks = s.tasks.set i task'
  payload : task'.payload = task.payload
  nearer : task'.phase = .outside ∧ task'.call = none ∨ task'.phase = task.phase ∧
    task'.ahead t.semaphore < task.ahead s.semaphore
  /-- The permit stays with the task or is handed on. -/
  permit : task.Bears s.semaphore → task'.inFlight t.semaphore = 1 ∨ Free t ∨ Oldest t

/-- The permit in a machine whose states contain `turns`. `leave` is the label with which a task
drops the permit, `cancel` the one with which it drops its future, and with `advance` its call
of the semaphore takes a step. -/
structure Handover {σ α : Type} (next : σ → α → Option σ) (turns : σ → State P W) (place : P → Place)
    (poll : ℕ → W → α) (leave cancel : ℕ → α) (advance : ℕ → Bool → α) (s : σ) : Prop where
  permit : (turns s).semaphore.available+(turns s).semaphore.assigned+
    Table.total Task.permits (turns s).tasks+
    Table.total (Task.inFlight (turns s).semaphore) (turns s).tasks = 1
  located : Located (turns s)
  leaves : ∀ (i : ℕ) task, (turns s).tasks[i]? = some task → place task.payload = .after →
    task.phase = .holding → ∃ t c, next s (leave i) = some t ∧
      (turns t).tasks = (turns s).tasks.set i ⟨task.payload,.releasing,some c⟩ ∧
      (turns t).semaphore.calls[c]? = some (.started (.release 1))
  cancels : ∀ (i : ℕ) task f, (turns s).tasks[i]? = some task → task.phase = .waiting f →
    task.call = none → ∃ t c payload, next s (cancel i) = some t ∧ place payload = .after ∧
      (turns t).tasks = (turns s).tasks.set i ⟨payload,.cancelling f,some c⟩ ∧
      (turns t).semaphore.calls[c]? = some (.started (.drop f))
  /-- A task in a call can go on, or the one that has the lock of the queue can. -/
  proceeds : ∀ (i : ℕ) task, (turns s).tasks[i]? = some task → task.call ≠ none →
    ∃ (j : ℕ) (other : Task P) (t : σ), (turns s).tasks[j]? = some other ∧ other.call ≠ none ∧
      (j = i ∨ (turns s).semaphore.lock = other.call) ∧ next s (advance j false) = some t
  polls : ∀ (i : ℕ) task f waker, (turns s).tasks[i]? = some task → task.phase = .waiting f →
    task.call = none → ∃ t c, next s (poll i waker) = some t ∧
      (turns t).tasks = (turns s).tasks.set i {task with call := some c} ∧
      (turns t).semaphore.calls[c]? = some (.started (.poll f waker))
  /-- A polled task to which the permit is assigned takes it. -/
  takes : ∀ (i : ℕ) task f a spurious t, (turns s).tasks[i]? = some task → task.phase = .waiting f →
    (turns s).semaphore.acquires[f]? = some a → a.assigned (turns s).semaphore.waiters = 1 →
    next s (advance i spurious) = some t →
    (turns t).tasks = (turns s).tasks.set i ⟨task.payload,.holding,none⟩
  returns : ∀ (i : ℕ) task spurious t, (turns s).tasks[i]? = some task →
    task.phase.returning = true → next s (advance i spurious) = some t →
    ∃ task', Returned (turns s) i task (turns t) task'

theorem State.start_made [Wake W] {s t : State P W} {i : ℕ} {payload : P} {phase : Phase}
    {op : Semaphore.Op W} (h : s.start i payload phase op = some t) :
    t.tasks = s.tasks.set i ⟨payload,phase,some s.semaphore.calls.length⟩ ∧
      t.semaphore.calls[s.semaphore.calls.length]? = some (.started op) := by
  obtain ⟨semaphore,hsem,rfl⟩ := Option.map_eq_some_iff.mp h
  obtain ⟨-,hcalls,-⟩ := Semaphore.make_later hsem
  exact ⟨rfl,by rw [hcalls]; exact List.getElem?_concat_length⟩

theorem State.leave_made [Wake W] (s : State P W) (i : ℕ) {task : Task P} (hphase : task.phase = .holding)
    (payload : P) : ∃ t c, s.leave i task payload = some t ∧
      t.tasks = s.tasks.set i ⟨payload,.releasing,some c⟩ ∧
      t.semaphore.calls[c]? = some (.started (.release 1)) := by
  obtain ⟨t,ht⟩ : ∃ t, s.start i payload .releasing (.release 1) = some t := by
    simp [State.start,Semaphore.next,Semaphore.startable,usizeMax]
  obtain ⟨htasks,hcall⟩ := State.start_made ht
  exact ⟨t,_,by rw [State.leave,hphase]; exact ht,htasks,hcall⟩

theorem Phase.Fits.running {semaphore : Semaphore.State W} {phase : Phase} {c : ℕ}
    (h : phase.Fits semaphore (some c)) :
    ∃ running, semaphore.calls[c]? = some running ∧ running.ended = false := by
  cases phase with
  | outside => cases h
  | holding => cases h
  | waiting f =>
    obtain ⟨running,hget,hpoll⟩ := h.2 c rfl
    refine ⟨running,hget,?_⟩
    cases running with
    | finished outcome => cases hpoll
    | panicked message r => cases hpoll
    | _ => rfl
  | cancelling f =>
    obtain ⟨-,d,running,⟨⟩,hget,hreturning,-⟩ := h
    exact ⟨running,hget,hreturning.running⟩
  | releasing =>
    obtain ⟨d,running,⟨⟩,hget,hreturning⟩ := h
    exact ⟨running,hget,hreturning.running⟩

namespace Ok

variable [Wake W] {s t : State P W} {i : ℕ} {task : Task P}

/-- A task that neither holds the permit nor gives it back has none in flight. -/
theorem inFlight_zero (h : Ok s) (hi : s.tasks[i]? = some task) (hphase : task.phase.returning = false) :
    task.inFlight s.semaphore = 0 := by
  have hfits := h.fits i task hi
  obtain ⟨payload,phase,call⟩ := task
  cases phase with
  | outside =>
    obtain rfl : call = none := hfits
    rfl
  | holding =>
    obtain rfl : call = none := hfits
    rfl
  | waiting f =>
    cases call with
    | none => rfl
    | some c =>
      obtain ⟨running,hget,hpoll⟩ := hfits.2 c rfl
      rw [Task.inFlight,Option.bind_some,hget]
      exact Semaphore.Call.inFlight_of_poll hpoll
  | _ => cases hphase

/-- A queued future is that of a task, and it asks for one permit. -/
theorem queued_one (h : Ok s) {f : ℕ} (hf : Queued s.semaphore f) :
    ∃ (i : ℕ) (task : Task P) (a : Semaphore.Acquire W), s.tasks[i]? = some task ∧
      task.phase.future? = some f ∧ s.semaphore.acquires[f]? = some a ∧ a.requestedPermits = 1 := by
  obtain ⟨i,task,hi,hfuture⟩ := h.queued f hf
  have hfits := h.fits i task hi
  have hrequested : s.semaphore.requested f = some 1 := by
    cases hphase : task.phase with
    | waiting g =>
      rw [hphase] at hfuture hfits
      cases hfuture
      exact hfits.1.requested
    | cancelling g =>
      rw [hphase] at hfuture hfits
      cases hfuture
      exact hfits.1
    | _ =>
      rw [hphase] at hfuture
      cases hfuture
  obtain ⟨a,ha,hone⟩ := Option.map_eq_some_iff.mp hrequested
  exact ⟨i,task,a,hi,hfuture,ha,hone⟩

theorem free (h : Ok s) (havailable : s.semaphore.available = 1) : Free s := by
  refine ⟨havailable,fun f hf => ?_⟩
  obtain ⟨-,-,a,-,-,ha,hone⟩ := h.queued_one hf
  obtain ⟨b,id,hb,hphase⟩ := hf
  cases ha.symm.trans hb
  obtain ⟨node,hnode,-⟩ := h.lease.inv.queue.owned f a id ha hphase
  have hnil : s.semaphore.waiters.order = [] := h.lease.inv.coupled (by omega)
  have hneed := h.lease.inv.queue.detached_need hnode (by simp [hnil])
  have hassigned : a.assigned s.semaphore.waiters = 1 := by
    simp [Semaphore.Acquire.assigned,hphase,hnode,hone,hneed.1]
  have hle := Table.le_total (Semaphore.Acquire.assigned s.semaphore.waiters) ha
  have hbalance := h.balance
  rw [Semaphore.State.assigned] at hbalance
  omega

theorem oldest (h : Ok s) (hone : s.semaphore.assigned = 1) : Oldest s := by
  obtain ⟨f,a,hf,ha⟩ : ∃ (f : ℕ) (a : Semaphore.Acquire W), s.semaphore.acquires[f]? = some a ∧
      a.assigned s.semaphore.waiters ≠ 0 := by
    by_contra hnone
    have hzero : s.semaphore.assigned = 0 :=
      Table.total_eq_zero.mpr fun f a hf => by_contra fun ha => hnone ⟨f,a,hf,ha⟩
    omega
  have hle := Table.le_total (Semaphore.Acquire.assigned s.semaphore.waiters) hf
  rw [Semaphore.State.assigned] at hone
  have hqueued : Queued s.semaphore f := by
    cases hphase : a.phase with
    | queued id => exact ⟨a,id,hf,hphase⟩
    | _ => simp [Semaphore.Acquire.assigned,hphase] at ha
  obtain ⟨i,task,a',hi,hfuture,ha',hrequested⟩ := h.queued_one hqueued
  cases hf.symm.trans ha'
  refine ⟨i,task,f,a,hi,hfuture,hf,by omega,fun g hg hgf => ?_⟩
  obtain ⟨-,-,b,-,-,hb,hrequested'⟩ := h.queued_one hg
  have hrest := Table.add_le_total (Semaphore.Acquire.assigned s.semaphore.waiters) hgf hb hf
  exact h.order.served_first h.lease.inv h.enlisted hf hb ⟨by omega,by omega⟩ ⟨hg,by omega⟩

theorem located (h : Ok s) : Located s := by
  have hbalance := h.balance
  by_cases havailable : s.semaphore.available = 0
  swap
  · exact .free (h.free (by omega))
  by_cases hassigned : s.semaphore.assigned = 0
  swap
  · exact .assigned (h.oldest (by omega))
  by_cases hheld : Table.total Task.permits s.tasks = 0
  swap
  · by_contra hnone
    refine hheld (Table.total_eq_zero.mpr fun i task hi => ?_)
    cases hphase : task.phase with
    | holding => exact absurd (Located.held hi hphase) hnone
    | _ => rw [Task.permits,hphase]; rfl
  · by_contra hnone
    have hzero : Table.total (Task.inFlight s.semaphore) s.tasks = 0 := by
      refine Table.total_eq_zero.mpr fun i task hi => ?_
      cases hphase : task.phase.returning with
      | false => exact h.inFlight_zero hi hphase
      | true =>
        have hle := Table.le_total (Task.inFlight s.semaphore) hi
        have hne : task.inFlight s.semaphore ≠ 1 := fun hone => hnone (.returning hi hphase hone)
        omega
    omega

/-- The one permit that the task bears goes nowhere but to the queue or to the count. -/
theorem handed (h : Ok s) (ht : Ok t) (hi : s.tasks[i]? = some task) {task' : Task P}
    (htasks : t.tasks = s.tasks.set i task') (hphase' : task'.phase ≠ .holding)
    (hother : ∀ (j : ℕ) other, j ≠ i → s.tasks[j]? = some other →
      other.inFlight t.semaphore = other.inFlight s.semaphore) (hbears : task.Bears s.semaphore) :
    task'.inFlight t.semaphore = 1 ∨ Free t ∨ Oldest t := by
  have hbalance := h.balance
  have hborne : task.inFlight s.semaphore+s.semaphore.assigned ≥ 1 := by
    rcases hbears with hflight | ⟨f,a,-,ha,hassigned⟩
    · omega
    · have hle := Table.le_total (Semaphore.Acquire.assigned s.semaphore.waiters) ha
      rw [Semaphore.State.assigned]
      omega
  cases ht.located with
  | free hfree => exact Or.inr (Or.inl hfree)
  | assigned holdest => exact Or.inr (Or.inr holdest)
  | @held j other hj hphase =>
    rw [htasks] at hj
    rcases Table.getElem?_set_cases hj with ⟨-,rfl⟩ | ⟨-,hj⟩
    · exact absurd hphase hphase'
    · have hle := Table.le_total Task.permits hj
      have hflight := Table.le_total (Task.inFlight s.semaphore) hi
      have hone : other.permits = 1 := by rw [Task.permits,hphase]; rfl
      omega
  | @returning j other hj _ hflight =>
    rw [htasks] at hj
    rcases Table.getElem?_set_cases hj with ⟨-,rfl⟩ | ⟨hji,hj⟩
    · exact Or.inl hflight
    · rw [hother j other hji hj] at hflight
      have hle := Table.add_le_total (Task.inFlight s.semaphore) hji hj hi
      omega

theorem returned (h : Ok s) (hi : s.tasks[i]? = some task) (hphase : task.phase.returning = true)
    {spurious : Bool} (hx : s.advance i task spurious = some t) : ∃ task', Returned s i task t task' := by
  have ht := (h.advance hi hx).1
  obtain ⟨payload,phase,call⟩ := task
  obtain ⟨c,rfl,hx⟩ := Option.bind_eq_some_iff.mp hx
  obtain ⟨semaphore,hsem,rfl⟩ := Option.map_eq_some_iff.mp hx
  obtain ⟨running,running',hget,heffect,-⟩ := h.lease.advance hsem
  obtain ⟨op,hop,hreturning⟩ : ∃ op, (op = .release 1 ∨ ∃ f, op = .drop f ∧
      s.semaphore.requested f = some 1) ∧ Semaphore.Returning op running := by
    have hfits := h.fits i _ hi
    cases phase with
    | cancelling f =>
      obtain ⟨hrequested,d,old,⟨⟩,hold,hreturning,-⟩ := hfits
      cases hget.symm.trans hold
      exact ⟨_,Or.inr ⟨f,rfl,hrequested⟩,hreturning⟩
    | releasing =>
      obtain ⟨d,old,⟨⟩,hold,hreturning⟩ := hfits
      cases hget.symm.trans hold
      exact ⟨_,Or.inl rfl,hreturning⟩
    | _ => cases hphase
  have hother : ∀ (j : ℕ) other, j ≠ i → s.tasks[j]? = some other →
      other.inFlight semaphore = other.inFlight s.semaphore := by
    intro j other hji hj
    refine Task.inFlight_congr (h.fits j other hj) fun d old hd hold => ?_
    rw [heffect.calls_eq,List.getElem?_set_ne (h.calls.ne hi hj hji rfl hd).symm]
    exact hold
  obtain ⟨call',hcall',hcases⟩ := hreturning.advance h.lease hop hget hsem
  have hahead : (⟨payload,phase,some c⟩ : Task P).ahead s.semaphore = running.ahead := by
    simp [Task.ahead,hget]
  simp only [hcall'] at ht ⊢
  rcases hcases with rfl | ⟨hreturning',hnearer⟩
  · have houtside : phase.resume .returned = .outside := by
      cases phase <;> first | rfl | cases hphase
    simp only [houtside] at ht ⊢
    exact ⟨_,rfl,rfl,Or.inl ⟨rfl,rfl⟩,h.handed ht hi rfl nofun hother⟩
  · have hrunning := hreturning'.running
    have hsame : s.tasks = s.tasks.set i ⟨payload,phase,some c⟩ := (Table.set_self hi).symm
    have hholding : phase ≠ .holding := by
      rintro rfl
      cases hphase
    cases call' with
    | finished outcome => cases hrunning
    | _ =>
      refine ⟨⟨payload,phase,some c⟩,hsame,rfl,Or.inr ⟨rfl,?_⟩,h.handed ht hi hsame hholding hother⟩
      rw [hahead]
      simpa [Task.ahead,hcall'] using hnearer

theorem cancels (h : Ok s) (hi : s.tasks[i]? = some task) {f : ℕ} (hphase : task.phase = .waiting f)
    (hcall : task.call = none) (payload : P) :
    ∃ t c, s.cancel i task payload = some t ∧ t.tasks = s.tasks.set i ⟨payload,.cancelling f,some c⟩ ∧
      t.semaphore.calls[c]? = some (.started (.drop f)) := by
  have hfits := h.fits i task hi
  rw [hphase,hcall] at hfits
  obtain ⟨t,ht⟩ : ∃ t, s.start i payload (.cancelling f) (.drop f) = some t := by
    simp [State.start,Semaphore.next,hfits.1.startable_drop]
  obtain ⟨htasks,hcall'⟩ := State.start_made ht
  refine ⟨t,_,?_,htasks,hcall'⟩
  simp only [State.cancel,hphase,hcall]
  exact ht

theorem polls (h : Ok s) (hi : s.tasks[i]? = some task) {f : ℕ} (hphase : task.phase = .waiting f)
    (hcall : task.call = none) (waker : W) :
    ∃ t c, s.poll i task waker = some t ∧ t.tasks = s.tasks.set i {task with call := some c} ∧
      t.semaphore.calls[c]? = some (.started (.poll f waker)) := by
  have hfits := h.fits i task hi
  rw [hphase,hcall] at hfits
  obtain ⟨t,ht⟩ : ∃ t, s.start i task.payload (.waiting f) (.poll f waker) = some t := by
    simp [State.start,Semaphore.next,hfits.1.startable_poll]
  obtain ⟨htasks,hcall'⟩ := State.start_made ht
  refine ⟨t,_,?_,by rw [htasks,← hphase],hcall'⟩
  simp only [State.poll,hphase,hcall]
  exact ht

theorem takes (h : Ok s) (hi : s.tasks[i]? = some task) {f : ℕ} (hphase : task.phase = .waiting f)
    {a : Semaphore.Acquire W} (ha : s.semaphore.acquires[f]? = some a)
    (hassigned : a.assigned s.semaphore.waiters = 1) {spurious : Bool}
    (hx : s.advance i task spurious = some t) : t.tasks = s.tasks.set i ⟨task.payload,.holding,none⟩ := by
  obtain ⟨payload,phase,call⟩ := task
  obtain rfl : phase = .waiting f := hphase
  obtain ⟨c,rfl,hx⟩ := Option.bind_eq_some_iff.mp hx
  obtain ⟨semaphore,hsem,rfl⟩ := Option.map_eq_some_iff.mp hx
  obtain ⟨⟨b,hb,hone,-⟩,hcall⟩ := h.fits i _ hi
  cases ha.symm.trans hb
  obtain ⟨running,hget,hpoll⟩ := hcall c rfl
  have hended := Semaphore.advance_claims h.lease.inv hget hpoll ha (by omega) (by omega) hsem
  simp only [hended]
  rfl

theorem proceeds (h : Ok s) (hi : s.tasks[i]? = some task) (hcall : task.call ≠ none) :
    ∃ (j : ℕ) (other : Task P) (t : State P W), s.tasks[j]? = some other ∧ other.call ≠ none ∧
      (j = i ∨ s.semaphore.lock = other.call) ∧ s.advance j other false = some t := by
  obtain ⟨c,hc⟩ := Option.ne_none_iff_exists'.mp hcall
  obtain ⟨running,hget,hrunning⟩ := Phase.Fits.running (hc ▸ h.fits i task hi)
  obtain ⟨j,other,d,hj,hd,hwho,semaphore,hsem⟩ :=
    h.attended.proceeds h.lease.inv hi hc hget hrunning
  obtain ⟨t,ht⟩ : ∃ t, s.advance j other false = some t := by
    simp [State.advance,hd,hsem]
  exact ⟨j,other,t,hj,by simp [hd],hwho.imp_right fun hlock => hlock.trans hd.symm,ht⟩

end Ok

section

variable [Wake W] {σ α : Type} {next : σ → α → Option σ} {turns : σ → State P W} {place : P → Place}
    {poll : ℕ → W → α} {leave cancel : ℕ → α} {advance : ℕ → Bool → α} {s : σ}

/-- A task that waits is acquiring. -/
theorem Placed.acquiring {s : State P W} (h : Placed place s) {i : ℕ} {task : Task P} {f : ℕ}
    (hi : s.tasks[i]? = some task) (hphase : task.phase = .waiting f) :
    place task.payload = .acquiring := by
  have hfits := h.fits i task hi
  rw [hphase] at hfits
  cases hp : place task.payload with
  | acquiring => rfl
  | after =>
    rw [hp] at hfits
    exact absurd rfl (hfits f)
  | _ =>
    rw [hp] at hfits
    cases hfits

theorem Placed.handover (h : Placed place (turns s)) (put : State P W → σ) (hput : ∀ t, turns (put t) = t)
    (hpoll : ∀ (i : ℕ) task waker t, (turns s).tasks[i]? = some task →
      place task.payload = .acquiring → (turns s).poll i task waker = some t →
      next s (poll i waker) = some (put t))
    (hleave : ∀ (i : ℕ) task t, (turns s).tasks[i]? = some task → place task.payload = .after →
      (turns s).leave i task task.payload = some t → next s (leave i) = some (put t))
    (hcancel : ∀ (i : ℕ) task, (turns s).tasks[i]? = some task → place task.payload = .acquiring →
      ∃ payload, place payload = .after ∧ ∀ t, (turns s).cancel i task payload = some t →
        next s (cancel i) = some (put t))
    (hadvance : ∀ (i : ℕ) task spurious t, (turns s).tasks[i]? = some task →
      (turns s).advance i task spurious = some t → next s (advance i spurious) = some (put t))
    (hstep : ∀ (i : ℕ) spurious u, next s (advance i spurious) = some u →
      ∃ task t, (turns s).tasks[i]? = some task ∧ (turns s).advance i task spurious = some t ∧
        u = put t) :
    Handover next turns place poll leave cancel advance s where
  permit := h.ok.balance
  located := h.ok.located
  leaves i task hi hplace hphase := by
    obtain ⟨t,c,ht,hrest⟩ := (turns s).leave_made i hphase task.payload
    exact ⟨_,c,hleave i task t hi hplace ht,by rwa [hput]⟩
  cancels i task f hi hphase hidle := by
    obtain ⟨payload,hafter,hmade⟩ := hcancel i task hi (h.acquiring hi hphase)
    obtain ⟨t,c,ht,hrest⟩ := h.ok.cancels hi hphase hidle payload
    exact ⟨_,c,payload,hmade t ht,hafter,by rwa [hput]⟩
  proceeds i task hi hcall := by
    obtain ⟨j,other,t,hj,hother,hwho,ht⟩ := h.ok.proceeds hi hcall
    exact ⟨j,other,_,hj,hother,hwho,hadvance j other false t hj ht⟩
  polls i task f waker hi hphase hidle := by
    obtain ⟨t,c,ht,hrest⟩ := h.ok.polls hi hphase hidle waker
    exact ⟨_,c,hpoll i task waker t hi (h.acquiring hi hphase) ht,by rwa [hput]⟩
  takes i task f a spurious u hi hphase ha hassigned hu := by
    obtain ⟨task',t,hi',hx,rfl⟩ := hstep i spurious u hu
    cases hi.symm.trans hi'
    rw [hput]
    exact h.ok.takes hi hphase ha hassigned hx
  returns i task spurious u hi hphase hu := by
    obtain ⟨task',t,hi',hx,rfl⟩ := hstep i spurious u hu
    cases hi.symm.trans hi'
    rw [hput]
    exact h.ok.returned hi hphase hx

end

end Turns
end Asyncband
