import Asyncband.BoundedPool

/-! The permits of the bounded pool.
The permits of the tasks are those that users of the semaphore have, also while they are
on their way back, and every object outside the queue and every creation that a task is
committed to is backed by a permit of that task. -/
namespace Asyncband
namespace BoundedPool

open Pool
open Semaphore (Loan Later Queued Serving Dropping Draining)

variable {T W : Type} {task : Task T}

namespace Stage

/-- The permits that a task owns and has not passed to a release. -/
def permits : Stage T → ℕ
  | .selecting | .creating | .recycling _ | .object _ | .leaving _ => 1
  | .reserved _ reservation | .trimming _ reservation | .filling _ _ reservation
  | .inserted _ _ reservation => reservation.permits
  | _ => 0

/-- The objects outside the queue that a task has or is committed to create. -/
def claims : Stage T → ℕ
  | .creating | .recycling _ | .object _ => 1
  | .trimming toCreate _ | .filling toCreate _ _ | .inserted toCreate _ _ => toCreate
  | _ => 0

def members : Stage T → ℕ
  | .recycling _ | .object _ => 1
  | _ => 0

def future? : Stage T → Option ℕ
  | .acquiring f | .cancelling f => some f
  | _ => none

/-- A reservation covers the creations its task is committed to, exactly so inside the
loop. -/
def Funded : Stage T → Prop
  | .trimming toCreate reservation => toCreate ≤ reservation.permits
  | .filling toCreate _ reservation => reservation.permits = toCreate
  | .inserted toCreate _ reservation => reservation.permits = toCreate+1
  | _ => True

def calling : Stage T → Bool
  | .acquiring _ | .cancelling _ | .reserving _ | .filling _ _ _ | .releasing _ _ => true
  | _ => false

def intent : Stage T → Semaphore.Intent
  | .acquiring f => .poll f
  | .reserving _ => .drain
  | _ => .other

def Calls (permits : Semaphore.State W) (c : ℕ) : Stage T → Prop
  | .reserving targetIdle => Draining permits c targetIdle
  | stage => Serving permits c stage.intent

variable {stage : Stage T} {c : ℕ}

theorem Funded.claims_le (h : stage.Funded) : stage.claims ≤ stage.permits := by
  cases stage with
  | trimming toCreate reservation => exact h
  | filling toCreate replenished reservation => exact Nat.le_of_eq h.symm
  | inserted toCreate replenished reservation =>
    have hpermits : reservation.permits = toCreate+1 := h
    show toCreate ≤ reservation.permits
    omega
  | _ => first | exact Nat.le_refl _ | exact Nat.zero_le _

theorem members_le (stage : Stage T) : stage.members ≤ stage.claims := by
  cases stage <;> first | exact Nat.le_refl _ | exact Nat.zero_le _

theorem calls_serving {permits : Semaphore.State W} (h : stage.Calls permits c)
    (hstage : ∀ targetIdle, stage ≠ .reserving targetIdle) :
    Serving permits c stage.intent ∧ stage.intent ≠ .drain := by
  cases stage with
  | reserving targetIdle => exact absurd rfl (hstage targetIdle)
  | _ => exact ⟨h,nofun⟩

theorem calls_of_serving {permits : Semaphore.State W} (h : Serving permits c stage.intent)
    (hstage : ∀ targetIdle, stage ≠ .reserving targetIdle) : stage.Calls permits c := by
  cases stage with
  | reserving targetIdle => exact absurd rfl (hstage targetIdle)
  | _ => exact h

theorem acquiring_of_intent {f : ℕ} (h : stage.intent = .poll f) : stage = .acquiring f := by
  cases stage <;> cases h
  rfl

theorem intent_of_gain {permits : Semaphore.State W} {n : ℕ} (h : stage.intent.gain permits = some n) :
    ∃ f, stage.intent = .poll f := by
  cases stage with
  | acquiring f => exact ⟨f,rfl⟩
  | _ => cases h

end Stage

namespace Task

def permits (task : Task T) : ℕ := task.stage.permits

def claims (task : Task T) : ℕ := task.stage.claims

def members (task : Task T) : ℕ := task.stage.members

/-- The permits that the release a task is in has not brought anywhere. -/
def inFlight (permits : Semaphore.State W) (task : Task T) : ℕ :=
  (task.call.bind fun c => permits.calls[c]?).elim 0 Semaphore.Call.inFlight

end Task

structure TaskOk (permits : Semaphore.State W) (task : Task T) : Prop where
  call : ∀ c, task.call = some c → task.stage.Calls permits c
  request : ∀ f, task.stage = .acquiring f → permits.requested f = some 1
  dropping : ∀ f, task.stage = .cancelling f → ∃ c, task.call = some c ∧ Dropping permits c f
  calling : ∀ c, task.call = some c → task.stage.calling = true
  funded : task.stage.Funded

/-- The permits of the tasks are those that users of the semaphore have, and every
running call and every queued future belongs to a task. -/
structure Funded [Wake W] (maxSize : ℕ) (permits : Semaphore.State W) (tasks : List (Task T)) :
    Prop where
  loan : Loan maxSize permits
  taken : Table.total Task.permits tasks = permits.taken
  inFlight : Table.total (Task.inFlight permits) tasks = permits.inFlight
  calls : Table.Unique Task.call tasks permits.calls.length
  task : ∀ (i : ℕ) task, tasks[i]? = some task → TaskOk permits task
  queued : ∀ f, Queued permits f →
    ∃ (i : ℕ) (task : Task T), tasks[i]? = some task ∧ task.stage.future? = some f

theorem TaskOk.idle {permits : Semaphore.State W} {stage : Stage T} (h : stage.Funded)
    (hnone : stage.future? = none) : TaskOk permits ⟨stage,none⟩ where
  call := nofun
  request f hf := by
    simp only at hf
    simp [hf,Stage.future?] at hnone
  dropping f hf := by
    simp only at hf
    simp [hf,Stage.future?] at hnone
  calling := nofun
  funded := h

theorem TaskOk.running {permits : Semaphore.State W} (h : TaskOk permits task) {c : ℕ}
    (hc : task.call = some c) : ∃ call, permits.calls[c]? = some call := by
  have hcall := h.call c hc
  cases hstage : task.stage <;> rw [hstage] at hcall <;> obtain ⟨call,hcall,-⟩ := hcall <;>
    exact ⟨call,hcall⟩

theorem TaskOk.later {permits permits' : Semaphore.State W} (h : TaskOk permits task)
    (hlater : Later permits permits')
    (hkept : ∀ c call, task.call = some c → permits.calls[c]? = some call →
      permits'.calls[c]? = some call) :
    TaskOk permits' task ∧ task.inFlight permits' = task.inFlight permits := by
  constructor
  · refine ⟨fun c hc => ?_,fun f hf => hlater.requested f 1 (h.request f hf),?_,h.calling,h.funded⟩
    · have hcall := h.call c hc
      cases hstage : task.stage with
      | reserving targetIdle =>
        rw [hstage] at hcall
        obtain ⟨call,hget,hkind⟩ := hcall
        exact ⟨call,hkept c call hc hget,hkind⟩
      | _ =>
        rw [hstage] at hcall
        exact hlater.serving c _ hcall
    · intro f hf
      obtain ⟨c,hc,hdrop⟩ := h.dropping f hf
      exact ⟨c,hc,hlater.dropping c f hdrop⟩
  · rw [Task.inFlight,Task.inFlight]
    cases hc : task.call with
    | none => rfl
    | some c =>
      obtain ⟨call,hcall⟩ := h.running hc
      rw [Option.bind_some,Option.bind_some,hcall,hkept c call hc hcall]

section Steps

variable [Wake W] {maxSize i : ℕ} {permits permits' : Semaphore.State W} {tasks : List (Task T)}
  {old new : Task T}
variable {stage stage' : Stage T} {c : ℕ} {call : Semaphore.Call W} {outcome : Semaphore.Outcome}
    {spurious : Bool}

section

variable (h : Funded maxSize permits tasks)
include h

theorem Funded.set (hi : tasks[i]? = some old) (hloan : Loan maxSize permits')
    (hlater : Later permits permits')
    (hkept : ∀ c call, old.call ≠ some c → permits.calls[c]? = some call →
      permits'.calls[c]? = some call)
    (hcalls : Table.Unique Task.call (tasks.set i new) permits'.calls.length)
    (htaken : permits'.taken+old.permits = permits.taken+new.permits)
    (hflight : permits'.inFlight+old.inFlight permits = permits.inFlight+new.inFlight permits')
    (hqueued : ∀ f, Queued permits' f → Queued permits f ∨ new.stage.future? = some f)
    (hfuture : ∀ f, old.stage.future? = some f → Queued permits' f → new.stage.future? = some f)
    (hnew : TaskOk permits' new) : Funded maxSize permits' (tasks.set i new) := by
  have hother {j : ℕ} {task : Task T} (hji : j ≠ i) (hj : tasks[j]? = some task) :
      TaskOk permits' task ∧ task.inFlight permits' = task.inFlight permits := by
    refine (h.task j task hj).later hlater fun c call hc hcall => hkept c call ?_ hcall
    exact fun heq => hji (h.calls.inj j i task old c hj hi hc heq)
  refine ⟨hloan,?_,?_,hcalls,?_,?_⟩
  · have hset := Table.total_set Task.permits hi new
    have hold := h.taken
    omega
  · have hset := Table.total_set_congr hi new fun j task hji hj => (hother hji hj).2
    have hold := h.inFlight
    omega
  · intro j task hj
    rcases Table.getElem?_set_cases hj with ⟨-,rfl⟩ | ⟨hji,hj⟩
    · exact hnew
    · exact (hother hji hj).1
  · intro f hf
    have hself (hown : new.stage.future? = some f) :
        ∃ (j : ℕ) (task : Task T), (tasks.set i new)[j]? = some task ∧
          task.stage.future? = some f :=
      ⟨i,new,Table.getElem?_set_self' hi new,hown⟩
    rcases hqueued f hf with hqueue | hown
    · obtain ⟨j,task,hj,hfut⟩ := h.queued f hqueue
      by_cases hji : j = i
      · subst hji
        cases hi.symm.trans hj
        exact hself (hfuture f hfut hf)
      · exact ⟨j,task,by rw [List.getElem?_set_ne (Ne.symm hji)]; exact hj,hfut⟩
    · exact hself hown

theorem Funded.push (hloan : Loan maxSize permits') (hlater : Later permits permits')
    (hkept : ∀ (c : ℕ) call, permits.calls[c]? = some call → permits'.calls[c]? = some call)
    (hcalls : Table.Unique Task.call (tasks++[new]) permits'.calls.length)
    (htaken : permits'.taken = permits.taken) (hpermits : new.permits = 0)
    (hflight : permits'.inFlight = permits.inFlight+new.inFlight permits')
    (hqueued : ∀ f, Queued permits' f → Queued permits f) (hnew : TaskOk permits' new) :
    Funded maxSize permits' (tasks++[new]) := by
  have hother {j : ℕ} {task : Task T} (hj : tasks[j]? = some task) :
      TaskOk permits' task ∧ task.inFlight permits' = task.inFlight permits :=
    (h.task j task hj).later hlater fun c call _ hcall => hkept c call hcall
  refine ⟨hloan,?_,?_,hcalls,?_,?_⟩
  · simp only [Table.total_append,Table.total_cons,Table.total_nil,hpermits,htaken,h.taken]
    rfl
  · have hold : Table.total (Task.inFlight permits') tasks =
        Table.total (Task.inFlight permits) tasks := by
      apply Table.total_congr
      intro task hmem
      obtain ⟨j,hj⟩ := List.mem_iff_getElem?.mp hmem
      exact (hother hj).2
    simp only [Table.total_append,Table.total_cons,Table.total_nil,hold,h.inFlight,hflight]
    rfl
  · intro j task hj
    rcases Table.getElem?_push hj with hj | ⟨-,rfl⟩
    · exact (hother hj).1
    · exact hnew
  · intro f hf
    obtain ⟨j,task,hj,hfut⟩ := h.queued f (hqueued f hf)
    exact ⟨j,task,Table.getElem?_push_old hj _,hfut⟩

theorem Funded.restage (hi : tasks[i]? = some ⟨stage,none⟩) (hpermits : stage'.permits = stage.permits)
    (hold : stage.future? = none) (hnew : stage'.future? = none) (hfunded : stage'.Funded) :
    Funded maxSize permits (tasks.set i ⟨stage',none⟩) := by
  refine h.set hi h.loan (.refl permits) (fun _ _ _ hcall => hcall) (h.calls.set_old hi (Or.inl rfl))
    ?_ ?_ (fun f hf => Or.inl hf) ?_ (.idle hfunded hnew)
  · show permits.taken+stage.permits = permits.taken+stage'.permits
    rw [hpermits]
  · rfl
  · intro f hf
    exact absurd (hold.symm.trans hf) nofun

/-- A task makes a call for its new stage and passes the rest of its permits to it. -/
theorem Funded.start {op : Semaphore.Op W} (hi : tasks[i]? = some ⟨stage,none⟩)
    (hsem : Semaphore.next permits (.call op) = some permits') (hop : op.intent.lending = true)
    (hpermits : stage.permits = op.released+stage'.permits) (hfuture : stage'.future? = stage.future?)
    (hnew : TaskOk permits' ⟨stage',some permits.calls.length⟩) :
    Funded maxSize permits' (tasks.set i ⟨stage',some permits.calls.length⟩) := by
  obtain ⟨hlater,hcalls,hqueued⟩ := Semaphore.make_later hsem
  have hle := Table.le_total Task.permits hi
  rw [h.taken] at hle
  have hold : (Task.mk stage none).permits = stage.permits := rfl
  have hrest : (Task.mk stage' (some permits.calls.length)).permits = stage'.permits := rfl
  obtain ⟨hloan,htaken,-⟩ := h.loan.make hsem hop (by omega)
  refine h.set hi hloan hlater ?_ ?_ (by omega) ?_ (fun f hf => Or.inl (hqueued f hf)) ?_ hnew
  · intro c call _ hcall
    rw [hcalls]
    exact Table.getElem?_push_old hcall _
  · rw [hcalls,List.length_append]
    exact h.calls.set_new rfl
  · simp only [Task.inFlight,Option.bind_none,Option.bind_some,Option.elim_none,
      Semaphore.State.inFlight,hcalls,Table.total_append,Table.total_cons,Table.total_nil,
      List.getElem?_concat_length,Option.elim_some]
    omega
  · intro f hf _
    exact hfuture.trans hf

end

section

variable (h : Funded maxSize permits tasks) (hi : tasks[i]? = some ⟨stage,some c⟩)
include h hi

theorem Funded.stepped {call' : Option ℕ} {call₀ call₁ : Semaphore.Call W}
    (hcalls : permits'.calls = permits.calls.set c call₁) (hc : permits.calls[c]? = some call₀)
    (hcall' : call' = some c ∨ call' = none ∧ call₁.inFlight = 0) (hloan : Loan maxSize permits')
    (hlater : Later permits permits')
    (htaken : permits'.taken+stage.permits = permits.taken+stage'.permits)
    (hqueued : ∀ f, Queued permits' f → Queued permits f ∨ stage'.future? = some f)
    (hfuture : ∀ f, stage.future? = some f → Queued permits' f → stage'.future? = some f)
    (hnew : TaskOk permits' ⟨stage',call'⟩) :
    Funded maxSize permits' (tasks.set i ⟨stage',call'⟩) := by
  have hlen : permits'.calls.length = permits.calls.length := by rw [hcalls,List.length_set]
  refine h.set hi hloan hlater ?_ ?_ htaken ?_ hqueued hfuture hnew
  · intro d call hd hcall
    rw [hcalls,List.getElem?_set_ne]
    · exact hcall
    · rintro rfl
      exact hd rfl
  · rw [hlen]
    exact h.calls.set_old hi (hcall'.imp_right And.left)
  · have hset := Table.total_set Semaphore.Call.inFlight hc call₁
    have hget : permits'.calls[c]? = some call₁ := by
      rw [hcalls]
      exact Table.getElem?_set_self' hc call₁
    rw [← hcalls] at hset
    rcases hcall' with rfl | ⟨rfl,hzero⟩
    · simp only [Task.inFlight,Option.bind_some,hc,hget,Option.elim_some,
        Semaphore.State.inFlight]
      exact hset
    · simp only [Task.inFlight,Option.bind_some,Option.bind_none,hc,Option.elim_some,
        Option.elim_none,Semaphore.State.inFlight]
      omega

theorem Funded.running {call' : Semaphore.Call W} (hcalls : permits'.calls = permits.calls.set c call')
    (hc : permits.calls[c]? = some call) (hloan : Loan maxSize permits')
    (hlater : Later permits permits') (htaken : permits'.taken = permits.taken)
    (hqueued : ∀ f, Queued permits' f → Queued permits f ∨ stage.future? = some f)
    (hserves : stage.Calls permits' c) : Funded maxSize permits' tasks := by
  have htask := h.task i _ hi
  have hnew : TaskOk permits' (⟨stage,some c⟩ : Task T) := by
    refine ⟨?_,fun f hf => hlater.requested f 1 (htask.request f hf),?_,htask.calling,htask.funded⟩
    · rintro d ⟨⟩
      exact hserves
    · intro f hf
      obtain ⟨d,hd,hdrop⟩ := htask.dropping f hf
      exact ⟨d,hd,hlater.dropping d f hdrop⟩
  have hstep := h.stepped hi hcalls hc (Or.inl rfl) hloan hlater (by rw [htaken]) hqueued
    (fun f hf _ => hf) hnew
  rwa [Table.set_self hi] at hstep

theorem Funded.left (hcalls : permits'.calls = permits.calls.set c (.finished outcome))
    (hc : permits.calls[c]? = some call) (hloan : Loan maxSize permits')
    (hlater : Later permits permits')
    (htaken : permits'.taken+stage.permits = permits.taken+stage'.permits)
    (hqueued : ∀ f, Queued permits' f → Queued permits f ∨ stage.future? = some f)
    (hgone : ∀ f, stage.future? = some f → ¬Queued permits' f) (hnone : stage'.future? = none)
    (hfunded : stage'.Funded) : Funded maxSize permits' (tasks.set i ⟨stage',none⟩) := by
  refine h.stepped hi hcalls hc (Or.inr ⟨rfl,rfl⟩) hloan hlater htaken ?_ ?_ (.idle hfunded hnone)
  · intro f hf
    exact Or.inl ((hqueued f hf).resolve_right fun hown => hgone f hown hf)
  · intro f hown hf
    exact absurd hf (hgone f hown)

end

theorem resume_spec (hstage : ∀ targetIdle, stage ≠ .reserving targetIdle) (hne : outcome ≠ .acquired) :
    State.resume stage outcome = stage ∧ (∀ f, stage ≠ .cancelling f) ∨
      ∃ result, State.resume stage outcome = .done result ∧ stage.permits = 0 ∧
        ∀ f, stage.future? = some f → stage = .cancelling f := by
  cases stage with
  | acquiring f =>
    cases outcome with
    | acquired => exact absurd rfl hne
    | _ => exact Or.inl ⟨rfl,nofun⟩
  | cancelling f => exact Or.inr ⟨none,rfl,rfl,fun g hg => by cases hg; rfl⟩
  | releasing owner result => exact Or.inr ⟨result,rfl,rfl,nofun⟩
  | reserving targetIdle => exact absurd rfl (hstage targetIdle)
  | _ => exact Or.inl ⟨rfl,nofun⟩

section

variable (h : Funded maxSize permits tasks)
include h

theorem Funded.resumed (hi : tasks[i]? = some ⟨stage,some c⟩)
    (hcalls : permits'.calls = permits.calls.set c (.finished outcome))
    (hc : permits.calls[c]? = some call) (hloan : Loan maxSize permits')
    (hlater : Later permits permits') (htaken : permits'.taken = permits.taken)
    (hqueued : ∀ f, Queued permits' f → Queued permits f ∨ stage.future? = some f)
    (hstage : ∀ targetIdle, stage ≠ .reserving targetIdle) (hne : outcome ≠ .acquired) :
    Funded maxSize permits' (tasks.set i ⟨State.resume stage outcome,none⟩) := by
  have htask := h.task i _ hi
  rcases resume_spec hstage hne with ⟨heq,hcancel⟩ | ⟨result,heq,hpermits,hcancel⟩
  · rw [heq]
    refine h.stepped hi hcalls hc (Or.inr ⟨rfl,rfl⟩) hloan hlater (by rw [htaken]) hqueued
      (fun f hf _ => hf) ⟨nofun,?_,?_,nofun,htask.funded⟩
    · exact fun f hf => hlater.requested f 1 (htask.request f hf)
    · exact fun f hf => absurd hf (hcancel f)
  · rw [heq]
    refine h.left hi hcalls hc hloan hlater ?_ hqueued ?_ rfl trivial
    · rw [htaken,hpermits]
      rfl
    · intro f hf
      obtain ⟨d,hd,hdrop⟩ := htask.dropping f (hcancel f hf)
      cases hd
      rcases hlater.dropping c f hdrop with hstarted | hsettled
      · rw [hcalls,Table.getElem?_set_self' hc] at hstarted
        cases hstarted
      · exact hsettled.not_queued

theorem Funded.drain {targetIdle : ℕ} (hi : tasks[i]? = some ⟨.reserving targetIdle,some c⟩)
    (hsem : Semaphore.advance permits c spurious = some permits') :
    (∃ outcome, permits'.calls[c]? = some (.finished outcome) ∧
        Funded maxSize permits' (tasks.set i ⟨State.resume (.reserving targetIdle) outcome,none⟩)) ∨
      (∀ outcome, permits'.calls[c]? ≠ some (.finished outcome)) ∧
        Funded maxSize permits' tasks := by
  obtain ⟨call,call',hc,heffect,-⟩ := h.loan.advance hsem
  obtain ⟨hloan,hlater,hqueued,hdrain⟩ := h.loan.drain ((h.task i _ hi).call c rfl) hsem
  have hqueued' (f : ℕ) (hf : Queued permits' f) :
      Queued permits f ∨ (Stage.reserving targetIdle : Stage T).future? = some f :=
    Or.inl (hqueued f hf)
  rcases hdrain with ⟨hdraining,hsame⟩ | ⟨n,hdone,htaken⟩
  · refine Or.inr ⟨?_,h.running hi heffect.calls_eq hc hloan hlater hsame hqueued' hdraining⟩
    intro outcome houtcome
    obtain ⟨call,hcall,rfl | ⟨available,rfl⟩⟩ := hdraining <;> cases hcall.symm.trans houtcome
  · have hfinished : call' = .finished (.drained n) :=
      Option.some.inj ((heffect.own_call hc).symm.trans hdone)
    subst hfinished
    refine Or.inl ⟨.drained n,hdone,?_⟩
    cases n with
    | zero
    | succ => exact h.left hi heffect.calls_eq hc hloan hlater htaken hqueued' nofun rfl trivial

theorem Funded.advance (hi : tasks[i]? = some ⟨stage,some c⟩)
    (hsem : Semaphore.advance permits c spurious = some permits') :
    (∃ outcome, permits'.calls[c]? = some (.finished outcome) ∧
        Funded maxSize permits' (tasks.set i ⟨State.resume stage outcome,none⟩)) ∨
      (∀ outcome, permits'.calls[c]? ≠ some (.finished outcome)) ∧
        Funded maxSize permits' tasks := by
  by_cases hreserving : ∃ targetIdle, stage = .reserving targetIdle
  · obtain ⟨targetIdle,rfl⟩ := hreserving
    exact h.drain hi hsem
  have hstage : ∀ targetIdle, stage ≠ .reserving targetIdle :=
    fun targetIdle heq => hreserving ⟨targetIdle,heq⟩
  have htask := h.task i _ hi
  have hcalls : stage.Calls permits c := htask.call c rfl
  obtain ⟨hserving,hdrain⟩ := Stage.calls_serving hcalls hstage
  obtain ⟨call,call',hc,heffect,-⟩ := h.loan.advance hsem
  obtain ⟨hloan,hlater,hqueued,htaken⟩ := h.loan.step hserving hdrain hsem
  have hqueued' (f : ℕ) (hf : Queued permits' f) : Queued permits f ∨ stage.future? = some f := by
    refine (hqueued f hf).imp_right fun hpoll => ?_
    rw [Stage.acquiring_of_intent hpoll]
    rfl
  by_cases hended : ∃ outcome, permits'.calls[c]? = some (.finished outcome)
  · obtain ⟨outcome,hdone⟩ := hended
    have hfinished : call' = .finished outcome :=
      Option.some.inj ((heffect.own_call hc).symm.trans hdone)
    subst hfinished
    refine Or.inl ⟨outcome,hdone,?_⟩
    rcases htaken with ⟨hne,hsame⟩ | ⟨hacquired,hsettled,n,hgain,htaken⟩
    · refine h.resumed hi heffect.calls_eq hc hloan hlater hsame hqueued' hstage ?_
      rintro rfl
      exact hne hdone
    · cases hacquired.symm.trans hdone
      obtain ⟨f,hintent⟩ := Stage.intent_of_gain hgain
      obtain rfl := Stage.acquiring_of_intent hintent
      have hone : n = 1 := Option.some.inj (hgain.symm.trans (htask.request f rfl))
      subst hone
      refine h.left hi heffect.calls_eq hc hloan hlater htaken hqueued' ?_ rfl trivial
      rintro g ⟨⟩
      exact (hsettled f rfl).not_queued
  · have hrunning : ∀ outcome, permits'.calls[c]? ≠ some (.finished outcome) :=
      fun outcome heq => hended ⟨outcome,heq⟩
    have hsame : permits'.taken = permits.taken := by
      rcases htaken with ⟨-,hsame⟩ | ⟨hacquired,-⟩
      · exact hsame
      · exact absurd hacquired (hrunning _)
    refine Or.inr ⟨hrunning,h.running hi heffect.calls_eq hc hloan hlater hsame hqueued' ?_⟩
    exact Stage.calls_of_serving (hlater.serving c _ hserving) hstage

theorem Funded.slack (hi : tasks[i]? = some old) :
    Table.total Task.claims tasks+old.permits ≤ Table.total Task.permits tasks+old.claims := by
  have hclaims := Table.total_set Task.claims hi ⟨.done none,none⟩
  have hpermits := Table.total_set Task.permits hi ⟨.done none,none⟩
  have hle : Table.total Task.claims (tasks.set i ⟨.done none,none⟩) ≤
      Table.total Task.permits (tasks.set i ⟨.done none,none⟩) := by
    apply Table.total_le
    intro task hmem
    obtain ⟨j,hj⟩ := List.mem_iff_getElem?.mp hmem
    rcases Table.getElem?_set_cases hj with ⟨-,rfl⟩ | ⟨-,hj⟩
    · exact Nat.le_refl 0
    · exact (h.task j task hj).funded.claims_le
  have hzero : (⟨.done none,none⟩ : Task T).claims = 0 ∧ (⟨.done none,none⟩ : Task T).permits = 0 :=
    ⟨rfl,rfl⟩
  omega

end

end Steps
end BoundedPool
end Asyncband
