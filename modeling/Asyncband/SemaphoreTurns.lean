import Asyncband.SemaphoreSingle

/-! A semaphore of one permit that tasks take in turns.
A task waits for the permit with an acquire future, holds it, and gives it back; a cancelled
task drops its future instead. What a task does with the permit is its payload, which this
layer carries along. Nobody but the tasks uses the semaphore. -/
namespace Asyncband

namespace Turns

open Semaphore (Lease Later Queued Serving Dropping Attended Returning Waits)

inductive Phase
  | outside
  | waiting (future : ℕ)
  | holding
  | cancelling (future : ℕ)
  | releasing
  deriving DecidableEq

namespace Phase

def permits : Phase → ℕ
  | .holding => 1
  | _ => 0

def future? : Phase → Option ℕ
  | .waiting f => some f
  | .cancelling f => some f
  | _ => none

/-- The phase behind a semaphore call that ended with `outcome`. -/
def resume : Phase → Semaphore.Outcome → Phase
  | .waiting _, .acquired => .holding
  | .cancelling _, _ => .outside
  | .releasing, _ => .outside
  | phase, _ => phase

end Phase

structure Task (P : Type) where
  payload : P
  phase : Phase
  call : Option ℕ

structure State (P W : Type) where
  semaphore : Semaphore.State W
  tasks : List (Task P)

def new (P W : Type) : State P W := ⟨Semaphore.new W 1,[]⟩

namespace State

variable {P W : Type}

def setTask (s : State P W) (i : ℕ) (task : Task P) : State P W := {s with tasks := s.tasks.set i task}

def add (s : State P W) (payload : P) : State P W := {s with tasks := s.tasks++[⟨payload,.outside,none⟩]}

def enter [Wake W] (s : State P W) (i : ℕ) (payload : P) : Option (State P W) :=
  (Semaphore.next s.semaphore (.acquire 1)).map fun semaphore =>
    ⟨semaphore,s.tasks.set i ⟨payload,.waiting s.semaphore.acquires.length,none⟩⟩

def start [Wake W] (s : State P W) (i : ℕ) (payload : P) (phase : Phase) (op : Semaphore.Op W) :
    Option (State P W) :=
  (Semaphore.next s.semaphore (.call op)).map fun semaphore =>
    ⟨semaphore,s.tasks.set i ⟨payload,phase,some s.semaphore.calls.length⟩⟩

def poll [Wake W] (s : State P W) (i : ℕ) (task : Task P) (waker : W) : Option (State P W) :=
  match task.phase,task.call with
  | .waiting f,none => s.start i task.payload (.waiting f) (.poll f waker)
  | _,_ => none

def cancel [Wake W] (s : State P W) (i : ℕ) (task : Task P) (payload : P) : Option (State P W) :=
  match task.phase,task.call with
  | .waiting f,none => s.start i payload (.cancelling f) (.drop f)
  | _,_ => none

/-- The permit of a task is dropped. -/
def leave [Wake W] (s : State P W) (i : ℕ) (task : Task P) (payload : P) : Option (State P W) :=
  match task.phase with
  | .holding => s.start i payload .releasing (.release 1)
  | _ => none

def advance [Wake W] (s : State P W) (i : ℕ) (task : Task P) (spurious : Bool) : Option (State P W) :=
  task.call.bind fun c => (Semaphore.advance s.semaphore c spurious).map fun (semaphore : Semaphore.State W) =>
    match semaphore.calls[c]? with
    | some (.finished outcome) =>
      ⟨semaphore,s.tasks.set i ⟨task.payload,task.phase.resume outcome,none⟩⟩
    | _ => ⟨semaphore,s.tasks⟩

end State

variable {P W : Type}

namespace Task

def permits (task : Task P) : ℕ := task.phase.permits

/-- The permits that the release a task is in has not brought anywhere. -/
def inFlight (semaphore : Semaphore.State W) (task : Task P) : ℕ :=
  (task.call.bind fun c => semaphore.calls[c]?).elim 0 Semaphore.Call.inFlight

end Task

def Phase.Fits (semaphore : Semaphore.State W) (call : Option ℕ) : Phase → Prop
  | .outside => call = none
  | .holding => call = none
  | .waiting f => Waits semaphore f call ∧ ∀ c, call = some c →
      ∃ running, semaphore.calls[c]? = some running ∧ running.intent = .poll f
  | .cancelling f => semaphore.requested f = some 1 ∧ ∃ c running, call = some c ∧
      semaphore.calls[c]? = some running ∧ Returning (.drop f) running ∧ Dropping semaphore c f
  | .releasing => ∃ c running, call = some c ∧ semaphore.calls[c]? = some running ∧
      Returning (.release 1) running

def Phase.intent : Phase → Semaphore.Intent
  | .waiting f => .poll f
  | _ => .other

/-- The tasks own what was acquired, and every call and every queued future is that of a
task. -/
structure Ok [Wake W] (s : State P W) : Prop where
  lease : Lease 1 s.semaphore
  order : Semaphore.Order s.semaphore
  enlisted : ∀ f, Queued s.semaphore f → f ∈ s.semaphore.enqueued
  held : Table.total Task.permits s.tasks = s.semaphore.held
  inFlight : Table.total (Task.inFlight s.semaphore) s.tasks = s.semaphore.inFlight
  calls : Table.Unique Task.call s.tasks s.semaphore.calls.length
  attended : Attended Task.call s.semaphore s.tasks
  futures : Table.Unique (fun task => task.phase.future?) s.tasks s.semaphore.acquires.length
  fits : ∀ (i : ℕ) task, s.tasks[i]? = some task → task.phase.Fits s.semaphore task.call
  queued : ∀ f, Queued s.semaphore f →
    ∃ (i : ℕ) (task : Task P), s.tasks[i]? = some task ∧ task.phase.future? = some f

namespace Phase

variable {semaphore semaphore' : Semaphore.State W} {phase : Phase} {call : Option ℕ}

theorem Fits.serving (h : phase.Fits semaphore call) {c : ℕ} (hc : call = some c) :
    Serving semaphore c phase.intent := by
  subst hc
  cases phase with
  | outside => cases h
  | holding => cases h
  | waiting f =>
    obtain ⟨running,hc,hi⟩ := h.2 c rfl
    exact ⟨running,hc,Or.inl hi⟩
  | cancelling f =>
    obtain ⟨-,d,running,⟨⟩,hget,hreturning,-⟩ := h
    exact ⟨running,hget,Or.inl (hreturning.intent rfl)⟩
  | releasing =>
    obtain ⟨d,running,⟨⟩,hget,hreturning⟩ := h
    exact ⟨running,hget,Or.inl (hreturning.intent rfl)⟩

theorem Fits.later (h : phase.Fits semaphore call) (hlater : Later semaphore semaphore')
    (hkept : ∀ c running, call = some c → semaphore.calls[c]? = some running →
      semaphore'.calls[c]? = some running)
    (hfuture : ∀ f, phase = .waiting f → semaphore'.acquires[f]? = semaphore.acquires[f]?) :
    phase.Fits semaphore' call := by
  cases phase with
  | outside => exact h
  | holding => exact h
  | waiting f =>
    refine ⟨h.1.congr (hfuture f rfl),fun c hc => ?_⟩
    obtain ⟨running,hget,hi⟩ := h.2 c hc
    exact ⟨running,hkept c running hc hget,hi⟩
  | cancelling f =>
    obtain ⟨hrequested,c,running,hc,hget,hreturning,hdrop⟩ := h
    exact ⟨hlater.requested f 1 hrequested,c,running,hc,hkept c running hc hget,hreturning,
      hlater.dropping c f hdrop⟩
  | releasing =>
    obtain ⟨c,running,hc,hget,hreturning⟩ := h
    exact ⟨c,running,hc,hkept c running hc hget,hreturning⟩

theorem future?_intent {f : ℕ} (h : phase.intent = .poll f) : phase = .waiting f := by
  cases phase <;> cases h
  rfl

end Phase

theorem Task.inFlight_congr {semaphore semaphore' : Semaphore.State W} {task : Task P}
    (h : task.phase.Fits semaphore task.call)
    (hkept : ∀ c running, task.call = some c → semaphore.calls[c]? = some running →
      semaphore'.calls[c]? = some running) : task.inFlight semaphore' = task.inFlight semaphore := by
  rw [Task.inFlight,Task.inFlight]
  cases hc : task.call with
  | none => rfl
  | some c =>
    obtain ⟨running,hget,-⟩ := h.serving hc
    rw [Option.bind_some,Option.bind_some,hget,hkept c running hc hget]

/-- What a step of the semaphore keeps for those who do not use it in that step. -/
structure Carries [Wake W] (semaphore semaphore' : Semaphore.State W) : Prop where
  lease : Lease 1 semaphore'
  order : Semaphore.Order semaphore'
  enlisted : ∀ f, Queued semaphore' f → f ∈ semaphore'.enqueued
  later : Later semaphore semaphore'

namespace Ok

variable [Wake W] {s t : State P W} {i : ℕ} {old task : Task P} {semaphore : Semaphore.State W}
variable {payload payload' : P} {phase phase' : Phase} {op : Semaphore.Op W} {c : ℕ}
    {running : Semaphore.Call W} {spurious : Bool}

theorem new : Ok (Turns.new P W) where
  lease := Semaphore.new_lease (by decide)
  order := Semaphore.new_order W 1
  enlisted f hf := by
    obtain ⟨a,id,ha,-⟩ := hf
    cases ha
  held := rfl
  inFlight := rfl
  calls := .nil _ _
  attended := .new 1
  futures := .nil _ _
  fits i task hi := by cases hi
  queued f hf := by
    obtain ⟨a,id,ha,-⟩ := hf
    cases ha

section

variable (h : Ok s)
include h

theorem set (hi : s.tasks[i]? = some old) (hc : Carries s.semaphore semaphore)
    (hkept : ∀ c running, old.call ≠ some c → s.semaphore.calls[c]? = some running →
      semaphore.calls[c]? = some running)
    (hcalls : Table.Unique Task.call (s.tasks.set i task) semaphore.calls.length)
    (hattended : Attended Task.call semaphore (s.tasks.set i task))
    (hfutures : Table.Unique (fun task => task.phase.future?) (s.tasks.set i task)
      semaphore.acquires.length)
    (hwaits : ∀ (j : ℕ) other f, j ≠ i → s.tasks[j]? = some other → other.phase = .waiting f →
      semaphore.acquires[f]? = s.semaphore.acquires[f]?)
    (hheld : semaphore.held+old.permits = s.semaphore.held+task.permits)
    (hflight : semaphore.inFlight+old.inFlight s.semaphore =
      s.semaphore.inFlight+task.inFlight semaphore)
    (hqueued : ∀ f, Queued semaphore f → Queued s.semaphore f ∨ task.phase.future? = some f)
    (hfuture : ∀ f, old.phase.future? = some f → Queued semaphore f → task.phase.future? = some f)
    (hnew : task.phase.Fits semaphore task.call) : Ok ⟨semaphore,s.tasks.set i task⟩ := by
  have hother {j : ℕ} {other : Task P} (hji : j ≠ i) (hj : s.tasks[j]? = some other) :
      ∀ c running, other.call = some c → s.semaphore.calls[c]? = some running →
        semaphore.calls[c]? = some running := by
    intro c running hcall hget
    exact hkept c running (fun heq => hji (h.calls.inj j i other old c hj hi hcall heq)) hget
  refine ⟨hc.lease,hc.order,hc.enlisted,?_,?_,hcalls,hattended,hfutures,?_,?_⟩
  · have hset := Table.total_set Task.permits hi task
    have hold := h.held
    show Table.total Task.permits (s.tasks.set i task) = semaphore.held
    omega
  · have hset := Table.total_set_congr (f := Task.inFlight s.semaphore) (g := Task.inFlight semaphore)
      hi task fun j other hji hj => Task.inFlight_congr (h.fits j other hj) (hother hji hj)
    have hold := h.inFlight
    show Table.total (Task.inFlight semaphore) (s.tasks.set i task) = semaphore.inFlight
    omega
  · intro j other hj
    rcases Table.getElem?_set_cases hj with ⟨-,rfl⟩ | ⟨hji,hj⟩
    · exact hnew
    · exact (h.fits j other hj).later hc.later (hother hji hj) fun f => hwaits j other f hji hj
  · intro f hf
    have hself (hown : task.phase.future? = some f) :
        ∃ (j : ℕ) (other : Task P), (s.tasks.set i task)[j]? = some other ∧
          other.phase.future? = some f :=
      ⟨i,task,Table.getElem?_set_self' hi task,hown⟩
    rcases hqueued f hf with hqueue | hown
    · obtain ⟨j,other,hj,hfut⟩ := h.queued f hqueue
      by_cases hji : j = i
      · subst hji
        cases hi.symm.trans hj
        exact hself (hfuture f hfut hf)
      · exact ⟨j,other,by rw [← hj]; exact List.getElem?_set_ne (Ne.symm hji),hfut⟩
    · exact hself hown

theorem carries_refl : Carries s.semaphore s.semaphore :=
  ⟨h.lease,h.order,h.enlisted,.refl _⟩

theorem restage (hi : s.tasks[i]? = some old) (payload : P) :
    Ok (s.setTask i {old with payload := payload}) :=
  h.set hi h.carries_refl (fun _ _ _ hget => hget) (h.calls.set_old hi (Or.inl rfl))
    (h.attended.restage hi rfl) (h.futures.set_old hi (Or.inl rfl)) (fun _ _ _ _ _ _ => rfl) rfl rfl
    (fun _ hf => Or.inl hf) (fun _ hf _ => hf) (h.fits i old hi)

theorem add (payload : P) : Ok (s.add payload) := by
  refine ⟨h.lease,h.order,h.enlisted,?_,?_,h.calls.push rfl,
    h.attended.keep fun _ _ hj _ => Table.getElem?_push_old hj _,h.futures.push rfl,?_,?_⟩
  · show Table.total Task.permits (s.tasks++[_]) = s.semaphore.held
    rw [Table.total_append,h.held]
    rfl
  · show Table.total (Task.inFlight s.semaphore) (s.tasks++[_]) = s.semaphore.inFlight
    rw [Table.total_append,h.inFlight]
    rfl
  · exact Table.forall_push h.fits rfl
  · intro f hf
    obtain ⟨j,task,hj,hfut⟩ := h.queued f hf
    exact ⟨j,task,Table.getElem?_push_old hj _,hfut⟩

theorem carries {a : Semaphore.Action W} (hsem : Semaphore.next s.semaphore a = some semaphore)
    (hlease : Lease 1 semaphore) (hlater : Later s.semaphore semaphore) :
    Carries s.semaphore semaphore :=
  ⟨hlease,Semaphore.next_order h.lease.inv h.order hsem,
    Semaphore.next_enlisted h.lease.inv h.enlisted hsem,hlater⟩

theorem enter (hi : s.tasks[i]? = some old) (hold : old.phase = .outside)
    (hx : s.enter i payload = some t) :
    Ok t ∧ ∃ f, t.tasks = s.tasks.set i ⟨payload,.waiting f,none⟩ := by
  obtain ⟨semaphore,hsem,rfl⟩ := Option.map_eq_some_iff.mp hx
  obtain ⟨payload',phase,call⟩ := old
  obtain rfl : phase = .outside := hold
  obtain rfl : call = none := h.fits i _ hi
  obtain ⟨hlease,hheld,hlater,-,hqueued⟩ := h.lease.create hsem
  obtain ⟨-,hcalls,-,-⟩ := Semaphore.create_later hsem
  refine ⟨h.set hi (h.carries hsem hlease hlater) ?_ ?_
    (h.attended.create hsem (Attended.kept_of_set hi rfl _)) ?_ ?_ (by rw [hheld]; rfl) ?_
    (fun f hf => Or.inl (hqueued f hf)) (fun f hf => by cases hf)
    ⟨Waits.created hsem,fun c hc => by cases hc⟩,_,rfl⟩
  · intro c running _ hget
    rw [hcalls]
    exact hget
  · rw [hcalls]
    exact h.calls.set_old hi (Or.inl rfl)
  · rw [Semaphore.create_length hsem]
    exact h.futures.set_new rfl
  · intro j other f _ hj hphase
    exact Semaphore.create_kept hsem (h.futures.lt j other f hj (by rw [hphase]; rfl))
  · show semaphore.inFlight+0 = s.semaphore.inFlight+0
    rw [Semaphore.State.inFlight,Semaphore.State.inFlight,hcalls]

theorem start (hi : s.tasks[i]? = some ⟨payload,phase,none⟩)
    (hx : s.start i payload' phase' op = some t) (hop : op.intent.leasing = true)
    (hpermits : phase.permits = op.released+phase'.permits) (hfuture : phase'.future? = phase.future?)
    (hown : ∀ f, phase.future? ≠ some f → (∀ waker, op ≠ .poll f waker) ∧ op ≠ .drop f)
    (hnew : ∀ semaphore : Semaphore.State W, Semaphore.next s.semaphore (.call op) = some semaphore →
      semaphore.calls[s.semaphore.calls.length]? = some (.started op) →
      phase'.Fits semaphore (some s.semaphore.calls.length)) :
    Ok t ∧ t.tasks = s.tasks.set i ⟨payload',phase',some s.semaphore.calls.length⟩ := by
  obtain ⟨semaphore,hsem,rfl⟩ := Option.map_eq_some_iff.mp hx
  have hle := Table.le_total Task.permits hi
  rw [h.held] at hle
  have hold : (Task.mk payload phase none).permits = phase.permits := rfl
  have hrest : (Task.mk payload' phase' (some s.semaphore.calls.length)).permits = phase'.permits := rfl
  obtain ⟨hlease,hheld,hlater,hstarted,hqueued⟩ := h.lease.make hsem hop (by omega)
  obtain ⟨-,hcalls,-⟩ := Semaphore.make_later hsem
  refine ⟨h.set hi (h.carries hsem hlease hlater) ?_ ?_ (h.attended.make hsem
      ⟨i,_,Table.getElem?_set_self' hi _,rfl⟩ (Attended.kept_of_set hi rfl _)) ?_ ?_ (by omega) ?_
    (fun f hf => Or.inl (hqueued f hf)) (fun f hf _ => hfuture.trans hf) (hnew _ hsem hstarted),rfl⟩
  · intro c running _ hget
    rw [hcalls]
    exact Table.getElem?_push_old hget _
  · rw [hcalls,List.length_append]
    exact h.calls.set_new rfl
  · rw [Semaphore.make_length hsem]
    exact h.futures.set_old hi (Or.inl hfuture)
  · intro j other f hji hj hphase
    have hne : phase.future? ≠ some f := fun hf =>
      hji (h.futures.inj j i other _ f hj hi (by rw [hphase]; rfl) hf)
    exact Semaphore.make_kept hsem (hown f hne).1 (hown f hne).2
  · simp only [Task.inFlight,Option.bind_none,Option.bind_some,Option.elim_none,
      Semaphore.State.inFlight,hcalls,Table.total_append,Table.total_cons,Table.total_nil,
      List.getElem?_concat_length,Option.elim_some]
    omega

theorem poll (hi : s.tasks[i]? = some task) {waker : W} (hx : s.poll i task waker = some t) :
    Ok t ∧ ∃ call, t.tasks = s.tasks.set i {task with call := call} := by
  obtain ⟨payload,phase,call⟩ := task
  cases phase with
  | waiting f =>
    cases call with
    | none =>
      have hnew : ∀ semaphore : Semaphore.State W,
          Semaphore.next s.semaphore (.call (.poll f waker)) = some semaphore →
          semaphore.calls[s.semaphore.calls.length]? = some (.started (.poll f waker)) →
          (Phase.waiting f).Fits semaphore (some s.semaphore.calls.length) := by
        intro semaphore hsem hget
        refine ⟨(h.fits i _ hi).1.polled hsem,fun c hc => ?_⟩
        cases hc
        exact ⟨_,hget,rfl⟩
      have hown (g : ℕ) (hg : (Phase.waiting f).future? ≠ some g) :
          (∀ w, Semaphore.Op.poll f waker ≠ .poll g w) ∧ Semaphore.Op.poll f waker ≠ .drop g :=
        ⟨fun w heq => hg (by cases heq; rfl),nofun⟩
      obtain ⟨hok,htasks⟩ := h.start hi hx rfl rfl rfl hown hnew
      exact ⟨hok,_,htasks⟩
    | some c => cases hx
  | _ => cases hx

theorem cancel (hi : s.tasks[i]? = some task) (hx : s.cancel i task payload = some t) :
    Ok t ∧ ∃ f, task.phase = .waiting f ∧
      t.tasks = s.tasks.set i ⟨payload,.cancelling f,some s.semaphore.calls.length⟩ := by
  obtain ⟨payload',phase,call⟩ := task
  cases phase with
  | waiting f =>
    cases call with
    | none =>
      have hown (g : ℕ) (hg : (Phase.waiting f).future? ≠ some g) :
          (∀ w : W, Semaphore.Op.drop f ≠ .poll g w) ∧ (Semaphore.Op.drop f : Semaphore.Op W) ≠ .drop g :=
        ⟨nofun,fun heq => hg (by cases heq; rfl)⟩
      obtain ⟨hok,htasks⟩ := h.start hi hx rfl rfl rfl hown fun semaphore hsem hget =>
        ⟨(Semaphore.make_later hsem).1.requested f 1 (h.fits i _ hi).1.requested,_,_,rfl,hget,.start,
          Or.inl hget⟩
      exact ⟨hok,f,rfl,htasks⟩
    | some c => cases hx
  | _ => cases hx

theorem leave (hi : s.tasks[i]? = some task) (hx : s.leave i task payload = some t) :
    Ok t ∧ t.tasks = s.tasks.set i ⟨payload,.releasing,some s.semaphore.calls.length⟩ := by
  obtain ⟨payload',phase,call⟩ := task
  cases phase with
  | holding =>
    obtain rfl : call = none := h.fits i _ hi
    exact h.start hi hx rfl rfl rfl (fun _ _ => ⟨nofun,nofun⟩) fun semaphore hsem hget =>
      ⟨_,_,rfl,hget,.start⟩
  | _ => cases hx

theorem stepped {call' : Option ℕ} (hi : s.tasks[i]? = some ⟨payload,phase,some c⟩)
    {running' : Semaphore.Call W} (hsem : Semaphore.advance s.semaphore c spurious = some semaphore)
    (heffect : Semaphore.Effect s.semaphore c running running' semaphore) (hcarries : Carries s.semaphore semaphore) (hget : s.semaphore.calls[c]? = some running)
    (hcall' : call' = some c ∨ call' = none ∧ ∃ outcome, running' = .finished outcome)
    (hheld : semaphore.held+phase.permits = s.semaphore.held+phase'.permits)
    (hqueued : ∀ f, Queued semaphore f → Queued s.semaphore f ∨ phase'.future? = some f)
    (hfuture : ∀ f, phase.future? = some f → Queued semaphore f → phase'.future? = some f)
    (hphase' : phase'.future? = phase.future? ∨ phase'.future? = none)
    (hnew : phase'.Fits semaphore call') : Ok ⟨semaphore,s.tasks.set i ⟨payload,phase',call'⟩⟩ := by
  have hcalls := heffect.calls_eq
  have hlen : semaphore.calls.length = s.semaphore.calls.length := by rw [hcalls,List.length_set]
  have hget' : semaphore.calls[c]? = some running' := by
    rw [hcalls]
    exact Table.getElem?_set_self' hget running'
  refine h.set hi hcarries ?_ ?_ ?_ ?_ ?_ hheld ?_ hqueued hfuture hnew
  · intro d other hd hother
    rw [hcalls,List.getElem?_set_ne]
    · exact hother
    · rintro rfl
      exact hd rfl
  · rw [hlen]
    exact h.calls.set_old hi (hcall'.imp_right And.left)
  · refine h.attended.advance hi rfl hsem (fun j hji => List.getElem?_set_ne (Ne.symm hji)) ?_
    rcases hcall' with rfl | ⟨-,outcome,rfl⟩
    · exact Or.inr ⟨_,Table.getElem?_set_self' hi _,rfl⟩
    · exact Or.inl ⟨_,hget',rfl⟩
  · rw [heffect.acquires_length]
    exact h.futures.set_old hi hphase'
  · intro j other f hji hj hphase
    have hfits := h.fits j other hj
    rw [hphase] at hfits
    obtain ⟨⟨a,ha,-,hbusy,-⟩,-⟩ := hfits
    have hne : a.busy ≠ some c := fun heq => hji (h.calls.inj j i other _ c hj hi (hbusy ▸ heq) rfl)
    rw [ha]
    exact heffect.kept ha hne
  · have hset := Table.total_set Semaphore.Call.inFlight hget running'
    rw [← hcalls] at hset
    rcases hcall' with rfl | ⟨rfl,outcome,rfl⟩
    · simp only [Task.inFlight,Option.bind_some,hget,hget',Option.elim_some,Semaphore.State.inFlight]
      exact hset
    · simp only [Task.inFlight,Option.bind_some,Option.bind_none,hget,Option.elim_some,
        Option.elim_none,Semaphore.State.inFlight]
      exact hset

end

/-- A task in front of, inside or behind its turn. -/
def Turn (phase phase' : Phase) : Prop :=
  phase' = phase ∨ (∃ f, phase = .waiting f) ∧ phase' = .holding ∨
    ((∃ f, phase = .cancelling f) ∨ phase = .releasing) ∧ phase' = .outside

theorem acquired (h : Ok s) (hi : s.tasks[i]? = some ⟨payload,phase,some c⟩)
    (hsem : Semaphore.advance s.semaphore c spurious = some semaphore)
    (heffect : Semaphore.Effect s.semaphore c running (.finished .acquired) semaphore)
    (hcarries : Carries s.semaphore semaphore) (hget : s.semaphore.calls[c]? = some running)
    (hqueued : ∀ f, Queued semaphore f → Queued s.semaphore f ∨ phase.intent = .poll f)
    (hsettled : ∀ f, phase.intent = .poll f → Semaphore.Settled semaphore f) {n : ℕ}
    (hgain : phase.intent.gain s.semaphore = some n) (hheld : semaphore.held = s.semaphore.held+n) :
    Ok ⟨semaphore,s.tasks.set i ⟨payload,phase.resume .acquired,none⟩⟩ ∧
      Turn phase (phase.resume .acquired) := by
  cases phase with
  | waiting f =>
    obtain rfl : n = 1 := Option.some.inj (hgain.symm.trans (h.fits i _ hi).1.requested)
    have hgone : ¬ Queued semaphore f := (hsettled f rfl).not_queued
    refine ⟨h.stepped hi hsem heffect hcarries hget (Or.inr ⟨rfl,_,rfl⟩) hheld ?_ ?_ (Or.inr rfl) rfl,
      Or.inr (Or.inl ⟨⟨f,rfl⟩,rfl⟩)⟩
    · intro g hg
      refine (hqueued g hg).imp_right fun hpoll => ?_
      cases hpoll
      exact absurd hg hgone
    · rintro g ⟨⟩ hg
      exact absurd hg hgone
  | _ => cases hgain

theorem resumed (h : Ok s) (hi : s.tasks[i]? = some ⟨payload,phase,some c⟩)
    {outcome : Semaphore.Outcome} (hne : outcome ≠ .acquired)
    (hsem : Semaphore.advance s.semaphore c spurious = some semaphore)
    (heffect : Semaphore.Effect s.semaphore c running (.finished outcome) semaphore)
    (hcarries : Carries s.semaphore semaphore) (hget : s.semaphore.calls[c]? = some running)
    (hqueued : ∀ f, Queued semaphore f → Queued s.semaphore f ∨ phase.intent = .poll f)
    (hheld : semaphore.held = s.semaphore.held) :
    Ok ⟨semaphore,s.tasks.set i ⟨payload,phase.resume outcome,none⟩⟩ ∧
      Turn phase (phase.resume outcome) := by
  have hfits := h.fits i _ hi
  cases phase with
  | outside => cases hfits
  | holding => cases hfits
  | waiting f =>
    have hresume : (Phase.waiting f).resume outcome = .waiting f := by
      cases outcome <;> first | rfl | exact absurd rfl hne
    rw [hresume]
    refine ⟨h.stepped hi hsem heffect hcarries hget (Or.inr ⟨rfl,_,rfl⟩) (by rw [hheld]) ?_
      (fun g hg _ => hg) (Or.inl rfl) ⟨?_,fun c hc => by cases hc⟩,Or.inl rfl⟩
    · intro g hg
      refine (hqueued g hg).imp_right fun hpoll => ?_
      cases hpoll
      rfl
    · obtain ⟨old,hold,hpoll⟩ := hfits.2 c rfl
      obtain ⟨call',hcall',hcases⟩ := Semaphore.advance_poll hold hpoll hfits.1 hsem
      cases (heffect.own_call hget).symm.trans hcall'
      rcases hcases with ⟨hpoll,-⟩ | hacquired | ⟨-,hwaits⟩ | ⟨message,r,hpanicked⟩
      · cases hpoll
      · cases hacquired
        exact absurd rfl hne
      · exact hwaits
      · cases hpanicked
  | cancelling f =>
    obtain ⟨-,d,running,⟨⟩,-,-,hdrop⟩ := hfits
    have hgone : ¬ Queued semaphore f := by
      rcases hcarries.later.dropping c f hdrop with hstarted | hsettled
      · rw [heffect.calls_eq,Table.getElem?_set_self' hget] at hstarted
        cases hstarted
      · exact hsettled.not_queued
    refine ⟨h.stepped hi hsem heffect hcarries hget (Or.inr ⟨rfl,_,rfl⟩) (by rw [hheld]; rfl) ?_ ?_ (Or.inr rfl) rfl,
      Or.inr (Or.inr ⟨Or.inl ⟨f,rfl⟩,rfl⟩)⟩
    · intro g hg
      exact (hqueued g hg).imp_right fun hpoll => by cases hpoll
    · rintro g ⟨⟩ hg
      exact absurd hg hgone
  | releasing =>
    refine ⟨h.stepped hi hsem heffect hcarries hget (Or.inr ⟨rfl,_,rfl⟩) (by rw [hheld]; rfl) ?_ ?_ (Or.inr rfl) rfl,
      Or.inr (Or.inr ⟨Or.inr rfl,rfl⟩)⟩
    · intro g hg
      exact (hqueued g hg).imp_right fun hpoll => by cases hpoll
    · intro g hg
      cases hg

theorem advance (h : Ok s) (hi : s.tasks[i]? = some task)
    (hx : s.advance i task spurious = some t) :
    Ok t ∧ ∃ phase call, t.tasks = s.tasks.set i ⟨task.payload,phase,call⟩ ∧ Turn task.phase phase := by
  obtain ⟨payload,phase,call⟩ := task
  obtain ⟨c,hc,hx⟩ := Option.bind_eq_some_iff.mp hx
  obtain rfl : call = some c := hc
  obtain ⟨semaphore,hsem,rfl⟩ := Option.map_eq_some_iff.mp hx
  have hfits := h.fits i _ hi
  have hserving := hfits.serving rfl
  obtain ⟨running,running',hget,heffect,-⟩ := h.lease.advance hsem
  obtain ⟨hlease,hlater,hqueued,hheld⟩ := h.lease.step hserving hsem
  have hcarries : Carries s.semaphore semaphore :=
    h.carries (a := .advance c spurious) hsem hlease hlater
  have hcalls := heffect.calls_eq
  have hown := heffect.own_call hget
  by_cases hended : ∃ outcome, running' = .finished outcome
  · obtain ⟨outcome,rfl⟩ := hended
    simp only [hown]
    rcases hheld with ⟨hne,hsame⟩ | ⟨hacquired,hsettled,n,hgain,hgained⟩
    · rw [hown] at hne
      obtain ⟨hok,hturn⟩ := h.resumed hi (fun heq => hne (by rw [heq])) hsem heffect hcarries hget hqueued hsame
      exact ⟨hok,_,_,rfl,hturn⟩
    · rw [hown] at hacquired
      cases hacquired
      obtain ⟨hok,hturn⟩ := h.acquired hi hsem heffect hcarries hget hqueued hsettled hgain hgained
      exact ⟨hok,_,_,rfl,hturn⟩
  · have hsame : semaphore.held = s.semaphore.held := by
      rcases hheld with ⟨-,hsame⟩ | ⟨hacquired,-⟩
      · exact hsame
      · rw [hown] at hacquired
        exact absurd ⟨_,Option.some.inj hacquired⟩ hended
    have hgoing {op : Semaphore.Op W} {old : Semaphore.Call W} (hold : s.semaphore.calls[c]? = some old)
        (hreturning : Returning op old)
        (hop : op = .release 1 ∨ ∃ f, op = .drop f ∧ s.semaphore.requested f = some 1) :
        Returning op running' := by
      obtain ⟨call',hcall',hcases⟩ := hreturning.advance h.lease hop hold hsem
      cases hown.symm.trans hcall'
      exact (hcases.resolve_left fun heq => hended ⟨_,heq⟩).1
    have htask : (⟨payload,phase,some c⟩ : Task P).phase.Fits semaphore (some c) := by
      cases phase with
      | outside => cases hfits
      | holding => cases hfits
      | waiting f =>
        obtain ⟨old,hold,hpoll⟩ := hfits.2 c rfl
        obtain ⟨running₁,hrunning₁,hcases⟩ := Semaphore.advance_poll hold hpoll hfits.1 hsem
        cases hown.symm.trans hrunning₁
        rcases hcases with ⟨hpoll,hacquires⟩ | hdone | ⟨hdone,-⟩ | ⟨message,r,rfl⟩
        · refine ⟨hfits.1.congr (by rw [hacquires]),fun d hd => ?_⟩
          cases hd
          exact ⟨_,hown,hpoll⟩
        · exact absurd ⟨_,hdone⟩ hended
        · exact absurd ⟨_,hdone⟩ hended
        · exact absurd rfl (hlease.sound _ (List.mem_of_getElem? hown) message r)
      | cancelling f =>
        obtain ⟨hrequested,d,old,⟨⟩,hold,hreturning,hdrop⟩ := hfits
        exact ⟨hlater.requested f 1 hrequested,c,_,rfl,hown,
          hgoing hold hreturning (Or.inr ⟨f,rfl,hrequested⟩),hlater.dropping c f hdrop⟩
      | releasing =>
        obtain ⟨d,old,⟨⟩,hold,hreturning⟩ := hfits
        exact ⟨c,_,rfl,hown,hgoing hold hreturning (Or.inl rfl)⟩
    have hfuture : ∀ f, Queued semaphore f → Queued s.semaphore f ∨ phase.future? = some f := by
      intro f hf
      refine (hqueued f hf).imp_right fun hpoll => ?_
      rw [show phase = .waiting f from Phase.future?_intent hpoll]
      rfl
    have hstep := h.stepped hi hsem heffect hcarries hget (Or.inl rfl) (by rw [hsame]) hfuture
      (fun f hf _ => hf) (Or.inl rfl) htask
    have htasks : s.tasks = s.tasks.set i ⟨payload,phase,some c⟩ := (Table.set_self hi).symm
    rw [Table.set_self hi] at hstep
    split
    · next outcome hfinished => exact absurd ⟨outcome,Option.some.inj (hown.symm.trans hfinished)⟩ hended
    · exact ⟨hstep,phase,some c,htasks,Or.inl rfl⟩

theorem exclusive (h : Ok s) {j : ℕ} {other : Task P} (hi : s.tasks[i]? = some task)
    (hj : s.tasks[j]? = some other) (htask : task.phase = .holding)
    (hother : other.phase = .holding) : i = j := by
  by_contra hij
  have hle := Table.add_le_total Task.permits hij hi hj
  have htotal := h.lease.total
  have h₁ : task.permits = 1 := by rw [Task.permits,htask]; rfl
  have h₂ : other.permits = 1 := by rw [Task.permits,hother]; rfl
  rw [h.held] at hle
  omega

theorem balance (h : Ok s) : s.semaphore.available+s.semaphore.assigned+
    Table.total Task.permits s.tasks+Table.total (Task.inFlight s.semaphore) s.tasks = 1 := by
  have htotal := h.lease.total
  have hflight := s.semaphore.inFlight_eq
  rw [h.held,h.inFlight]
  omega

end Ok

inductive Place
  | before | acquiring | inside | after
  deriving DecidableEq

def Place.Fits (phase : Phase) : Place → Prop
  | .before => phase = .outside
  | .acquiring => (∃ f, phase = .waiting f) ∨ phase = .holding
  | .inside => phase = .holding
  | .after => ∀ f, phase ≠ .waiting f

/-- The payloads of the tasks know where they are. -/
structure Placed [Wake W] (place : P → Place) (s : State P W) : Prop where
  ok : Ok s
  fits : ∀ (i : ℕ) task, s.tasks[i]? = some task → (place task.payload).Fits task.phase

namespace Placed

variable [Wake W] {place : P → Place} {s t : State P W} {i : ℕ} {task : Task P} {payload : P}

theorem new (place : P → Place) : Placed place (Turns.new P W) :=
  ⟨.new,fun i task hi => by cases hi⟩

theorem add (h : Placed place s) (hp : place payload = .before) : Placed place (s.add payload) := by
  refine ⟨h.ok.add payload,fun i task hi => ?_⟩
  rcases Table.getElem?_push hi with hi | ⟨-,rfl⟩
  · exact h.fits i task hi
  · rw [hp]
    rfl

theorem set (h : Placed place s) (hok : Ok t) {new : Task P} (htasks : t.tasks = s.tasks.set i new)
    (hnew : (place new.payload).Fits new.phase) : Placed place t := by
  refine ⟨hok,fun j other hj => ?_⟩
  rw [htasks] at hj
  rcases Table.getElem?_set_cases hj with ⟨-,rfl⟩ | ⟨-,hj⟩
  · exact hnew
  · exact h.fits j other hj

section

variable (h : Placed place s) (hi : s.tasks[i]? = some task)
include h hi

theorem restage (hp : (place payload).Fits task.phase) :
    Placed place (s.setTask i {task with payload := payload}) :=
  h.set (h.ok.restage hi payload) rfl hp

theorem enter (hb : place task.payload = .before) (hp : place payload = .acquiring)
    (hx : s.enter i payload = some t) :
    Placed place t ∧ ∃ f, t.tasks = s.tasks.set i ⟨payload,.waiting f,none⟩ := by
  have hfits := h.fits i task hi
  rw [hb] at hfits
  obtain ⟨hok,f,htasks⟩ := h.ok.enter hi hfits hx
  refine ⟨h.set hok htasks ?_,f,htasks⟩
  rw [hp]
  exact Or.inl ⟨f,rfl⟩

theorem poll {waker : W} (hx : s.poll i task waker = some t) :
    Placed place t ∧ ∃ call, t.tasks = s.tasks.set i {task with call := call} := by
  obtain ⟨hok,call,htasks⟩ := h.ok.poll hi hx
  exact ⟨h.set hok htasks (h.fits i task hi),call,htasks⟩

theorem cancel (hp : place payload = .after) (hx : s.cancel i task payload = some t) :
    Placed place t ∧ ∃ phase call, t.tasks = s.tasks.set i ⟨payload,phase,call⟩ := by
  obtain ⟨hok,f,-,htasks⟩ := h.ok.cancel hi hx
  refine ⟨h.set hok htasks ?_,_,_,htasks⟩
  rw [hp]
  exact fun g hg => by cases hg

theorem leave (hp : place payload = .after) (hx : s.leave i task payload = some t) :
    Placed place t ∧ ∃ phase call, t.tasks = s.tasks.set i ⟨payload,phase,call⟩ := by
  obtain ⟨hok,htasks⟩ := h.ok.leave hi hx
  refine ⟨h.set hok htasks ?_,_,_,htasks⟩
  rw [hp]
  exact fun g hg => by cases hg

theorem advance {spurious : Bool} (hx : s.advance i task spurious = some t) :
    Placed place t ∧ ∃ phase call, t.tasks = s.tasks.set i ⟨task.payload,phase,call⟩ := by
  obtain ⟨hok,phase,call,htasks,hturn⟩ := h.ok.advance hi hx
  have hfits := h.fits i task hi
  refine ⟨h.set hok htasks ?_,phase,call,htasks⟩
  rcases hturn with hsame | ⟨⟨f,hwaiting⟩,hholding⟩ | ⟨hold,houtside⟩
  · rw [hsame]
    exact hfits
  · cases hplace : place task.payload with
    | acquiring => exact Or.inr hholding
    | after =>
      rw [hplace] at hfits
      exact absurd hwaiting (hfits f)
    | _ =>
      rw [hplace,hwaiting] at hfits
      cases hfits
  · cases hplace : place task.payload with
    | before => exact houtside
    | after =>
      intro f hf
      rw [houtside] at hf
      cases hf
    | acquiring =>
      rw [hplace] at hfits
      rcases hfits with ⟨f,hf⟩ | hf <;> rw [hf] at hold <;>
        rcases hold with ⟨g,hg⟩ | hg <;> cases hg
    | inside =>
      rw [hplace] at hfits
      have hphase : task.phase = .holding := hfits
      rw [hphase] at hold
      rcases hold with ⟨g,hg⟩ | hg <;> cases hg

theorem inside_unique {j : ℕ} {other : Task P} (hj : s.tasks[j]? = some other)
    (htask : place task.payload = .inside) (hother : place other.payload = .inside) : i = j := by
  have h₁ := h.fits i task hi
  have h₂ := h.fits j other hj
  rw [htask] at h₁
  rw [hother] at h₂
  exact h.ok.exclusive hi hj h₁ h₂

end

end Placed
end Turns
end Asyncband
