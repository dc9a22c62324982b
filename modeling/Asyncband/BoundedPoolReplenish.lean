import Asyncband.BoundedPoolCapacity
import Asyncband.SemaphoreSolo

/-! A `replenish_to` that nothing else disturbs.
When no other operation is in progress, the permits that the call drains, the count that
it finds and the idle objects determine how many objects it creates. -/
namespace Asyncband
namespace BoundedPool

open Pool Relation

variable {T W : Type} {s : State T W} {stage : Stage T}

/-- What `act` does to the semaphore: nothing, or it makes a call for task `i`. -/
theorem State.act_shape [Wake W] {t : State T W} {i : ℕ} {use : Use T W}
    (h : s.act i stage use = some (.ok t)) :
    (∃ stage', t.permits = s.permits ∧ t.tasks = s.tasks.set i ⟨stage',none⟩) ∨
      ∃ stage' op, Semaphore.next s.permits (.call op) = some t.permits ∧
        t.tasks = s.tasks.set i ⟨stage',some s.permits.calls.length⟩ := by
  have hstart {stage' : Stage T} {op : Semaphore.Op W} (h : s.start i stage' op = some (.ok t)) :
      ∃ stage' op, Semaphore.next s.permits (.call op) = some t.permits ∧
        t.tasks = s.tasks.set i ⟨stage',some s.permits.calls.length⟩ := by
    obtain ⟨permits,hsem,⟨⟩⟩ := Option.map_eq_some_iff.mp h
    exact ⟨stage',op,hsem,rfl⟩
  have hrelease {reservation : ReplenishReservation} {n : ℕ}
      {stage' : ReplenishReservation → Stage T}
      (h : s.releaseReserved i reservation n stage' = some (.ok t)) :
      ∃ stage' op, Semaphore.next s.permits (.call op) = some t.permits ∧
        t.tasks = s.tasks.set i ⟨stage',some s.permits.calls.length⟩ := by
    unfold State.releaseReserved at h
    split at h
    · exact hstart h
    · cases h
  have hslots {x : Except String (PoolState T)} {stage' : Stage T}
      (h : some (do let slots ← x; .ok ((s.setSlots slots).setTask i stage')) =
        some (Except.ok t)) :
      ∃ stage', t.permits = s.permits ∧ t.tasks = s.tasks.set i ⟨stage',none⟩ := by
    obtain ⟨slots,-,⟨⟩⟩ := bind_eq_ok (Option.some.inj h)
    exact ⟨stage',rfl,rfl⟩
  cases stage with
  | acquiring | leaving => cases use <;> first | exact Or.inr (hstart h) | cases h
  | selecting =>
    cases use with
    | proceed =>
      simp only [State.act] at h
      split at h <;> cases h <;> exact Or.inl ⟨_,rfl,rfl⟩
    | _ => cases h
  | creating =>
    cases use with
    | created o now =>
      obtain ⟨slots,-,⟨⟩⟩ := bind_eq_ok (Option.some.inj h)
      exact Or.inl ⟨_,rfl,rfl⟩
    | _ => cases h <;> exact Or.inl ⟨_,rfl,rfl⟩
  | recycling state =>
    cases use with
    | checked recyclable =>
      cases recyclable with
      | true =>
        obtain ⟨status,-,⟨⟩⟩ := bind_eq_ok (Option.some.inj h)
        exact Or.inl ⟨_,rfl,rfl⟩
      | false => exact Or.inl (hslots h)
    | cancel => exact Or.inl (hslots h)
    | _ => cases h <;> exact Or.inl ⟨_,rfl,rfl⟩
  | object state =>
    cases use with
    | drop now => exact Or.inl (hslots h)
    | detach => exact Or.inl (hslots h)
    | _ => cases h <;> exact Or.inl ⟨_,rfl,rfl⟩
  | reserved targetIdle reservation =>
    cases use with
    | proceed =>
      obtain ⟨n,-,⟨⟩⟩ := bind_eq_ok (Option.some.inj h)
      exact Or.inl ⟨_,rfl,rfl⟩
    | _ => cases h
  | trimming toCreate reservation =>
    cases use with
    | proceed =>
      simp only [State.act] at h
      split at h
      · exact Or.inr (hrelease h)
      · cases h
    | _ => cases h
  | filling toCreate replenished reservation =>
    cases toCreate with
    | zero => cases use <;> first | exact Or.inr (hstart h) | cases h
    | succ toCreate =>
      cases use with
      | created o now =>
        obtain ⟨slots,-,⟨⟩⟩ := bind_eq_ok (Option.some.inj h)
        exact Or.inl ⟨_,rfl,rfl⟩
      | _ => first | exact Or.inr (hstart h) | cases h
  | inserted toCreate replenished reservation =>
    cases use <;> first | exact Or.inr (hrelease h) | cases h
  | _ => cases use <;> cases h

section Attendance

variable {s t : State T W} {i : ℕ} {stage : Stage T}

/-- Every semaphore call that has not ended belongs to a task. -/
abbrev Attended (s : State T W) : Prop := Semaphore.Attended Task.call s.permits s.tasks

variable [Wake W]

theorem Attended.advance (h : Attended s) {c : ℕ} {spurious : Bool}
    (hi : s.tasks[i]? = some ⟨stage,some c⟩) (hn : s.advance i stage c spurious = some t) :
    Attended t := by
  obtain ⟨permits,hsem,rfl⟩ := Option.map_eq_some_iff.mp hn
  split
  · next outcome hdone =>
    refine Semaphore.Attended.advance h hi rfl hsem (fun j hj => ?_) (Or.inl ⟨_,hdone,rfl⟩)
    exact List.getElem?_set_ne (Ne.symm hj)
  · exact Semaphore.Attended.advance h hi rfl hsem (fun _ _ => rfl) (Or.inr ⟨_,hi,rfl⟩)

theorem Attended.perform {a : Action T W} (h : Attended s) (hx : s.perform a = some (.ok t)) :
    Attended t := by
  cases a with
  | get =>
    simp only [State.perform] at hx
    obtain ⟨u,hu,⟨⟩⟩ := Option.map_eq_some_iff.mp hx
    obtain ⟨permits,hsem,rfl⟩ := Option.map_eq_some_iff.mp hu
    exact h.create hsem fun j task hj _ => Table.getElem?_push_old hj _
  | replenishTo targetIdle =>
    simp only [State.perform] at hx
    obtain ⟨u,hu,⟨⟩⟩ := Option.map_eq_some_iff.mp hx
    obtain ⟨permits,hsem,rfl⟩ := Option.map_eq_some_iff.mp hu
    refine h.make hsem ⟨s.tasks.length,_,List.getElem?_concat_length,rfl⟩ ?_
    exact fun j task hj _ => Table.getElem?_push_old hj _
  | retain f =>
    simp only [State.perform,State.retain,Option.some.injEq] at hx
    cases hretain : s.slots.retain (State.numbered f) 0 with
    | error message =>
      rw [hretain] at hx
      cases hx
    | ok result =>
      rw [hretain] at hx
      cases hx
      exact h
  | status =>
    cases hx
    exact h
  | use i use =>
    simp only [State.perform] at hx
    split at hx
    · next stage hi =>
      have hkept := Semaphore.Attended.kept_of_set hi (rfl : Task.call ⟨stage,none⟩ = none)
      rcases State.act_shape hx with ⟨stage',hpermits,htasks⟩ | ⟨stage',op,hsem,htasks⟩
      · rw [Attended,hpermits,htasks]
        exact h.keep (hkept _)
      · refine h.make hsem ⟨i,⟨stage',some s.permits.calls.length⟩,?_,rfl⟩ (htasks ▸ hkept _)
        rw [htasks]
        exact Table.getElem?_set_self' hi _
    · cases hx
  | advance i spurious =>
    simp only [State.perform] at hx
    split at hx
    · next stage c hi =>
      obtain ⟨u,hu,⟨⟩⟩ := Option.map_eq_some_iff.mp hx
      exact h.advance hi hu
    · cases hx

theorem next_attended {a : Action T W} (h : Attended s) (hn : s.next a = some t) : Attended t := by
  obtain ⟨-,x,hx,rfl⟩ := Transition.step_eq_some hn
  cases x with
  | error message => exact h
  | ok t => exact h.perform hx

theorem reachable_attended (h : (machine T W).Reachable s) : Attended s := by
  apply (machine T W).invariant Attended _ (fun _ _ _ hs hn => next_attended hs hn) h
  rintro s₀ ⟨config,-,hnew⟩
  unfold new at hnew
  split at hnew
  · cases hnew
    exact .new _
  · cases hnew

end Attendance

def Task.quiet : Task T → Bool
  | ⟨.object _,none⟩ | ⟨.done _,none⟩ => true
  | _ => false

def State.Quiet (s : State T W) : Prop := s.tasks.all Task.quiet = true

theorem State.Quiet.task (h : s.Quiet) {task : Task T} (hmem : task ∈ s.tasks) :
    task.call = none ∧
      ((∃ state, task.stage = .object state) ∨ ∃ result, task.stage = .done result) := by
  have hquiet := List.all_eq_true.mp h task hmem
  obtain ⟨stage,call⟩ := task
  cases call with
  | some c => cases stage <;> cases hquiet
  | none =>
    cases stage with
    | object state => exact ⟨rfl,Or.inl ⟨state,rfl⟩⟩
    | done result => exact ⟨rfl,Or.inr ⟨result,rfl⟩⟩
    | _ => cases hquiet

theorem State.Quiet.lock_free (hq : s.Quiet) (h : Attended s) : s.permits.lock = none := by
  refine h.guarded.free fun c call hc => (h.call c call hc).resolve_right ?_
  rintro ⟨i,task,hi,htask⟩
  cases (hq.task (List.mem_of_getElem? hi)).1.symm.trans htask

/-- How the future of one call of `create` ends. -/
inductive Creation (T : Type)
  | created (o : T) (now : ℕ) | failed | cancelled

namespace Creation

def use : Creation T → Use T W
  | .created o now => .created o now
  | .failed => .failed
  | .cancelled => .cancel

def succeeds : Creation T → Bool
  | .created _ _ => true
  | _ => false

end Creation

/-- How many idle objects a `replenish_to` with this target leaves. -/
def State.goal (s : State T W) (target : ℕ) : ℕ :=
  max (min target (s.config.maxSize-s.checkedOut)) s.slots.idle.length

def State.missing (s : State T W) (target : ℕ) : ℕ := s.goal target-s.slots.idle.length

/-- One step of the call that is task `i`, which began when `base` objects had been
created. The futures of its calls of `create` end as `creations` says. -/
inductive Replenish [Wake W] (i base : ℕ) (creations : ℕ → Creation T) (t u : State T W) : Prop
  | advance (spurious : Bool) (h : t.next (.advance i spurious) = some u)
  | proceed (h : t.next (.use i .proceed) = some u)
  | create (h : t.next (.use i (creations (t.created-base)).use) = some u)

/-- How a stage of the call fits to the `k` objects it has added. -/
def Stage.Fits (s : State T W) (target : ℕ) (creations : ℕ → Creation T) (k : ℕ) : Stage T → Prop
  | .reserving n => k = 0 ∧ n = min target s.config.maxSize
  | .reserved n reservation => k = 0 ∧ n = min target s.config.maxSize ∧
      reservation.permits = min n (s.config.maxSize-s.checkedOut)
  | .trimming toCreate _ => k = 0 ∧ toCreate = s.missing target
  | .filling toCreate replenished _ | .inserted toCreate replenished _ =>
      replenished = k ∧ toCreate+k = s.missing target
  | .releasing _ (some n) | .done (some n) => n = k ∧ k = s.missing target
  | .releasing _ none | .done none => k < s.missing target ∧ (creations k).succeeds = false
  | _ => False

/-- The pool while the call runs alone, with `k` objects added. -/
structure Solo [Wake W] (s : State T W) (target : ℕ) (creations : ℕ → Creation T) (t : State T W)
    (stage : Stage T) (call : Option ℕ) (k : ℕ) : Prop where
  ok : Ok t
  config : t.config = s.config
  tasks : t.tasks = s.tasks++[⟨stage,call⟩]
  created : t.created = s.created+k
  idle : ∃ added, t.slots.idle = s.slots.idle++added ∧ added.length = k
  size : t.slots.currentSize = s.slots.currentSize+k
  succeeded : ∀ j, j < k → (creations j).succeeds = true
  fits : stage.Fits s target creations k

/-- A checked-out object holds one permit, a task that has ended holds none. -/
theorem State.Quiet.totals (h : s.Quiet) (permits : Semaphore.State W) :
    Table.total Task.permits s.tasks = s.checkedOut ∧
      Table.total (Task.inFlight permits) s.tasks = 0 ∧
      ∀ task ∈ s.tasks, task.stage.future? = none := by
  refine ⟨Table.total_congr fun task hmem => ?_,Table.total_eq_zero.mpr fun i task hi => ?_,
    fun task hmem => ?_⟩
  · rcases (h.task hmem).2 with ⟨state,hstage⟩ | ⟨result,hstage⟩ <;>
      simp only [Task.permits,hstage] <;> rfl
  · rw [Task.inFlight,(h.task (List.mem_of_getElem? hi)).1]
    rfl
  · rcases (h.task hmem).2 with ⟨state,hstage⟩ | ⟨result,hstage⟩ <;> rw [hstage] <;> rfl

theorem Stage.Fits.future {target k : ℕ} {creations : ℕ → Creation T}
    (h : stage.Fits s target creations k) : stage.future? = none := by
  cases stage <;> first | rfl | cases h

section Solo

variable [Wake W] {s t u : State T W} {target k : ℕ} {creations : ℕ → Creation T}
  {stage stage' : Stage T} {call call' : Option ℕ}
variable {i c : ℕ} {q : Semaphore.State W} {outcome : Semaphore.Outcome}
    {reservation : ReplenishReservation}

namespace Solo

section

variable (h : Solo s target creations t stage call k)
include h

theorem own : t.tasks[s.tasks.length]? = some ⟨stage,call⟩ := by
  rw [h.tasks]
  exact List.getElem?_concat_length

theorem set_own (task : Task T) : t.tasks.set s.tasks.length task = s.tasks++[task] := by
  rw [h.tasks,List.set_append_right _ _ le_rfl,Nat.sub_self]
  rfl

theorem no_future (hq : s.Quiet) (f : ℕ) : ¬Semaphore.Queued t.permits f := by
  intro hf
  obtain ⟨j,task,hj,hfuture⟩ := h.ok.funded.queued f hf
  rw [h.tasks] at hj
  rcases Table.getElem?_push hj with hj | ⟨-,rfl⟩
  · cases ((hq.totals t.permits).2.2 task (List.mem_of_getElem? hj)).symm.trans hfuture
  · cases h.fits.future.symm.trans hfuture

theorem vacant (hq : s.Quiet) : t.permits.waiters.order = [] := by
  rw [List.eq_nil_iff_forall_not_mem]
  intro id hid
  obtain ⟨node,hnode⟩ := WaitList.get?_of_mem_order hid
  have hloan := h.ok.funded.loan
  obtain ⟨f,hf⟩ := Option.isSome_iff_exists.mp (hloan.owned id node hnode)
  obtain ⟨a,ha,hphase,-⟩ := hloan.inv.queue.owner_phase hnode hf
  exact h.no_future hq f ⟨a,id,ha,hphase⟩

/-- The permits are available, with the checked-out objects, or with the call. -/
theorem available (hq : s.Quiet) :
    t.permits.available+stage.permits+(Task.mk stage call).inFlight t.permits+s.checkedOut =
      s.config.maxSize := by
  obtain ⟨hpermits,hflight,-⟩ := hq.totals t.permits
  have htaken := h.ok.funded.taken
  have hinFlight := h.ok.funded.inFlight
  have htotal := h.ok.funded.loan.total
  have hassigned := Semaphore.assigned_eq_zero (h.no_future hq)
  rw [Semaphore.State.inFlight_eq] at hinFlight
  simp only [h.tasks,Table.total_append,Table.total_cons,Table.total_nil,hpermits,hflight]
    at htaken hinFlight
  have hown : (Task.mk stage call).permits = stage.permits := rfl
  rw [h.config] at htotal
  omega

theorem move (hok : Ok u) (hconfig : u.config = t.config)
    (htasks : u.tasks = t.tasks.set s.tasks.length ⟨stage',call'⟩) (hslots : u.slots = t.slots)
    (hcreated : u.created = t.created) (hfits : stage'.Fits s target creations k) :
    Solo s target creations u stage' call' k where
  ok := hok
  config := hconfig.trans h.config
  tasks := htasks.trans (h.set_own _)
  created := hcreated.trans h.created
  idle := hslots ▸ h.idle
  size := hslots ▸ h.size
  succeeded := h.succeeded
  fits := hfits

end

variable {spurious : Bool} {n : ℕ}

theorem resume (h : Solo s target creations t stage (some c) k) (hq : s.Quiet)
    {permits : Semaphore.State W} {outcome : Semaphore.Outcome}
    (hsem : Semaphore.advance t.permits c spurious = some permits)
    (hend : permits.calls[c]? = some (.finished outcome)) :
    (State.resume stage outcome).Fits s target creations k := by
  have htask := h.ok.funded.task _ _ h.own
  have hfits := h.fits
  cases stage with
  | reserving n =>
    obtain ⟨rfl,hn⟩ : k = 0 ∧ n = min target s.config.maxSize := hfits
    have hdraining : Semaphore.Draining t.permits c n := htask.call c rfl
    have havailable : t.permits.available+s.checkedOut = s.config.maxSize := by
      have hall := h.available hq
      obtain ⟨call,hcall,rfl | ⟨loaded,rfl⟩⟩ := hdraining <;>
        simpa [Task.inFlight,hcall,Stage.permits,Semaphore.Call.inFlight,Semaphore.Call.remaining,
          Semaphore.Call.argument] using hall
    rcases Semaphore.advance_draining hdraining hsem with ⟨⟨call,hcall,hkind⟩,-⟩ | ⟨d,hdone,-⟩
    · rcases hkind with rfl | ⟨loaded,rfl⟩ <;> cases hcall.symm.trans hend
    · cases hdone.symm.trans hend
      have hd := Semaphore.drained_eq hdraining hsem hdone
      cases d with
      | zero =>
        refine ⟨rfl,?_⟩
        simp only [State.missing,State.goal]
        omega
      | succ d =>
        refine ⟨rfl,hn,?_⟩
        show d+1 = _
        omega
  | filling toCreate replenished reservation => exact hfits
  | releasing owner result => cases result <;> exact hfits
  | acquiring f => cases hfits
  | cancelling f => cases hfits
  | _ => exact absurd (htask.calling c rfl) (by simp [Stage.calling])

theorem advance (h : Solo s target creations t stage call k) (hq : s.Quiet)
    (hn : t.next (.advance s.tasks.length spurious) = some u) :
    ∃ stage' call', Solo s target creations u stage' call' k := by
  obtain ⟨-,x,hx,rfl⟩ := Transition.step_eq_some hn
  simp only [State.perform,h.own] at hx
  cases call with
  | none => cases hx
  | some c =>
    obtain ⟨u,hu,rfl⟩ := Option.map_eq_some_iff.mp hx
    have hok := h.ok.advance h.own hu
    obtain ⟨permits,hsem,rfl⟩ := Option.map_eq_some_iff.mp hu
    split
    · next outcome hend =>
      rw [hend] at hok
      exact ⟨_,none,h.move hok rfl rfl rfl rfl (h.resume hq hsem hend)⟩
    · next hgoes =>
      split at hok
      · next outcome hend => exact absurd hend (hgoes outcome)
      · exact ⟨stage,some c,h.move hok rfl (Table.set_self h.own).symm rfl rfl h.fits⟩

theorem toCreate (h : Solo s target creations t (.reserved n reservation) none k) (hq : s.Quiet) :
    t.toCreate n reservation = .ok (s.missing target) := by
  obtain ⟨rfl,hn,hreserved⟩ : k = 0 ∧ n = min target s.config.maxSize ∧
    reservation.permits = min n (s.config.maxSize-s.checkedOut) := h.fits
  have havailable : t.permits.available+reservation.permits+0+s.checkedOut = s.config.maxSize :=
    h.available hq
  have hmax := h.ok.maxSize_le
  obtain ⟨added,hidle,hadded⟩ := h.idle
  have hlength : t.slots.idle.length = s.slots.idle.length := by
    rw [hidle,List.length_append,hadded,Nat.add_zero]
  rw [h.config] at hmax
  rw [State.toCreate,if_pos (by omega),hlength]
  simp only [State.missing,State.goal]
  congr 1
  omega

theorem start (h : Solo s target creations t stage call k) (hok : Ok u) {op : Semaphore.Op W}
    (hu : t.start s.tasks.length stage' op = some (.ok u))
    (hfits : stage'.Fits s target creations k) :
    ∃ stage' call', Solo s target creations u stage' call' k := by
  obtain ⟨permits,hsem,⟨⟩⟩ := Option.map_eq_some_iff.mp hu
  exact ⟨stage',_,h.move hok rfl rfl rfl rfl hfits⟩

theorem releaseReserved (h : Solo s target creations t stage call k) (hok : Ok u)
    {toCreate replenished : ℕ}
    (hu : t.releaseReserved s.tasks.length reservation n (.filling toCreate replenished) =
      some (.ok u)) (hfits : replenished = k ∧ toCreate+k = s.missing target) :
    ∃ stage' call', Solo s target creations u stage' call' k := by
  unfold State.releaseReserved at hu
  split at hu
  · exact h.start hok hu hfits
  · cases hu

theorem act (h : Solo s target creations t stage none k) (hq : s.Quiet) {use : Use T W}
    (huse : use = .proceed ∨ use = (creations k).use) (hok : Ok u)
    (hu : t.act s.tasks.length stage use = some (.ok u)) :
    ∃ stage' call' k', Solo s target creations u stage' call' k' := by
  have hfits := h.fits
  cases stage with
  | reserved n reservation =>
    cases use with
    | proceed =>
      simp only [State.act,h.toCreate hq,bind,Except.bind,Option.some.injEq,Except.ok.injEq] at hu
      subst hu
      exact ⟨_,_,k,h.move hok rfl rfl rfl rfl ⟨hfits.1,rfl⟩⟩
    | _ => cases hu
  | trimming toCreate reservation =>
    obtain ⟨rfl,hcreate⟩ : k = 0 ∧ toCreate = s.missing target := hfits
    cases use with
    | proceed =>
      simp only [State.act] at hu
      split at hu
      · obtain ⟨stage',call',hsolo⟩ := h.releaseReserved hok hu ⟨rfl,hcreate⟩
        exact ⟨stage',call',0,hsolo⟩
      · cases hu
    | _ => cases hu
  | filling toCreate replenished reservation =>
    obtain ⟨rfl,hcreate⟩ : replenished = k ∧ toCreate+k = s.missing target := hfits
    cases toCreate with
    | zero =>
      cases use with
      | proceed =>
        obtain ⟨stage',call',hsolo⟩ := h.start hok hu ⟨rfl,by omega⟩
        exact ⟨stage',call',_,hsolo⟩
      | _ => cases hu
    | succ toCreate =>
      have hdrop (hfails : (creations replenished).succeeds = false)
          (hu : t.start s.tasks.length (.releasing .replenish none)
            (.release reservation.permits) = some (.ok u)) :
          ∃ stage' call' k', Solo s target creations u stage' call' k' := by
        obtain ⟨stage',call',hsolo⟩ := h.start hok hu ⟨by omega,hfails⟩
        exact ⟨stage',call',_,hsolo⟩
      rcases huse with rfl | rfl
      · cases hu
      · cases hcreation : creations replenished with
        | failed | cancelled =>
          rw [hcreation] at hu
          exact hdrop (by rw [hcreation]; rfl) hu
        | created o now =>
          rw [hcreation] at hu
          obtain ⟨slots,hslots,⟨⟩⟩ := bind_eq_ok (Option.some.inj hu)
          obtain ⟨size,hsize,⟨⟩⟩ := bind_eq_ok hslots
          obtain rfl : size = t.slots.currentSize+1 := Checked.add_eq hsize
          obtain ⟨added,hidle,hadded⟩ := h.idle
          refine ⟨.inserted toCreate (replenished+1) reservation,none,replenished+1,hok,h.config,
            h.set_own _,?_,⟨added++[t.newObject o now],?_,?_⟩,?_,?_,rfl,?_⟩
          · show t.created+1 = _
            rw [h.created]
            rfl
          · show t.slots.idle++[t.newObject o now] = _
            rw [hidle,List.append_assoc]
          · rw [List.length_append,hadded]
            rfl
          · show t.slots.currentSize+1 = _
            rw [h.size]
            rfl
          · intro j hj
            rcases Nat.lt_succ_iff_lt_or_eq.mp hj with hj | rfl
            · exact h.succeeded j hj
            · rw [hcreation]
              rfl
          · omega
  | inserted toCreate replenished reservation =>
    obtain ⟨rfl,hcreate⟩ : replenished = k ∧ toCreate+k = s.missing target := hfits
    cases use with
    | proceed =>
      obtain ⟨stage',call',hsolo⟩ := h.releaseReserved hok hu ⟨rfl,hcreate⟩
      exact ⟨stage',call',_,hsolo⟩
    | _ => cases hu
  | reserving | releasing | done => cases use <;> cases hu
  | _ => cases hfits

section

variable (h : Solo s target creations t stage call k)
include h

theorem use_inv {use : Use T W} (hn : t.next (.use s.tasks.length use) = some u) :
    call = none ∧ t.act s.tasks.length stage use = some (.ok u) ∧ Ok u := by
  obtain ⟨-,x,hx,rfl⟩ := Transition.step_eq_some hn
  simp only [State.perform,h.own] at hx
  cases call with
  | some c => cases hx
  | none =>
    obtain ⟨v,rfl,hok⟩ := h.ok.act h.own hx fun state hstage => (hstage ▸ h.fits).elim
    exact ⟨rfl,hx,hok⟩

theorem step (hq : s.Quiet) (hstep : Replenish s.tasks.length s.created creations t u) :
    ∃ stage' call' k', Solo s target creations u stage' call' k' := by
  cases hstep with
  | advance spurious hn =>
    obtain ⟨stage',call',hsolo⟩ := h.advance hq hn
    exact ⟨stage',call',k,hsolo⟩
  | proceed hn =>
    obtain ⟨rfl,hu,hok⟩ := h.use_inv hn
    exact h.act hq (Or.inl rfl) hok hu
  | create hn =>
    obtain ⟨rfl,hu,hok⟩ := h.use_inv hn
    have hk : t.created-s.created = k := by rw [h.created,Nat.add_sub_cancel_left]
    exact h.act hq (Or.inr (by rw [hk])) hok hu

theorem run (hq : s.Quiet) (hrun : ReflTransGen (Replenish s.tasks.length s.created creations) t u) :
    ∃ stage' call' k', Solo s target creations u stage' call' k' := by
  induction hrun with
  | refl => exact ⟨stage,call,k,h⟩
  | tail _ hstep ih =>
    obtain ⟨stage',call',k',hsolo⟩ := ih
    exact hsolo.step hq hstep

theorem stage_eq (hown : t.tasks[s.tasks.length]? = some ⟨stage',call'⟩) :
    stage = stage' ∧ call = call' := by
  cases h.own.symm.trans hown
  exact ⟨rfl,rfl⟩

end

end Solo

/-- The call comes to its end by its own steps. -/
def Finishes (s : State T W) (creations : ℕ → Creation T) (t : State T W) : Prop :=
  ∃ u result, ReflTransGen (Replenish s.tasks.length s.created creations) t u ∧
    u.tasks[s.tasks.length]? = some ⟨.done result,none⟩

theorem Finishes.step (hstep : Replenish s.tasks.length s.created creations t u)
    (h : Finishes s creations u) : Finishes s creations t := by
  obtain ⟨v,result,hrun,hend⟩ := h
  exact ⟨v,result,ReflTransGen.head hstep hrun,hend⟩

theorem State.advance_finished (hsem : Semaphore.advance t.permits c false = some q)
    (hend : q.calls[c]? = some (.finished outcome)) :
    t.advance i stage c false = some {t with
      permits := q
      tasks := t.tasks.set i ⟨State.resume stage outcome,none⟩} := by
  simp only [State.advance,hsem,Option.map_some,hend]

theorem State.advance_running (hsem : Semaphore.advance t.permits c false = some q)
    (hgoes : ∀ o, q.calls[c]? ≠ some (.finished o)) :
    t.advance i stage c false = some {t with permits := q} := by
  simp only [State.advance,hsem,Option.map_some]

/-- The steps of a semaphore call are steps of the pool, the last of which goes on with the
code after the call. -/
theorem lift_steps {base : ℕ} {p p' : Semaphore.State W} (hsteps : Semaphore.Steps c p p')
    (hend : p'.calls[c]? = some (.finished outcome)) (hrunning : ∀ o, p.calls[c]? ≠ some (.finished o))
    (hpermits : t.permits = p) (hi : t.tasks[i]? = some ⟨stage,some c⟩) (hsound : t.panicked = none) :
    ReflTransGen (Replenish i base creations) t {t with
      permits := p'
      tasks := t.tasks.set i ⟨State.resume stage outcome,none⟩} := by
  induction hsteps using ReflTransGen.head_induction_on generalizing t with
  | refl => exact absurd hend (hrunning outcome)
  | @head p q hstep hrest ih =>
    have hnext {u : State T W} (hu : t.advance i stage c false = some u) :
        t.next (.advance i false) = some u := by
      apply Transition.step_of_act hsound
      simp only [State.perform,hi,hu,Option.map_some]
    subst hpermits
    by_cases hdone : ∃ o, q.calls[c]? = some (.finished o)
    · obtain ⟨o,ho⟩ := hdone
      have hlast : q = p' := by
        rcases ReflTransGen.cases_head hrest with heq | ⟨r,hr,-⟩
        · exact heq
        · simp [Semaphore.advance,ho] at hr
      subst hlast
      cases ho.symm.trans hend
      exact ReflTransGen.single (.advance false (hnext (State.advance_finished hstep ho)))
    · have hgoes : ∀ o, q.calls[c]? ≠ some (.finished o) := fun o ho => hdone ⟨o,ho⟩
      exact ReflTransGen.head (.advance false (hnext (State.advance_running hstep hgoes)))
        (ih hgoes (t := {t with permits := q}) rfl hi hsound)

theorem State.act_trimming (t : State T W) (i : ℕ) {toCreate : ℕ}
    (hle : toCreate ≤ reservation.permits) :
    t.act i (.trimming toCreate reservation) .proceed = t.start i (.filling toCreate 0
      ⟨reservation.permits-(reservation.permits-toCreate)⟩)
      (.release (reservation.permits-toCreate)) := by
  simp only [State.act,Checked.sub_ok hle,State.releaseReserved,ReplenishReservation.release,
    if_pos (Nat.sub_le reservation.permits toCreate)]

theorem State.act_inserted (t : State T W) (i toCreate replenished : ℕ) (hle : 1 ≤ reservation.permits) :
    t.act i (.inserted toCreate replenished reservation) .proceed = t.start i
      (.filling toCreate replenished ⟨reservation.permits-1⟩) (.release 1) := by
  simp only [State.act,State.releaseReserved,ReplenishReservation.release,if_pos hle]

namespace Solo

theorem finishes_call (h : Solo s target creations t stage (some c) k) (hq : s.Quiet)
    {outcome : Semaphore.Outcome} (hends : Semaphore.Ends c outcome t.permits)
    (hrunning : ∀ o, t.permits.calls[c]? ≠ some (.finished o))
    (hrest : ∀ u k', Solo s target creations u (State.resume stage outcome) none k' →
      u.permits.lock = none → Finishes s creations u) : Finishes s creations t := by
  obtain ⟨p,hsteps,hend,hlock⟩ := hends
  have hrun : ReflTransGen (Replenish s.tasks.length s.created creations) t {t with
      permits := p
      tasks := t.tasks.set s.tasks.length ⟨State.resume stage outcome,none⟩} :=
    lift_steps hsteps hend hrunning rfl h.own h.ok.sound
  obtain ⟨stage',call',k',hsolo⟩ := h.run hq hrun
  obtain ⟨rfl,rfl⟩ := hsolo.stage_eq (Table.getElem?_set_self' h.own _)
  obtain ⟨u,result,htail,hdone⟩ := hrest _ k' hsolo hlock
  exact ⟨u,result,hrun.trans htail,hdone⟩

theorem use_step (h : Solo s target creations t stage none k) {use : Use T W}
    (huse : use = .proceed ∨ use = (creations k).use)
    (hact : t.act s.tasks.length stage use = some (.ok u)) :
    Replenish s.tasks.length s.created creations t u := by
  have hnext : t.next (.use s.tasks.length use) = some u := by
    apply Transition.step_of_act h.ok.sound
    simp only [State.perform,h.own,hact]
  rcases huse with rfl | rfl
  · exact .proceed hnext
  · have hk : t.created-s.created = k := by rw [h.created,Nat.add_sub_cancel_left]
    exact .create (by rw [hk]; exact hnext)

theorem finishes_use (h : Solo s target creations t stage none k) (hq : s.Quiet) {use : Use T W}
    (huse : use = .proceed ∨ use = (creations k).use)
    (hact : t.act s.tasks.length stage use = some (.ok u))
    (htasks : u.tasks = t.tasks.set s.tasks.length ⟨stage',call'⟩)
    (hrest : ∀ k', Solo s target creations u stage' call' k' → Finishes s creations u) :
    Finishes s creations t := by
  have hstep := h.use_step huse hact
  obtain ⟨stage₁,call₁,k',hsolo⟩ := h.step hq hstep
  obtain ⟨rfl,rfl⟩ := hsolo.stage_eq (htasks ▸ Table.getElem?_set_self' h.own _)
  exact .step hstep (hrest k' hsolo)

theorem permits_le (h : Solo s target creations t stage call k) : stage.permits ≤ usizeMax := by
  have hle : stage.permits ≤ Table.total Task.permits t.tasks := Table.le_total Task.permits h.own
  have htaken := h.ok.funded.taken
  have htotal := h.ok.funded.loan.total
  have hmax := h.ok.maxSize_le
  omega

theorem finishes_release (h : Solo s target creations t stage none k) (hq : s.Quiet)
    (hlock : t.permits.lock = none) {n : ℕ} {use : Use T W}
    (huse : use = .proceed ∨ use = (creations k).use) (hn : n ≤ stage.permits)
    (hact : t.act s.tasks.length stage use = t.start s.tasks.length stage' (.release n))
    (hrest : ∀ u k', Solo s target creations u (State.resume stage' .returned) none k' →
      u.permits.lock = none → Finishes s creations u) : Finishes s creations t := by
  have hstart : Semaphore.next t.permits (.call (.release n)) =
      some {t.permits with calls := t.permits.calls++[.started (.release n)]} :=
    if_pos (decide_eq_true (hn.trans h.permits_le))
  have hmade : t.start s.tasks.length stage' (.release n) = some (.ok {t with
      permits := {t.permits with calls := t.permits.calls++[.started (.release n)]}
      tasks := t.tasks.set s.tasks.length ⟨stage',some t.permits.calls.length⟩}) := by
    rw [State.start,hstart]
    rfl
  refine h.finishes_use hq huse (hact.trans hmade) rfl fun k' hsolo => ?_
  have hcall : (t.permits.calls++[.started (.release n)])[t.permits.calls.length]? =
      some (.started (.release n)) := List.getElem?_concat_length
  have hroom := hsolo.available hq
  have hmax := hsolo.ok.maxSize_le
  rw [hsolo.config] at hmax
  simp only [Task.inFlight,Option.bind_some,hcall,Option.elim_some,Semaphore.Call.inFlight,
    Semaphore.Call.remaining,Semaphore.Call.argument] at hroom
  refine hsolo.finishes_call hq (Semaphore.ends_release hcall hlock (hsolo.vacant hq) ?_) ?_ hrest
  · show t.permits.available+n ≤ usizeMax
    omega
  · intro o ho
    cases hcall.symm.trans ho

theorem finishes_done {result : Option ℕ}
    (h : Solo s target creations t (.done result) none k) : Finishes s creations t :=
  ⟨t,result,ReflTransGen.refl,h.own⟩

theorem finishes_filling {toCreate replenished : ℕ} {reservation : ReplenishReservation}
    (h : Solo s target creations t (.filling toCreate replenished reservation) none k)
    (hq : s.Quiet) (hlock : t.permits.lock = none) : Finishes s creations t := by
  induction toCreate generalizing t replenished reservation k with
  | zero =>
    exact h.finishes_release hq hlock (Or.inl rfl) le_rfl rfl fun u k' hu _ => hu.finishes_done
  | succ toCreate ih =>
    cases hcreation : creations k with
    | failed | cancelled =>
      exact h.finishes_release hq hlock (Or.inr rfl) le_rfl (by rw [hcreation]; rfl)
        fun u k' hu _ => hu.finishes_done
    | created o now =>
      have hpermits : reservation.permits = toCreate+1 := (h.ok.funded.task _ _ h.own).funded
      obtain ⟨hadd,-⟩ := h.ok.enter h.own (.inserted toCreate (replenished+1) reservation)
        (t.slots.idle++[t.newObject o now]) rfl rfl rfl hpermits
        (by simp only [List.length_append,List.length_singleton,Stage.claims]; omega)
        (by simp only [List.length_append,List.length_singleton,Stage.members]) (t.created+1)
      refine h.finishes_use hq (Or.inr rfl) (by
        rw [hcreation]
        simp only [Creation.use,State.act,PoolState.addIdle,hadd,bind,Except.bind]
        rfl) rfl fun k' hu => ?_
      have hle : 1 ≤ reservation.permits := by omega
      exact hu.finishes_release hq hlock (Or.inl rfl) hle (State.act_inserted _ _ _ _ hle)
        fun v k'' hv hfree => ih hv hfree

theorem finishes (h : Solo s target creations t (.reserving n) (some c) k) (hq : s.Quiet)
    (hlock : t.permits.lock = none)
    (hcall : t.permits.calls[c]? = some (.started (.drainPermits n))) :
    Finishes s creations t := by
  refine h.finishes_call hq (Semaphore.ends_drainPermits hcall hlock) ?_ fun u k' hu hfree => ?_
  · intro o ho
    cases hcall.symm.trans ho
  cases hdrained : min n t.permits.available with
  | zero =>
    rw [hdrained] at hu
    exact finishes_done hu
  | succ d =>
    rw [hdrained] at hu
    replace hu : Solo s target creations u (.reserved n ⟨d+1⟩) none k' := hu
    refine hu.finishes_use hq (Or.inl rfl) (by
      simp only [State.act,hu.toCreate hq,bind,Except.bind]
      rfl) rfl fun k₁ hv => ?_
    have hle : s.missing target ≤ d+1 := (hv.ok.funded.task _ _ hv.own).funded
    exact hv.finishes_release hq hfree (Or.inl rfl) (Nat.sub_le _ _) (State.act_trimming _ _ hle)
      fun w k₂ hw hfree' => hw.finishes_filling hq hfree'

end Solo
end Solo

/-- What an undisturbed call of `replenish_to` has done when it ends. -/
structure Replenished (s : State T W) (target : ℕ) (creations : ℕ → Creation T) (t : State T W)
    (result : Option ℕ) : Prop where
  tasks : t.tasks = s.tasks++[⟨.done result,none⟩]
  kept : ∃ added, t.slots.idle = s.slots.idle++added
  permits : t.permits.available = s.config.maxSize-s.checkedOut
  completed : (∀ j < s.missing target, (creations j).succeeds = true) →
    result = some (s.missing target) ∧ t.created = s.created+s.missing target ∧
      t.slots.idle.length = s.goal target ∧ t.slots.currentSize = s.checkedOut+s.goal target
  /-- The creation after `k` successful ones fails or is cancelled. -/
  stopped : ∀ k < s.missing target, (∀ j < k, (creations j).succeeds = true) →
    (creations k).succeeds = false →
    result = none ∧ t.created = s.created+k ∧ t.slots.idle.length = s.slots.idle.length+k ∧
      t.slots.currentSize = s.checkedOut+s.slots.idle.length+k

section Result

variable [Wake W] {s t : State T W} {target : ℕ} {creations : ℕ → Creation T}

theorem Solo.replenished {result : Option ℕ} {k : ℕ}
    (h : Solo s target creations t (.done result) none k) (hq : s.Quiet)
    (hsize : s.slots.currentSize = s.slots.idle.length+s.checkedOut) :
    Replenished s target creations t result := by
  obtain ⟨added,hidle,hadded⟩ := h.idle
  have hlength : t.slots.idle.length = s.slots.idle.length+k := by
    rw [hidle,List.length_append,hadded]
  have hgoal : s.goal target = s.slots.idle.length+s.missing target := by
    simp only [State.missing,State.goal]
    omega
  have havailable : t.permits.available+0+0+s.checkedOut = s.config.maxSize := h.available hq
  have htotal := h.size
  have hcreated := h.created
  refine ⟨h.tasks,⟨added,hidle⟩,by omega,fun hall => ?_,fun j hj hbefore hstops => ?_⟩
  · cases result with
    | none =>
      obtain ⟨hlt,hfails⟩ : k < s.missing target ∧ (creations k).succeeds = false := h.fits
      cases (hall k hlt).symm.trans hfails
    | some n =>
      obtain ⟨rfl,hk⟩ : n = k ∧ k = s.missing target := h.fits
      exact ⟨congrArg some hk,by omega,by omega,by omega⟩
  · have hjk : k = j := by
      rcases Nat.lt_trichotomy k j with hlt | heq | hgt
      · cases result with
        | some n =>
          obtain ⟨-,hk⟩ : n = k ∧ k = s.missing target := h.fits
          omega
        | none =>
          obtain ⟨-,hfails⟩ : k < s.missing target ∧ (creations k).succeeds = false := h.fits
          cases (hbefore k hlt).symm.trans hfails
      · exact heq
      · cases (h.succeeded j hgt).symm.trans hstops
    subst hjk
    cases result with
    | some n =>
      obtain ⟨-,hk⟩ : n = k ∧ k = s.missing target := h.fits
      omega
    | none => exact ⟨rfl,hcreated,hlength,by omega⟩

theorem State.Quiet.size (hq : s.Quiet) (h : Ok s) :
    s.slots.currentSize = s.slots.idle.length+s.checkedOut := by
  rw [h.stocked.size]
  congr 1
  refine Table.total_congr fun task hmem => ?_
  rcases (hq.task hmem).2 with ⟨state,hstage⟩ | ⟨result,hstage⟩ <;>
    simp only [Task.members,hstage] <;> rfl

theorem State.Quiet.ok (hq : s.Quiet) (h : Inv s) : Ok s := by
  refine ⟨h.ok.funded,h.ok.stocked,h.ok.reported,?_⟩
  cases hp : s.panicked with
  | none => rfl
  | some message =>
    obtain ⟨i,state,hi,-⟩ := (h.sound message hp).count
    have hquiet := List.all_eq_true.mp hq _ (List.mem_of_getElem? hi)
    cases hquiet

theorem Ok.begin_replenish (h : Ok s) (target : ℕ)
    (creations : ℕ → Creation T) : ∃ t, s.next (.replenishTo target) = some t ∧
      t.permits.calls[s.permits.calls.length]? =
        some (.started (.drainPermits (min target s.config.maxSize))) ∧
      t.permits.lock = s.permits.lock ∧
      Solo s target creations t (.reserving (min target s.config.maxSize))
        (some s.permits.calls.length) 0 := by
  have hle : min target s.config.maxSize ≤ usizeMax := (Nat.min_le_right _ _).trans h.maxSize_le
  have hstart : Semaphore.next s.permits (.call (.drainPermits (min target s.config.maxSize))) =
      some {s.permits with
        calls := s.permits.calls++[.started (.drainPermits (min target s.config.maxSize))]} :=
    if_pos (decide_eq_true hle)
  have hnext : s.next (.replenishTo target) = some {s with
      permits := {s.permits with
        calls := s.permits.calls++[.started (.drainPermits (min target s.config.maxSize))]}
      tasks := s.tasks++[⟨.reserving (min target s.config.maxSize),
        some s.permits.calls.length⟩]} := by
    apply Transition.step_of_act h.sound
    simp only [State.perform,State.replenishTo,hstart,Option.map_some]
  have hok := h.replenishTo (show s.replenishTo target = some _ from congrArg (Option.map _) hstart)
  refine ⟨_,hnext,List.getElem?_concat_length,rfl,hok,rfl,rfl,rfl,⟨[],?_,rfl⟩,rfl,?_,?_⟩
  · exact (List.append_nil _).symm
  · exact fun j hj => absurd hj (Nat.not_lt_zero j)
  · exact ⟨rfl,rfl⟩

/-- A `replenish_to` that runs while no other operation is in progress comes to its end, and
what it has done then is determined by the target, the checked-out and the idle objects. -/
theorem replenish_to_alone (h : (machine T W).Reachable s) (hq : s.Quiet) (target : ℕ)
    (creations : ℕ → Creation T) :
    ∃ t, s.next (.replenishTo target) = some t ∧ Finishes s creations t ∧
      ∀ u result, ReflTransGen (Replenish s.tasks.length s.created creations) t u →
        u.tasks[s.tasks.length]? = some ⟨.done result,none⟩ →
        Replenished s target creations u result := by
  have hok : Ok s := hq.ok (reachable_inv h)
  obtain ⟨t,hnext,hcall,hlock,hsolo⟩ := hok.begin_replenish target creations
  refine ⟨t,hnext,?_,fun u result hrun hend => ?_⟩
  · exact hsolo.finishes hq (hlock.trans (hq.lock_free (reachable_attended h))) hcall
  · obtain ⟨stage,call,k,hu⟩ := hsolo.run hq hrun
    obtain ⟨rfl,rfl⟩ := hu.stage_eq hend
    exact hu.replenished hq (hq.size hok)

end Result

def stockedRun : List (Action ℕ ℕ) :=
  [.get,.use 0 (.poll 0),.advance 0 false,.advance 0 false,.use 0 .proceed,.use 0 (.created 5 0),
   .replenishTo 1,.advance 1 false,.advance 1 false,.use 1 .proceed,.use 1 .proceed,
   .advance 1 false,.use 1 (.created 6 1),.use 1 .proceed,.advance 1 false,.advance 1 false,
   .advance 1 false,.use 1 .proceed,.advance 1 false]

def fourObjects : State ℕ ℕ := ⟨⟨4,.fifo,.detach⟩,Semaphore.new ℕ 4,PoolState.new ℕ,[],0,[],none⟩

/-- Of four places one is taken by a checked-out object and one by an idle one. A target
beyond the capacity creates two more objects; when the second creation fails, one stays. -/
theorem replenish_to_alone_stockedRun : ∃ s, (machine ℕ ℕ).exec fourObjects stockedRun = some s ∧
    s.Quiet ∧ s.checkedOut = 1 ∧ s.slots.idle.length = 1 ∧
    (∃ t u, s.next (.replenishTo 9) = some t ∧
      ReflTransGen (Replenish s.tasks.length s.created fun j => .created j j) t u ∧
      u.slots.idle.length = 3 ∧ u.slots.currentSize = 4 ∧ u.permits.available = 3) ∧
    ∃ t u, s.next (.replenishTo 9) = some t ∧
      ReflTransGen (Replenish s.tasks.length s.created fun j =>
        if j = 0 then .created 7 0 else .failed) t u ∧
      u.slots.idle.length = 2 ∧ u.slots.currentSize = 3 ∧ u.permits.available = 3 := by
  have hrun : ((machine ℕ ℕ).exec fourObjects stockedRun).map (fun s =>
      (s.tasks.all Task.quiet,s.checkedOut,s.slots.idle.length,s.missing 9,s.goal 9,
        s.config.maxSize)) = some (true,1,1,2,3,4) := by decide +kernel
  obtain ⟨s,hs,hend⟩ := Option.map_eq_some_iff.mp hrun
  simp only [Prod.mk.injEq] at hend
  obtain ⟨hquiet,hout,hidle,hmissing,hgoal,hmax⟩ := hend
  have hreach : (machine ℕ ℕ).Reachable s :=
    Transition.Machine.reachable_of_exec _ ⟨⟨4,.fifo,.detach⟩,by decide,rfl⟩ hs
  refine ⟨s,hs,hquiet,hout,hidle,?_,?_⟩
  · obtain ⟨t,ht,⟨u,result,hu,hdone⟩,hafter⟩ :=
      replenish_to_alone hreach hquiet 9 fun j => .created j j
    have hpost := hafter u result hu hdone
    obtain ⟨-,-,hlength,hsize⟩ := hpost.completed fun _ _ => rfl
    have hpermits := hpost.permits
    exact ⟨t,u,ht,hu,by omega,by omega,by omega⟩
  · obtain ⟨t,ht,⟨u,result,hu,hdone⟩,hafter⟩ :=
      replenish_to_alone hreach hquiet 9 fun j => if j = 0 then .created 7 0 else .failed
    have hpost := hafter u result hu hdone
    obtain ⟨-,-,hlength,hsize⟩ := hpost.stopped 1 (by omega) (by decide) rfl
    have hpermits := hpost.permits
    exact ⟨t,u,ht,hu,by omega,by omega,by omega⟩

end BoundedPool
end Asyncband
