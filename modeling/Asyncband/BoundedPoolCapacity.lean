import Asyncband.BoundedPoolFunding

/-! The capacity of the bounded pool.
Idle objects hold no permits, so the bound rests on an inequality between the queue and
the semaphore: the idle objects and the claims of the tasks, which their permits back,
never exceed the capacity. -/
namespace Asyncband
namespace BoundedPool

open Pool
open Semaphore (Loan Later Queued Serving Dropping Draining)

variable {T W : Type} {permits : Semaphore.State W} {task : Task T}

/-- The idle objects and the claims of the tasks fit into the pool. -/
structure Stocked (maxSize : ℕ) (slots : PoolState T) (tasks : List (Task T)) : Prop where
  capacity : slots.idle.length+Table.total Task.claims tasks ≤ maxSize
  size : slots.currentSize = slots.idle.length+Table.total Task.members tasks

/-- What a report may say about a pool for `capacity` objects. -/
structure PoolStatus.Fits (capacity : ℕ) (status : PoolStatus) : Prop where
  maxSize : status.maxSize = capacity
  size : status.currentSize ≤ capacity
  idle : status.idleCount ≤ status.currentSize

structure Ok [Wake W] (s : State T W) : Prop where
  funded : Funded s.config.maxSize s.permits s.tasks
  stocked : Stocked s.config.maxSize s.slots s.tasks
  reported : ∀ status ∈ s.reported, status.Fits s.config.maxSize
  sound : s.panicked = none

/-- The panic that is left: the object of a task was recycled `usize::MAX` times. -/
structure State.Overflow (s : State T W) (message : String) : Prop where
  message : message = "attempt to add with overflow"
  count : ∃ (i : ℕ) (state : ObjectState T), s.tasks[i]? = some ⟨.recycling state,none⟩ ∧
    usizeMax ≤ state.status.recycleCount

/-- The invariant of all runs. -/
structure Inv [Wake W] (s : State T W) : Prop where
  ok : Ok {s with panicked := none}
  sound : ∀ message, s.panicked = some message → s.Overflow message

section Steps

variable {maxSize i : ℕ} {tasks : List (Task T)} {slots : PoolState T} {old new : Task T}

section

variable (h : Stocked maxSize slots tasks)
include h

theorem Stocked.claims_le : slots.currentSize ≤ slots.idle.length+Table.total Task.claims tasks := by
  have hle : Table.total Task.members tasks ≤ Table.total Task.claims tasks :=
    Table.total_le fun task _ => task.stage.members_le
  rw [h.size]
  omega

theorem Stocked.size_le : slots.currentSize ≤ maxSize :=
  h.claims_le.trans h.capacity

theorem Stocked.set (slots' : PoolState T) (hi : tasks[i]? = some old)
    (hclaims : slots'.idle.length+new.claims ≤ slots.idle.length+old.claims)
    (hsize : slots'.currentSize+slots.idle.length+old.members =
      slots.currentSize+slots'.idle.length+new.members) :
    Stocked maxSize slots' (tasks.set i new) := by
  have hc := Table.total_set Task.claims hi new
  have hm := Table.total_set Task.members hi new
  have hcap := h.capacity
  have hold := h.size
  constructor <;> omega

theorem Stocked.push (hclaims : new.claims = 0) (hmembers : new.members = 0) :
    Stocked maxSize slots (tasks++[new]) := by
  have hcap := h.capacity
  have hold := h.size
  constructor <;> simp only [Table.total_append,Table.total_cons,Table.total_nil] <;> omega

end

end Steps

section Run

variable [Wake W] {s t : State T W} {i : ℕ} {stage : Stage T}
variable {stage' : Stage T} {x : Except String (State T W)} {n targetIdle : ℕ}
    {reservation : ReplenishReservation}

section

variable (h : Ok s) (hi : s.tasks[i]? = some ⟨stage,none⟩)
include h hi

theorem Ok.restage (slots : PoolState T) (hpermits : stage'.permits = stage.permits)
    (hold : stage.future? = none) (hnew : stage'.future? = none) (hfunded : stage'.Funded)
    (hclaims : slots.idle.length+stage'.claims ≤ s.slots.idle.length+stage.claims)
    (hsize : slots.currentSize+s.slots.idle.length+stage.members =
      s.slots.currentSize+slots.idle.length+stage'.members) :
    Ok ((s.setSlots slots).setTask i stage') :=
  ⟨h.funded.restage hi hpermits hold hnew hfunded,h.stocked.set slots hi hclaims hsize,h.reported,
    h.sound⟩

theorem Ok.setTask (hpermits : stage'.permits = stage.permits) (hold : stage.future? = none)
    (hnew : stage'.future? = none) (hfunded : stage'.Funded) (hclaims : stage'.claims ≤ stage.claims)
    (hmembers : stage'.members = stage.members) : Ok (s.setTask i stage') :=
  h.restage hi s.slots hpermits hold hnew hfunded (by omega) (by omega)

theorem Ok.start {op : Semaphore.Op W} (hx : s.start i stage' op = some x)
    (hop : op.intent.lending = true) (hpermits : stage.permits = op.released+stage'.permits)
    (hfuture : stage'.future? = stage.future?) (hclaims : stage'.claims ≤ stage.claims)
    (hmembers : stage'.members = stage.members) (hnew : ∀ permits, Later s.permits permits →
      permits.calls[s.permits.calls.length]? = some (.started op) →
      TaskOk permits ⟨stage',some s.permits.calls.length⟩) : ∃ t, x = .ok t ∧ Ok t := by
  obtain ⟨permits,hsem,rfl⟩ := Option.map_eq_some_iff.mp hx
  obtain ⟨hlater,hcalls,-⟩ := Semaphore.make_later hsem
  have hcall : permits.calls[s.permits.calls.length]? = some (.started op) := by simp [hcalls]
  refine ⟨_,rfl,h.funded.start hi hsem hop hpermits hfuture (hnew permits hlater hcall),?_,
    h.reported,h.sound⟩
  exact h.stocked.set s.slots hi (Nat.add_le_add_left hclaims _)
    (congrArg (s.slots.currentSize+s.slots.idle.length+·) hmembers.symm)

theorem Ok.release (hx : s.start i stage' (.release n) = some x)
    (hpermits : stage.permits = n+stage'.permits) (hold : stage.future? = none)
    (hnew : stage'.future? = none) (hcalls : stage'.intent = .other) (hcalling : stage'.calling = true)
    (hfunded : stage'.Funded) (hclaims : stage'.claims ≤ stage.claims)
    (hmembers : stage'.members = stage.members) : ∃ t, x = .ok t ∧ Ok t := by
  refine h.start hi hx rfl hpermits (hnew.trans hold.symm) hclaims hmembers ?_
  intro permits _ hcall
  refine ⟨?_,?_,?_,fun _ _ => hcalling,hfunded⟩
  · rintro c ⟨⟩
    cases stage' with
    | reserving targetIdle => cases hcalls
    | acquiring f => cases hcalls
    | _ => exact ⟨_,hcall,Or.inl rfl⟩
  · intro f hf
    simp only at hf
    simp [hf,Stage.future?] at hnew
  · intro f hf
    simp only at hf
    simp [hf,Stage.future?] at hnew

end

theorem Ok.currentSize_le (h : Ok s) : s.slots.currentSize ≤ s.config.maxSize :=
  h.stocked.size_le

theorem Ok.maxSize_le (h : Ok s) : s.config.maxSize ≤ usizeMax := h.funded.loan.permits_le

theorem Ok.restoreIdle (h : Ok s) (hi : s.tasks[i]? = some ⟨stage,none⟩) (stage' : Stage T)
    (state : ObjectState T) (hpermits : stage'.permits = stage.permits)
    (hold : stage.future? = none) (hnew : stage'.future? = none) (hfunded : stage'.Funded)
    (hclaims : stage.claims = 1) (hclaims' : stage'.claims = 0) (hmembers : stage.members = 1)
    (hmembers' : stage'.members = 0) :
    ∃ slots, s.restoreIdle state = .ok slots ∧ Ok ((s.setSlots slots).setTask i stage') := by
  refine ⟨s.slots.returnIdle state,if_pos h.currentSize_le,h.restage hi _ hpermits hold hnew hfunded ?_ ?_⟩
  · simp only [PoolState.returnIdle,List.length_append,List.length_singleton]
    omega
  · simp only [PoolState.returnIdle,List.length_append,List.length_singleton]
    omega

theorem Ok.detachObject (h : Ok s) (hi : s.tasks[i]? = some ⟨stage,none⟩) (stage' : Stage T)
    (hpermits : stage'.permits = stage.permits) (hold : stage.future? = none)
    (hnew : stage'.future? = none) (hfunded : stage'.Funded) (hclaims : stage.claims = 1)
    (hclaims' : stage'.claims = 0) (hmembers : stage.members = 1)
    (hmembers' : stage'.members = 0) :
    ∃ slots, s.detachObject = .ok slots ∧ Ok ((s.setSlots slots).setTask i stage') := by
  have hpos : s.slots.currentSize ≠ 0 := by
    have hle := Table.le_total Task.members hi
    have hsize := h.stocked.size
    have hone : (Task.mk stage none).members = 1 := hmembers
    omega
  refine ⟨{s.slots with currentSize := s.slots.currentSize-1},?_,
    h.restage hi _ hpermits hold hnew hfunded ?_ ?_⟩
  · rw [State.detachObject,if_pos h.currentSize_le,PoolState.detach,if_neg hpos]
  · simp only
    omega
  · simp only
    omega

theorem Ok.withCreated (h : Ok s) (n : ℕ) : Ok {s with created := n} :=
  ⟨h.funded,h.stocked,h.reported,h.sound⟩

theorem Ok.enter (h : Ok s) (hi : s.tasks[i]? = some ⟨stage,none⟩) (stage' : Stage T)
    (idle : List (ObjectState T)) (hpermits : stage'.permits = stage.permits)
    (hold : stage.future? = none) (hnew : stage'.future? = none) (hfunded : stage'.Funded)
    (hclaims : idle.length+stage'.claims = s.slots.idle.length+stage.claims)
    (hsize : s.slots.idle.length+stage.members+1 = idle.length+stage'.members) (n : ℕ) :
    Checked.add usizeMax s.slots.currentSize 1 = .ok (s.slots.currentSize+1) ∧
      Ok {(s.setSlots ⟨idle,s.slots.currentSize+1⟩).setTask i stage' with created := n} := by
  have hok := h.restage hi ⟨idle,s.slots.currentSize+1⟩ hpermits hold hnew hfunded
    hclaims.le (by simp only; omega)
  exact ⟨Checked.add_ok (hok.currentSize_le.trans h.maxSize_le),hok.withCreated n⟩

/-- `replenish_to` creates no more than what the idle objects leave of the permits that
are available or reserved by it. -/
theorem Ok.toCreate (h : Ok s) (hi : s.tasks[i]? = some ⟨.reserved targetIdle reservation,none⟩) :
    ∃ n, s.toCreate targetIdle reservation = .ok n ∧ n ≤ reservation.permits ∧
      (n = 0 ∨ s.slots.idle.length+n ≤ s.permits.available+reservation.permits) := by
  have htotal := h.funded.loan.total
  have htaken := h.funded.taken
  have hown := Table.le_total Task.permits hi
  have hmax := h.maxSize_le
  have hpermits : (Task.mk (.reserved targetIdle reservation) none : Task T).permits =
    reservation.permits := rfl
  refine ⟨_,if_pos (by omega),?_,?_⟩
  · exact (Nat.min_le_left _ _).trans (Nat.min_le_right _ _)
  · have hle := Nat.min_le_right (min (targetIdle-s.slots.idle.length) reservation.permits)
      (s.permits.available+reservation.permits-s.slots.idle.length)
    omega

section

variable (h : Ok s) (hi : s.tasks[i]? = some ⟨stage,none⟩)
include h hi

/-- A task without claims commits itself to objects that its own permits back. -/
theorem Ok.commit (hpermits : stage'.permits = stage.permits) (hold : stage.future? = none)
    (hnew : stage'.future? = none) (hfunded : stage'.Funded) (hclaims : stage.claims = 0)
    (hmembers : stage'.members = stage.members)
    (hroom : stage'.claims = 0 ∨ s.slots.idle.length+stage'.claims ≤ s.permits.available+stage.permits) :
    Ok (s.setTask i stage') := by
  have htotal := h.funded.loan.total
  have htaken := h.funded.taken
  have hslack : Table.total Task.claims s.tasks+stage.permits ≤
    Table.total Task.permits s.tasks+stage.claims := h.funded.slack hi
  have hcapacity := h.stocked.capacity
  have hset : Table.total Task.claims (s.tasks.set i ⟨stage',none⟩)+stage.claims =
    Table.total Task.claims s.tasks+stage'.claims := Table.total_set Task.claims hi _
  have hset' : Table.total Task.members (s.tasks.set i ⟨stage',none⟩)+stage.members =
    Table.total Task.members s.tasks+stage'.members := Table.total_set Task.members hi _
  have hsize := h.stocked.size
  refine ⟨h.funded.restage hi hpermits hold hnew hfunded,⟨?_,?_⟩,h.reported,h.sound⟩
  · show s.slots.idle.length+Table.total Task.claims (s.tasks.set i ⟨stage',none⟩) ≤
      s.config.maxSize
    omega
  · show s.slots.currentSize =
      s.slots.idle.length+Table.total Task.members (s.tasks.set i ⟨stage',none⟩)
    omega

theorem Ok.releaseReserved {toCreate replenished : ℕ} (hpermits : stage.permits = reservation.permits)
    (hold : stage.future? = none) (hn : n+toCreate = reservation.permits)
    (hclaims : toCreate = stage.claims) (hmembers : stage.members = 0)
    (hx : s.releaseReserved i reservation n (.filling toCreate replenished) = some x) :
    ∃ t, x = .ok t ∧ Ok t := by
  have hle : n ≤ reservation.permits := by omega
  simp only [State.releaseReserved,ReplenishReservation.release,if_pos hle] at hx
  have hrest : reservation.permits-n = toCreate := by omega
  refine h.release hi hx ?_ hold rfl rfl rfl hrest hclaims.le hmembers.symm
  show stage.permits = n+(reservation.permits-n)
  omega

theorem Ok.act {use : Use T W} (hx : s.act i stage use = some x)
    (hcount : ∀ state, stage = .recycling state → use = .checked true →
      state.status.recycleCount+1 ≤ usizeMax) : ∃ t, x = .ok t ∧ Ok t := by
  have htask := h.funded.task i _ hi
  cases stage with
  | acquiring f =>
    cases use with
    | poll waker =>
      refine h.start hi hx rfl rfl rfl le_rfl rfl fun permits hlater hcall => ?_
      exact ⟨fun c hc => by cases hc; exact ⟨_,hcall,Or.inl rfl⟩,
        fun g hg => hlater.requested g 1 (htask.request g hg),nofun,fun _ _ => rfl,trivial⟩
    | cancel =>
      refine h.start hi hx rfl rfl rfl le_rfl rfl fun permits hlater hcall => ?_
      exact ⟨fun c hc => by cases hc; exact ⟨_,hcall,Or.inl rfl⟩,nofun,
        fun g hg => by cases hg; exact ⟨_,rfl,Or.inl hcall⟩,fun _ _ => rfl,trivial⟩
    | _ => cases hx
  | selecting =>
    cases use with
    | proceed =>
      simp only [State.act] at hx
      split at hx
      · next slots hpop =>
        obtain ⟨hnil,rfl⟩ := PoolState.pop_none hpop
        cases hx
        refine ⟨_,rfl,h.commit hi rfl rfl rfl trivial rfl rfl (Or.inr ?_)⟩
        rw [hnil]
        exact Nat.le_add_left 1 _
      · next state slots hpop =>
        cases hx
        obtain ⟨hlen,hsize⟩ := PoolState.pop_some hpop
        refine ⟨_,rfl,h.restage hi slots rfl rfl rfl trivial hlen.ge ?_⟩
        show slots.currentSize+s.slots.idle.length = s.slots.currentSize+slots.idle.length+1
        omega
    | _ => cases hx
  | creating =>
    cases use with
    | created o now =>
      cases hx
      obtain ⟨hadd,hok⟩ := h.enter hi (.object (s.newObject o now)) s.slots.idle
        rfl rfl rfl trivial rfl rfl (s.created+1)
      simp only [PoolState.addActive,hadd,bind,Except.bind]
      exact ⟨_,rfl,hok⟩
    | failed | cancel =>
      cases hx
      exact ⟨_,rfl,h.setTask hi rfl rfl rfl trivial (Nat.zero_le 1) rfl⟩
    | _ => cases hx
  | recycling state =>
    cases use with
    | touch o =>
      cases hx
      exact ⟨_,rfl,h.setTask hi rfl rfl rfl trivial le_rfl rfl⟩
    | checked recyclable =>
      cases recyclable with
      | true =>
        cases hx
        simp only [ObjectStatus.markRecycled,Checked.add_ok (hcount state rfl rfl),bind,Except.bind]
        exact ⟨_,rfl,h.setTask hi rfl rfl rfl trivial le_rfl rfl⟩
      | false =>
        cases hx
        obtain ⟨slots,hdetach,hok⟩ := h.detachObject hi .selecting rfl rfl rfl trivial
          rfl rfl rfl rfl
        simp only [hdetach,bind,Except.bind]
        exact ⟨_,rfl,hok⟩
    | cancel =>
      cases hx
      have hdrop : ∃ slots, s.dropUnready state = .ok slots ∧
          Ok ((s.setSlots slots).setTask i (.leaving .get)) := by
        rw [State.dropUnready]
        split
        · exact h.detachObject hi (.leaving .get) rfl rfl rfl trivial rfl rfl rfl rfl
        · exact h.restoreIdle hi (.leaving .get) state rfl rfl rfl trivial rfl rfl rfl rfl
      obtain ⟨slots,hdrop,hok⟩ := hdrop
      simp only [hdrop,bind,Except.bind]
      exact ⟨_,rfl,hok⟩
    | _ => cases hx
  | object state =>
    cases use with
    | touch o =>
      cases hx
      exact ⟨_,rfl,h.setTask hi rfl rfl rfl trivial le_rfl rfl⟩
    | drop now =>
      cases hx
      obtain ⟨slots,hreturn,hok⟩ := h.restoreIdle hi (.leaving .object)
        {state with status := state.status.markReturned now} rfl rfl rfl trivial rfl rfl rfl rfl
      simp only [State.returnObject,hreturn,bind,Except.bind]
      exact ⟨_,rfl,hok⟩
    | detach =>
      cases hx
      obtain ⟨slots,hdetach,hok⟩ := h.detachObject hi (.leaving .object) rfl rfl rfl trivial
        rfl rfl rfl rfl
      simp only [hdetach,bind,Except.bind]
      exact ⟨_,rfl,hok⟩
    | _ => cases hx
  | leaving owner =>
    cases use with
    | proceed => exact h.release hi hx rfl rfl rfl rfl rfl trivial le_rfl rfl
    | _ => cases hx
  | reserved targetIdle reservation =>
    cases use with
    | proceed =>
      cases hx
      obtain ⟨n,hn,hle,hroom⟩ := h.toCreate hi
      simp only [hn,bind,Except.bind]
      exact ⟨_,rfl,h.commit hi rfl rfl rfl hle rfl rfl hroom⟩
    | _ => cases hx
  | trimming toCreate reservation =>
    cases use with
    | proceed =>
      have hle : toCreate ≤ reservation.permits := htask.funded
      simp only [State.act,Checked.sub_ok hle] at hx
      exact h.releaseReserved hi rfl rfl (Nat.sub_add_cancel hle) rfl rfl hx
    | _ => cases hx
  | filling toCreate replenished reservation =>
    have hpermits : reservation.permits = toCreate := htask.funded
    have hdrop {result : Option ℕ} {x : Except String (State T W)}
        (hx : s.start i (.releasing .replenish result) (.release reservation.permits) = some x) :
        ∃ t, x = .ok t ∧ Ok t :=
      h.release hi hx rfl rfl rfl rfl rfl trivial (Nat.zero_le _) rfl
    cases toCreate with
    | zero =>
      cases use with
      | proceed => exact hdrop hx
      | _ => cases hx
    | succ toCreate =>
      cases use with
      | created o now =>
        cases hx
        obtain ⟨hadd,hok⟩ := h.enter hi (.inserted toCreate (replenished+1) reservation)
          (s.slots.idle++[s.newObject o now]) rfl rfl rfl hpermits
          (by simp only [List.length_append,List.length_singleton,Stage.claims]; omega)
          (by simp only [List.length_append,List.length_singleton,Stage.members]) (s.created+1)
        simp only [PoolState.addIdle,hadd,bind,Except.bind]
        exact ⟨_,rfl,hok⟩
      | failed => exact hdrop hx
      | cancel => exact hdrop hx
      | _ => cases hx
  | inserted toCreate replenished reservation =>
    cases use with
    | proceed =>
      have hpermits : reservation.permits = toCreate+1 := htask.funded
      have hsum : 1+toCreate = reservation.permits := by omega
      exact h.releaseReserved hi rfl rfl hsum rfl rfl hx
    | _ => cases hx
  | _ => cases use <;> cases hx

end

theorem resume_claims (stage : Stage T) (outcome : Semaphore.Outcome) :
    (State.resume stage outcome).claims = stage.claims ∧
      (State.resume stage outcome).members = stage.members := by
  cases stage with
  | reserving targetIdle =>
    cases outcome with
    | drained n => cases n <;> exact ⟨rfl,rfl⟩
    | _ => exact ⟨rfl,rfl⟩
  | acquiring f => cases outcome <;> exact ⟨rfl,rfl⟩
  | _ => exact ⟨rfl,rfl⟩

theorem Ok.advance (h : Ok s) {c : ℕ} {spurious : Bool} (hi : s.tasks[i]? = some ⟨stage,some c⟩)
    (hn : s.advance i stage c spurious = some t) : Ok t := by
  obtain ⟨permits,hsem,rfl⟩ := Option.map_eq_some_iff.mp hn
  rcases h.funded.advance hi hsem with ⟨outcome,hdone,hfunded⟩ | ⟨hrunning,hfunded⟩
  · obtain ⟨hclaims,hmembers⟩ := resume_claims stage outcome
    rw [hdone]
    refine ⟨hfunded,h.stocked.set s.slots hi ?_ ?_,h.reported,h.sound⟩
    · exact Nat.add_le_add_left hclaims.le _
    · exact congrArg (s.slots.currentSize+s.slots.idle.length+·) hmembers.symm
  · split
    · next outcome hdone => exact absurd hdone (hrunning outcome)
    · exact ⟨hfunded,h.stocked,h.reported,h.sound⟩

theorem Ok.get (h : Ok s) (hn : s.get = some t) : Ok t := by
  obtain ⟨permits,hsem,rfl⟩ := Option.map_eq_some_iff.mp hn
  obtain ⟨hlater,hcalls,hrequested,hqueued⟩ := Semaphore.create_later hsem
  obtain ⟨hloan,htaken⟩ := h.funded.loan.create hsem
  refine ⟨h.funded.push hloan hlater (hcalls ▸ fun _ _ hcall => hcall) ?_ htaken rfl ?_ hqueued ?_,
    h.stocked.push rfl rfl,h.reported,h.sound⟩
  · rw [hcalls]
    exact h.funded.calls.push rfl
  · rw [Semaphore.State.inFlight,hcalls]
    rfl
  · refine ⟨?_,?_,?_,?_,trivial⟩
    · rintro c ⟨⟩
    · rintro f ⟨⟩
      exact hrequested
    · rintro f ⟨⟩
    · rintro c ⟨⟩

theorem Ok.replenishTo (h : Ok s) (hn : s.replenishTo targetIdle = some t) : Ok t := by
  obtain ⟨permits,hsem,rfl⟩ := Option.map_eq_some_iff.mp hn
  obtain ⟨hlater,hcalls,hqueued⟩ := Semaphore.make_later hsem
  obtain ⟨hloan,htaken,-⟩ := h.funded.loan.make hsem rfl (Nat.zero_le _)
  have hcall : permits.calls[s.permits.calls.length]? =
      some (.started (.drainPermits (min targetIdle s.config.maxSize))) := by simp [hcalls]
  refine ⟨h.funded.push hloan hlater ?_ ?_ htaken.symm rfl ?_ hqueued ?_,
    h.stocked.push rfl rfl,h.reported,h.sound⟩
  · intro c call hc
    rw [hcalls]
    exact Table.getElem?_push_old hc _
  · rw [hcalls,List.length_append]
    exact h.funded.calls.push_new rfl
  · rw [Task.inFlight,Option.bind_some,hcall,Semaphore.State.inFlight,hcalls,Table.total_append]
    rfl
  · refine ⟨?_,?_,?_,fun _ _ => rfl,trivial⟩
    · rintro c ⟨⟩
      exact ⟨_,hcall,Or.inl rfl⟩
    · rintro f ⟨⟩
    · rintro f ⟨⟩

theorem Ok.retain (h : Ok s) (f : ℕ → T → ObjectStatus → Option Bool × T) :
    ∃ t, s.retain f = .ok t ∧ Ok t := by
  have hsize := h.stocked.size
  have hcapacity := h.stocked.capacity
  obtain ⟨result,slots,hretain,hlen,hold⟩ := s.slots.retain_ok (State.numbered f) 0 (by omega)
  have hstocked : Stocked s.config.maxSize slots s.tasks := ⟨by omega,by omega⟩
  exact ⟨s.setSlots slots,congrArg (Except.map _) hretain,h.funded,hstocked,h.reported,h.sound⟩

theorem Ok.status (h : Ok s) : Ok {s with reported := s.reported++[s.status]} := by
  refine ⟨h.funded,h.stocked,fun status hmem => ?_,h.sound⟩
  rcases List.mem_append.mp hmem with hmem | hmem
  · exact h.reported status hmem
  · rw [List.mem_singleton] at hmem
    subst hmem
    exact ⟨rfl,h.currentSize_le,(Nat.le_add_right _ _).trans h.stocked.size.ge⟩

theorem Ok.perform (h : Ok s) {a : Action T W} (hx : s.perform a = some x) :
    (∃ t, x = .ok t ∧ Ok t) ∨ ∃ message, x = .error message ∧ s.Overflow message := by
  cases a with
  | get =>
    simp only [State.perform] at hx
    obtain ⟨t,ht,rfl⟩ := Option.map_eq_some_iff.mp hx
    exact .inl ⟨t,rfl,h.get ht⟩
  | replenishTo targetIdle =>
    simp only [State.perform] at hx
    obtain ⟨t,ht,rfl⟩ := Option.map_eq_some_iff.mp hx
    exact .inl ⟨t,rfl,h.replenishTo ht⟩
  | retain f =>
    cases hx
    exact .inl (h.retain f)
  | status =>
    cases hx
    exact .inl ⟨_,rfl,h.status⟩
  | use i use =>
    simp only [State.perform] at hx
    split at hx
    · next stage hi =>
      by_cases hcount : ∀ state, stage = .recycling state → use = .checked true →
          state.status.recycleCount+1 ≤ usizeMax
      · exact .inl (h.act hi hx hcount)
      · simp only [not_forall] at hcount
        obtain ⟨state,rfl,rfl,hover⟩ := hcount
        cases hx
        refine .inr ⟨"attempt to add with overflow",?_,rfl,i,state,hi,?_⟩
        · simp only [ObjectStatus.markRecycled,Checked.add_overflow hover,bind,Except.bind]
        · exact Nat.lt_succ_iff.mp (Nat.not_le.mp hover)
    · cases hx
  | advance i spurious =>
    simp only [State.perform] at hx
    split at hx
    · next stage c hi =>
      obtain ⟨t,ht,rfl⟩ := Option.map_eq_some_iff.mp hx
      exact .inl ⟨t,rfl,h.advance hi ht⟩
    · cases hx

theorem Inv.next (h : Inv s) {a : Action T W} (hn : s.next a = some t) : Inv t := by
  obtain ⟨hcalm,x,hx,rfl⟩ := Transition.step_eq_some hn
  have hok : Ok s := ⟨h.ok.funded,h.ok.stocked,h.ok.reported,hcalm⟩
  rcases hok.perform hx with ⟨t,rfl,ht⟩ | ⟨message,rfl,hover⟩
  · refine ⟨⟨ht.funded,ht.stocked,ht.reported,rfl⟩,fun message hm => ?_⟩
    cases hm.symm.trans ht.sound
  · refine ⟨h.ok,fun _ hm => ?_⟩
    cases hm
    exact ⟨hover.message,hover.count⟩

theorem new_inv {config : PoolConfig} (hmax : config.maxSize ≤ usizeMax)
    (hnew : new T W config = .ok s) : Inv s := by
  rw [new] at hnew
  split at hnew
  · cases hnew
    refine ⟨⟨⟨Semaphore.new_loan hmax,rfl,rfl,.nil _ _,by simp,?_⟩,⟨Nat.zero_le _,rfl⟩,?_,rfl⟩,?_⟩
    · rintro f ⟨a,id,ha,-⟩
      simp [Semaphore.new] at ha
    · exact fun _ hmem => absurd hmem List.not_mem_nil
    · rintro _ ⟨⟩
  · cases hnew

theorem reachable_inv (h : (machine T W).Reachable s) : Inv s := by
  apply (machine T W).invariant Inv _ (fun _ _ _ hs hn => hs.next hn) h
  rintro s₀ ⟨config,hmax,hnew⟩
  exact new_inv hmax hnew

end Run

namespace Stage

def checkedOut : Stage T → ℕ
  | .object _ => 1
  | _ => 0

def beingRecycled : Stage T → ℕ
  | .recycling _ => 1
  | _ => 0

/-- The object that a `get` creates, or all those that a `replenish_to` is still
committed to create, the one in progress among them. -/
def beingCreated : Stage T → ℕ
  | .creating => 1
  | .trimming toCreate _ | .filling toCreate _ _ | .inserted toCreate _ _ => toCreate
  | _ => 0

def owner : Stage T → Option Owner
  | .acquiring _ | .selecting | .creating | .recycling _ | .cancelling _ => some .get
  | .object _ => some .object
  | .leaving owner | .releasing owner _ => some owner
  | .reserving _ | .reserved _ _ | .trimming _ _ | .filling _ _ _ | .inserted _ _ _ =>
    some .replenish
  | .done _ => none

theorem claims_eq (stage : Stage T) :
    stage.claims = stage.checkedOut+stage.beingRecycled+stage.beingCreated := by
  cases stage <;> simp [claims,checkedOut,beingRecycled,beingCreated]

theorem members_eq (stage : Stage T) : stage.members = stage.checkedOut+stage.beingRecycled := by
  cases stage <;> rfl

end Stage

namespace State

def checkedOut (s : State T W) : ℕ := Table.total (·.stage.checkedOut) s.tasks

def beingRecycled (s : State T W) : ℕ := Table.total (·.stage.beingRecycled) s.tasks

def beingCreated (s : State T W) : ℕ := Table.total (·.stage.beingCreated) s.tasks

/-- The permits of the `get` calls that own no object and create none, or of the objects
that were dropped or detached, up to the end of the release that takes them back. -/
def bare (s : State T W) (owner : Owner) : ℕ :=
  Table.total (fun task => if task.stage.owner = some owner ∧ task.claims = 0 then
    task.permits+task.inFlight s.permits else 0) s.tasks

/-- The permits of the reservations beyond the creations they are committed to, up to the
end of the release that takes them back. -/
def excess (s : State T W) : ℕ :=
  Table.total (fun task => if task.stage.owner = some .replenish then
    task.permits-task.claims+task.inFlight s.permits else 0) s.tasks

end State

/-- What holds in every reachable state. The only futures of the semaphore are those of
`get` calls, so what is assigned is assigned to them. -/
structure CapacityLaw (s : State T W) : Prop where
  bound : s.slots.idle.length+s.checkedOut+s.beingRecycled+s.beingCreated ≤ s.config.maxSize
  idle : s.slots.idle.length ≤
    s.permits.available+(s.permits.assigned+s.bare .get)+s.bare .object+s.excess
  size : s.slots.currentSize = s.slots.idle.length+s.checkedOut+s.beingRecycled
  returned : (∀ task ∈ s.tasks, ∃ result, task.stage = .done result) →
    s.permits.available = s.config.maxSize
  /-- What `status` returned at any time. -/
  reported : ∀ status ∈ s.reported, status.Fits s.config.maxSize
  sound : (∀ message, s.panicked = some message → s.Overflow message) ∧
    ∀ call ∈ s.permits.calls, ∀ message r, call ≠ .panicked message r

theorem TaskOk.inFlight (h : TaskOk permits task) (hcalling : task.stage.calling = false) :
    task.inFlight permits = 0 := by
  rw [Task.inFlight]
  cases hc : task.call with
  | none => rfl
  | some c => exact absurd (h.calling c hc) (by simp [hcalling])

/-- Every permit of a task backs a claim or is accounted for by the task's kind. -/
theorem TaskOk.permits_le (h : TaskOk permits task) :
    task.permits+task.inFlight permits ≤ task.claims+
      (if task.stage.owner = some .get ∧ task.claims = 0 then
        task.permits+task.inFlight permits else 0)+
      (if task.stage.owner = some .object ∧ task.claims = 0 then
        task.permits+task.inFlight permits else 0)+
      if task.stage.owner = some .replenish then
        task.permits-task.claims+task.inFlight permits else 0 := by
  obtain ⟨stage,call⟩ := task
  cases stage with
  | creating
  | recycling | object => simp [h.inFlight rfl,Task.permits,Task.claims,Stage.permits,Stage.claims]
  | done result => simp [h.inFlight rfl,Task.permits,Stage.permits]
  | leaving owner | releasing owner => cases owner <;> simp [Stage.owner,Task.claims,Stage.claims]
  | acquiring | selecting | cancelling => simp [Stage.owner,Task.claims,Stage.claims]
  | _ =>
    simp only [Stage.owner,Option.some.injEq,reduceCtorEq,false_and,if_false,if_true]
    omega

section Law

variable [Wake W] {s : State T W}

theorem Ok.idle_le (h : Ok s) : s.slots.idle.length ≤
    s.permits.available+(s.permits.assigned+s.bare .get)+s.bare .object+s.excess := by
  have hle : Table.total (fun task => task.permits+task.inFlight s.permits) s.tasks ≤
      Table.total Task.claims s.tasks+s.bare .get+s.bare .object+s.excess := by
    simp only [State.bare,State.excess,← Table.total_add]
    apply Table.total_le
    intro task hmem
    obtain ⟨i,hi⟩ := List.mem_iff_getElem?.mp hmem
    exact (h.funded.task i task hi).permits_le
  have hsplit := Table.total_add Task.permits (Task.inFlight s.permits) s.tasks
  have htotal := h.funded.loan.total
  have htaken := h.funded.taken
  have hflight := h.funded.inFlight
  rw [Semaphore.State.inFlight_eq] at hflight
  have hcapacity := h.stocked.capacity
  omega

theorem Ok.returned (h : Ok s) (hdone : ∀ task ∈ s.tasks, ∃ result, task.stage = .done result) :
    s.permits.available = s.config.maxSize := by
  have hzero {f : Task T → ℕ} (hf : ∀ task, TaskOk s.permits task →
      (∃ result, task.stage = .done result) → f task = 0) : Table.total f s.tasks = 0 :=
    Table.total_eq_zero.mpr fun i task hi =>
      hf task (h.funded.task i task hi) (hdone task (List.mem_of_getElem? hi))
  have hpermits := hzero (f := Task.permits) fun task _ hend => by
    obtain ⟨result,hresult⟩ := hend
    rw [Task.permits,hresult]
    rfl
  have hinFlight := hzero (f := Task.inFlight s.permits) fun task hok hend => by
    obtain ⟨result,hresult⟩ := hend
    exact hok.inFlight (by rw [hresult]; rfl)
  have hassigned : s.permits.assigned = 0 := by
    apply Semaphore.assigned_eq_zero
    intro f hf
    obtain ⟨i,task,hi,hfuture⟩ := h.funded.queued f hf
    obtain ⟨result,hresult⟩ := hdone task (List.mem_of_getElem? hi)
    rw [hresult] at hfuture
    cases hfuture
  have htotal := h.funded.loan.total
  have htaken := h.funded.taken
  have hflight := h.funded.inFlight
  rw [Semaphore.State.inFlight_eq] at hflight
  omega

/-- The pool never exceeds its capacity, in all interleavings. -/
theorem pool_capacity (h : (machine T W).Reachable s) : CapacityLaw s := by
  have hinv := reachable_inv h
  have hok := hinv.ok
  have hclaims : Table.total Task.claims s.tasks = s.checkedOut+s.beingRecycled+s.beingCreated := by
    simp only [State.checkedOut,State.beingRecycled,State.beingCreated,← Table.total_add]
    exact Table.total_congr fun task _ => task.stage.claims_eq
  have hmembers : Table.total Task.members s.tasks = s.checkedOut+s.beingRecycled := by
    simp only [State.checkedOut,State.beingRecycled,← Table.total_add]
    exact Table.total_congr fun task _ => task.stage.members_eq
  have hcapacity := hok.stocked.capacity
  have hsize := hok.stocked.size
  simp only at hcapacity hsize
  exact ⟨by omega,hok.idle_le,by omega,hok.returned,hok.reported,hinv.sound,hok.funded.loan.sound⟩

end Law

/-- Of two permits, one goes to a `get` that creates an object, the other one to a
`replenish_to` that inserts one; then the first object is dropped. -/
def replenishRun : List (Action ℕ ℕ) :=
  [.get,.use 0 (.poll 7),.advance 0 false,.advance 0 false,.use 0 .proceed,.use 0 (.created 40 1),
    .replenishTo 5,.advance 1 false,.advance 1 false,.use 1 .proceed,.use 1 .proceed,
    .advance 1 false,.use 1 (.created 41 2),.use 0 (.drop 3)]

def twoObjects : State ℕ ℕ :=
  ⟨⟨2,.fifo,.detach⟩,Semaphore.new ℕ 2,PoolState.new ℕ,[],0,[],none⟩

theorem pool_capacity_replenishRun :
    ∃ s, (machine ℕ ℕ).exec twoObjects replenishRun = some s ∧
      s.slots.idle.map ObjectState.o = [41,40] ∧ s.permits.available = 0 ∧ s.bare .object = 1 ∧
      s.excess = 1 ∧ CapacityLaw s := by
  have hrun : ((machine ℕ ℕ).exec twoObjects replenishRun).map (fun s =>
      (s.slots.idle.map ObjectState.o,s.permits.available,s.bare .object,s.excess)) =
      some ([41,40],0,1,1) := by decide +kernel
  obtain ⟨s,hs,hend⟩ := Option.map_eq_some_iff.mp hrun
  have hreach : (machine ℕ ℕ).Reachable s :=
    ⟨twoObjects,replenishRun,⟨⟨2,.fifo,.detach⟩,by decide,rfl⟩,fun _ _ => trivial,hs⟩
  simp only [Prod.mk.injEq] at hend
  exact ⟨s,hs,hend.1,hend.2.1,hend.2.2.1,hend.2.2.2,pool_capacity hreach⟩

end BoundedPool
end Asyncband
