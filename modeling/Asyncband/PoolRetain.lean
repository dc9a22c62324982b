import Asyncband.PoolState
import Mathlib.Data.List.Perm.Basic

/-! What `retain` does to the queue of idle objects.
`consult` is the predicate called on one object after the other; the loops of `retain` make
the same calls while they move objects around. -/
namespace Asyncband
namespace Pool

structure Visit (σ T : Type) where
  visited : List (Bool × ObjectState T)
  captured : σ
  /-- Where a call panicked: its object, and the objects behind it. -/
  stop : Option (ObjectState T × List (ObjectState T))

def consult {σ T : Type} (f : Predicate σ T) : σ → List (ObjectState T) → Visit σ T
  | captured, [] => ⟨[],captured,none⟩
  | captured, state::rest =>
    match f captured state.o state.status with
    | (some answer,o,captured') =>
      let v := consult f captured' rest
      {v with visited := (answer,{state with o := o})::v.visited}
    | (none,o,captured') => ⟨[],captured',some ({state with o := o},rest)⟩

namespace Visit

variable {σ T : Type}

def accepted (v : Visit σ T) : List (ObjectState T) := (v.visited.filter fun x => x.1).map Prod.snd

def rejected (v : Visit σ T) : List (ObjectState T) := (v.visited.filter fun x => !x.1).map Prod.snd

/-- The object of the call that panicked and the objects behind it. -/
def left (v : Visit σ T) : List (ObjectState T) :=
  match v.stop with
  | none => []
  | some (state,rest) => state::rest

def objects (v : Visit σ T) : List (ObjectState T) := v.visited.map Prod.snd++v.left

def calls (v : Visit σ T) : ℕ := v.visited.length+if v.stop.isSome then 1 else 0

theorem accepted_append_rejected (v : Visit σ T) :
    (v.accepted++v.rejected).Perm (v.visited.map Prod.snd) := by
  rw [accepted,rejected,← List.map_append]
  exact (List.filter_append_perm _ _).map _

end Visit

section

variable {σ T : Type} (f : Predicate σ T) {captured captured' : σ} {state : ObjectState T} {o : T}

theorem consult_cons {answer : Bool} (h : f captured state.o state.status = (some answer,o,captured'))
    (rest : List (ObjectState T)) :
    consult f captured (state::rest) = {consult f captured' rest with
      visited := (answer,{state with o := o})::(consult f captured' rest).visited} := by
  rw [consult,h]

theorem consult_stop (h : f captured state.o state.status = (none,o,captured'))
    (rest : List (ObjectState T)) :
    consult f captured (state::rest) = ⟨[],captured',some ({state with o := o},rest)⟩ := by
  rw [consult,h]

/-- No object is lost, and a call changes neither the place nor the status of its object. -/
theorem consult_objects (captured : σ) (idle : List (ObjectState T)) :
    (consult f captured idle).objects.map (fun state => (state.id,state.status)) =
      idle.map fun state => (state.id,state.status) := by
  induction idle generalizing captured with
  | nil => rfl
  | cons state rest ih =>
    obtain ⟨answer,o,captured',hf⟩ : ∃ answer o captured',
      f captured state.o state.status = (answer,o,captured') := ⟨_,_,_,rfl⟩
    cases answer with
    | none =>
      rw [consult_stop f hf]
      rfl
    | some answer =>
      rw [consult_cons f hf,List.map_cons,← ih captured']
      rfl

/-- The predicate, with a log of the objects that it was called on. -/
def Predicate.logged : Predicate (σ × List (T × ObjectStatus)) T := fun captured o status =>
  let (answer,o',captured') := f captured.1 o status
  (answer,o',captured',captured.2++[(o,status)])

theorem consult_logged (captured : σ) (log : List (T × ObjectStatus)) (idle : List (ObjectState T)) :
    (consult (Predicate.logged f) (captured,log) idle).captured.2 =
      log++(idle.take (consult f captured idle).calls).map fun state => (state.o,state.status) := by
  induction idle generalizing captured log with
  | nil => simp [consult]
  | cons state rest ih =>
    obtain ⟨answer,o,captured',hf⟩ : ∃ answer o captured',
      f captured state.o state.status = (answer,o,captured') := ⟨_,_,_,rfl⟩
    have hlogged : Predicate.logged f (captured,log) state.o state.status =
        (answer,o,captured',log++[(state.o,state.status)]) := by
      simp only [Predicate.logged,hf]
    cases answer with
    | none =>
      rw [consult_stop f hf,consult_stop _ hlogged]
      simp [Visit.calls]
    | some answer =>
      have hcalls : (consult f captured (state::rest)).calls = (consult f captured' rest).calls+1 := by
        rw [consult_cons f hf]
        simp only [Visit.calls,List.length_cons]
        omega
      rw [hcalls,consult_cons _ hlogged,List.take_succ_cons,List.map_cons]
      simp [ih]

theorem consult_calls (captured : σ) (idle : List (ObjectState T))
    (hstop : (consult f captured idle).stop = none) : (consult f captured idle).calls = idle.length := by
  have hlen := congrArg List.length (consult_objects f captured idle)
  simpa [Visit.objects,Visit.left,Visit.calls,hstop] using hlen

end

namespace Scan

variable {σ T : Type} {f : Predicate σ T}
variable {rest kept out : List (ObjectState T)} {state : ObjectState T} {captured : σ} {n : ℕ}
    {y : Scan σ T} {v : Visit σ T} {e : Exit}

theorem ask_at {x : Scan σ T} {pre : List (ObjectState T)} (hidle : x.idle = pre++state::rest)
    (hcurrent : x.current = pre.length) {answer : Option Bool} {o : T}
    (hf : f x.captured state.o state.status = (answer,o,captured)) :
    x.ask f = some (answer,{x with idle := pre++{state with o := o}::rest,captured := captured}) := by
  have hget : x.idle[x.current]? = some state := by
    rw [hidle,hcurrent,List.getElem?_append_right (Nat.le_refl _),Nat.sub_self]
    rfl
  have hset : x.idle.set x.current {state with o := o} = pre++{state with o := o}::rest := by
    rw [hidle,hcurrent,List.set_append_right _ _ (Nat.le_refl _),Nat.sub_self]
    rfl
  simp only [ask,hget,Option.map_some,hf,hset]

theorem swap_forward (kept out rest : List (ObjectState T)) (a b : ObjectState T) :
    swap (kept++(a::out)++b::rest) kept.length (kept.length+(a::out).length) =
      (kept++[b])++(out++[a])++rest := by
  have ha : (kept++(a::out)++b::rest)[kept.length]? = some a := by simp
  have hb : (kept++(a::out)++b::rest)[kept.length+(a::out).length]? = some b := by
    rw [← List.length_append,List.getElem?_append_right (Nat.le_refl _),Nat.sub_self]
    rfl
  simp only [swap,ha,hb]
  rw [List.append_assoc,List.set_append_right _ _ (Nat.le_refl _),Nat.sub_self,
    List.set_append_right _ _ (Nat.le_add_right _ _),Nat.add_sub_cancel_left]
  simp [List.set_append_right]

/-- The loops make the calls of `v`, and have `kept` and `out` in front of them. -/
structure Follows (v : Visit σ T) (kept out : List (ObjectState T)) (n : ℕ) (e : Exit) (y : Scan σ T) :
    Prop where
  captured : y.captured = v.captured
  retained : y.retained = (kept++v.accepted).length
  idle : ∃ rejected, rejected.Perm (out++v.rejected) ∧ y.idle = kept++v.accepted++rejected++v.left
  finished : v.stop = none → e ≠ .panicked ∧ y.current = n
  panicked : v.stop ≠ none → e = .panicked

theorem Follows.stop (hcaptured : y.captured = captured) (hretained : y.retained = kept.length)
    (hidle : y.idle = kept++out++state::rest) :
    Follows ⟨[],captured,some (state,rest)⟩ kept out n .panicked y where
  captured := hcaptured
  retained := by simpa [Visit.accepted] using hretained
  idle := ⟨out,by simp [Visit.rejected],by simpa [Visit.accepted,Visit.left] using hidle⟩
  finished h := by cases h
  panicked _ := rfl

theorem Follows.accept {out' : List (ObjectState T)} (h : Follows v (kept++[state]) out' n e y)
    (hout : out'.Perm out) : Follows {v with visited := (true,state)::v.visited} kept out n e y where
  captured := h.captured
  retained := by simpa [Visit.accepted] using h.retained
  idle := by
    obtain ⟨rejected,hperm,hidle⟩ := h.idle
    refine ⟨rejected,?_,?_⟩
    · refine hperm.trans ((hout.append_right _).trans ?_)
      simp [Visit.rejected]
    · simpa [Visit.accepted,Visit.left] using hidle
  finished := h.finished
  panicked := h.panicked

theorem Follows.reject (h : Follows v kept (out++[state]) n e y) :
    Follows {v with visited := (false,state)::v.visited} kept out n e y where
  captured := h.captured
  retained := by simpa [Visit.accepted] using h.retained
  idle := by
    obtain ⟨rejected,hperm,hidle⟩ := h.idle
    refine ⟨rejected,?_,?_⟩
    · simpa [Visit.rejected] using hperm
    · simpa [Visit.accepted,Visit.left] using hidle
  finished := h.finished
  panicked := h.panicked

theorem compact_follows (rest kept out : List (ObjectState T)) (x : Scan σ T) (hout : out ≠ [])
    (hidle : x.idle = kept++out++rest) (hretained : x.retained = kept.length)
    (hcurrent : x.current = kept.length+out.length) :
    ∃ e y, compact f rest.length x = (e,y) ∧
      Follows (consult f x.captured rest) kept out (x.current+rest.length) e y := by
  induction rest generalizing kept out x with
  | nil =>
    refine ⟨.finished,x,rfl,rfl,?_,⟨out,?_,?_⟩,fun _ => ⟨by simp,rfl⟩,fun h => absurd rfl h⟩
    · simpa [consult,Visit.accepted] using hretained
    · simp [consult,Visit.rejected]
    · simpa [consult,Visit.accepted,Visit.left] using hidle
  | cons state rest ih =>
    obtain ⟨answer,o,captured,hf⟩ : ∃ answer o captured,
      f x.captured state.o state.status = (answer,o,captured) := ⟨_,_,_,rfl⟩
    have hask := ask_at hidle (hcurrent.trans List.length_append.symm) hf
    have hn : x.current+(state::rest).length = x.current+1+rest.length := by
      rw [List.length_cons]
      omega
    rw [hn]
    cases answer with
    | none =>
      rw [consult_stop f hf]
      refine ⟨.panicked,⟨kept++out++{state with o := o}::rest,captured,x.retained,x.current⟩,?_,
        .stop rfl hretained rfl⟩
      simp only [List.length_cons,compact,hask,Option.elim_some]
    | some answer =>
      rw [consult_cons f hf]
      cases answer with
      | false =>
        obtain ⟨e,y,hrun,hfollows⟩ := ih kept (out++[{state with o := o}])
          ⟨kept++out++{state with o := o}::rest,captured,x.retained,x.current+1⟩ (by simp) (by simp)
          hretained (by simp only [hcurrent,List.length_append,List.length_singleton]; omega)
        exact ⟨e,y,by simpa only [List.length_cons,compact,hask] using hrun,hfollows.reject⟩
      | true =>
        obtain ⟨a,out,rfl⟩ := List.exists_cons_of_ne_nil hout
        have hswap := swap_forward kept out rest a {state with o := o}
        rw [← hcurrent,← hretained] at hswap
        obtain ⟨e,y,hrun,hfollows⟩ := ih (kept++[{state with o := o}]) (out++[a])
          ⟨(kept++[{state with o := o}])++(out++[a])++rest,captured,x.retained+1,x.current+1⟩
          (by simp) rfl (by simp [hretained])
          (by simp only [hcurrent,List.length_append,List.length_cons,List.length_nil]; omega)
        refine ⟨e,y,?_,hfollows.accept (List.perm_append_singleton a out)⟩
        simpa only [List.length_cons,compact,hask,hswap] using hrun

/-- The first loop leaves the queue alone; at the first rejected object the second one takes
over. -/
theorem run_follows (rest kept : List (ObjectState T)) (x : Scan σ T) (hidle : x.idle = kept++rest)
    (hretained : x.retained = kept.length) (hcurrent : x.current = kept.length) :
    ∃ e y, (match skip f rest.length x with
        | (.removing,z) => compact f (x.current+rest.length-z.current) z
        | result => result) = (e,y) ∧
      Follows (consult f x.captured rest) kept [] (x.current+rest.length) e y := by
  induction rest generalizing kept x with
  | nil =>
    refine ⟨.finished,x,rfl,rfl,?_,⟨[],?_,?_⟩,fun _ => ⟨by simp,rfl⟩,fun h => absurd rfl h⟩
    · simpa [consult,Visit.accepted] using hretained
    · simp [consult,Visit.rejected]
    · simpa [consult,Visit.accepted,Visit.left] using hidle
  | cons state rest ih =>
    obtain ⟨answer,o,captured,hf⟩ : ∃ answer o captured,
      f x.captured state.o state.status = (answer,o,captured) := ⟨_,_,_,rfl⟩
    have hask := ask_at hidle hcurrent hf
    have hn : x.current+(state::rest).length = x.current+1+rest.length := by
      rw [List.length_cons]
      omega
    rw [hn]
    cases answer with
    | none =>
      rw [consult_stop f hf]
      refine ⟨.panicked,⟨kept++{state with o := o}::rest,captured,x.retained,x.current⟩,?_,
        .stop rfl hretained (by simp)⟩
      simp only [List.length_cons,skip,hask,Option.elim_some]
    | some answer =>
      rw [consult_cons f hf]
      cases answer with
      | false =>
        obtain ⟨e,y,hrun,hfollows⟩ := compact_follows (f := f) rest kept [{state with o := o}]
          ⟨kept++{state with o := o}::rest,captured,x.retained,x.current+1⟩ (by simp) (by simp)
          hretained (by simp [hcurrent])
        refine ⟨e,y,?_,Follows.reject (by simpa using hfollows)⟩
        simp only [List.length_cons,skip,hask,Nat.add_sub_cancel_left]
        exact hrun
      | true =>
        obtain ⟨e,y,hrun,hfollows⟩ := ih (kept++[{state with o := o}])
          ⟨kept++{state with o := o}::rest,captured,x.retained+1,x.current+1⟩ (by simp)
          (by simp [hretained]) (by simp [hcurrent])
        refine ⟨e,y,?_,hfollows.accept (List.Perm.refl _)⟩
        simp only [List.length_cons,skip,hask]
        exact hrun

theorem run_consult (f : Predicate σ T) (idle : List (ObjectState T)) (captured : σ) :
    ∃ e y, run f idle captured = (e,y) ∧ Follows (consult f captured idle) [] [] idle.length e y := by
  obtain ⟨e,y,hrun,hfollows⟩ := run_follows (f := f) idle [] ⟨idle,captured,0,0⟩ rfl rfl rfl
  refine ⟨e,y,?_,by simpa using hfollows⟩
  rw [← hrun,Nat.zero_add]
  rfl

end Scan

namespace PoolState

variable {σ T : Type}

theorem retain_stop (p : PoolState T) (f : Predicate σ T) (captured : σ)
    (hstop : (consult f captured p.idle).stop ≠ none) :
    ∃ idle, p.retain f captured = .ok (none,{p with idle := idle}) ∧
      idle.Perm (consult f captured p.idle).objects := by
  obtain ⟨e,y,hrun,hfollows⟩ := Scan.run_consult f p.idle captured
  obtain rfl := hfollows.panicked hstop
  obtain ⟨rejected,hperm,hidle⟩ := hfollows.idle
  refine ⟨y.idle,by rw [retain,hrun],?_⟩
  rw [hidle,List.nil_append,Visit.objects]
  refine List.Perm.append_right _ ?_
  exact (List.Perm.append_left _ (by simpa using hperm)).trans (Visit.accepted_append_rejected _)

theorem retain_finish (p : PoolState T) (f : Predicate σ T) (captured : σ)
    (hsize : p.idle.length ≤ p.currentSize) (hstop : (consult f captured p.idle).stop = none) :
    ∃ removed : List (ObjectState T), removed.Perm (consult f captured p.idle).rejected ∧
      removed.length ≤ p.currentSize ∧ p.retain f captured =
        .ok (some ⟨(consult f captured p.idle).accepted.length,removed.map ObjectState.o⟩,
          ⟨(consult f captured p.idle).accepted,p.currentSize-removed.length⟩) := by
  obtain ⟨e,y,hrun,hfollows⟩ := Scan.run_consult f p.idle captured
  obtain ⟨hne,hcurrent⟩ := hfollows.finished hstop
  obtain ⟨removed,hperm,hidle⟩ := hfollows.idle
  have hretained := hfollows.retained
  simp only [List.nil_append,Visit.left,hstop,List.append_nil] at hperm hidle hretained
  have hlen : y.idle.length = p.idle.length := (Scan.run_within hrun).1.length
  rw [hidle,List.length_append] at hlen
  have hle : removed.length ≤ p.currentSize := by omega
  refine ⟨removed,hperm,hle,?_⟩
  have hsplit : (if y.current = y.retained then (y.idle,[])
      else (y.idle.take y.retained,y.idle.drop y.retained)) =
      ((consult f captured p.idle).accepted,removed) := by
    rw [hidle,hretained,List.take_left' rfl,List.drop_left' rfl]
    split
    · next hall =>
      obtain rfl : removed = [] := List.length_eq_zero_iff.mp (by omega)
      rw [List.append_nil]
    · rfl
  have hdone : p.splitOff y = .ok (⟨(consult f captured p.idle).accepted.length,removed.map ObjectState.o⟩,
      ⟨(consult f captured p.idle).accepted,p.currentSize-removed.length⟩) := by
    simp only [splitOff,hsplit,Checked.sub_ok hle,bind,Except.bind]
    rw [hretained]
  rw [retain,hrun]
  cases e with
  | panicked => exact absurd rfl hne
  | _ => exact congrArg (Except.map _) hdone

/-- `retain` asks about the objects in the order of the queue, once about each. -/
theorem retain_calls (p : PoolState T) (f : Predicate σ T) (captured : σ) :
    (Scan.run (Predicate.logged f) p.idle (captured,[])).2.captured.2 =
      (p.idle.take (consult f captured p.idle).calls).map fun state => (state.o,state.status) := by
  obtain ⟨e,y,hrun,hfollows⟩ := Scan.run_consult (Predicate.logged f) p.idle (captured,[])
  rw [hrun]
  exact (congrArg Prod.snd hfollows.captured).trans (consult_logged f captured [] p.idle)

/-- What `retain` leaves and returns, by what its predicate does. -/
structure Retains (p : PoolState T) (f : Predicate σ T) (captured : σ) : Prop where
  calls : (Scan.run (Predicate.logged f) p.idle (captured,[])).2.captured.2 =
    (p.idle.take (consult f captured p.idle).calls).map fun state => (state.o,state.status)
  /-- Without a panic the accepted objects stay in their order and the others leave. -/
  finish : (consult f captured p.idle).stop = none →
    (consult f captured p.idle).calls = p.idle.length ∧
    ∃ result p', p.retain f captured = .ok (some result,p') ∧
      p'.idle = (consult f captured p.idle).accepted ∧
      result.removed.Perm ((consult f captured p.idle).rejected.map ObjectState.o) ∧
      result.retained = p'.idle.length ∧ p'.currentSize+result.removed.length = p.currentSize
  /-- A panic, of whichever call, leaves every object in the pool. -/
  stop : (consult f captured p.idle).stop ≠ none →
    ∃ p', p.retain f captured = .ok (none,p') ∧ p'.idle.Perm (consult f captured p.idle).objects ∧
      (p'.idle.map ObjectState.id).Perm (p.idle.map ObjectState.id) ∧ p'.currentSize = p.currentSize

theorem retain_spec (p : PoolState T) (f : Predicate σ T) (captured : σ)
    (hsize : p.idle.length ≤ p.currentSize) : p.Retains f captured where
  calls := p.retain_calls f captured
  finish hstop := by
    obtain ⟨removed,hperm,hle,hretain⟩ := p.retain_finish f captured hsize hstop
    refine ⟨consult_calls f captured p.idle hstop,_,_,hretain,rfl,hperm.map _,rfl,?_⟩
    rw [List.length_map]
    exact Nat.sub_add_cancel hle
  stop hstop := by
    obtain ⟨idle,hretain,hperm⟩ := p.retain_stop f captured hstop
    refine ⟨_,hretain,hperm,?_,rfl⟩
    have hids := congrArg (List.map Prod.fst) (consult_objects f captured p.idle)
    rw [List.map_map,List.map_map] at hids
    exact (hperm.map _).trans (.of_eq hids)

def stocked : PoolState ℕ :=
  ⟨[⟨1,⟨0,none,0⟩,0⟩,⟨2,⟨0,none,0⟩,1⟩,⟨3,⟨0,none,0⟩,2⟩,⟨4,⟨0,none,0⟩,3⟩],5⟩

/-- Keeps even numbers, doubles what it sees, and panics at `bad`. -/
def even (bad : ℕ) : Predicate ℕ ℕ := fun captured o _ =>
  (if o = bad then none else some (o%2 == 0),2*o,captured+1)

theorem retain_spec_stocked : stocked.Retains (even 9) 0 ∧ stocked.Retains (even 3) 0 ∧
    (consult (even 9) 0 stocked.idle).stop = none ∧
    (consult (even 9) 0 stocked.idle).accepted.map ObjectState.o = [4,8] ∧
    (consult (even 3) 0 stocked.idle).stop ≠ none ∧
    (consult (even 3) 0 stocked.idle).objects.map ObjectState.o = [2,4,6,4] :=
  ⟨retain_spec stocked (even 9) 0 (by decide),retain_spec stocked (even 3) 0 (by decide),
    by decide,by decide,by decide,by decide⟩

end PoolState
end Pool
end Asyncband
