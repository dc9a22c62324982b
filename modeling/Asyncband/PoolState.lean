import Asyncband.Checked
import Asyncband.Semaphore

/-! The objects of a pool.
`PoolState` is what the pools keep behind their lock: the queue of idle objects and the
number of objects that belong to the pool. Instants are numbers that the clock supplies. -/
namespace Asyncband
namespace Pool

structure ObjectStatus where
  created : ℕ
  lastReturned : Option ℕ
  recycleCount : ℕ
  deriving DecidableEq

namespace ObjectStatus

def default (now : ℕ) : ObjectStatus := ⟨now,none,0⟩

def markRecycled (status : ObjectStatus) : Except String ObjectStatus := do
  let recycleCount ← Checked.add usizeMax status.recycleCount 1
  .ok {status with recycleCount := recycleCount}

theorem markRecycled_cases (status : ObjectStatus) :
    (∃ status', status.markRecycled = .ok status') ∨
      status.markRecycled = .error "attempt to add with overflow" := by
  rw [markRecycled]
  rcases Checked.add_cases usizeMax status.recycleCount 1 with hadd | hadd <;> rw [hadd]
  · exact .inl ⟨_,rfl⟩
  · exact .inr rfl

def markReturned (status : ObjectStatus) (now : ℕ) : ObjectStatus :=
  {status with lastReturned := some now}

end ObjectStatus

structure ObjectState (T : Type) where
  o : T
  status : ObjectStatus
  /-- Ghost: objects are numbered in the order in which they entered the pool. -/
  id : ℕ
  deriving DecidableEq

inductive QueueStrategy
  | fifo | lifo
  deriving DecidableEq

inductive RecycleCancelledStrategy
  | detach | returnToPool
  deriving DecidableEq

structure RetainResult (T : Type) where
  retained : ℕ
  removed : List T

structure PoolState (T : Type) where
  idle : List (ObjectState T)
  currentSize : ℕ

/-- What a call of the predicate of `retain` does: it has captured variables of its own
and may change the object. It panics when there is no answer. -/
abbrev Predicate (σ T : Type) := σ → T → ObjectStatus → Option Bool × T × σ

structure Scan (σ T : Type) where
  idle : List (ObjectState T)
  captured : σ
  retained : ℕ
  current : ℕ

namespace Scan

variable {σ T : Type}

/-- One call of the predicate, on the object at `current`; `none` when there is none. -/
def ask (f : Predicate σ T) (x : Scan σ T) : Option (Option Bool × Scan σ T) :=
  x.idle[x.current]?.map fun state =>
    let (answer,o,captured) := f x.captured state.o state.status
    (answer,{x with idle := x.idle.set x.current {state with o := o},captured := captured})

def swap (l : List (ObjectState T)) (i j : ℕ) : List (ObjectState T) :=
  match l[i]?,l[j]? with
  | some a,some b => (l.set i b).set j a
  | _,_ => l

inductive Exit
  | finished | removing | panicked
  deriving DecidableEq

/-- The first loop, up to the first object to remove. -/
def skip (f : Predicate σ T) : ℕ → Scan σ T → Exit × Scan σ T
  | 0, x => (.finished,x)
  | rounds+1, x =>
    match x.ask f with
    | none | some (none,_) => (.panicked,(x.ask f).elim x Prod.snd)
    | some (some false,x) => (.removing,{x with current := x.current+1})
    | some (some true,x) =>
      skip f rounds {x with current := x.current+1,retained := x.retained+1}

/-- The second loop, which moves retained objects forward. -/
def compact (f : Predicate σ T) : ℕ → Scan σ T → Exit × Scan σ T
  | 0, x => (.finished,x)
  | rounds+1, x =>
    match x.ask f with
    | none | some (none,_) => (.panicked,(x.ask f).elim x Prod.snd)
    | some (some false,x) => compact f rounds {x with current := x.current+1}
    | some (some true,x) =>
      compact f rounds {x with
        idle := swap x.idle x.retained x.current
        current := x.current+1
        retained := x.retained+1}

def run (f : Predicate σ T) (idle : List (ObjectState T)) (captured : σ) : Exit × Scan σ T :=
  match skip f idle.length ⟨idle,captured,0,0⟩ with
  | (.removing,x) => compact f (idle.length-x.current) x
  | result => result

end Scan

namespace PoolState

variable {σ T : Type} {p p' : PoolState T} {strategy : QueueStrategy}

def new (T : Type) : PoolState T := ⟨[],0⟩

def pop (p : PoolState T) : QueueStrategy → Option (ObjectState T) × PoolState T
  | .fifo => (p.idle.head?,{p with idle := p.idle.tail})
  | .lifo => (p.idle.getLast?,{p with idle := p.idle.dropLast})

def addIdle (p : PoolState T) (state : ObjectState T) : Except String (PoolState T) := do
  let currentSize ← Checked.add usizeMax p.currentSize 1
  .ok ⟨p.idle++[state],currentSize⟩

def addActive (p : PoolState T) : Except String (PoolState T) := do
  let currentSize ← Checked.add usizeMax p.currentSize 1
  .ok {p with currentSize := currentSize}

def returnIdle (p : PoolState T) (state : ObjectState T) : PoolState T :=
  {p with idle := p.idle++[state]}

def detach (p : PoolState T) : Except String (PoolState T) :=
  if p.currentSize = 0 then .error "detached object must belong to the pool"
  else .ok {p with currentSize := p.currentSize-1}

/-- `retain` after its loops. -/
def splitOff (p : PoolState T) (x : Scan σ T) : Except String (RetainResult T × PoolState T) := do
  let (idle,removed) :=
    if x.current = x.retained then (x.idle,[]) else (x.idle.take x.retained,x.idle.drop x.retained)
  let currentSize ← Checked.sub p.currentSize removed.length
  .ok (⟨x.retained,removed.map ObjectState.o⟩,⟨idle,currentSize⟩)

/-- There is no result when the predicate panics. -/
def retain (p : PoolState T) (f : Predicate σ T) (captured : σ) :
    Except String (Option (RetainResult T) × PoolState T) :=
  match Scan.run f p.idle captured with
  | (.panicked,x) => .ok (none,{p with idle := x.idle})
  | (_,x) => (p.splitOff x).map fun (result,p') => (some result,p')

theorem pop_some {state : ObjectState T} (h : p.pop strategy = (some state,p')) :
    p.idle.length = p'.idle.length+1 ∧ p'.currentSize = p.currentSize := by
  have hlen (hmem : state ∈ p.idle) : p.idle.length = p.idle.length-1+1 := by
    have hpos := List.length_pos_of_mem hmem
    omega
  cases strategy with
  | fifo =>
    rw [pop,Prod.mk.injEq] at h
    rw [← h.2,List.length_tail]
    exact ⟨hlen (List.mem_of_head? h.1),rfl⟩
  | lifo =>
    rw [pop,Prod.mk.injEq] at h
    rw [← h.2,List.length_dropLast]
    exact ⟨hlen (List.mem_of_getLast? h.1),rfl⟩

theorem pop_none (h : p.pop strategy = (none,p')) : p.idle = [] ∧ p' = p := by
  have hnil {idle : List (ObjectState T)} (hp : p.idle = []) (hidle : idle = []) :
      {p with idle := idle} = p := by
    rw [hidle,← hp]
  cases strategy with
  | fifo =>
    rw [pop,Prod.mk.injEq,List.head?_eq_none_iff] at h
    rw [← h.2]
    exact ⟨h.1,hnil h.1 (by rw [h.1,List.tail_nil])⟩
  | lifo =>
    rw [pop,Prod.mk.injEq,List.getLast?_eq_none_iff] at h
    rw [← h.2]
    exact ⟨h.1,hnil h.1 (by rw [h.1,List.dropLast_nil])⟩

end PoolState

namespace Scan

variable {σ T : Type} {f : Predicate σ T} {x y : Scan σ T} {n rounds : ℕ} {e : Exit}

theorem ask_eq_some {answer : Option Bool} (h : x.ask f = some (answer,y)) :
    y.idle.length = x.idle.length ∧ y.retained = x.retained ∧ y.current = x.current ∧
      x.current < x.idle.length := by
  obtain ⟨state,hstate,heq⟩ := Option.map_eq_some_iff.mp h
  obtain ⟨hlt,-⟩ := List.getElem?_eq_some_iff.mp hstate
  rw [Prod.mk.injEq] at heq
  rw [← heq.2]
  exact ⟨List.length_set,rfl,rfl,hlt⟩

theorem length_swap (l : List (ObjectState T)) (i j : ℕ) : (swap l i j).length = l.length := by
  unfold swap
  split
  · rw [List.length_set,List.length_set]
  · rfl

/-- The loops keep the number of idle objects and retain no more than they have seen. -/
structure Within (n : ℕ) (x : Scan σ T) : Prop where
  length : x.idle.length = n
  retained : x.retained ≤ x.current

theorem Within.asked (h : Within n x) : Within n ((x.ask f).elim x Prod.snd) := by
  cases hx : x.ask f with
  | none => exact h
  | some result =>
    obtain ⟨hlen,hretained,hcurrent,-⟩ := ask_eq_some hx
    have hle := h.retained
    exact ⟨hlen.trans h.length,by simp only [Option.elim_some]; omega⟩

theorem skip_within (h : Within n x) (hrounds : x.current+rounds = n) (hrun : skip f rounds x = (e,y)) :
    Within n y ∧ (e = .finished → y.current = n) ∧ (e = .removing → y.current ≤ n) := by
  induction rounds generalizing x with
  | zero =>
    cases hrun
    exact ⟨h,fun _ => hrounds,by rintro ⟨⟩⟩
  | succ rounds ih =>
    simp only [skip] at hrun
    split at hrun
    · cases hrun
      exact ⟨h.asked,by rintro ⟨⟩,by rintro ⟨⟩⟩
    · cases hrun
      exact ⟨h.asked,by rintro ⟨⟩,by rintro ⟨⟩⟩
    · next x' hask =>
      obtain ⟨hlen,hretained,hcurrent,-⟩ := ask_eq_some hask
      have hle := h.retained
      cases hrun
      exact ⟨⟨hlen.trans h.length,by simp only; omega⟩,by rintro ⟨⟩,fun _ => by simp only; omega⟩
    · next x' hask =>
      obtain ⟨hlen,hretained,hcurrent,-⟩ := ask_eq_some hask
      have hle := h.retained
      refine ih (x := {x' with current := x'.current+1,retained := x'.retained+1}) ⟨?_,?_⟩ ?_ hrun
      · exact hlen.trans h.length
      · simp only
        omega
      · simp only
        omega

theorem compact_within (h : Within n x) (hrounds : x.current+rounds = n)
    (hrun : compact f rounds x = (e,y)) : Within n y ∧ (e ≠ .panicked → y.current = n) := by
  induction rounds generalizing x with
  | zero =>
    cases hrun
    exact ⟨h,fun _ => hrounds⟩
  | succ rounds ih =>
    simp only [compact] at hrun
    split at hrun
    · cases hrun
      exact ⟨h.asked,fun hne => absurd rfl hne⟩
    · cases hrun
      exact ⟨h.asked,fun hne => absurd rfl hne⟩
    · next x' hask =>
      obtain ⟨hlen,hretained,hcurrent,-⟩ := ask_eq_some hask
      have hle := h.retained
      refine ih (x := {x' with current := x'.current+1}) ⟨?_,?_⟩ ?_ hrun
      · exact hlen.trans h.length
      · simp only
        omega
      · simp only
        omega
    · next x' hask =>
      obtain ⟨hlen,hretained,hcurrent,-⟩ := ask_eq_some hask
      have hle := h.retained
      refine ih ⟨?_,by simp only; omega⟩ (by simp only; omega) hrun
      rw [length_swap]
      exact hlen.trans h.length

theorem run_within {idle : List (ObjectState T)} {captured : σ} (hrun : run f idle captured = (e,y)) :
    Within idle.length y ∧ (e ≠ .panicked → y.current = idle.length) := by
  have hstart : Within idle.length (⟨idle,captured,0,0⟩ : Scan σ T) := ⟨rfl,Nat.le_refl 0⟩
  simp only [run] at hrun
  split at hrun
  · next x hskip =>
    obtain ⟨hwithin,-,hle⟩ := skip_within hstart (Nat.zero_add _) hskip
    have hle := hle rfl
    exact compact_within hwithin (by omega) hrun
  · next hne =>
    obtain ⟨hwithin,hdone,-⟩ := skip_within hstart (Nat.zero_add _) hrun
    refine ⟨hwithin,fun hp => ?_⟩
    cases e with
    | finished => exact hdone rfl
    | removing => exact absurd hrun (hne y)
    | panicked => exact absurd rfl hp

end Scan

theorem PoolState.splitOff_ok {σ T : Type} (p : PoolState T) {x : Scan σ T}
    (h : p.idle.length ≤ p.currentSize) (hx : Scan.Within p.idle.length x)
    (hcurrent : x.current = p.idle.length) :
    ∃ result p', p.splitOff x = .ok (result,p') ∧ p'.idle.length ≤ p.idle.length ∧
      p'.currentSize+p.idle.length = p.currentSize+p'.idle.length := by
  have hretained := hx.retained
  by_cases hall : x.current = x.retained
  · simp only [splitOff,if_pos hall,List.length_nil,Checked.sub_ok (Nat.zero_le _),bind,Except.bind]
    exact ⟨_,_,rfl,hx.length.le,by simp only [hx.length]; omega⟩
  · have hdrop : (x.idle.drop x.retained).length = p.idle.length-x.retained := by
      rw [List.length_drop,hx.length]
    have htake : (x.idle.take x.retained).length = x.retained := by
      rw [List.length_take,hx.length]
      omega
    simp only [splitOff,if_neg hall,Checked.sub_ok (hdrop ▸ (Nat.sub_le _ _).trans h),bind,Except.bind]
    exact ⟨_,_,rfl,by simp only [htake]; omega,by simp only [htake,hdrop]; omega⟩

theorem PoolState.retain_ok {σ T : Type} (p : PoolState T) (f : Predicate σ T) (captured : σ)
    (h : p.idle.length ≤ p.currentSize) :
    ∃ result p', p.retain f captured = .ok (result,p') ∧ p'.idle.length ≤ p.idle.length ∧
      p'.currentSize+p.idle.length = p.currentSize+p'.idle.length := by
  cases hrun : Scan.run f p.idle captured with
  | mk e x =>
    obtain ⟨hwithin,hcurrent⟩ := Scan.run_within hrun
    cases e with
    | panicked =>
      rw [retain,hrun]
      exact ⟨none,{p with idle := x.idle},rfl,hwithin.length.le,
        by simp only [hwithin.length]⟩
    | _ =>
      obtain ⟨result,p',hsplit,hp'⟩ := p.splitOff_ok h hwithin (hcurrent nofun)
      rw [retain,hrun]
      exact ⟨some result,p',congrArg (Except.map _) hsplit,hp'⟩

end Pool
end Asyncband
