import Asyncband.PoolRetain
import Asyncband.Table

/-! Where the objects of a pool are.
Objects are numbered when they enter the pool. Each number is in one place: it is idle, or a
task of the pool has it, or it is gone. What a task has is a parameter. -/
namespace Asyncband
namespace Pool

variable {σ T α : Type} {ids : α → List ℕ} {idle idle' : List (ObjectState T)} {tasks : List α}
    {gone gone' : List ℕ} {created n i : ℕ} {old new : α}

def numbers (idle : List (ObjectState T)) : List ℕ := idle.map ObjectState.id

def occurrences (ids : α → List ℕ) (idle : List (ObjectState T)) (tasks : List α) (id : ℕ) : ℕ :=
  (numbers idle).count id+Table.total (fun task => (ids task).count id) tasks

/-- Every object that was created is in one place. -/
def Stock (ids : α → List ℕ) (idle : List (ObjectState T)) (tasks : List α) (gone : List ℕ)
    (created : ℕ) : Prop :=
  ∀ id, occurrences ids idle tasks id+gone.count id = if id < created then 1 else 0

theorem count_born (created n id : ℕ) :
    (if id < created+n then 1 else 0) =
      (if id < created then 1 else 0)+(List.range' created n).count id := by
  rw [List.Nodup.count List.nodup_range']
  simp only [List.mem_range'_1]
  split <;> split <;> split <;> omega

namespace Stock

variable (h : Stock ids idle tasks gone created)
include h

theorem set (hi : tasks[i]? = some old)
    (hcount : ∀ id, (numbers idle').count id+(ids new).count id+gone'.count id =
      (numbers idle).count id+(ids old).count id+gone.count id+(List.range' created n).count id) :
    Stock ids idle' (tasks.set i new) gone' (created+n) := by
  intro id
  have hset := Table.total_set (fun task => (ids task).count id) hi new
  have hold := h id
  have hnew := hcount id
  rw [count_born]
  simp only [occurrences] at hold ⊢
  omega

theorem push (hnew : ids new = []) : Stock ids idle (tasks++[new]) gone created := by
  intro id
  have hold := h id
  simpa [occurrences,hnew] using hold

theorem exclusive {j id : ℕ} {other : α} (hi : tasks[i]? = some old) (hj : tasks[j]? = some other)
    (hold : id ∈ ids old) (hother : id ∈ ids other) : i = j ∧ id ∉ numbers idle := by
  have hone : occurrences ids idle tasks id ≤ 1 := by
    have hid := h id
    split at hid <;> omega
  have hpos := List.count_pos_iff.mpr hold
  have hpos' := List.count_pos_iff.mpr hother
  simp only [occurrences] at hone
  refine ⟨by_contra fun hij => ?_,fun hidle => ?_⟩
  · have hle := Table.add_le_total (fun task => (ids task).count id) hij hi hj
    omega
  · have hle := Table.le_total (fun task => (ids task).count id) hi
    have hpos := List.count_pos_iff.mpr hidle
    omega

end Stock

namespace PoolState

variable {p p' : PoolState T} {strategy : QueueStrategy} {state : ObjectState T}

theorem pop_count (h : p.pop strategy = (some state,p')) (id : ℕ) :
    (numbers p.idle).count id = (numbers p'.idle).count id+[state.id].count id := by
  cases strategy with
  | fifo =>
    rw [pop,Prod.mk.injEq] at h
    rw [← h.2,← List.cons_head?_tail h.1]
    simp [numbers,List.count_cons]
  | lifo =>
    rw [pop,Prod.mk.injEq] at h
    rw [← h.2,← List.dropLast_append_getLast? state h.1]
    simp [numbers]

/-- The objects that `retain` takes out of the queue, in the order of its vector. -/
def departed (p : PoolState T) (f : Predicate σ T) (captured : σ) : List ℕ :=
  match Scan.run f p.idle captured with
  | (.panicked,_) => []
  | (_,x) => numbers (x.idle.drop x.retained)

/-- `retain` keeps a part of the queue, and all of it when its predicate panics. -/
theorem retain_departed (f : Predicate σ T) (captured : σ) (hsize : p.idle.length ≤ p.currentSize) :
    ∃ result p', p.retain f captured = .ok (result,p') ∧
      (numbers p'.idle++p.departed f captured).Perm (numbers p.idle) ∧
      p'.currentSize+(p.departed f captured).length = p.currentSize := by
  have hids : numbers (consult f captured p.idle).objects = numbers p.idle := by
    have heq := congrArg (List.map Prod.fst) (consult_objects f captured p.idle)
    rwa [List.map_map,List.map_map] at heq
  obtain ⟨e,y,hrun,hfollows⟩ := Scan.run_consult f p.idle captured
  by_cases hstop : (consult f captured p.idle).stop = none
  · obtain ⟨rejected,hrejected,hidle⟩ := hfollows.idle
    obtain ⟨removed,hremoved,hle,hretain⟩ := p.retain_finish f captured hsize hstop
    have hdeparted : p.departed f captured = numbers rejected := by
      cases e with
      | panicked => exact absurd rfl (hfollows.finished hstop).1
      | _ => simp [departed,hrun,hidle,hfollows.retained,Visit.left,hstop]
    rw [List.nil_append] at hrejected
    refine ⟨_,_,hretain,?_,?_⟩
    · have hall := (consult f captured p.idle).accepted_append_rejected.map ObjectState.id
      have hvisited : (consult f captured p.idle).objects =
          (consult f captured p.idle).visited.map Prod.snd := by
        simp [Visit.objects,Visit.left,hstop]
      rw [← hvisited,List.map_append] at hall
      rw [hdeparted]
      exact ((hrejected.map ObjectState.id).append_left _).trans (hall.trans (.of_eq hids))
    · rw [hdeparted,numbers,List.length_map,(hrejected.trans hremoved.symm).length_eq]
      exact Nat.sub_add_cancel hle
  · obtain ⟨idle,hretain,hperm⟩ := p.retain_stop f captured hstop
    have hdeparted : p.departed f captured = [] := by
      rw [departed,hrun,hfollows.panicked hstop]
    refine ⟨_,_,hretain,?_,by rw [hdeparted]; rfl⟩
    rw [hdeparted,List.append_nil,← hids]
    exact hperm.map _

end PoolState
end Pool
end Asyncband
