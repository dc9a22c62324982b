import Asyncband.Table
import Mathlib.Data.List.Nodup

/-! First in, first out, with cancellation.
Members enter a queue once, wait, and are served from its front; a member that is no
longer live has been cancelled. The entries that are still live are the served ones
followed by the waiting ones, in the order in which they entered. `Line` is the case in
which the members are the rows of a table. -/
namespace Asyncband

structure Fifo (live : ℕ → Bool) (entered served waiting : List ℕ) : Prop where
  order : entered.filter live = served.filter live++waiting
  entered_nodup : entered.Nodup
  served_entered : ∀ f ∈ served, f ∈ entered
  served_waiting : ∀ f ∈ served, f ∉ waiting
  served_nodup : served.Nodup

namespace Fifo

variable {live live' : ℕ → Bool} {entered served waiting new : List ℕ} {f : ℕ}

theorem empty : Fifo live [] [] [] where
  order := rfl
  entered_nodup := List.nodup_nil
  served_entered := by simp
  served_waiting := by simp
  served_nodup := List.nodup_nil

section

variable (h : Fifo live entered served waiting)
include h

theorem mem_waiting (hf : f ∈ waiting) : f ∈ entered ∧ live f = true := by
  have hm : f ∈ entered.filter live := by
    rw [h.order]
    exact List.mem_append_right _ hf
  exact List.mem_filter.mp hm

theorem waiting_nodup : waiting.Nodup := by
  have hn := h.entered_nodup.filter live
  rw [h.order] at hn
  exact (List.nodup_append.mp hn).2.1

theorem congr (hl : ∀ f ∈ entered, live' f = live f) : Fifo live' entered served waiting where
  order := by
    have hs : served.filter live' = served.filter live :=
      List.filter_congr fun f hf => hl f (h.served_entered f hf)
    rw [List.filter_congr hl,hs]
    exact h.order
  entered_nodup := h.entered_nodup
  served_entered := h.served_entered
  served_waiting := h.served_waiting
  served_nodup := h.served_nodup

theorem enter (hf : f ∉ entered) (hl : live f = true) :
    Fifo live (entered++[f]) served (waiting++[f]) where
  order := by simp [h.order,hl]
  entered_nodup := by
    rw [List.nodup_append]
    refine ⟨h.entered_nodup,List.nodup_singleton f,?_⟩
    intro a ha b hb
    rw [List.mem_singleton.mp hb]
    exact fun heq => hf (heq ▸ ha)
  served_entered g hg := List.mem_append_left _ (h.served_entered g hg)
  served_waiting g hg := by
    have hne : g ≠ f := fun heq => hf (heq ▸ h.served_entered g hg)
    simp [h.served_waiting g hg,hne]
  served_nodup := h.served_nodup

end

theorem serve (h : Fifo live entered served (new++waiting)) :
    Fifo live entered (served++new) waiting where
  order := by
    have hnew : new.filter live = new :=
      List.filter_eq_self.mpr fun f hf => (h.mem_waiting (List.mem_append_left _ hf)).2
    rw [h.order,List.filter_append,hnew,List.append_assoc]
  entered_nodup := h.entered_nodup
  served_entered f hf := by
    rcases List.mem_append.mp hf with hf | hf
    · exact h.served_entered f hf
    · exact (h.mem_waiting (List.mem_append_left _ hf)).1
  served_waiting f hf := by
    rcases List.mem_append.mp hf with hf | hf
    · exact fun hw => h.served_waiting f hf (List.mem_append_right _ hw)
    · intro hw
      have hn := (List.nodup_append.mp h.waiting_nodup).2.2
      exact hn f hf f hw rfl
  served_nodup := by
    rw [List.nodup_append]
    refine ⟨h.served_nodup,(List.nodup_append.mp h.waiting_nodup).1,?_⟩
    intro a ha b hb heq
    exact h.served_waiting a ha (List.mem_append_left _ (heq ▸ hb))

theorem cancel (h : Fifo live entered served waiting) (hf : live' f = false)
    (hl : ∀ g, g ≠ f → live' g = live g) :
    Fifo live' entered served (waiting.filter (· ≠ f)) where
  order := by
    have hfilter : ∀ l : List ℕ, l.filter live' = (l.filter live).filter (· ≠ f) := by
      intro l
      rw [List.filter_filter]
      refine List.filter_congr fun g _ => ?_
      by_cases hg : g = f
      · simp [hg,hf]
      · simp [hg,hl g hg]
    rw [hfilter,hfilter,h.order,List.filter_append]
  entered_nodup := h.entered_nodup
  served_entered := h.served_entered
  served_waiting g hg hw := h.served_waiting g hg (List.mem_of_mem_filter hw)
  served_nodup := h.served_nodup

end Fifo

/-- Rows enter at most once, and a row that has entered is not fresh any more. -/
structure Line {A : Type} (live fresh : A → Bool) (rows : List A)
    (entered served waiting : List ℕ) : Prop where
  fifo : Fifo (fun f => rows[f]?.any live) entered served waiting
  enlisted : ∀ f ∈ entered, ∃ c, rows[f]? = some c ∧ fresh c = false

namespace Line

variable {A : Type} {live fresh : A → Bool} {rows : List A} {entered served waiting : List ℕ}
  {i : ℕ} {c c' : A}

theorem empty : Line live fresh [] [] [] [] := ⟨Fifo.empty,by simp⟩

section

variable (h : Line live fresh rows entered served waiting)
include h

theorem not_entered (hi : rows[i]? = some c) (hc : fresh c = true) : i ∉ entered := by
  intro hm
  obtain ⟨d,hd,hf⟩ := h.enlisted i hm
  cases hd.symm.trans hi
  rw [hc] at hf
  cases hf

theorem enlisted_set (hi : rows[i]? = some c) (hc : fresh c = false → fresh c' = false) :
    ∀ f ∈ entered, ∃ d, (rows.set i c')[f]? = some d ∧ fresh d = false := by
  intro f hf
  obtain ⟨d,hd,hfresh⟩ := h.enlisted f hf
  by_cases hfi : f = i
  · subst hfi
    cases hd.symm.trans hi
    exact ⟨c',Table.getElem?_set_self' hi c',hc hfresh⟩
  · exact ⟨d,by rw [List.getElem?_set_ne (Ne.symm hfi),hd],hfresh⟩

theorem push (c : A) : Line live fresh (rows++[c]) entered served waiting := by
  refine ⟨h.fifo.congr fun f hf => ?_,fun f hf => ?_⟩
  · obtain ⟨d,hd,-⟩ := h.enlisted f hf
    rw [Table.getElem?_push_old hd,hd]
  · obtain ⟨d,hd,hfresh⟩ := h.enlisted f hf
    exact ⟨d,Table.getElem?_push_old hd c,hfresh⟩

theorem set (hi : rows[i]? = some c) (hlive : fresh c = true ∨ live c' = live c)
    (hfresh : fresh c = false → fresh c' = false) :
    Line live fresh (rows.set i c') entered served waiting := by
  refine ⟨h.fifo.congr fun f hf => ?_,h.enlisted_set hi hfresh⟩
  by_cases hfi : f = i
  · subst hfi
    have hc := hlive.resolve_left fun hc => h.not_entered hi hc hf
    simp [Table.getElem?_set_self' hi,hi,hc]
  · simp only [List.getElem?_set_ne (Ne.symm hfi)]

theorem enter (hi : rows[i]? = some c) (hc : fresh c = true) (hlive : live c' = true)
    (hfresh : fresh c' = false) :
    Line live fresh (rows.set i c') (entered++[i]) served (waiting++[i]) := by
  have hset : Line live fresh (rows.set i c') entered served waiting :=
    h.set hi (Or.inl hc) fun _ => hfresh
  have hself : (rows.set i c')[i]? = some c' := Table.getElem?_set_self' hi c'
  refine ⟨hset.fifo.enter (h.not_entered hi hc) (by simp [hself,hlive]),fun f hf => ?_⟩
  rcases List.mem_append.mp hf with hf | hf
  · exact hset.enlisted f hf
  · rw [List.mem_singleton.mp hf]
    exact ⟨c',hself,hfresh⟩

end

theorem serve {f : ℕ} (h : Line live fresh rows entered served (f::waiting)) :
    Line live fresh rows entered (served++[f]) waiting :=
  ⟨Fifo.serve h.fifo,h.enlisted⟩

theorem cancel (h : Line live fresh rows entered served waiting) (hi : rows[i]? = some c)
    (hlive : live c' = false) (hfresh : fresh c' = false) :
    Line live fresh (rows.set i c') entered served (waiting.filter (· ≠ i)) := by
  refine ⟨h.fifo.cancel ?_ fun f hf => ?_,h.enlisted_set hi fun _ => hfresh⟩
  · simp [Table.getElem?_set_self' hi,hlive]
  · simp only [List.getElem?_set_ne (Ne.symm hf)]

end Line
end Asyncband
