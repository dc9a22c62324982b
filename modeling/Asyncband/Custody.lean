import Mathlib.Data.List.Nodup
import Mathlib.Logic.ExistsUnique
import Mathlib.Logic.Function.Basic

/-! Numbered tokens that are handed on.
A token is issued into the hands of the running step. The step places it with a holder
that has none, or it ends the token; a later step may take it from its holder again. At
any time each token is in exactly one place. -/
namespace Asyncband

/-- `holder f` is the token that `f` has, `hand` the one in the hands of the step. -/
structure Custody (holder : ℕ → Option ℕ) (hand : Option ℕ) (issued : ℕ) (ended : List ℕ) :
    Prop where
  placed : ∀ n, n < issued → hand = some n ∨ n ∈ ended ∨ ∃ f, holder f = some n
  held : ∀ f n, holder f = some n → n < issued ∧ n ∉ ended ∧ hand ≠ some n
  inj : ∀ f g n, holder f = some n → holder g = some n → f = g
  hand_new : ∀ n, hand = some n → n < issued ∧ n ∉ ended
  ended_lt : ∀ n ∈ ended, n < issued
  nodup : ended.Nodup

namespace Custody

variable {holder : ℕ → Option ℕ} {hand : Option ℕ} {issued f n : ℕ} {ended : List ℕ}

theorem empty : Custody (fun _ => none) none 0 [] where
  placed n hn := absurd hn (Nat.not_lt_zero n)
  held := by simp
  inj := by simp
  hand_new := by simp
  ended_lt := by simp
  nodup := List.nodup_nil

theorem issue (h : Custody holder none issued ended) :
    Custody holder (some issued) (issued+1) ended where
  placed n hn := by
    rcases Nat.lt_succ_iff_lt_or_eq.mp hn with hlt | rfl
    · exact Or.inr ((h.placed n hlt).resolve_left (by simp))
    · exact Or.inl rfl
  held f n hf := by
    obtain ⟨hlt,hend,-⟩ := h.held f n hf
    exact ⟨Nat.lt_succ_of_lt hlt,hend,fun heq => Nat.ne_of_gt hlt (Option.some.inj heq)⟩
  inj := h.inj
  hand_new := by
    rintro n ⟨⟩
    exact ⟨Nat.lt_succ_self _,fun hm => Nat.lt_irrefl _ (h.ended_lt _ hm)⟩
  ended_lt n hn := Nat.lt_succ_of_lt (h.ended_lt n hn)
  nodup := h.nodup

theorem place (h : Custody holder (some n) issued ended) (hf : holder f = none) :
    Custody (Function.update holder f (some n)) none issued ended := by
  obtain ⟨hlt,hend⟩ := h.hand_new n rfl
  have hcases : ∀ g m, Function.update holder f (some n) g = some m →
      (g = f ∧ m = n) ∨ (g ≠ f ∧ m ≠ n ∧ holder g = some m) := by
    intro g m hg
    by_cases hgf : g = f
    · rw [hgf,Function.update_self] at hg
      exact Or.inl ⟨hgf,(Option.some.inj hg).symm⟩
    · rw [Function.update_of_ne hgf] at hg
      exact Or.inr ⟨hgf,fun hm => (h.held g m hg).2.2 (by rw [hm]),hg⟩
  refine ⟨fun m hm => ?_,fun g m hg => ?_,fun g k m hg hk => ?_,by simp,h.ended_lt,h.nodup⟩
  · rcases h.placed m hm with hhand | hm | ⟨g,hg⟩
    · cases hhand
      exact Or.inr (Or.inr ⟨f,Function.update_self ..⟩)
    · exact Or.inr (Or.inl hm)
    · have hgf : g ≠ f := by
        rintro rfl
        rw [hf] at hg
        cases hg
      exact Or.inr (Or.inr ⟨g,by rw [Function.update_of_ne hgf,hg]⟩)
  · rcases hcases g m hg with ⟨-,rfl⟩ | ⟨-,-,hg⟩
    · exact ⟨hlt,hend,by simp⟩
    · exact ⟨(h.held g m hg).1,(h.held g m hg).2.1,by simp⟩
  · rcases hcases g m hg with ⟨hgf,hm⟩ | ⟨-,hm,hg⟩ <;>
      rcases hcases k m hk with ⟨hkf,hm'⟩ | ⟨-,hm',hk⟩
    · exact hgf.trans hkf.symm
    · exact absurd hm hm'
    · exact absurd hm' hm
    · exact h.inj g k m hg hk

theorem take (h : Custody holder none issued ended) (f : ℕ) :
    Custody (Function.update holder f none) (holder f) issued ended := by
  have hcases : ∀ g m, Function.update holder f none g = some m → g ≠ f ∧ holder g = some m := by
    intro g m hg
    by_cases hgf : g = f
    · rw [hgf,Function.update_self] at hg
      cases hg
    · rw [Function.update_of_ne hgf] at hg
      exact ⟨hgf,hg⟩
  refine ⟨fun m hm => ?_,fun g m hg => ?_,fun g k m hg hk => ?_,fun m hm => ?_,h.ended_lt,h.nodup⟩
  · rcases h.placed m hm with hhand | hm | ⟨g,hg⟩
    · cases hhand
    · exact Or.inr (Or.inl hm)
    · by_cases hgf : g = f
      · exact Or.inl (hgf ▸ hg)
      · exact Or.inr (Or.inr ⟨g,by rw [Function.update_of_ne hgf,hg]⟩)
  · obtain ⟨hgf,hg⟩ := hcases g m hg
    exact ⟨(h.held g m hg).1,(h.held g m hg).2.1,fun hf => hgf (h.inj g f m hg hf)⟩
  · exact h.inj g k m (hcases g m hg).2 (hcases k m hk).2
  · exact ⟨(h.held f m hm).1,(h.held f m hm).2.1⟩

theorem finish (h : Custody holder (some n) issued ended) :
    Custody holder none issued (ended++[n]) := by
  obtain ⟨hlt,hend⟩ := h.hand_new n rfl
  refine ⟨fun m hm => ?_,fun g m hg => ?_,h.inj,by simp,fun m hm => ?_,?_⟩
  · rcases h.placed m hm with hhand | hm | hheld
    · cases hhand
      exact Or.inr (Or.inl (by simp))
    · exact Or.inr (Or.inl (List.mem_append_left _ hm))
    · exact Or.inr (Or.inr hheld)
  · obtain ⟨hm,hnot,hhand⟩ := h.held g m hg
    refine ⟨hm,fun hmem => ?_,by simp⟩
    rcases List.mem_append.mp hmem with hmem | hmem
    · exact hnot hmem
    · exact hhand (by rw [List.mem_singleton.mp hmem])
  · rcases List.mem_append.mp hm with hm | hm
    · exact h.ended_lt m hm
    · rw [List.mem_singleton.mp hm]
      exact hlt
  · rw [List.nodup_append]
    refine ⟨h.nodup,List.nodup_singleton n,?_⟩
    intro a ha b hb heq
    rw [List.mem_singleton.mp hb] at heq
    exact hend (heq ▸ ha)

theorem place_unique (h : Custody holder none issued ended) (hn : n < issued) :
    (∃! f, holder f = some n) ∧ n ∉ ended ∨ n ∈ ended ∧ ∀ f, holder f ≠ some n := by
  rcases h.placed n hn with hhand | hend | ⟨f,hf⟩
  · cases hhand
  · exact Or.inr ⟨hend,fun f hf => (h.held f n hf).2.1 hend⟩
  · exact Or.inl ⟨⟨f,hf,fun g hg => h.inj g f n hg hf⟩,(h.held f n hf).2.1⟩

end Custody
end Asyncband
