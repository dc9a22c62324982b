import Mathlib.Data.List.Basic
import Mathlib.Data.List.Induction
import Mathlib.Data.Set.Basic

/-! Transition systems whose nondeterminism is the choice of a label.
A label names what the environment decides (which operation starts, which
suspended operation moves), and `next` is the executable effect of that choice. -/
namespace Asyncband

theorem bind_eq_ok {ε α β : Type} {x : Except ε α} {f : α → Except ε β} {b : β}
    (h : x >>= f = .ok b) : ∃ a, x = .ok a ∧ f a = .ok b := by
  cases x with
  | error e => cases h
  | ok a => exact ⟨a,rfl,h⟩

namespace Transition

/-- States that record the error with which a run ended. -/
class Faulty (σ : Type) (ε : outParam Type) where
  fault : σ → Option ε
  fail : σ → ε → σ

section

variable {σ ε α : Type} [Faulty σ ε] {act : σ → α → Option (Except ε σ)} {s t : σ} {a : α}

/-- A step that fails leaves the state as it was, apart from the record of the error. -/
def settle (s : σ) : Except ε σ → σ
  | .ok t => t
  | .error e => Faulty.fail s e

/-- The step of an action that is enabled; none follows an error. -/
def step (act : σ → α → Option (Except ε σ)) (s : σ) (a : α) : Option σ :=
  if (Faulty.fault s).isSome then none else (act s a).map (settle s)

theorem step_eq_some (h : step act s a = some t) :
    Faulty.fault s = none ∧ ∃ x, act s a = some x ∧ settle s x = t := by
  obtain ⟨hs,h⟩ := Option.ite_none_left_eq_some.mp h
  exact ⟨Option.not_isSome_iff_eq_none.mp hs,Option.map_eq_some_iff.mp h⟩

theorem step_settle {x : Except ε σ} (hs : Faulty.fault s = none) (ha : act s a = some x) :
    step act s a = some (settle s x) := by
  rw [step,hs,ha]
  rfl

theorem step_of_act (hs : Faulty.fault s = none) (ha : act s a = some (.ok t)) :
    step act s a = some t :=
  step_settle hs ha

/-- Where the action cannot fail, a step is a successful action. -/
theorem step_ok {P : σ → Prop} (hok : ∀ x, act s a = some x → ∃ u, x = .ok u ∧ P u)
    (h : step act s a = some t) : act s a = some (.ok t) ∧ P t := by
  obtain ⟨-,x,hx,rfl⟩ := step_eq_some h
  obtain ⟨u,rfl,hu⟩ := hok x hx
  exact ⟨hx,hu⟩

end

structure Machine (σ α : Type) where
  init : σ → Prop
  next : σ → α → Option σ

namespace Machine

variable {σ α τ β : Type} (M : Machine σ α) {s t u s₀ : σ} {as : List α} {a : α} {P : α → Prop}

/-- Follow a sequence of labels; `none` when one of them is not enabled. -/
def exec : σ → List α → Option σ
  | s, [] => some s
  | s, a::as => (M.next s a).bind fun t => exec t as

@[simp] theorem exec_nil (s : σ) : M.exec s [] = some s := rfl

theorem exec_append (s : σ) (as bs : List α) :
    M.exec s (as++bs) = (M.exec s as).bind fun t => M.exec t bs := by
  induction as generalizing s with
  | nil => rfl
  | cons a as ih => simp [exec,ih,Option.bind_assoc]

theorem exec_snoc (hs : M.exec s as = some t) (ha : M.next t a = some u) :
    M.exec s (as++[a]) = some u := by
  simp [exec_append,hs,exec,ha]

/-- States at the end of a run that uses only labels in `P`. -/
def ReachableVia (P : α → Prop) (s : σ) : Prop :=
  ∃ s₀ as, M.init s₀ ∧ (∀ a ∈ as, P a) ∧ M.exec s₀ as = some s

def Reachable (s : σ) : Prop := M.ReachableVia (fun _ => True) s

theorem reachable_of_exec (hi : M.init s₀) (he : M.exec s₀ as = some s) : M.Reachable s :=
  ⟨s₀,as,hi,fun _ _ => trivial,he⟩

theorem ReachableVia.init (h : M.init s) : M.ReachableVia P s :=
  ⟨s,[],h,by simp,rfl⟩

theorem exec_invariant (P : α → Prop) (I : σ → Prop)
    (hstep : ∀ s a t, P a → I s → M.next s a = some t → I t) (hP : ∀ a ∈ as, P a) (hs : I s)
    (he : M.exec s as = some t) : I t := by
  induction as generalizing s with
  | nil => cases he; exact hs
  | cons a as ih =>
    obtain ⟨u,hu,he⟩ := Option.bind_eq_some_iff.mp he
    exact ih (fun b hb => hP b (by simp [hb])) (hstep s a u (hP a (by simp)) hs hu) he

theorem invariantVia (I : σ → Prop) (hinit : ∀ s, M.init s → I s)
    (hstep : ∀ s a t, P a → I s → M.next s a = some t → I t) (h : M.ReachableVia P s) : I s := by
  obtain ⟨s₀,as,hi,hP,he⟩ := h
  exact M.exec_invariant P I hstep hP (hinit s₀ hi) he

theorem invariant (I : σ → Prop) (hinit : ∀ s, M.init s → I s)
    (hstep : ∀ s a t, I s → M.next s a = some t → I t) (h : M.Reachable s) : I s :=
  M.invariantVia I hinit (fun s a t _ => hstep s a t) h

theorem exec_history (I : List α → σ → Prop) (hinit : I [] s₀)
    (hstep : ∀ as s a t, M.exec s₀ as = some s → I as s → M.next s a = some t → I (as++[a]) t)
    (he : M.exec s₀ as = some t) : I as t := by
  induction as using List.reverseRecOn generalizing t with
  | nil =>
    cases he
    exact hinit
  | append_singleton as a ih =>
    rw [exec_append] at he
    obtain ⟨s,hs,ha⟩ := Option.bind_eq_some_iff.mp he
    obtain ⟨u,hu,hut⟩ := Option.bind_eq_some_iff.mp ha
    cases hut
    exact hstep as s a _ hs (ih hs) hu

/-- The states before and after each step of a run whose label is in `P`. -/
def steps (P : α → Bool) : σ → List α → List (σ × σ)
  | _, [] => []
  | s, a::as =>
    match M.next s a with
    | none => []
    | some t => if P a then (s,t)::steps P t as else steps P t as

theorem steps_snoc (P : α → Bool) (hs : M.exec s as = some t) (ha : M.next t a = some u) :
    M.steps P s (as++[a]) = M.steps P s as++if P a then [(t,u)] else [] := by
  induction as generalizing s with
  | nil =>
    cases hs
    simp only [List.nil_append,steps,ha]
  | cons b as ih =>
    obtain ⟨v,hv,hs⟩ := Option.bind_eq_some_iff.mp hs
    simp only [List.cons_append,steps,hv,ih hs]
    split <;> rfl

/-- A state on the way at which `P` held; `post` is what was still to come. -/
def Visited (s₀ : σ) (as : List α) (P : σ → List α → Prop) : Prop :=
  ∃ pre post u, as = pre++post ∧ M.exec s₀ pre = some u ∧ P u post

theorem Visited.snoc {P : σ → List α → Prop} (h : M.Visited s₀ as P) (a : α)
    (hP : ∀ u post, P u post → P u (post++[a])) : M.Visited s₀ (as++[a]) P := by
  obtain ⟨pre,post,u,rfl,hu,hp⟩ := h
  exact ⟨pre,post++[a],u,List.append_assoc ..,hu,hP u post hp⟩

/-- How many steps of a run lead from states outside of `P` into `P`. -/
def crossings (P : σ → Bool) : σ → List α → ℕ
  | _, [] => 0
  | s, a::as =>
    match M.next s a with
    | none => 0
    | some t => (if !P s && P t then 1 else 0) + crossings P t as

theorem crossings_le_one {P : σ → Bool} (I : σ → Prop)
    (hstep : ∀ s a t, I s → M.next s a = some t → I t)
    (hstay : ∀ s a t, I s → M.next s a = some t → P s = true → P t = true) (hs : I s) (as : List α) :
    M.crossings P s as ≤ if P s then 0 else 1 := by
  induction as generalizing s with
  | nil => exact Nat.zero_le _
  | cons a as ih =>
    rw [crossings]
    cases hn : M.next s a with
    | none => exact Nat.zero_le _
    | some t =>
      have hrest := ih (hstep s a t hs hn)
      cases hP : P s with
      | true =>
        rw [if_pos (hstay s a t hs hn hP)] at hrest
        simpa using hrest
      | false =>
        cases hQ : P t with
        | true =>
          rw [if_pos hQ] at hrest
          simp [hQ,Nat.le_zero.mp hrest]
        | false =>
          rw [if_neg (by simp [hQ])] at hrest
          simpa [hQ] using hrest

/-- Whichever steps in `may` are taken, `Q` comes to hold after finitely many of them, and until
then there is a step in `must` that can be taken. -/
inductive Inevitably (must may : α → Prop) (Q : σ → Prop) : σ → Prop
  | now {s : σ} : Q s → Inevitably must may Q s
  | later {s : σ} : (∃ a t, must a ∧ M.next s a = some t) →
      (∀ a t, may a → M.next s a = some t → Inevitably must may Q t) → Inevitably must may Q s

theorem Inevitably.of_measure {must may : α → Prop} {Q : σ → Prop} (I : σ → Prop) (μ : σ → ℕ)
    (henabled : ∀ s, I s → ∃ a t, must a ∧ M.next s a = some t)
    (hstep : ∀ s a t, I s → may a → M.next s a = some t → Q t ∨ I t ∧ μ t < μ s) (h : I s) :
    M.Inevitably must may Q s := by
  induction hn : μ s using Nat.strong_induction_on generalizing s with
  | _ n ih =>
    refine .later (henabled s h) fun a t ha ht => ?_
    rcases hstep s a t h ha ht with hQ | ⟨hI,hless⟩
    · exact .now hQ
    · exact ih (μ t) (hn ▸ hless) hI rfl

end Machine
end Transition
end Asyncband
