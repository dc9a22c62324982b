import Mathlib.Logic.Basic

/-! A cell that is written once and then published.
The flag and the slot are two memory locations; the flag is set only behind a write, so the
cell is in one of three states. -/
namespace Asyncband

inductive ValueCell (T : Type)
  | uninit
  | written (value : T)
  | ready (value : T)
  deriving DecidableEq

namespace ValueCell

variable {T : Type} {c : ValueCell T}

def new : Option T → ValueCell T
  | none => .uninit
  | some value => .ready value

def isInitialized : ValueCell T → Bool
  | .ready _ => true
  | _ => false

def get : ValueCell T → Option T
  | .ready value => some value
  | _ => none

def stored : ValueCell T → Option T
  | .uninit => none
  | .written value => some value
  | .ready value => some value

/-- The first half of `set`, up to the write of the slot. -/
def write (c : ValueCell T) (value : T) : Except String (ValueCell T) :=
  if c.isInitialized then .error "assertion failed: !self.is_initialized()" else .ok (.written value)

/-- The store of the flag in `set`. -/
def publish : ValueCell T → ValueCell T
  | .written value => .ready value
  | c => c

theorem get_eq_some {value : T} : c.get = some value ↔ c = .ready value := by
  cases c <;> simp [get]

theorem stored_eq_none : c.stored = none ↔ c = .uninit := by
  cases c <;> simp [stored]

theorem get_eq_none_cases (h : c.get = none) : c = .uninit ∨ ∃ v, c = .written v := by
  cases c with
  | uninit => exact Or.inl rfl
  | written v => exact Or.inr ⟨v,rfl⟩
  | ready v => cases h

end ValueCell
end Asyncband
