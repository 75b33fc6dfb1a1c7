import Mathlib.Tactic.Common

/-!
# Computations at a bounded cost

A computation on a state that may fail to return, such as a loop that runs out of rounds. `Returns`
says that it returns a value and in which states, and what this has cost at most, where `cost` reads
off the state what has been spent so far. The rules put the costs of the parts of a computation
together.
-/

namespace HomeAssistant.Bounded

variable {σ α β : Type} (cost : σ → ℕ)

/-- From the state `s` the computation returns `a`, at a cost of at most `n`, in a state with
`P`. -/
def Returns (x : StateT σ Option α) (s : σ) (n : ℕ) (a : α) (P : σ → Prop) : Prop :=
  ∃ s', x.run s = some (a, s') ∧ cost s' ≤ cost s + n ∧ P s'

variable {cost} {x : StateT σ Option α} {f : α → StateT σ Option β} {s : σ} {n m : ℕ} {a : α}
  {b : β} {P Q : σ → Prop}

theorem returns_pure (h : P s) : Returns cost (pure a) s 0 a P := ⟨s, rfl, Nat.le_refl _, h⟩

theorem Returns.mono (h : Returns cost x s n a P) (hle : n ≤ m) : Returns cost x s m a P := by
  obtain ⟨s', hrun, hcost, hs'⟩ := h
  exact ⟨s', hrun, by omega, hs'⟩

/-- **The rule for sequences**: the costs of the two parts add up. -/
theorem Returns.bind (h : Returns cost x s n a P)
    (hf : ∀ s', P s' → Returns cost (f a) s' m b Q) : Returns cost (x >>= f) s (n + m) b Q := by
  obtain ⟨s', hrun, hcost, hs'⟩ := h
  obtain ⟨s'', hrun', hcost', hs''⟩ := hf s' hs'
  refine ⟨s'', ?_, by omega, hs''⟩
  rw [StateT.run_bind, hrun]
  exact hrun'

end HomeAssistant.Bounded
