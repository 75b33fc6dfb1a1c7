import HomeAssistant.Foundations.CString

/-!
# Functions that change a state and can fault

A C function reads and changes a state and can fail to return. What it did to the state before a
fault stays done, so an execution (`exec`) gives the state at its end in either case, next to the
value returned or the fault.
-/

namespace HomeAssistant

variable {σ τ α β : Type}

/-- A function over a state `σ` that returns a value or faults. -/
abbrev Eff (σ α : Type) : Type := ExceptT Fault (StateM σ) α

/-- A sequence of computations on values that returns has returned at both of its steps. -/
theorem bind_eq_ok {x : Except Fault α} {f : α → Except Fault β} {b : β} :
    (x >>= f) = .ok b ↔ ∃ a, x = .ok a ∧ f a = .ok b := by
  cases x <;> simp [bind, Except.bind]

/-- A sequence of computations on values that faults has faulted at one of its steps. -/
theorem bind_eq_error {x : Except Fault α} {f : α → Except Fault β} {e : Fault} :
    (x >>= f) = .error e ↔ x = .error e ∨ ∃ a, x = .ok a ∧ f a = .error e := by
  cases x <;> simp [bind, Except.bind]

namespace Eff

/-- The execution of a function from a state. -/
def exec (x : Eff σ α) (s : σ) : Except Fault α × σ := StateT.run (ExceptT.run x) s

/-- A computation on values only, which can fault. -/
def lift (x : Except Fault α) : Eff σ α := ExceptT.mk (pure x)

/-- Change the state. -/
def update (f : σ → σ) : Eff σ Unit := modify f

/-- A function on the first part of the state. -/
def onFst (x : Eff σ α) : Eff (σ × τ) α :=
  ExceptT.mk fun s => ((x.exec s.1).1, (x.exec s.1).2, s.2)

/-- A function on the second part of the state. -/
def onSnd (x : Eff τ α) : Eff (σ × τ) α :=
  ExceptT.mk fun s => ((x.exec s.2).1, s.1, (x.exec s.2).2)

@[simp] theorem exec_onFst (x : Eff σ α) (s : σ × τ) :
    x.onFst.exec s = ((x.exec s.1).1, (x.exec s.1).2, s.2) := rfl

@[simp] theorem exec_onSnd (x : Eff τ α) (s : σ × τ) :
    x.onSnd.exec s = ((x.exec s.2).1, s.1, (x.exec s.2).2) := rfl

@[simp] theorem lift_pure (a : α) : (lift (pure a) : Eff σ α) = pure a := rfl

@[simp] theorem lift_bind (x : Except Fault α) (f : α → Except Fault β) :
    (lift (x >>= f) : Eff σ β) = lift x >>= fun a => lift (f a) := by
  cases x with
  | error e => rfl
  | ok a => exact (pure_bind a fun b => (lift (f b) : Eff σ β)).symm

@[simp] theorem exec_pure (a : α) (s : σ) : (pure a : Eff σ α).exec s = (.ok a, s) := rfl

@[simp] theorem exec_get (s : σ) : (get : Eff σ σ).exec s = (.ok s, s) := rfl

@[simp] theorem exec_update (f : σ → σ) (s : σ) : (update f).exec s = (.ok (), f s) := rfl

@[simp] theorem exec_lift (x : Except Fault α) (s : σ) : (lift x : Eff σ α).exec s = (x, s) := rfl

/-- A fault ends the execution; a value is handed on. -/
theorem exec_bind (x : Eff σ α) (f : α → Eff σ β) (s : σ) :
    (x >>= f).exec s = match x.exec s with
      | (.ok a, s') => (f a).exec s'
      | (.error e, s') => (.error e, s') := by
  simp only [exec, ExceptT.run_bind, StateT.run_bind]
  rcases StateT.run (ExceptT.run x) s with ⟨_ | a, s'⟩ <;> rfl

theorem exec_bind_of_ok {x : Eff σ α} {s s' : σ} {a : α} (h : x.exec s = (.ok a, s'))
    (f : α → Eff σ β) : (x >>= f).exec s = (f a).exec s' := by
  rw [exec_bind, h]

theorem exec_bind_of_error {x : Eff σ α} {s s' : σ} {e : Fault} (h : x.exec s = (.error e, s'))
    (f : α → Eff σ β) : (x >>= f).exec s = (.error e, s') := by
  rw [exec_bind, h]

theorem exec_bind_eq_ok {x : Eff σ α} {f : α → Eff σ β} {s t : σ} {b : β} :
    (x >>= f).exec s = (.ok b, t) ↔
      ∃ a s', x.exec s = (.ok a, s') ∧ (f a).exec s' = (.ok b, t) := by
  rw [exec_bind]
  rcases x.exec s with ⟨_ | a, s'⟩ <;> simp

@[simp] theorem exec_map (f : α → β) (x : Eff σ α) (s : σ) :
    (f <$> x).exec s = match x.exec s with
      | (.ok a, s') => (.ok (f a), s')
      | (.error e, s') => (.error e, s') := by
  rw [map_eq_pure_bind, exec_bind]
  rfl

/-! ## Functions that only read -/

/-- The function leaves the state as it is, whether it returns or faults. -/
def ReadsOnly (x : Eff σ α) : Prop := ∀ s, (x.exec s).2 = s

theorem readsOnly_pure (a : α) : (pure a : Eff σ α).ReadsOnly := fun _ => rfl

theorem readsOnly_get : (get : Eff σ σ).ReadsOnly := fun _ => rfl

theorem readsOnly_lift (x : Except Fault α) : (lift x : Eff σ α).ReadsOnly := fun _ => rfl

theorem ReadsOnly.bind {x : Eff σ α} {f : α → Eff σ β} (hx : x.ReadsOnly)
    (hf : ∀ a, (f a).ReadsOnly) : (x >>= f).ReadsOnly := by
  intro s
  have hs := hx s
  rw [exec_bind]
  rcases h : x.exec s with ⟨_ | a, s'⟩ <;> rw [h] at hs
  · exact hs
  · exact (hf a s').trans hs

end Eff

end HomeAssistant
