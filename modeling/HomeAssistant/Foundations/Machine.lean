import Mathlib.Data.List.Induction
import Mathlib.Data.Stream.Init

/-!
# Runs of a machine

A machine is a step function that takes a state and an event and may refuse the event. Its runs
are over lists of events. `Throughout` says that a property holds in every state a run passes
through, `Meets` that every step a run takes meets a condition.

The rules: an invariant holds throughout every run (`throughout_of_invariant`), and a property that
a step keeps exactly if the step meets a condition holds throughout exactly the runs all of whose
steps meet it (`throughout_iff_meets`). A machine whose runs are bounded in length comes to a final
state, if only there it can refuse what happens next (`exists_final`).
-/

namespace HomeAssistant.Machine

variable {σ ε : Type*} (step : σ → ε → Option σ)

/-- The state after a run, if every event is accepted. -/
def run (s : σ) : List ε → Option σ
  | [] => some s
  | e :: es => (step s e).bind fun s' => run s' es

theorem run_cons {s s' : σ} {e : ε} (h : step s e = some s') (es : List ε) :
    run step s (e :: es) = run step s' es := by
  rw [run, h, Option.bind_some]

theorem run_cons_eq_some {s s'' : σ} {e : ε} {es : List ε} :
    run step s (e :: es) = some s'' ↔ ∃ s', step s e = some s' ∧ run step s' es = some s'' :=
  Option.bind_eq_some_iff

theorem run_append (s : σ) (es fs : List ε) :
    run step s (es ++ fs) = (run step s es).bind fun s' => run step s' fs := by
  induction es generalizing s with
  | nil => rfl
  | cons e es ih =>
    cases h : step s e with
    | none => simp [run, h]
    | some s' => rw [List.cons_append, run_cons step h, run_cons step h, ih]

/-- Every event of a run is accepted after those in front of it. -/
theorem exists_step_of_prefix {s s' : σ} {pre es : List ε} {e : ε}
    (hrun : run step s es = some s') (hpre : pre ++ [e] <+: es) :
    ∃ t t', run step s pre = some t ∧ step t e = some t' := by
  obtain ⟨post, rfl⟩ := hpre
  rw [List.append_assoc, run_append, Option.bind_eq_some_iff] at hrun
  obtain ⟨t, ht, hrun⟩ := hrun
  obtain ⟨t', ht', -⟩ := (run_cons_eq_some step).1 hrun
  exact ⟨t, t', ht, ht'⟩

/-- `P` holds in every state that the run over `es` passes through. -/
def Throughout (P : σ → Prop) (s : σ) (es : List ε) : Prop :=
  ∀ (pre : List ε) (s' : σ), pre <+: es → run step s pre = some s' → P s'

/-- Every step that the run over `es` takes meets `ok`. -/
def Meets (ok : σ → ε → Prop) (s : σ) (es : List ε) : Prop :=
  ∀ (pre : List ε) (e : ε) (s' s'' : σ), pre ++ [e] <+: es → run step s pre = some s' →
    step s' e = some s'' → ok s' e

/-- **The rule for projections**: a map that takes the steps of one machine to those of another
takes runs to runs. -/
theorem run_map {τ δ : Type*} (step' : τ → δ → Option τ) {f : σ → τ} {g : ε → δ}
    (h : ∀ s e, step' (f s) (g e) = (step s e).map f) (s : σ) (es : List ε) :
    run step' (f s) (es.map g) = (run step s es).map f := by
  induction es generalizing s with
  | nil => rfl
  | cons e es ih =>
    have hs := h s e
    cases hstep : step s e with
    | none =>
      rw [hstep] at hs
      simp [run, hs, hstep]
    | some s' =>
      rw [hstep] at hs
      rw [List.map_cons, run_cons step' hs, run_cons step hstep, ih]

theorem run_proj {τ : Type*} (step' : τ → ε → Option τ) {f : σ → τ}
    (h : ∀ s e, step' (f s) e = (step s e).map f) (s : σ) (es : List ε) :
    run step' (f s) es = (run step s es).map f := by
  have hmap := run_map step step' (g := id) h s es
  rwa [List.map_id] at hmap

variable {step} {P I : σ → Prop} {ok : σ → ε → Prop} {s : σ} {es : List ε}

theorem Throughout.last (h : Throughout step P s es) {s' : σ} (hrun : run step s es = some s') :
    P s' :=
  h es s' List.prefix_rfl hrun

theorem Throughout.head (h : Throughout step P s es) : P s := h [] s (List.nil_prefix) rfl

theorem Throughout.tail {e : ε} (h : Throughout step P s (e :: es)) {s' : σ}
    (hs : step s e = some s') : Throughout step P s' es := by
  intro pre s'' hpre hrun
  exact h (e :: pre) s'' (List.cons_prefix_cons.2 ⟨rfl, hpre⟩) (by rwa [run_cons step hs])

theorem Meets.head {e : ε} (h : Meets step ok s (e :: es)) {s' : σ} (hs : step s e = some s') :
    ok s e :=
  h [] e s s' (List.cons_prefix_cons.2 ⟨rfl, List.nil_prefix⟩) rfl hs

theorem Meets.tail {e : ε} (h : Meets step ok s (e :: es)) {s' : σ} (hs : step s e = some s') :
    Meets step ok s' es := by
  intro pre e' t t' hpre hrun hstep
  exact h (e :: pre) e' t t' (List.cons_prefix_cons.2 ⟨rfl, hpre⟩) (by rwa [run_cons step hs])
    hstep

theorem throughout_nil : Throughout step P s [] ↔ P s := by
  refine ⟨Throughout.head, fun h pre s' hpre hrun => ?_⟩
  rw [List.prefix_nil.1 hpre] at hrun
  cases hrun
  exact h

theorem throughout_cons {e : ε} :
    Throughout step P s (e :: es) ↔
      P s ∧ ∀ s', step s e = some s' → Throughout step P s' es := by
  refine ⟨fun h => ⟨h.head, fun s' hs => h.tail hs⟩, fun ⟨h, htail⟩ pre s'' hpre hrun => ?_⟩
  cases pre with
  | nil =>
    cases hrun
    exact h
  | cons e' pre =>
    obtain ⟨rfl, hpre'⟩ := List.cons_prefix_cons.1 hpre
    obtain ⟨s', hs, hrun⟩ := (run_cons_eq_some step).1 hrun
    exact htail s' hs pre s'' hpre' hrun

theorem meets_nil : Meets step ok s [] := by
  intro pre e s' s'' hpre
  exact absurd (List.prefix_nil.1 hpre) (List.append_ne_nil_of_right_ne_nil pre (by simp))

theorem meets_cons {e : ε} :
    Meets step ok s (e :: es) ↔
      ∀ s', step s e = some s' → ok s e ∧ Meets step ok s' es := by
  refine ⟨fun h s' hs => ⟨h.head hs, h.tail hs⟩, fun h pre e' t t' hpre hrun hstep => ?_⟩
  cases pre with
  | nil =>
    obtain ⟨rfl, -⟩ := List.cons_prefix_cons.1 hpre
    cases hrun
    exact (h t' hstep).1
  | cons e₁ pre =>
    obtain ⟨rfl, hpre'⟩ := List.cons_prefix_cons.1 hpre
    obtain ⟨s', hs, hrun⟩ := (run_cons_eq_some step).1 hrun
    exact (h s' hs).2 pre e' t t' hpre' hrun hstep

/-- **The invariant rule**: what every step keeps holds throughout every run. -/
theorem throughout_of_invariant (hstep : ∀ s e s', I s → step s e = some s' → I s') (hs : I s)
    (es : List ε) : Throughout step I s es := by
  induction es generalizing s with
  | nil => exact throughout_nil.2 hs
  | cons e es ih => exact throughout_cons.2 ⟨hs, fun s' h => ih (hstep s e s' hs h)⟩

/-- **The rule for histories**: what links the state to the events so far, and is kept by every
step, links the state at the end of a run to its events. -/
theorem run_induction {H : List ε → σ → Prop} (h₀ : H [] s)
    (hstep : ∀ pre e t t', pre ++ [e] <+: es → H pre t → step t e = some t' → H (pre ++ [e]) t')
    {s' : σ} (hrun : run step s es = some s') : H es s' := by
  induction es using List.reverseRecOn generalizing s' with
  | nil =>
    cases hrun
    exact h₀
  | append_singleton es e ih =>
    rw [run_append, Option.bind_eq_some_iff] at hrun
    obtain ⟨t, ht, hlast⟩ := hrun
    obtain ⟨t', hs, hnil⟩ := (run_cons_eq_some step).1 hlast
    cases hnil
    refine hstep es e t _ List.prefix_rfl (ih (fun pre e' t t' hpre => ?_) ht) hs
    exact hstep pre e' t t' (hpre.trans (List.prefix_append es [e]))

/-- **The rule for a conditional invariant**: if every step keeps `I`, and from a state with `I` and
`P` leads to one with `P` exactly if it meets `ok`, then `P` holds throughout exactly the runs whose
steps all meet `ok`. -/
theorem throughout_iff_meets (hI : ∀ s e s', I s → step s e = some s' → I s')
    (hP : ∀ s e s', I s → P s → step s e = some s' → (P s' ↔ ok s e)) (hsI : I s) (hsP : P s)
    (es : List ε) : Throughout step P s es ↔ Meets step ok s es := by
  induction es generalizing s with
  | nil => exact iff_of_true (throughout_nil.2 hsP) meets_nil
  | cons e es ih =>
    rw [throughout_cons, meets_cons, and_iff_right hsP]
    refine forall_congr' fun s' => forall_congr' fun hs => ?_
    constructor
    · intro h
      exact ⟨(hP s e s' hsI hsP hs).1 h.head, (ih (hI s e s' hsI hs) h.head).1 h⟩
    · rintro ⟨hok, h⟩
      exact (ih (hI s e s' hsI hs) ((hP s e s' hsI hsP hs).2 hok)).2 h

/-- **The rule for termination**: if the runs over a stream of events are bounded in length, and
every state that is not final accepts the event that comes, then the machine reaches a final
state. -/
theorem exists_final {F : σ → Prop} {results : Stream' ε} {n : ℕ}
    (hlen : ∀ k s', run step s (results.take k) = some s' → k ≤ n)
    (hnext : ∀ k s', run step s (results.take k) = some s' → ¬ F s' →
      ∃ s'', step s' (results.get k) = some s'') :
    ∃ k s', run step s (results.take k) = some s' ∧ F s' := by
  by_contra hnone
  have hrun : ∀ k, ∃ s', run step s (results.take k) = some s' := by
    intro k
    induction k with
    | zero => exact ⟨s, rfl⟩
    | succ k ih =>
      obtain ⟨t, ht⟩ := ih
      obtain ⟨t', ht'⟩ := hnext k t ht fun hF => hnone ⟨k, t, ht, hF⟩
      refine ⟨t', ?_⟩
      rw [Stream'.take_succ', run_append, ht, Option.bind_some, run_cons step ht']
      rfl
  obtain ⟨t, ht⟩ := hrun (n + 1)
  exact absurd (hlen (n + 1) t ht) (Nat.not_succ_le_self n)

end HomeAssistant.Machine
