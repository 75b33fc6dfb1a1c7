import HomeAssistant.Foundations.Machine
import Mathlib.Algebra.GroupWithZero.Nat

/-!
# What is seen of a run

Ways to follow a run of a machine from outside. `trace` lists what its steps show: if every step
that shows something is a step of another machine, and every other step leaves the other machine
alone, then the trace of a run is a run of that machine (`Refines.run`); and if each step of the
other machine can be shown, so can each of its runs (`exists_shows_of_run`). What is shown can also
be carried out on a state of its own, which the machine follows exactly as long as its steps meet a
condition (`follows_iff_meets`). `total` adds up what the steps weigh: what a step costs over its
pay has to come from a potential, and so a whole run costs no more than its pay and the potential it
began with (`total_add_le`).
-/

namespace HomeAssistant.Machine

variable {σ τ ε δ : Type*} (step : σ → ε → Option σ)

/-- What the steps of a run show, one after another. A step may show nothing. -/
def trace (obs : σ → ε → Option δ) (s : σ) : List ε → List δ
  | [] => []
  | e :: es =>
    match step s e with
    | none => []
    | some s' => (obs s e).toList ++ trace obs s' es

/-- Some run from `s` to `s'` shows `ds`. -/
def Shows (obs : σ → ε → Option δ) (s : σ) (ds : List δ) (s' : σ) : Prop :=
  ∃ es, run step s es = some s' ∧ trace step obs s es = ds

/-- The sum of what the steps of a run weigh. -/
def total (weight : σ → ε → ℕ) (s : σ) : List ε → ℕ
  | [] => 0
  | e :: es =>
    match step s e with
    | none => 0
    | some s' => weight s e + total weight s' es

variable {step} {obs : σ → ε → Option δ} {weight : σ → ε → ℕ} {s s' : σ} {e : ε} {es : List ε}

theorem trace_cons (h : step s e = some s') (es : List ε) :
    trace step obs s (e :: es) = (obs s e).toList ++ trace step obs s' es := by
  rw [trace, h]

theorem trace_append (hrun : run step s es = some s') (fs : List ε) :
    trace step obs s (es ++ fs) = trace step obs s es ++ trace step obs s' fs := by
  induction es generalizing s with
  | nil =>
    cases hrun
    rfl
  | cons e es ih =>
    obtain ⟨s₁, hs, hrun⟩ := (run_cons_eq_some step).1 hrun
    rw [List.cons_append, trace_cons hs, trace_cons hs, ih hrun, List.append_assoc]

theorem trace_concat (hrun : run step s es = some s') {s'' : σ} (hs : step s' e = some s'') :
    trace step obs s (es ++ [e]) = trace step obs s es ++ (obs s' e).toList := by
  rw [trace_append hrun, trace_cons hs, trace, List.append_nil]

theorem Shows.refl (s : σ) : Shows step obs s [] s := ⟨[], rfl, rfl⟩

theorem Shows.silent {ds : List δ} {s₁ : σ} (hs : step s e = some s₁) (hobs : obs s e = none)
    (h : Shows step obs s₁ ds s') : Shows step obs s ds s' := by
  obtain ⟨es, hrun, rfl⟩ := h
  refine ⟨e :: es, (run_cons step hs es).trans hrun, ?_⟩
  rw [trace_cons hs, hobs]
  rfl

theorem Shows.shown {d : δ} {ds : List δ} {s₁ : σ} (hs : step s e = some s₁)
    (hobs : obs s e = some d) (h : Shows step obs s₁ ds s') : Shows step obs s (d :: ds) s' := by
  obtain ⟨es, hrun, rfl⟩ := h
  refine ⟨e :: es, (run_cons step hs es).trans hrun, ?_⟩
  rw [trace_cons hs, hobs]
  rfl

theorem Shows.trans {ds ds' : List δ} {s₁ : σ} (h : Shows step obs s ds s₁)
    (h' : Shows step obs s₁ ds' s') : Shows step obs s (ds ++ ds') s' := by
  obtain ⟨es, hrun, rfl⟩ := h
  obtain ⟨fs, hrun', rfl⟩ := h'
  exact ⟨es ++ fs, by rw [run_append, hrun, Option.bind_some, hrun'], trace_append hrun fs⟩

theorem total_cons (h : step s e = some s') (es : List ε) :
    total step weight s (e :: es) = weight s e + total step weight s' es := by
  rw [total, h]

theorem total_of_event {f : ε → ℕ} (hrun : run step s es = some s') :
    total step (fun _ e => f e) s es = (es.map f).sum := by
  induction es generalizing s with
  | nil => rfl
  | cons e es ih =>
    obtain ⟨s₁, hs, hrun⟩ := (run_cons_eq_some step).1 hrun
    rw [total_cons hs, ih hrun, List.map_cons, List.sum_cons]

theorem total_count [BEq δ] {d : δ} (hrun : run step s es = some s') :
    total step (fun s e => (obs s e).toList.count d) s es = (trace step obs s es).count d := by
  induction es generalizing s with
  | nil => rfl
  | cons e es ih =>
    obtain ⟨s₁, hs, hrun⟩ := (run_cons_eq_some step).1 hrun
    rw [total_cons hs, trace_cons hs, ih hrun, List.count_append]

/-! ## Refinement -/

/-- The machine `step` refines the machine `step'`: a step that shows something is a step of `step'`
on the abstract states, and any other leaves the abstract state as it is. `I` is what the steps may
rely on. -/
structure Refines (step : σ → ε → Option σ) (step' : τ → δ → Option τ) (I : σ → Prop)
    (abs : σ → τ) (obs : σ → ε → Option δ) : Prop where
  keeps : ∀ {s e s'}, I s → step s e = some s' → I s'
  silent : ∀ {s e s'}, I s → step s e = some s' → obs s e = none → abs s' = abs s
  shown : ∀ {s e s' d}, I s → step s e = some s' → obs s e = some d →
    step' (abs s) d = some (abs s')

variable {step' : τ → δ → Option τ} {I : σ → Prop} {abs : σ → τ}

/-- **The refinement rule**: the trace of a run is a run of the abstract machine. -/
theorem Refines.run (h : Refines step step' I abs obs) (hs : I s)
    (hrun : Machine.run step s es = some s') :
    Machine.run step' (abs s) (trace step obs s es) = some (abs s') := by
  induction es generalizing s with
  | nil =>
    cases hrun
    rfl
  | cons e es ih =>
    obtain ⟨s₁, hstep, hrun⟩ := (run_cons_eq_some step).1 hrun
    have hrest := ih (h.keeps hs hstep) hrun
    rw [trace_cons hstep]
    cases hobs : obs s e with
    | none =>
      rw [h.silent hs hstep hobs] at hrest
      exact hrest
    | some d => exact (run_cons step' (h.shown hs hstep hobs) _).trans hrest

/-- **The rule for realisations**: if each step of the machine `step'` can be shown by some run, and
that run keeps the states related, then each of its runs can be shown. -/
theorem exists_shows_of_run {R : τ → σ → Prop}
    (hstep : ∀ t d t' s, R t s → step' t d = some t' → ∃ s', Shows step obs s [d] s' ∧ R t' s')
    {t t' : τ} {ds : List δ} (hR : R t s) (hrun : Machine.run step' t ds = some t') :
    ∃ s', Shows step obs s ds s' ∧ R t' s' := by
  induction ds generalizing s t with
  | nil =>
    cases hrun
    exact ⟨s, Shows.refl s, hR⟩
  | cons d ds ih =>
    obtain ⟨t₁, hs, hrun⟩ := (run_cons_eq_some step').1 hrun
    obtain ⟨s₁, hfirst, hR₁⟩ := hstep t d t₁ s hR hs
    obtain ⟨s', hrest, hR'⟩ := ih hR₁ hrun
    exact ⟨s', hfirst.trans hrest, hR'⟩

/-! ## Followed runs -/

/-- Throughout the run over `es` the state is related by `R` to the one that the machine would be in
if each step that shows something were carried out, by `act`, as a whole. -/
def Follows (step : σ → ε → Option σ) (obs : σ → ε → Option δ) (act : τ → δ → τ) (R : σ → τ → Prop)
    (s : σ) (t : τ) (es : List ε) : Prop :=
  ∀ (pre : List ε) (s' : σ), pre <+: es → Machine.run step s pre = some s' →
    R s' ((trace step obs s pre).foldl act t)

variable {act : τ → δ → τ} {R : σ → τ → Prop} {t : τ}

theorem follows_nil : Follows step obs act R s t [] ↔ R s t := by
  refine ⟨fun h => h [] s List.prefix_rfl rfl, fun h pre s' hpre hrun => ?_⟩
  rw [List.prefix_nil.1 hpre] at hrun ⊢
  cases hrun
  exact h

theorem follows_cons :
    Follows step obs act R s t (e :: es) ↔ R s t ∧ ∀ s', step s e = some s' →
      Follows step obs act R s' ((obs s e).toList.foldl act t) es := by
  constructor
  · intro h
    refine ⟨h [] s List.nil_prefix rfl, fun s' hs pre s'' hpre hrun => ?_⟩
    rw [← List.foldl_append, ← trace_cons hs]
    exact h (e :: pre) s'' (List.cons_prefix_cons.2 ⟨rfl, hpre⟩) ((run_cons step hs pre).trans hrun)
  · rintro ⟨hR, htail⟩ pre s'' hpre hrun
    cases pre with
    | nil =>
      cases hrun
      exact hR
    | cons e' pre =>
      obtain ⟨rfl, hpre'⟩ := List.cons_prefix_cons.1 hpre
      obtain ⟨s', hs, hrun⟩ := (run_cons_eq_some step).1 hrun
      rw [trace_cons hs, List.foldl_append]
      exact htail s' hs pre s'' hpre' hrun

/-- **The rule for followed runs**: if a step keeps the states related exactly if it meets `ok`,
then they are related throughout exactly the runs whose steps all meet `ok`. -/
theorem follows_iff_meets {ok : σ → ε → Prop} (hI : ∀ s e s', I s → step s e = some s' → I s')
    (hR : ∀ s e s' t, I s → R s t → step s e = some s' →
      (R s' ((obs s e).toList.foldl act t) ↔ ok s e))
    (hsI : I s) (hsR : R s t) (es : List ε) :
    Follows step obs act R s t es ↔ Meets step ok s es := by
  induction es generalizing s t with
  | nil => exact iff_of_true (follows_nil.2 hsR) meets_nil
  | cons e es ih =>
    rw [follows_cons, meets_cons, and_iff_right hsR]
    refine forall_congr' fun s' => forall_congr' fun hs => ?_
    constructor
    · intro h
      have hR' := h [] s' List.nil_prefix rfl
      exact ⟨(hR s e s' t hsI hsR hs).1 hR', (ih (hI s e s' hsI hs) hR').1 h⟩
    · rintro ⟨hok, h⟩
      exact (ih (hI s e s' hsI hs) ((hR s e s' t hsI hsR hs).2 hok)).2 h

/-! ## Potentials -/

/-- What follows from an invariant is met by every step. -/
theorem meets_of_invariant {ok : σ → ε → Prop} (hI : ∀ s e s', I s → step s e = some s' → I s')
    (hok : ∀ s e s', I s → step s e = some s' → ok s e) (hs : I s) (es : List ε) :
    Meets step ok s es := by
  intro pre e s' s'' hpre hrun hstep
  have hI' := throughout_of_invariant hI hs es pre s' ((List.prefix_append pre [e]).trans hpre) hrun
  exact hok s' e s'' hI' hstep

theorem meets_true : Meets step (fun _ _ => True) s es := fun _ _ _ _ _ _ _ => trivial

/-- **The potential rule**: if each step that meets `ok` costs no more than `c` times its pay and
what it takes from the potential, then so does each run whose steps all meet `ok`. -/
theorem total_add_le (cost pay : σ → ε → ℕ) (potential : σ → ℕ) (c : ℕ) {ok : σ → ε → Prop}
    (hI : ∀ s e s', I s → ok s e → step s e = some s' → I s')
    (hstep : ∀ s e s', I s → ok s e → step s e = some s' →
      cost s e + potential s' ≤ c * pay s e + potential s)
    (hs : I s) (hok : Meets step ok s es) (hrun : Machine.run step s es = some s') :
    total step cost s es + potential s' ≤ c * total step pay s es + potential s := by
  induction es generalizing s with
  | nil =>
    cases hrun
    exact Nat.le_refl _
  | cons e es ih =>
    obtain ⟨s₁, hs₁, hrun⟩ := (run_cons_eq_some step).1 hrun
    have hfirst := hstep s e s₁ hs (hok.head hs₁) hs₁
    have hrest := ih (hI s e s₁ hs (hok.head hs₁) hs₁) (hok.tail hs₁) hrun
    rw [total_cons hs₁, total_cons hs₁, Nat.mul_add]
    omega

end HomeAssistant.Machine
