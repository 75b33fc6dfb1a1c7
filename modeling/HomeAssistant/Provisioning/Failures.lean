import HomeAssistant.Provisioning.Boot

/-!
# A boot whose storage may fail

A storage call of the handler that fails aborts the program, but for the commit, whose result is not
looked at. So as long as a boot has not ended, its steps are those it would take if all calls
succeeded (`Boot.step_working`), and what is known of such a boot holds of it. If it ends, it does
so before the credentials are read back (`Boot.safe_step`).
-/

namespace HomeAssistant

open Machine

/-- The request, with a storage that works. -/
def Request.working (r : Request) : Request :=
  ⟨{ r.env with flash := fun _ => .ok }, r.contentLen⟩

/-- The server, with a storage that works. -/
def Httpd.working : Httpd → Httpd
  | idle => idle
  | handling _ todo => handling (fun _ => .ok) todo
  | stopped => stopped

namespace Boot

/-- The event, with a storage that works. -/
def Event.working : Event → Event
  | request r => request r.working
  | httpd => httpd
  | main => main

/-- The tasks, with a storage that works. -/
def working (s : Boot) : Boot := { s with httpd := s.httpd.working }

theorem lastSubmission_working (es : List Event) :
    lastSubmission (es.map Event.working) = lastSubmission es := by
  induction es with
  | nil => rfl
  | cons e es ih =>
    cases e with
    | request r => exact congrArg (Option.or · r.credentials) ih
    | httpd => exact ih
    | main => exact ih

/-- The steps of a boot, whatever the storage calls return. -/
inductive Steps (stack : Locals) : Boot → Event → Boot → Prop
  | begins {s : Boot} {r : Request} {p : Prepared} (hidle : s.httpd = .idle)
      (hp : prepare r.env r.contentLen = .ok p) :
    Steps stack s (.request r) { s with httpd := .handling r.env.flash p.actions }
  | breaks {s : Boot} {r : Request} {f : Fault} (hidle : s.httpd = .idle)
      (hp : prepare r.env r.contentLen = .error f) :
    Steps stack s (.request r) { s with fault := some f }
  | acts {s : Boot} {flash : NvsCall → EspErr} {a : Action} {as : List Action}
      (hhandling : s.httpd = .handling flash (a :: as)) (ha : a.Succeeds flash) :
    Steps stack s .httpd { s with device := a.apply s.device, httpd := .handling flash as }
  | aborts {s : Boot} {flash : NvsCall → EspErr} {a : Action} {as : List Action}
      (hhandling : s.httpd = .handling flash (a :: as)) (ha : ¬ a.Succeeds flash) :
    Steps stack s .httpd { s with fault := some .abort }
  | returns {s : Boot} {flash : NvsCall → EspErr} (hhandling : s.httpd = .handling flash []) :
    Steps stack s .httpd { s with httpd := .idle }
  | main {s s' : Boot} (hmain : s.mainStep stack = some s') : Steps stack s .main s'

variable {stack : Locals} {s s' : Boot} {e : Event} {es : List Event}

theorem fault_of_step (hs : step stack s e = some s') : s.fault = none := by
  unfold step at hs
  split_ifs at hs with hf
  exact not_not.1 hf

theorem Inv.sound {last : Option Credentials} (h : s.Inv last) (hf : s.fault = none) :
    s.Sound last := by
  rcases h with h | h
  · exact h.2
  · rw [hf] at h
    cases h.1

/-- **What a step of a boot can do.** -/
theorem steps_of_step (hs : step stack s e = some s') : Steps stack s e s' := by
  unfold step at hs
  split_ifs at hs
  cases e with
  | request r =>
    simp only [beginRequest] at hs
    split at hs
    next hidle =>
      cases hp : prepare r.env r.contentLen with
      | ok p =>
        rw [hp] at hs
        cases hs
        exact .begins hidle hp
      | error f =>
        rw [hp] at hs
        cases hs
        exact .breaks hidle hp
    next => cases hs
  | httpd =>
    simp only [httpdStep] at hs
    split at hs
    next flash a as hhandling =>
      rw [call, Action.exec_exec] at hs
      by_cases ha : a.Succeeds flash
      · rw [if_pos ha] at hs
        cases hs
        exact .acts hhandling ha
      · rw [if_neg ha] at hs
        cases hs
        exact .aborts hhandling ha
    next flash hhandling =>
      cases hs
      exact .returns hhandling
    next => cases hs
  | main => exact .main hs

/-- A handler is in progress. -/
def Handles (s : Boot) : Prop := ∃ flash todo, s.httpd = .handling flash todo

/-- The main task leaves the device alone, and the server unless it stops it, for which it waits
until no handler is in progress. -/
theorem frame_mainStep (hs : s.mainStep stack = some s') :
    s'.device = s.device ∧ (s'.httpd = s.httpd ∨ ¬ s.Handles ∧ s'.httpd = .stopped) := by
  unfold mainStep at hs
  split at hs
  next =>
    split_ifs at hs <;> cases hs <;> exact ⟨rfl, Or.inl rfl⟩
  next =>
    split at hs
    next => cases hs
    next hhttpd =>
      cases hs
      exact ⟨rfl, Or.inr ⟨fun ⟨flash, todo, h⟩ => hhttpd flash todo h, rfl⟩⟩
  next r rs l hm =>
    cases hs
    have hd := r.readsOnly l s.device
    rw [call]
    cases hcall : (r.exec l).exec s.device with
    | mk result d =>
      rw [hcall] at hd
      cases hd
      cases result <;> exact ⟨rfl, Or.inl rfl⟩
  next =>
    cases hs
    exact ⟨rfl, Or.inl rfl⟩
  next => cases hs

/-- The main task does not see whether the storage works. -/
theorem mainStep_working (hs : s.mainStep stack = some s') :
    s.working.mainStep stack = some s'.working := by
  unfold mainStep at hs
  split at hs
  next hm =>
    split_ifs at hs with hsema
    · cases hs
      simp only [mainStep, working, hm, if_pos hsema]
    · cases hs
      simp only [mainStep, working, hm, if_neg hsema]
  next hm =>
    cases hhttpd : s.httpd with
    | handling flash todo =>
      rw [hhttpd] at hs
      cases hs
    | idle =>
      rw [hhttpd] at hs
      cases hs
      simp only [mainStep, working, hm, hhttpd, Httpd.working]
    | stopped =>
      rw [hhttpd] at hs
      cases hs
      simp only [mainStep, working, hm, hhttpd, Httpd.working]
  next r rs l hm =>
    cases hs
    simp only [mainStep, working, hm, call]
    cases hcall : (r.exec l).exec s.device with
    | mk result d => cases result <;> rfl
  next l hm =>
    cases hs
    simp only [mainStep, working, hm]
  next => cases hs

/-- A step that does not end the boot is the step of a storage that works. -/
theorem step_working (hs : step stack s e = some s') (hf : s'.fault = none ∨ e = .main) :
    step stack s.working e.working = some s'.working := by
  have hnone : s.fault = none := fault_of_step hs
  unfold step
  rw [if_neg (show ¬ s.working.fault ≠ none from not_not.2 hnone)]
  cases steps_of_step hs with
  | @begins r p hidle hp =>
    have hp' : prepare r.working.env r.working.contentLen = .ok p := hp
    simp only [Event.working, beginRequest, working, hidle, Httpd.working, call, Eff.exec_lift, hp']
    rfl
  | breaks => rcases hf with hf | hf <;> cases hf
  | @acts flash a as hhandling ha =>
    have hexec := a.exec_of_works (show FlashWorks fun _ => EspErr.ok from fun _ => rfl) s.device
    simp only [Event.working, httpdStep, working, hhandling, Httpd.working, call, hexec]
  | aborts => rcases hf with hf | hf <;> cases hf
  | returns hhandling => simp only [Event.working, httpdStep, working, hhandling, Httpd.working]
  | main hmain => exact mainStep_working hmain

/-- The boot runs soundly, or has ended before the credentials were read. -/
def Safe (s : Boot) (last : Option Credentials) : Prop :=
  s.fault = none ∧ s.working.Sound last ∨ s.fault ≠ none ∧ ¬ s.main.Retrieves

theorem Safe.sound {last : Option Credentials} (h : s.Safe last) (hf : s.fault = none) :
    s.working.Sound last := by
  rcases h with h | h
  · exact h.2
  · exact absurd hf h.1

theorem Safe.fault_of_retrieves {last : Option Credentials} (h : s.Safe last)
    (hret : s.main.Retrieves) : s.fault = none := by
  rcases h with h | h
  · exact h.1
  · exact absurd hret h.2

theorem regular_working (hes : ∀ r, .request r ∈ es → Terminates r.env.queryKeyValue) :
    ∀ r, .request r ∈ es.map Event.working → r.Regular := by
  intro r hr
  obtain ⟨e, he, heq⟩ := List.mem_map.1 hr
  cases e with
  | request r' =>
    cases heq
    exact ⟨fun _ => rfl, hes r' he⟩
  | httpd => cases heq
  | main => cases heq

/-- **What a step keeps when the storage may fail.** -/
theorem safe_step (hes : ∀ r, .request r ∈ es ++ [e] → Terminates r.env.queryKeyValue)
    (h : s.Safe (lastSubmission es)) (hs : step stack s e = some s') :
    s'.Safe (lastSubmission (es ++ [e])) := by
  have hnone : s.fault = none := fault_of_step hs
  have hsound := h.sound hnone
  have hinv (hf : s'.fault = none ∨ e = .main) : s'.working.Inv (lastSubmission (es ++ [e])) := by
    have hregular := regular_working hes
    rw [List.map_append] at hregular
    rw [← lastSubmission_working] at hsound ⊢
    rw [List.map_append]
    exact inv_step (s := s.working) hregular (Or.inl ⟨hnone, hsound⟩) (step_working hs hf)
  by_cases hf : s'.fault = none
  · exact Or.inl ⟨hf, (hinv (Or.inl hf)).sound hf⟩
  refine Or.inr ⟨hf, ?_⟩
  cases steps_of_step hs with
  | begins | acts | returns => exact absurd hnone hf
  | breaks hidle =>
    exact hsound.main.not_retrieves (show s.httpd.working ≠ .stopped by rw [hidle]; nofun)
  | aborts hhandling =>
    exact hsound.main.not_retrieves (show s.httpd.working ≠ .stopped by rw [hhandling]; nofun)
  | main hmain =>
    rcases hinv (Or.inr rfl) with h | h
    · exact absurd h.1 hf
    · exact h.2

theorem safe_start (nvs : Nvs) (serverStarted : Bool) : (start nvs serverStarted).Safe none := by
  refine Or.inl ⟨rfl, ?_⟩
  cases serverStarted <;> exact ⟨trivial, show (0 : ℤ) ≠ 1 by decide, trivial⟩

/-- **What a run keeps when the storage may fail.** -/
theorem safe_run {nvs : Nvs} {serverStarted : Bool}
    (hes : ∀ r, .request r ∈ es → Terminates r.env.queryKeyValue)
    (hrun : run (step stack) (start nvs serverStarted) es = some s) :
    s.Safe (lastSubmission es) :=
  run_induction (H := fun pre t => t.Safe (lastSubmission pre)) (safe_start nvs serverStarted)
    (fun _ _ _ _ hpre h hstep => safe_step (fun r hr => hes r (hpre.subset hr)) h hstep) hrun

end Boot

end HomeAssistant
