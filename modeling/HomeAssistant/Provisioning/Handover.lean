import HomeAssistant.Foundations.Ranking
import HomeAssistant.Provisioning.Failures

/-!
# The hand-over comes to its end

Once a submission has raised the flag, the main task stops the web server and reads the credentials
back. It may have to wait for a handler, and further requests may come in until the server has
stopped. Whatever the server does, the main task needs the same number of steps of its own
(`MainTask.left`). There is a way to go on that takes it to its end, and then one without another
request, exactly if the boot has not ended and no call that is left to a handler in progress ends it
(`handover_completes`): the two tasks do not block each other.
-/

namespace HomeAssistant

open Machine

/-- The number of steps that the main task still has to take, once the flag is up. -/
def MainTask.left : MainTask → ℕ
  | polling => retrieveReads.length + 3
  | stopping => retrieveReads.length + 2
  | reading todo _ => todo.length + 1
  | started _ => 0

theorem MainTask.left_eq_zero_iff {m : MainTask} : m.left = 0 ↔ ∃ l, m = .started l := by
  cases m <;> simp [left]

/-- The calls that are left to a handler in progress succeed. -/
def Httpd.CallsSucceed : Httpd → Prop
  | handling flash todo => ∀ a ∈ todo, a.Succeeds flash
  | _ => True

instance : DecidablePred Httpd.CallsSucceed
  | .handling flash todo => inferInstanceAs (Decidable (∀ a ∈ todo, a.Succeeds flash))
  | .idle | .stopped => inferInstanceAs (Decidable True)

namespace Boot

/-- A step of the main task. -/
def Event.isMain : Event → Bool
  | main => true
  | _ => false

/-- The event is no request. -/
def Event.NoRequest : Event → Prop
  | request _ => False
  | _ => True

theorem noRequest_replicate (n : ℕ) : ∀ e ∈ List.replicate n Event.httpd, e.NoRequest := by
  intro e he
  rw [(List.mem_replicate.1 he).2]
  trivial

/-- The flag of a device on which any requests have been handled is up. -/
structure Raised (s : Boot) : Prop where
  sema5 : s.device.sema5 = 1
  safe : ∃ es, (∀ r, .request r ∈ es → Terminates r.env.queryKeyValue) ∧
    s.Safe (lastSubmission es)

variable {s s' : Boot} {e : Event} {stack : Locals}

theorem callsSucceed_of_not_handles (h : ¬ s.Handles) : s.httpd.CallsSucceed := by
  cases hs : s.httpd with
  | handling flash todo => exact absurd ⟨flash, todo, hs⟩ h
  | idle => trivial
  | stopped => trivial

/-! ## One step -/

/-- With the flag up, a step of the main task brings it nearer to its end. -/
theorem left_mainStep {last : Option Credentials} (h : s.Sound last) (hflag : s.device.sema5 = 1)
    (hs : s.mainStep stack = some s') :
    1 + s'.main.left = s.main.left ∧ s'.fault = s.fault := by
  have hmain := h.main
  unfold mainStep at hs
  unfold MainSound at hmain
  split at hs
  next hm =>
    rw [if_neg (not_not.2 hflag)] at hs
    cases hs
    rw [hm]
    exact ⟨Nat.add_comm 1 _, rfl⟩
  next hm =>
    split at hs
    next => cases hs
    next =>
      cases hs
      rw [hm]
      exact ⟨Nat.add_comm 1 _, rfl⟩
  next r rs l hm =>
    rw [hm] at hmain ⊢
    obtain ⟨-, c, -, l', hreads, -⟩ := hmain
    obtain ⟨l₁, d, hcall, -⟩ := Eff.exec_bind_eq_ok.1 hreads
    cases hs
    rw [call_of_ok hcall]
    exact ⟨Nat.add_comm 1 _, rfl⟩
  next l hm =>
    cases hs
    rw [hm]
    exact ⟨rfl, rfl⟩
  next => cases hs

theorem Raised.mainStep (h : s.Raised) (hf : s.fault = none) (hs : s.mainStep stack = some s') :
    1 + s'.main.left = s.main.left ∧ s'.fault = s.fault := by
  obtain ⟨es, -, hsafe⟩ := h.safe
  have hleft := left_mainStep (hsafe.sound hf) h.sema5 (mainStep_working hs)
  exact hleft

/-- **What a step does to a raised flag**: it stays up, and the steps of the main task are counted
down. -/
theorem Raised.step (h : s.Raised) (he : ∀ r, e = .request r → Terminates r.env.queryKeyValue)
    (hs : step stack s e = some s') :
    s'.Raised ∧ (if e.isMain then 1 else 0) + s'.main.left = s.main.left := by
  obtain ⟨es, hes, hsafe⟩ := h.safe
  have hes' : ∀ r, .request r ∈ es ++ [e] → Terminates r.env.queryKeyValue := by
    intro r hr
    rcases List.mem_append.1 hr with hr | hr
    · exact hes r hr
    · exact he r (List.mem_singleton.1 hr).symm
  have hsafe' := safe_step hes' hsafe hs
  cases steps_of_step hs with
  | begins | breaks | aborts | returns => exact ⟨⟨h.sema5, _, hes', hsafe'⟩, Nat.zero_add _⟩
  | @acts flash a as =>
    exact ⟨⟨sema5_foldl_apply [a] h.sema5, _, hes', hsafe'⟩, Nat.zero_add _⟩
  | main hmain =>
    have hflag : s'.device.sema5 = 1 := by rw [(frame_mainStep hmain).1, h.sema5]
    exact ⟨⟨hflag, _, hes', hsafe'⟩, (h.mainStep (fault_of_step hs) hmain).1⟩

theorem Raised.run {es : List Event} (h : s.Raised)
    (hes : ∀ r, .request r ∈ es → Terminates r.env.queryKeyValue)
    (hrun : Machine.run (Boot.step stack) s es = some s') : s'.Raised :=
  run_induction (H := fun _ t => t.Raised) h (fun _ _ _ _ hpre ht hs =>
    (ht.step (fun r hr => hes r (hr ▸ hpre.subset List.mem_concat_self)) hs).1) hrun

/-- A step that does not end the boot leaves no call to a handler that would. -/
theorem callsSucceed_of_step (hs : Boot.step stack s e = some s') (hf : s'.fault = none)
    (h : s'.httpd.CallsSucceed) : s.httpd.CallsSucceed := by
  cases steps_of_step hs with
  | begins hidle | breaks hidle =>
    rw [hidle]
    trivial
  | acts hhandling ha =>
    rw [hhandling]
    exact List.forall_mem_cons.2 ⟨ha, h⟩
  | aborts => cases hf
  | returns hhandling =>
    rw [hhandling]
    exact List.forall_mem_nil _
  | main hmain =>
    rcases (frame_mainStep hmain).2 with heq | ⟨hquiet, -⟩
    · rwa [heq] at h
    · exact callsSucceed_of_not_handles hquiet

/-! ## The way to the end -/

/-- A boot with its flag up that has not ended, and that no call of a handler in progress ends. -/
structure Runs (s : Boot) : Prop where
  raised : s.Raised
  fault : s.fault = none
  calls : s.httpd.CallsSucceed

/-- A handler in progress comes to its end. -/
theorem Runs.exists_quiet (stack : Locals) (h : s.Runs) :
    ∃ es s', (∀ e ∈ es, e.NoRequest) ∧ run (Boot.step stack) s es = some s' ∧ s'.Runs ∧
      s'.main = s.main ∧ ¬ s'.Handles := by
  by_cases hs : s.Handles
  · obtain ⟨flash, todo, hhandling⟩ := hs
    have hcalls := h.calls
    rw [hhandling] at hcalls
    have hrun := @run_calls s stack flash todo hcalls hhandling h.fault
    have hok := noRequest_replicate (todo.length + 1)
    have hraised := h.raised.run (fun r hr => (hok _ hr).elim) hrun
    refine ⟨_, _, hok, hrun, ⟨hraised, h.fault, trivial⟩, rfl, ?_⟩
    rintro ⟨_, _, hidle⟩
    cases hidle
  · exact ⟨[], s, by simp, rfl, h, rfl, hs⟩

/-- The main task that is not at its end takes a step, if no handler is in progress. -/
theorem Runs.exists_mainStep (stack : Locals) (h : s.Runs) (hquiet : ¬ s.Handles)
    (hleft : s.main.left ≠ 0) : ∃ s', Boot.step stack s .main = some s' ∧ s'.Runs := by
  obtain ⟨s', hs⟩ : ∃ s', s.mainStep stack = some s' := by
    unfold mainStep
    split
    next => split_ifs <;> exact ⟨_, rfl⟩
    next =>
      split
      next flash todo hhandling => exact absurd ⟨flash, todo, hhandling⟩ hquiet
      next => exact ⟨_, rfl⟩
    next => exact ⟨_, rfl⟩
    next => exact ⟨_, rfl⟩
    next l hm =>
      rw [hm] at hleft
      exact absurd rfl hleft
  have hstep : Boot.step stack s .main = some s' := by
    rw [Boot.step, if_neg (not_not.2 h.fault)]
    exact hs
  have hquiet' : ¬ s'.Handles := by
    rintro ⟨flash, todo, hhandling⟩
    rcases (frame_mainStep hs).2 with heq | ⟨-, heq⟩
    · exact hquiet ⟨flash, todo, heq.symm.trans hhandling⟩
    · cases heq.symm.trans hhandling
  exact ⟨s', hstep, (h.raised.step (fun r hr => by cases hr) hstep).1,
    (h.raised.mainStep h.fault hs).2.trans h.fault, callsSucceed_of_not_handles hquiet'⟩

theorem Runs.exists_lower (stack : Locals) (h : s.Runs) (hleft : s.main.left ≠ 0) :
    ∃ es s', (∀ e ∈ es, e.NoRequest) ∧ run (Boot.step stack) s es = some s' ∧ s'.Runs ∧
      s'.main.left < s.main.left := by
  obtain ⟨es, s₁, hok, hrun, hs₁, hmain, hquiet⟩ := h.exists_quiet stack
  obtain ⟨s', hstep, hs'⟩ := hs₁.exists_mainStep stack hquiet (by rwa [hmain])
  have hcount := (hs₁.raised.step (fun r hr => by cases hr) hstep).2
  refine ⟨es ++ [.main], s', ?_, ?_, hs', ?_⟩
  · intro e he
    rcases List.mem_append.1 he with he | he
    · exact hok e he
    · rw [List.mem_singleton.1 he]
      trivial
  · rw [run_append, hrun, Option.bind_some, run_cons (Boot.step stack) hstep]
    rfl
  · rw [hmain] at hcount
    simp only [Event.isMain, if_true] at hcount
    omega

theorem raised_of_run {nvs : Nvs} {serverStarted : Bool} {es : List Event}
    (hes : ∀ r, .request r ∈ es → Terminates r.env.queryKeyValue)
    (hrun : run (Boot.step stack) (start nvs serverStarted) es = some s)
    (hflag : s.device.sema5 = 1) : s.Raised :=
  ⟨hflag, es, hes, safe_run hes hrun⟩

theorem Runs.exists_started (stack : Locals) (h : s.Runs) :
    ∃ es s' l, (∀ e ∈ es, e.NoRequest) ∧ run (Boot.step stack) s es = some s' ∧
      s'.main = .started l := by
  obtain ⟨es, s', hes, hrun, -, hleft⟩ := exists_rank_zero (fun s : Boot => s.main.left)
    (fun s (h : Runs s) hleft => h.exists_lower stack hleft) h
  obtain ⟨l, hl⟩ := MainTask.left_eq_zero_iff.1 hleft
  exact ⟨es, s', l, hes, hrun, hl⟩

theorem lastSubmission_of_noRequest {es : List Event} (hes : ∀ e ∈ es, e.NoRequest) :
    lastSubmission es = none := by
  induction es with
  | nil => rfl
  | cons e es ih =>
    have htail := ih fun e he => hes e (List.mem_cons_of_mem _ he)
    cases e with
    | request r => exact (hes _ List.mem_cons_self).elim
    | httpd => exact htail
    | main => exact htail

/-- A submission in a new boot can be carried through to the station. -/
theorem exists_started_of_request (stack : Locals) (nvs : Nvs) {r : Request} (hr : r.Regular)
    {c : Credentials} (hc : c ∈ r.credentials) :
    ∃ es s l, (∀ e ∈ es, e.NoRequest) ∧
      run (Boot.step stack) (start nvs true) (.request r :: es) = some s ∧
        s.main = .started l := by
  obtain ⟨p, hp⟩ : ∃ p, prepare r.env r.contentLen = .ok p := by
    cases hp : prepare r.env r.contentLen with
    | ok p => exact ⟨p, rfl⟩
    | error f =>
      rw [Request.credentials, hp] at hc
      cases hc
  have hquiet := noRequest_replicate (p.actions.length + 1)
  have hrun := @run_request (start nvs true) stack r p hr hp rfl rfl
  have hes : ∀ r', .request r' ∈ .request r :: List.replicate (p.actions.length + 1) Event.httpd →
      r'.Regular := by
    intro r' hr'
    rcases List.mem_cons.1 hr' with heq | hr'
    · cases heq
      exact hr
    · exact (hquiet _ hr').elim
  have hlast : lastSubmission (.request r :: List.replicate (p.actions.length + 1) .httpd) =
      some c := by
    rw [lastSubmission, lastSubmission_of_noRequest hquiet]
    exact hc
  -- the handler has returned, so the flag is up
  have hflag : (r.handle (start nvs true).device).sema5 = 1 := by
    have hsettled := ((inv_run hes hrun).sound rfl).settled
    rw [hlast] at hsettled
    exact hsettled.1
  have hraised := raised_of_run (fun r' hr' => (hes r' hr').terminates) hrun hflag
  obtain ⟨fs, s, l, hfs, hrun', hl⟩ :=
    Runs.exists_started stack ⟨hraised, rfl, show Httpd.idle.CallsSucceed from trivial⟩
  refine ⟨List.replicate (p.actions.length + 1) .httpd ++ fs, s, l, fun e he => ?_, ?_, hl⟩
  · exact (List.mem_append.1 he).elim (hquiet e) (hfs e)
  · rw [← List.cons_append, run_append, hrun]
    exact hrun'

/-! ## When the way is open -/

/-- A run that does not end the boot has begun before a way that was open. -/
theorem open_of_run {es : List Event} (hrun : run (Boot.step stack) s es = some s')
    (hf : s'.fault = none) (h : s'.httpd.CallsSucceed) :
    s.fault = none ∧ s.httpd.CallsSucceed := by
  induction es generalizing s with
  | nil =>
    cases hrun
    exact ⟨hf, h⟩
  | cons e es ih =>
    obtain ⟨s₁, hs, hrun⟩ := (run_cons_eq_some (Boot.step stack)).1 hrun
    obtain ⟨hf₁, h₁⟩ := ih hrun
    exact ⟨fault_of_step hs, callsSucceed_of_step hs hf₁ h₁⟩

/-- When the station has been started the boot has not ended, and no handler is in progress. -/
theorem Safe.open_of_started {last : Option Credentials} (h : s.Safe last) {l : Locals}
    (hl : s.main = .started l) : s.fault = none ∧ s.httpd.CallsSucceed := by
  have hf := h.fault_of_retrieves (by rw [hl]; trivial)
  have hmain := (h.sound hf).main
  rw [MainSound, show s.working.main = .started l from hl] at hmain
  obtain ⟨hstopped, -⟩ := hmain
  refine ⟨hf, callsSucceed_of_not_handles ?_⟩
  rintro ⟨flash, todo, hhandling⟩
  rw [show s.working.httpd = s.httpd.working from rfl, hhandling] at hstopped
  cases hstopped

/-- **The hand-over comes to its end**: once the flag is up the main task is at its end exactly when
it has taken the steps that are left to it, whatever requests come in and whatever their storage
calls return, and there is a way there without another request exactly if the boot has not ended
and the calls that are left to a handler in progress succeed. -/
theorem handover_completes {nvs : Nvs} {serverStarted : Bool} {es : List Event}
    (hes : ∀ r, .request r ∈ es → Terminates r.env.queryKeyValue)
    (hrun : run (Boot.step stack) (start nvs serverStarted) es = some s)
    (hflag : s.device.sema5 = 1) :
    (∀ fs s', (∀ r, .request r ∈ fs → Terminates r.env.queryKeyValue) →
        run (Boot.step stack) s fs = some s' →
        fs.countP Event.isMain ≤ s.main.left ∧
          (fs.countP Event.isMain = s.main.left ↔ ∃ l, s'.main = .started l)) ∧
      ((∃ fs s' l, (∀ e ∈ fs, e.NoRequest) ∧ run (Boot.step stack) s fs = some s' ∧
        s'.main = .started l) ↔ s.fault = none ∧ s.httpd.CallsSucceed) := by
  have hraised := raised_of_run hes hrun hflag
  refine ⟨fun fs s' hfs hrun' => ?_, ?_, ?_⟩
  · have hcount := countP_add_rank Event.isMain (fun s : Boot => s.main.left)
      (fun s e s' h he hs => (Raised.step h he hs).1)
      (fun s e s' h he hs => (Raised.step h he hs).2) hraised
      (fun e he r hr => hfs r (hr ▸ he)) hrun'
    rw [← MainTask.left_eq_zero_iff]
    omega
  · rintro ⟨fs, s', l, hfs, hrun', hl⟩
    have hraised' := hraised.run (fun r hr => (hfs _ hr).elim) hrun'
    obtain ⟨es', -, hsafe⟩ := hraised'.safe
    obtain ⟨hf, hcalls⟩ := hsafe.open_of_started hl
    exact open_of_run hrun' hf hcalls
  · rintro ⟨hf, hcalls⟩
    exact Runs.exists_started stack ⟨hraised, hf, hcalls⟩

/-- A request of which the last call is left when the main task has looked at the flag. -/
def submitRun : List Event :=
  .request plainRequest :: List.replicate 6 .httpd ++ [.main]

/-- From there the main task comes to its end, though a handler is still in progress. -/
theorem handover_completes_submitRun :
    ∃ s, run (Boot.step dirtyStack) (start blank.nvs true) submitRun = some s ∧
      s.httpd.todo.length = 1 ∧
      ∃ fs s' l, (∀ e ∈ fs, e.NoRequest) ∧ run (Boot.step dirtyStack) s fs = some s' ∧
        s'.main = .started l := by
  have hrun : ((run (Boot.step dirtyStack) (start blank.nvs true) submitRun).any fun s =>
      s.device.sema5 = 1 ∧ s.httpd.todo.length = 1 ∧ s.fault = none ∧ s.httpd.CallsSucceed) =
        true := by decide +kernel
  obtain ⟨s, hs, hstate⟩ := (Option.any_eq_true _ _).1 hrun
  obtain ⟨hflag, htodo, hopen⟩ := of_decide_eq_true hstate
  refine ⟨s, hs, htodo, (handover_completes (fun r hr => ?_) hs hflag).2.2 hopen⟩
  obtain rfl : r = plainRequest := by simpa [submitRun] using hr
  exact scanQuery_contract.terminates

end Boot

end HomeAssistant
