import HomeAssistant.Foundations.Machine
import HomeAssistant.Provisioning.StoredFit

/-!
# The hand-over from the web server to the station

While `wifi_init_softap` polls the flag `sema5`, the task of the web server handles requests one
after another. The main task then stops the server and reads the credentials back. The two tasks
take turns in any order: the steps of the server are the calls of the handler, those of the main
task a look at the flag, the return of `httpd_stop` and the calls of `retrieve_credentials`.

The flag is raised after the first submission, and further ones may be handled until the server has
stopped. What links flag, flash and server is that the calls under way, once made, leave the last
submission in flash with the flag raised (`Settled`).
-/

namespace HomeAssistant

open Machine Form

/-- The task of the web server. It handles one request at a time. -/
inductive Httpd
  | idle
  | handling (flash : NvsCall → EspErr) (todo : List Action)
  | stopped

/-- The main task, from the loop in `wifi_init_softap` to the end of `retrieve_credentials`. -/
inductive MainTask
  | polling
  | stopping
  | reading (todo : List Read) (l : Locals)
  | started (l : Locals)

/-- The device and its two tasks. After a fault nothing runs any more. -/
structure Boot where
  device : Device
  httpd : Httpd
  main : MainTask
  fault : Option Fault

namespace Boot

/-- What can happen: a request comes in, or one of the tasks takes its next step. -/
inductive Event
  | request (r : Request)
  | httpd
  | main

/-- A task calls a function, and goes on with what it returns. -/
def call {α : Type} (s : Boot) (x : Eff Device α) (next : α → Boot → Boot) : Boot :=
  match x.exec s.device with
  | (.ok a, d) => next a { s with device := d }
  | (.error f, d) => { s with device := d, fault := some f }

/-- The server begins to handle a request, if it is idle. -/
def beginRequest (s : Boot) (r : Request) : Option Boot :=
  match s.httpd with
  | .idle => some <| s.call (Eff.lift (prepare r.env r.contentLen)) fun p s =>
      { s with httpd := .handling r.env.flash p.actions }
  | _ => none

/-- The next call of the handler, or its return. -/
def httpdStep (s : Boot) : Option Boot :=
  match s.httpd with
  | .handling flash (a :: as) => some <| s.call (a.exec flash) fun _ s =>
      { s with httpd := .handling flash as }
  | .handling _ [] => some { s with httpd := .idle }
  | _ => none

/-- The next step of the main task. `httpd_stop` returns when no handler is in progress, and none is
started afterwards. -/
def mainStep (stack : Locals) (s : Boot) : Option Boot :=
  match s.main with
  | .polling => if s.device.sema5 ≠ 1 then some s else some { s with main := .stopping }
  | .stopping =>
    match s.httpd with
    | .handling _ _ => none
    | _ => some { s with httpd := .stopped, main := .reading retrieveReads stack }
  | .reading (r :: rs) l => some <| s.call (r.exec l) fun l s => { s with main := .reading rs l }
  | .reading [] l => some { s with main := .started l }
  | .started _ => none

/-- One step. The arrays of `wifi_init_sta` are not initialised: `stack` is what they contain. -/
def step (stack : Locals) (s : Boot) (e : Event) : Option Boot :=
  if s.fault ≠ none then none
  else
    match e with
    | .request r => s.beginRequest r
    | .httpd => s.httpdStep
    | .main => s.mainStep stack

/-- The device when the main task begins to poll, with any flash. The server may have failed to
start. -/
def start (nvs : Nvs) (serverStarted : Bool) : Boot where
  device := ⟨nvs, 0, []⟩
  httpd := if serverStarted then .idle else .stopped
  main := .polling
  fault := none

end Boot

/-! ## Submissions -/

/-- The credentials that a request stores, if it stores any. -/
def Request.credentials (r : Request) : Option Credentials :=
  match prepare r.env r.contentLen with
  | .ok p => p.credentials
  | .error _ => none

/-- The last submission among the events. -/
def lastSubmission : List Boot.Event → Option Credentials
  | [] => none
  | .request r :: es => (lastSubmission es).or r.credentials
  | .httpd :: es => lastSubmission es
  | .main :: es => lastSubmission es

theorem lastSubmission_append (es fs : List Boot.Event) :
    lastSubmission (es ++ fs) = (lastSubmission fs).or (lastSubmission es) := by
  induction es with
  | nil => exact Option.or_none.symm
  | cons e es ih =>
    cases e with
    | request r => simp only [List.cons_append, lastSubmission, ih, Option.or_assoc]
    | httpd => exact ih
    | main => exact ih

/-- A request whose storage calls succeed, with a reader that terminates what it writes. -/
structure Request.Regular (r : Request) : Prop where
  works : FlashWorks r.env.flash
  terminates : Terminates r.env.queryKeyValue

theorem zero_notMem_field {p : Prepared} {c : Credentials} (h : c ∈ p.credentials) (k : Key) :
    0 ∉ c.field k := by
  cases p with
  | gaveUp response => cases h
  | form ssid password hostIp =>
    cases h
    cases k <;> exact zero_notMem_cstr _

theorem Request.Regular.fits {r : Request} (hr : r.Regular) {c : Credentials}
    (hc : c ∈ r.credentials) : c.Fits ∧ ∀ k, 0 ∉ c.field k := by
  unfold credentials at hc
  split at hc
  next p hp =>
    obtain ⟨query, rfl⟩ := credentials_of_prepare hp c hc
    exact ⟨fits_credentialsOf hr.terminates query, zero_notMem_field hc⟩
  next => cases hc

theorem lastSubmission_fits {es : List Boot.Event} (hes : ∀ r, .request r ∈ es → r.Regular)
    {c : Credentials} (hc : c ∈ lastSubmission es) : c.Fits ∧ ∀ k, 0 ∉ c.field k := by
  induction es with
  | nil => cases hc
  | cons e es ih =>
    have htail := ih fun r hr => hes r (List.mem_cons_of_mem _ hr)
    cases e with
    | request r =>
      rcases Option.or_eq_some_iff.1 hc with hc | ⟨-, hc⟩
      · exact htail hc
      · exact (hes r List.mem_cons_self).fits hc
    | httpd => exact htail hc
    | main => exact htail hc

/-! ## The invariant -/

/-- The device has no submission of this boot, or the last one is in flash and the flag is
raised. -/
def Settled (d : Device) : Option Credentials → Prop
  | none => d.sema5 ≠ 1
  | some c => d.sema5 = 1 ∧ d.nvs.Holds c

/-- The calls that the server still has to make. -/
def Httpd.todo : Httpd → List Action
  | handling _ todo => todo
  | _ => []

/-- The storage works for the request in progress. -/
def Httpd.Works : Httpd → Prop
  | handling flash _ => FlashWorks flash
  | _ => True

/-- The main task has come to `retrieve_credentials`. -/
def MainTask.Retrieves : MainTask → Prop
  | reading _ _ => True
  | started _ => True
  | _ => False

instance : DecidablePred MainTask.Retrieves
  | .reading _ _ | .started _ => inferInstanceAs (Decidable True)
  | .polling | .stopping => inferInstanceAs (Decidable False)

namespace Boot

/-- What the main task can rely on. -/
def MainSound (s : Boot) (last : Option Credentials) : Prop :=
  match s.main with
  | .polling => True
  | .stopping => last.isSome
  | .reading rs l => s.httpd = .stopped ∧ ∃ c ∈ last, ∃ l',
      (performReads rs l).exec s.device = (.ok l', s.device) ∧ l'.Receives c
  | .started l => s.httpd = .stopped ∧ ∃ c ∈ last, l.Receives c

/-- **The invariant** that links the tasks to the last submission: the calls under way, once made,
settle the device. -/
structure Sound (s : Boot) (last : Option Credentials) : Prop where
  works : s.httpd.Works
  settled : Settled (s.httpd.todo.foldl Action.apply s.device) last
  main : s.MainSound last

/-- The device runs soundly, or a request with the largest length has ended it before the
credentials were read. -/
def Inv (s : Boot) (last : Option Credentials) : Prop :=
  s.fault = none ∧ s.Sound last ∨ s.fault = some .outOfBounds ∧ ¬ s.main.Retrieves

end Boot

theorem settled_actions {d : Device} {last : Option Credentials} (h : Settled d last)
    (p : Prepared) : Settled (p.actions.foldl Action.apply d) (p.credentials.or last) := by
  cases p with
  | gaveUp response =>
    cases response <;> cases last <;> exact h
  | form ssid password hostIp =>
    exact ⟨rfl, Nvs.holds_putCredentials d.nvs ⟨cstr ssid, cstr password, cstr hostIp⟩⟩

theorem sema5_foldl_apply (as : List Action) {d : Device} (h : d.sema5 = 1) :
    (as.foldl Action.apply d).sema5 = 1 := by
  induction as generalizing d with
  | nil => exact h
  | cons a as ih =>
    refine ih ?_
    cases a <;> first | exact h | rfl

/-! ## One step -/

namespace Boot

variable {s s' : Boot} {last : Option Credentials}

theorem call_of_ok {α : Type} {x : Eff Device α} {a : α} {d : Device}
    (h : x.exec s.device = (.ok a, d)) (next : α → Boot → Boot) :
    s.call x next = next a { s with device := d } := by
  rw [call, h]

/-- Until the server has stopped the main task does not retrieve anything. -/
theorem MainSound.not_retrieves (h : s.MainSound last) (hs : s.httpd ≠ .stopped) :
    ¬ s.main.Retrieves := by
  unfold MainSound at h
  split at h
  next hm => simp [hm, MainTask.Retrieves]
  next hm => simp [hm, MainTask.Retrieves]
  next => exact absurd h.1 hs
  next => exact absurd h.1 hs

/-- The main task that does not retrieve anything relies on the last submission only. -/
theorem MainSound.of_not_retrieves (h : s.MainSound last) (hs : ¬ s.main.Retrieves)
    {last' : Option Credentials} (hlast : last.isSome → last'.isSome) {t : Boot}
    (ht : t.main = s.main) : t.MainSound last' := by
  unfold MainSound at h ⊢
  rw [ht]
  cases hm : s.main with
  | polling => trivial
  | stopping =>
    rw [hm] at h
    exact hlast h
  | reading rs l => rw [hm] at hs; exact absurd trivial hs
  | started l => rw [hm] at hs; exact absurd trivial hs

theorem inv_beginRequest (h : s.Sound last) (hf : s.fault = none) {r : Request} (hr : r.Regular)
    (hs : s.beginRequest r = some s') : s'.Inv (r.credentials.or last) := by
  unfold beginRequest at hs
  split at hs
  next hidle =>
    cases hs
    have hnot := h.main.not_retrieves (by rw [hidle]; exact Httpd.noConfusion)
    have hsettled := h.settled
    rw [hidle] at hsettled
    unfold call Request.credentials
    cases hp : prepare r.env r.contentLen with
    | error f =>
      rw [prepare_error hp]
      exact Or.inr ⟨rfl, hnot⟩
    | ok p =>
      refine Or.inl ⟨hf, hr.works, settled_actions hsettled p, ?_⟩
      refine h.main.of_not_retrieves hnot (fun hsome => ?_) rfl
      cases p.credentials <;> simp [hsome]
  next => cases hs

theorem inv_httpdStep (h : s.Sound last) (hf : s.fault = none) (hs : s.httpdStep = some s') :
    s'.Inv last := by
  have hsettled := h.settled
  have hworks := h.works
  unfold httpdStep at hs
  split at hs
  next flash a as hhandling =>
    cases hs
    rw [hhandling] at hsettled hworks
    have hnot := h.main.not_retrieves (by rw [hhandling]; exact Httpd.noConfusion)
    rw [call_of_ok (a.exec_of_works hworks s.device)]
    exact Or.inl ⟨hf, hworks, hsettled, h.main.of_not_retrieves hnot id rfl⟩
  next flash hhandling =>
    cases hs
    rw [hhandling] at hsettled
    have hnot := h.main.not_retrieves (by rw [hhandling]; exact Httpd.noConfusion)
    exact Or.inl ⟨hf, trivial, hsettled, h.main.of_not_retrieves hnot id rfl⟩
  next => cases hs

theorem Sound.isSome_of_sema5 (h : s.Sound last) (hsema : s.device.sema5 = 1) : last.isSome := by
  cases last with
  | none => exact absurd (sema5_foldl_apply _ hsema) h.settled
  | some c => rfl

theorem inv_mainStep (h : s.Sound last) (hf : s.fault = none) {stack : Locals}
    (hlast : ∀ c ∈ last, c.Fits) (hs : s.mainStep stack = some s') : s'.Inv last := by
  have hmain := h.main
  unfold mainStep at hs
  unfold MainSound at hmain
  split at hs
  next hm =>
    split_ifs at hs with hsema
    · cases hs
      exact Or.inl ⟨hf, h⟩
    · cases hs
      exact Or.inl ⟨hf, h.works, h.settled, h.isSome_of_sema5 (not_not.1 hsema)⟩
  next hm =>
    rw [hm] at hmain
    obtain ⟨c, rfl⟩ := Option.isSome_iff_exists.1 hmain
    split at hs
    next => cases hs
    next hhttpd =>
      cases hs
      have hsettled : Settled s.device (some c) := by
        have := h.settled
        cases hidle : s.httpd with
        | handling flash as => exact absurd hidle (hhttpd flash as)
        | idle => rwa [hidle] at this
        | stopped => rwa [hidle] at this
      obtain ⟨l', hreads, hl'⟩ :=
        exec_performReads_retrieveReads hsettled.2 (hlast c rfl) stack
      exact Or.inl ⟨hf, trivial, hsettled, rfl, c, rfl, l', hreads, hl'⟩
  next r rs l hm =>
    rw [hm] at hmain
    obtain ⟨hstopped, c, hc, l', hreads, hl'⟩ := hmain
    cases hs
    -- the call returns, and leaves the device as it is
    obtain ⟨l₁, d, hcall, hrest⟩ := Eff.exec_bind_eq_ok.1 hreads
    obtain rfl : d = s.device := by
      have hd := r.readsOnly l s.device
      rwa [hcall] at hd
    rw [call_of_ok hcall]
    exact Or.inl ⟨hf, h.works, h.settled, hstopped, c, hc, l', hrest, hl'⟩
  next l hm =>
    rw [hm] at hmain
    obtain ⟨hstopped, c, hc, l', hreads, hl'⟩ := hmain
    cases hs
    cases hreads
    exact Or.inl ⟨hf, h.works, h.settled, hstopped, c, hc, hl'⟩
  next => cases hs

theorem Sound.holds_of_retrieves (h : s.Sound last) (hret : s.main.Retrieves) :
    ∃ c, last = some c ∧ s.device.nvs.Holds c := by
  have hmain := h.main
  have hsettled := h.settled
  obtain ⟨hstopped, c, rfl⟩ : s.httpd = .stopped ∧ ∃ c, last = some c := by
    unfold MainSound at hmain
    split at hmain
    next hm => rw [hm] at hret; exact hret.elim
    next hm => rw [hm] at hret; exact hret.elim
    next => exact ⟨hmain.1, hmain.2.imp fun _ hc => hc.1⟩
    next => exact ⟨hmain.1, hmain.2.imp fun _ hc => hc.1⟩
  rw [hstopped] at hsettled
  exact ⟨c, rfl, hsettled.2⟩

theorem run_calls {stack : Locals} {flash : NvsCall → EspErr} {as : List Action}
    (has : ∀ a ∈ as, a.Succeeds flash) (hs : s.httpd = .handling flash as)
    (hf : s.fault = none) : run (step stack) s (List.replicate (as.length + 1) .httpd) =
      some { s with device := as.foldl Action.apply s.device, httpd := .idle } := by
  induction as generalizing s with
  | nil =>
    have hstep : step stack s .httpd = some { s with httpd := .idle } := by
      simp [step, hf, httpdStep, hs]
    exact run_cons (step stack) hstep []
  | cons a as ih =>
    have ha := Action.exec_of_succeeds (has a List.mem_cons_self) s.device
    have hstep : step stack s .httpd =
        some { s with device := a.apply s.device, httpd := .handling flash as } := by
      simp [step, hf, httpdStep, hs, call_of_ok ha]
    rw [List.length_cons, List.replicate_succ, run_cons (step stack) hstep]
    exact ih (fun b hb => has b (List.mem_cons_of_mem a hb)) rfl hf

/-- **A request that is not interrupted** changes the device as `post_handler` does. -/
theorem run_request {stack : Locals} {r : Request} {p : Prepared} (hr : r.Regular)
    (hp : prepare r.env r.contentLen = .ok p) (hs : s.httpd = .idle) (hf : s.fault = none) :
    run (step stack) s (.request r :: List.replicate (p.actions.length + 1) .httpd) =
      some { s with device := r.handle s.device } := by
  have hstep : step stack s (.request r) =
      some { s with httpd := .handling r.env.flash p.actions } := by
    simp [step, hf, beginRequest, hs, call, hp]
  rw [run_cons (step stack) hstep]
  refine (run_calls (s := { s with httpd := .handling r.env.flash p.actions })
    (fun a _ => Action.succeeds_of_works hr.works a) rfl hf).trans ?_
  rw [Request.handle_eq, hp]
  simp only [exec_perform_of_works hr.works, ← hs]

/-- **What a step keeps**: the invariant, with the submission that the step may add. -/
theorem inv_step {pre : List Event} {e : Event} {stack : Locals}
    (hes : ∀ r, .request r ∈ pre ++ [e] → r.Regular) (h : s.Inv (lastSubmission pre))
    (hs : step stack s e = some s') : s'.Inv (lastSubmission (pre ++ [e])) := by
  unfold step at hs
  split_ifs at hs with hf
  have hsound : s.Sound (lastSubmission pre) := by
    rcases h with h | h
    · exact h.2
    · rw [not_not.1 hf] at h
      cases h.1
  rw [lastSubmission_append]
  cases e with
  | request r =>
    exact inv_beginRequest hsound (not_not.1 hf) (hes r (by simp)) hs
  | httpd => exact inv_httpdStep hsound (not_not.1 hf) hs
  | main =>
    refine inv_mainStep hsound (not_not.1 hf) (fun c hc => ?_) hs
    exact (lastSubmission_fits (fun r hr => hes r (List.mem_append_left _ hr)) hc).1

/-- **What a run keeps.** -/
theorem inv_run {nvs : Nvs} {serverStarted : Bool} {stack : Locals} {es : List Event}
    (hes : ∀ r, .request r ∈ es → r.Regular)
    (hrun : run (step stack) (start nvs serverStarted) es = some s) :
    s.Inv (lastSubmission es) := by
  refine run_induction (H := fun pre t => t.Inv (lastSubmission pre)) (Or.inl ⟨rfl, ?_⟩)
    (fun pre e t t' hpre h hstep => inv_step (fun r hr => hes r (hpre.subset hr)) h hstep) hrun
  cases serverStarted <;> exact ⟨trivial, show (0 : ℤ) ≠ 1 by decide, trivial⟩

end Boot

/-! ## The hand-over -/

/-- After the events the station has not gone wrong: the credentials are retrieved only when a
submission is in flash, all of it, and what is retrieved is the last submission. -/
structure StartsFromLast (es : List Boot.Event) (s : Boot) : Prop where
  noAbort : s.fault ≠ some .abort
  stored : s.main.Retrieves → s.fault = none ∧
    ∃ c, lastSubmission es = some c ∧ s.device.nvs.Holds c
  retrieved (l : Locals) : s.main = .started l →
    ∃ c, lastSubmission es = some c ∧ ∀ k, (l.array k).str = c.field k

/-- **The station starts from one complete submission**, the last one, whatever was in flash and
however the two tasks take turns. -/
theorem station_starts_from_last_submission {nvs : Nvs} {serverStarted : Bool} {stack : Locals}
    {es : List Boot.Event} {s : Boot} (hes : ∀ r, .request r ∈ es → r.Regular)
    (hrun : run (Boot.step stack) (Boot.start nvs serverStarted) es = some s) :
    StartsFromLast es s := by
  rcases Boot.inv_run hes hrun with ⟨hf, h⟩ | ⟨hf, hnot⟩
  · refine ⟨by simp [hf], fun hret => ⟨hf, h.holds_of_retrieves hret⟩, fun l hl => ?_⟩
    have hmain := h.main
    unfold Boot.MainSound at hmain
    rw [hl] at hmain
    obtain ⟨-, c, hc, hreceives⟩ := hmain
    exact ⟨c, hc, fun k => str_of_prefix ((lastSubmission_fits hes hc).2 k) (hreceives k)⟩
  · refine ⟨by simp [hf], fun hret => absurd hret hnot, fun l hl => ?_⟩
    rw [hl] at hnot
    exact absurd trivial hnot

/-- A request with the setup form. -/
def plainRequest : Request :=
  ⟨setupEnv (formText plainForm), UInt32.ofNat (formText plainForm).length⟩

/-- Two requests, the second of which is handled while the main task stops the server. -/
def handoverRun : List Boot.Event :=
  .request plainRequest :: List.replicate 8 .httpd ++ [.main, .request brokenRequest] ++
    List.replicate 8 .httpd ++ List.replicate 9 .main

/-- Arrays that are not initialised. -/
def dirtyStack : Locals := ⟨fun _ => 7, fun k => ⟨List.replicate (arrayLength k) 0x55, by simp⟩⟩

theorem station_starts_from_second_submission :
    ∃ s, run (Boot.step dirtyStack) (Boot.start blank.nvs true) handoverRun = some s ∧
      s.main.Retrieves ∧ StartsFromLast handoverRun s ∧
      lastSubmission handoverRun = some ⟨List.replicate 31 0x61, ascii "sol%4", []⟩ := by
  have hrun : ((run (Boot.step dirtyStack) (Boot.start blank.nvs true) handoverRun).any
      fun s => s.main.Retrieves) = true := by decide +kernel
  obtain ⟨s, hs, hret⟩ := (Option.any_eq_true _ _).1 hrun
  refine ⟨s, hs, of_decide_eq_true hret, ?_, by decide +kernel⟩
  refine station_starts_from_last_submission (fun r hr => ?_) hs
  have hr' : r = plainRequest ∨ r = brokenRequest := by simpa [handoverRun] using hr
  rcases hr' with rfl | rfl <;> exact ⟨fun _ => rfl, scanQuery_contract.terminates⟩

end HomeAssistant
