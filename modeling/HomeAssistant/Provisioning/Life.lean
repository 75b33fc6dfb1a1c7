import HomeAssistant.Provisioning.Durability
import HomeAssistant.Provisioning.Failures
import HomeAssistant.Provisioning.Setup

/-!
# The life of the device

A device is started many times. At any time the power can be lost, or a storage call can fail, which
aborts the program; the next boot finds the strings that were durable, or none if `nvs_flash_init`
asks for the flash to be erased (`prepareFlash`). `Life` puts boots one after another, each with its
two tasks, any requests and any results of the storage calls, over a flash in which each string
becomes durable at a time of its own.

A failure can leave strings of two submissions in flash. The station never uses such a mix
(`Life.uses_one_submission`): no boot reads the credentials back before it has stored all strings of
a submission of its own, whatever it has found. What is in flash was always submitted under its key
and fits (`Life.flash_sound_of_run`). And no failure is for good: after a restart the device can be
set up with a single request (`Life.can_be_set_up`).
-/

namespace HomeAssistant

open Machine

/-! ## Boot after boot -/

/-- What `nvs_flash_init` returns. -/
inductive InitErr
  | ok
  | noFreePages
  | newVersionFound
  | other
  deriving DecidableEq

/-- What the calls return that prepare the flash. -/
structure InitCalls where
  first : InitErr
  erase : EspErr
  second : InitErr

/-- The flash with nothing in it. -/
def Nvs.erased : Nvs := ⟨false, fun _ => none⟩

/-- `app_main` in front of `wifi_init_softap`: a flash that has no free pages or another version is
erased. -/
def prepareFlash (calls : InitCalls) : Eff Device Unit := do
  if calls.first = .noFreePages ∨ calls.first = .newVersionFound then
    espErrorCheck calls.erase
    Eff.update fun d => { d with nvs := .erased }
    if calls.second ≠ .ok then throw .abort
  else if calls.first ≠ .ok then throw .abort

/-- The flash under the program: what is found after a restart, and what calls have written that is
not known to be durable. -/
structure Flash where
  durable : Nvs
  pending : Key → Option Bytes

namespace Flash

/-- The flash with nothing pending. -/
def atRest (n : Nvs) : Flash := ⟨n, fun _ => none⟩

/-- The flash as the program sees it. -/
def seen (f : Flash) : Nvs :=
  { f.durable with value := fun k => (f.pending k).or (f.durable.value k) }

/-- The flash after a call of the handler. -/
def called (f : Flash) (flash : NvsCall → EspErr) : Action → Flash
  | .openNamespace =>
    if flash .openNamespace = .ok then { f with durable := { f.durable with created := true } }
    else f
  | .setStr k s => { f with pending := Function.update f.pending k (some (cstr s)) }
  | .commit =>
    if flash .commit = .ok then .atRest f.seen else f
  | _ => f

/-- The flash after a step of a boot. -/
def after (f : Flash) (s : Boot) : Boot.Event → Flash
  | .httpd =>
    match s.httpd with
    | .handling flash (a :: _) => f.called flash a
    | _ => f
  | _ => f

end Flash

/-- Over a call of the handler, the flash is that of `Storing`. -/
theorem Flash.called_eq {s t u : Storing} {a : Action} {err : EspErr}
    (hcall : s.makeCall = some t) (ha : t.current = some a) (hret : t.endCall err = some u) :
    Flash.mk u.durable u.pending = (Flash.mk s.durable s.pending).called (fun _ => err) a := by
  unfold Storing.makeCall at hcall
  split at hcall
  next b as hcurrent htodo =>
    cases hcall
    cases ha
    simp only [Storing.endCall, Option.map_some, Action.exec_exec, Option.some.injEq] at hret
    subst hret
    split_ifs with hsucc
    · cases a with
      | openNamespace => exact (if_pos hsucc).symm
      | commit =>
        simp only [Storing.returned, called]
        split_ifs <;> rfl
      | setStr k v => rfl
      | raiseSema5 => rfl
      | respond r => rfl
    · cases a with
      | openNamespace => exact (if_neg hsucc).symm
      | setStr k v => rfl
      | commit | raiseSema5 | respond => exact absurd trivial hsucc
  next => cases hcall

/-- The device over many boots: the one in progress, and the flash. -/
structure Life where
  boot : Boot
  flash : Flash

namespace Life

/-- What can happen: a step of the boot in progress, a string becomes durable, and at any time, with
the boot aborted or not, the device is started again. -/
inductive Event
  | boot (e : Boot.Event)
  | persist (k : Key)
  | restart (calls : InitCalls) (serverStarted : Bool)

/-- A new boot. -/
def restart (n : Nvs) (calls : InitCalls) (serverStarted : Bool) : Life :=
  match (prepareFlash calls).exec ⟨n, 0, []⟩ with
  | (.ok (), d) => ⟨.start d.nvs serverStarted, .atRest d.nvs⟩
  | (.error f, d) => ⟨{ Boot.start d.nvs serverStarted with fault := some f }, .atRest d.nvs⟩

/-- One step. -/
def step (stack : Locals) (s : Life) : Event → Option Life
  | .boot e => (s.boot.step stack e).map fun b => ⟨b, s.flash.after s.boot e⟩
  | .persist k => (s.flash.pending k).map fun v =>
    ⟨s.boot, s.flash.durable.put k v, Function.update s.flash.pending k none⟩
  | .restart calls serverStarted => some (restart s.flash.durable calls serverStarted)

/-- A first boot. -/
def start (n : Nvs) (serverStarted : Bool) : Life := ⟨.start n serverStarted, .atRest n⟩

/-- The events of the boot in progress, when one more event has come. -/
def sameBoot (es : List Boot.Event) : Event → List Boot.Event
  | .boot e => es ++ [e]
  | .persist _ => es
  | .restart _ _ => []

/-- The events of the boot in progress. -/
def thisBoot (es : List Event) : List Boot.Event := es.foldl sameBoot []

variable {stack : Locals} {n : Nvs} {serverStarted : Bool} {s s' : Life} {e : Event}
  {es : List Event}

/-! ## What the station uses -/

theorem thisBoot_concat (es : List Event) (e : Event) :
    thisBoot (es ++ [e]) = sameBoot (thisBoot es) e :=
  List.foldl_concat sameBoot [] e es

theorem mem_of_mem_thisBoot {e : Boot.Event} (h : e ∈ thisBoot es) : .boot e ∈ es := by
  induction es using List.reverseRecOn with
  | nil => cases h
  | append_singleton es e' ih =>
    rw [thisBoot_concat] at h
    cases e' with
    | boot e' =>
      rcases List.mem_append.1 h with h | h
      · exact List.mem_append_left _ (ih h)
      · rw [List.mem_singleton.1 h]
        exact List.mem_concat_self
    | persist k => exact List.mem_append_left _ (ih h)
    | restart calls serverStarted => cases h

/-- **What a new boot finds**: the flash that was durable, or an erased one. -/
theorem restart_cases (n : Nvs) (calls : InitCalls) (serverStarted : Bool) :
    ∃ m, (m = n ∨ m = .erased) ∧
      (restart n calls serverStarted = start m serverStarted ∨
        restart n calls serverStarted =
          ⟨{ Boot.start m serverStarted with fault := some .abort }, .atRest m⟩) := by
  obtain ⟨first, erase, second⟩ := calls
  cases first with
  | ok => exact ⟨n, Or.inl rfl, Or.inl rfl⟩
  | other => exact ⟨n, Or.inl rfl, Or.inr rfl⟩
  | noFreePages | newVersionFound =>
    cases erase with
    | ok =>
      refine ⟨.erased, Or.inr rfl, ?_⟩
      cases second <;> first | exact Or.inl rfl | exact Or.inr rfl
    | _ => exact ⟨n, Or.inl rfl, Or.inr rfl⟩

/-- **What a step keeps**: the boot in progress is safe. -/
theorem safe_step (hes : ∀ r, .boot (.request r) ∈ es ++ [e] → Terminates r.env.queryKeyValue)
    (h : s.boot.Safe (lastSubmission (thisBoot es))) (hs : step stack s e = some s') :
    s'.boot.Safe (lastSubmission (thisBoot (es ++ [e]))) := by
  rw [thisBoot_concat]
  cases e with
  | boot e =>
    obtain ⟨b, hb, rfl⟩ := Option.map_eq_some_iff.1 hs
    refine Boot.safe_step (fun r hr => hes r ?_) h hb
    rw [← show thisBoot (es ++ [.boot e]) = thisBoot es ++ [e] from thisBoot_concat es _] at hr
    exact mem_of_mem_thisBoot hr
  | persist k =>
    obtain ⟨v, -, rfl⟩ := Option.map_eq_some_iff.1 hs
    exact h
  | restart calls serverStarted =>
    cases hs
    obtain ⟨m, -, hrestart | hrestart⟩ := restart_cases s.flash.durable calls serverStarted
    · rw [hrestart]
      exact Boot.safe_start m serverStarted
    · rw [hrestart]
      exact Or.inr ⟨nofun, id⟩

theorem safe_run (hes : ∀ r, .boot (.request r) ∈ es → Terminates r.env.queryKeyValue)
    (hrun : run (step stack) (start n serverStarted) es = some s) :
    s.boot.Safe (lastSubmission (thisBoot es)) :=
  run_induction (H := fun pre t => t.boot.Safe (lastSubmission (thisBoot pre)))
    (Boot.safe_start n serverStarted)
    (fun _ _ _ _ hpre h hstep => safe_step (fun r hr => hes r (hpre.subset hr)) h hstep) hrun

/-- The station uses one submission, the last one of the boot in progress. -/
structure UsesOne (es : List Event) (s : Life) : Prop where
  /-- Reading the credentials back does not fail. -/
  reads : s.boot.main.Retrieves → s.boot.fault = none
  uses (l : Locals) : s.boot.main = .started l → ∃ c, lastSubmission (thisBoot es) = some c ∧
    ∀ hostIp, Arrives l s.boot.device hostIp c.ssid c.password c.hostIp

/-- **The station uses one submission** of the boot in progress, whatever failures of the storage
and losses of power have left in flash. -/
theorem uses_one_submission
    (hes : ∀ r, .boot (.request r) ∈ es → Terminates r.env.queryKeyValue)
    (hrun : run (step stack) (start n serverStarted) es = some s) : UsesOne es s := by
  have hsafe := safe_run hes hrun
  exact ⟨hsafe.fault_of_retrieves,
    fun l hl => hsafe.arrives (fun r hr => hes r (mem_of_mem_thisBoot hr)) hl⟩

/-! ## Recovery -/

theorem run_boot {b : Boot} {fs : List Boot.Event}
    (hrun : run (Boot.step stack) s.boot fs = some b) :
    ∃ f, run (step stack) s (fs.map .boot) = some ⟨b, f⟩ := by
  induction fs generalizing s with
  | nil =>
    cases hrun
    exact ⟨s.flash, rfl⟩
  | cons e fs ih =>
    obtain ⟨b₁, hb₁, hrun⟩ := (run_cons_eq_some (Boot.step stack)).1 hrun
    have hs₁ : step stack s (.boot e) = some ⟨b₁, s.flash.after s.boot e⟩ := by
      rw [step, hb₁, Option.map_some]
    obtain ⟨f, hf⟩ := ih (s := ⟨b₁, s.flash.after s.boot e⟩) hrun
    exact ⟨f, (run_cons (step stack) hs₁ _).trans hf⟩

theorem thisBoot_map_boot (es : List Boot.Event) : thisBoot (es.map .boot) = es := by
  induction es using List.reverseRecOn with
  | nil => rfl
  | append_singleton es e ih => rw [List.map_append, List.map_singleton, thisBoot_concat, ih]; rfl

/-- **No failure is for good**: whatever has happened, after a restart a submission to a storage
that works can be carried through to the station, without another request. -/
theorem can_be_set_up (stack : Locals) (s : Life) {r : Request} (hr : r.Regular) {c : Credentials}
    (hc : c ∈ r.credentials) :
    ∃ fs s' l, (∀ e ∈ fs, e.NoRequest) ∧
      run (step stack) s
        (.restart ⟨.ok, .ok, .ok⟩ true :: (Boot.Event.request r :: fs).map .boot) = some s' ∧
      s'.boot.main = .started l ∧
      ∀ hostIp, Arrives l s'.boot.device hostIp c.ssid c.password c.hostIp := by
  obtain ⟨fs, b, l, hfs, hrun, hl⟩ := Boot.exists_started_of_request stack s.flash.durable hr hc
  have hrestart : step stack s (.restart ⟨.ok, .ok, .ok⟩ true) =
      some (start s.flash.durable true) := rfl
  obtain ⟨f, hf⟩ := run_boot (s := start s.flash.durable true) hrun
  refine ⟨fs, ⟨b, f⟩, l, hfs, (run_cons (step stack) hrestart _).trans hf, hl, ?_⟩
  have hterminates : ∀ r', .request r' ∈ .request r :: fs → Terminates r'.env.queryKeyValue := by
    intro r' hr'
    rcases List.mem_cons.1 hr' with heq | hr'
    · cases heq
      exact hr.terminates
    · exact (hfs _ hr').elim
  have hsafe : b.Safe (lastSubmission (.request r :: fs)) := by
    have h := safe_run (fun r' hr' => hterminates r' ?_) hf
    · rwa [thisBoot_map_boot] at h
    · obtain ⟨e, he, heq⟩ := List.mem_map.1 hr'
      cases heq
      exact he
  obtain ⟨c', hc', harrives⟩ := hsafe.arrives hterminates hl
  rw [lastSubmission, Boot.lastSubmission_of_noRequest hfs] at hc'
  obtain rfl : c' = c := Option.some.inj (hc'.symm.trans hc)
  exact harrives

/-- A device on which a boot was aborted with the name of a network in flash and no password. -/
def aborted : Life :=
  ⟨{ Boot.start (blank.nvs.put .ssid (ascii "escola")) true with fault := some .abort },
    .atRest (blank.nvs.put .ssid (ascii "escola"))⟩

/-- It can be set up with the name `casa`. -/
theorem aborted_can_be_set_up :
    ∃ fs s' l, run (step dirtyStack) aborted
        (.restart ⟨.ok, .ok, .ok⟩ true :: (Boot.Event.request plainRequest :: fs).map .boot) =
          some s' ∧
      s'.boot.main = .started l ∧ ∀ hostIp, Arrives l s'.boot.device hostIp (ascii "casa")
        (ascii "sol & mar") (ascii "192.168.0.10") := by
  have hc : ⟨ascii "casa", ascii "sol & mar", ascii "192.168.0.10"⟩ ∈ plainRequest.credentials := by
    rw [delivers_plainRequest.credentials]
    decide
  obtain ⟨fs, s', l, -, hrun, hl, harrives⟩ := can_be_set_up dirtyStack aborted
    ⟨fun _ => rfl, scanQuery_contract.terminates⟩ hc
  exact ⟨fs, s', l, hrun, hl, harrives⟩

end Life

/-! ## What is in flash -/

/-- The strings found under the keys all have the property `O`. -/
def Everywhere (O : Key → Bytes → Prop) (value : Key → Option Bytes) : Prop :=
  ∀ k v, value k = some v → O k v

section

variable {O : Key → Bytes → Prop}

theorem everywhere_none : Everywhere O fun _ => none := fun _ _ => nofun

theorem Everywhere.update {value : Key → Option Bytes} (h : Everywhere O value) {k : Key}
    {o : Option Bytes} (ho : ∀ v ∈ o, O k v) : Everywhere O (Function.update value k o) := by
  intro k' v hv
  by_cases hk : k' = k
  · subst hk
    rw [Function.update_self] at hv
    exact ho v hv
  · rw [Function.update_of_ne hk] at hv
    exact h k' v hv

theorem Everywhere.put {n : Nvs} (h : Everywhere O n.value) {k : Key} {v : Bytes} (hv : O k v) :
    Everywhere O (n.put k v).value := by
  intro k' v' hv'
  by_cases hk : k' = k
  · subst hk
    rw [Nvs.value_put_self] at hv'
    cases hv'
    exact hv
  · rw [Nvs.value_put_of_ne n hk] at hv'
    exact h k' v' hv'

theorem Everywhere.apply {d : Device} (h : Everywhere O d.nvs.value) {a : Action}
    (ha : ∀ k s, a = .setStr k s → O k (cstr s)) : Everywhere O (a.apply d).nvs.value := by
  cases a with
  | setStr k s => exact h.put (ha k s rfl)
  | _ => exact h

/-- The strings in flash, durable or not. -/
structure Flash.AllStrings (O : Key → Bytes → Prop) (f : Flash) : Prop where
  durable : Everywhere O f.durable.value
  pending : Everywhere O f.pending

theorem Flash.AllStrings.called {f : Flash} (h : f.AllStrings O) (flash : NvsCall → EspErr)
    {a : Action} (ha : ∀ k s, a = .setStr k s → O k (cstr s)) :
    (f.called flash a).AllStrings O := by
  cases a with
  | openNamespace =>
    rw [Flash.called]
    split_ifs
    · exact ⟨h.durable, h.pending⟩
    · exact h
  | setStr k s =>
    refine ⟨h.durable, h.pending.update fun v hv => ?_⟩
    cases hv
    exact ha k s rfl
  | commit =>
    rw [Flash.called]
    split_ifs
    · refine ⟨fun k v hv => ?_, everywhere_none⟩
      rcases Option.or_eq_some_iff.1 hv with hv | ⟨-, hv⟩
      · exact h.pending k v hv
      · exact h.durable k v hv
    · exact h
  | raiseSema5 => exact h
  | respond r => exact h

theorem Flash.seen_called {d : Device} {f : Flash} (hd : d.nvs = f.seen)
    {flash : NvsCall → EspErr} {a : Action} (ha : a.Succeeds flash) :
    (a.apply d).nvs = (f.called flash a).seen := by
  cases a with
  | openNamespace =>
    rw [Flash.called, if_pos (show flash .openNamespace = .ok from ha)]
    show { d.nvs with created := true } = _
    rw [hd]
    rfl
  | setStr k s =>
    show d.nvs.put k (cstr s) = _
    rw [hd]
    refine congrArg (Nvs.mk f.durable.created) (funext fun k' => ?_)
    by_cases hk : k' = k
    · simp [Flash.called, hk]
    · simp [Flash.called, hk, Flash.seen]
  | commit =>
    rw [Flash.called]
    split_ifs
    · exact hd
    · exact hd
  | raiseSema5 => exact hd
  | respond r => exact hd

namespace Life

variable {stack : Locals} {n : Nvs} {serverStarted : Bool} {s s' : Life} {e : Event}
  {es : List Event}

/-- The strings that the program sees, those in flash, and those that are about to be stored. -/
structure AllStrings (O : Key → Bytes → Prop) (s : Life) : Prop where
  device : Everywhere O s.boot.device.nvs.value
  flash : s.flash.AllStrings O
  todo : ∀ k x, .setStr k x ∈ s.boot.httpd.todo → O k (cstr x)

theorem allStrings_start (h : Everywhere O n.value) : (start n serverStarted).AllStrings O := by
  refine ⟨h, ⟨h, everywhere_none⟩, ?_⟩
  cases serverStarted <;> exact fun _ _ => nofun

theorem AllStrings.bootStep (h : s.AllStrings O) {b : Boot} {e : Boot.Event}
    (he : ∀ r, e = .request r → ∀ c ∈ r.credentials, ∀ k, O k (c.field k))
    (hs : Boot.Steps stack s.boot e b) : AllStrings O ⟨b, s.flash.after s.boot e⟩ := by
  obtain ⟨boot, flash⟩ := s
  cases hs with
  | @begins r p hidle hp =>
    refine ⟨h.device, h.flash, fun k x hx => ?_⟩
    obtain ⟨c, hc, hfield⟩ := field_of_setStr_mem hx
    rw [← hfield]
    exact he r rfl c (by rw [Request.credentials, hp]; exact hc) k
  | breaks => exact ⟨h.device, h.flash, h.todo⟩
  | @acts works a as hhandling ha =>
    have htodo := h.todo
    rw [hhandling] at htodo
    have ha : ∀ k x, a = .setStr k x → O k (cstr x) :=
      fun k x hax => htodo k x (hax ▸ List.mem_cons_self)
    rw [Flash.after, hhandling]
    exact ⟨h.device.apply ha, h.flash.called works ha,
      fun k x hx => htodo k x (List.mem_cons_of_mem a hx)⟩
  | @aborts works a as hhandling ha =>
    have htodo := h.todo
    rw [hhandling] at htodo
    rw [Flash.after, hhandling]
    exact ⟨h.device, h.flash.called works fun k x hax => htodo k x (hax ▸ List.mem_cons_self),
      htodo⟩
  | returns hhandling =>
    rw [Flash.after, hhandling]
    refine ⟨h.device, h.flash, fun k x hx => ?_⟩
    cases hx
  | main hmain =>
    obtain ⟨hd, hhttpd⟩ := Boot.frame_mainStep hmain
    refine ⟨hd ▸ h.device, h.flash, fun k x hx => ?_⟩
    rcases hhttpd with heq | ⟨-, heq⟩
    · exact h.todo k x (heq ▸ hx)
    · rw [heq] at hx
      cases hx

/-- **What a step keeps**: what all strings have in common. -/
theorem AllStrings.step (h : s.AllStrings O)
    (he : ∀ r, e = .boot (.request r) → ∀ c ∈ r.credentials, ∀ k, O k (c.field k))
    (hs : Life.step stack s e = some s') : s'.AllStrings O := by
  cases e with
  | boot e =>
    obtain ⟨b, hb, rfl⟩ := Option.map_eq_some_iff.1 hs
    exact h.bootStep (fun r hr => he r (hr ▸ rfl)) (Boot.steps_of_step hb)
  | persist k =>
    obtain ⟨v, hv, rfl⟩ := Option.map_eq_some_iff.1 hs
    have hO := h.flash.pending k v hv
    exact ⟨h.device, ⟨h.flash.durable.put hO, h.flash.pending.update fun _ => nofun⟩, h.todo⟩
  | restart calls serverStarted =>
    cases hs
    obtain ⟨m, hm, hrestart⟩ := restart_cases s.flash.durable calls serverStarted
    have hm' : Everywhere O m.value := by
      rcases hm with rfl | rfl
      · exact h.flash.durable
      · exact everywhere_none
    have hstart : (start m serverStarted).AllStrings O := allStrings_start hm'
    rcases hrestart with hrestart | hrestart
    · rw [hrestart]
      exact hstart
    · rw [hrestart]
      exact ⟨hstart.device, hstart.flash, hstart.todo⟩

/-- A string that was found at first or was submitted. -/
def Origin (n : Nvs) (es : List Event) (k : Key) (v : Bytes) : Prop :=
  n.value k = some v ∨ ∃ r, .boot (.request r) ∈ es ∧ ∃ c ∈ r.credentials, c.field k = v

/-- **Where the strings come from**: over any boots, each string was found at first or submitted. -/
theorem allStrings_of_run (hrun : run (step stack) (start n serverStarted) es = some s) :
    s.AllStrings (Origin n es) :=
  run_induction (H := fun _ t => t.AllStrings (Origin n es))
    (allStrings_start fun _ _ => Or.inl)
    (fun _ _ _ _ hpre h hstep => h.step (fun r hr c hc _ => Or.inr
      ⟨r, hr ▸ hpre.subset List.mem_concat_self, c, hc, rfl⟩) hstep) hrun

/-- The program sees what is durable and, over it, what is pending. -/
def SeesFlash (s : Life) : Prop := s.boot.fault = none → s.boot.device.nvs = s.flash.seen

/-- **What a step keeps**: unless the boot has ended, the program sees the flash. -/
theorem SeesFlash.step (h : s.SeesFlash) (hs : Life.step stack s e = some s') : s'.SeesFlash := by
  cases e with
  | boot e =>
    obtain ⟨b, hb, rfl⟩ := Option.map_eq_some_iff.1 hs
    have hseen := h (Boot.fault_of_step hb)
    intro hf
    cases Boot.steps_of_step hb with
    | begins => exact hseen
    | breaks | aborts => cases hf
    | acts hhandling ha =>
      simp only [Flash.after, hhandling]
      exact Flash.seen_called hseen ha
    | returns hhandling =>
      simp only [Flash.after, hhandling]
      exact hseen
    | main hmain =>
      rw [(Boot.frame_mainStep hmain).1]
      exact hseen
  | persist k =>
    obtain ⟨v, hv, rfl⟩ := Option.map_eq_some_iff.1 hs
    intro hf
    rw [h hf]
    refine congrArg (Nvs.mk s.flash.durable.created) (funext fun k' => ?_)
    by_cases hk : k' = k
    · simp [hk, hv]
    · simp [hk, Nvs.value_put_of_ne]
  | restart calls serverStarted =>
    cases hs
    obtain ⟨m, -, hrestart | hrestart⟩ := restart_cases s.flash.durable calls serverStarted
    · rw [hrestart]
      exact fun _ => rfl
    · rw [hrestart]
      exact nofun

/-- The flash after any number of boots. -/
structure FlashSound (n : Nvs) (es : List Event) (s : Life) : Prop where
  /-- A string in flash was found there at first or submitted under its key. -/
  origin (k : Key) (v : Bytes) : s.flash.durable.value k = some v → Origin n es k v
  /-- Reading the credentials back stays inside the arrays. -/
  inside : ReadsBackInside s.boot.device
  /-- With nothing pending, the program sees what a restart finds. -/
  seen : s.boot.fault = none → (∀ k, s.flash.pending k = none) →
    s.boot.device.nvs = s.flash.durable

/-- **What is in flash after any boots**, however they have ended. -/
theorem flash_sound_of_run (hn : ∀ k v, n.value k = some v → v.length < arrayLength k)
    (hes : ∀ r, .boot (.request r) ∈ es → Terminates r.env.queryKeyValue)
    (hrun : run (step stack) (start n serverStarted) es = some s) : FlashSound n es s := by
  have hall := allStrings_of_run hrun
  have hfits {k : Key} {v : Bytes} (h : Origin n es k v) : v.length < arrayLength k := by
    rcases h with h | ⟨r, hr, c, hc, rfl⟩
    · exact hn k v h
    · have hregular : r.working.Regular := ⟨fun _ => rfl, hes r hr⟩
      exact Credentials.fits_iff.1 (hregular.fits hc).1 k
  have hseen : s.SeesFlash :=
    (throughout_of_invariant (fun _ _ _ h hs => h.step hs) (fun _ => rfl) es).last hrun
  refine ⟨hall.flash.durable, ?_, fun hf hp => ?_⟩
  · refine ⟨fun k v hv => hfits (hall.device k v hv), fun ssid password hostIp hnone => ?_,
      fun ssid password hostIp c hc => ?_⟩
    · exact exec_retrieveCredentials_of_missing hnone ssid password hostIp
    · have hholds := Nvs.found_eq_some_iff.1 hc
      exact exec_retrieveCredentials_filled hholds ssid password hostIp
        (hfits (hall.device _ _ hholds.ssid)) (hfits (hall.device _ _ hholds.password))
        (hfits (hall.device _ _ hholds.hostip))
  · rw [hseen hf]
    simp [Flash.seen, hp]

/-- A submission that is stored, and another one of which the name is. -/
def brokenOff : List Boot.Event :=
  .request plainRequest :: List.replicate 8 .httpd ++ [.request brokenRequest, .httpd, .httpd]

/-- A boot that loses its power when the name is durable, and the next one, with a submission of its
own. -/
def twoBoots : List Event :=
  brokenOff.map .boot ++ .persist .ssid :: .restart ⟨.ok, .ok, .ok⟩ true ::
    (setupRun.drop 9).map .boot

theorem terminates_of_mem {r : Request} (h : .boot (.request r) ∈ twoBoots) :
    Terminates r.env.queryKeyValue := by
  have hr : r = plainRequest ∨ r = brokenRequest ∨ r = plainRequest := by
    simpa [brokenOff, twoBoots, setupRun] using h
  rcases hr with rfl | rfl | rfl <;> exact scanQuery_contract.terminates

/-- The name of one submission and the password of another are found, and have been submitted. -/
theorem flash_sound_broken_off :
    ∃ s, run (step dirtyStack) (start blank.nvs true) (twoBoots.take 13) = some s ∧
      s.flash.durable.found =
        some ⟨List.replicate 31 0x61, ascii "sol & mar", ascii "192.168.0.10"⟩ ∧
      FlashSound blank.nvs (twoBoots.take 13) s := by
  have hrun : ((run (step dirtyStack) (start blank.nvs true) (twoBoots.take 13)).any fun s =>
      s.flash.durable.found =
        some ⟨List.replicate 31 0x61, ascii "sol & mar", ascii "192.168.0.10"⟩) = true := by
    decide +kernel
  obtain ⟨s, hs, hfound⟩ := (Option.any_eq_true _ _).1 hrun
  exact ⟨s, hs, of_decide_eq_true hfound, flash_sound_of_run nofun
    (fun r hr => terminates_of_mem (List.mem_of_mem_take hr)) hs⟩

/-- The next boot finds this mix, and uses its own submission. -/
theorem uses_one_submission_next_boot :
    ∃ s l, run (step dirtyStack) (start blank.nvs true) twoBoots = some s ∧
      s.boot.main = .started l ∧ UsesOne twoBoots s := by
  have hrun : ((run (step dirtyStack) (start blank.nvs true) twoBoots).any
      fun s => s.boot.main.left = 0) = true := by decide +kernel
  obtain ⟨s, hs, hleft⟩ := (Option.any_eq_true _ _).1 hrun
  obtain ⟨l, hl⟩ := MainTask.left_eq_zero_iff.1 (of_decide_eq_true hleft)
  exact ⟨s, l, hs, hl, uses_one_submission (fun _ => terminates_of_mem) hs⟩

end Life

end

end HomeAssistant
