import HomeAssistant.Provisioning.Handover

/-!
# From the form to the network

What a user types into the setup form is encoded by the browser, stored by the web server, read back
by `wifi_init_sta` and copied into the configuration of the radio; the host is read back once more
by each task that talks to it (`taskHost`). The way of the three strings is followed through every
run of the hand-over, with any requests before the one that counts and any results of the storage
calls: the device uses what was typed exactly if the name and the host were submitted as they are
and fit, and the cut of the encoded password does no harm (`setup_arrives_iff`). What the cut leaves
to a user who does not know how the browser encodes is a password of 21 bytes
(`passwords_come_through_iff`).
-/

namespace HomeAssistant

open Machine Form

/-- `wifi_init_sta` behind `retrieve_credentials`: its arrays are copied into `wifi_config.sta`. -/
def Locals.config (l : Locals) : Except Fault StaConfig := do
  let staSsid ← (Buffer.zeros 32).strncpy (l.array .ssid).bytes ssidLength
  let staPassword ← (Buffer.zeros 64).strncpy (l.array .password).bytes passwordLength
  return ⟨staSsid, staPassword⟩

/-- The start of a task that talks to the host: `host_ip`, which is not initialised, when
`retrieve_credentials` has been called for it alone. -/
def taskHost (hostIp : Buffer hostIpLength) : Eff Device (Buffer hostIpLength) := do
  let (_, _, _, out) ← retrieveCredentials (none : Option (Buffer ssidLength))
    (none : Option (Buffer passwordLength)) (some hostIp)
  return out.getD hostIp

/-- A request that delivers a form whole. -/
structure Request.Delivers (r : Request) (same : Bytes → Bytes → Bool) (fs : List Field) :
    Prop where
  reads : QueryContract r.env.queryKeyValue same
  wellFormed : ∀ f ∈ fs, f.WellFormed
  nonempty : formText fs ≠ []
  length : r.contentLen.toNat = (formText fs).length
  small : (formText fs).length + 1 < 2 ^ 32
  memory : r.env.malloc (r.contentLen + 1).toNat ≠ none
  delivered : ∃ h, r.env.recv r.contentLen.toNat = .received (formText fs) h

/-- The field of a form for a text, as the browser has encoded it. -/
structure Typed (same : Bytes → Bytes → Bool) (fs : List Field) (k : Key) (encoded text : Bytes) :
    Prop where
  field : lookup same fs k.name = some encoded
  encodes : Encodes encoded text

/-- The network name and the password are those in the configuration of the radio, and the host is
that of the tasks. -/
structure Arrives (l : Locals) (d : Device) (hostIp : Buffer hostIpLength)
    (ssid password host : Bytes) : Prop where
  config : l.config.map (fun c => (c.ssid.str, c.password.str)) = .ok (ssid, password)
  host : ((taskHost hostIp).exec d).1.map Buffer.str = .ok host

/-! ## What a form stores -/

section

variable {env : PostEnv} {contentLen : UInt32} {same : Bytes → Bytes → Bool} {fs : List Field}

/-- What is received is prepared to be stored. -/
theorem exists_prepare {buf : Buffer (contentLen + 1).toNat} {data : Bytes}
    {h : data.length ≤ contentLen.toNat} (hm : env.malloc (contentLen + 1).toNat = some buf)
    (hr : env.recv contentLen.toNat = .received data h) (hne : data ≠ [])
    (hw : contentLen.toNat + 1 < 2 ^ 32) (hkv : Terminates env.queryKeyValue) :
    ∃ p, prepare env contentLen = .ok p ∧
      p.credentials = some (credentialsOf env.queryKeyValue (cstr data)) := by
  have hsize := toNat_add_one hw
  obtain ⟨buf', hterm, hstr⟩ :=
    buf.exists_terminate (show data.length < (contentLen + 1).toNat by omega)
  have hbody : receiveBody env contentLen = .ok (.inr buf') := by
    simp only [receiveBody, hm, hr, hne, if_false, hterm]
    rfl
  obtain ⟨dec, hdec⟩ := exists_write_urlDecode hkv buf'.str
  have hdecoded : dec.str = _ := Buffer.str_write_terminated hdec
  rw [urlDecode_eq] at hdecoded
  rw [← hstr]
  refine ⟨.form (env.queryKeyValue buf'.str Key.ssid.name 32 (Buffer.zeros 32)).2.bytes dec.bytes
    (env.queryKeyValue buf'.str Key.hostip.name 64 (Buffer.zeros 64)).2.bytes,
    bind_eq_ok.2 ⟨_, hbody, bind_eq_ok.2 ⟨dec, hdec, rfl⟩⟩, ?_⟩
  show some (⟨_, dec.str, _⟩ : Credentials) = _
  rw [hdecoded]
  rfl

theorem Request.Delivers.credentials {r : Request} (h : r.Delivers same fs) :
    r.credentials = some (formCredentials same fs) := by
  obtain ⟨buf, hm⟩ := Option.ne_none_iff_exists'.1 h.memory
  obtain ⟨_, hr⟩ := h.delivered
  obtain ⟨p, hp, hc⟩ := exists_prepare hm hr h.nonempty (by rw [h.length]; exact h.small)
    h.reads.terminates
  rw [Request.credentials, hp]
  show p.credentials = _
  rw [hc, cstr_of_zero_notMem (zero_notMem_formText h.wellFormed), formText,
    credentialsOf_queryText h.reads h.wellFormed (by simp)]

end

/-! ## What the device uses -/

/-- The arrays of `wifi_init_sta` are copied as far as they hold strings. -/
theorem config_of_receives {l : Locals} {c : Credentials} (h : l.Receives c)
    (hc : c.Fits) (h0 : ∀ k, 0 ∉ c.field k) :
    l.config.map (fun c => (c.ssid.str, c.password.str)) = .ok (c.ssid, c.password) := by
  have hs : cstr (l.array .ssid).bytes = c.ssid := str_of_prefix (h0 .ssid) (h .ssid)
  have hp : cstr (l.array .password).bytes = c.password :=
    str_of_prefix (h0 .password) (h .password)
  have hs' : (Buffer.padded 32 c.ssid).str = c.ssid :=
    Buffer.str_padded (h0 .ssid) (Nat.le_of_lt hc.ssid)
  have hp' : (Buffer.padded 64 c.password).str = c.password :=
    Buffer.str_padded (h0 .password) (Nat.le_of_lt hc.password)
  simp only [Locals.config, Buffer.strncpy_size, hs, hp]
  show Except.ok ((Buffer.padded 32 c.ssid).str, (Buffer.padded 64 c.password).str) = _
  rw [hs', hp']

theorem taskHost_of_holds {d : Device} {c : Credentials} (h : d.nvs.Holds c) (hc : c.Fits)
    (h0 : 0 ∉ c.hostIp) (hostIp : Buffer hostIpLength) :
    ((taskHost hostIp).exec d).1.map Buffer.str = .ok c.hostIp := by
  obtain ⟨_, _, out, hrun, -, -, hout⟩ := exec_retrieveCredentials_filled h
    (none : Option (Buffer ssidLength)) (none : Option (Buffer passwordLength)) (some hostIp)
    hc.ssid hc.password hc.hostIp
  obtain ⟨b, rfl⟩ := Option.isSome_iff_exists.1 hout.given
  rw [taskHost, Eff.exec_bind_of_ok hrun]
  have hstr : b.str = c.hostIp := str_of_prefix h0 (hout.string b rfl)
  exact congrArg Except.ok hstr

/-- What a boot has come to use is its last submission. -/
theorem Boot.Safe.arrives {s : Boot} {es : List Boot.Event} (h : s.Safe (lastSubmission es))
    (hes : ∀ r, .request r ∈ es → Terminates r.env.queryKeyValue) {l : Locals}
    (hl : s.main = .started l) : ∃ c, lastSubmission es = some c ∧
      ∀ hostIp, Arrives l s.device hostIp c.ssid c.password c.hostIp := by
  have hret : s.main.Retrieves := by rw [hl]; trivial
  have hsound := h.sound (h.fault_of_retrieves hret)
  obtain ⟨c, hc, hholds⟩ := hsound.holds_of_retrieves hret
  have hmain := hsound.main
  rw [MainSound, show s.working.main = .started l from hl] at hmain
  obtain ⟨-, c', hc', hreceives⟩ := hmain
  obtain rfl : c' = c := Option.some.inj (Eq.trans (Eq.symm hc') hc)
  rw [← lastSubmission_working] at hc'
  obtain ⟨hfits, hzero⟩ := lastSubmission_fits (regular_working hes) hc'
  exact ⟨c', hc, fun hostIp => ⟨config_of_receives hreceives hfits hzero,
    taskHost_of_holds hholds hfits (hzero .hostip) hostIp⟩⟩

theorem Arrives.eq_iff {l : Locals} {d : Device} {hostIp : Buffer hostIpLength}
    {ssid password host name passphrase address : Bytes}
    (h : Arrives l d hostIp ssid password host) : Arrives l d hostIp name passphrase address ↔
      ssid = name ∧ password = passphrase ∧ host = address := by
  constructor
  · intro h'
    have hpair := Except.ok.inj (h.config.symm.trans h'.config)
    exact ⟨congrArg Prod.fst hpair, congrArg Prod.snd hpair,
      Except.ok.inj (h.host.symm.trans h'.host)⟩
  · rintro ⟨rfl, rfl, rfl⟩
    exact h

section

variable {stack : Locals} {nvs : Nvs} {serverStarted : Bool} {pre post : List Boot.Event}
  {r : Request} {s : Boot} {l : Locals} {same : Bytes → Bytes → Bool} {fs : List Field}
  {name password host eName ePassword eHost : Bytes}

/-- **When the device uses what was typed**: exactly if the name and the host were submitted without
any escape and fit, and the encoded password is not cut or is cut inside an escaped percent sign. It
does not matter what was in flash, which requests came before and whether they were stored, or how
the tasks took turns. -/
theorem setup_arrives_iff
    (hes : ∀ r', .request r' ∈ pre ++ .request r :: post → Terminates r'.env.queryKeyValue)
    (hrun : run (Boot.step stack) (Boot.start nvs serverStarted) (pre ++ .request r :: post) =
      some s)
    (hmain : s.main = .started l) (hlast : lastSubmission post = none) (hr : r.Delivers same fs)
    (hname : Typed same fs .ssid eName name)
    (hpassword : Typed same fs .password ePassword password) (h0 : 0 ∉ password)
    (hhost : Typed same fs .hostip eHost host) (hostIp : Buffer hostIpLength) :
    Arrives l s.device hostIp name password host ↔
      ArrivesPlain 31 eName name ∧
        (ePassword.length ≤ 63 ∨ CutEscape (ePassword.take 63) (ePassword.drop 63)) ∧
        ArrivesPlain 63 eHost host := by
  have hsubmitted : lastSubmission (pre ++ .request r :: post) =
      some (formCredentials same fs) := by
    rw [lastSubmission_append, lastSubmission, hlast, hr.credentials]
    rfl
  obtain ⟨c, hc, harrives⟩ := (Boot.safe_run hes hrun).arrives hes hmain
  obtain rfl : formCredentials same fs = c := Option.some.inj (hsubmitted.symm.trans hc)
  have hs : (formCredentials same fs).ssid = eName.take 31 := by
    rw [formCredentials, fieldValue_of_lookup hname.field]
  have hp : (formCredentials same fs).password = cstr (decode (ePassword.take 63)) := by
    rw [formCredentials, fieldValue_of_lookup hpassword.field]
  have hh : (formCredentials same fs).hostIp = eHost.take 63 := by
    rw [formCredentials, fieldValue_of_lookup hhost.field]
  rw [(harrives hostIp).eq_iff, hs, hp, hh, take_eq_iff_arrivesPlain, take_eq_iff_arrivesPlain,
    cstr_decode_take_iff hpassword.encodes h0]

end

theorem delivers_plainRequest : plainRequest.Delivers (· == ·) plainForm where
  reads := scanQuery_contract
  wellFormed := by decide
  nonempty := by decide
  length := by decide
  small := by decide
  memory := Option.some_ne_none _
  delivered := submitted_plainForm.delivered

/-- Two requests, the first of them broken, and the hand-over. -/
def setupRun : List Boot.Event :=
  [.request brokenRequest] ++ List.replicate 8 .httpd ++
    .request plainRequest :: (List.replicate 8 .httpd ++ List.replicate 10 .main)

/-- The name `casa`, the passphrase `sol & mar` and the host `192.168.0.10` are used. -/
theorem setup_arrives_plain :
    ∃ s l, run (Boot.step dirtyStack) (Boot.start blank.nvs true) setupRun = some s ∧
      s.main = .started l ∧ Arrives l s.device (Buffer.zeros _) (ascii "casa")
        (ascii "sol & mar") (ascii "192.168.0.10") := by
  have hrun : ((run (Boot.step dirtyStack) (Boot.start blank.nvs true) setupRun).any
      fun s => s.main.left = 0) = true := by decide +kernel
  obtain ⟨s, hs, hleft⟩ := (Option.any_eq_true _ _).1 hrun
  obtain ⟨l, hl⟩ := MainTask.left_eq_zero_iff.1 (of_decide_eq_true hleft)
  have hes : ∀ r, .request r ∈ setupRun → Terminates r.env.queryKeyValue := by
    intro r hr
    have hr' : r = plainRequest ∨ r = brokenRequest := by simpa [setupRun, or_comm] using hr
    rcases hr' with rfl | rfl <;> exact scanQuery_contract.terminates
  have hname : Typed (· == ·) plainForm .ssid (ascii "casa") (ascii "casa") := ⟨rfl, by decide⟩
  have hpassword : Typed (· == ·) plainForm .password (ascii "sol+%26+mar")
      (ascii "sol & mar") := ⟨rfl, by decide⟩
  have hhost : Typed (· == ·) plainForm .hostip (ascii "192.168.0.10")
      (ascii "192.168.0.10") := ⟨rfl, by decide⟩
  exact ⟨s, l, hs, hl, (setup_arrives_iff hes hs hl rfl delivers_plainRequest hname hpassword
    (by decide) hhost _).2 ⟨by decide, Or.inl (by decide), by decide⟩⟩

/-! ## How long a password can be -/

/-- The password of `n` ampersands, as a browser has to encode it. -/
def ampersands (n : ℕ) : Bytes := (List.replicate n (ascii "%26")).flatten

/-- The setup form with this password. -/
def ampersandForm (n : ℕ) : List Field :=
  setupForm (ascii "casa") (ampersands n) (ascii "192.168.0.10")

/-- The request with this form. -/
def ampersandRequest (n : ℕ) : Request :=
  ⟨setupEnv (formText (ampersandForm n)), UInt32.ofNat (formText (ampersandForm n)).length⟩

theorem encodes_ampersands (n : ℕ) : Encodes (ampersands n) (List.replicate n ampersand) :=
  encodes_replicate_escape (by decide) (by decide) n

theorem length_ampersands (n : ℕ) : (ampersands n).length = 3 * n := by
  induction n with
  | zero => rfl
  | succ n ih =>
    rw [ampersands, List.replicate_succ, List.flatten_cons, List.length_append, ← ampersands, ih]
    show 3 + 3 * n = 3 * (n + 1)
    omega

theorem length_formText_ampersandForm (n : ℕ) :
    (formText (ampersandForm n)).length = 3 * n + 39 := by
  rw [ampersandForm, setupForm, formText_cons_cons, formText_cons_cons, formText,
    queryText_singleton]
  simp only [List.length_append, List.length_cons, Field.length_text, length_ampersands]
  show 4 + 4 + 1 + (8 + 3 * n + 1 + (6 + 12 + 1 + 1) + 1) = _
  omega

theorem wellFormed_ampersandForm (n : ℕ) : ∀ f ∈ ampersandForm n, f.WellFormed := by
  have hvalue : ∀ c ∈ ampersands n, c ∈ ascii "%26" := by
    intro c hc
    obtain ⟨x, hx, hc⟩ := List.mem_flatten.1 hc
    rwa [List.eq_of_mem_replicate hx] at hc
  have hpassword : Field.WellFormed ⟨Key.password.name, ampersands n⟩ :=
    ⟨show equals ∉ Key.password.name by decide, show ampersand ∉ Key.password.name by decide,
      show 0 ∉ Key.password.name by decide, fun h => absurd (hvalue _ h) (by decide),
      fun h => absurd (hvalue _ h) (by decide)⟩
  intro f hf
  simp only [ampersandForm, setupForm, List.mem_cons, List.not_mem_nil, or_false] at hf
  rcases hf with rfl | rfl | rfl
  · decide
  · exact hpassword
  · decide

theorem delivers_ampersandRequest {n : ℕ} (hn : 3 * n + 40 < 2 ^ 32) :
    (ampersandRequest n).Delivers (· == ·) (ampersandForm n) := by
  have hlen := length_formText_ampersandForm n
  have hne : formText (ampersandForm n) ≠ [] :=
    List.ne_nil_of_length_pos (by omega)
  have hs := submitted_setupEnv _ (wellFormed_ampersandForm n) hne (by omega) blank
  exact ⟨scanQuery_contract, wellFormed_ampersandForm n, hne, hs.length, by omega,
    Option.some_ne_none _, hs.delivered⟩

theorem take_ampersands {n : ℕ} (hn : 21 ≤ n) : (ampersands n).take 63 = ampersands 21 := by
  obtain ⟨k, rfl⟩ := Nat.exists_eq_add_of_le hn
  rw [ampersands, List.replicate_add, List.flatten_append]
  exact List.take_left' (length_ampersands 21)

/-- **How long a password can be**: every encoding of every password of `n` bytes comes through the
handler exactly if `n` is at most 21. -/
theorem passwords_come_through_iff {n : ℕ} (hn : 3 * n + 40 < 2 ^ 32) :
    (∀ (r : Request) (same : Bytes → Bytes → Bool) (fs : List Field) (e p : Bytes)
        (c : Credentials), r.Delivers same fs → Typed same fs .password e p → p.length = n →
        0 ∉ p → c ∈ r.credentials → c.password = p) ↔ n ≤ 21 := by
  constructor
  · intro h
    by_contra hlt
    have hr := delivers_ampersandRequest hn
    have htyped : Typed (· == ·) (ampersandForm n) .password (ampersands n)
        (List.replicate n ampersand) := ⟨rfl, encodes_ampersands n⟩
    have hzero : 0 ∉ List.replicate n ampersand :=
      fun h0 => absurd (List.eq_of_mem_replicate h0) (by decide)
    have hcut := h _ _ _ _ _ _ hr htyped List.length_replicate hzero hr.credentials
    rw [formCredentials, fieldValue_of_lookup htyped.field] at hcut
    -- of the `3 * n` bytes the handler keeps the first 63, which spell 21 ampersands
    have hleft : cstr (decode ((ampersands n).take 63)) = List.replicate 21 ampersand := by
      rw [take_ampersands (by omega), decode_of_encodes (encodes_ampersands 21)]
      rfl
    have hlen := congrArg List.length (hleft.symm.trans hcut)
    rw [List.length_replicate, List.length_replicate] at hlen
    omega
  · intro hle r same fs e p c hr htyped hlen h0 hc
    rw [hr.credentials] at hc
    cases hc
    rw [formCredentials, fieldValue_of_lookup htyped.field]
    have hshort := htyped.encodes.length_le_three_mul
    exact (cstr_decode_take_iff htyped.encodes h0 63).2 (Or.inl (by omega))

/-- The password of 21 ampersands comes through. -/
theorem twenty_one_ampersands_come_through :
    (ampersandRequest 21).credentials.map Credentials.password =
      some (List.replicate 21 ampersand) := by
  have hr := delivers_ampersandRequest (show 3 * 21 + 40 < 2 ^ 32 by decide)
  have hzero : 0 ∉ List.replicate 21 ampersand := by decide
  rw [hr.credentials]
  exact congrArg some ((passwords_come_through_iff (by decide)).2 (Nat.le_refl 21) _ _ _ _ _ _ hr
    ⟨rfl, encodes_ampersands 21⟩ rfl hzero hr.credentials)

end HomeAssistant
