import HomeAssistant.Provisioning.Fidelity
import HomeAssistant.Provisioning.HandlerSteps
import HomeAssistant.Provisioning.Retrieval

/-!
# What is stored fits

`retrieve_credentials` copies as many bytes as are stored, into arrays whose sizes it does not know.
The sizes that `post_handler` works with bound what it stores: the reader of query strings
terminates the values it cuts to 32, 64 and 64 bytes, and `url_decode` makes nothing longer. So
whatever was submitted, reading it back stays inside the arrays (`stored_credentials_fit`).
-/

namespace HomeAssistant

open Form

/-- The credentials that the handler gets out of a query string fit the arrays they are read back
into, whatever the query string. -/
theorem fits_credentialsOf {kv : QueryKeyValue} (hkv : Terminates kv) (query : Bytes) :
    (credentialsOf kv query).Fits := by
  have hlen : ∀ {n : ℕ} (k : Key), 0 < n →
      (kv query k.name n (Buffer.zeros n)).2.str.length < n := by
    intro n k hn
    have h0 : 0 ∈ (kv query k.name n (Buffer.zeros n)).2.bytes :=
      hkv query k.name n _ (List.mem_replicate.2 ⟨by omega, rfl⟩)
    have hlt := length_cstr_lt h0
    rwa [Buffer.length_bytes] at hlt
  have hpassword := hlen .password (show 0 < 64 by omega)
  have h₁ := length_cstr_le (decode (kv query Key.password.name 64 (Buffer.zeros 64)).2.str)
  have h₂ := length_decode_le (kv query Key.password.name 64 (Buffer.zeros 64)).2.str
  refine ⟨hlen .ssid (by omega), ?_, hlen .hostip (by omega)⟩
  simp only [credentialsOf, passwordLength]
  omega

/-- The namespace is empty, or what stands in it was written by calls of the handler; each of the
calls may be the last before the device is switched off. -/
inductive WrittenByHandler : Nvs → Prop
  | empty (created : Bool) : WrittenByHandler ⟨created, fun _ => none⟩
  | create {n : Nvs} : WrittenByHandler n → WrittenByHandler { n with created := true }
  | setStr {n : Nvs} {r : Request} {p : Prepared} {k : Key} {s : Bytes} :
    WrittenByHandler n → Terminates r.env.queryKeyValue →
    prepare r.env r.contentLen = .ok p → .setStr k s ∈ p.actions →
    WrittenByHandler (n.put k (cstr s))

theorem field_of_setStr_mem {p : Prepared} {k : Key} {s : Bytes} (h : .setStr k s ∈ p.actions) :
    ∃ c ∈ p.credentials, c.field k = cstr s := by
  cases p with
  | gaveUp response => simp [Prepared.actions] at h
  | form ssid password hostIp =>
    refine ⟨_, rfl, ?_⟩
    simp only [Prepared.actions, storeActions] at h
    cases k <;> simp_all [Credentials.field]

/-- **What the handler has written fits.** -/
theorem WrittenByHandler.length_lt {n : Nvs} (h : WrittenByHandler n) {k : Key} {v : Bytes}
    (hv : n.value k = some v) : v.length < arrayLength k := by
  induction h with
  | empty created => cases hv
  | create _ ih => exact ih hv
  | @setStr n r p k' s _ hkv hp hmem ih =>
    by_cases hk : k = k'
    · obtain ⟨c, hc, hfield⟩ := field_of_setStr_mem hmem
      obtain ⟨query, rfl⟩ := credentials_of_prepare hp c hc
      have hs : cstr s = v := by simpa [Nvs.put, hk] using hv
      rw [← hs, ← hfield, hk]
      exact Credentials.fits_iff.1 (fits_credentialsOf hkv query) k'
    · exact ih (by simpa [Nvs.put, hk] using hv)

/-- A call keeps the namespace as the handler writes it. -/
theorem WrittenByHandler.exec_perform {r : Request} {p : Prepared}
    (hkv : Terminates r.env.queryKeyValue) (hp : prepare r.env r.contentLen = .ok p)
    {as : List Action} (has : ∀ a ∈ as, a ∈ p.actions) {d : Device} (h : WrittenByHandler d.nvs) :
    WrittenByHandler ((perform r.env.flash as).exec d).2.nvs := by
  induction as generalizing d with
  | nil => exact h
  | cons a as ih =>
    rw [perform, Eff.exec_bind, Action.exec_exec]
    by_cases hs : a.Succeeds r.env.flash
    · rw [if_pos hs]
      refine ih (fun b hb => has b (List.mem_cons_of_mem _ hb)) ?_
      have ha := has a List.mem_cons_self
      cases a with
      | openNamespace => exact h.create
      | setStr k s => exact h.setStr hkv hp ha
      | commit => exact h
      | raiseSema5 => exact h
      | respond r => exact h
    · rw [if_neg hs]
      exact h

theorem WrittenByHandler.handle {r : Request} (hkv : Terminates r.env.queryKeyValue) {d : Device}
    (h : WrittenByHandler d.nvs) : WrittenByHandler (r.handle d).nvs := by
  rw [Request.handle_eq]
  cases hp : prepare r.env r.contentLen with
  | error f => exact h
  | ok p => exact h.exec_perform hkv hp fun a ha => ha

theorem WrittenByHandler.foldl_handle {rs : List Request}
    (hkv : ∀ r ∈ rs, Terminates r.env.queryKeyValue) {d : Device} (h : WrittenByHandler d.nvs) :
    WrittenByHandler (rs.foldl Request.handle d).nvs := by
  induction rs generalizing d with
  | nil => exact h
  | cons r rs ih =>
    exact ih (fun r' hr' => hkv r' (List.mem_cons_of_mem _ hr'))
      (h.handle (hkv r List.mem_cons_self))

/-! ## Reading it back -/

/-- What is stored fits the arrays it is read back into with its terminator. Reading it back, into
the arrays or some of them, aborts if a string is missing, and otherwise fills the arrays. -/
structure ReadsBackInside (d : Device) : Prop where
  fits (k : Key) (v : Bytes) : d.nvs.value k = some v → v.length + 1 ≤ arrayLength k
  missing (ssid : Option (Buffer ssidLength)) (password : Option (Buffer passwordLength))
    (hostIp : Option (Buffer hostIpLength)) : d.nvs.found = none →
      (retrieveCredentials ssid password hostIp).exec d = (.error .abort, d)
  found (ssid : Option (Buffer ssidLength)) (password : Option (Buffer passwordLength))
    (hostIp : Option (Buffer hostIpLength)) (c : Credentials) : d.nvs.found = some c →
      ∃ ssid' password' hostIp', (retrieveCredentials ssid password hostIp).exec d =
        (.ok (.ok, ssid', password', hostIp'), d) ∧ Filled c.ssid ssid ssid' ∧
          Filled c.password password password' ∧ Filled c.hostIp hostIp hostIp'

/-- **Stored credentials fit** the arrays they are read back into, after any requests. -/
theorem stored_credentials_fit {d : Device} (hd : WrittenByHandler d.nvs) {rs : List Request}
    (hkv : ∀ r ∈ rs, Terminates r.env.queryKeyValue) :
    ReadsBackInside (rs.foldl Request.handle d) ∧
      ∀ r ∈ rs, ∀ query, ∃ b, (Buffer.zeros 64).write
        (urlDecode (r.env.queryKeyValue query Key.password.name 64 (Buffer.zeros 64)).2.bytes ++
          [0]) = .ok b := by
  have hwritten := hd.foldl_handle hkv
  refine ⟨⟨fun k v hv => hwritten.length_lt hv, fun ssid password hostIp hnone => ?_,
    fun ssid password hostIp c hc => ?_⟩, fun r hr => exists_write_urlDecode (hkv r hr)⟩
  · exact exec_retrieveCredentials_of_missing hnone ssid password hostIp
  · have hholds := Nvs.found_eq_some_iff.1 hc
    exact exec_retrieveCredentials_filled hholds ssid password hostIp
      (hwritten.length_lt hholds.ssid) (hwritten.length_lt hholds.password)
      (hwritten.length_lt hholds.hostip)

/-- The body of a request with a network name that is too long, a broken escape and no host. -/
def brokenBody : Bytes := ascii "ssid=" ++ List.replicate 40 0x61 ++ ascii "&password=sol%4"

/-- A request with this body. -/
def brokenRequest : Request := ⟨setupEnv brokenBody, UInt32.ofNat brokenBody.length⟩

/-- The name is cut to 31 bytes, and reading it back stays inside the arrays. -/
theorem stored_credentials_fit_broken :
    ReadsBackInside ([brokenRequest].foldl Request.handle blank) ∧
      ([brokenRequest].foldl Request.handle blank).nvs.found =
        some ⟨List.replicate 31 0x61, ascii "sol%4", []⟩ := by
  refine ⟨(stored_credentials_fit (.empty false) fun r hr => ?_).1, by decide +kernel⟩
  rw [List.mem_singleton.1 hr]
  exact scanQuery_contract.terminates

end HomeAssistant
