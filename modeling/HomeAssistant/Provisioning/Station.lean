import HomeAssistant.Provisioning.Credentials

/-!
# The configuration of the station

`wifi_init_sta` starts the network interface as a station of the network whose credentials are in
flash. This module has its first part: the credentials are read into arrays on the stack and copied
into the configuration with `strncpy`.
-/

namespace HomeAssistant

/-- `SSID_LENGTH`. -/
abbrev ssidLength : ℕ := 32

/-- `PASSWORD_LENGTH`. -/
abbrev passwordLength : ℕ := 64

/-- `HOST_IP_LENGTH`. -/
abbrev hostIpLength : ℕ := 64

/-- The fields of `wifi_config.sta` that the credentials go to. -/
structure StaConfig where
  ssid : Buffer 32
  password : Buffer 64
  deriving DecidableEq

/-- `wifi_init_sta` up to the two copies into `wifi_config.sta`. The arrays that the credentials
are read into are not initialised: `stack` is what they contain. -/
def staConfig (stack : (n : ℕ) → Buffer n) : Eff Device StaConfig := do
  let (_, ssid, password, _) ← retrieveCredentials (some (stack ssidLength))
    (some (stack passwordLength)) (some (stack hostIpLength))
  let ssid := ssid.getD (stack ssidLength)
  let password := password.getD (stack passwordLength)
  let staSsid ← Eff.lift ((Buffer.zeros 32).strncpy ssid.bytes ssidLength)
  let staPassword ← Eff.lift ((Buffer.zeros 64).strncpy password.bytes passwordLength)
  return ⟨staSsid, staPassword⟩

/-- Credentials that fit the arrays they are read into. -/
structure Credentials.Fits (c : Credentials) : Prop where
  ssid : c.ssid.length < ssidLength
  password : c.password.length < passwordLength
  hostIp : c.hostIp.length < hostIpLength

/-- **The configuration made from stored credentials** that fit. -/
theorem exec_staConfig {d : Device} {c : Credentials} (h : d.nvs.Holds c) (hc : c.Fits)
    (stack : (n : ℕ) → Buffer n) : (staConfig stack).exec d =
      (.ok ⟨Buffer.padded 32 (cstr c.ssid), Buffer.padded 64 (cstr c.password)⟩, d) := by
  have fit : ∀ {n : ℕ} {s : Bytes}, s.length < n → ∃ b, (stack n).write (s ++ [0]) = .ok b :=
    fun hlt => ⟨_, (stack _).write_of_le (by simp; omega)⟩
  obtain ⟨ssid, hs⟩ := fit hc.ssid
  obtain ⟨password, hp⟩ := fit hc.password
  obtain ⟨hostIp, hh⟩ := fit hc.hostIp
  have hs' : cstr ssid.bytes = cstr c.ssid := Buffer.str_write_terminated hs
  have hp' : cstr password.bytes = cstr c.password := Buffer.str_write_terminated hp
  simp only [staConfig, Eff.exec_bind, exec_retrieveCredentials h hs hp hh, Option.getD_some,
    Buffer.strncpy_size, Eff.exec_lift, Eff.exec_pure, hs', hp']

end HomeAssistant
