import HomeAssistant.Provisioning.QueryScan
import HomeAssistant.Provisioning.Station

/-!
# From the form to the station

What a user submits passes through the handler, the flash and `wifi_init_sta` before the radio uses
it. For a form that is delivered whole, the station is configured with the passphrase that was
submitted exactly if the cut of its encoded value to 63 bytes does no harm
(`password_reaches_station_iff`), and the network name and the host arrive exactly if they were
submitted as they are and fit (`name_and_host_arrive_iff`): the handler decodes the password and
neither of the other two.
-/

namespace HomeAssistant

open Form

/-- A form that is delivered whole to a run of the handler that completes. -/
structure Submitted (env : PostEnv) (contentLen : UInt32) (fs : List Field) (d d' : Device) :
    Prop where
  wellFormed : ∀ f ∈ fs, f.WellFormed
  length : contentLen.toNat = (formText fs).length
  delivered : ∃ h, env.recv contentLen.toNat = .received (formText fs) h
  completed : (postHandler env contentLen).exec d = (.ok .ok, d')

section

variable {same : Bytes → Bytes → Bool} {fs : List Field}

theorem formCredentials_fits : (formCredentials same fs).Fits where
  ssid := by
    simp only [formCredentials, List.length_take, ssidLength]
    omega
  password := by
    have h₁ := length_cstr_le (decode ((fieldValue same fs .password).take 63))
    have h₂ := length_decode_le ((fieldValue same fs .password).take 63)
    simp only [formCredentials, List.length_take, passwordLength] at h₁ h₂ ⊢
    omega
  hostIp := by
    simp only [formCredentials, List.length_take, hostIpLength]
    omega

theorem zero_notMem_password : 0 ∉ (formCredentials same fs).password := zero_notMem_cstr _

variable {env : PostEnv} {contentLen : UInt32} {d d' : Device}

/-- **A submission stores the credentials in the form.** -/
theorem Submitted.eq_provisioned (hs : Submitted env contentLen fs d d')
    (hkv : QueryContract env.queryKeyValue same) (hf : FlashWorks env.flash) :
    d' = d.provisioned (formCredentials same fs) := by
  obtain ⟨_, hr⟩ := hs.delivered
  have h0 := zero_notMem_formText hs.wellFormed
  rw [postHandler_completed hkv.terminates hf hr hs.completed, cstr_of_zero_notMem h0, formText,
    credentialsOf_queryText hkv hs.wellFormed (by simp)]

theorem Submitted.exec_staConfig (hs : Submitted env contentLen fs d d')
    (hkv : QueryContract env.queryKeyValue same) (hf : FlashWorks env.flash)
    (stack : (n : ℕ) → Buffer n) : (staConfig stack).exec d' =
      (.ok ⟨Buffer.padded 32 (formCredentials same fs).ssid,
        Buffer.padded 64 (formCredentials same fs).password⟩, d') := by
  have hholds : d'.nvs.Holds (formCredentials same fs) := by
    rw [hs.eq_provisioned hkv hf]
    exact Nvs.holds_putCredentials _ _
  have hssid : 0 ∉ (formCredentials same fs).ssid := fun h =>
    zero_notMem_fieldValue hs.wellFormed .ssid (List.mem_of_mem_take h)
  rw [HomeAssistant.exec_staConfig hholds formCredentials_fits, cstr_of_zero_notMem hssid,
    cstr_of_zero_notMem zero_notMem_password]

theorem submitted_setupEnv (fs : List Field) (hfs : ∀ f ∈ fs, f.WellFormed)
    (hne : formText fs ≠ []) (hlen : (formText fs).length + 1 < 2 ^ 32) (d : Device) :
    Submitted (setupEnv (formText fs)) (UInt32.ofNat (formText fs).length) fs d
      (d.provisioned (formCredentials (· == ·) fs)) := by
  have hc : (UInt32.ofNat (formText fs).length).toNat = (formText fs).length :=
    UInt32.toNat_ofNat_of_lt' (by simp only [UInt32.size]; omega)
  have hr : (setupEnv (formText fs)).recv (UInt32.ofNat (formText fs).length).toNat =
      .received (formText fs) (by omega) := dif_pos (by omega)
  refine ⟨hfs, hc, ⟨_, hr⟩, ?_⟩
  have hm : (setupEnv (formText fs)).malloc (UInt32.ofNat (formText fs).length + 1).toNat =
      some (Buffer.zeros _) := rfl
  rw [exec_postHandler_of_received _ hm hr hne (by omega) scanQuery_contract.terminates
    (setupEnv_flashWorks _), cstr_of_zero_notMem (zero_notMem_formText hfs)]
  show (_, d.provisioned (credentialsOf scanQuery (queryText fs none))) = _
  rw [credentialsOf_queryText scanQuery_contract hfs (by simp)]

/-! ## The password -/

/-- **When the passphrase reaches the station**: exactly if its encoding has at most 63 bytes, or is
cut to 63 bytes inside an escaped percent sign so that what is left still spells the passphrase. -/
theorem password_reaches_station_iff (hs : Submitted env contentLen fs d d')
    (hkv : QueryContract env.queryKeyValue same) (hf : FlashWorks env.flash) {p e : Bytes}
    (hp : 8 ≤ p.length ∧ p.length ≤ 63) (h0 : 0 ∉ p) (he : Encodes e p)
    (hfield : lookup same fs Key.password.name = some e) (stack : (n : ℕ) → Buffer n) :
    ((staConfig stack).exec d').1.map StaConfig.password = .ok (Buffer.padded 64 p) ↔
      e.length ≤ 63 ∨ CutEscape (e.take 63) (e.drop 63) := by
  have hlen := (formCredentials_fits : (formCredentials same fs).Fits).password
  have hstored : (formCredentials same fs).password = cstr (decode (e.take 63)) := by
    rw [formCredentials, fieldValue_of_lookup hfield]
  rw [hs.exec_staConfig hkv hf, ← cstr_decode_take_iff he h0, ← hstored]
  simp only [Except.map, Except.ok.injEq]
  exact Buffer.padded_inj zero_notMem_password h0 (Nat.le_of_lt hlen) (by omega)

end

/-- A device that has not been set up. -/
def blank : Device := ⟨⟨false, fun _ => none⟩, 0, []⟩

/-- The fields of the setup form, with these values. -/
def setupForm (ssid password hostIp : Bytes) : List Field :=
  [⟨Key.ssid.name, ssid⟩, ⟨Key.password.name, password⟩, ⟨Key.hostip.name, hostIp⟩]

/-- A form with an encoded passphrase. -/
def plainForm : List Field :=
  setupForm (ascii "casa") (ascii "sol+%26+mar") (ascii "192.168.0.10")

theorem submitted_plainForm : Submitted (setupEnv (formText plainForm))
    (UInt32.ofNat (formText plainForm).length) plainForm blank
    (blank.provisioned (formCredentials (· == ·) plainForm)) :=
  submitted_setupEnv _ (by decide) (by decide) (by decide) blank

/-- The passphrase `sol & mar` reaches the station. -/
theorem password_reaches_station_plain :
    ((staConfig Buffer.zeros).exec
        (blank.provisioned (formCredentials (· == ·) plainForm))).1.map StaConfig.password =
      .ok (Buffer.padded 64 (ascii "sol & mar")) :=
  (password_reaches_station_iff submitted_plainForm scanQuery_contract (setupEnv_flashWorks _)
    (by decide) (by decide)
    (by decide) rfl Buffer.zeros).2 (Or.inl (by decide))

/-- A passphrase of 22 letters. -/
def longPassword : Bytes := List.replicate 22 0x61

/-- A form in which every letter of the passphrase is escaped. -/
def longForm : List Field :=
  setupForm (ascii "casa") ((List.replicate 22 (ascii "%61")).flatten) (ascii "192.168.0.10")

theorem submitted_longForm : Submitted (setupEnv (formText longForm))
    (UInt32.ofNat (formText longForm).length) longForm blank
    (blank.provisioned (formCredentials (· == ·) longForm)) :=
  submitted_setupEnv _ (by decide) (by decide) (by decide) blank

/-- With its 22 letters escaped a passphrase loses the last one. -/
theorem escaped_password_lost :
    Submitted (setupEnv (formText longForm)) (UInt32.ofNat (formText longForm).length) longForm
        blank (blank.provisioned (formCredentials (· == ·) longForm)) ∧
      QueryContract (setupEnv (formText longForm)).queryKeyValue (· == ·) ∧
      FlashWorks (setupEnv (formText longForm)).flash ∧
      (8 ≤ longPassword.length ∧ longPassword.length ≤ 63) ∧ 0 ∉ longPassword ∧
      (∃ e, Encodes e longPassword ∧ lookup (· == ·) longForm Key.password.name = some e) ∧
      ((staConfig Buffer.zeros).exec
          (blank.provisioned (formCredentials (· == ·) longForm))).1.map StaConfig.password ≠
        .ok (Buffer.padded 64 longPassword) := by
  refine ⟨submitted_longForm, scanQuery_contract, setupEnv_flashWorks _, by decide, by decide,
    ⟨_, by decide, rfl⟩, ?_⟩
  rw [submitted_longForm.exec_staConfig scanQuery_contract (setupEnv_flashWorks _)]
  simp only [Except.map, ne_eq, Except.ok.injEq]
  rw [Buffer.padded_inj zero_notMem_password (by decide)
    (Nat.le_of_lt formCredentials_fits.password) (by decide)]
  decide

/-! ## The network name and the host -/

/-- The encoded value `e` arrives as the text `s` without being decoded, in a buffer for `cap`
bytes: it is the text itself, or it continues a text that fills the buffer. -/
def ArrivesPlain (cap : ℕ) (e s : Bytes) : Prop :=
  e = s ∧ s.length ≤ cap ∨ s.length = cap ∧ s <+: e

instance (cap : ℕ) (e s : Bytes) : Decidable (ArrivesPlain cap e s) :=
  inferInstanceAs (Decidable (_ ∧ _ ∨ _ ∧ _))

theorem take_eq_iff_arrivesPlain {cap : ℕ} {e s : Bytes} :
    e.take cap = s ↔ ArrivesPlain cap e s := by
  constructor
  · rintro rfl
    by_cases h : e.length ≤ cap
    · exact Or.inl ⟨(List.take_of_length_le h).symm, by rw [List.length_take]; omega⟩
    · exact Or.inr ⟨by rw [List.length_take]; omega, List.take_prefix cap e⟩
  · rintro (⟨rfl, h⟩ | ⟨h, t, rfl⟩)
    · exact List.take_of_length_le h
    · rw [← h, List.take_left]

section

variable {same : Bytes → Bytes → Bool} {fs : List Field} {env : PostEnv} {contentLen : UInt32}
  {d d' : Device}

/-- **When the network name and the host arrive**: exactly if they were submitted without any
escape and fit, the name in 31 bytes, the host in 63 (or their first 31 or 63 bytes happen to be
what was meant). -/
theorem name_and_host_arrive_iff (hs : Submitted env contentLen fs d d')
    (hkv : QueryContract env.queryKeyValue same) (hf : FlashWorks env.flash)
    {s h es eh : Bytes} (_ : Encodes es s) (_ : Encodes eh h)
    (hssid : lookup same fs Key.ssid.name = some es)
    (hhostip : lookup same fs Key.hostip.name = some eh) (stack : (n : ℕ) → Buffer n) :
    (d'.nvs.value .ssid = some s ∧ d'.nvs.value .hostip = some h ∧
        ((staConfig stack).exec d').1.map StaConfig.ssid = .ok (Buffer.padded 32 s)) ↔
      ArrivesPlain 31 es s ∧ ArrivesPlain 63 eh h := by
  have hholds : d'.nvs.Holds (formCredentials same fs) := by
    rw [hs.eq_provisioned hkv hf]
    exact Nvs.holds_putCredentials _ _
  have hes' : (formCredentials same fs).ssid = es.take 31 := by
    rw [formCredentials, fieldValue_of_lookup hssid]
  have heh' : (formCredentials same fs).hostIp = eh.take 63 := by
    rw [formCredentials, fieldValue_of_lookup hhostip]
  rw [hs.exec_staConfig hkv hf, hholds.ssid, hholds.hostip, ← take_eq_iff_arrivesPlain,
    ← take_eq_iff_arrivesPlain, ← hes', ← heh']
  simp only [Except.map, Except.ok.injEq, Option.some.injEq]
  constructor
  · rintro ⟨h₁, h₂, -⟩
    exact ⟨h₁, h₂⟩
  · rintro ⟨h₁, h₂⟩
    exact ⟨h₁, h₂, by rw [h₁]⟩

end

/-- The name `casa` and the host `192.168.0.10` arrive. -/
theorem name_and_host_arrive_plain :
    (blank.provisioned (formCredentials (· == ·) plainForm)).nvs.value .ssid =
        some (ascii "casa") ∧
      (blank.provisioned (formCredentials (· == ·) plainForm)).nvs.value .hostip =
        some (ascii "192.168.0.10") ∧
      ((staConfig Buffer.zeros).exec
          (blank.provisioned (formCredentials (· == ·) plainForm))).1.map StaConfig.ssid =
        .ok (Buffer.padded 32 (ascii "casa")) :=
  (name_and_host_arrive_iff submitted_plainForm scanQuery_contract (setupEnv_flashWorks _)
    (by decide) (by decide) rfl rfl Buffer.zeros).2 (by decide)

/-- A form with a space in the network name. -/
def spacedForm : List Field :=
  setupForm (ascii "Minha+Casa") (ascii "segredo99") (ascii "192.168.0.10")

theorem submitted_spacedForm : Submitted (setupEnv (formText spacedForm))
    (UInt32.ofNat (formText spacedForm).length) spacedForm blank
    (blank.provisioned (formCredentials (· == ·) spacedForm)) :=
  submitted_setupEnv _ (by decide) (by decide) (by decide) blank

/-- The network `Minha Casa` is stored as `Minha+Casa`. -/
theorem spaced_name_lost :
    Submitted (setupEnv (formText spacedForm)) (UInt32.ofNat (formText spacedForm).length)
        spacedForm blank (blank.provisioned (formCredentials (· == ·) spacedForm)) ∧
      QueryContract (setupEnv (formText spacedForm)).queryKeyValue (· == ·) ∧
      FlashWorks (setupEnv (formText spacedForm)).flash ∧
      Encodes (ascii "Minha+Casa") (ascii "Minha Casa") ∧
      lookup (· == ·) spacedForm Key.ssid.name = some (ascii "Minha+Casa") ∧
      Encodes (ascii "192.168.0.10") (ascii "192.168.0.10") ∧
      lookup (· == ·) spacedForm Key.hostip.name = some (ascii "192.168.0.10") ∧
      (blank.provisioned (formCredentials (· == ·) spacedForm)).nvs.value .ssid =
        some (ascii "Minha+Casa") ∧
      (blank.provisioned (formCredentials (· == ·) spacedForm)).nvs.value .ssid ≠
        some (ascii "Minha Casa") :=
  ⟨submitted_spacedForm, scanQuery_contract, setupEnv_flashWorks _, by decide, rfl, by decide,
    rfl, by decide, by decide⟩

end HomeAssistant
