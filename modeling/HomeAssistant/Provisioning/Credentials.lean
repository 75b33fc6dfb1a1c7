import HomeAssistant.Foundations.Effects
import HomeAssistant.Framework
import Mathlib.Data.Int.Notation

/-!
# The credentials in flash

The network credentials live in the namespace `wifi_config` of the non-volatile storage, under
three keys. `store_credentials` writes them one after another, `retrieve_credentials` reads them
back into the buffers of its caller; every error of a storage call but the commit's aborts the
program.

`exec_storeCredentials` and `exec_retrieveCredentials` say what the two do when the storage works.
-/

namespace HomeAssistant

/-- The keys of the namespace, which are also the names of the fields of the setup form. -/
inductive Key
  | ssid
  | password
  | hostip
  deriving DecidableEq

/-- The key as a C string. -/
def Key.name : Key → Bytes
  | .ssid => ascii "ssid"
  | .password => ascii "password"
  | .hostip => ascii "hostip"

/-- The namespace `wifi_config`: whether it exists, and the strings stored in it. -/
structure Nvs where
  created : Bool
  value : Key → Option Bytes

/-- What the web server sends back. -/
inductive Response
  | status500
  | status408
  | text (body : Bytes)
  deriving DecidableEq

/-- What the setup phase works on: the flash, the flag `sema5` and the responses sent. -/
structure Device where
  nvs : Nvs
  sema5 : ℤ
  sent : List Response

/-- The storage calls that can fail. -/
inductive NvsCall
  | openNamespace
  | setStr (k : Key)
  | commit
  deriving DecidableEq

/-- A set of credentials. -/
structure Credentials where
  ssid : Bytes
  password : Bytes
  hostIp : Bytes
  deriving DecidableEq

/-! ## Storing -/

/-- The namespace after a string is stored under a key. -/
def Nvs.put (n : Nvs) (k : Key) (v : Bytes) : Nvs :=
  { n with value := fun k' => if k' = k then some v else n.value k' }

@[simp] theorem Nvs.value_put_self (n : Nvs) (k : Key) (v : Bytes) :
    (n.put k v).value k = some v :=
  if_pos rfl

theorem Nvs.value_put_of_ne (n : Nvs) {k k' : Key} (h : k' ≠ k) (v : Bytes) :
    (n.put k v).value k' = n.value k' :=
  if_neg h

/-- The namespace after a set of credentials is stored. -/
def Nvs.putCredentials (n : Nvs) (c : Credentials) : Nvs :=
  ((({ n with created := true }).put .ssid c.ssid).put .password c.password).put .hostip c.hostIp

/-- The device after a set of credentials is stored. -/
def Device.store (d : Device) (c : Credentials) : Device :=
  { d with nvs := d.nvs.putCredentials c }

/-- `ESP_ERROR_CHECK`. -/
def espErrorCheck : EspErr → Eff Device Unit
  | .ok => pure ()
  | _ => throw .abort

variable (flash : NvsCall → EspErr)

/-- `nvs_open("wifi_config", NVS_READWRITE, ..)`, which creates a missing namespace. -/
def nvsOpenReadWrite : Eff Device EspErr := do
  if flash .openNamespace = .ok then
    Eff.update fun d => { d with nvs := { d.nvs with created := true } }
  return flash .openNamespace

/-- `nvs_set_str`: stores a C string. -/
def nvsSetStr (k : Key) (s : Bytes) : Eff Device EspErr := do
  if flash (.setStr k) = .ok then
    Eff.update fun d => { d with nvs := d.nvs.put k (cstr s) }
  return flash (.setStr k)

/-- `nvs_commit`. -/
def nvsCommit : Eff Device EspErr := pure (flash .commit)

/-- `store_credentials`. -/
def storeCredentials (ssid password hostIp : Bytes) : Eff Device Unit := do
  espErrorCheck (← nvsOpenReadWrite flash)
  espErrorCheck (← nvsSetStr flash .ssid ssid)
  espErrorCheck (← nvsSetStr flash .password password)
  espErrorCheck (← nvsSetStr flash .hostip hostIp)
  -- the result of the commit is not looked at
  let _ ← nvsCommit flash

/-- The storage calls all succeed. -/
def FlashWorks : Prop := ∀ c, flash c = .ok

variable {flash}

/-- **Storing credentials**, with a storage that works. -/
theorem exec_storeCredentials (h : FlashWorks flash) (ssid password hostIp : Bytes) (d : Device) :
    (storeCredentials flash ssid password hostIp).exec d =
      (.ok (), d.store ⟨cstr ssid, cstr password, cstr hostIp⟩) := by
  have ho := h .openNamespace
  have hs := fun k => h (.setStr k)
  simp [storeCredentials, nvsOpenReadWrite, nvsSetStr, nvsCommit, Eff.exec_bind, ho, hs,
    espErrorCheck, Device.store, Nvs.putCredentials]

/-! ## Retrieving -/

/-- `nvs_open("wifi_config", NVS_READONLY, ..)`, which fails on a missing namespace. -/
def nvsOpenReadOnly : Eff Device EspErr := do
  let d ← get
  return if d.nvs.created then .ok else .errNvsNotFound

/-- `nvs_get_str` with no buffer: the size of the string with its terminator. -/
def nvsGetSize (k : Key) : Eff Device (EspErr × ℕ) := do
  let d ← get
  match d.nvs.value k with
  | none => return (.errNvsNotFound, 0)
  | some v => return (.ok, v.length + 1)

/-- `nvs_get_str` into a buffer (or none) that is said to have `size` bytes. -/
def nvsGetStr {n : ℕ} (k : Key) (out : Option (Buffer n)) (size : ℕ) :
    Eff Device (EspErr × Option (Buffer n)) := do
  let d ← get
  match d.nvs.value k, out with
  | none, _ => return (.errNvsNotFound, out)
  | some _, none => return (.ok, none)
  | some v, some b =>
    if size < v.length + 1 then return (.errNvsInvalidLength, out)
    let b ← Eff.lift (b.write (v ++ [0]))
    return (.ok, some b)

/-- `retrieve_credentials`, into buffers of which each may be missing. The size passed with a
buffer is the size of the stored string. -/
def retrieveCredentials {l m n : ℕ} (ssid : Option (Buffer l)) (password : Option (Buffer m))
    (hostIp : Option (Buffer n)) :
    Eff Device (EspErr × Option (Buffer l) × Option (Buffer m) × Option (Buffer n)) := do
  espErrorCheck (← nvsOpenReadOnly)
  let (err, ssidSize) ← nvsGetSize .ssid
  espErrorCheck err
  let (err, passwordSize) ← nvsGetSize .password
  espErrorCheck err
  let (err, hostIpSize) ← nvsGetSize .hostip
  espErrorCheck err
  if ssidSize > 0 ∧ passwordSize > 0 then
    let (err, ssid) ← nvsGetStr .ssid ssid ssidSize
    espErrorCheck err
    let (err, password) ← nvsGetStr .password password passwordSize
    espErrorCheck err
    let (err, hostIp) ← nvsGetStr .hostip hostIp hostIpSize
    espErrorCheck err
    return (.ok, ssid, password, hostIp)
  return (.ok, ssid, password, hostIp)

/-- The namespace holds a complete set of credentials. -/
structure Nvs.Holds (n : Nvs) (c : Credentials) : Prop where
  created : n.created = true
  ssid : n.value .ssid = some c.ssid
  password : n.value .password = some c.password
  hostip : n.value .hostip = some c.hostIp

/-- **What is stored is held.** -/
theorem Nvs.holds_putCredentials (n : Nvs) (c : Credentials) : (n.putCredentials c).Holds c :=
  ⟨rfl, rfl, rfl, rfl⟩

theorem Nvs.Holds.unique {n : Nvs} {c c' : Credentials} (h : n.Holds c) (h' : n.Holds c') :
    c = c' := by
  obtain ⟨ssid, password, hostIp⟩ := c
  obtain ⟨ssid', password', hostIp'⟩ := c'
  have h₁ := h.ssid.symm.trans h'.ssid
  have h₂ := h.password.symm.trans h'.password
  have h₃ := h.hostip.symm.trans h'.hostip
  simp only [Option.some.injEq] at h₁ h₂ h₃
  rw [h₁, h₂, h₃]

theorem exec_nvsGetSize {d : Device} {k : Key} {v : Bytes} (h : d.nvs.value k = some v) :
    (nvsGetSize k).exec d = (.ok (.ok, v.length + 1), d) := by
  simp [nvsGetSize, Eff.exec_bind, h]

/-- Reading a stored string into a buffer, with the size of the string passed as the size. -/
theorem exec_nvsGetStr {d : Device} {k : Key} {v : Bytes} {n : ℕ} {b b' : Buffer n}
    (h : d.nvs.value k = some v) (hb : b.write (v ++ [0]) = .ok b') :
    (nvsGetStr k (some b) (v.length + 1)).exec d = (.ok (.ok, some b'), d) := by
  simp [nvsGetStr, Eff.exec_bind, h, hb]

/-- **Retrieving a complete set of credentials** copies each string into its buffer. -/
theorem exec_retrieveCredentials {d : Device} {c : Credentials} (h : d.nvs.Holds c) {l m n : ℕ}
    {ssid ssid' : Buffer l} {password password' : Buffer m} {hostIp hostIp' : Buffer n}
    (hs : ssid.write (c.ssid ++ [0]) = .ok ssid')
    (hp : password.write (c.password ++ [0]) = .ok password')
    (hh : hostIp.write (c.hostIp ++ [0]) = .ok hostIp') :
    (retrieveCredentials (some ssid) (some password) (some hostIp)).exec d =
      (.ok (.ok, some ssid', some password', some hostIp'), d) := by
  simp [retrieveCredentials, Eff.exec_bind, nvsOpenReadOnly, h.created, exec_nvsGetSize h.ssid,
    exec_nvsGetSize h.password, exec_nvsGetSize h.hostip, exec_nvsGetStr h.ssid hs,
    exec_nvsGetStr h.password hp, exec_nvsGetStr h.hostip hh, espErrorCheck]

end HomeAssistant
