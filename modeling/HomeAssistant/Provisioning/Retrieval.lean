import HomeAssistant.Provisioning.Station
import Mathlib.Logic.Function.Basic

/-!
# Reading the credentials back

What `retrieve_credentials` finds in flash is a complete set of credentials (`Nvs.found`) or not, in
which case it aborts. It copies each string by the size of the string, not of the array that the
caller passes (or does not pass), so the arrays are filled as they should be if the strings fit
(`exec_retrieveCredentials_filled`).

`wifi_init_sta` runs beside the task of the web server. `retrieveReads` are the calls of
`retrieve_credentials` on its arrays one by one, and `performReads_retrieveReads` says that together
they are the function.
-/

namespace HomeAssistant

/-- The length of the array that the string under a key is read into. -/
def arrayLength : Key → ℕ
  | .ssid => ssidLength
  | .password => passwordLength
  | .hostip => hostIpLength

/-- The string that is stored under a key. -/
def Credentials.field (c : Credentials) : Key → Bytes
  | .ssid => c.ssid
  | .password => c.password
  | .hostip => c.hostIp

theorem Credentials.fits_iff {c : Credentials} :
    c.Fits ↔ ∀ k, (c.field k).length < arrayLength k := by
  constructor
  · rintro h (_ | _ | _)
    · exact h.ssid
    · exact h.password
    · exact h.hostIp
  · intro h
    exact ⟨h .ssid, h .password, h .hostip⟩

theorem Nvs.holds_iff {n : Nvs} {c : Credentials} :
    n.Holds c ↔ n.created = true ∧ ∀ k, n.value k = some (c.field k) := by
  constructor
  · intro h
    refine ⟨h.created, ?_⟩
    rintro (_ | _ | _)
    · exact h.ssid
    · exact h.password
    · exact h.hostip
  · rintro ⟨hcreated, h⟩
    exact ⟨hcreated, h .ssid, h .password, h .hostip⟩

/-- The set of credentials in flash, if it is complete. -/
def Nvs.found (n : Nvs) : Option Credentials :=
  if n.created then
    match n.value .ssid, n.value .password, n.value .hostip with
    | some ssid, some password, some hostIp => some ⟨ssid, password, hostIp⟩
    | _, _, _ => none
  else none

theorem Nvs.found_eq_some_iff {n : Nvs} {c : Credentials} : n.found = some c ↔ n.Holds c := by
  constructor
  · intro h
    unfold found at h
    split_ifs at h with hcreated
    split at h
    next hs hp hh =>
      cases h
      exact ⟨hcreated, hs, hp, hh⟩
    next => cases h
  · intro h
    simp only [found, h.created, if_true, h.ssid, h.password, h.hostip]

theorem Nvs.found_eq_none_iff {n : Nvs} :
    n.found = none ↔ n.created = false ∨ ∃ k, n.value k = none := by
  constructor
  · intro h
    by_contra! hall
    obtain ⟨s, hs⟩ := Option.ne_none_iff_exists'.1 (hall.2 .ssid)
    obtain ⟨p, hp⟩ := Option.ne_none_iff_exists'.1 (hall.2 .password)
    obtain ⟨a, ha⟩ := Option.ne_none_iff_exists'.1 (hall.2 .hostip)
    have hfound := Nvs.found_eq_some_iff.2
      (show n.Holds ⟨s, p, a⟩ from ⟨by simpa using hall.1, hs, hp, ha⟩)
    rw [h] at hfound
    cases hfound
  · intro h
    cases hfound : n.found with
    | none => rfl
    | some c =>
      obtain ⟨hcreated, hvalue⟩ := Nvs.holds_iff.1 (Nvs.found_eq_some_iff.1 hfound)
      rcases h with h | ⟨k, hk⟩
      · rw [h] at hcreated
        cases hcreated
      · rw [hvalue k] at hk
        cases hk

/-! ## The whole function -/

/-- Where a buffer is given, it holds the string and its terminator in the end. -/
structure Filled {n : ℕ} (v : Bytes) (out out' : Option (Buffer n)) : Prop where
  given : out'.isSome = out.isSome
  string : ∀ b ∈ out', v ++ [0] <+: b.bytes

variable {d : Device} {c : Credentials} {l m n : ℕ}

/-- A buffer that begins with a terminated string holds the string. -/
theorem str_of_prefix {v : Bytes} (hv : 0 ∉ v) {b : Buffer n} (h : v ++ [0] <+: b.bytes) :
    b.str = v := by
  obtain ⟨r, hr⟩ := h
  rw [Buffer.str, ← hr, List.append_assoc, List.singleton_append, cstr_append_zero_cons,
    cstr_of_zero_notMem hv]

theorem exec_nvsGetSize_of_missing {k : Key} (h : d.nvs.value k = none) :
    (nvsGetSize k).exec d = (.ok (.errNvsNotFound, 0), d) := by
  simp only [nvsGetSize, Eff.exec_bind, Eff.exec_get, h, Eff.exec_pure]

theorem exec_nvsGetStr_filled {k : Key} {v : Bytes} (h : d.nvs.value k = some v)
    (out : Option (Buffer n)) (hv : v.length < n) :
    ∃ out', (nvsGetStr k out (v.length + 1)).exec d = (.ok (.ok, out'), d) ∧ Filled v out out' := by
  cases out with
  | none => exact ⟨none, by simp [nvsGetStr, Eff.exec_bind, h], rfl, by simp⟩
  | some b =>
    have hb := b.write_of_le (s := v ++ [0]) (by simp; omega)
    refine ⟨_, exec_nvsGetStr h hb, rfl, ?_⟩
    rintro _ ⟨⟩
    exact List.prefix_append _ _

/-- **Retrieving an incomplete set of credentials** aborts. -/
theorem exec_retrieveCredentials_of_missing (h : d.nvs.found = none) (ssid : Option (Buffer l))
    (password : Option (Buffer m)) (hostIp : Option (Buffer n)) :
    (retrieveCredentials ssid password hostIp).exec d = (.error .abort, d) := by
  have hopen : nvsOpenReadOnly.exec d =
      (.ok (if d.nvs.created then .ok else .errNvsNotFound), d) := rfl
  refine (Eff.exec_bind_of_ok hopen _).trans ?_
  cases hcreated : d.nvs.created with
  | false => rfl
  | true =>
    refine (Eff.exec_bind_of_ok rfl _).trans ?_
    -- the sizes are asked for first, so the first key that is missing ends the function
    cases hs : d.nvs.value .ssid with
    | none => exact (Eff.exec_bind_of_ok (exec_nvsGetSize_of_missing hs) _).trans rfl
    | some s =>
      refine (Eff.exec_bind_of_ok (exec_nvsGetSize hs) _).trans ?_
      refine (Eff.exec_bind_of_ok rfl _).trans ?_
      cases hp : d.nvs.value .password with
      | none => exact (Eff.exec_bind_of_ok (exec_nvsGetSize_of_missing hp) _).trans rfl
      | some p =>
        refine (Eff.exec_bind_of_ok (exec_nvsGetSize hp) _).trans ?_
        refine (Eff.exec_bind_of_ok rfl _).trans ?_
        cases hh : d.nvs.value .hostip with
        | none => exact (Eff.exec_bind_of_ok (exec_nvsGetSize_of_missing hh) _).trans rfl
        | some a =>
          have hfound := Nvs.found_eq_some_iff.2
            (show d.nvs.Holds ⟨s, p, a⟩ from ⟨hcreated, hs, hp, hh⟩)
          rw [h] at hfound
          cases hfound

/-- **Retrieving a complete set of credentials** that fits fills the arrays that are given. -/
theorem exec_retrieveCredentials_filled (h : d.nvs.Holds c) (ssid : Option (Buffer l))
    (password : Option (Buffer m)) (hostIp : Option (Buffer n)) (hs : c.ssid.length < l)
    (hp : c.password.length < m) (hh : c.hostIp.length < n) :
    ∃ ssid' password' hostIp', (retrieveCredentials ssid password hostIp).exec d =
      (.ok (.ok, ssid', password', hostIp'), d) ∧ Filled c.ssid ssid ssid' ∧
        Filled c.password password password' ∧ Filled c.hostIp hostIp hostIp' := by
  obtain ⟨ssid', hs', hsf⟩ := exec_nvsGetStr_filled h.ssid ssid hs
  obtain ⟨password', hp', hpf⟩ := exec_nvsGetStr_filled h.password password hp
  obtain ⟨hostIp', hh', hhf⟩ := exec_nvsGetStr_filled h.hostip hostIp hh
  refine ⟨ssid', password', hostIp', ?_, hsf, hpf, hhf⟩
  simp [retrieveCredentials, Eff.exec_bind, nvsOpenReadOnly, h.created, exec_nvsGetSize h.ssid,
    exec_nvsGetSize h.password, exec_nvsGetSize h.hostip, hs', hp', hh', espErrorCheck]

/-! ## Call by call -/

/-- The calls of `retrieve_credentials`. -/
inductive Read
  | openNamespace
  | askSize (k : Key)
  | copy (k : Key)
  deriving DecidableEq

/-- The sizes that `retrieve_credentials` asks for, and the arrays of its caller. -/
structure Locals where
  size : Key → ℕ
  array : (k : Key) → Buffer (arrayLength k)

/-- One call of `retrieve_credentials`. -/
def Read.exec (l : Locals) : Read → Eff Device Locals
  | .openNamespace => do
    espErrorCheck (← nvsOpenReadOnly)
    return l
  | .askSize k => do
    let (err, size) ← nvsGetSize k
    espErrorCheck err
    return { l with size := Function.update l.size k size }
  | .copy k => do
    if l.size .ssid > 0 ∧ l.size .password > 0 then
      let (err, out) ← nvsGetStr k (some (l.array k)) (l.size k)
      espErrorCheck err
      return { l with array := Function.update l.array k (out.getD (l.array k)) }
    return l

/-- The calls of `retrieve_credentials` one after another. -/
def performReads : List Read → Locals → Eff Device Locals
  | [], l => pure l
  | r :: rs, l => do
    let l ← r.exec l
    performReads rs l

/-- The calls of `retrieve_credentials` in their order. -/
def retrieveReads : List Read :=
  [.openNamespace, .askSize .ssid, .askSize .password, .askSize .hostip, .copy .ssid,
    .copy .password, .copy .hostip]

theorem readsOnly_espErrorCheck (err : EspErr) : (espErrorCheck err).ReadsOnly := by
  intro d
  cases err <;> rfl

theorem readsOnly_nvsGetSize (k : Key) : (nvsGetSize k).ReadsOnly := by
  refine Eff.readsOnly_get.bind fun d => ?_
  cases d.nvs.value k <;> exact Eff.readsOnly_pure _

theorem readsOnly_nvsGetStr (k : Key) (out : Option (Buffer n)) (size : ℕ) :
    (nvsGetStr k out size).ReadsOnly := by
  refine Eff.readsOnly_get.bind fun d => ?_
  split
  next => exact Eff.readsOnly_pure _
  next => exact Eff.readsOnly_pure _
  next =>
    split
    next => exact Eff.readsOnly_pure _
    next => exact (Eff.readsOnly_lift _).bind fun _ => Eff.readsOnly_pure _

/-- A call reads the device and leaves it as it is. -/
theorem Read.readsOnly (r : Read) (l : Locals) : (r.exec l).ReadsOnly := by
  cases r with
  | openNamespace =>
    refine Eff.ReadsOnly.bind ?_ fun err => (readsOnly_espErrorCheck err).bind fun _ =>
      Eff.readsOnly_pure l
    exact Eff.readsOnly_get.bind fun d => Eff.readsOnly_pure _
  | askSize k =>
    exact (readsOnly_nvsGetSize k).bind fun r => (readsOnly_espErrorCheck r.1).bind fun _ =>
      Eff.readsOnly_pure _
  | copy k =>
    simp only [exec]
    split
    next =>
      exact (readsOnly_nvsGetStr k _ _).bind fun r => (readsOnly_espErrorCheck r.1).bind fun _ =>
        Eff.readsOnly_pure _
    next => exact Eff.readsOnly_pure l

theorem nvsGetStr_some (k : Key) (b : Buffer n) (size : ℕ) : nvsGetStr k (some b) size = (do
    let r ← nvsGetStr k (some b) size
    return (r.1, some (r.2.getD b))) := by
  simp only [nvsGetStr, bind_assoc]
  refine bind_congr fun d => ?_
  cases d.nvs.value k with
  | none => simp
  | some v => by_cases h : size < v.length + 1 <;> simp [h]

/-- **What the calls return** is what the function returns. -/
theorem performReads_retrieveReads (l : Locals) :
    (do
      let l ← performReads retrieveReads l
      return (EspErr.ok, some (l.array .ssid), some (l.array .password), some (l.array .hostip))) =
      retrieveCredentials (some (l.array .ssid)) (some (l.array .password))
        (some (l.array .hostip)) := by
  simp only [performReads, retrieveReads, Read.exec, retrieveCredentials, bind_assoc, pure_bind]
  refine bind_congr fun err => bind_congr fun _ => bind_congr fun s => bind_congr fun _ =>
    bind_congr fun p => bind_congr fun _ => bind_congr fun h => bind_congr fun _ => ?_
  by_cases hsize : s.2 > 0 ∧ p.2 > 0
  · simp only [ne_eq, reduceCtorEq, not_false_eq_true, Function.update_of_ne,
      Function.update_self, hsize, and_self, if_true, bind_assoc, pure_bind]
    rw [nvsGetStr_some]
    simp only [bind_assoc, pure_bind, Option.getD_some]
    refine bind_congr fun s' => bind_congr fun _ => ?_
    rw [nvsGetStr_some]
    simp only [bind_assoc, pure_bind, Option.getD_some]
    refine bind_congr fun p' => bind_congr fun _ => ?_
    rw [nvsGetStr_some]
    simp only [bind_assoc, pure_bind, Option.getD_some]
  · simp [hsize]

/-- The arrays hold a set of credentials. -/
def Locals.Receives (l : Locals) (c : Credentials) : Prop :=
  ∀ k, c.field k ++ [0] <+: (l.array k).bytes

/-- The calls bring a complete set of credentials that fits into the arrays. -/
theorem exec_performReads_retrieveReads (h : d.nvs.Holds c) (hc : c.Fits) (l : Locals) :
    ∃ l', (performReads retrieveReads l).exec d = (.ok l', d) ∧ l'.Receives c := by
  obtain ⟨s, p, a, hrun, hs, hp, ha⟩ := exec_retrieveCredentials_filled h (some (l.array .ssid))
    (some (l.array .password)) (some (l.array .hostip)) hc.ssid hc.password hc.hostIp
  rw [← performReads_retrieveReads, Eff.exec_bind_eq_ok] at hrun
  obtain ⟨l', d', hreads, hret⟩ := hrun
  cases hret
  refine ⟨l', hreads, ?_⟩
  rintro (_ | _ | _)
  · exact hs.string _ rfl
  · exact hp.string _ rfl
  · exact ha.string _ rfl

end HomeAssistant
