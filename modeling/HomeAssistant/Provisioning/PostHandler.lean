import HomeAssistant.Foundations.FormData
import HomeAssistant.Provisioning.Credentials
import HomeAssistant.Provisioning.UrlDecode
import Mathlib.Algebra.Group.Nat.Defs

/-!
# The handler of the setup form

`post_handler` receives the body of the form, extracts three fields from it, decodes the password
and stores the three strings as the credentials. The calls it makes to the framework are its
environment (`PostEnv`): the allocator, one receive call on the request, the reader of query
strings and the storage.

The reader of query strings, `httpd_query_key_value`, is used through its documented behaviour
(`QueryContract`): the raw value of the first field with the name asked for, cut to the capacity of
the buffer and terminated, with an error when it was cut. `credentialsOf` is the triple of strings
that the handler gets out of the bytes it has received, and `exec_postHandler_of_received` says
that it stores this triple whatever the reader reported.
-/

namespace HomeAssistant

open Form

/-- The errors a receive call on a request can return. -/
inductive HttpdSockErr
  | fail
  | invalid
  | timeout
  deriving DecidableEq

/-- The outcome of a receive call that asks for `n` bytes. -/
inductive Recv (n : ℕ)
  | received (data : Bytes) (h : data.length ≤ n)
  | error (code : HttpdSockErr)

/-- A reader of query strings: from the query, the key and the buffer for the value with its size,
the return code and the buffer after the call. -/
abbrev QueryKeyValue : Type := Bytes → Bytes → (n : ℕ) → Buffer n → EspErr × Buffer n

/-- The framework as one request meets it. -/
structure PostEnv where
  /-- The block an allocation returns, with arbitrary content. -/
  malloc : (n : ℕ) → Option (Buffer n)
  /-- `httpd_req_recv`. -/
  recv : (n : ℕ) → Recv n
  /-- `httpd_query_key_value`. -/
  queryKeyValue : QueryKeyValue
  flash : NvsCall → EspErr

/-- The text sent after a submission. -/
def successText : Bytes := ascii "configuracao recebida com sucesso!"

/-- Send a response. -/
def send (r : Response) : Eff Device Unit :=
  Eff.update fun d => { d with sent := d.sent ++ [r] }

/-- `post_handler`, on a request that announces `contentLen` bytes. -/
def postHandler (env : PostEnv) (contentLen : UInt32) : Eff Device EspErr := do
  let bufLen := contentLen
  match env.malloc (bufLen + 1).toNat with
  | none =>
    send .status500
    return .fail
  | some buf =>
    match env.recv bufLen.toNat with
    | .error code =>
      if code = .timeout then send .status408
      return .fail
    | .received data _ =>
      -- no byte received is a return value of zero
      if data = [] then return .fail
      let buf ← Eff.lift (buf.write data)
      let buf ← Eff.lift (buf.set data.length 0)
      let ssid := (env.queryKeyValue buf.str Key.ssid.name 32 (Buffer.zeros 32)).2
      let password := (env.queryKeyValue buf.str Key.password.name 64 (Buffer.zeros 64)).2
      let hostIp := (env.queryKeyValue buf.str Key.hostip.name 64 (Buffer.zeros 64)).2
      let decodedPassword ← Eff.lift
        ((Buffer.zeros 64).write (urlDecode password.bytes ++ [0]))
      storeCredentials env.flash ssid.bytes decodedPassword.bytes hostIp.bytes
      Eff.update fun d => { d with sema5 := 1 }
      send (.text successText)
      return .ok

/-! ## The reader of query strings -/

/-- The reader leaves a string in a buffer that held one. -/
def Terminates (kv : QueryKeyValue) : Prop :=
  ∀ (query key : Bytes) (n : ℕ) (val : Buffer n),
    0 ∈ val.bytes → 0 ∈ (kv query key n val).2.bytes

/-- The documented behaviour of the reader: it terminates what it writes, and in a query string
made of fields, the last of which may be incomplete, it finds the value of the first field with the
name asked for, cut to what fits. -/
structure QueryContract (kv : QueryKeyValue) (same : Bytes → Bytes → Bool) : Prop where
  terminates : Terminates kv
  found {fs : List Field} {tail : Option Bytes} {key v : Bytes} {n : ℕ} (val : Buffer n) :
    (∀ f ∈ fs, f.WellFormed) → (∀ t ∈ tail, Tail.WellFormed t) → 0 < n →
    lookup same fs key = some v →
    kv (queryText fs tail) key n val =
      (if v.length < n then .ok else .errHttpdResultTrunc, val.strlcpy v)
  missing {fs : List Field} {tail : Option Bytes} {key : Bytes} {n : ℕ} (val : Buffer n) :
    (∀ f ∈ fs, f.WellFormed) → (∀ t ∈ tail, Tail.WellFormed t) → 0 < n →
    lookup same fs key = none →
    kv (queryText fs tail) key n val = (.errNotFound, val)

/-- `url_decode` writes inside its 64 bytes, whatever the reader leaves it to decode. -/
theorem exists_write_urlDecode {kv : QueryKeyValue} (hkv : Terminates kv) (query : Bytes) :
    ∃ b, (Buffer.zeros 64).write
      (urlDecode (kv query Key.password.name 64 (Buffer.zeros 64)).2.bytes ++ [0]) = .ok b := by
  have h0 : 0 ∈ (kv query Key.password.name 64 (Buffer.zeros 64)).2.bytes :=
    hkv query Key.password.name 64 _ (by simp [Buffer.zeros])
  have hlt := length_urlDecode_lt h0
  rw [Buffer.length_bytes] at hlt
  exact ⟨_, Buffer.write_of_le _ (by rw [List.length_append, List.length_singleton]; omega)⟩

/-- The credentials that the handler gets out of the query string `query`. -/
def credentialsOf (kv : QueryKeyValue) (query : Bytes) : Credentials where
  ssid := (kv query Key.ssid.name 32 (Buffer.zeros 32)).2.str
  password := cstr (decode (kv query Key.password.name 64 (Buffer.zeros 64)).2.str)
  hostIp := (kv query Key.hostip.name 64 (Buffer.zeros 64)).2.str

/-- The handler's device after it has stored a set of credentials. -/
def Device.provisioned (d : Device) (c : Credentials) : Device :=
  { nvs := d.nvs.putCredentials c, sema5 := 1, sent := d.sent ++ [.text successText] }

/-! ## Runs of the handler -/

variable (env : PostEnv) {contentLen : UInt32}

theorem exec_postHandler_of_malloc (h : env.malloc (contentLen + 1).toNat = none) (d : Device) :
    (postHandler env contentLen).exec d =
      (.ok .fail, { d with sent := d.sent ++ [.status500] }) := by
  simp [postHandler, h, send]

variable {buf : Buffer (contentLen + 1).toNat}

theorem exec_postHandler_of_error (hm : env.malloc (contentLen + 1).toNat = some buf)
    {code : HttpdSockErr} (hr : env.recv contentLen.toNat = .error code) (d : Device) :
    (postHandler env contentLen).exec d =
      (.ok .fail, { d with
        sent := d.sent ++ if code = .timeout then [.status408] else [] }) := by
  by_cases hc : code = .timeout <;> simp [postHandler, hm, hr, hc, send]

variable {data : Bytes} {hdata : data.length ≤ contentLen.toNat}

theorem exec_postHandler_of_empty (hm : env.malloc (contentLen + 1).toNat = some buf)
    (hr : env.recv contentLen.toNat = .received data hdata) (he : data = []) (d : Device) :
    (postHandler env contentLen).exec d = (.ok .fail, d) := by
  simp [postHandler, hm, hr, he]

/-- The size of the block wraps around for one length, the largest. -/
theorem toNat_add_one (h : contentLen.toNat + 1 < 2 ^ 32) :
    (contentLen + 1).toNat = contentLen.toNat + 1 := by
  rw [UInt32.toNat_add]
  exact Nat.mod_eq_of_lt h

/-- With a block of no bytes the receive call stores out of bounds. -/
theorem exec_postHandler_of_wrap (hm : env.malloc (contentLen + 1).toNat = some buf)
    (hr : env.recv contentLen.toNat = .received data hdata) (hne : data ≠ [])
    (hw : ¬ contentLen.toNat + 1 < 2 ^ 32) (d : Device) :
    (postHandler env contentLen).exec d = (.error .outOfBounds, d) := by
  have hlt := contentLen.toNat_lt
  have hsize : (contentLen + 1).toNat = 0 := by
    rw [UInt32.toNat_add, show contentLen.toNat = 2 ^ 32 - 1 by omega]
    rfl
  have hwrite : buf.write data = .error .outOfBounds := by
    have := List.length_pos_iff.2 hne
    exact dif_neg (by omega)
  simp [postHandler, hm, hr, hne, Eff.exec_bind, hwrite]

/-- **What the handler does with the bytes it has received**: it stores the credentials it gets
out of them, sets the flag and reports success. -/
theorem exec_postHandler_of_received (hm : env.malloc (contentLen + 1).toNat = some buf)
    (hr : env.recv contentLen.toNat = .received data hdata) (hne : data ≠ [])
    (hw : contentLen.toNat + 1 < 2 ^ 32) (hkv : Terminates env.queryKeyValue)
    (hf : FlashWorks env.flash) (d : Device) :
    (postHandler env contentLen).exec d =
      (.ok .ok, d.provisioned (credentialsOf env.queryKeyValue (cstr data))) := by
  have hsize := toNat_add_one hw
  obtain ⟨buf₁, buf₂, h₁, h₂, hstr, -⟩ :=
    buf.exists_terminated (show data.length < (contentLen + 1).toNat by omega)
  obtain ⟨dec, h₃⟩ := exists_write_urlDecode hkv (cstr data)
  set password := (env.queryKeyValue (cstr data) Key.password.name 64 (Buffer.zeros 64)).2 with hp
  have hdec : dec.str = cstr (decode password.str) := by
    rw [Buffer.str_write_terminated h₃, urlDecode_eq]
    rfl
  simp only [postHandler, hm, hr, if_neg hne, Eff.exec_bind, Eff.exec_lift, h₁, h₂, hstr, ← hp,
    h₃, exec_storeCredentials hf, Eff.exec_update, send, Eff.exec_pure]
  show (Except.ok EspErr.ok, d.provisioned ⟨_, dec.str, _⟩) = _
  rw [hdec]
  rfl

variable {env}

/-- **A run to completion** has stored the credentials in what was received. -/
theorem postHandler_completed {d d' : Device} (hkv : Terminates env.queryKeyValue)
    (hf : FlashWorks env.flash) (hr : env.recv contentLen.toNat = .received data hdata)
    (h : (postHandler env contentLen).exec d = (.ok .ok, d')) :
    d' = d.provisioned (credentialsOf env.queryKeyValue (cstr data)) := by
  cases hm : env.malloc (contentLen + 1).toNat with
  | none => rw [exec_postHandler_of_malloc env hm] at h; cases h
  | some buf =>
    by_cases hne : data = []
    · rw [exec_postHandler_of_empty env hm hr hne] at h; cases h
    · by_cases hw : contentLen.toNat + 1 < 2 ^ 32
      · rw [exec_postHandler_of_received env hm hr hne hw hkv hf] at h
        cases h
        rfl
      · rw [exec_postHandler_of_wrap env hm hr hne hw] at h; cases h

/-! ## The credentials in a form -/

section Form

variable {kv : QueryKeyValue} {same : Bytes → Bytes → Bool}

/-- The raw value of a field, empty if there is none. -/
def fieldValue (same : Bytes → Bytes → Bool) (fs : List Field) (k : Key) : Bytes :=
  (lookup same fs k.name).getD []

variable {fs : List Field} {tail : Option Bytes}

theorem fieldValue_of_lookup {k : Key} {v : Bytes} (h : lookup same fs k.name = some v) :
    fieldValue same fs k = v := by
  rw [fieldValue, h, Option.getD_some]

theorem zero_notMem_lookup (hfs : ∀ f ∈ fs, f.WellFormed) {key v : Bytes}
    (h : lookup same fs key = some v) : 0 ∉ v := by
  obtain ⟨f, hf, rfl⟩ := Option.map_eq_some_iff.1 h
  exact (hfs f (List.mem_of_find?_eq_some hf)).zero_value

theorem zero_notMem_fieldValue (hfs : ∀ f ∈ fs, f.WellFormed) (k : Key) :
    0 ∉ fieldValue same fs k := by
  cases h : lookup same fs k.name with
  | none => simp [fieldValue, h]
  | some v =>
    rw [fieldValue, h]
    exact zero_notMem_lookup hfs h

/-- What the reader leaves in an empty buffer is the value of the field, cut to the capacity. -/
theorem str_queryKeyValue (hkv : QueryContract kv same) (hfs : ∀ f ∈ fs, f.WellFormed)
    (ht : ∀ t ∈ tail, Tail.WellFormed t) (k : Key) {n : ℕ} (hn : 0 < n) :
    (kv (queryText fs tail) k.name n (Buffer.zeros n)).2.str =
      (fieldValue same fs k).take (n - 1) := by
  cases h : lookup same fs k.name with
  | none => simp [hkv.missing _ hfs ht hn h, fieldValue, h]
  | some v =>
    rw [hkv.found _ hfs ht hn h, fieldValue, h]
    exact Buffer.str_strlcpy _ hn (zero_notMem_lookup hfs h)

/-- The credentials in a form: the name and the host as they stand there, the password decoded,
each cut to its buffer. -/
def formCredentials (same : Bytes → Bytes → Bool) (fs : List Field) : Credentials where
  ssid := (fieldValue same fs .ssid).take 31
  password := cstr (decode ((fieldValue same fs .password).take 63))
  hostIp := (fieldValue same fs .hostip).take 63

/-- **The credentials that the handler gets out of a form**, or out of what has arrived of it. -/
theorem credentialsOf_queryText (hkv : QueryContract kv same) (hfs : ∀ f ∈ fs, f.WellFormed)
    (ht : ∀ t ∈ tail, Tail.WellFormed t) :
    credentialsOf kv (queryText fs tail) = formCredentials same fs := by
  rw [credentialsOf, formCredentials, str_queryKeyValue hkv hfs ht .ssid (by omega),
    str_queryKeyValue hkv hfs ht .password (by omega),
    str_queryKeyValue hkv hfs ht .hostip (by omega)]

end Form

end HomeAssistant
