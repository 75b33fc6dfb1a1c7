import HomeAssistant.Provisioning.Fidelity

/-!
# Which submissions the handler acts on

The handler looks at the result of the allocation and of the receive call, and at no other. It
stores what it has got even if a field of the form is missing or too long
(`acts_only_on_usable_iff`), and it calls the receive function once, so what it stores depends on
how much of the body that call returns (`stored_eq_whole_iff`).
-/

namespace HomeAssistant

open Form

/-! ## Unusable submissions -/

/-- The size of the buffer that a field is copied to. -/
def fieldSize : Key → ℕ
  | .ssid => 32
  | .password => 64
  | .hostip => 64

/-- A usable submission: bytes were received (all of them, if `whole`), and the reader found every
field and copied it untruncated. -/
def Usable (env : PostEnv) (contentLen : UInt32) (whole : Bool) : Prop :=
  ∃ data h, env.recv contentLen.toNat = .received data h ∧ data ≠ [] ∧
    (whole → data.length = contentLen.toNat) ∧
    ∀ k : Key, (env.queryKeyValue (cstr data) k.name (fieldSize k)
      (Buffer.zeros (fieldSize k))).1 = .ok

/-- A run from the device `d` that returns, and changes the credentials or the flag or reports
success only if the submission is usable. -/
structure ActsOnlyOn (usable : Prop) (d : Device) (r : Except Fault EspErr × Device) : Prop where
  returns : ∃ err, r.1 = .ok err
  acts : usable ∨ r.2.nvs = d.nvs ∧ r.2.sema5 = d.sema5 ∧
    r.2.sent.count (.text successText) = d.sent.count (.text successText)

/-- A handler that stores credentials reports success. -/
theorem actsOnlyOn_provisioned_iff {usable : Prop} {d : Device} {c : Credentials} :
    ActsOnlyOn usable d (.ok .ok, d.provisioned c) ↔ usable := by
  refine ⟨fun h => h.acts.resolve_right ?_, fun h => ⟨⟨_, rfl⟩, Or.inl h⟩⟩
  rintro ⟨-, -, hcount⟩
  simp [Device.provisioned] at hcount

/-- **When an unusable submission changes nothing**: the handler is right exactly if it gives up
before it reads the form (no memory, or nothing received), or the submission is usable; and it does
not get to store out of bounds, which takes a length of `2 ^ 32 - 1`. -/
theorem acts_only_on_usable_iff {env : PostEnv} {contentLen : UInt32}
    (hkv : Terminates env.queryKeyValue) (hf : FlashWorks env.flash) (whole : Bool) (d : Device) :
    ActsOnlyOn (Usable env contentLen whole) d ((postHandler env contentLen).exec d) ↔
      env.malloc (contentLen + 1).toNat = none ∨
        (∀ data h, env.recv contentLen.toNat = .received data h → data = []) ∨
        contentLen.toNat + 1 < 2 ^ 32 ∧ Usable env contentLen whole := by
  cases hm : env.malloc (contentLen + 1).toNat with
  | none =>
    rw [exec_postHandler_of_malloc env hm]
    simp only [true_or, iff_true]
    exact ⟨⟨_, rfl⟩, Or.inr ⟨rfl, rfl, by simp⟩⟩
  | some buf =>
    cases hr : env.recv contentLen.toNat with
    | error code =>
      rw [exec_postHandler_of_error env hm hr]
      simp only [reduceCtorEq, false_implies, implies_true, true_or, or_true, iff_true]
      refine ⟨⟨_, rfl⟩, Or.inr ⟨rfl, rfl, ?_⟩⟩
      by_cases hc : code = .timeout <;> simp [hc]
    | received data hdata =>
      by_cases hne : data = []
      · rw [exec_postHandler_of_empty env hm hr hne]
        refine iff_of_true ⟨⟨_, rfl⟩, Or.inr ⟨rfl, rfl, rfl⟩⟩ (Or.inr (Or.inl ?_))
        rintro _ _ ⟨⟩
        exact hne
      have hsome : ¬ ∀ data' h, Recv.received data hdata = .received data' h → data' = [] :=
        fun h => hne (h data hdata rfl)
      by_cases hw : contentLen.toNat + 1 < 2 ^ 32
      · rw [exec_postHandler_of_received env hm hr hne hw hkv hf, actsOnlyOn_provisioned_iff]
        refine ⟨fun h => Or.inr (Or.inr ⟨hw, h⟩), fun h => ?_⟩
        rcases h with h | h | h
        · cases h
        · exact absurd h hsome
        · exact h.2
      · rw [exec_postHandler_of_wrap env hm hr hne hw]
        refine iff_of_false (fun h => ?_) (fun h => ?_)
        · obtain ⟨_, h⟩ := h.returns
          cases h
        · rcases h with h | h | h
          · cases h
          · exact hsome h
          · exact hw h.1

/-- A complete form is stored, and rightly so. -/
theorem acts_only_on_usable_plain :
    ActsOnlyOn
      (Usable (setupEnv (formText plainForm)) (UInt32.ofNat (formText plainForm).length) true)
      blank ((postHandler (setupEnv (formText plainForm))
        (UInt32.ofNat (formText plainForm).length)).exec blank) :=
  (acts_only_on_usable_iff scanQuery_contract.terminates (setupEnv_flashWorks _) true blank).2
    (Or.inr (Or.inr ⟨by decide, formText plainForm, by decide, rfl, by decide, by decide,
      fun k => by cases k <;> decide⟩))

/-- A form with the network name only. -/
def nameOnlyForm : List Field := [⟨Key.ssid.name, ascii "casa"⟩]

/-- A form with the network name only overwrites the credentials, sets the flag and is answered
with the success text. -/
theorem name_only_form_stored :
    (∀ whole, ¬ ActsOnlyOn (Usable (setupEnv (formText nameOnlyForm))
      (UInt32.ofNat (formText nameOnlyForm).length) whole) blank
      ((postHandler (setupEnv (formText nameOnlyForm))
        (UInt32.ofNat (formText nameOnlyForm).length)).exec blank)) ∧
      ((postHandler (setupEnv (formText nameOnlyForm))
        (UInt32.ofNat (formText nameOnlyForm).length)).exec blank).2 =
      blank.provisioned ⟨ascii "casa", [], []⟩ := by
  have hsub := submitted_setupEnv nameOnlyForm (by decide) (by decide) (by decide) blank
  obtain ⟨_, hr⟩ := hsub.delivered
  have hform : formCredentials (· == ·) nameOnlyForm = ⟨ascii "casa", [], []⟩ := by decide
  rw [hsub.completed, hform]
  refine ⟨fun whole hacts => ?_, rfl⟩
  obtain ⟨data, h, hrecv, -, -, hread⟩ := actsOnlyOn_provisioned_iff.1 hacts
  rw [hr] at hrecv
  cases hrecv
  exact absurd (hread .hostip) (by decide)

/-! ## A body that arrives in pieces -/

/-- The environment in which the successive receive calls return these pieces; the handler makes
one. -/
def PostEnv.deliver (env : PostEnv) (pieces : List Bytes) : PostEnv :=
  { env with
    recv := fun n =>
      match pieces with
      | [] => .received [] (Nat.zero_le n)
      | p :: _ => if h : p.length ≤ n then .received p h else .error .fail }

theorem recv_deliver {env : PostEnv} {p : Bytes} {n : ℕ} (ps : List Bytes) (h : p.length ≤ n) :
    (env.deliver (p :: ps)).recv n = .received p h := dif_pos h

/-- The first `k` bytes of a form have all of it that the handler stores: the name and the host as
far as they go into their buffers, and so much of the password that the cut does no harm. -/
structure ReceivesEnough (same : Bytes → Bytes → Bool) (fs : List Field) (k : ℕ) : Prop where
  ssid : min 31 (fieldValue same fs .ssid).length ≤ k - valueOffset same fs Key.ssid.name
  password : HarmlessCut
    (((fieldValue same fs .password).take 63).take (k - valueOffset same fs Key.password.name))
    (((fieldValue same fs .password).take 63).drop (k - valueOffset same fs Key.password.name))
  hostip : min 63 (fieldValue same fs .hostip).length ≤ k - valueOffset same fs Key.hostip.name

section

variable {same : Bytes → Bytes → Bool} {fs : List Field} {env : PostEnv} {contentLen : UInt32}

theorem fieldValue_received (k : ℕ) (key : Key) :
    fieldValue same (received fs k).1 key =
      (fieldValue same fs key).take (k - valueOffset same fs key.name) := by
  rw [fieldValue, fieldValue, lookup_received]
  split
  · cases lookup same fs key.name <;> simp
  · rw [show k - valueOffset same fs key.name = 0 by omega]
    rfl

theorem take_take_eq_take_iff (v : Bytes) (n j : ℕ) :
    (v.take j).take n = v.take n ↔ min n v.length ≤ j := by
  rw [List.take_take, List.take_eq_take_iff]
  omega

/-- **When the first bytes of a form give its credentials.** -/
theorem formCredentials_received_iff (hfs : ∀ f ∈ fs, f.WellFormed) (k : ℕ) :
    formCredentials same (received fs k).1 = formCredentials same fs ↔
      ReceivesEnough same fs k := by
  have hpassword : ∀ j, cstr (decode (((fieldValue same fs .password).take j).take 63)) =
      cstr (decode ((fieldValue same fs .password).take 63)) ↔
        HarmlessCut (((fieldValue same fs .password).take 63).take j)
          (((fieldValue same fs .password).take 63).drop j) := by
    intro j
    have h0 : 0 ∉ (fieldValue same fs .password).take 63 := fun h =>
      zero_notMem_fieldValue hfs .password (List.mem_of_mem_take h)
    rw [← cstr_decode_eq_append_iff (by rwa [List.take_append_drop]), List.take_append_drop,
      List.take_take, List.take_take, Nat.min_comm]
  simp only [formCredentials, fieldValue_received, Credentials.mk.injEq, take_take_eq_take_iff,
    hpassword]
  constructor
  · rintro ⟨hssid, hpassword, hhostip⟩
    exact ⟨hssid, hpassword, hhostip⟩
  · intro h
    exact ⟨h.ssid, h.password, h.hostip⟩

theorem putCredentials_inj {n : Nvs} {c c' : Credentials} :
    n.putCredentials c = n.putCredentials c' ↔ c = c' := by
  refine ⟨fun h => ?_, fun h => by rw [h]⟩
  have hc := Nvs.holds_putCredentials n c
  rw [h] at hc
  exact hc.unique (Nvs.holds_putCredentials n c')

theorem exec_deliver (env : PostEnv) (contentLen : UInt32) (gs : List Field)
    (tail : Option Bytes) (hkv : QueryContract env.queryKeyValue same)
    (hf : FlashWorks env.flash) {buf : Buffer (contentLen + 1).toNat}
    (hm : env.malloc (contentLen + 1).toNat = some buf) (hw : contentLen.toNat + 1 < 2 ^ 32)
    (hgs : ∀ f ∈ gs, f.WellFormed) (ht : ∀ t ∈ tail, Tail.WellFormed t)
    (hne : queryText gs tail ≠ []) (h0 : 0 ∉ queryText gs tail)
    (hle : (queryText gs tail).length ≤ contentLen.toNat)
    (ps : List Bytes) (d : Device) :
    (postHandler (env.deliver (queryText gs tail :: ps)) contentLen).exec d =
      (.ok .ok, d.provisioned (formCredentials same gs)) := by
  rw [exec_postHandler_of_received (env.deliver (queryText gs tail :: ps)) hm
    (recv_deliver ps hle) hne hw hkv.terminates hf, cstr_of_zero_notMem h0]
  show (_, d.provisioned (credentialsOf env.queryKeyValue (queryText gs tail))) = _
  rw [credentialsOf_queryText hkv hgs ht]

/-- **When the pieces a body arrives in make no difference**: exactly if nothing is stored anyway
(there is no memory, or the length is `2 ^ 32 - 1`) or the first piece holds enough. -/
theorem stored_eq_whole_iff (hkv : QueryContract env.queryKeyValue same)
    (hf : FlashWorks env.flash) (hfs : ∀ f ∈ fs, f.WellFormed)
    (hlen : contentLen.toNat = (formText fs).length) {p : Bytes} {ps : List Bytes}
    (hpieces : (p :: ps).flatten = formText fs) (hne : ∀ q ∈ p :: ps, q ≠ []) (d : Device) :
    ((postHandler (env.deliver (p :: ps)) contentLen).exec d).2.nvs =
        ((postHandler (env.deliver [formText fs]) contentLen).exec d).2.nvs ↔
      env.malloc (contentLen + 1).toNat = none ∨ contentLen.toNat + 1 = 2 ^ 32 ∨
        ReceivesEnough same fs p.length := by
  have hp : p ++ ps.flatten = formText fs := hpieces
  have hpne : p ≠ [] := hne p (by simp)
  have hfsne : formText fs ≠ [] := fun h => hpne (List.append_eq_nil_iff.1 (hp.trans h)).1
  have h0 : 0 ∉ formText fs := zero_notMem_formText hfs
  have hple : p.length ≤ contentLen.toNat := by
    rw [hlen, ← hp, List.length_append]
    omega
  have hle : (formText fs).length ≤ contentLen.toNat := Nat.le_of_eq hlen.symm
  have hlt := contentLen.toNat_lt
  cases hm : env.malloc (contentLen + 1).toNat with
  | none =>
    rw [exec_postHandler_of_malloc (env.deliver (p :: ps)) hm,
      exec_postHandler_of_malloc (env.deliver [formText fs]) hm]
    simp
  | some buf =>
    by_cases hw : contentLen.toNat + 1 < 2 ^ 32
    · have hwhole := exec_deliver _ _ fs none hkv hf hm hw hfs (by simp) hfsne h0 hle [] d
      have hwf := received_wellFormed hfs p.length
      have hfirst : queryText (received fs p.length).1 (received fs p.length).2 = p := by
        rw [← take_formText, ← hp, List.take_left]
      have hpart := exec_deliver _ _ _ _ hkv hf hm hw hwf.1 hwf.2 (by rwa [hfirst])
        (by rw [hfirst]; exact fun h => h0 (hp ▸ List.mem_append_left _ h)) (by rwa [hfirst]) ps d
      rw [hfirst] at hpart
      rw [hpart, formText, hwhole]
      refine putCredentials_inj.trans ((formCredentials_received_iff hfs _).trans ?_)
      refine ⟨fun h => Or.inr (Or.inr h), fun h => ?_⟩
      rcases h with h | h | h
      · cases h
      · omega
      · exact h
    · rw [exec_postHandler_of_wrap (env.deliver (p :: ps)) hm (recv_deliver ps hple) hpne hw,
        exec_postHandler_of_wrap (env.deliver [formText fs]) hm (recv_deliver [] hle)
          hfsne hw]
      exact iff_of_true rfl (Or.inr (Or.inl (by omega)))

end

/-- The setup form with a field that the handler does not read. -/
def extendedForm : List Field := plainForm ++ [⟨ascii "lang", ascii "pt"⟩]

/-- A cut behind the fields that are stored makes no difference. -/
theorem stored_eq_whole_extended :
    ((postHandler ((setupEnv []).deliver [formText plainForm, ascii "&lang=pt"])
        (UInt32.ofNat (formText extendedForm).length)).exec blank).2.nvs =
      ((postHandler ((setupEnv []).deliver [formText extendedForm])
        (UInt32.ofNat (formText extendedForm).length)).exec blank).2.nvs :=
  (stored_eq_whole_iff scanQuery_contract (setupEnv_flashWorks _) (by decide) (by decide)
    (by decide) (by decide) blank).2
    (Or.inr (Or.inr ⟨by decide, ⟨[], by decide, Or.inl rfl⟩, by decide⟩))

/-- The setup form, cut inside the escape in its password. -/
def cutForm : List Bytes :=
  [ascii "ssid=casa&password=sol+%2", ascii "6+mar&hostip=192.168.0.10"]

/-- With the escape cut in two the handler stores the password `sol %2` and no host. -/
theorem cut_form_stored :
    cutForm.flatten = formText plainForm ∧
      ((postHandler ((setupEnv []).deliver cutForm)
        (UInt32.ofNat (formText plainForm).length)).exec blank).2 =
          blank.provisioned ⟨ascii "casa", ascii "sol %2", []⟩ ∧
      ((postHandler ((setupEnv []).deliver [formText plainForm])
        (UInt32.ofNat (formText plainForm).length)).exec blank).2 =
          blank.provisioned ⟨ascii "casa", ascii "sol & mar", ascii "192.168.0.10"⟩ ∧
      ((postHandler ((setupEnv []).deliver cutForm)
        (UInt32.ofNat (formText plainForm).length)).exec blank).2.nvs ≠
      ((postHandler ((setupEnv []).deliver [formText plainForm])
        (UInt32.ofNat (formText plainForm).length)).exec blank).2.nvs := by
  have hpart := exec_deliver (setupEnv []) (UInt32.ofNat (formText plainForm).length)
    [⟨ascii "ssid", ascii "casa"⟩, ⟨ascii "password", ascii "sol+%2"⟩] none
    scanQuery_contract (setupEnv_flashWorks _) rfl (by decide) (by decide) (by simp) (by decide)
    (by decide) (by decide) [ascii "6+mar&hostip=192.168.0.10"] blank
  have hwhole := exec_deliver (setupEnv []) (UInt32.ofNat (formText plainForm).length) plainForm
    none scanQuery_contract (setupEnv_flashWorks _) rfl (by decide) (by decide) (by simp)
    (by decide) (by decide) (by decide) [] blank
  rw [show formCredentials _ _ = ⟨ascii "casa", ascii "sol %2", []⟩ by decide] at hpart
  rw [show formCredentials _ _ = ⟨ascii "casa", ascii "sol & mar", ascii "192.168.0.10"⟩ by
    decide] at hwhole
  refine ⟨by decide, congrArg Prod.snd hpart, congrArg Prod.snd hwhole, fun h => ?_⟩
  have hstored : blank.nvs.putCredentials _ = blank.nvs.putCredentials _ :=
    (congrArg (fun r => r.2.nvs) hpart).symm.trans (h.trans (congrArg (fun r => r.2.nvs) hwhole))
  exact absurd (putCredentials_inj.1 hstored) (by decide)

end HomeAssistant
