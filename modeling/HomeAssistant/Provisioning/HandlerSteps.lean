import HomeAssistant.Provisioning.PostHandler

/-!
# The handler step by step

`post_handler` first works out what to store, from what it has received (`prepare`); it then makes
the storage calls one after another, raises the flag and answers. What other parties see of it are
the steps of this second part, the actions of `Prepared.actions`. `exec_postHandler_eq` says that
the handler is the one part followed by the other.
-/

namespace HomeAssistant

open Form

/-- What the handler has worked out when it comes to the storage: that there is nothing to store,
or the three strings to store, as the blocks of memory that hold them. -/
inductive Prepared
  | gaveUp (response : Option Response)
  | form (ssid password hostIp : Bytes)

/-- `post_handler` up to the terminator behind what was received: the buffer, or the answer to a
request that is given up. -/
def receiveBody (env : PostEnv) (contentLen : UInt32) :
    Except Fault (Option Response ⊕ Buffer (contentLen + 1).toNat) := do
  let bufLen := contentLen
  match env.malloc (bufLen + 1).toNat with
  | none => return .inl (some .status500)
  | some buf =>
    match env.recv bufLen.toNat with
    | .error code => return .inl (if code = .timeout then some .status408 else none)
    | .received data _ =>
      if data = [] then return .inl none
      let buf ← buf.terminate data
      return .inr buf

/-- `post_handler` up to the call of `store_credentials`. -/
def prepare (env : PostEnv) (contentLen : UInt32) : Except Fault Prepared := do
  match ← receiveBody env contentLen with
  | .inl response => return .gaveUp response
  | .inr buf =>
    let ssid := (env.queryKeyValue buf.str Key.ssid.name 32 (Buffer.zeros 32)).2
    let password := (env.queryKeyValue buf.str Key.password.name 64 (Buffer.zeros 64)).2
    let hostIp := (env.queryKeyValue buf.str Key.hostip.name 64 (Buffer.zeros 64)).2
    let decodedPassword ← (Buffer.zeros 64).write (urlDecode password.bytes ++ [0])
    return .form ssid.bytes decodedPassword.bytes hostIp.bytes

/-- The calls of the handler that leave a trace. -/
inductive Action
  | openNamespace
  | setStr (k : Key) (s : Bytes)
  | commit
  | raiseSema5
  | respond (r : Response)
  deriving DecidableEq

/-- The calls of `store_credentials`. -/
def storeActions (ssid password hostIp : Bytes) : List Action :=
  [.openNamespace, .setStr .ssid ssid, .setStr .password password, .setStr .hostip hostIp, .commit]

namespace Prepared

/-- What the handler goes on to do. -/
def actions : Prepared → List Action
  | gaveUp response => response.toList.map .respond
  | form ssid password hostIp =>
    storeActions ssid password hostIp ++ [.raiseSema5, .respond (.text successText)]

/-- What the handler returns. -/
def ret : Prepared → EspErr
  | gaveUp _ => .fail
  | form .. => .ok

/-- The credentials that are stored. -/
def credentials : Prepared → Option Credentials
  | gaveUp _ => none
  | form ssid password hostIp => some ⟨cstr ssid, cstr password, cstr hostIp⟩

end Prepared

/-- One call of the handler. Every error of a storage call but the commit's aborts. -/
def Action.exec (flash : NvsCall → EspErr) : Action → Eff Device Unit
  | .openNamespace => do espErrorCheck (← nvsOpenReadWrite flash)
  | .setStr k s => do espErrorCheck (← nvsSetStr flash k s)
  | .commit => do let _ ← nvsCommit flash
  | .raiseSema5 => Eff.update fun d => { d with sema5 := 1 }
  | .respond r => send r

/-- The calls of the handler one after another. -/
def perform (flash : NvsCall → EspErr) : List Action → Eff Device Unit
  | [] => pure ()
  | a :: as => do
    a.exec flash
    perform flash as

/-- A request to the handler: the environment it meets and the length it announces. -/
structure Request where
  env : PostEnv
  contentLen : UInt32

/-- The device after a request, whether the handler returns or faults. -/
def Request.handle (d : Device) (r : Request) : Device :=
  ((postHandler r.env r.contentLen).exec d).2

/-! ## One call -/

namespace Action

/-- What a call that succeeds does to the device. -/
def apply (d : Device) : Action → Device
  | openNamespace => { d with nvs := { d.nvs with created := true } }
  | setStr k s => { d with nvs := d.nvs.put k (cstr s) }
  | commit => d
  | raiseSema5 => { d with sema5 := 1 }
  | respond r => { d with sent := d.sent ++ [r] }

/-- The call does not abort. -/
def Succeeds (flash : NvsCall → EspErr) : Action → Prop
  | openNamespace => flash .openNamespace = .ok
  | setStr k _ => flash (.setStr k) = .ok
  | _ => True

instance (flash : NvsCall → EspErr) : DecidablePred (Succeeds flash)
  | openNamespace => inferInstanceAs (Decidable (_ = _))
  | setStr _ _ => inferInstanceAs (Decidable (_ = _))
  | commit | raiseSema5 | respond _ => inferInstanceAs (Decidable True)

/-- **A call** does what it is for, or aborts and does nothing. -/
theorem exec_exec (flash : NvsCall → EspErr) (a : Action) (d : Device) :
    (a.exec flash).exec d =
      if a.Succeeds flash then (.ok (), a.apply d) else (.error .abort, d) := by
  have habort : ∀ {err}, err ≠ .ok → (espErrorCheck err).exec d = (.error .abort, d) := by
    rintro (_ | _) hne <;> first | rfl | exact absurd rfl hne
  cases a with
  | openNamespace =>
    by_cases h : flash .openNamespace = .ok
    · simp [exec, nvsOpenReadWrite, Succeeds, h, espErrorCheck, apply]
    · simp [exec, nvsOpenReadWrite, Succeeds, h, habort]
  | setStr k s =>
    by_cases h : flash (.setStr k) = .ok
    · simp [exec, nvsSetStr, Succeeds, h, espErrorCheck, apply]
    · simp [exec, nvsSetStr, Succeeds, h, habort]
  | commit => rfl
  | raiseSema5 => rfl
  | respond r => rfl

theorem exec_of_succeeds {flash : NvsCall → EspErr} {a : Action} (h : a.Succeeds flash)
    (d : Device) : (a.exec flash).exec d = (.ok (), a.apply d) := by
  rw [exec_exec, if_pos h]

theorem succeeds_of_works {flash : NvsCall → EspErr} (h : FlashWorks flash) (a : Action) :
    a.Succeeds flash := by
  cases a <;> first | exact h _ | trivial

theorem exec_of_works {flash : NvsCall → EspErr} (h : FlashWorks flash) (a : Action) (d : Device) :
    (a.exec flash).exec d = (.ok (), a.apply d) :=
  exec_of_succeeds (succeeds_of_works h a) d

end Action

theorem exec_perform_of_works {flash : NvsCall → EspErr} (h : FlashWorks flash) (as : List Action)
    (d : Device) : (perform flash as).exec d = (.ok (), as.foldl Action.apply d) := by
  induction as generalizing d with
  | nil => rfl
  | cons a as ih =>
    rw [perform, Eff.exec_bind_of_ok (a.exec_of_works h d)]
    exact ih _

/-! ## The two parts of the handler -/

variable {env : PostEnv} {contentLen : UInt32} {flash : NvsCall → EspErr}

theorem perform_append (as bs : List Action) : perform flash (as ++ bs) = (do
    perform flash as
    perform flash bs) := by
  induction as with
  | nil => exact (pure_bind _ _).symm
  | cons a as ih => simp only [List.cons_append, perform, ih, bind_assoc]

theorem perform_storeActions (ssid password hostIp : Bytes) :
    perform flash (storeActions ssid password hostIp) =
      storeCredentials flash ssid password hostIp := by
  simp only [perform, storeActions, Action.exec, storeCredentials, bind_assoc, pure_bind]

theorem perform_form (ssid password hostIp : Bytes) :
    perform flash (Prepared.form ssid password hostIp).actions = (do
      storeCredentials flash ssid password hostIp
      Eff.update fun d => { d with sema5 := 1 }
      send (.text successText)) := by
  rw [Prepared.actions, perform_append, perform_storeActions]
  simp only [perform, Action.exec, bind_pure_unit]

/-- **The handler** prepares what there is to store and then makes its calls. -/
theorem postHandler_eq : postHandler env contentLen = (do
    let p ← Eff.lift (prepare env contentLen)
    perform env.flash p.actions
    return p.ret) := by
  unfold postHandler prepare
  cases hm : env.malloc (contentLen + 1).toNat with
  | none => simp only [receiveBody, hm, Eff.lift_pure, pure_bind, Prepared.actions, Prepared.ret,
      perform, Action.exec, Option.toList, List.map, bind_assoc]
  | some buf =>
    cases hr : env.recv contentLen.toNat with
    | error code =>
      by_cases hc : code = .timeout
      · simp only [receiveBody, hm, hr, hc, if_true, Eff.lift_pure, pure_bind, Prepared.actions,
          Prepared.ret, perform, Action.exec, Option.toList, List.map, bind_assoc]
      · simp only [receiveBody, hm, hr, hc, if_false, Eff.lift_pure, pure_bind, Prepared.actions,
          Prepared.ret, perform, Option.toList, List.map]
    | received data h =>
      by_cases he : data = []
      · simp only [receiveBody, hm, hr, he, if_true, Eff.lift_pure, pure_bind, Prepared.actions,
          Prepared.ret, perform, Option.toList, List.map]
      · simp only [receiveBody, hm, hr, he, if_false, Buffer.terminate, Eff.lift_pure,
          Eff.lift_bind, pure_bind, perform_form, Prepared.ret, bind_assoc]

theorem Request.handle_eq (r : Request) (d : Device) :
    r.handle d = match prepare r.env r.contentLen with
      | .ok p => ((perform r.env.flash p.actions).exec d).2
      | .error _ => d := by
  rw [handle, postHandler_eq, Eff.exec_bind, Eff.exec_lift]
  cases prepare r.env r.contentLen with
  | error f => rfl
  | ok p =>
    simp only [Eff.exec_bind]
    rcases (perform r.env.flash p.actions).exec d with ⟨_ | _, d'⟩ <;> rfl

/-! ## What is prepared -/

/-- **The strings to store** are the credentials that the handler gets out of what it has
received. -/
theorem credentials_of_prepare {p : Prepared} (h : prepare env contentLen = .ok p) :
    ∀ c ∈ p.credentials, ∃ query, c = credentialsOf env.queryKeyValue query := by
  obtain ⟨body, -, h⟩ := bind_eq_ok.1 h
  cases body with
  | inl response =>
    cases h
    exact nofun
  | inr buf =>
    obtain ⟨dec, hdec, hp⟩ := bind_eq_ok.1 h
    cases hp
    rintro _ ⟨⟩
    have hpassword : dec.str = _ := Buffer.str_write_terminated hdec
    rw [urlDecode_eq] at hpassword
    refine ⟨buf.str, ?_⟩
    rw [credentialsOf, ← Buffer.str, ← Buffer.str, ← Buffer.str, hpassword]
    rfl

theorem receiveBody_error {f : Fault} (h : receiveBody env contentLen = .error f) :
    f = .outOfBounds := by
  simp only [receiveBody] at h
  split at h
  next => cases h
  next =>
    split at h
    next => cases h
    next =>
      split_ifs at h with he
      · cases h
      · rcases bind_eq_error.1 h with hterm | ⟨_, -, hret⟩
        · exact Buffer.terminate_error hterm
        · cases hret

theorem prepare_error {f : Fault} (h : prepare env contentLen = .error f) : f = .outOfBounds := by
  rcases bind_eq_error.1 h with hbody | ⟨body, -, h⟩
  · exact receiveBody_error hbody
  · cases body with
    | inl response => cases h
    | inr buf =>
      rcases bind_eq_error.1 h with hdec | ⟨_, -, hret⟩
      · exact Buffer.write_error hdec
      · cases hret

/-- Below the largest length the body is received and terminated inside its block. -/
theorem receiveBody_ne_outOfBounds (h : contentLen.toNat < 2 ^ 32 - 1) :
    receiveBody env contentLen ≠ .error .outOfBounds := by
  have hsize : (contentLen + 1).toNat = contentLen.toNat + 1 := toNat_add_one (by omega)
  simp only [receiveBody]
  split
  next => exact nofun
  next buf _ =>
    split
    next => exact nofun
    next data hdata _ =>
      split_ifs with he
      · exact nofun
      · obtain ⟨b', hb', -⟩ := buf.exists_terminate
          (show data.length < (contentLen + 1).toNat by omega)
        rw [hb']
        exact nofun

end HomeAssistant
