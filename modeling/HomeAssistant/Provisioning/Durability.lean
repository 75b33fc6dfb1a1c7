import HomeAssistant.Foundations.Machine
import HomeAssistant.Provisioning.Connection
import HomeAssistant.Provisioning.StoredFit
import Mathlib.Data.List.Infix

/-!
# What survives a failure

The strings that the handler stores reach the flash one by one. Each may become durable at any time
between the call that writes it and the return of a commit that succeeds; a storage call that fails
aborts, and the power can be lost at any time. `Storing` is the handler on its way through its
calls, with the flash underneath.

There is no transaction around the three strings, so a failure can leave the new ones next to old
ones (`mixed_credentials_found`). What holds is said string by string (`stored_field_by_field`):
each is the old one or the new one, all are the new ones after a commit that succeeded, and where
there were none, none or all of the new ones are found.
-/

namespace HomeAssistant

open Machine

/-- The handler on its way through its calls. -/
structure Storing where
  /-- The device as the program sees it. -/
  device : Device
  /-- What is found after a reboot. -/
  durable : Nvs
  /-- What calls have written that is not known to be durable. -/
  pending : Key → Option Bytes
  /-- The calls that have returned. -/
  done : List Action
  /-- The call in progress. -/
  current : Option Action
  todo : List Action
  commitResult : Option EspErr
  up : Bool

namespace Storing

/-- What can happen: the next call is made, it returns, a string becomes durable, the power is
lost. -/
inductive Event
  | call
  | ret (err : EspErr)
  | persist (k : Key)
  | powerLoss

/-- What is written and not yet durable when a call is made. -/
def written (pending : Key → Option Bytes) : Action → Key → Option Bytes
  | .setStr k s => Function.update pending k (some (cstr s))
  | _ => pending

/-- The flash when a call has returned that does not abort. A namespace that is opened exists, and
what was written is durable after a commit that succeeds. -/
def returned (s : Storing) (err : EspErr) : Action → Storing
  | .openNamespace => { s with durable := { s.durable with created := true } }
  | .commit =>
    if err = .ok then
      { s with
        durable := { s.durable with value := fun k => (s.pending k).or (s.durable.value k) }
        pending := fun _ => none
        commitResult := some err }
    else { s with commitResult := some err }
  | _ => s

/-- The next call is made. -/
def makeCall (s : Storing) : Option Storing :=
  match s.current, s.todo with
  | none, a :: as => some { s with current := some a, todo := as, pending := written s.pending a }
  | _, _ => none

/-- The call in progress returns `err`, if it is a storage call, or the program is aborted. -/
def endCall (s : Storing) (err : EspErr) : Option Storing :=
  s.current.map fun a =>
    match (a.exec fun _ => err).exec s.device with
    | (.ok (), d) => { s.returned err a with device := d, done := s.done ++ [a], current := none }
    | (.error _, _) => { s with up := false }

/-- A string that was written becomes durable. -/
def persist (s : Storing) (k : Key) : Option Storing :=
  (s.pending k).map fun v =>
    { s with durable := s.durable.put k v, pending := Function.update s.pending k none }

/-- One step. -/
def step (s : Storing) (e : Event) : Option Storing :=
  if s.up then
    match e with
    | .call => s.makeCall
    | .ret err => s.endCall err
    | .persist k => s.persist k
    | .powerLoss => some { s with up := false }
  else none

/-- The handler when it comes to its calls, on a device whose flash is all durable. -/
def start (d : Device) (p : Prepared) : Storing where
  device := d
  durable := d.nvs
  pending := fun _ => none
  done := []
  current := none
  todo := p.actions
  commitResult := none
  up := true

/-- The calls that have been made. -/
def called (s : Storing) : List Action := s.done ++ s.current.toList

/-- The call that stores the string under a key has been made. -/
def Called (s : Storing) (k : Key) : Prop := ∃ v, .setStr k v ∈ s.called

/-- The invariant of a run that stores the credentials `c` over what the flash held before. -/
structure Inv (d : Device) (p : Prepared) (c : Credentials) (s : Storing) : Prop where
  program : s.called ++ s.todo = p.actions
  device : s.device = s.done.foldl Action.apply d
  durable (k : Key) : s.durable.value k = d.nvs.value k ∨
    s.Called k ∧ s.durable.value k = some (c.field k)
  pending (k : Key) (v : Bytes) : s.pending k = some v → s.Called k ∧ v = c.field k
  reached (k : Key) : s.Called k →
    s.pending k = some (c.field k) ∨ s.durable.value k = some (c.field k)
  created : s.durable.created = true ↔ d.nvs.created = true ∨ .openNamespace ∈ s.done
  commit : s.commitResult.isSome ↔ .commit ∈ s.done
  committed : s.commitResult = some .ok → ∀ k, s.durable.value k = some (c.field k)

variable {d : Device} {p : Prepared} {c : Credentials} {s s' : Storing}

theorem inv_start : (start d p).Inv d p c where
  program := rfl
  device := rfl
  durable _ := Or.inl rfl
  pending _ _ h := nomatch h
  reached _ h := nomatch h.choose_spec
  created := (or_iff_left List.not_mem_nil).symm
  commit := iff_of_false Bool.false_ne_true List.not_mem_nil
  committed h := nomatch h

theorem Inv.eq_field (h : s.Inv d p c) (hc : p.credentials = some c) {k : Key} {v : Bytes}
    (hmem : .setStr k v ∈ s.todo) : cstr v = c.field k := by
  have hp : .setStr k v ∈ p.actions := h.program ▸ List.mem_append_right _ hmem
  obtain ⟨c', hc', hfield⟩ := field_of_setStr_mem hp
  rw [hc] at hc'
  cases hc'
  exact hfield.symm

theorem written_eq (pending : Key → Option Bytes) (a : Action) (k : Key) :
    (∃ v, a = .setStr k v ∧ written pending a k = some (cstr v)) ∨
      (∀ v, a ≠ .setStr k v) ∧ written pending a k = pending k := by
  cases a with
  | setStr k' v =>
    by_cases hk : k = k'
    · subst hk
      exact Or.inl ⟨v, rfl, Function.update_self ..⟩
    · refine Or.inr ⟨fun v' h => ?_, Function.update_of_ne hk ..⟩
      cases h
      exact hk rfl
  | _ => exact Or.inr ⟨fun _ => nofun, rfl⟩

theorem inv_makeCall (h : s.Inv d p c) (hc : p.credentials = some c)
    (hs : s.makeCall = some s') : s'.Inv d p c := by
  unfold makeCall at hs
  split at hs
  next a as hcurrent htodo =>
    cases hs
    have hbefore : s.called = s.done := by rw [called, hcurrent]; exact List.append_nil _
    have hmono : ∀ k, s.Called k → ∃ v, .setStr k v ∈ s.done ++ [a] := by
      rintro k ⟨v, hv⟩
      exact ⟨v, List.mem_append_left _ (hbefore ▸ hv)⟩
    refine ⟨?_, h.device, fun k => (h.durable k).imp_right fun hk => ⟨hmono k hk.1, hk.2⟩, ?_, ?_,
      h.created, h.commit, h.committed⟩
    · have := h.program
      rw [hbefore, htodo] at this
      rw [← this, called]
      simp
    · intro k v hv
      rcases written_eq s.pending a k with ⟨v', ha, hw⟩ | ⟨-, hw⟩
      · rw [← h.eq_field hc (show .setStr k v' ∈ s.todo by simp [htodo, ha])]
        refine ⟨⟨v', by simp [called, ha]⟩, ?_⟩
        simpa [hw] using hv.symm
      · obtain ⟨hk, hv⟩ := h.pending k v (hw ▸ hv)
        exact ⟨hmono k hk, hv⟩
    · rintro k ⟨v, hv⟩
      rcases written_eq s.pending a k with ⟨v', ha, hw⟩ | ⟨hne, hw⟩
      · left
        rw [← h.eq_field hc (show .setStr k v' ∈ s.todo by simp [htodo, ha])]
        exact hw
      · have hk : s.Called k := by
          refine ⟨v, ?_⟩
          rw [hbefore]
          rcases List.mem_append.1 hv with hv | hv
          · exact hv
          · exact absurd (List.mem_singleton.1 hv).symm (hne v)
        show written s.pending a k = _ ∨ _
        rw [hw]
        exact h.reached k hk
  next => cases hs

theorem mem_of_commit (hc : p.credentials = some c) {as : List Action} (has : as <+: p.actions)
    (hcommit : .commit ∈ as) : .openNamespace ∈ as ∧ ∀ k, ∃ v, .setStr k v ∈ as := by
  cases p with
  | gaveUp response => cases hc
  | form ssid password hostIp =>
    have hstore : storeActions ssid password hostIp <+:
        (Prepared.form ssid password hostIp).actions := List.prefix_append _ _
    have hle : storeActions ssid password hostIp <+: as := by
      rcases List.prefix_or_prefix_of_prefix has hstore with hle | hle
      · -- only all of the calls have the commit among them
        have hlast : as <+: [Action.openNamespace, .setStr .ssid ssid, .setStr .password password,
          .setStr .hostip hostIp] ++ [.commit] := hle
        rcases List.prefix_concat_iff.1 hlast with heq | hle
        · exact heq ▸ List.prefix_rfl
        · exact absurd (hle.subset hcommit) (by simp)
      · exact hle
    refine ⟨hle.subset (by simp [storeActions]), fun k => ?_⟩
    cases k
    · exact ⟨ssid, hle.subset (by simp [storeActions])⟩
    · exact ⟨password, hle.subset (by simp [storeActions])⟩
    · exact ⟨hostIp, hle.subset (by simp [storeActions])⟩

theorem Inv.committed_value (h : s.Inv d p c) {k : Key} (hk : s.Called k) :
    (s.pending k).or (s.durable.value k) = some (c.field k) := by
  cases hpending : s.pending k with
  | none =>
    rcases h.reached k hk with hr | hr
    · rw [hpending] at hr
      cases hr
    · rw [hr]
      rfl
  | some v => rw [(h.pending k v hpending).2, Option.some_or]

/-- A call that returns leaves the flash as it is, unless it opens the namespace or commits. -/
theorem returned_eq (s : Storing) (err : EspErr) {a : Action} (ho : a ≠ .openNamespace)
    (hc : a ≠ .commit) : s.returned err a = s := by
  cases a with
  | openNamespace => exact absurd rfl ho
  | commit => exact absurd rfl hc
  | _ => rfl

/-- A call has returned, and what has changed in flash is what was pending. -/
theorem Inv.of_returned (h : s.Inv d p c) {a : Action} (hcurrent : s.current = some a)
    {t : Storing} (htodo : t.todo = s.todo) (hdone : t.done = s.done ++ [a])
    (hnone : t.current = none) (hdevice : t.device = a.apply s.device)
    (hdurable : ∀ k, t.durable.value k = s.durable.value k ∨
      s.Called k ∧ t.durable.value k = some (c.field k))
    (hpending : ∀ k v, t.pending k = some v → s.pending k = some v)
    (hreached : ∀ k, s.Called k →
      t.pending k = some (c.field k) ∨ t.durable.value k = some (c.field k))
    (hcreated : t.durable.created = true ↔ s.durable.created = true ∨ a = .openNamespace)
    (hcommit : t.commitResult.isSome ↔ s.commitResult.isSome ∨ a = .commit)
    (hcommitted : t.commitResult = some .ok → ∀ k, t.durable.value k = some (c.field k)) :
    t.Inv d p c := by
  have hcalled : t.called = s.called := by
    rw [called, called, hdone, hnone, hcurrent, Option.toList_none, Option.toList_some,
      List.append_nil]
  have hCalled : ∀ k, s.Called k ↔ t.Called k := fun k => by rw [Called, Called, hcalled]
  have hmem : ∀ b : Action, b ∈ t.done ↔ b ∈ s.done ∨ a = b := by
    intro b
    rw [hdone, List.mem_append, List.mem_singleton, eq_comm]
  refine ⟨?_, ?_, fun k => ?_, fun k v hv => ?_, fun k hk => hreached k ((hCalled k).2 hk), ?_, ?_,
    hcommitted⟩
  · rw [hcalled, htodo]
    exact h.program
  · rw [hdevice, hdone, List.foldl_append, ← h.device]
    rfl
  · rcases hdurable k with hk | hk
    · rw [hk]
      exact (h.durable k).imp_right fun hk => ⟨(hCalled k).1 hk.1, hk.2⟩
    · exact Or.inr ⟨(hCalled k).1 hk.1, hk.2⟩
  · obtain ⟨hk, hv⟩ := h.pending k v (hpending k v hv)
    exact ⟨(hCalled k).1 hk, hv⟩
  · rw [hcreated, h.created, hmem, or_assoc]
  · rw [hcommit, h.commit, hmem]

theorem inv_endCall (h : s.Inv d p c) (hc : p.credentials = some c) {err : EspErr}
    (hs : s.endCall err = some s') : s'.Inv d p c := by
  unfold endCall at hs
  obtain ⟨a, hcurrent, rfl⟩ := Option.map_eq_some_iff.1 hs
  rw [Action.exec_exec]
  by_cases hsucc : a.Succeeds fun _ => err
  · rw [if_pos hsucc]
    by_cases ho : a = .openNamespace
    · subst ho
      exact h.of_returned hcurrent rfl rfl rfl rfl (fun k => Or.inl rfl) (fun k v hv => hv)
        h.reached (by simp [returned]) (by simp [returned]) h.committed
    by_cases hcommit : a = .commit
    · subst hcommit
      by_cases herr : err = .ok
      · have hbefore : s.called = s.done ++ [.commit] := by rw [called, hcurrent]; rfl
        have hnew : ∀ k, s.Called k ∧
            (s.pending k).or (s.durable.value k) = some (c.field k) := by
          intro k
          have hk : s.Called k :=
            (mem_of_commit hc ⟨s.todo, h.program⟩ (hbefore ▸ List.mem_concat_self)).2 k
          exact ⟨hk, h.committed_value hk⟩
        have hret : s.returned err .commit = { s with
            durable := { s.durable with value := fun k => (s.pending k).or (s.durable.value k) }
            pending := fun _ => none
            commitResult := some err } := if_pos herr
        rw [hret]
        exact h.of_returned hcurrent rfl rfl rfl rfl (fun k => Or.inr (hnew k)) (fun _ _ => nofun)
          (fun k _ => Or.inr (hnew k).2) (by simp) (by simp) (fun _ k => (hnew k).2)
      · have hret : s.returned err .commit = { s with commitResult := some err } := if_neg herr
        rw [hret]
        exact h.of_returned hcurrent rfl rfl rfl rfl (fun k => Or.inl rfl) (fun _ _ hv => hv)
          h.reached (by simp) (by simp) fun heq => absurd (Option.some.inj heq) herr
    · rw [returned_eq s err ho hcommit]
      exact h.of_returned hcurrent rfl rfl rfl rfl (fun k => Or.inl rfl) (fun _ _ hv => hv)
        h.reached (by simp [ho]) (by simp [hcommit]) h.committed
  · rw [if_neg hsucc]
    exact ⟨h.program, h.device, h.durable, h.pending, h.reached, h.created, h.commit, h.committed⟩

theorem inv_persist (h : s.Inv d p c) {k : Key} (hs : s.persist k = some s') : s'.Inv d p c := by
  unfold persist at hs
  obtain ⟨v, hv, rfl⟩ := Option.map_eq_some_iff.1 hs
  obtain ⟨hk, rfl⟩ := h.pending k v hv
  have hput : ∀ k', k' ≠ k → (s.durable.put k (c.field k)).value k' = s.durable.value k' :=
    fun k' hne => Nvs.value_put_of_ne _ hne _
  have hkeep : ∀ k', k' ≠ k → Function.update s.pending k none k' = s.pending k' :=
    fun k' hne => Function.update_of_ne hne _ _
  have hself : (s.durable.put k (c.field k)).value k = some (c.field k) := Nvs.value_put_self ..
  refine ⟨h.program, h.device, fun k' => ?_, fun k' v' hv' => ?_, fun k' hk' => ?_, h.created,
    h.commit, fun hcommit k' => ?_⟩ <;> by_cases heq : k' = k
  · exact Or.inr ⟨heq ▸ hk, heq ▸ hself⟩
  · exact (hput k' heq).symm ▸ h.durable k'
  · subst heq
    exact absurd ((Function.update_self ..).symm.trans hv') nofun
  · exact h.pending k' v' ((hkeep k' heq).symm.trans hv')
  · exact Or.inr (heq ▸ hself)
  · exact (h.reached k' hk').imp (hkeep k' heq).trans (hput k' heq).trans
  · exact heq ▸ hself
  · exact (hput k' heq).trans (h.committed hcommit k')

/-- **What a step keeps.** -/
theorem inv_step {e : Event} (h : s.Inv d p c) (hc : p.credentials = some c)
    (hs : step s e = some s') : s'.Inv d p c := by
  unfold step at hs
  split_ifs at hs
  cases e with
  | call => exact inv_makeCall h hc hs
  | ret err => exact inv_endCall h hc hs
  | persist k => exact inv_persist h hs
  | powerLoss =>
    cases hs
    exact ⟨h.program, h.device, h.durable, h.pending, h.reached, h.created, h.commit, h.committed⟩

/-- **What a run keeps.** -/
theorem inv_run {es : List Event} (hc : p.credentials = some c)
    (hrun : run step (start d p) es = some s) : s.Inv d p c :=
  (throughout_of_invariant (fun _ _ _ h hs => inv_step h hc hs) inv_start es).last hrun

/-- **A run to the end** has changed the device as the handler does with a storage that works. -/
theorem exec_perform_of_run {es : List Event} (hc : p.credentials = some c)
    (hrun : run step (start d p) es = some s) (hcurrent : s.current = none) (htodo : s.todo = [])
    {flash : NvsCall → EspErr} (hflash : FlashWorks flash) :
    (perform flash p.actions).exec d = (.ok (), s.device) := by
  have h := inv_run hc hrun
  have hdone : s.done = p.actions := by
    rw [← h.program, called, hcurrent, htodo, Option.toList_none, List.append_nil,
      List.append_nil]
  rw [exec_perform_of_works hflash, h.device, hdone]

/-- The storage calls show nothing to the outside. -/
theorem foldl_apply_storeActions {ssid password hostIp : Bytes} {as : List Action}
    (has : ∀ a ∈ as, a ∈ storeActions ssid password hostIp) (d : Device) :
    (as.foldl Action.apply d).sema5 = d.sema5 ∧ (as.foldl Action.apply d).sent = d.sent := by
  induction as generalizing d with
  | nil => exact ⟨rfl, rfl⟩
  | cons a as ih =>
    have ha := has a List.mem_cons_self
    have hstep : (a.apply d).sema5 = d.sema5 ∧ (a.apply d).sent = d.sent := by
      simp only [storeActions, List.mem_cons, List.not_mem_nil, or_false] at ha
      rcases ha with rfl | rfl | rfl | rfl | rfl <;> exact ⟨rfl, rfl⟩
    have hrest := ih (fun b hb => has b (List.mem_cons_of_mem _ hb)) (a.apply d)
    exact ⟨hrest.1.trans hstep.1, hrest.2.trans hstep.2⟩

theorem Inv.done_prefix (h : s.Inv d p c) : s.done <+: p.actions := by
  rw [← h.program, called, List.append_assoc]
  exact List.prefix_append _ _

/-- What the server shows of a submission comes after the commit. -/
theorem Inv.commit_of_announced (h : s.Inv d p c) (hc : p.credentials = some c)
    (hann : s.device.sema5 ≠ d.sema5 ∨ s.device.sent ≠ d.sent) : .commit ∈ s.done := by
  cases p with
  | gaveUp response => cases hc
  | form ssid password hostIp =>
    have hstore : storeActions ssid password hostIp <+:
        (Prepared.form ssid password hostIp).actions := List.prefix_append _ _
    rcases List.prefix_or_prefix_of_prefix h.done_prefix hstore with hle | hle
    · have hsame := foldl_apply_storeActions (fun a ha => hle.subset ha) d
      rw [← h.device] at hsame
      rcases hann with hann | hann
      · exact absurd hsame.1 hann
      · exact absurd hsame.2 hann
    · exact hle.subset (by simp [storeActions])

theorem Inv.found_of_committed (h : s.Inv d p c) (hc : p.credentials = some c)
    (hcommitted : s.commitResult = some .ok) : s.durable.found = some c := by
  have hcommit := h.commit.1 (by rw [hcommitted]; rfl)
  have hopened := (mem_of_commit hc h.done_prefix hcommit).1
  exact Nvs.found_eq_some_iff.2
    (Nvs.holds_iff.2 ⟨h.created.2 (Or.inr hopened), h.committed hcommitted⟩)

end Storing

/-! ## What is found after a failure -/

/-- Nothing is stored in a namespace that does not exist. -/
def Nvs.Consistent (n : Nvs) : Prop := n.created = false → ∀ k, n.value k = none

theorem Nvs.found_congr {n m : Nvs} (hm : m.Consistent) (hcreated : m.created → n.created)
    (hvalue : ∀ k, n.value k = m.value k) : n.found = m.found := by
  cases hmc : m.created with
  | true => simp only [found, hmc, hcreated hmc, hvalue]
  | false =>
    have hmissing : n.value .ssid = none := (hvalue .ssid).trans (hm hmc .ssid)
    rw [found_eq_none_iff.2 (Or.inl hmc), found_eq_none_iff.2 (Or.inr ⟨_, hmissing⟩)]

/-- A submission is stored whole or not at all, and announced when it is. -/
structure AllOrNothing (d : Device) (c : Credentials) (s : Storing) : Prop where
  found : s.durable.found = d.nvs.found ∨ s.durable.found = some c
  announced : s.device.sema5 ≠ d.sema5 ∨ s.device.sent ≠ d.sent → s.durable.found = some c

/-- A submission is stored string by string. -/
structure FieldByField (d : Device) (c : Credentials) (s : Storing) : Prop where
  /-- Each string is the old one or, when its call has been made, perhaps the new one. -/
  field (k : Key) : s.durable.value k = d.nvs.value k ∨
    s.Called k ∧ s.durable.value k = some (c.field k)
  /-- What is found is the old set until the first string is called to be stored. -/
  untouched : (∀ k, ¬ s.Called k) → s.durable.found = d.nvs.found
  /-- Where there was a complete set, one is found. -/
  complete : d.nvs.found.isSome → s.durable.found.isSome
  /-- Where there was nothing, the new set is found or none. -/
  fresh : (∀ k, d.nvs.value k = none) → s.durable.found = none ∨ s.durable.found = some c
  /-- The new set is found after a commit that succeeded. -/
  committed : s.commitResult = some .ok → s.durable.found = some c
  /-- The flag is raised and the answer sent when all strings have been accepted and the commit has
  returned. -/
  announced : s.device.sema5 ≠ d.sema5 ∨ s.device.sent ≠ d.sent →
    (∀ k, ∃ v, .setStr k v ∈ s.done) ∧
      ∃ err, s.commitResult = some err ∧ (err = .ok → s.durable.found = some c)

/-- **What a failure can leave**: the strings are stored one by one, and this holds at every point
of a run, so of what is found if the device fails there. -/
theorem stored_field_by_field {d : Device} {p : Prepared} {c : Credentials}
    {es : List Storing.Event} {s : Storing} (hd : d.nvs.Consistent) (hc : p.credentials = some c)
    (hrun : run Storing.step (Storing.start d p) es = some s) : FieldByField d c s := by
  have h := Storing.inv_run hc hrun
  refine ⟨h.durable, fun hnone => ?_, fun hold => ?_, fun hempty => ?_, h.found_of_committed hc,
    fun hann => ?_⟩
  · exact Nvs.found_congr hd (fun hcreated => h.created.2 (Or.inl hcreated))
      fun k => (h.durable k).resolve_right fun hk => hnone k hk.1
  · obtain ⟨c₀, hc₀⟩ := Option.isSome_iff_exists.1 hold
    obtain ⟨hcreated, hvalue⟩ := Nvs.holds_iff.1 (Nvs.found_eq_some_iff.1 hc₀)
    rw [Option.isSome_iff_ne_none, ne_eq, Nvs.found_eq_none_iff, not_or, not_exists]
    refine ⟨by simp [h.created.2 (Or.inl hcreated)], fun k hk => ?_⟩
    rcases h.durable k with heq | ⟨-, heq⟩
    · rw [heq, hvalue k] at hk
      cases hk
    · rw [heq] at hk
      cases hk
  · cases hfound : s.durable.found with
    | none => exact Or.inl rfl
    | some c' =>
      have hholds := Nvs.found_eq_some_iff.1 hfound
      have hnew : s.durable.Holds c := by
        refine Nvs.holds_iff.2 ⟨hholds.created, fun k => ?_⟩
        rcases h.durable k with heq | ⟨-, heq⟩
        · rw [hempty k, (Nvs.holds_iff.1 hholds).2 k] at heq
          cases heq
        · exact heq
      rw [hholds.unique hnew]
      exact Or.inr rfl
  · have hcommit := h.commit_of_announced hc hann
    obtain ⟨err, herr⟩ := Option.isSome_iff_exists.1 (h.commit.2 hcommit)
    refine ⟨(Storing.mem_of_commit hc h.done_prefix hcommit).2, err, herr, fun hok => ?_⟩
    exact h.found_of_committed hc (hok ▸ herr)

/-- A form with the credentials of another network, in its buffers. -/
def schoolForm : Prepared :=
  .form (Buffer.padded 32 (ascii "escola")).bytes (Buffer.padded 64 (ascii "sala-12-b")).bytes
    (Buffer.padded 64 (ascii "10.0.0.7")).bytes

/-- The credentials in it. -/
def schoolCredentials : Credentials := ⟨ascii "escola", ascii "sala-12-b", ascii "10.0.0.7"⟩

/-- A run over the calls of the handler that all succeed. -/
def storingRun : List Storing.Event := (List.replicate 7 [.call, .ret .ok]).flatten

/-- A run that ends when the name is durable and nothing else. -/
def interruptedRun : List Storing.Event := [.call, .ret .ok, .call, .persist .ssid, .powerLoss]

/-- A run in which the commit fails. -/
def unsavedRun : List Storing.Event :=
  (List.replicate 4 [.call, .ret .ok]).flatten ++ [.call, .ret .errNvsNotEnoughSpace] ++
    (List.replicate 2 [.call, .ret .ok]).flatten

/-- A submission that is stored without a failure is announced when it is durable. -/
theorem stored_field_by_field_school :
    ∃ s, run Storing.step (Storing.start Wifi.homeDevice schoolForm) storingRun = some s ∧
      s.device.sent = [.text successText] ∧ s.durable.found = some schoolCredentials ∧
      FieldByField Wifi.homeDevice schoolCredentials s := by
  have hrun : ((run Storing.step (Storing.start Wifi.homeDevice schoolForm) storingRun).any
      fun s => s.device.sent = [.text successText] ∧ s.durable.found = some schoolCredentials) =
        true := by decide +kernel
  obtain ⟨s, hs, hfacts⟩ := (Option.any_eq_true _ _).1 hrun
  obtain ⟨hsent, hfound⟩ := of_decide_eq_true hfacts
  exact ⟨s, hs, hsent, hfound, stored_field_by_field nofun (by decide +kernel) hs⟩

/-- With the power lost after the first string, the name of the new network is found with the
password and the host of the old one; with a commit that fails, a submission is announced that is
not durable. -/
theorem mixed_credentials_found :
    (∃ s, run Storing.step (Storing.start Wifi.homeDevice schoolForm) interruptedRun = some s ∧
      s.durable.found = some ⟨ascii "escola", ascii "segredo99", ascii "192.168.0.10"⟩ ∧
      ¬ AllOrNothing Wifi.homeDevice schoolCredentials s) ∧
    ∃ s, run Storing.step (Storing.start Wifi.homeDevice schoolForm) unsavedRun = some s ∧
      s.device.sent = [.text successText] ∧ s.durable.found = some Wifi.homeCredentials ∧
      ¬ AllOrNothing Wifi.homeDevice schoolCredentials s := by
  have hmixed : ((run Storing.step (Storing.start Wifi.homeDevice schoolForm) interruptedRun).any
      fun s => s.durable.found =
        some ⟨ascii "escola", ascii "segredo99", ascii "192.168.0.10"⟩) = true := by decide +kernel
  have hunsaved : ((run Storing.step (Storing.start Wifi.homeDevice schoolForm) unsavedRun).any
      fun s => s.device.sent = [.text successText] ∧
        s.durable.found = some Wifi.homeCredentials) = true := by decide +kernel
  obtain ⟨s, hs, hfound⟩ := (Option.any_eq_true _ _).1 hmixed
  obtain ⟨t, ht, hfacts⟩ := (Option.any_eq_true _ _).1 hunsaved
  obtain ⟨hsent, hold⟩ := of_decide_eq_true hfacts
  refine ⟨⟨s, hs, of_decide_eq_true hfound, fun h => ?_⟩, t, ht, hsent, hold, fun h => ?_⟩
  · have hwhole := h.found
    rw [of_decide_eq_true hfound] at hwhole
    exact absurd hwhole (by decide)
  · have hnew := h.announced (Or.inr (by rw [hsent]; exact List.cons_ne_nil _ _))
    rw [hold] at hnew
    exact absurd hnew (by decide)

end HomeAssistant
