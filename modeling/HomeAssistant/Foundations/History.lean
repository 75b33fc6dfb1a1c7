import Mathlib.Data.List.DropRight
import Mathlib.Data.List.Infix

/-!
# Histories

The history of a component is the list of the events it has handled, the latest at its end. What
counts for a component that starts anew at some event `r` is what has come since the last `r`
(`since`), and whether a row of events without `r` has ever been long (`HasRow`). What an event has
brought about stands until another one puts an end to it (`Stands`). All are described by what one
more event does to them (`since_concat_of_ne`, `hasRow_concat`, `stands_concat`).
-/

namespace HomeAssistant.History

section

variable {α : Type*} {P : List α → α → Prop} {Q : α → Prop} {e : α} {es : List α}

/-- An event has come that met `P` after those before it, and none with `Q` since. -/
def Stands (P : List α → α → Prop) (Q : α → Prop) (es : List α) : Prop :=
  ∃ pre e post, es = pre ++ e :: post ∧ P pre e ∧ ∀ e' ∈ post, ¬ Q e'

theorem not_stands_nil : ¬ Stands P Q [] := by
  rintro ⟨pre, e, post, heq, -⟩
  exact List.append_ne_nil_of_right_ne_nil pre (List.cons_ne_nil e post) heq.symm

/-- **What stands, event by event.** -/
theorem stands_concat : Stands P Q (es ++ [e]) ↔ P es e ∨ Stands P Q es ∧ ¬ Q e := by
  constructor
  · rintro ⟨pre, e', post, heq, hP, hpost⟩
    induction post using List.reverseRecOn with
    | nil =>
      obtain ⟨rfl, rfl⟩ := List.append_singleton_inj.1 heq
      exact Or.inl hP
    | append_singleton post e'' _ =>
      rw [← List.cons_append, ← List.append_assoc] at heq
      obtain ⟨rfl, rfl⟩ := List.append_singleton_inj.1 heq
      exact Or.inr ⟨⟨pre, e', post, rfl, hP, fun e₁ h => hpost e₁ (List.mem_append_left _ h)⟩,
        hpost e List.mem_concat_self⟩
  · rintro (hP | ⟨⟨pre, e', post, rfl, hP, hpost⟩, hQ⟩)
    · exact ⟨es, e, [], rfl, hP, List.forall_mem_nil _⟩
    · refine ⟨pre, e', post ++ [e], by simp, hP, fun e₁ h => ?_⟩
      rcases List.mem_append.1 h with h | h
      · exact hpost e₁ h
      · rwa [List.mem_singleton.1 h]

end

variable {α : Type*} [DecidableEq α]

/-- The history up to the last `r`, which it ends in. -/
def upTo (r : α) (es : List α) : List α := es.rdropWhile (· ≠ r)

/-- The events since the last `r`. -/
def since (r : α) (es : List α) : List α := es.rtakeWhile (· ≠ r)

/-- Some row of events without `r` has more than `n` times `d`. -/
def HasRow (r d : α) (n : ℕ) (es : List α) : Prop :=
  ∃ row, row <:+: es ∧ r ∉ row ∧ n < row.count d

variable {r d e : α} {n : ℕ} {es : List α}

theorem upTo_concat_self : upTo r (es ++ [r]) = es ++ [r] :=
  List.rdropWhile_concat_neg _ _ r (by simp)

theorem upTo_concat_of_ne (h : e ≠ r) : upTo r (es ++ [e]) = upTo r es :=
  List.rdropWhile_concat_pos _ _ e (by simpa using h)

theorem since_concat_self : since r (es ++ [r]) = [] :=
  List.rtakeWhile_concat_neg _ _ r (by simp)

theorem since_concat_of_ne (h : e ≠ r) : since r (es ++ [e]) = since r es ++ [e] :=
  List.rtakeWhile_concat_pos _ _ e (by simpa using h)

theorem notMem_since : r ∉ since r es := fun h => by
  simpa using List.mem_rtakeWhile_imp h

theorem since_suffix : since r es <:+ es := List.rtakeWhile_suffix _ es

/-- A row at the end of a history has come since the last `r`. -/
theorem suffix_since {row : List α} (h : row <:+ es) (hr : r ∉ row) : row <:+ since r es := by
  obtain ⟨pre, rfl⟩ := h
  induction row using List.reverseRecOn with
  | nil => exact List.nil_suffix
  | append_singleton row e ih =>
    simp only [List.mem_append, List.mem_singleton, not_or] at hr
    rw [← List.append_assoc, since_concat_of_ne (Ne.symm hr.2)]
    obtain ⟨t, ht⟩ := ih hr.1
    exact ⟨t, by rw [← ht, List.append_assoc]⟩

theorem hasRow_nil : ¬ HasRow r d n [] := by
  rintro ⟨row, hrow, -, hn⟩
  rw [List.infix_nil.1 hrow] at hn
  exact absurd hn (Nat.not_lt_zero n)

theorem HasRow.mono {pre : List α} (h : HasRow r d n pre) (hpre : pre <+: es) :
    HasRow r d n es := by
  obtain ⟨row, hrow, hr, hn⟩ := h
  exact ⟨row, hrow.trans hpre.isInfix, hr, hn⟩

theorem hasRow_of_since (h : n < (since r es).count d) : HasRow r d n es :=
  ⟨_, since_suffix.isInfix, notMem_since, h⟩

/-- **Long rows, event by event**: a row is long before an event or is long at it. -/
theorem hasRow_concat :
    HasRow r d n (es ++ [e]) ↔ HasRow r d n es ∨ n < (since r (es ++ [e])).count d := by
  constructor
  · rintro ⟨row, hrow, hr, hn⟩
    rcases List.infix_concat_iff.1 hrow with hsuffix | hinfix
    · exact Or.inr (hn.trans_le ((suffix_since hsuffix hr).sublist.count_le d))
    · exact Or.inl ⟨row, hinfix, hr, hn⟩
  · rintro (h | hn)
    · exact h.mono (List.prefix_append es [e])
    · exact hasRow_of_since hn

end HomeAssistant.History
