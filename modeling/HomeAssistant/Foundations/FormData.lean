import HomeAssistant.Foundations.PercentEncoding

/-!
# Form data

The body of a form post: fields `name=value` joined by `&` (`formText`), names and values in their
encoded form. A reader that has received only the first `k` bytes of a body has received the fields
in front of the cut, the field the cut falls into with what has arrived of its value, or instead of
that field a name that is still incomplete (`received`, `take_formText`). What it finds under a
key is the value of the full body, cut where the bytes received end (`lookup_received`).

How a reader compares a field's name with the key it looks for is left open: `same` is any
comparison.
-/

namespace HomeAssistant.Form

/-- The byte `&`. -/
abbrev ampersand : UInt8 := 0x26

/-- The byte `=`. -/
abbrev equals : UInt8 := 0x3D

/-- A field of a form, in its encoded form. -/
structure Field where
  name : Bytes
  value : Bytes
  deriving DecidableEq

namespace Field

/-- The text of a field. -/
def text (f : Field) : Bytes := f.name ++ equals :: f.value

/-- Names and values of a form do not contain the bytes that separate them, nor NUL. -/
structure WellFormed (f : Field) : Prop where
  equals_name : equals ∉ f.name
  ampersand_name : ampersand ∉ f.name
  zero_name : 0 ∉ f.name
  ampersand_value : ampersand ∉ f.value
  zero_value : 0 ∉ f.value

instance (f : Field) : Decidable f.WellFormed :=
  decidable_of_iff (equals ∉ f.name ∧ ampersand ∉ f.name ∧ 0 ∉ f.name ∧ ampersand ∉ f.value ∧
    0 ∉ f.value) ⟨fun ⟨h₁, h₂, h₃, h₄, h₅⟩ => ⟨h₁, h₂, h₃, h₄, h₅⟩,
      fun ⟨h₁, h₂, h₃, h₄, h₅⟩ => ⟨h₁, h₂, h₃, h₄, h₅⟩⟩

theorem length_text (f : Field) : f.text.length = f.name.length + f.value.length + 1 := by
  simp [text, Nat.add_assoc]

variable {f : Field}

theorem WellFormed.ampersand_text (h : f.WellFormed) : ampersand ∉ f.text := by
  simp [text, h.ampersand_name, h.ampersand_value, show ampersand ≠ equals by decide]

theorem WellFormed.zero_text (h : f.WellFormed) : 0 ∉ f.text := by
  simp [text, h.zero_name, h.zero_value, show (0 : UInt8) ≠ equals by decide]

theorem WellFormed.cut (h : f.WellFormed) (k : ℕ) :
    WellFormed ⟨f.name, f.value.take k⟩ where
  equals_name := h.equals_name
  ampersand_name := h.ampersand_name
  zero_name := h.zero_name
  ampersand_value := fun hm => h.ampersand_value (List.mem_of_mem_take hm)
  zero_value := fun hm => h.zero_value (List.mem_of_mem_take hm)

end Field

/-- An incomplete field name at the end of a text. -/
structure Tail.WellFormed (t : Bytes) : Prop where
  equals : equals ∉ t
  ampersand : ampersand ∉ t
  zero : 0 ∉ t

/-- Fields, and perhaps an incomplete field name behind them, as one text. -/
def queryText (fs : List Field) (tail : Option Bytes) : Bytes :=
  [ampersand].intercalate (fs.map Field.text ++ tail.toList)

/-- The text of a form. -/
def formText (fs : List Field) : Bytes := queryText fs none

/-- The value found under a key: that of the first field with this name. -/
def lookup (same : Bytes → Bytes → Bool) (fs : List Field) (key : Bytes) : Option Bytes :=
  (fs.find? fun f => same f.name key).map Field.value

/-- Where in the text of a form the value found under a key begins. -/
def valueOffset (same : Bytes → Bytes → Bool) : List Field → Bytes → ℕ
  | [], _ => 0
  | f :: fs, key =>
    if same f.name key then f.name.length + 1
    else f.text.length + 1 + valueOffset same fs key

/-- The fields in the first `k` bytes of a form, the last one perhaps with a part of its value
only, or an incomplete name at the end. -/
def received : List Field → ℕ → List Field × Option Bytes
  | [], _ => ([], none)
  | f :: fs, k =>
    if k ≤ f.name.length then ([], some (f.name.take k))
    else if k ≤ f.text.length then ([⟨f.name, f.value.take (k - f.name.length - 1)⟩], none)
    else (f :: (received fs (k - f.text.length - 1)).1, (received fs (k - f.text.length - 1)).2)

/-! ## The text of a form -/

theorem formText_nil : formText [] = [] := rfl

theorem queryText_nil_some (t : Bytes) : queryText [] (some t) = t := by
  simp [queryText]

theorem queryText_singleton (f : Field) : queryText [f] none = f.text := by
  simp [queryText]

theorem queryText_cons (f : Field) {fs : List Field} {tail : Option Bytes}
    (h : fs ≠ [] ∨ tail ≠ none) :
    queryText (f :: fs) tail = f.text ++ ampersand :: queryText fs tail := by
  have hne : fs.map Field.text ++ tail.toList ≠ [] := by
    rcases h with h | h
    · simp [h]
    · cases tail <;> simp_all
  obtain ⟨p, ps, hp⟩ := List.exists_cons_of_ne_nil hne
  rw [queryText, queryText, List.map_cons, List.cons_append, hp, List.intercalate_cons_cons]
  simp

theorem formText_cons_cons (f g : Field) (fs : List Field) :
    formText (f :: g :: fs) = f.text ++ ampersand :: formText (g :: fs) :=
  queryText_cons f (Or.inl (List.cons_ne_nil g fs))

theorem zero_notMem_formText {fs : List Field} (h : ∀ f ∈ fs, f.WellFormed) :
    0 ∉ formText fs := by
  induction fs with
  | nil => simp [formText_nil]
  | cons f fs ih =>
    have hf := (h f (by simp)).zero_text
    rcases fs with _ | ⟨g, fs⟩
    · rwa [formText, queryText_singleton]
    · rw [formText_cons_cons, List.mem_append, List.mem_cons]
      rintro (hm | hm | hm)
      · exact hf hm
      · exact absurd hm (by decide)
      · exact ih (fun f hf => h f (List.mem_cons_of_mem _ hf)) hm

/-! ## What is received -/

theorem received_ne_nil {fs : List Field} (h : fs ≠ []) (k : ℕ) :
    (received fs k).1 ≠ [] ∨ (received fs k).2 ≠ none := by
  obtain ⟨f, fs, rfl⟩ := List.exists_cons_of_ne_nil h
  unfold received
  split_ifs <;> simp

/-- **The first bytes of a form** are the text of what is received of it. -/
theorem take_formText (fs : List Field) (k : ℕ) :
    (formText fs).take k = queryText (received fs k).1 (received fs k).2 := by
  induction fs generalizing k with
  | nil => simp [formText_nil, received, queryText]
  | cons f fs ih =>
    have hlen := f.length_text
    obtain ⟨r, hr⟩ : ∃ r, formText (f :: fs) = f.text ++ r := by
      rcases fs with _ | ⟨g, fs⟩
      · exact ⟨[], by rw [formText, queryText_singleton, List.append_nil]⟩
      · exact ⟨_, formText_cons_cons f g fs⟩
    unfold received
    split_ifs with h₁ h₂
    · rw [queryText_nil_some, hr, Field.text, List.append_assoc,
        List.take_append_of_le_length h₁]
    · rw [queryText_singleton, hr, List.take_append_of_le_length h₂, Field.text, Field.text,
        List.take_append, List.take_of_length_le (by omega)]
      obtain ⟨j, hj⟩ : ∃ j, k - f.name.length = j + 1 := ⟨k - f.name.length - 1, by omega⟩
      rw [hj, List.take_succ_cons, Nat.add_sub_cancel]
    · rcases fs with _ | ⟨g, fs⟩
      · rw [formText, queryText_singleton, List.take_of_length_le (by omega)]
        exact (queryText_singleton f).symm
      · rw [queryText_cons f (received_ne_nil (List.cons_ne_nil g fs) _), ← ih,
          formText_cons_cons, List.take_append, List.take_of_length_le (by omega)]
        obtain ⟨j, hj⟩ : ∃ j, k - f.text.length = j + 1 := ⟨k - f.text.length - 1, by omega⟩
        rw [hj, List.take_succ_cons, Nat.add_sub_cancel]

theorem received_wellFormed {fs : List Field} (h : ∀ f ∈ fs, f.WellFormed) (k : ℕ) :
    (∀ f ∈ (received fs k).1, f.WellFormed) ∧ ∀ t ∈ (received fs k).2, Tail.WellFormed t := by
  induction fs generalizing k with
  | nil => simp [received]
  | cons f fs ih =>
    have hf := h f (by simp)
    have ih' := ih (fun g hg => h g (List.mem_cons_of_mem _ hg)) (k - f.text.length - 1)
    unfold received
    split_ifs
    · refine ⟨by simp, fun t ht => ?_⟩
      obtain rfl : f.name.take k = t := by simpa using ht
      exact ⟨fun hm => hf.equals_name (List.mem_of_mem_take hm),
        fun hm => hf.ampersand_name (List.mem_of_mem_take hm),
        fun hm => hf.zero_name (List.mem_of_mem_take hm)⟩
    · refine ⟨fun g hg => ?_, by simp⟩
      rw [List.mem_singleton.1 hg]
      exact hf.cut _
    · refine ⟨fun g hg => ?_, ih'.2⟩
      rcases List.mem_cons.1 hg with rfl | hg
      · exact hf
      · exact ih'.1 g hg

variable (same : Bytes → Bytes → Bool)

theorem lookup_nil (key : Bytes) : lookup same [] key = none := rfl

theorem lookup_cons (f : Field) (fs : List Field) (key : Bytes) :
    lookup same (f :: fs) key = if same f.name key then some f.value else lookup same fs key := by
  rw [lookup, List.find?_cons]
  split <;> simp_all [lookup]

/-- **What is found under a key in the first `k` bytes of a form**: nothing, if its value begins
behind them, and else as much of its value as they hold. -/
theorem lookup_received (fs : List Field) (key : Bytes) (k : ℕ) :
    lookup same (received fs k).1 key =
      if valueOffset same fs key ≤ k then
        (lookup same fs key).map (List.take (k - valueOffset same fs key))
      else none := by
  induction fs generalizing k with
  | nil => simp [received, lookup_nil]
  | cons f fs ih =>
    have hlen := f.length_text
    unfold received valueOffset
    rw [lookup_cons]
    by_cases hs : same f.name key
    · simp only [hs, if_true]
      split_ifs with h₁ h₂ h₃ h₃ h₃ <;> try omega
      · rfl
      · rw [lookup_cons, if_pos hs, Option.map_some, Nat.sub_sub]
      · rw [lookup_cons, if_pos hs, Option.map_some, List.take_of_length_le (by omega)]
    · simp only [hs, Bool.false_eq_true, if_false]
      split_ifs with h₁ h₂ h₃ h₃ h₃ <;> try omega
      · rfl
      · rw [lookup_cons, if_neg hs, lookup_nil]
      · rw [lookup_cons, if_neg hs, ih, if_pos (by omega)]
        congr 2
        omega
      · rw [lookup_cons, if_neg hs, ih, if_neg (by omega)]

end HomeAssistant.Form
