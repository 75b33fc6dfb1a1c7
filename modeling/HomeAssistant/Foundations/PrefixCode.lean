import Mathlib.InformationTheory.Coding.UniquelyDecodable

/-!
# Prefix codes

A code without the empty word in which no word begins another one is uniquely decodable: the words
of a text made of its words can be told apart from the front.
-/

namespace HomeAssistant.PrefixCode

open InformationTheory

variable {α : Type*} {S : Set (List α)}

/-- No word is empty, and no word is a proper prefix of another. -/
structure PrefixFree (S : Set (List α)) : Prop where
  ne_nil : ∀ w ∈ S, w ≠ []
  eq_of_prefix : ∀ u ∈ S, ∀ v ∈ S, u <+: v → u = v

/-- Two words that begin the same text are the same. -/
theorem PrefixFree.eq_of_append_eq (h : PrefixFree S) {u v : List α} (hu : u ∈ S) (hv : v ∈ S)
    {r t : List α} (heq : u ++ r = v ++ t) : u = v := by
  have hur : u <+: v ++ t := heq ▸ List.prefix_append u r
  rcases List.prefix_or_prefix_of_prefix hur (List.prefix_append v t) with huv | hvu
  · exact h.eq_of_prefix u hu v hv huv
  · exact (h.eq_of_prefix v hv u hu hvu).symm

/-- **Prefix codes are uniquely decodable.** -/
theorem PrefixFree.uniquelyDecodable (h : PrefixFree S) : UniquelyDecodable S := by
  intro us vs hus hvs heq
  induction us generalizing vs with
  | nil =>
    cases vs with
    | nil => rfl
    | cons v vs =>
      rw [List.flatten_nil, List.flatten_cons] at heq
      exact absurd (List.append_eq_nil_iff.1 heq.symm).1 (h.ne_nil v (hvs v List.mem_cons_self))
  | cons u us ih =>
    cases vs with
    | nil =>
      rw [List.flatten_nil, List.flatten_cons] at heq
      exact absurd (List.append_eq_nil_iff.1 heq).1 (h.ne_nil u (hus u List.mem_cons_self))
    | cons v vs =>
      rw [List.flatten_cons, List.flatten_cons] at heq
      obtain rfl := h.eq_of_append_eq (hus u List.mem_cons_self) (hvs v List.mem_cons_self) heq
      rw [ih vs (fun w hw => hus w (List.mem_cons_of_mem _ hw))
        (fun w hw => hvs w (List.mem_cons_of_mem _ hw)) (List.append_cancel_left heq)]

end HomeAssistant.PrefixCode
