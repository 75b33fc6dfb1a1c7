import HomeAssistant.Provisioning.PostHandler
import Mathlib.Data.List.Basic

/-!
# A reader of query strings

The contract of the reader is met by the obvious one: split the query at `&`, take the pieces with
a `=` for fields, and look for the key among their names. `setupEnv` is the environment of a request
whose body arrives in one piece, with this reader and a storage that works.
-/

namespace HomeAssistant

open Form

/-- A piece of a query string, read as a field. -/
def parseField (piece : Bytes) : Option Field :=
  if equals ∈ piece then
    some ⟨piece.takeWhile (· != equals), (piece.dropWhile (· != equals)).tail⟩
  else none

/-- The reader of query strings. -/
def scanQuery : QueryKeyValue := fun query key n val =>
  match lookup (· == ·) ((query.splitOn ampersand).filterMap parseField) key with
  | none => (.errNotFound, val)
  | some v => (if v.length < n then .ok else .errHttpdResultTrunc, val.strlcpy v)

theorem parseField_text {f : Field} (hf : f.WellFormed) : parseField f.text = some f := by
  have hname : ∀ c ∈ f.name, (c != equals) = true := fun c hc => by
    simpa using fun h : c = equals => hf.equals_name (h ▸ hc)
  have htake : f.text.takeWhile (· != equals) = f.name := by
    rw [Field.text, List.takeWhile_append_of_pos hname]
    simp
  have hdrop : f.text.dropWhile (· != equals) = equals :: f.value := by
    rw [Field.text, List.dropWhile_append_of_pos hname]
    simp
  rw [parseField, if_pos (by simp [Field.text]), htake, hdrop]
  rfl

theorem parseField_tail {t : Bytes} (ht : Tail.WellFormed t) : parseField t = none :=
  if_neg ht.equals

theorem filterMap_parseField {fs : List Field} (hfs : ∀ f ∈ fs, f.WellFormed) :
    (fs.map Field.text).filterMap parseField = fs := by
  induction fs with
  | nil => rfl
  | cons f fs ih =>
    rw [List.map_cons, List.filterMap_cons, parseField_text (hfs f (by simp)),
      ih fun g hg => hfs g (List.mem_cons_of_mem _ hg)]

/-- **Splitting a query string gives back its fields.** -/
theorem filterMap_splitOn_queryText {fs : List Field} {tail : Option Bytes}
    (hfs : ∀ f ∈ fs, f.WellFormed) (ht : ∀ t ∈ tail, Tail.WellFormed t) :
    ((queryText fs tail).splitOn ampersand).filterMap parseField = fs := by
  by_cases hne : fs.map Field.text ++ tail.toList = []
  · obtain ⟨h₁, h₂⟩ := List.append_eq_nil_iff.1 hne
    obtain rfl := List.map_eq_nil_iff.1 h₁
    rw [queryText, hne]
    rfl
  · have hsep : ∀ l ∈ fs.map Field.text ++ tail.toList, ampersand ∉ l := by
      intro l hl
      rcases List.mem_append.1 hl with hl | hl
      · obtain ⟨f, hf, rfl⟩ := List.mem_map.1 hl
        exact (hfs f hf).ampersand_text
      · exact (ht l (by simpa using hl)).ampersand
    rw [queryText, List.splitOn_intercalate _ hsep hne, List.filterMap_append,
      filterMap_parseField hfs]
    cases tail with
    | none => simp
    | some t => simp [parseField_tail (ht t rfl)]

/-- **The reader meets its contract.** -/
theorem scanQuery_contract : QueryContract scanQuery (· == ·) where
  terminates query key n val h0 := by
    have hn : 0 < n := by
      rw [← val.length_bytes]
      exact List.length_pos_of_mem h0
    unfold scanQuery
    split
    · exact h0
    · exact val.zero_mem_strlcpy _ hn
  found val hfs ht _ h := by rw [scanQuery, filterMap_splitOn_queryText hfs ht, h]
  missing val hfs ht _ h := by rw [scanQuery, filterMap_splitOn_queryText hfs ht, h]

/-- The environment of a request whose body arrives in one piece. -/
def setupEnv (body : Bytes) : PostEnv where
  malloc n := some (Buffer.zeros n)
  recv n := if h : body.length ≤ n then .received body h else .error .fail
  queryKeyValue := scanQuery
  flash _ := .ok

theorem setupEnv_flashWorks (body : Bytes) : FlashWorks (setupEnv body).flash := fun _ => rfl

end HomeAssistant
