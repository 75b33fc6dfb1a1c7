import Mathlib.Data.List.Basic
import Mathlib.Tactic.Common

/-!
# C strings in fixed-size buffers

A buffer is a block of memory whose size is fixed by its declaration or its allocation. Storing
into it is a partial operation: a store past the end is a `Fault`, never a longer buffer. A C
string is what the string functions read off a block, its bytes up to the first NUL
(`cstr`).

The three ways a program fills a buffer are `Buffer.write` (a plain copy of bytes),
`Buffer.strlcpy` (cut to the capacity and terminated) and `Buffer.strncpy` (cut or NUL-padded to a
count, terminated only if the string is shorter than the count).
-/

namespace HomeAssistant

/-- Strings of bytes. -/
abbrev Bytes := List UInt8

/-- The bytes of an ASCII text. -/
def ascii (s : String) : Bytes := s.toList.map Char.toUInt8

/-- The ways a C function can fail to return. -/
inductive Fault
  /-- `abort()`, as a failed check calls it. -/
  | abort
  /-- A store outside the block it is meant for. -/
  | outOfBounds
  /-- An access through a null pointer. -/
  | nullPointer
  deriving DecidableEq

/-! ## C strings -/

/-- The C string that a block of memory starts with. -/
def cstr (b : Bytes) : Bytes := b.takeWhile (· != 0)

@[simp] theorem cstr_nil : cstr [] = [] := rfl

@[simp] theorem cstr_zero_cons (b : Bytes) : cstr (0 :: b) = [] := rfl

theorem cstr_cons {c : UInt8} (hc : c ≠ 0) (b : Bytes) : cstr (c :: b) = c :: cstr b := by
  simp [cstr, hc]

theorem cstr_append {s : Bytes} (hs : 0 ∉ s) (r : Bytes) : cstr (s ++ r) = s ++ cstr r := by
  induction s with
  | nil => rfl
  | cons c s ih =>
    rw [List.cons_append, cstr_cons (by rintro rfl; simp at hs), ih (by simp_all),
      List.cons_append]

theorem cstr_of_zero_notMem {s : Bytes} (hs : 0 ∉ s) : cstr s = s := by
  simpa using cstr_append hs []

/-- What stands after a NUL is not part of the C string. -/
@[simp] theorem cstr_append_zero_cons (s r : Bytes) : cstr (s ++ 0 :: r) = cstr s := by
  induction s with
  | nil => rfl
  | cons c s ih =>
    by_cases hc : c = 0
    · subst hc; rfl
    · rw [List.cons_append, cstr_cons hc, cstr_cons hc, ih]

/-- A string cut off a block together with its terminator. -/
theorem cstr_take_append_zero {s : Bytes} (hs : 0 ∉ s) (r : Bytes) {n : ℕ} (hn : s.length < n) :
    cstr ((s ++ 0 :: r).take n) = s := by
  obtain ⟨k, hk⟩ : ∃ k, n - s.length = k + 1 := ⟨n - s.length - 1, by omega⟩
  rw [List.take_append, List.take_of_length_le (Nat.le_of_lt hn), hk, List.take_succ_cons,
    cstr_append_zero_cons, cstr_of_zero_notMem hs]

@[simp] theorem cstr_append_replicate (s : Bytes) (k : ℕ) :
    cstr (s ++ List.replicate k 0) = cstr s := by
  cases k with
  | zero => rw [List.replicate_zero, List.append_nil]
  | succ k => rw [List.replicate_succ, cstr_append_zero_cons]

@[simp] theorem zero_notMem_cstr (b : Bytes) : 0 ∉ cstr b := by
  induction b with
  | nil => simp
  | cons c b ih =>
    by_cases hc : c = 0
    · simp [hc]
    · simp [cstr_cons hc, ih, Ne.symm hc]

theorem length_cstr_le (b : Bytes) : (cstr b).length ≤ b.length :=
  (List.takeWhile_prefix _).length_le

theorem length_cstr_lt {b : Bytes} (h : 0 ∈ b) : (cstr b).length < b.length := by
  obtain ⟨s, r, rfl⟩ := List.append_of_mem h
  have := length_cstr_le s
  rw [cstr_append_zero_cons, List.length_append, List.length_cons]
  omega

/-! ## Buffers -/

/-- A block of `n` bytes of memory. -/
@[ext] structure Buffer (n : ℕ) where
  bytes : Bytes
  length_bytes : bytes.length = n
  deriving DecidableEq

namespace Buffer

variable {n : ℕ}

/-- The zero-initialised buffer. -/
def zeros (n : ℕ) : Buffer n := ⟨List.replicate n 0, List.length_replicate⟩

/-- The C string a buffer holds. -/
def str (b : Buffer n) : Bytes := cstr b.bytes

/-- Copy bytes to the start of a buffer. -/
def write (b : Buffer n) (s : Bytes) : Except Fault (Buffer n) :=
  if h : s.length ≤ n then
    .ok ⟨s ++ b.bytes.drop s.length, by simp [b.length_bytes]; omega⟩
  else .error .outOfBounds

/-- Store one byte at an index. -/
def set (b : Buffer n) (i : ℕ) (c : UInt8) : Except Fault (Buffer n) :=
  if i < n then .ok ⟨b.bytes.set i c, by simp [b.length_bytes]⟩ else .error .outOfBounds

/-- Copy a string, cut to what fits before a terminator. An empty buffer is left alone. -/
def strlcpy (b : Buffer n) (s : Bytes) : Buffer n :=
  ⟨(s.take (n - 1) ++ 0 :: b.bytes.drop ((s.take (n - 1)).length + 1)).take n, by
    have := b.length_bytes
    simp only [List.length_take, List.length_append, List.length_cons, List.length_drop]
    omega⟩

/-- `strncpy`: copy a C string up to `count` bytes and pad it with NULs to `count` bytes. -/
def strncpy (b : Buffer n) (s : Bytes) (count : ℕ) : Except Fault (Buffer n) :=
  b.write ((cstr s).take count ++ List.replicate (count - (cstr s).length) 0)

/-- A string cut to a buffer, or padded with NULs to fill it. -/
def padded (n : ℕ) (s : Bytes) : Buffer n :=
  ⟨s.take n ++ List.replicate (n - s.length) 0, by
    simp only [List.length_append, List.length_take, List.length_replicate]
    omega⟩

@[simp] theorem str_zeros (n : ℕ) : (zeros n).str = [] := by
  cases n <;> rfl

theorem write_of_le (b : Buffer n) {s : Bytes} (h : s.length ≤ n) :
    b.write s = .ok ⟨s ++ b.bytes.drop s.length, by simp [b.length_bytes]; omega⟩ :=
  dif_pos h

theorem set_of_lt (b : Buffer n) {i : ℕ} (c : UInt8) (h : i < n) :
    b.set i c = .ok ⟨b.bytes.set i c, by simp [b.length_bytes]⟩ :=
  if_pos h

theorem write_error {b : Buffer n} {s : Bytes} {f : Fault} (h : b.write s = .error f) :
    f = .outOfBounds := by
  unfold write at h
  split at h
  · cases h
  · cases h
    rfl

theorem set_error {b : Buffer n} {i : ℕ} {c : UInt8} {f : Fault} (h : b.set i c = .error f) :
    f = .outOfBounds := by
  unfold set at h
  split at h
  · cases h
  · cases h
    rfl

/-- A terminated string that was written into a buffer is the C string read back. -/
theorem str_write_terminated {b b' : Buffer n} {s : Bytes} (h : b.write (s ++ [0]) = .ok b') :
    b'.str = cstr s := by
  unfold write at h
  split at h
  · cases h
    simp [str, List.append_assoc]
  · cases h

/-- **The string held after a cut copy** is what fits before the terminator. -/
theorem str_strlcpy (b : Buffer n) {s : Bytes} (hn : 0 < n) (hs : 0 ∉ s) :
    (b.strlcpy s).str = s.take (n - 1) := by
  have hs' : 0 ∉ s.take (n - 1) := fun h => hs (List.mem_of_mem_take h)
  have hlen : (s.take (n - 1)).length < n := by rw [List.length_take]; omega
  exact cstr_take_append_zero hs' _ hlen

@[simp] theorem bytes_padded (s : Bytes) :
    (padded n s).bytes = s.take n ++ List.replicate (n - s.length) 0 := rfl

theorem write_of_length_eq (b : Buffer n) {s : Bytes} (h : s.length = n) :
    b.write s = .ok ⟨s, h⟩ := by
  rw [write_of_le b (Nat.le_of_eq h)]
  congr 1
  ext1
  show s ++ b.bytes.drop s.length = s
  rw [List.drop_eq_nil_of_le (Nat.le_of_eq (b.length_bytes.trans h.symm)), List.append_nil]

theorem strncpy_size (b : Buffer n) (s : Bytes) : b.strncpy s n = .ok (padded n (cstr s)) :=
  write_of_length_eq b (padded n (cstr s)).length_bytes

theorem str_padded {s : Bytes} (hs : 0 ∉ s) (hlen : s.length ≤ n) : (padded n s).str = s := by
  rw [str, bytes_padded, List.take_of_length_le hlen, cstr_append_replicate,
    cstr_of_zero_notMem hs]

theorem padded_inj {s t : Bytes} (hs : 0 ∉ s) (ht : 0 ∉ t) (hsn : s.length ≤ n)
    (htn : t.length ≤ n) : padded n s = padded n t ↔ s = t := by
  refine ⟨fun h => ?_, fun h => by rw [h]⟩
  rw [← str_padded hs hsn, h, str_padded ht htn]

theorem zero_mem_strlcpy (b : Buffer n) (s : Bytes) (hn : 0 < n) : 0 ∈ (b.strlcpy s).bytes := by
  have hlen : (s.take (n - 1)).length < n := by rw [List.length_take]; omega
  obtain ⟨k, hk⟩ : ∃ k, n - (s.take (n - 1)).length = k + 1 :=
    ⟨n - (s.take (n - 1)).length - 1, by omega⟩
  show 0 ∈ (_ ++ 0 :: _).take n
  rw [List.take_append, hk, List.take_succ_cons]
  simp

end Buffer

/-- **Receiving a message**: a message that leaves room for its terminator can be copied and
terminated. The buffer then holds its C string, and its bytes in front of the terminator. -/
theorem Buffer.exists_terminated {n : ℕ} (b : Buffer n) {s : Bytes} (h : s.length < n) :
    ∃ b₁ b₂, b.write s = .ok b₁ ∧ b₁.set s.length 0 = .ok b₂ ∧ b₂.str = cstr s ∧
      b₂.bytes.take s.length = s := by
  have hrest : b.bytes.drop s.length ≠ [] := by
    rw [← List.length_pos_iff, List.length_drop, b.length_bytes]
    omega
  obtain ⟨c, r, hr⟩ := List.exists_cons_of_ne_nil hrest
  refine ⟨_, _, b.write_of_le (Nat.le_of_lt h), Buffer.set_of_lt _ 0 h, ?_, ?_⟩
  · show cstr ((s ++ b.bytes.drop s.length).set s.length 0) = cstr s
    rw [hr, List.set_append_right _ _ (Nat.le_refl _), Nat.sub_self, List.set_cons_zero,
      cstr_append_zero_cons]
  · show ((s ++ b.bytes.drop s.length).set s.length 0).take s.length = s
    rw [List.take_set_of_le (Nat.le_refl _), List.take_left]

/-- Store a message at the start of a buffer and put a NUL behind it. -/
def Buffer.terminate {n : ℕ} (b : Buffer n) (s : Bytes) : Except Fault (Buffer n) := do
  let b ← b.write s
  b.set s.length 0

/-- A message that cannot be terminated is stored out of bounds. -/
theorem Buffer.terminate_error {n : ℕ} {b : Buffer n} {s : Bytes} {f : Fault}
    (h : b.terminate s = .error f) : f = .outOfBounds := by
  unfold terminate at h
  cases hwrite : b.write s with
  | error f' =>
    rw [hwrite] at h
    cases h
    exact write_error hwrite
  | ok b' =>
    rw [hwrite] at h
    exact set_error h

/-- A message that leaves room for its terminator is stored, and read back as a C string. -/
theorem Buffer.exists_terminate {n : ℕ} (b : Buffer n) {s : Bytes} (h : s.length < n) :
    ∃ b', b.terminate s = .ok b' ∧ b'.str = cstr s := by
  obtain ⟨b₁, b₂, hwrite, hset, hstr, -⟩ := b.exists_terminated h
  refine ⟨b₂, ?_, hstr⟩
  rw [terminate, hwrite]
  exact hset

/-- **When a message can be terminated** in its buffer. -/
theorem Buffer.terminate_ne_outOfBounds_iff {n : ℕ} (b : Buffer n) (s : Bytes) :
    b.terminate s ≠ .error .outOfBounds ↔ s.length < n := by
  constructor
  · intro h
    by_contra hlt
    apply h
    unfold terminate
    by_cases hle : s.length ≤ n
    · rw [b.write_of_le hle]
      exact if_neg hlt
    · rw [write, dif_neg hle]
      rfl
  · intro h
    obtain ⟨b', hb', -⟩ := b.exists_terminate h
    rw [hb']
    exact nofun

end HomeAssistant
