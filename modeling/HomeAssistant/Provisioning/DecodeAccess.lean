import HomeAssistant.Foundations.Effects
import HomeAssistant.Provisioning.UrlDecode

/-!
# What the decoder reads and writes

`url_decode` looks two bytes ahead where it finds a `%`, and does not know the length of its string.
It is modelled here access by access: on a memory without end, with a record of the positions read
and the bytes written. The order of its tests keeps it inside the string, whatever incomplete escape
stands at the end (`exec_testEscape_literal`), so that it ends, reads nothing behind the terminator
and writes one byte for each token and a terminator (`url_decode_inside`).
-/

namespace HomeAssistant

open Form

/-- The accesses of a call: the positions read, from `src` on, and the bytes written, from `dst`
on. -/
structure Accesses where
  reads : List ℕ
  written : Bytes

namespace UrlDecode

/-- `*src` and its like: read the byte at a position. -/
def load (mem : ℕ → UInt8) (p : ℕ) : Eff Accesses UInt8 := do
  Eff.update fun a => { a with reads := a.reads ++ [p] }
  return mem p

/-- `*dst++ = c`: write the next byte. -/
def store (c : UInt8) : Eff Accesses Unit :=
  Eff.update fun a => { a with written := a.written ++ [c] }

variable (mem : ℕ → UInt8)

/-- The test for an escape, which yields its two digits. A byte is read only if those in front of it
have passed their tests. -/
def testEscape (src : ℕ) : Eff Accesses (Option (UInt8 × UInt8)) := do
  if (← load mem src) = percent then
    let a ← load mem (src + 1)
    if a = 0 then return none
    let b ← load mem (src + 2)
    if b = 0 then return none
    return if isxdigit a ∧ isxdigit b then some (a, b) else none
  else return none

/-- A round of the loop, which yields the next position. -/
def round (src : ℕ) : Eff Accesses ℕ := do
  match ← testEscape mem src with
  | some (a, b) =>
    store (16 * digitValue a + digitValue b)
    return src + 3
  | none =>
    if (← load mem src) = plus then
      store space
      return src + 1
    else
      store (← load mem src)
      return src + 1

/-- The loop and the terminator behind it, for at most so many tests of the loop. The value says
whether they have been enough. -/
def loop : ℕ → ℕ → Eff Accesses Bool
  | 0, _ => return false
  | fuel + 1, src => do
    if (← load mem src) = 0 then
      store 0
      return true
    else
      let src ← round mem src
      loop fuel src

/-- The memory holds the string and its terminator from a position on. -/
def HoldsString (p : ℕ) : Bytes → Prop
  | [] => mem p = 0
  | c :: s => (mem p = c ∧ c ≠ 0) ∧ HoldsString (p + 1) s

/-- No position behind `n` has been read. -/
def Within (n : ℕ) (a : Accesses) : Prop := ∀ q ∈ a.reads, q ≤ n

/-- The accesses after a read. -/
def reading (p : ℕ) (a : Accesses) : Accesses := { a with reads := a.reads ++ [p] }

/-- The accesses after a write. -/
def writing (c : UInt8) (a : Accesses) : Accesses := { a with written := a.written ++ [c] }

variable {mem} {n p : ℕ} {a : Accesses} {s : Bytes}

@[simp] theorem exec_load (p : ℕ) (a : Accesses) :
    (load mem p).exec a = (.ok (mem p), reading p a) := rfl

@[simp] theorem exec_store (c : UInt8) (a : Accesses) :
    (store c).exec a = (.ok (), writing c a) := rfl

theorem Within.reading (h : Within n a) (hp : p ≤ n) : Within n (reading p a) := by
  intro q hq
  rcases List.mem_append.1 hq with hq | hq
  · exact h q hq
  · rw [List.mem_singleton.1 hq]
    exact hp

theorem Within.writing (h : Within n a) (c : UInt8) : Within n (writing c a) := h

/-! ## The look-ahead -/

theorem exec_testEscape_escape {x y : UInt8} (h : HoldsString mem p (percent :: x :: y :: s))
    (hx : isHexDigit x) (hy : isHexDigit y) (a : Accesses) :
    (testEscape mem p).exec a =
      (.ok (some (x, y)), reading (p + 2) (reading (p + 1) (reading p a))) := by
  obtain ⟨⟨hc, -⟩, ⟨hx₁, hx0⟩, ⟨hy₁, hy0⟩, -⟩ := h
  simp only [testEscape, Eff.exec_bind, exec_load, hc, hx₁, hx0, hy₁, hy0, isxdigit, hx, hy,
    and_self, if_true, if_false, Eff.exec_pure]

/-- **A test that finds no escape** reads no further than the terminator, wherever the string
ends. -/
theorem exec_testEscape_literal {c : UInt8} (h : HoldsString mem p (c :: s))
    (hx : ¬ BeginsEscape (c :: s)) (hn : p + s.length + 1 ≤ n) (ha : Within n a) :
    ∃ a', (testEscape mem p).exec a = (.ok none, a') ∧ Within n a' ∧ a'.written = a.written := by
  obtain ⟨⟨hc, -⟩, h⟩ := h
  have ha₀ : Within n (reading p a) := ha.reading (by omega)
  by_cases hp : c = percent
  · have ha₁ : Within n (reading (p + 1) (reading p a)) := ha₀.reading (by omega)
    match s with
    | [] =>
      have h0 : mem (p + 1) = 0 := h
      refine ⟨_, ?_, ha₁, rfl⟩
      simp only [testEscape, Eff.exec_bind, exec_load, hc, hp, h0, if_true, Eff.exec_pure]
    | [x] =>
      obtain ⟨⟨hx₁, hx0⟩, h⟩ := h
      have h0 : mem (p + 2) = 0 := h
      have ha₂ := ha₁.reading (show p + 2 ≤ n from hn)
      refine ⟨_, ?_, ha₂, rfl⟩
      simp only [testEscape, Eff.exec_bind, exec_load, hc, hp, hx₁, hx0, h0, if_true, if_false,
        Eff.exec_pure]
    | x :: y :: r =>
      obtain ⟨⟨hx₁, hx0⟩, ⟨hy₁, hy0⟩, -⟩ := h
      have hdigits : ¬ (isxdigit x ∧ isxdigit y) := fun hxy => hx ⟨hp, hxy⟩
      simp only [List.length_cons] at hn
      have ha₂ := ha₁.reading (show p + 2 ≤ n by omega)
      refine ⟨_, ?_, ha₂, rfl⟩
      simp only [testEscape, Eff.exec_bind, exec_load, hc, hp, hx₁, hx0, hy₁, hy0, hdigits, if_true,
        if_false, Eff.exec_pure]
  · refine ⟨_, ?_, ha₀, rfl⟩
    simp only [testEscape, Eff.exec_bind, exec_load, hc, hp, if_false, Eff.exec_pure]

/-! ## A round -/

/-- A round at `p` goes on to `src` and writes the byte `c`. -/
def RoundWrites (mem : ℕ → UInt8) (n p src : ℕ) (c : UInt8) : Prop :=
  ∀ a, Within n a → ∃ a', (round mem p).exec a = (.ok src, a') ∧ Within n a' ∧
    a'.written = a.written ++ [c]

theorem roundWrites_escape {x y : UInt8} (h : HoldsString mem p (percent :: x :: y :: s))
    (hx : isHexDigit x) (hy : isHexDigit y) (hn : p + 2 ≤ n) :
    RoundWrites mem n p (p + 3) (escaped x y) := by
  intro a ha
  have htest := exec_testEscape_escape h hx hy a
  have hbyte : 16 * digitValue x + digitValue y = escaped x y := by
    rw [digitValue_eq hx, digitValue_eq hy, escaped]
  refine ⟨_, (Eff.exec_bind_of_ok htest _).trans rfl, ?_, by rw [← hbyte]; rfl⟩
  exact ((ha.reading (by omega)).reading (by omega)).reading hn

theorem roundWrites_literal {c : UInt8} (h : HoldsString mem p (c :: s))
    (hx : ¬ BeginsEscape (c :: s)) (hn : p + s.length + 1 ≤ n) :
    RoundWrites mem n p (p + 1) (meaning c) := by
  intro a ha
  obtain ⟨a₁, htest, ha₁, hwritten⟩ := exec_testEscape_literal h hx hn ha
  have hc := h.1.1
  have hp : p ≤ n := by omega
  rw [round, Eff.exec_bind_of_ok htest, ← hwritten]
  by_cases hplus : c = plus
  · refine ⟨writing space (reading p a₁), ?_, (ha₁.reading hp).writing space, ?_⟩
    · simp only [Eff.exec_bind, exec_load, hc, hplus, if_true, exec_store, Eff.exec_pure]
    · rw [meaning, if_pos hplus]
      rfl
  · refine ⟨writing c (reading p (reading p a₁)), ?_, ((ha₁.reading hp).reading hp).writing c, ?_⟩
    · simp only [Eff.exec_bind, exec_load, hc, hplus, if_false, exec_store, Eff.exec_pure]
    · rw [meaning_of_ne hplus]
      rfl

/-! ## The loop -/

/-- From `p` on the loop ends after `k` rounds, with `out` written. -/
def LoopWrites (mem : ℕ → UInt8) (n p k : ℕ) (out : Bytes) : Prop :=
  ∀ a, Within n a → ∃ a', (∀ fuel, k < fuel → (loop mem fuel p).exec a = (.ok true, a')) ∧
    Within n a' ∧ a'.written = a.written ++ out

theorem loopWrites_nil (h : HoldsString mem p []) (hn : p ≤ n) : LoopWrites mem n p 0 [0] := by
  intro a ha
  have h0 : mem p = 0 := h
  refine ⟨writing 0 (reading p a), fun fuel hfuel => ?_, (ha.reading hn).writing 0, rfl⟩
  obtain ⟨k, rfl⟩ := Nat.exists_eq_succ_of_ne_zero (Nat.ne_zero_of_lt hfuel)
  simp only [loop, Eff.exec_bind, exec_load, h0, if_true, exec_store, Eff.exec_pure]

/-- A round goes in front of the rest of the loop. -/
theorem RoundWrites.loopWrites {c x : UInt8} {src k : ℕ} {out : Bytes}
    (hround : RoundWrites mem n p src x) (hc : mem p = c ∧ c ≠ 0) (hn : p ≤ n)
    (hloop : LoopWrites mem n src k out) : LoopWrites mem n p (k + 1) (x :: out) := by
  intro a ha
  obtain ⟨a₁, hexec, ha₁, hw₁⟩ := hround (reading p a) (ha.reading hn)
  obtain ⟨a₂, hrest, ha₂, hw₂⟩ := hloop a₁ ha₁
  refine ⟨a₂, fun fuel hfuel => ?_, ha₂, ?_⟩
  · obtain ⟨fuel, rfl⟩ := Nat.exists_eq_succ_of_ne_zero (Nat.ne_zero_of_lt hfuel)
    have hgoes : ¬ mem p = 0 := by
      rw [hc.1]
      exact hc.2
    rw [loop, Eff.exec_bind, exec_load]
    simp only [hgoes, if_false]
    rw [Eff.exec_bind_of_ok hexec, hrest fuel (Nat.lt_of_succ_lt_succ hfuel)]
  · rw [hw₂, hw₁, List.append_assoc]
    rfl

/-- **The loop on a string** has a round for each token, and writes what the tokens stand for and a
terminator. -/
theorem loopWrites_of_tokenizes {ts : List Token} (hts : Tokenizes s ts)
    (h : HoldsString mem p s) (hn : p + s.length ≤ n) :
    LoopWrites mem n p ts.length (ts.map Token.meaning ++ [0]) := by
  induction hts generalizing p with
  | nil => exact loopWrites_nil h hn
  | escape hx hy _ ih =>
    simp only [List.length_cons] at hn
    have hround := roundWrites_escape h hx hy (show p + 2 ≤ n by omega)
    exact hround.loopWrites h.1 (by omega) (ih h.2.2.2 (by omega))
  | plus _ ih =>
    simp only [List.length_cons] at hn
    have hround := roundWrites_literal h (not_beginsEscape_of_ne (by decide) _) hn
    exact hround.loopWrites h.1 (by omega) (ih h.2 (by omega))
  | @literal c s ts hc hx _ ih =>
    simp only [List.length_cons] at hn
    have hround := roundWrites_literal h hx hn
    rw [meaning_of_ne hc] at hround
    exact hround.loopWrites h.1 (by omega) (ih h.2 (by omega))

/-- **`url_decode` stays inside its strings**: on a terminated string its loop comes to an end,
reads nothing behind the terminator, and writes a byte for each token and a terminator, which is no
more than the string takes. -/
theorem url_decode_inside (h : HoldsString mem 0 s) :
    ∃ ts a, Tokenizes s ts ∧
      (∀ fuel, s.length < fuel → (loop mem fuel 0).exec ⟨[], []⟩ = (.ok true, a)) ∧
      (∀ q ∈ a.reads, q ≤ s.length) ∧ a.written.length = ts.length + 1 ∧
      ts.length ≤ s.length ∧ a.written.getLast? = some 0 := by
  obtain ⟨ts, hts, -⟩ := existsUnique_tokenizes s
  have hle := hts.length_le
  obtain ⟨a, hloop, hreads, hwritten⟩ := loopWrites_of_tokenizes hts h (by omega) ⟨[], []⟩
    (show Within s.length ⟨[], []⟩ from fun q hq => absurd hq List.not_mem_nil)
  refine ⟨ts, a, hts, fun fuel hfuel => hloop fuel (Nat.lt_of_le_of_lt hle hfuel), hreads, ?_, hle,
    ?_⟩
  · rw [hwritten]
    simp
  · rw [hwritten]
    simp

/-- A string that ends in an incomplete escape. -/
theorem url_decode_inside_percent :
    ∃ ts a, Tokenizes (ascii "a+%4") ts ∧
      (∀ fuel, 4 < fuel → (loop (fun i => (ascii "a+%4").getD i 0) fuel 0).exec ⟨[], []⟩ =
        (.ok true, a)) ∧
      (∀ q ∈ a.reads, q ≤ 4) ∧ a.written.length = ts.length + 1 ∧ ts.length ≤ 4 ∧
      a.written.getLast? = some 0 := by
  have h : HoldsString (fun i => (ascii "a+%4").getD i 0) 0 (ascii "a+%4") :=
    ⟨⟨rfl, by decide⟩, ⟨rfl, by decide⟩, ⟨rfl, by decide⟩, ⟨rfl, by decide⟩, rfl⟩
  exact url_decode_inside h

/-! ## In a buffer -/

theorem holdsString_cstr {m : Bytes} (h0 : 0 ∈ m)
    (hmem : ∀ i c, m[i]? = some c → mem (p + i) = c) : HoldsString mem p (cstr m) := by
  induction m generalizing p with
  | nil => cases h0
  | cons c m ih =>
    have hc := hmem 0 c rfl
    by_cases hzero : c = 0
    · rw [hzero] at hc ⊢
      exact hc
    · rw [cstr_cons hzero]
      have hrest : 0 ∈ m := (List.mem_cons.1 h0).resolve_left (Ne.symm hzero)
      refine ⟨⟨hc, hzero⟩, ih hrest fun i c hi => ?_⟩
      rw [Nat.add_right_comm, Nat.add_assoc]
      exact hmem (i + 1) c hi

/-- **In a buffer** that holds a terminated string the accesses stay inside a block of its size, and
what is written is the value of `urlDecode` and a terminator. -/
theorem exec_loop_buffer {k : ℕ} (b : Buffer k) (h0 : 0 ∈ b.bytes)
    (hmem : ∀ i c, b.bytes[i]? = some c → mem i = c) :
    ∃ a, (∀ fuel, k ≤ fuel → (loop mem fuel 0).exec ⟨[], []⟩ = (.ok true, a)) ∧
      (∀ q ∈ a.reads, q < k) ∧ a.written.length ≤ k ∧
      a.written = urlDecode b.bytes ++ [0] := by
  have hlt := length_cstr_lt h0
  rw [b.length_bytes] at hlt
  have hholds : HoldsString mem 0 (cstr b.bytes) :=
    holdsString_cstr h0 fun i c hi => by rw [Nat.zero_add]; exact hmem i c hi
  obtain ⟨ts, hts, -⟩ := existsUnique_tokenizes (cstr b.bytes)
  have hle := hts.length_le
  obtain ⟨a, hloop, hreads, hwritten⟩ := loopWrites_of_tokenizes hts hholds (Nat.le_of_eq
    (Nat.zero_add _)) ⟨[], []⟩ fun q hq => absurd hq List.not_mem_nil
  refine ⟨a, fun fuel hfuel => hloop fuel (by omega),
    fun q hq => Nat.lt_of_le_of_lt (hreads q hq) hlt, ?_, ?_⟩
  · rw [hwritten]
    simp only [List.nil_append, List.length_append, List.length_map, List.length_singleton]
    omega
  · rw [hwritten, urlDecode_eq, decode_of_tokenizes hts]
    rfl

end UrlDecode

end HomeAssistant
