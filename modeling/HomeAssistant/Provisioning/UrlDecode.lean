import HomeAssistant.Foundations.PercentEncoding

/-!
# The decoder of the web server

`url_decode` walks over a NUL-terminated string and writes its decoding. It is modelled on the
memory it reads, the bytes from `src` on; `urlDecode_eq` says that it computes the decoding of the
C string it finds there.
-/

namespace HomeAssistant

open Form

/-- `isxdigit`. -/
def isxdigit (c : UInt8) : Bool := isHexDigit c

/-- The value of a hexadecimal digit, by the 8-bit arithmetic of `url_decode`: lower case is
moved to upper case first. -/
def digitValue (a : UInt8) : UInt8 :=
  let a := if a ≥ 0x61 then a - (0x61 - 0x41) else a
  if a ≥ 0x41 then a - (0x41 - 10) else a - 0x30

/-- `url_decode`, on the bytes from `src` on: the bytes it writes in front of the terminator. -/
def urlDecode : Bytes → Bytes
  | [] => []
  | c :: a :: b :: src =>
    if c = 0 then []
    else if c = percent ∧ (a ≠ 0 ∧ b ≠ 0) ∧ (isxdigit a ∧ isxdigit b) then
      (16 * digitValue a + digitValue b) :: urlDecode src
    else (if c = plus then space else c) :: urlDecode (a :: b :: src)
  | c :: src => if c = 0 then [] else (if c = plus then space else c) :: urlDecode src

/-- The 8-bit arithmetic computes the value of the digit. -/
theorem digitValue_eq {a : UInt8} (h : isHexDigit a) : digitValue a = hexValue a := by
  have hv := toNat_hexValue h
  rw [isHexDigit_iff] at h
  rw [← UInt8.toNat_inj, hv]
  simp only [digitValue, ge_iff_le, UInt8.le_iff_toNat_le]
  have h61 : (0x61 : UInt8).toNat = 0x61 := rfl
  have h41 : (0x41 : UInt8).toNat = 0x41 := rfl
  split_ifs <;> simp_all [UInt8.toNat_sub] <;> omega

theorem cstr_escape {a b : UInt8} (ha : isHexDigit a) (hb : isHexDigit b) (s : Bytes) :
    cstr (percent :: a :: b :: s) = percent :: a :: b :: cstr s := by
  rw [cstr_cons (by decide), cstr_cons (ne_zero_of_isHexDigit ha),
    cstr_cons (ne_zero_of_isHexDigit hb)]

/-- A byte that begins no escape in memory begins none in the C string. -/
theorem decode_cstr_cons {c : UInt8} (hc : c ≠ 0) {s : Bytes}
    (h : ∀ a b r, s = a :: b :: r →
      ¬ (c = percent ∧ (a ≠ 0 ∧ b ≠ 0) ∧ (isxdigit a ∧ isxdigit b))) :
    decode (cstr (c :: s)) = meaning c :: decode (cstr s) := by
  rw [cstr_cons hc]
  refine decode_cons fun a b r hr hx => ?_
  obtain ⟨a', s, rfl⟩ := List.exists_cons_of_ne_nil (l := s) (by rintro rfl; cases hr)
  have ha : a' ≠ 0 := by rintro rfl; cases hr
  rw [cstr_cons ha, List.cons.injEq] at hr
  obtain ⟨b', s, rfl⟩ := List.exists_cons_of_ne_nil (l := s) (by rintro rfl; cases hr.2)
  have hb : b' ≠ 0 := by rintro rfl; cases hr.2
  rw [cstr_cons hb, List.cons.injEq] at hr
  obtain ⟨rfl, rfl, -⟩ := hr
  exact h _ _ _ rfl ⟨hx.1, ⟨ha, hb⟩, hx.2⟩

/-- **`url_decode` computes the decoding** of the C string it is given. -/
theorem urlDecode_eq (m : Bytes) : urlDecode m = decode (cstr m) := by
  fun_induction urlDecode m with
  | case1 => rfl
  | case2 => rfl
  | case3 c a b src hc hx ih =>
    obtain ⟨rfl, -, ha, hb⟩ := hx
    rw [cstr_escape ha hb, decode_escape ha hb, ih, digitValue_eq ha, digitValue_eq hb]
    rfl
  | case4 c a b src hc hx ih =>
    rw [decode_cstr_cons hc (by rintro _ _ _ ⟨⟩; exact hx), ih]
    rfl
  | case5 => rfl
  | case6 c src hshort hc ih =>
    rw [decode_cstr_cons hc fun a b r h => (hshort a b r h).elim, ih]
    rfl

/-- The string in front of a terminator is decoded, whatever stands behind it. -/
theorem urlDecode_terminated {s : Bytes} (hs : 0 ∉ s) (r : Bytes) :
    urlDecode (s ++ 0 :: r) = decode s := by
  rw [urlDecode_eq, cstr_append_zero_cons, cstr_of_zero_notMem hs]

/-- **What `url_decode` computes**: on a terminated string, what the tokens of the string stand for,
and on an encoding the text that it encodes. -/
theorem url_decode_form_decoding (r : Bytes) :
    (∀ s : Bytes, 0 ∉ s → (∃! ts, Tokenizes s ts) ∧
      ∀ ts, Tokenizes s ts → urlDecode (s ++ 0 :: r) = ts.map Token.meaning) ∧
    ∀ e p : Bytes, 0 ∉ p → Encodes e p → urlDecode (e ++ 0 :: r) = p := by
  refine ⟨fun s hs => ⟨existsUnique_tokenizes s, fun ts hts => ?_⟩, fun e p hp he => ?_⟩
  · rw [urlDecode_terminated hs, decode_of_tokenizes hts]
  · rw [urlDecode_terminated (he.zero_notMem hp), decode_of_encodes he]

/-- The text `%%41%4`, which has one escape, and the encoding `100%25+%c3%A9` of a text with a
percent sign, a space and two bytes from the upper half. -/
theorem url_decode_form_decoding_percent :
    urlDecode (ascii "%%41%4" ++ [0]) =
        [Token.literal percent, .escape 0x34 0x31, .literal percent, .literal 0x34].map
          Token.meaning ∧
      urlDecode (ascii "100%25+%c3%A9" ++ [0]) = ascii "100% " ++ [0xC3, 0xA9] := by
  refine ⟨((url_decode_form_decoding []).1 (ascii "%%41%4") (by decide)).2 _ ?_,
    (url_decode_form_decoding []).2 _ _ (by decide) (by decide)⟩
  exact .literal (by decide) (fun h => absurd h.2.1 (by decide)) <|
    .escape (by decide) (by decide) <| .literal (by decide) id <| .literal (by decide) id .nil

theorem length_urlDecode_lt {m : Bytes} (h : 0 ∈ m) : (urlDecode m).length < m.length := by
  rw [urlDecode_eq]
  exact Nat.lt_of_le_of_lt (length_decode_le (cstr m)) (length_cstr_lt h)

end HomeAssistant
