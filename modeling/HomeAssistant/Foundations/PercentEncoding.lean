import HomeAssistant.Foundations.CString

/-!
# Percent-encoded text

The encoding of form values: a byte is written as itself, as `+` if it is a space, or as `%`
followed by two hexadecimal digits of either case. A text has many encodings (`Encodes`) and one
decoding (`decode`), which also gives a meaning to text that is no encoding: a `%` without two
hexadecimal digits behind it stands for itself. Any text falls into tokens in one way
(`existsUnique_tokenizes`), and its decoding is what they stand for (`decode_of_tokenizes`).

Two questions about damaged encodings are answered here. Cutting an encoding short changes what it
decodes to (`decode_eq_decode_append_iff`), except where the cut takes the digits off an escaped
percent sign and the rest happens to spell what was meant (`CutEscape`). And the C string of a
decoded text is the decoding of what precedes the first escaped NUL (`cstr_decode`).
-/

namespace HomeAssistant.Form

/-- The byte `%`. -/
abbrev percent : UInt8 := 0x25

/-- The byte `+`. -/
abbrev plus : UInt8 := 0x2B

/-- The space. -/
abbrev space : UInt8 := 0x20

/-- A hexadecimal digit, of either case. -/
def isHexDigit (c : UInt8) : Bool :=
  (0x30 ≤ c && c ≤ 0x39) || (0x41 ≤ c && c ≤ 0x46) || (0x61 ≤ c && c ≤ 0x66)

/-- The value of a hexadecimal digit. -/
def hexValue (c : UInt8) : UInt8 :=
  if c ≤ 0x39 then c - 0x30 else if c ≤ 0x46 then c - 0x37 else c - 0x57

/-- The byte two hexadecimal digits stand for. -/
def escaped (a b : UInt8) : UInt8 := 16 * hexValue a + hexValue b

/-- `Encodes e p`: the text `e` is an encoding of `p`. -/
inductive Encodes : Bytes → Bytes → Prop
  | nil : Encodes [] []
  | literal {c : UInt8} {e p : Bytes} (hc : c ≠ percent) (hc' : c ≠ plus) (h : Encodes e p) :
      Encodes (c :: e) (c :: p)
  | plus {e p : Bytes} (h : Encodes e p) : Encodes (plus :: e) (space :: p)
  | escape {a b : UInt8} {e p : Bytes} (ha : isHexDigit a) (hb : isHexDigit b)
      (h : Encodes e p) : Encodes (percent :: a :: b :: e) (escaped a b :: p)

/-- What a byte outside an escape stands for. -/
def meaning (c : UInt8) : UInt8 := if c = plus then space else c

/-- The decoding of a text. -/
def decode : Bytes → Bytes
  | [] => []
  | [c] => [meaning c]
  | [c, a] => [meaning c, meaning a]
  | c :: a :: b :: s =>
    if c = percent ∧ isHexDigit a ∧ isHexDigit b then escaped a b :: decode s
    else meaning c :: decode (a :: b :: s)

/-! ## Bytes -/

theorem isHexDigit_iff {c : UInt8} : isHexDigit c ↔
    (0x30 ≤ c.toNat ∧ c.toNat ≤ 0x39) ∨ (0x41 ≤ c.toNat ∧ c.toNat ≤ 0x46) ∨
      (0x61 ≤ c.toNat ∧ c.toNat ≤ 0x66) := by
  simp [isHexDigit, UInt8.le_iff_toNat_le, or_assoc]

theorem ne_percent_of_isHexDigit {c : UInt8} (h : isHexDigit c) : c ≠ percent := by
  rintro rfl; exact absurd h (by decide)

theorem ne_plus_of_isHexDigit {c : UInt8} (h : isHexDigit c) : c ≠ plus := by
  rintro rfl; exact absurd h (by decide)

theorem ne_zero_of_isHexDigit {c : UInt8} (h : isHexDigit c) : c ≠ 0 := by
  rintro rfl; exact absurd h (by decide)

theorem meaning_of_ne {c : UInt8} (h : c ≠ plus) : meaning c = c := if_neg h

theorem meaning_of_isHexDigit {c : UInt8} (h : isHexDigit c) : meaning c = c :=
  meaning_of_ne (ne_plus_of_isHexDigit h)

theorem meaning_ne_zero {c : UInt8} (h : c ≠ 0) : meaning c ≠ 0 := by
  unfold meaning
  split
  · decide
  · exact h

theorem toNat_hexValue {c : UInt8} (h : isHexDigit c) : (hexValue c).toNat =
    if c.toNat ≤ 0x39 then c.toNat - 0x30
    else if c.toNat ≤ 0x46 then c.toNat - 0x37 else c.toNat - 0x57 := by
  rw [isHexDigit_iff] at h
  simp only [hexValue, UInt8.le_iff_toNat_le]
  have h39 : (0x39 : UInt8).toNat = 0x39 := rfl
  have h46 : (0x46 : UInt8).toNat = 0x46 := rfl
  split_ifs <;> simp_all [UInt8.toNat_sub] <;> omega

theorem hexValue_lt {c : UInt8} (h : isHexDigit c) : (hexValue c).toNat < 16 := by
  rw [toNat_hexValue h]
  rw [isHexDigit_iff] at h
  split_ifs <;> omega

theorem toNat_escaped {a b : UInt8} (ha : isHexDigit a) (hb : isHexDigit b) :
    (escaped a b).toNat = 16 * (hexValue a).toNat + (hexValue b).toNat := by
  have := hexValue_lt ha
  have := hexValue_lt hb
  simp only [escaped, UInt8.toNat_add, UInt8.toNat_mul]
  simp
  omega

/-- A byte whose two digits are decimal has one escape. -/
theorem toNat_escaped_eq_iff {a b : UInt8} (ha : isHexDigit a) (hb : isHexDigit b) {h l : ℕ}
    (hh : h < 10) (hl : l < 10) :
    (escaped a b).toNat = 16 * h + l ↔ a.toNat = 0x30 + h ∧ b.toNat = 0x30 + l := by
  have hA := toNat_hexValue ha
  have hB := toNat_hexValue hb
  have hlt := hexValue_lt hb
  rw [toNat_escaped ha hb]
  rw [isHexDigit_iff] at ha hb
  split_ifs at hA hB <;> omega

theorem escaped_eq_percent_iff {a b : UInt8} (ha : isHexDigit a) (hb : isHexDigit b) :
    escaped a b = percent ↔ a = 0x32 ∧ b = 0x35 := by
  simp only [← UInt8.toNat_inj]
  exact toNat_escaped_eq_iff ha hb (h := 2) (l := 5) (by omega) (by omega)

theorem escaped_eq_two_iff {a b : UInt8} (ha : isHexDigit a) (hb : isHexDigit b) :
    escaped a b = 0x32 ↔ a = 0x33 ∧ b = 0x32 := by
  simp only [← UInt8.toNat_inj]
  exact toNat_escaped_eq_iff ha hb (h := 3) (l := 2) (by omega) (by omega)

theorem escaped_eq_zero_iff {a b : UInt8} (ha : isHexDigit a) (hb : isHexDigit b) :
    escaped a b = 0 ↔ a = 0x30 ∧ b = 0x30 := by
  simp only [← UInt8.toNat_inj]
  exact toNat_escaped_eq_iff ha hb (h := 0) (l := 0) (by omega) (by omega)

/-! ## Decoding -/

theorem decode_escape {a b : UInt8} (ha : isHexDigit a) (hb : isHexDigit b) (s : Bytes) :
    decode (percent :: a :: b :: s) = escaped a b :: decode s :=
  if_pos ⟨rfl, ha, hb⟩

theorem decode_cons {c : UInt8} {s : Bytes}
    (h : ∀ a b r, s = a :: b :: r → ¬ (c = percent ∧ isHexDigit a ∧ isHexDigit b)) :
    decode (c :: s) = meaning c :: decode s := by
  match s with
  | [] => rfl
  | [a] => rfl
  | a :: b :: r => exact if_neg (h a b r rfl)

theorem decode_cons_of_ne {c : UInt8} (hc : c ≠ percent) (s : Bytes) :
    decode (c :: s) = meaning c :: decode s :=
  decode_cons fun _ _ _ _ h => hc h.1

/-- A `%` is no part of an escape that began before it. -/
theorem decode_cons_percent (c : UInt8) (s : Bytes) :
    decode (c :: percent :: s) = meaning c :: decode (percent :: s) :=
  decode_cons fun a b r h => by
    cases h
    rintro ⟨-, ha, -⟩
    exact ne_percent_of_isHexDigit ha rfl

theorem decode_eq_nil_iff {s : Bytes} : decode s = [] ↔ s = [] := by
  refine ⟨fun h => ?_, fun h => by rw [h]; rfl⟩
  match s with
  | [] => rfl
  | [c] => cases h
  | [c, a] => cases h
  | c :: a :: b :: r => unfold decode at h; split at h <;> cases h

theorem length_decode_le (s : Bytes) : (decode s).length ≤ s.length := by
  fun_induction decode s with
  | case1 => simp
  | case2 c => simp
  | case3 c a => simp
  | case4 c a b s _ ih => simp only [List.length_cons]; omega
  | case5 c a b s _ ih => simp only [List.length_cons] at ih ⊢; omega

/-- **An encoding decodes to what it encodes.** -/
theorem decode_of_encodes {e p : Bytes} (h : Encodes e p) : decode e = p := by
  induction h with
  | nil => rfl
  | literal hc hc' _ ih => rw [decode_cons_of_ne hc, meaning_of_ne hc', ih]
  | plus _ ih => rw [decode_cons_of_ne (by decide), ih]; rfl
  | escape ha hb _ ih => rw [decode_escape ha hb, ih]

/-- In an encoding every `%` begins an escape. -/
def isEncoding : Bytes → Bool
  | [] => true
  | [c] => c ≠ percent
  | [c, a] => c ≠ percent ∧ a ≠ percent
  | c :: a :: b :: s =>
    if c = percent then isHexDigit a && isHexDigit b && isEncoding s else isEncoding (a :: b :: s)

/-- A byte that stands for its meaning in front of an encoding. -/
theorem Encodes.cons {c : UInt8} (hc : c ≠ percent) {e p : Bytes} (h : Encodes e p) :
    Encodes (c :: e) (meaning c :: p) := by
  by_cases hp : c = Form.plus
  · subst hp; exact .plus h
  · rw [meaning_of_ne hp]; exact .literal hc hp h

theorem encodes_decode {e : Bytes} (h : isEncoding e) : Encodes e (decode e) := by
  fun_induction decode e with
  | case1 => exact .nil
  | case2 c => exact .cons (by simpa [isEncoding] using h) .nil
  | case3 c a =>
    have h : c ≠ percent ∧ a ≠ percent := by simpa [isEncoding] using h
    exact .cons h.1 (.cons h.2 .nil)
  | case4 c a b s hx ih =>
    obtain ⟨rfl, ha, hb⟩ := hx
    rw [isEncoding, if_pos rfl, Bool.and_eq_true] at h
    exact .escape ha hb (ih h.2)
  | case5 c a b s hx ih =>
    rw [isEncoding] at h
    split at h
    · next hc =>
      simp only [Bool.and_eq_true] at h
      exact absurd ⟨hc, h.1.1, h.1.2⟩ hx
    · next hc => exact .cons hc (ih h)

theorem Encodes.isEncoding {e p : Bytes} (h : Encodes e p) : isEncoding e := by
  have step : ∀ {c : UInt8} {e : Bytes}, c ≠ percent → Form.isEncoding e →
      Form.isEncoding (c :: e) := by
    intro c e hc he
    match e with
    | [] => simpa [Form.isEncoding] using hc
    | [a] => simpa [Form.isEncoding] using ⟨hc, by simpa [Form.isEncoding] using he⟩
    | a :: b :: r => rw [Form.isEncoding, if_neg hc]; exact he
  induction h with
  | nil => rfl
  | literal hc _ _ ih => exact step hc ih
  | plus _ ih => exact step (by decide) ih
  | escape ha hb _ ih => rw [Form.isEncoding, if_pos rfl, ha, hb, ih]; rfl

/-- **The encodings of a text.** -/
theorem encodes_iff {e p : Bytes} : Encodes e p ↔ isEncoding e ∧ decode e = p :=
  ⟨fun h => ⟨h.isEncoding, decode_of_encodes h⟩, fun ⟨h, hd⟩ => hd ▸ encodes_decode h⟩

instance (e p : Bytes) : Decidable (Encodes e p) := decidable_of_iff _ encodes_iff.symm

theorem Encodes.zero_notMem {e p : Bytes} (h : Encodes e p) (hp : 0 ∉ p) : 0 ∉ e := by
  induction h with
  | nil => simp
  | literal _ _ _ ih =>
    rw [List.mem_cons, not_or] at hp ⊢
    exact ⟨hp.1, ih hp.2⟩
  | plus _ ih =>
    rw [List.mem_cons, not_or] at hp ⊢
    exact ⟨by decide, ih hp.2⟩
  | escape ha hb _ ih =>
    simp only [List.mem_cons, not_or] at hp ⊢
    exact ⟨by decide, (ne_zero_of_isHexDigit ha).symm, (ne_zero_of_isHexDigit hb).symm, ih hp.2⟩

theorem Encodes.length_le_three_mul {e p : Bytes} (h : Encodes e p) :
    e.length ≤ 3 * p.length := by
  induction h with
  | nil => exact Nat.le_refl 0
  | literal _ _ _ ih =>
    simp only [List.length_cons]
    omega
  | plus _ ih =>
    simp only [List.length_cons]
    omega
  | escape _ _ _ ih =>
    simp only [List.length_cons]
    omega

theorem encodes_replicate_escape {a b : UInt8} (ha : isHexDigit a) (hb : isHexDigit b) (n : ℕ) :
    Encodes (List.replicate n [percent, a, b]).flatten (List.replicate n (escaped a b)) := by
  induction n with
  | zero => exact .nil
  | succ n ih => exact .escape ha hb ih

/-! ## Tokens -/

/-- A token of a text. -/
inductive Token
  | escape (a b : UInt8)
  | plus
  | literal (c : UInt8)
  deriving DecidableEq

/-- The byte that a token stands for. -/
def Token.meaning : Token → UInt8
  | .escape a b => escaped a b
  | .plus => space
  | .literal c => c

/-- The text begins with a `%` and two hexadecimal digits. -/
def BeginsEscape : Bytes → Prop
  | c :: a :: b :: _ => c = percent ∧ isHexDigit a ∧ isHexDigit b
  | _ => False

theorem not_beginsEscape_of_ne {c : UInt8} (hc : c ≠ percent) (s : Bytes) :
    ¬ BeginsEscape (c :: s) := by
  match s with
  | [] => exact id
  | [_] => exact id
  | _ :: _ :: _ => exact fun h => hc h.1

/-- `Tokenizes s ts`: read from the left, the text `s` falls into the tokens `ts`. -/
inductive Tokenizes : Bytes → List Token → Prop
  | nil : Tokenizes [] []
  | escape {a b : UInt8} {s : Bytes} {ts : List Token} (ha : isHexDigit a) (hb : isHexDigit b)
      (h : Tokenizes s ts) : Tokenizes (percent :: a :: b :: s) (.escape a b :: ts)
  | plus {s : Bytes} {ts : List Token} (h : Tokenizes s ts) :
      Tokenizes (plus :: s) (.plus :: ts)
  | literal {c : UInt8} {s : Bytes} {ts : List Token} (hc : c ≠ plus)
      (hx : ¬ BeginsEscape (c :: s)) (h : Tokenizes s ts) : Tokenizes (c :: s) (.literal c :: ts)

/-- **The decoding is the meaning of the tokens.** -/
theorem decode_of_tokenizes {s : Bytes} {ts : List Token} (h : Tokenizes s ts) :
    decode s = ts.map Token.meaning := by
  induction h with
  | nil => rfl
  | escape ha hb _ ih => rw [decode_escape ha hb, ih]; rfl
  | plus _ ih => rw [decode_cons_of_ne (by decide), ih]; rfl
  | literal hc hx _ ih =>
    rw [decode_cons fun a b r hr hb => hx (by rw [hr]; exact hb), meaning_of_ne hc, ih]
    rfl

theorem Tokenizes.length_le {s : Bytes} {ts : List Token} (h : Tokenizes s ts) :
    ts.length ≤ s.length := by
  rw [← List.length_map Token.meaning, ← decode_of_tokenizes h]
  exact length_decode_le s

/-- A byte that begins no escape is a token by itself. -/
theorem Tokenizes.cons {c : UInt8} {s : Bytes} {ts : List Token} (hx : ¬ BeginsEscape (c :: s))
    (h : Tokenizes s ts) : ∃ t, Tokenizes (c :: s) (t :: ts) := by
  by_cases hc : c = Form.plus
  · subst hc
    exact ⟨_, .plus h⟩
  · exact ⟨_, .literal hc hx h⟩

theorem exists_tokenizes (s : Bytes) : ∃ ts, Tokenizes s ts := by
  fun_induction decode s with
  | case1 => exact ⟨_, .nil⟩
  | case2 c =>
    obtain ⟨t, ht⟩ := Tokenizes.cons (c := c) (s := []) id .nil
    exact ⟨_, ht⟩
  | case3 c a =>
    obtain ⟨t, ht⟩ := Tokenizes.cons (c := a) (s := []) id .nil
    obtain ⟨t', ht'⟩ := Tokenizes.cons (c := c) (s := [a]) id ht
    exact ⟨_, ht'⟩
  | case4 c a b s hx ih =>
    obtain ⟨rfl, ha, hb⟩ := hx
    obtain ⟨ts, hts⟩ := ih
    exact ⟨_, .escape ha hb hts⟩
  | case5 c a b s hx ih =>
    obtain ⟨ts, hts⟩ := ih
    obtain ⟨t, ht⟩ := Tokenizes.cons (s := a :: b :: s) hx hts
    exact ⟨_, ht⟩

theorem Tokenizes.unique {s : Bytes} {ts us : List Token} (h : Tokenizes s ts)
    (h' : Tokenizes s us) : ts = us := by
  induction h generalizing us with
  | nil =>
    cases h'
    rfl
  | escape ha hb _ ih =>
    cases h' with
    | escape _ _ h' => rw [ih h']
    | literal _ hx _ => exact absurd ⟨rfl, ha, hb⟩ hx
  | plus _ ih =>
    cases h' with
    | plus h' => rw [ih h']
    | literal hc _ _ => exact absurd rfl hc
  | literal hc hx _ ih =>
    cases h' with
    | escape ha hb _ => exact absurd ⟨rfl, ha, hb⟩ hx
    | plus _ => exact absurd rfl hc
    | literal _ _ h' => rw [ih h']

/-- **A text falls into tokens in one way.** -/
theorem existsUnique_tokenizes (s : Bytes) : ∃! ts, Tokenizes s ts := by
  obtain ⟨ts, hts⟩ := exists_tokenizes s
  exact ⟨ts, hts, fun us hus => hus.unique hts⟩

/-! ## Cutting an encoding short -/

/-- The cuts that do no harm: the text kept, `x`, ends in the first bytes of an escaped percent
sign, and the bytes lost, `t`, are the rest of it, followed by the digit that `x` kept of it if it
kept one. -/
def CutEscape (x t : Bytes) : Prop :=
  [percent] <:+ x ∧ t = [0x32, 0x35] ∨
    [percent, 0x32] <:+ x ∧ (t = [0x35, 0x32] ∨ t = [0x35, percent, 0x33, 0x32])

instance (x t : Bytes) : Decidable (CutEscape x t) :=
  inferInstanceAs (Decidable (_ ∧ _ ∨ _ ∧ (_ ∨ _)))

theorem cutEscape_cons {c a b : UInt8} {s t : Bytes} :
    CutEscape (c :: a :: b :: s) t ↔ CutEscape (a :: b :: s) t := by
  simp [CutEscape, List.suffix_cons_iff]

theorem cutEscape_escape {a b : UInt8} (ha : isHexDigit a) (hb : isHexDigit b) (s t : Bytes) :
    CutEscape (percent :: a :: b :: s) t ↔ CutEscape s t := by
  have ha' := ne_percent_of_isHexDigit ha
  have hb' := ne_percent_of_isHexDigit hb
  simp [CutEscape, List.suffix_cons_iff, ha'.symm, hb'.symm]

theorem decode_eq_two_iff {s : Bytes} :
    decode s = [0x32] ↔ s = [0x32] ∨ s = [percent, 0x33, 0x32] := by
  constructor
  · intro h
    match s with
    | [] => cases h
    | [c] =>
      left
      have hc : meaning c = 0x32 := by simpa [decode] using h
      by_cases hp : c = plus
      · subst hp; exact absurd hc (by decide)
      · rw [meaning_of_ne hp] at hc; rw [hc]
    | [c, a] => simp [decode] at h
    | c :: a :: b :: r =>
      right
      unfold decode at h
      split at h
      · next hx =>
        obtain ⟨hc, ha, hb⟩ := hx
        rw [List.cons.injEq, escaped_eq_two_iff ha hb, decode_eq_nil_iff] at h
        rw [hc, h.1.1, h.1.2, h.2]
      · simp [decode_eq_nil_iff] at h
  · rintro (rfl | rfl) <;> rfl

theorem cutEscape_one {c : UInt8} {t : Bytes} :
    CutEscape [c] t ↔ c = percent ∧ t = [0x32, 0x35] := by
  simp [CutEscape, List.suffix_cons_iff, eq_comm (b := c)]

theorem cutEscape_two {c a : UInt8} {t : Bytes} :
    CutEscape [c, a] t ↔ a = percent ∧ t = [0x32, 0x35] ∨
      (c = percent ∧ a = 0x32) ∧ (t = [0x35, 0x32] ∨ t = [0x35, percent, 0x33, 0x32]) := by
  simp [CutEscape, List.suffix_cons_iff, eq_comm (b := c), eq_comm (b := a)]

/-- A cut behind the first byte of a text. -/
theorem decode_one_eq_iff (c : UInt8) (t : Bytes) :
    [meaning c] = decode (c :: t) ↔ t = [] ∨ CutEscape [c] t := by
  rw [cutEscape_one]
  by_cases hx : ∃ a b r, t = a :: b :: r ∧ c = percent ∧ isHexDigit a ∧ isHexDigit b
  · obtain ⟨a, b, r, rfl, rfl, ha, hb⟩ := hx
    rw [decode_escape ha hb, List.cons.injEq, meaning_of_ne (by decide), eq_comm,
      escaped_eq_percent_iff ha hb, eq_comm (a := []), decode_eq_nil_iff]
    simp [and_assoc]
  · rw [decode_cons fun a b r h hc => hx ⟨a, b, r, h, hc⟩, List.cons.injEq,
      eq_comm (a := []), decode_eq_nil_iff]
    refine ⟨fun h => Or.inl h.2, fun h => ⟨rfl, h.resolve_right ?_⟩⟩
    rintro ⟨hc, rfl⟩
    exact hx ⟨_, _, _, rfl, hc, by decide, by decide⟩

/-- A cut behind the second byte of a text. -/
theorem decode_two_eq_iff (c a : UInt8) (t : Bytes) :
    [meaning c, meaning a] = decode (c :: a :: t) ↔ t = [] ∨ CutEscape [c, a] t := by
  rw [cutEscape_two]
  by_cases hx : ∃ b r, t = b :: r ∧ c = percent ∧ isHexDigit a ∧ isHexDigit b
  · obtain ⟨b, r, rfl, rfl, ha, hb⟩ := hx
    rw [decode_escape ha hb, List.cons.injEq, meaning_of_ne (by decide), eq_comm,
      escaped_eq_percent_iff ha hb, meaning_of_isHexDigit ha, eq_comm (a := [a])]
    constructor
    · rintro ⟨⟨rfl, rfl⟩, h⟩
      rw [decode_eq_two_iff] at h
      right; right
      rcases h with rfl | rfl <;> simp
    · rintro (h | ⟨rfl, -⟩ | ⟨⟨-, rfl⟩, h | h⟩)
      · cases h
      · exact absurd ha (by decide)
      · cases h; exact ⟨⟨rfl, rfl⟩, rfl⟩
      · cases h; exact ⟨⟨rfl, rfl⟩, rfl⟩
  · rw [decode_cons (s := a :: t) fun _ _ _ h hc => by
      cases h; exact hx ⟨_, _, rfl, hc⟩, List.cons.injEq, decode_one_eq_iff, cutEscape_one]
    refine ⟨fun h => h.2.imp_right Or.inl, fun h => ⟨rfl, h.imp_right ?_⟩⟩
    rintro (h | ⟨⟨hc, rfl⟩, rfl | rfl⟩)
    · exact h
    · exact absurd ⟨_, _, rfl, hc, by decide, by decide⟩ hx
    · exact absurd ⟨_, _, rfl, hc, by decide, by decide⟩ hx

/-- **What a cut does to a decoding**: a text and a longer one decode to the same bytes only if
the cut is one of those that do no harm. -/
theorem decode_eq_decode_append_iff (x t : Bytes) :
    decode x = decode (x ++ t) ↔ t = [] ∨ CutEscape x t := by
  fun_induction decode x with
  | case1 =>
    rw [List.nil_append, eq_comm, decode_eq_nil_iff]
    simp [CutEscape]
  | case2 c => exact decode_one_eq_iff c t
  | case3 c a => exact decode_two_eq_iff c a t
  | case4 c a b s hx ih =>
    obtain ⟨rfl, ha, hb⟩ := hx
    rw [List.cons_append, List.cons_append, List.cons_append, decode_escape ha hb,
      List.cons.injEq, ih, cutEscape_escape ha hb]
    simp
  | case5 c a b s hx ih =>
    rw [List.cons_append, decode_cons (s := a :: b :: s ++ t) (by rintro _ _ _ ⟨⟩; exact hx),
      List.cons.injEq, ih, cutEscape_cons]
    simp

/-! ## Escaped NULs -/

/-- The part of a text in front of its first escaped NUL. -/
def beforeNul : Bytes → Bytes
  | [] => []
  | [c] => [c]
  | [c, a] => [c, a]
  | c :: a :: b :: s =>
    if c = percent ∧ isHexDigit a ∧ isHexDigit b then
      if a = 0x30 ∧ b = 0x30 then [] else c :: a :: b :: beforeNul s
    else c :: beforeNul (a :: b :: s)

theorem beforeNul_escape {a b : UInt8} (ha : isHexDigit a) (hb : isHexDigit b) (s : Bytes) :
    beforeNul (percent :: a :: b :: s) =
      if a = 0x30 ∧ b = 0x30 then [] else percent :: a :: b :: beforeNul s :=
  if_pos ⟨rfl, ha, hb⟩

theorem beforeNul_cons {c : UInt8} {s : Bytes}
    (h : ∀ a b r, s = a :: b :: r → ¬ (c = percent ∧ isHexDigit a ∧ isHexDigit b)) :
    beforeNul (c :: s) = c :: beforeNul s := by
  match s with
  | [] => rfl
  | [a] => rfl
  | a :: b :: r => exact if_neg (h a b r rfl)

theorem beforeNul_prefix (s : Bytes) : beforeNul s <+: s := by
  fun_induction beforeNul s with
  | case1 => exact List.prefix_rfl
  | case2 c => exact List.prefix_rfl
  | case3 c a => exact List.prefix_rfl
  | case4 c a b s _ _ => exact List.nil_prefix
  | case5 c a b s _ _ ih => simpa [List.cons_prefix_cons] using ih
  | case6 c a b s _ ih => rwa [List.cons_prefix_cons, and_iff_right rfl]

/-- **The C string of a decoded text** is the decoding of what precedes the first escaped NUL. -/
theorem cstr_decode {s : Bytes} (hs : 0 ∉ s) : cstr (decode s) = decode (beforeNul s) := by
  fun_induction beforeNul s with
  | case1 => rfl
  | case2 c => exact cstr_cons (meaning_ne_zero (by simpa [eq_comm] using hs)) []
  | case3 c a =>
    simp only [List.mem_cons, List.not_mem_nil, or_false, not_or] at hs
    rw [decode, cstr_cons (meaning_ne_zero (Ne.symm hs.1)),
      cstr_cons (meaning_ne_zero (Ne.symm hs.2)), cstr_nil]
  | case4 c a b s hx h0 =>
    obtain ⟨rfl, ha, hb⟩ := hx
    rw [decode_escape ha hb, (escaped_eq_zero_iff ha hb).2 h0, cstr_zero_cons]
    rfl
  | case5 c a b s hx h0 ih =>
    obtain ⟨rfl, ha, hb⟩ := hx
    rw [decode_escape ha hb, decode_escape ha hb,
      cstr_cons (mt (escaped_eq_zero_iff ha hb).1 h0), ih (by simp_all)]
  | case6 c a b s hx ih =>
    rw [List.mem_cons, not_or] at hs
    rw [decode_cons (s := a :: b :: s) (by rintro _ _ _ ⟨⟩; exact hx),
      cstr_cons (meaning_ne_zero (Ne.symm hs.1)), ih hs.2, decode_cons]
    -- what is left of the text begins with the same bytes, so no escape has come up
    intro a' b' r hr hc
    have hp := beforeNul_prefix (a :: b :: s)
    rw [hr, List.cons_prefix_cons, List.cons_prefix_cons] at hp
    exact hx (by rw [← hp.1, ← hp.2.1]; exact hc)

theorem decode_append_percent (z s : Bytes) :
    decode (z ++ percent :: s) = decode z ++ decode (percent :: s) := by
  fun_induction decode z with
  | case1 => rfl
  | case2 c => exact decode_cons_percent c s
  | case3 c a =>
    have h : ∀ x y r, a :: percent :: s = x :: y :: r →
        ¬ (c = percent ∧ isHexDigit x ∧ isHexDigit y) := by
      rintro _ _ _ ⟨⟩ ⟨-, -, hy⟩
      exact ne_percent_of_isHexDigit hy rfl
    rw [List.cons_append, List.cons_append, List.nil_append, decode_cons h, decode_cons_percent]
    rfl
  | case4 c a b z hx ih =>
    obtain ⟨rfl, ha, hb⟩ := hx
    rw [List.cons_append, List.cons_append, List.cons_append, decode_escape ha hb, ih,
      List.cons_append]
  | case5 c a b z hx ih =>
    rw [List.cons_append, decode_cons (s := a :: b :: z ++ percent :: s)
      (by rintro _ _ _ ⟨⟩; exact hx), ih, List.cons_append]

theorem beforeNul_one_append (c : UInt8) (t : Bytes) :
    (∃ r, beforeNul (c :: t) = c :: r) ∨ c = percent ∧ beforeNul (c :: t) = [] := by
  by_cases hx : ∃ a b r, t = a :: b :: r ∧ c = percent ∧ isHexDigit a ∧ isHexDigit b
  · obtain ⟨a, b, r, rfl, rfl, ha, hb⟩ := hx
    rw [beforeNul_escape ha hb]
    split
    · exact Or.inr ⟨rfl, rfl⟩
    · exact Or.inl ⟨_, rfl⟩
  · exact Or.inl ⟨_, beforeNul_cons fun a b r h hc => hx ⟨a, b, r, h, hc⟩⟩

/-- Lengthening a text lengthens what precedes its first escaped NUL, unless it completes an
escaped NUL that was cut. -/
theorem beforeNul_append (x t : Bytes) :
    (∃ t', beforeNul (x ++ t) = beforeNul x ++ t') ∨
      ∃ u, beforeNul x = beforeNul (x ++ t) ++ percent :: u := by
  fun_induction beforeNul x with
  | case1 => exact Or.inl ⟨_, rfl⟩
  | case2 c =>
    rcases beforeNul_one_append c t with ⟨r, h⟩ | ⟨rfl, h⟩
    · exact Or.inl ⟨r, h⟩
    · exact Or.inr ⟨[], by rw [List.singleton_append, h]; rfl⟩
  | case3 c a =>
    by_cases hx : ∃ b r, t = b :: r ∧ c = percent ∧ isHexDigit a ∧ isHexDigit b
    · obtain ⟨b, r, rfl, rfl, ha, hb⟩ := hx
      rw [List.cons_append, List.cons_append, List.nil_append, beforeNul_escape ha hb]
      split
      · exact Or.inr ⟨[a], rfl⟩
      · exact Or.inl ⟨_, rfl⟩
    · rw [List.cons_append, List.cons_append, List.nil_append,
        beforeNul_cons (s := a :: t) fun _ _ _ h hc => by cases h; exact hx ⟨_, _, rfl, hc⟩]
      rcases beforeNul_one_append a t with ⟨r, h⟩ | ⟨rfl, h⟩
      · exact Or.inl ⟨r, by rw [h]; rfl⟩
      · exact Or.inr ⟨[], by rw [h]; rfl⟩
  | case4 c a b s hx h0 =>
    obtain ⟨rfl, ha, hb⟩ := hx
    refine Or.inl ⟨[], ?_⟩
    rw [List.cons_append, List.cons_append, List.cons_append, beforeNul_escape ha hb, if_pos h0]
    rfl
  | case5 c a b s hx h0 ih =>
    obtain ⟨rfl, ha, hb⟩ := hx
    rw [List.cons_append, List.cons_append, List.cons_append, beforeNul_escape ha hb, if_neg h0]
    exact ih.imp (fun ⟨t', h⟩ => ⟨t', by simp [h]⟩) (fun ⟨u, h⟩ => ⟨u, by simp [← h]⟩)
  | case6 c a b s hx ih =>
    rw [List.cons_append, beforeNul_cons (s := a :: b :: s ++ t) (by rintro _ _ _ ⟨⟩; exact hx)]
    exact ih.imp (fun ⟨t', h⟩ => ⟨t', by rw [h, List.cons_append]⟩)
      (fun ⟨u, h⟩ => ⟨u, by rw [h]; rfl⟩)

/-- The cuts that leave the C string of the decoding alone: in front of the first escaped NUL they
take nothing away, or do no harm. -/
def HarmlessCut (x t : Bytes) : Prop :=
  ∃ t', beforeNul (x ++ t) = beforeNul x ++ t' ∧ (t' = [] ∨ CutEscape (beforeNul x) t')

/-- **What a cut does to the C string of a decoding.** -/
theorem cstr_decode_eq_append_iff {x t : Bytes} (h0 : 0 ∉ x ++ t) :
    cstr (decode x) = cstr (decode (x ++ t)) ↔ HarmlessCut x t := by
  have hx : 0 ∉ x := fun h => h0 (List.mem_append_left t h)
  rw [cstr_decode hx, cstr_decode h0, HarmlessCut]
  rcases beforeNul_append x t with ⟨t', h⟩ | ⟨u, h⟩
  · rw [h, decode_eq_decode_append_iff]
    simp
  · constructor
    · intro he
      rw [h, decode_append_percent, List.append_right_eq_self, decode_eq_nil_iff] at he
      cases he
    · rintro ⟨t', ht, -⟩
      have := congrArg List.length (h.trans (congrArg (· ++ percent :: u) ht))
      simp only [List.length_append, List.length_cons] at this
      omega

/-- In a text without escaped NULs there are none before a cut. -/
theorem beforeNul_eq_self_of_append {x t : Bytes} (h : beforeNul (x ++ t) = x ++ t) :
    beforeNul x = x := by
  fun_induction beforeNul x with
  | case1 => rfl
  | case2 => rfl
  | case3 => rfl
  | case4 c a b s hx h0 =>
    obtain ⟨rfl, ha, hb⟩ := hx
    rw [List.cons_append, List.cons_append, List.cons_append, beforeNul_escape ha hb,
      if_pos h0] at h
    cases h
  | case5 c a b s hx h0 ih =>
    obtain ⟨rfl, ha, hb⟩ := hx
    rw [List.cons_append, List.cons_append, List.cons_append, beforeNul_escape ha hb,
      if_neg h0] at h
    simp only [List.cons.injEq, true_and] at h
    rw [ih h]
  | case6 c a b s hx ih =>
    rw [List.cons_append, beforeNul_cons (s := a :: b :: s ++ t) (by rintro _ _ _ ⟨⟩; exact hx),
      List.cons.injEq] at h
    rw [ih h.2]

theorem beforeNul_eq_self {s : Bytes} (h : 0 ∉ decode s) : beforeNul s = s := by
  fun_induction beforeNul s with
  | case1 => rfl
  | case2 => rfl
  | case3 => rfl
  | case4 c a b s hx h0 =>
    obtain ⟨rfl, ha, hb⟩ := hx
    rw [decode_escape ha hb, (escaped_eq_zero_iff ha hb).2 h0] at h
    simp at h
  | case5 c a b s hx h0 ih =>
    obtain ⟨rfl, ha, hb⟩ := hx
    rw [decode_escape ha hb, List.mem_cons, not_or] at h
    rw [ih h.2]
  | case6 c a b s hx ih =>
    rw [decode_cons (s := a :: b :: s) (by rintro _ _ _ ⟨⟩; exact hx), List.mem_cons,
      not_or] at h
    rw [ih h.2]

/-- The harmless cuts of a text without escaped NULs. -/
theorem harmlessCut_iff {x t : Bytes} (h : beforeNul (x ++ t) = x ++ t) :
    HarmlessCut x t ↔ t = [] ∨ CutEscape x t := by
  rw [HarmlessCut, h, beforeNul_eq_self_of_append h]
  simp

/-- **Cutting an encoding of a text without NUL** loses the text, except where the cut does no
harm. -/
theorem cstr_decode_take_iff {e p : Bytes} (he : Encodes e p) (hp : 0 ∉ p) (n : ℕ) :
    cstr (decode (e.take n)) = p ↔ e.length ≤ n ∨ CutEscape (e.take n) (e.drop n) := by
  have hd : decode e = p := decode_of_encodes he
  have hbe : beforeNul (e.take n ++ e.drop n) = e.take n ++ e.drop n := by
    rw [List.take_append_drop]
    exact beforeNul_eq_self (hd ▸ hp)
  have h := cstr_decode_eq_append_iff (x := e.take n) (t := e.drop n)
    (by rw [List.take_append_drop]; exact he.zero_notMem hp)
  rwa [harmlessCut_iff hbe, List.take_append_drop, hd, cstr_of_zero_notMem hp,
    List.drop_eq_nil_iff] at h

end HomeAssistant.Form
