import Mathlib.Algebra.Group.Nat.Defs
import Mathlib.Data.List.Infix
import SwitchLint.Text.Utf8

/-!
# Encoded texts

Decoding the bytes of a text gives the text back (`decode_encode`). A byte offset is a *boundary* of a text if some
prefix of the text has that many bytes; the bytes between two boundaries are the bytes of the characters between them
(`slice_of_boundary`), so that a slice of the data taken at boundaries never cuts a character.
-/

namespace SwitchLint.Text.Utf8

/-! ### Decoding what was encoded -/

private theorem toNat_byte {n : Nat} (h : n < 256) : (UInt8.ofNat n).toNat = n := by
  rw [UInt8.toNat_ofNat']
  omega

private theorem valid_toNat (c : Char) : c.toNat < 0xD800 ∨ (0xDFFF < c.toNat ∧ c.toNat < 0x110000) := by
  rcases c.valid with h | h
  · exact .inl h
  · exact .inr h

private theorem decodeFrom_ascii (offset : Nat) {b : UInt8} (bs : List UInt8) (h : b.toNat < 0x80) :
    decodeFrom offset none (b :: bs) = (Char.ofNat b.toNat :: ·) <$> decodeFrom (offset + 1) none bs := by
  simp only [decodeFrom, h, ↓reduceIte]

private theorem decodeFrom_lead (offset : Nat) {b : UInt8} (bs : List UInt8) {p : Pending} (h : 0x80 ≤ b.toNat)
    (hp : Pending.ofLead offset b = some p) :
    decodeFrom offset none (b :: bs) = decodeFrom (offset + 1) (some p) bs := by
  have hb : ¬b.toNat < 0x80 := by omega
  simp only [decodeFrom, hb, hp, ↓reduceIte]

private theorem decodeFrom_continue (offset : Nat) {b : UInt8} (bs : List UInt8) {p : Pending}
    (h : p.low ≤ b.toNat ∧ b.toNat ≤ p.high) (hm : 2 ≤ p.missing) :
    decodeFrom offset (some p) (b :: bs) = decodeFrom (offset + 1) (some (p.push b)) bs := by
  have hq : (p.push b).missing ≠ 0 := by
    show p.missing - 1 ≠ 0
    omega
  simp only [decodeFrom, h, hq, and_self, ↓reduceIte]

private theorem decodeFrom_last (offset : Nat) {b : UInt8} (bs : List UInt8) {p : Pending}
    (h : p.low ≤ b.toNat ∧ b.toNat ≤ p.high) (hm : p.missing = 1) :
    decodeFrom offset (some p) (b :: bs) =
      (Char.ofNat (p.value * 64 + (b.toNat - 0x80)) :: ·) <$> decodeFrom (offset + 1) none bs := by
  have hq : (p.push b).missing = 0 := by
    show p.missing - 1 = 0
    omega
  simp only [decodeFrom, h, hq, and_self, ↓reduceIte]
  rfl

/-! The first byte of a character of two, three or four bytes admits the byte that follows it. -/

private theorem ofLead_two (offset : Nat) {n : Nat} (h : ¬n < 0x80) (h2 : n < 0x800) :
    Pending.ofLead offset (.ofNat (0xC0 + n / 64)) =
      some ⟨offset, [.ofNat (0xC0 + n / 64)], n / 64, 1, 0x80, 0xBF⟩ := by
  have hb := toNat_byte (n := 0xC0 + n / 64) (by omega)
  simp only [Pending.ofLead, hb]
  rw [if_pos (by omega), Nat.add_sub_cancel_left]

private theorem ofLead_three (offset : Nat) {n : Nat} (hv : n < 0xD800 ∨ 0xDFFF < n) (h : ¬n < 0x800)
    (h3 : n < 0x10000) : ∃ low high, Pending.ofLead offset (.ofNat (0xE0 + n / 4096)) =
        some ⟨offset, [.ofNat (0xE0 + n / 4096)], n / 4096, 2, low, high⟩ ∧
      low ≤ 0x80 + n / 64 % 64 ∧ 0x80 + n / 64 % 64 ≤ high := by
  have hb := toNat_byte (n := 0xE0 + n / 4096) (by omega)
  simp only [Pending.ofLead, hb]
  rw [if_neg (by omega)]
  by_cases h0 : n / 4096 = 0
  · rw [if_pos (by omega), h0]
    exact ⟨0xA0, 0xBF, rfl, by omega, by omega⟩
  rw [if_neg (by omega)]
  by_cases hD : n / 4096 = 0xD
  · rw [if_pos (by omega), hD]
    exact ⟨0x80, 0x9F, rfl, by omega, by omega⟩
  rw [if_neg (by omega), if_pos (by omega), Nat.add_sub_cancel_left]
  exact ⟨0x80, 0xBF, rfl, by omega, by omega⟩

private theorem ofLead_four (offset : Nat) {n : Nat} (hv : n < 0x110000) (h : ¬n < 0x10000) :
    ∃ low high, Pending.ofLead offset (.ofNat (0xF0 + n / 262144)) =
        some ⟨offset, [.ofNat (0xF0 + n / 262144)], n / 262144, 3, low, high⟩ ∧
      low ≤ 0x80 + n / 4096 % 64 ∧ 0x80 + n / 4096 % 64 ≤ high := by
  have hb := toNat_byte (n := 0xF0 + n / 262144) (by omega)
  simp only [Pending.ofLead, hb]
  rw [if_neg (by omega), if_neg (by omega), if_neg (by omega), if_neg (by omega)]
  by_cases h0 : n / 262144 = 0
  · rw [if_pos (by omega), h0]
    exact ⟨0x90, 0xBF, rfl, by omega, by omega⟩
  rw [if_neg (by omega)]
  by_cases h4 : n / 262144 = 4
  · rw [if_neg (by omega), if_pos (by omega), h4]
    exact ⟨0x80, 0x8F, rfl, by omega, by omega⟩
  rw [if_pos (by omega), Nat.add_sub_cancel_left]
  exact ⟨0x80, 0xBF, rfl, by omega, by omega⟩

/-- The bytes of a character in front of others are decoded to the character in front of the rest. -/
theorem decodeFrom_encodeChar (offset : Nat) (c : Char) (bs : List UInt8) :
    decodeFrom offset none (encodeChar c ++ bs) =
      (c :: ·) <$> decodeFrom (offset + (encodeChar c).length) none bs := by
  have hv := valid_toNat c
  have hc := Char.ofNat_toNat c
  unfold encodeChar
  generalize c.toNat = n at hv hc
  subst hc
  have tail (m : Nat) : (UInt8.ofNat (0x80 + m % 64)).toNat = 0x80 + m % 64 := toNat_byte (by omega)
  have lead {m : Nat} (hm : 0x80 ≤ m) (hm' : m < 256) : 0x80 ≤ (UInt8.ofNat m).toNat := by rw [toNat_byte hm']; exact hm
  -- one, two, three or four bytes
  by_cases h1 : n < 0x80
  · have hb := toNat_byte (n := n) (by omega)
    simp only [h1, ↓reduceIte, List.cons_append, List.nil_append]
    rw [decodeFrom_ascii offset bs (by omega), hb]
    rfl
  by_cases h2 : n < 0x800
  · simp only [h1, h2, ↓reduceIte, List.cons_append, List.nil_append]
    rw [decodeFrom_lead offset _ (lead (by omega) (by omega)) (ofLead_two offset h1 h2),
      decodeFrom_last _ _ (by rw [tail]; dsimp only; omega) rfl, tail,
      show n / 64 * 64 + (0x80 + n % 64 - 0x80) = n by omega]
    rfl
  by_cases h3 : n < 0x10000
  · simp only [h1, h2, h3, ↓reduceIte, List.cons_append, List.nil_append]
    obtain ⟨low, high, hp, hl⟩ := ofLead_three offset (by omega) h2 h3
    rw [decodeFrom_lead offset _ (lead (by omega) (by omega)) hp,
      decodeFrom_continue _ _ (by rw [tail]; exact hl) (Nat.le_refl 2),
      decodeFrom_last _ _ (by rw [tail]; simp only [Pending.push]; omega) rfl]
    simp only [Pending.push, tail]
    rw [show (n / 4096 * 64 + (0x80 + n / 64 % 64 - 0x80)) * 64 + (0x80 + n % 64 - 0x80) = n by omega]
    rfl
  · simp only [h1, h2, h3, ↓reduceIte, List.cons_append, List.nil_append]
    obtain ⟨low, high, hp, hl⟩ := ofLead_four offset (by omega) h3
    rw [decodeFrom_lead offset _ (lead (by omega) (by omega)) hp,
      decodeFrom_continue _ _ (by rw [tail]; exact hl) (by decide : 2 ≤ 3),
      decodeFrom_continue _ _ (by rw [tail]; simp only [Pending.push]; omega) (Nat.le_refl 2),
      decodeFrom_last _ _ (by rw [tail]; simp only [Pending.push]; omega) rfl]
    simp only [Pending.push, tail]
    rw [show ((n / 262144 * 64 + (0x80 + n / 4096 % 64 - 0x80)) * 64 + (0x80 + n / 64 % 64 - 0x80)) * 64 +
      (0x80 + n % 64 - 0x80) = n by omega]
    rfl

@[simp] theorem encode_nil : encode [] = [] := rfl

@[simp] theorem encode_cons (c : Char) (s : List Char) : encode (c :: s) = encodeChar c ++ encode s := rfl

@[simp] theorem encode_append (s t : List Char) : encode (s ++ t) = encode s ++ encode t := by
  unfold encode
  exact List.flatMap_append

private theorem decodeFrom_encode (offset : Nat) (s : List Char) : decodeFrom offset none (encode s) = .ok s := by
  induction s generalizing offset with
  | nil => rfl
  | cons c s ih =>
    rw [encode_cons, decodeFrom_encodeChar, ih]
    rfl

/-- Decoding the bytes of a text gives the text back. -/
theorem decode_encode (s : List Char) : decode (encode s) = .ok s :=
  decodeFrom_encode 0 s

/-! ### ASCII characters -/

private theorem toNat_of_mem_encodeChar {c : Char} {n : Nat} (hn : n < 0x80) (h : UInt8.ofNat n ∈ encodeChar c) :
    c.toNat = n := by
  have hv := valid_toNat c
  have byte {m : Nat} (hm : m < 256) (h : UInt8.ofNat n = UInt8.ofNat m) : n = m := by
    have := congrArg UInt8.toNat h
    rwa [toNat_byte (by omega), toNat_byte hm] at this
  unfold encodeChar at h
  generalize c.toNat = k at h hv
  dsimp only at h
  -- the bytes of a longer character are too large
  split at h
  · exact (byte (by omega) (List.mem_singleton.1 h)).symm
  · split at h
    · simp only [List.mem_cons, List.not_mem_nil, or_false] at h
      rcases h with h | h
      all_goals
        have := byte (by omega) h
        omega
    · split at h
      · simp only [List.mem_cons, List.not_mem_nil, or_false] at h
        rcases h with h | h | h
        all_goals
          have := byte (by omega) h
          omega
      · simp only [List.mem_cons, List.not_mem_nil, or_false] at h
        rcases h with h | h | h | h
        all_goals
          have := byte (by omega) h
          omega

/-- A byte below 128 in an encoding is the byte of a character. -/
theorem ofNat_mem_of_mem_encode {s : List Char} {n : Nat} (hn : n < 0x80) (h : UInt8.ofNat n ∈ encode s) :
    Char.ofNat n ∈ s := by
  obtain ⟨c, hc, h⟩ := List.mem_flatMap.1 h
  rw [← toNat_of_mem_encodeChar hn h, Char.ofNat_toNat]
  exact hc

private theorem count_encodeChar (c : Char) : (encodeChar c).count 10 = [c].count '\n' := by
  by_cases h : c = '\n'
  · subst h
    decide
  · rw [List.count_singleton, beq_false_of_ne h, List.count_eq_zero.2]
    · rfl
    · intro hm
      exact h (Char.toNat_inj.1 (toNat_of_mem_encodeChar (n := 10) (by decide) hm))

/-- The line feeds of a text are the bytes of value ten of its encoding. -/
theorem count_encode (s : List Char) : (encode s).count 10 = s.count '\n' := by
  induction s with
  | nil => rfl
  | cons c s ih =>
    rw [encode_cons, List.count_append, ih, count_encodeChar, ← List.count_append]
    rfl

/-- Whether a pending character cannot become an ASCII character, whatever bytes within the bounds follow. -/
private def Pending.IsLong (p : Pending) : Prop :=
  0x80 ≤ p.low ∧ 1 ≤ p.missing ∧ 0x80 ≤ (p.value * 64 + (p.low - 0x80)) * 64 ^ (p.missing - 1)

private theorem isLong_of_ofLead {start : Nat} {b : UInt8} {p : Pending} (h : Pending.ofLead start b = some p) :
    p.IsLong := by
  unfold Pending.ofLead at h
  unfold Pending.IsLong
  dsimp only at h
  repeat' split at h
  all_goals
    cases h
    try dsimp only
    try omega

private theorem le_value_push {p : Pending} (hp : p.IsLong) {b : UInt8} (hb : p.low ≤ b.toNat) :
    0x80 ≤ (p.push b).value * 64 ^ (p.push b).missing := by
  have hle : p.value * 64 + (p.low - 0x80) ≤ p.value * 64 + (b.toNat - 0x80) := by omega
  exact hp.2.2.trans (Nat.mul_le_mul_right _ hle)

private theorem isLong_push {p : Pending} (hp : p.IsLong) {b : UInt8} (hb : p.low ≤ b.toNat)
    (hm : (p.push b).missing ≠ 0) : (p.push b).IsLong := by
  have h := le_value_push hp hb
  refine ⟨Nat.le_refl _, Nat.pos_of_ne_zero hm, ?_⟩
  obtain ⟨m, hm⟩ := Nat.exists_eq_succ_of_ne_zero hm
  have hlow : (p.push b).low - 0x80 = 0 := Nat.sub_self 0x80
  rw [hm, Nat.pow_succ, Nat.mul_comm (64 ^ m), ← Nat.mul_assoc] at h
  rw [hm, hlow, Nat.add_zero, Nat.succ_sub_one]
  exact h

private theorem eq_of_ofNat_eq {m n : Nat} (h0 : 0 < n) (hn : n < 0x80) (h : Char.ofNat m = Char.ofNat n) : m = n := by
  have toNat_ofNat {k : Nat} (hk : k.isValidChar) : (Char.ofNat k).toNat = k := by
    rw [Char.ofNat, dif_pos hk]
    exact UInt32.toNat_ofNatLT
  have h := congrArg Char.toNat h
  rw [toNat_ofNat (.inl (by omega) : n.isValidChar)] at h
  by_cases hm : m.isValidChar
  · rwa [toNat_ofNat hm] at h
  · rw [Char.ofNat, dif_neg hm] at h
    exact absurd h.symm (Nat.pos_iff_ne_zero.1 h0)

/-- An ASCII character of a decoded text has its byte among those of the text. -/
private theorem mem_of_ofNat_mem_decodeFrom {n : Nat} (h0 : 0 < n) (hn : n < 0x80) {bs : List UInt8} {offset : Nat}
    {pending : Option Pending} (hp : ∀ p ∈ pending, p.IsLong) {s : List Char}
    (h : decodeFrom offset pending bs = .ok s) (hs : Char.ofNat n ∈ s) : UInt8.ofNat n ∈ bs := by
  induction bs generalizing offset pending s with
  | nil =>
    cases pending with
    | none =>
      cases h
      cases hs
    | some p => cases h
  | cons b bs ih =>
    -- a character in front of the others is the one looked for, or else that is behind it
    have front {m offset : Nat} (hm : m = n → UInt8.ofNat n ∈ b :: bs)
        (h : (Char.ofNat m :: ·) <$> decodeFrom offset none bs = .ok s) : UInt8.ofNat n ∈ b :: bs := by
      cases hd : decodeFrom offset none bs with
      | error e =>
        rw [hd] at h
        cases h
      | ok rest =>
        rw [hd] at h
        cases h
        rcases List.mem_cons.1 hs with hc | hc
        · exact hm (eq_of_ofNat_eq h0 hn hc.symm)
        · exact List.mem_cons_of_mem _ (ih (by simp) hd hc)
    cases pending with
    | none =>
      rw [decodeFrom] at h
      split at h
      · refine front ?_ h
        rintro rfl
        rw [UInt8.ofNat_toNat]
        exact List.mem_cons_self
      · split at h
        · cases h
        · rename_i p hlead
          refine List.mem_cons_of_mem _ (ih ?_ h hs)
          rintro _ ⟨⟩
          exact isLong_of_ofLead hlead
    | some p =>
      have hlong := hp p rfl
      rw [decodeFrom] at h
      dsimp only at h
      split at h
      · rename_i hb
        split at h
        · rename_i hm
          refine front ?_ h
          intro hv
          have := le_value_push hlong hb.1
          rw [hm, Nat.pow_zero, Nat.mul_one] at this
          omega
        · rename_i hm
          refine List.mem_cons_of_mem _ (ih ?_ h hs)
          rintro _ ⟨⟩
          exact isLong_push hlong hb.1 hm
      · cases h

theorem mem_of_ofNat_mem_decode {n : Nat} (h0 : 0 < n) (hn : n < 0x80) {bs : List UInt8} {s : List Char}
    (h : decode bs = .ok s) (hs : Char.ofNat n ∈ s) : UInt8.ofNat n ∈ bs :=
  mem_of_ofNat_mem_decodeFrom h0 hn (by simp) h hs

/-- Whatever part of an encoded text is decoded, the ASCII characters in it are characters of the text. -/
theorem mem_of_mem_decode_slice {n : Nat} (h0 : 0 < n) (hn : n < 0x80) {text s : List Char} {a b : Nat}
    (h : decode (slice (encode text) a b) = .ok s) (hs : Char.ofNat n ∈ s) : Char.ofNat n ∈ text :=
  ofNat_mem_of_mem_encode hn (List.mem_of_mem_drop (List.mem_of_mem_take (mem_of_ofNat_mem_decode h0 hn h hs)))

/-! ### Boundaries -/

/-- Whether a byte offset lies at a character boundary of a text: some prefix of the text has that many bytes. -/
def IsBoundary (text : List Char) (offset : Nat) : Prop :=
  ∃ s, s <+: text ∧ (encode s).length = offset

instance (text : List Char) (offset : Nat) : Decidable (IsBoundary text offset) :=
  decidable_of_iff (∃ s ∈ text.inits, (encode s).length = offset) (by simp only [IsBoundary, List.mem_inits])

theorem length_encodeChar_pos (c : Char) : 0 < (encodeChar c).length := by
  unfold encodeChar
  dsimp only
  repeat' split
  all_goals exact Nat.succ_pos _

theorem length_encode_eq_zero {s : List Char} : (encode s).length = 0 ↔ s = [] := by
  cases s with
  | nil => simp
  | cons c s =>
    have := length_encodeChar_pos c
    rw [encode_cons, List.length_append]
    simp only [reduceCtorEq, iff_false]
    omega

private theorem prefix_of_length_le {s t u : List Char} (hs : s <+: u) (ht : t <+: u)
    (h : (encode s).length ≤ (encode t).length) : s <+: t := by
  rcases List.prefix_or_prefix_of_prefix hs ht with hp | ⟨v, rfl⟩
  · exact hp
  · have hv : v = [] := by
      rw [encode_append, List.length_append] at h
      exact length_encode_eq_zero.1 (by omega)
    rw [hv, List.append_nil]

/-- A text that is passed up to some place can be passed up to any later boundary. -/
theorem IsBoundary.split {before after : List Char} {offset : Nat} (h : IsBoundary (before ++ after) offset)
    (hle : (encode before).length ≤ offset) :
    ∃ mid rest, after = mid ++ rest ∧ (encode (before ++ mid)).length = offset := by
  obtain ⟨s, hs, rfl⟩ := h
  obtain ⟨mid, rfl⟩ := prefix_of_length_le (List.prefix_append before after) hs hle
  obtain ⟨rest, hrest⟩ := hs
  rw [List.append_assoc] at hrest
  exact ⟨mid, rest, (List.append_cancel_left hrest).symm, rfl⟩

/-- The bytes between two boundaries are those of the characters between them. -/
theorem slice_of_boundary (before mid after : List Char) :
    slice (encode (before ++ (mid ++ after))) (encode before).length (encode (before ++ mid)).length = encode mid := by
  unfold slice
  simp only [encode_append, List.length_append, Nat.add_sub_cancel_left, List.drop_left, List.take_left]

theorem take_of_boundary (before after : List Char) :
    (encode (before ++ after)).take (encode before).length = encode before := by
  rw [encode_append, List.take_left]

end SwitchLint.Text.Utf8
