import Http3Framing.Varint.Encoding
import Http3Framing.Varint.Partial

/-! The forms of an integer: the byte strings that spell it, one for each width that can hold it.
Decoding reads exactly one form off the front, whatever follows, and bytes that arrive one by one
add up to the same value. -/

namespace Http3Framing

namespace BigEndian

theorem bytes_mod (width n : Nat) : bytes width (n % 256 ^ width) = bytes width n := by
  induction width generalizing n with
  | zero => rfl
  | succ width ih =>
    have hfirst : n % 256 ^ (width + 1) / 256 ^ width = n / 256 ^ width % 256 := by
      rw [Nat.pow_succ, Nat.mod_mul_right_div_self]
    have hrest : n % 256 ^ (width + 1) % 256 ^ width = n % 256 ^ width :=
      Nat.mod_mod_of_dvd n (Nat.pow_dvd_pow 256 (Nat.le_succ width))
    rw [bytes, bytes, hfirst, ← ih (n % 256 ^ (width + 1)), hrest, ih]
    congr 1
    exact UInt8.toNat_inj.1 (by simp)

/-- Bytes are the numeral that they spell. -/
theorem bytes_number (bs : List UInt8) : bytes bs.length (number bs) = bs := by
  induction bs with
  | nil => rfl
  | cons b bs ih =>
    have hlt := number_lt bs
    have hfirst : number (b :: bs) / 256 ^ bs.length = b.toNat := by
      rw [number_cons, Nat.mul_comm, Nat.mul_add_div (Nat.pow_pos (by decide)),
        Nat.div_eq_of_lt hlt, Nat.add_zero]
    have hrest : number (b :: bs) % 256 ^ bs.length = number bs := by
      rw [number_cons, Nat.mul_comm, Nat.mul_add_mod, Nat.mod_eq_of_lt hlt]
    rw [List.length_cons, bytes, hfirst, ← bytes_mod, hrest, ih]
    simp

end BigEndian

namespace Width

theorem two_pow_bits (w : Width) : 2 ^ w.bits = 64 * 256 ^ (w.size - 1) := by
  cases w <;> decide

theorem tag_lt (w : Width) : w.tag < 4 := by cases w <;> decide

theorem ofFirst_of_div {b : UInt8} {w : Width} (h : b.toNat / 64 = w.tag) : ofFirst b = w := by
  unfold ofFirst
  rw [h]
  cases w <;> rfl

theorem tag_ofFirst (b : UInt8) : (ofFirst b).tag = b.toNat / 64 := by
  have hb := b.toNat_lt
  have hdiv : b.toNat / 64 = 0 ∨ b.toNat / 64 = 1 ∨ b.toNat / 64 = 2 ∨ b.toNat / 64 = 3 := by omega
  unfold ofFirst
  rcases hdiv with h | h | h | h <;> rw [h] <;> rfl

end Width

namespace Varint

open BigEndian

/-- The byte string spells the value in one of the four widths, not always the shortest. -/
def Form (v : Varint) (bs : List UInt8) : Prop :=
  ∃ w : Width, v.toNat < 2 ^ w.bits ∧ bs = encodeAs w v.toNat

theorem form_encode (v : Varint) : v.Form v.encode :=
  ⟨v.width, Width.lt_two_pow_bits_least v.isLt, rfl⟩

/-- The first byte of a form announces its width. -/
theorem encodeAs_eq_cons {w : Width} {n : Nat} (h : n < 2 ^ w.bits) :
    ∃ b bs, encodeAs w n = b :: bs ∧ Width.ofFirst b = w ∧ (b :: bs).length = w.size := by
  obtain ⟨k, hk⟩ : ∃ k, w.size = k + 1 := ⟨w.size - 1, (Nat.sub_add_cancel w.size_pos).symm⟩
  have hbits : 2 ^ w.bits = 64 * 256 ^ k := by rw [w.two_pow_bits, hk, Nat.add_sub_cancel]
  have hpos : 0 < 256 ^ k := Nat.pow_pos (by decide)
  have hdiv : (w.tag * 2 ^ w.bits + n) / 256 ^ k = w.tag * 64 + n / 256 ^ k := by
    rw [hbits, ← Nat.mul_assoc, Nat.mul_comm, Nat.mul_add_div hpos]
  have hn : n / 256 ^ k < 64 := by
    rw [Nat.div_lt_iff_lt_mul hpos, ← hbits]
    exact h
  have htag := w.tag_lt
  refine ⟨_, _, by rw [encodeAs, hk, bytes], Width.ofFirst_of_div ?_, ?_⟩
  · rw [hdiv, UInt8.toNat_ofNat']
    generalize n / 256 ^ k = high at hn
    omega
  · simp [hk]

theorem take_drop_encodeAs_append {w : Width} {n : Nat} (rest : List UInt8) :
    (encodeAs w n ++ rest).take w.size = encodeAs w n ∧
      (encodeAs w n ++ rest).drop w.size = rest := by
  constructor
  · rw [List.take_append_of_le_length (by simp), List.take_of_length_le (by simp)]
  · rw [List.drop_append_of_le_length (by simp), List.drop_of_length_le (by simp), List.nil_append]

theorem number_encodeAs {w : Width} {n : Nat} (h : n < 2 ^ w.bits) :
    number (encodeAs w n) = w.tag * 2 ^ w.bits + n := by
  rw [encodeAs, number_bytes]
  apply Nat.mod_eq_of_lt
  have hall : 2 ^ w.bits * 4 = 256 ^ w.size := by cases w <;> decide
  have htag : (w.tag + 1) * 2 ^ w.bits ≤ 4 * 2 ^ w.bits := Nat.mul_le_mul_right _ w.tag_lt
  rw [Nat.add_mul] at htag
  omega

theorem decode?_form {v : Varint} {form : List UInt8} (h : v.Form form) (rest : List UInt8) :
    decode? (form ++ rest) = some (v, rest) := by
  obtain ⟨w, hv, rfl⟩ := h
  obtain ⟨b, bs, hbs, hw, hlen⟩ := encodeAs_eq_cons hv
  obtain ⟨htake, hdrop⟩ := take_drop_encodeAs_append (w := w) (n := v.toNat) rest
  have hvalue : ofBytes w (encodeAs w v.toNat) = v := by
    apply Varint.ext
    change number (encodeAs w v.toNat) % 2 ^ w.bits = v.toNat
    rw [number_encodeAs hv, Nat.mul_comm, Nat.mul_add_mod, Nat.mod_eq_of_lt hv]
  have hge : ¬ (encodeAs w v.toNat ++ rest).length < w.size := by
    simp
  rw [hbs, List.cons_append] at htake hdrop hge ⊢
  rw [decode?, hw, if_neg hge, htake, hdrop, ← hbs, hvalue]

/-- A complete byte string is a form of the value that its bits spell. -/
theorem form_ofBytes {b : UInt8} {bs : List UInt8}
    (h : (b :: bs).length = (Width.ofFirst b).size) :
    (ofBytes (Width.ofFirst b) (b :: bs)).Form (b :: bs) := by
  refine ⟨Width.ofFirst b, Nat.mod_lt _ (Nat.two_pow_pos _), ?_⟩
  have hbits : 2 ^ (Width.ofFirst b).bits = 64 * 256 ^ bs.length := by
    rw [Width.two_pow_bits, ← h, List.length_cons, Nat.add_sub_cancel]
  have hlt := number_lt bs
  have htag : number (b :: bs) / 2 ^ (Width.ofFirst b).bits = (Width.ofFirst b).tag := by
    rw [hbits, Width.tag_ofFirst, Nat.mul_comm, ← Nat.div_div_eq_div_mul, number_cons, Nat.mul_comm,
      Nat.mul_add_div (Nat.pow_pos (by decide)), Nat.div_eq_of_lt hlt, Nat.add_zero]
  have hnumber : (Width.ofFirst b).tag * 2 ^ (Width.ofFirst b).bits +
      number (b :: bs) % 2 ^ (Width.ofFirst b).bits = number (b :: bs) := by
    rw [← htag]
    exact Nat.div_add_mod' _ _
  rw [encodeAs, ofBytes, hnumber, ← h, bytes_number]

theorem form_of_decode? {v : Varint} {bs rest : List UInt8} (h : decode? bs = some (v, rest)) :
    ∃ form, v.Form form ∧ bs = form ++ rest := by
  cases bs with
  | nil => cases h
  | cons b bs =>
    simp only [decode?] at h
    split at h
    · cases h
    · next hlen =>
      cases h
      have hpos := (Width.ofFirst b).size_pos
      have htake : (b :: bs).take (Width.ofFirst b).size =
          b :: bs.take ((Width.ofFirst b).size - 1) := List.take_cons hpos
      refine ⟨_, ?_, (List.take_append_drop (Width.ofFirst b).size (b :: bs)).symm⟩
      rw [htake]
      apply form_ofBytes
      simp only [List.length_cons, List.length_take] at hlen ⊢
      omega

/-- Two forms at the front of the same bytes are the same form. -/
theorem Form.unique {v v' : Varint} {form form' rest rest' : List UInt8} (h : v.Form form)
    (h' : v'.Form form') (heq : form ++ rest = form' ++ rest') :
    v = v' ∧ form = form' ∧ rest = rest' := by
  have hd := decode?_form h rest
  rw [heq, decode?_form h' rest'] at hd
  simp only [Option.some.injEq, Prod.mk.injEq] at hd
  obtain ⟨rfl, rfl⟩ := hd
  exact ⟨rfl, List.append_cancel_right heq, rfl⟩

/-- Bytes are none at all, or end inside an integer, or begin with one. -/
theorem form_cases (bs : List UInt8) :
    bs = [] ∨ (∃ b more, bs = b :: more ∧ (b :: more).length < (Width.ofFirst b).size) ∨
      ∃ v form rest, Form v form ∧ bs = form ++ rest := by
  cases bs with
  | nil => exact .inl rfl
  | cons b more =>
    right
    cases hd : decode? (b :: more) with
    | none =>
      left
      refine ⟨b, more, rfl, ?_⟩
      simp only [decode?] at hd
      split at hd
      · assumption
      · cases hd
    | some d =>
      obtain ⟨form, hf, heq⟩ := form_of_decode? hd
      exact .inr ⟨d.1, form, d.2, hf, heq⟩

/-- No form is short of what its first byte announces. -/
theorem Form.not_short {v : Varint} {form rest more : List UInt8} {b : UInt8} (h : v.Form form)
    (heq : form ++ rest = b :: more) : ¬ (b :: more).length < (Width.ofFirst b).size := by
  intro hlt
  have hd := decode?_form h rest
  rw [heq, decode?, if_pos hlt] at hd
  cases hd

theorem Form.ne_nil {v : Varint} {form : List UInt8} (h : v.Form form) : form ≠ [] := by
  obtain ⟨w, hv, rfl⟩ := h
  obtain ⟨b, bs, hbs, -⟩ := encodeAs_eq_cons hv
  simp [hbs]

theorem form_iff {v : Varint} {bs : List UInt8} : v.Form bs ↔ decode? bs = some (v, []) := by
  constructor
  · intro h
    simpa using decode?_form h []
  · intro h
    obtain ⟨form, hf, rfl⟩ := form_of_decode? h
    simpa using hf

/-- Bytes that arrive behind the first one continue the numeral of its six low bits. -/
theorem extend_eq_ofBytes {b : UInt8} {bs : List UInt8}
    (h : (b :: bs).length = (Width.ofFirst b).size) :
    extend (b.toNat % 64) bs = (ofBytes (Width.ofFirst b) (b :: bs)).toNat := by
  have hbits : 2 ^ (Width.ofFirst b).bits = 64 * 256 ^ bs.length := by
    rw [Width.two_pow_bits, ← h, List.length_cons, Nat.add_sub_cancel]
  have hlt := number_lt bs
  have hlow : b.toNat % 64 * 256 ^ bs.length + number bs < 64 * 256 ^ bs.length := by
    have hm : (b.toNat % 64 + 1) * 256 ^ bs.length ≤ 64 * 256 ^ bs.length :=
      Nat.mul_le_mul_right _ (Nat.mod_lt _ (by decide))
    rw [Nat.add_mul] at hm
    omega
  have hsplit : number (b :: bs) = 64 * 256 ^ bs.length * (b.toNat / 64) +
      (b.toNat % 64 * 256 ^ bs.length + number bs) := by
    rw [number_cons]
    conv => lhs; rw [← Nat.div_add_mod b.toNat 64]
    rw [Nat.add_mul, Nat.add_assoc, Nat.mul_right_comm]
  change _ = number (b :: bs) % 2 ^ (Width.ofFirst b).bits
  rw [extend_eq, hbits, hsplit, Nat.mul_add_mod, Nat.mod_eq_of_lt hlow]

end Varint

end Http3Framing
