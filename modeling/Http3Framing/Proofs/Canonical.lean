import Http3Framing.Proofs.Forms
import Http3Framing.Varint.Pieces

/-! The shortest form of an integer. It is the one that is written; every other form of the value is
longer, so a byte string that is read to its end is the shortest form exactly when it has the size of
one. Forms carry their own length, which is why forms that are written one behind the other are read
back one by one, in whatever pieces they lie. -/

namespace Http3Framing

namespace Width

/-- The two highest bits of the first byte are the exponent of the number of bytes. -/
theorem size_ofFirst (b : UInt8) : (ofFirst b).size = 1 <<< (b.toNat >>> 6) := by
  have hsize (w : Width) : w.size = 1 <<< w.tag := by cases w <;> rfl
  rw [hsize, tag_ofFirst, Nat.shiftRight_eq_div_pow]

theorem size_injective {w w' : Width} (h : w.size = w'.size) : w = w' := by
  cases w <;> cases w' <;> first | rfl | cases h

end Width

namespace Varint

open BigEndian

variable {v : Varint} {form : List UInt8}

/-- The bits of the width are set above those of the value. -/
theorem encode_eq_or (v : Varint) :
    v.encode = bytes v.size (v.width.tag <<< v.width.bits ||| v.toNat) := by
  have hfits : v.toNat < 2 ^ v.width.bits := Width.lt_two_pow_bits_least v.isLt
  rw [← Nat.shiftLeft_add_eq_or_of_lt hfits, Nat.shiftLeft_eq]
  rfl

/-- A form holds the value below the two highest of its bits. -/
theorem Form.toNat_eq_and (h : v.Form form) :
    v.toNat = number form &&& (2 ^ (8 * form.length - 2) - 1) := by
  obtain ⟨w, hv, rfl⟩ := h
  have hbits : 8 * w.size - 2 = w.bits := rfl
  rw [number_encodeAs hv, length_encodeAs, hbits, Nat.and_two_pow_sub_one_eq_mod, Nat.mul_comm,
    Nat.mul_add_mod, Nat.mod_eq_of_lt hv]

/-- The first byte of the shortest form announces its size. -/
theorem encode_eq_cons (v : Varint) :
    ∃ first more, v.encode = first :: more ∧ (Width.ofFirst first).size = v.size := by
  obtain ⟨first, more, hform, hw, -⟩ := encodeAs_eq_cons (Width.lt_two_pow_bits_least v.isLt)
  exact ⟨first, more, hform, congrArg Width.size hw⟩

theorem Form.size_le (h : v.Form form) : v.size ≤ form.length := by
  obtain ⟨w, hv, rfl⟩ := h
  rw [length_encodeAs]
  exact Width.size_least_le hv

/-- Among the forms of a value only the shortest has its size. -/
theorem Form.length_eq_iff (h : v.Form form) : form.length = v.size ↔ form = v.encode := by
  obtain ⟨w, -, rfl⟩ := h
  constructor
  · intro hlen
    rw [length_encodeAs] at hlen
    rw [Width.size_injective hlen]
    rfl
  · intro heq
    rw [heq, length_encode]

theorem decode?_encode (v : Varint) (tail : List UInt8) :
    decode? (v.encode ++ tail) = some (v, tail) := decode?_form v.form_encode tail

theorem decodeUpTo_encode (count : Nat) (vs : List Varint)
    (h : (vs.flatMap encode).length ≤ count) :
    decodeUpTo count (vs.flatMap encode) = (vs.map fun v => (v, v.size), []) := by
  induction vs generalizing count with
  | nil => cases count <;> rfl
  | cons v vs ih =>
    rw [List.flatMap_cons, List.length_append, length_encode] at h
    have hpos : 0 < v.size := v.width.size_pos
    obtain ⟨count, rfl⟩ := Nat.exists_eq_succ_of_ne_zero (show count ≠ 0 by omega)
    have htook : (v.encode ++ vs.flatMap encode).length - (vs.flatMap encode).length = v.size := by
      rw [List.length_append, length_encode, Nat.add_sub_cancel]
    rw [List.flatMap_cons, decodeUpTo, decode?_encode]
    simp only [ih count (by omega), htook, List.map_cons]

end Varint

namespace Pieces

open Varint

/-- Integers are read off pieces as they are read off the whole. -/
theorem decodeUpTo_flatten (count : Nat) (ps : Pieces) :
    ((ps.decodeUpTo count).1, (ps.decodeUpTo count).2.flatten) =
      Varint.decodeUpTo count ps.flatten := by
  induction count generalizing ps with
  | zero => rfl
  | succ count ih =>
    rw [decodeUpTo, Varint.decodeUpTo]
    cases hd : Varint.decode? ps.flatten with
    | none => rw [decode_of_none hd]
    | some d =>
      obtain ⟨v, tail⟩ := d
      obtain ⟨rest, hrest, rfl⟩ := decode_of_some hd
      simp only [hrest, ← ih rest, length_eq]

theorem decodeAll_flatten (ps : Pieces) :
    (ps.decodeAll.1, ps.decodeAll.2.flatten) = Varint.decodeAll ps.flatten := by
  rw [decodeAll, decodeUpTo_flatten, length_eq]
  rfl

end Pieces

namespace Varint

open BigEndian

/-- Every value has one shortest form, bit for bit, of the announced size, from which it is read back in
front of whatever follows, in whatever pieces. What is read to its end is a form of its value, no shorter
than the shortest and of its size only if it is the shortest. So values that are written one behind the
other are read back, and nothing is left. -/
theorem shortest_form_canonical :
    (∀ n, n ≤ 2 ^ 62 - 1 → ∃ v, ofNat? n = some v ∧ v.toNat = n ∧ v.encode.length = v.size ∧
      v.encode = bytes v.size (v.width.tag <<< v.width.bits ||| n) ∧
      v.block = (v.encode ++ List.replicate (maxSize - v.size) 0, v.size) ∧
      (∃ first more, v.encode = first :: more ∧ (Width.ofFirst first).size = v.size ∧
        1 <<< (first.toNat >>> 6) = v.size) ∧
      ∀ tail, decode? (v.encode ++ tail) = some (v, tail) ∧
        ∀ ps : Pieces, ps.flatten = v.encode ++ tail →
          ∃ rest, ps.decode = (some v, rest) ∧ rest.flatten = tail) ∧
    (∀ b v, decode? b = some (v, []) →
      v.toNat ≤ 2 ^ 62 - 1 ∧ v.toNat = number b &&& (2 ^ (8 * b.length - 2) - 1) ∧
      v.size ≤ b.length ∧ (b.length = v.size ↔ b = v.encode)) ∧
    ∀ vs : List Varint, decodeAll (vs.flatMap encode) = (vs.map fun v => (v, v.size), []) ∧
      ∀ ps : Pieces, ps.flatten = vs.flatMap encode →
        ps.decodeAll.1 = (vs.map fun v => (v, v.size)) ∧ ps.decodeAll.2.flatten = [] := by
  refine ⟨fun n hn => ?_, fun b v hd => ?_, fun vs => ?_⟩
  · let v : Varint := ⟨n, by omega⟩
    obtain ⟨first, more, hcons, hsize⟩ := v.encode_eq_cons
    refine ⟨v, v.ofNat?_toNat, rfl, v.length_encode, v.encode_eq_or, ?_,
      ⟨first, more, hcons, hsize, (Width.size_ofFirst first).symm.trans hsize⟩, fun tail => ?_⟩
    · rw [block, padded, length_encode]
    · have hd := v.decode?_encode tail
      exact ⟨hd, fun ps hps => Pieces.decode_of_some (hps ▸ hd)⟩
  · have hform : v.Form b := form_iff.2 hd
    exact ⟨Nat.le_sub_one_of_lt v.isLt, hform.toNat_eq_and, hform.size_le, hform.length_eq_iff⟩
  · have hall := decodeUpTo_encode _ vs (Nat.le_refl _)
    refine ⟨hall, fun ps hps => ?_⟩
    have hpieces := ps.decodeAll_flatten
    rw [hps] at hpieces
    exact Prod.mk.inj (hpieces.trans hall)

/-- The value 15293 takes two bytes. So can 37, which then is read but not written like this. -/
theorem shortest_form_canonical_two_bytes : ∃ v w : Varint, v.toNat = 15293 ∧ v.encode = [0x7b, 0xbd] ∧
    w.toNat = 37 ∧ decode? [0x40, 0x25] = some (w, []) ∧ [0x40, 0x25] ≠ w.encode ∧
    decodeAll ([v, w].flatMap encode) = ([(v, 2), (w, 1)], []) := by
  obtain ⟨hwritten, hread, hlist⟩ := shortest_form_canonical
  obtain ⟨v, -, hv, -, hbits, -⟩ := hwritten 15293 (by decide)
  let w : Varint := ⟨37, by decide⟩
  have hd : decode? [0x40, 0x25] = some (w, []) := by decide
  obtain ⟨-, -, -, hshortest⟩ := hread _ w hd
  have hne : ([0x40, 0x25] : List UInt8) ≠ w.encode := fun h => absurd (hshortest.2 h) (by decide)
  obtain rfl : v = ⟨15293, by decide⟩ := Varint.ext hv
  exact ⟨_, w, rfl, hbits.trans (by decide), rfl, hd, hne, (hlist [_, w]).1⟩

end Varint

end Http3Framing
