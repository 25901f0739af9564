import Http3Framing.Proofs.Canonical
import Http3Framing.Proofs.Integers
import Mathlib.Data.Nat.Digits.Defs

/-! Decoding a buffer that lies in pieces. The first byte of the whole says how many bytes an integer takes,
and the whole holds that many or the integer is not touched. So what is decoded, once or until nothing
complete is left, is a matter of the bytes and not of the pieces. -/

namespace Http3Framing

namespace BigEndian

/-- The numeral of bytes is that of their digits, of which the last is the lowest. -/
theorem number_eq_ofDigits (bs : List UInt8) :
    number bs = Nat.ofDigits 256 (bs.reverse.map UInt8.toNat) := by
  induction bs with
  | nil => rfl
  | cons b bs ih =>
    rw [number_cons, ih, List.reverse_cons, List.map_append, Nat.ofDigits_append, List.length_map,
      List.length_reverse, List.map_singleton, Nat.ofDigits_singleton, Nat.mul_comm, Nat.add_comm]

end BigEndian

namespace Varint

variable {bs rest : List UInt8} {v : Varint}

/-- What is decoded: the bytes that the first one announces, without the bits of the width. -/
theorem eq_of_decode? (h : decode? bs = some (v, rest)) :
    ∃ first more, bs = first :: more ∧ (Width.ofFirst first).size ≤ bs.length ∧
      rest = bs.drop (Width.ofFirst first).size ∧
      v = ofBytes (Width.ofFirst first) (bs.take (Width.ofFirst first).size) := by
  cases bs with
  | nil => cases h
  | cons first more =>
    simp only [decode?] at h
    split at h
    · cases h
    · next hlen =>
      cases h
      exact ⟨first, more, rfl, Nat.le_of_not_lt hlen, rfl, rfl⟩

/-- A buffer is decoded if it holds as many bytes as its first one announces. -/
theorem exists_decode?_iff (bs : List UInt8) :
    (∃ v rest, decode? bs = some (v, rest)) ↔
      ∃ first more, bs = first :: more ∧ (Width.ofFirst first).size ≤ bs.length := by
  constructor
  · rintro ⟨v, rest, h⟩
    obtain ⟨first, more, hbs, hlen, -⟩ := eq_of_decode? h
    exact ⟨first, more, hbs, hlen⟩
  · rintro ⟨first, more, rfl, hlen⟩
    rw [decode?, if_neg (Nat.not_lt.2 hlen)]
    exact ⟨_, _, rfl⟩

theorem toNat_ofBytes (w : Width) (bs : List UInt8) : (ofBytes w bs).toNat =
    Nat.ofDigits 256 (bs.reverse.map UInt8.toNat) % 2 ^ (8 * w.size - 2) :=
  congrArg (· % 2 ^ w.bits) (BigEndian.number_eq_ofDigits bs)

/-- A loop cuts its buffer into what it decodes and a rest that begins with no complete integer. -/
theorem decodeUpTo_forms (count : Nat) (bs : List UInt8) (h : bs.length ≤ count) :
    decode? (decodeUpTo count bs).2 = none ∧ ∃ forms : List (List UInt8),
      bs = forms.flatten ++ (decodeUpTo count bs).2 ∧
      forms.map (fun form => (decode? form, form.length)) =
        (decodeUpTo count bs).1.map fun x => (some (x.1, []), x.2) := by
  induction count generalizing bs with
  | zero =>
    obtain rfl : bs = [] := List.eq_nil_of_length_eq_zero (by omega)
    exact ⟨rfl, [], rfl, rfl⟩
  | succ count ih =>
    rw [decodeUpTo]
    cases hd : decode? bs with
    | none => exact ⟨hd, [], rfl, rfl⟩
    | some d =>
      obtain ⟨v, rest⟩ := d
      have hlt := decode?_shortens hd
      obtain ⟨form, hform, rfl⟩ := form_of_decode? hd
      obtain ⟨hnone, forms, hrest, hforms⟩ := ih rest (by omega)
      have htook : (form ++ rest).length - rest.length = form.length := by
        rw [List.length_append, Nat.add_sub_cancel]
      refine ⟨hnone, form :: forms, ?_, ?_⟩
      · rw [List.flatten_cons, List.append_assoc, ← hrest]
      · simp only [List.map_cons, form_iff.1 hform, hforms, htook]

end Varint

namespace Pieces

open Varint

variable {ps : Pieces}

/-- What is taken off the pieces is what the whole has in front. -/
theorem decode?_flatten {v : Varint} {rest : Pieces} (h : ps.decode = (some v, rest)) :
    Varint.decode? ps.flatten = some (v, rest.flatten) := by
  cases hd : Varint.decode? ps.flatten with
  | none =>
    rw [decode_of_none hd] at h
    cases h
  | some d =>
    obtain ⟨rest', hrest, hflat⟩ := decode_of_some hd
    rw [hrest] at h
    cases h
    rw [hflat]

theorem exists_decode_iff_flatten :
    (∃ v rest, ps.decode = (some v, rest)) ↔ ∃ v rest, Varint.decode? ps.flatten = some (v, rest) := by
  constructor
  · rintro ⟨v, rest, h⟩
    exact ⟨v, rest.flatten, decode?_flatten h⟩
  · rintro ⟨v, tail, h⟩
    obtain ⟨rest, hd, -⟩ := decode_of_some h
    exact ⟨v, rest, hd⟩

/-- Where nothing complete lies in front, the pieces are as they were. -/
theorem eq_of_decode_none {rest : Pieces} (h : ps.decode = (none, rest)) : rest = ps := by
  cases hd : Varint.decode? ps.flatten with
  | none =>
    rw [decode_of_none hd] at h
    cases h
    rfl
  | some d =>
    obtain ⟨rest', hrest, -⟩ := decode_of_some hd
    rw [hrest] at h
    cases h

/-- So a loop takes nothing there. -/
theorem decodeUpTo_of_none {rest : Pieces} (h : ps.decode = (none, rest)) (count : Nat) :
    ps.decodeUpTo count = ([], ps) := by
  obtain rfl := eq_of_decode_none h
  cases count with
  | zero => rfl
  | succ count =>
    rw [decodeUpTo]
    simp only [h]

/-- A buffer in pieces is decoded as its bytes are. One integer is taken if there is a first byte and as
many bytes as its two highest bits announce; then exactly these are taken, and the value is their numeral
in base 256 without those two bits. Otherwise the pieces stay as they are. So the integers that a loop
decodes until it fails are the same for all pieces of the same bytes: they and a rest are all of the bytes,
and the rest is empty or shorter than its first byte announces. -/
theorem pieces_decode_as_whole (b : List UInt8) (ps : Pieces) (h : ps.flatten = b) :
    let announced (first : UInt8) := 1 <<< (first.toNat >>> 6)
    ((∃ v rest, ps.decode = (some v, rest)) ↔
      ∃ first more, b = first :: more ∧ announced first ≤ b.length) ∧
    (∀ v rest, ps.decode = (some v, rest) → ∃ first more taken, b = first :: more ∧
      b = taken ++ rest.flatten ∧ taken.length = announced first ∧
      v.toNat = Nat.ofDigits 256 (taken.reverse.map UInt8.toNat) % 2 ^ (8 * announced first - 2)) ∧
    (∀ rest, ps.decode = (none, rest) → rest = ps ∧ ∀ count, ps.decodeUpTo count = ([], ps)) ∧
    (∀ qs : Pieces, qs.flatten = b →
      qs.decodeAll.1 = ps.decodeAll.1 ∧ qs.decodeAll.2.flatten = ps.decodeAll.2.flatten) ∧
    ps.decodeAll.2.decode = (none, ps.decodeAll.2) ∧
    (∃ forms : List (List UInt8), b = forms.flatten ++ ps.decodeAll.2.flatten ∧
      forms.map (fun form => (Varint.decode? form, form.length)) =
        ps.decodeAll.1.map fun x => (some (x.1, []), x.2)) ∧
    (ps.decodeAll.2.flatten = [] ∨ ∃ first more, ps.decodeAll.2.flatten = first :: more ∧
      (first :: more).length < announced first) := by
  subst h
  simp only [← Width.size_ofFirst]
  obtain ⟨hvalues, hrest⟩ := Prod.mk.inj ps.decodeAll_flatten
  obtain ⟨hnone, forms, hall, hforms⟩ := decodeUpTo_forms _ ps.flatten (Nat.le_refl _)
  rw [← hrest] at hnone hall
  rw [← hvalues] at hforms
  refine ⟨exists_decode_iff_flatten.trans (exists_decode?_iff _), fun v rest hd => ?_,
    fun rest hd => ⟨eq_of_decode_none hd, decodeUpTo_of_none hd⟩, fun qs hqs => ?_,
    decode_of_none hnone, ⟨forms, hall, hforms⟩, ?_⟩
  · obtain ⟨first, more, hcons, hlen, hdrop, rfl⟩ := eq_of_decode? (decode?_flatten hd)
    refine ⟨first, more, _, hcons, ?_, List.length_take_of_le hlen, toNat_ofBytes _ _⟩
    rw [hdrop, List.take_append_drop]
  · obtain ⟨hvalues', hrest'⟩ := Prod.mk.inj qs.decodeAll_flatten
    rw [hqs] at hvalues' hrest'
    exact ⟨hvalues'.trans hvalues.symm, hrest'.trans hrest.symm⟩
  · cases hcut : ps.decodeAll.2.flatten with
    | nil => exact .inl rfl
    | cons first more =>
      rw [hcut] at hnone
      exact .inr ⟨first, more, rfl, length_lt_of_decode?_none hnone⟩

/-- Integers of two bytes and of four, each across pieces, and three bytes of one of eight. -/
theorem pieces_decode_as_whole_scattered : ∃ (ps : Pieces) (v w : Varint),
    ps = [[], [0x7b], [], [0xbd, 0x80], [0, 1], [2, 0xc0], [9, 9], []] ∧
      v.toNat = 15293 ∧ w.toNat = 258 ∧ ps.decodeAll.1 = [(v, 2), (w, 4)] ∧
      ps.decodeAll.2.flatten = [0xc0, 9, 9] ∧
      ps.decodeAll.2.decode = (none, ps.decodeAll.2) := by
  let b : List UInt8 := [0x7b, 0xbd, 0x80, 0, 1, 2, 0xc0, 9, 9]
  let v : Varint := ⟨15293, by decide⟩
  let w : Varint := ⟨258, by decide⟩
  obtain ⟨-, -, -, hsame, -⟩ := pieces_decode_as_whole b [b] rfl
  obtain ⟨-, -, -, -, hend, -⟩ := pieces_decode_as_whole b
    [[], [0x7b], [], [0xbd, 0x80], [0, 1], [2, 0xc0], [9, 9], []] rfl
  obtain ⟨hvalues, hrest⟩ := hsame [[], [0x7b], [], [0xbd, 0x80], [0, 1], [2, 0xc0], [9, 9], []] rfl
  have hwhole : Pieces.decodeAll [b] = ([(v, 2), (w, 4)], [[0xc0, 9, 9]]) := by decide +kernel
  rw [hwhole] at hvalues hrest
  exact ⟨_, v, w, rfl, rfl, rfl, hvalues, hrest, hend⟩

end Pieces

end Http3Framing
