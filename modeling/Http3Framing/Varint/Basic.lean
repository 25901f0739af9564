import Http3Framing.Text.Shape
import Http3Framing.Varint.BigEndian

/-! Integers of the wire. A value has at most 62 bits; it is written in one, two, four or
eight bytes, and the two highest bits of the first byte name that width. This file holds the
values and the widths; the byte strings are in `Varint.Encoding`. -/

namespace Http3Framing

/-- The widths in which an integer can be written. -/
inductive Width
  | one | two | four | eight
  deriving DecidableEq

namespace Width

/-- Number of bytes. -/
def size : Width → Nat
  | one => 1
  | two => 2
  | four => 4
  | eight => 8

/-- The two bits that announce the width. -/
def tag : Width → Nat
  | one => 0
  | two => 1
  | four => 2
  | eight => 3

/-- Bits left for the value. -/
def bits (w : Width) : Nat := 8 * w.size - 2

/-- The width announced by the first byte of an integer. -/
def ofFirst (b : UInt8) : Width :=
  match b.toNat / 64 with
  | 0 => one
  | 1 => two
  | 2 => four
  | _ => eight

/-- The narrowest width for a value below `2 ^ 62`. -/
def least (n : Nat) : Width :=
  if n < 2 ^ 6 then one
  else if n < 2 ^ 14 then two
  else if n < 2 ^ 30 then four
  else eight

theorem size_pos (w : Width) : 0 < w.size := by cases w <;> decide

theorem size_le (w : Width) : w.size ≤ 8 := by cases w <;> decide

theorem bits_le (w : Width) : w.bits ≤ 62 := by cases w <;> decide

theorem lt_two_pow_bits_least {n : Nat} (h : n < 2 ^ 62) : n < 2 ^ (least n).bits := by
  unfold least
  split
  · assumption
  · split
    · assumption
    · split
      · assumption
      · exact h

theorem size_least_le {n : Nat} {w : Width} (h : n < 2 ^ w.bits) : (least n).size ≤ w.size := by
  cases w <;> simp only [bits, size] at h <;> grind [least, size]

end Width

/-- A value that the wire can carry. -/
structure Varint where
  toNat : Nat
  isLt : toNat < 2 ^ 62
  deriving DecidableEq

namespace Varint

/-- The largest value. -/
def largest : Varint := ⟨2 ^ 62 - 1, by decide⟩

/-- Bytes of the widest form. -/
def maxSize : Nat := 8

instance : Inhabited Varint := ⟨⟨0, by decide⟩⟩

/-- The value `n`, if the wire can carry it. -/
def ofNat? (n : Nat) : Option Varint :=
  if h : n < 2 ^ 62 then some ⟨n, h⟩ else none

/-- The narrowest width of a value. -/
def width (v : Varint) : Width := Width.least v.toNat

/-- Bytes of the shortest form. -/
def size (v : Varint) : Nat := v.width.size

/-- The order of values is the order of numbers. -/
def order (v w : Varint) : Ordering := compare v.toNat w.toNat

/-- The values in order. -/
def sorted (vs : List Varint) : List Varint := vs.mergeSort fun v w => v.toNat ≤ w.toNat

def display (v : Varint) : String := toString v.toNat

def debug (v : Varint) : String := Text.applied "VarInt" v.display

@[ext] theorem ext {v w : Varint} (h : v.toNat = w.toNat) : v = w := by
  cases v; cases w; cases h; rfl

theorem ofNat?_toNat (v : Varint) : ofNat? v.toNat = some v := dif_pos v.isLt

theorem ofNat?_eq_some_iff {n : Nat} {v : Varint} : ofNat? n = some v ↔ v.toNat = n := by
  constructor
  · intro h
    unfold ofNat? at h
    split at h
    · cases h; rfl
    · cases h
  · rintro rfl
    exact ofNat?_toNat v

theorem ofNat?_eq_none_iff {n : Nat} : ofNat? n = none ↔ 2 ^ 62 ≤ n := by
  unfold ofNat?
  split <;> simp <;> omega

end Varint

end Http3Framing
