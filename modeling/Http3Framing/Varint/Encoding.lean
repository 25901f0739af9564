import Http3Framing.Varint.Basic
import Http3Framing.Varint.BigEndian

/-! Byte strings of integers. `encode` writes the shortest form: the two bits of the width and
the value, in network byte order. `decode?` reads one integer off the front of a byte string,
in any of the four widths, and gives what follows; a string that ends early gives nothing. -/

namespace Http3Framing.Varint

/-- The value `n` in the form of width `w`. -/
def encodeAs (w : Width) (n : Nat) : List UInt8 :=
  BigEndian.bytes w.size (w.tag * 2 ^ w.bits + n)

/-- The shortest form. -/
def encode (v : Varint) : List UInt8 := encodeAs v.width v.toNat

/-- Bytes followed by zeros, `room` bytes in all. -/
def padded (room : Nat) (bs : List UInt8) : List UInt8 :=
  bs ++ List.replicate (room - bs.length) 0

/-- The shortest form in a block of the largest size, and how many bytes of the block it is. -/
def block (v : Varint) : List UInt8 × Nat := (padded maxSize v.encode, v.size)

/-- The number that complete bytes of width `w` spell, without the bits of the width. -/
def ofBytes (w : Width) (bs : List UInt8) : Varint where
  toNat := BigEndian.number bs % 2 ^ w.bits
  isLt := Nat.lt_of_lt_of_le (Nat.mod_lt _ (Nat.two_pow_pos _))
    (Nat.pow_le_pow_right (by decide) w.bits_le)

/-- What is said of a byte string that ends inside an integer. -/
def unexpectedEnd : String := "unexpected end of buffer"

/-- One integer and the bytes behind it, if `bs` holds as many bytes as the first announces. -/
def decode? : List UInt8 → Option (Varint × List UInt8)
  | [] => none
  | b :: bs =>
    let w := Width.ofFirst b
    if (b :: bs).length < w.size then none
    else some (ofBytes w ((b :: bs).take w.size), (b :: bs).drop w.size)

/-- Integers off the front until none is complete, each with the bytes it took, and the rest;
at most `count` of them. -/
def decodeUpTo : Nat → List UInt8 → List (Varint × Nat) × List UInt8
  | 0, bs => ([], bs)
  | count + 1, bs =>
    match decode? bs with
    | none => ([], bs)
    | some (v, rest) =>
      let more := decodeUpTo count rest
      ((v, bs.length - rest.length) :: more.1, more.2)

/-- All integers off the front: each takes a byte or more, so the length bounds their number. -/
def decodeAll (bs : List UInt8) : List (Varint × Nat) × List UInt8 :=
  decodeUpTo bs.length bs

@[simp] theorem length_encodeAs (w : Width) (n : Nat) : (encodeAs w n).length = w.size :=
  BigEndian.length_bytes _ _

@[simp] theorem length_encode (v : Varint) : v.encode.length = v.size :=
  length_encodeAs _ _

theorem length_padded {room : Nat} {bs : List UInt8} (h : bs.length ≤ room) :
    (padded room bs).length = room := by
  simp [padded]; omega

@[simp] theorem decode?_nil : decode? [] = none := rfl

theorem decode?_shortens {bs rest : List UInt8} {v : Varint} (h : decode? bs = some (v, rest)) :
    rest.length < bs.length := by
  cases bs with
  | nil => cases h
  | cons b bs =>
    simp only [decode?] at h
    split at h
    · cases h
    · cases h
      have := (Width.ofFirst b).size_pos
      simp only [List.length_drop, List.length_cons]
      omega

end Http3Framing.Varint
