import Http3Framing.Failure.Basic
import Http3Framing.Frame.Kind
import Http3Framing.Varint.Encoding

/-! Frame headers: the kind and the length of the payload, each written as an integer in its
shortest form. A field above the range of the wire is refused, the kind first. -/

namespace Http3Framing

/-- The number as an integer of the wire, or the failure that names it. -/
def Varint.checked (n : Nat) : Except Failure Varint :=
  match ofNat? n with
  | some v => .ok v
  | none => .error (.integerTooLarge n)

namespace Frame

structure Header where
  kind : Kind
  len : Nat
  deriving DecidableEq

namespace Header

/-- Bytes of the largest header. -/
def maxSize : Nat := 2 * Varint.maxSize

/-- Bytes of the header on the wire, if both fields are in range. -/
def encodedSize? (h : Header) : Option Nat := do
  let kind ← Varint.ofNat? h.kind.code
  let len ← Varint.ofNat? h.len
  return kind.size + len.size

def encode (h : Header) : Except Failure (List UInt8) := do
  let kind ← Varint.checked h.kind.code
  let len ← Varint.checked h.len
  return kind.encode ++ len.encode

/-- The header in a block of the largest size, and how many bytes of the block it is. -/
def block (h : Header) : Except Failure (List UInt8 × Nat) := do
  let kind ← Varint.checked h.kind.code
  let len ← Varint.checked h.len
  return (Varint.padded maxSize (kind.encode ++ len.encode), kind.size + len.size)

def debug (h : Header) : String :=
  Text.record "FrameHeader" [("ty", h.kind.debug), ("len", toString h.len)]

end Header

end Frame

end Http3Framing
