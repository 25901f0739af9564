import Http3Framing.Varint.Basic

/-! An integer of which some bytes have not arrived. The count of missing bytes is part of the
type, so a byte can only be added while one is missing and the value can only be taken once
none is. -/

namespace Http3Framing.Varint

/-- The bytes seen so far spell `value`; `missing` more are announced. -/
structure Partial (missing : Nat) where
  width : Width
  value : Nat
  fits : (value + 1) * 256 ^ missing ≤ 2 ^ 62

namespace Partial

/-- The first byte announces the width and holds the six highest bits of the value. -/
def start (first : UInt8) : Partial ((Width.ofFirst first).size - 1) where
  width := Width.ofFirst first
  value := first.toNat % 64
  fits := by
    have h : first.toNat % 64 + 1 ≤ 64 := Nat.mod_lt _ (by decide)
    refine Nat.le_trans (Nat.mul_le_mul_right _ h) ?_
    cases Width.ofFirst first <;> decide

def push {missing : Nat} (p : Partial (missing + 1)) (b : UInt8) : Partial missing where
  width := p.width
  value := p.value * 256 + b.toNat
  fits := by
    refine Nat.le_trans ?_ p.fits
    rw [Nat.pow_succ, Nat.mul_comm (256 ^ missing), ← Nat.mul_assoc]
    have := b.toNat_lt
    exact Nat.mul_le_mul_right _ (by omega)

theorem value_lt (p : Partial 0) : p.value < 2 ^ 62 := by
  have h := p.fits
  rw [Nat.pow_zero, Nat.mul_one] at h
  exact h

/-- The value, once no byte is missing. -/
def finish (p : Partial 0) : Varint := ⟨p.value, p.value_lt⟩

@[simp] theorem width_start (first : UInt8) : (start first).width = Width.ofFirst first := rfl

@[simp] theorem width_push {missing : Nat} (p : Partial (missing + 1)) (b : UInt8) :
    (p.push b).width = p.width := rfl

@[simp] theorem value_push {missing : Nat} (p : Partial (missing + 1)) (b : UInt8) :
    (p.push b).value = p.value * 256 + b.toNat := rfl

end Partial

end Http3Framing.Varint
