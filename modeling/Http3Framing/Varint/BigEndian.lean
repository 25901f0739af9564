/-! Numbers in network byte order. `bytes` writes the low bytes of a number, the most
significant first, and `number` reads a byte string as a numeral in base 256; reading back
what was written gives the number reduced to the width. -/

namespace Http3Framing

/-- Powers of natural numbers are the plain ones, whatever algebra is in scope. -/
@[default_instance high]
scoped instance (priority := high) plainPow : Pow Nat Nat := instPowNat

/-- So is the zero that sums begin with. -/
scoped instance (priority := high) plainZero : Zero Nat := Zero.ofOfNat0

namespace BigEndian

/-- The low `width` bytes of `n`, most significant first. -/
def bytes : Nat → Nat → List UInt8
  | 0, _ => []
  | width + 1, n => UInt8.ofNat (n / 256 ^ width) :: bytes width n

/-- The numeral that continues the digits of `n` by `bs`. -/
def extend (n : Nat) (bs : List UInt8) : Nat :=
  bs.foldl (fun n b => n * 256 + b.toNat) n

def number (bs : List UInt8) : Nat := extend 0 bs

@[simp] theorem length_bytes (width n : Nat) : (bytes width n).length = width := by
  induction width with
  | zero => rfl
  | succ width ih => simp [bytes, ih]

@[simp] theorem extend_nil (n : Nat) : extend n [] = n := rfl

@[simp] theorem extend_cons (n : Nat) (b : UInt8) (bs : List UInt8) :
    extend n (b :: bs) = extend (n * 256 + b.toNat) bs := rfl

theorem extend_append (n : Nat) (bs cs : List UInt8) :
    extend n (bs ++ cs) = extend (extend n bs) cs := List.foldl_append

theorem extend_eq (n : Nat) (bs : List UInt8) :
    extend n bs = n * 256 ^ bs.length + number bs := by
  induction bs generalizing n with
  | nil => simp [number]
  | cons b bs ih =>
    rw [number, extend_cons, extend_cons, ih, ih (0 * 256 + b.toNat), Nat.zero_mul, Nat.zero_add,
      List.length_cons, Nat.pow_succ, Nat.add_mul, Nat.mul_assoc, Nat.mul_comm 256, Nat.add_assoc]

@[simp] theorem number_nil : number [] = 0 := rfl

theorem number_cons (b : UInt8) (bs : List UInt8) :
    number (b :: bs) = b.toNat * 256 ^ bs.length + number bs := by
  rw [number, extend_cons, extend_eq]
  simp

theorem number_lt (bs : List UInt8) : number bs < 256 ^ bs.length := by
  induction bs with
  | nil => simp
  | cons b bs ih =>
    have hb : b.toNat + 1 ≤ 256 := b.toNat_lt
    have hm := Nat.mul_le_mul_right (256 ^ bs.length) hb
    rw [number_cons, List.length_cons, Nat.pow_succ]
    rw [Nat.add_mul] at hm
    omega

theorem number_bytes (width n : Nat) : number (bytes width n) = n % 256 ^ width := by
  induction width with
  | zero => simp [bytes, Nat.mod_one]
  | succ width ih =>
    have hb : (UInt8.ofNat (n / 256 ^ width)).toNat = n / 256 ^ width % 256 := by simp
    rw [bytes, number_cons, length_bytes, ih, hb, Nat.pow_succ, Nat.mod_mul, Nat.mul_comm]
    omega

end BigEndian

end Http3Framing
