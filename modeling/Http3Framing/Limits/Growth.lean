import Http3Framing.Limits.Basic
import Http3Framing.Varint.BigEndian

/-! How the buffer of a payload grows. It starts at the initial size, or at one byte if that is
zero, and doubles; a step is only taken when everything set aside before has been filled, and
the last one ends at the length of the payload. -/

namespace Http3Framing.Limits

/-- The next step, with `filled` bytes in the buffer and `left` more to come. -/
def nextStep (l : Limits) (filled left : Nat) : Nat :=
  min left (max (max filled l.initialBuffer) 1)

theorem nextStep_le (l : Limits) (filled left : Nat) : l.nextStep filled left ≤ left :=
  Nat.min_le_left _ _

theorem nextStep_pos (l : Limits) (filled : Nat) {left : Nat} (h : 0 < left) :
    0 < l.nextStep filled left := by
  simp only [nextStep]
  omega

end Http3Framing.Limits
