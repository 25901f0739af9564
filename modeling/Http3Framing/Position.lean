import Http3Framing.Failure.Violation

/-! Where a stream stands relative to its frames. Reading a header opens a frame that owes its
payload; bytes read are counted against it, and it can be closed once nothing is owed. A
poisoned stream answers every question with the same breach. -/

namespace Http3Framing

inductive Position
  /-- Between frames. -/
  | idle
  /-- Inside a frame that owes `remaining` more payload bytes. -/
  | inFrame (remaining : Nat)
  /-- The place of the next frame is unknown, and nothing touches the transport again. -/
  | poisoned
  deriving DecidableEq

namespace Position

instance : Inhabited Position := ⟨idle⟩

def remaining? : Position → Option Nat
  | inFrame remaining => some remaining
  | _ => none

def isPoisoned : Position → Bool
  | poisoned => true
  | _ => false

/-- Any operation needs a position that is not poisoned. -/
def usable : Position → Except Violation Unit
  | poisoned => .error .poisoned
  | _ => .ok ()

/-- A header can be read between frames. -/
def betweenFrames : Position → Except Violation Unit
  | idle => .ok ()
  | inFrame remaining => .error (.nestedHeader remaining)
  | poisoned => .error .poisoned

/-- The payload bytes owed by the open frame. -/
def owed : Position → Except Violation Nat
  | inFrame remaining => .ok remaining
  | idle => .error .noActiveFrame
  | poisoned => .error .poisoned

/-- Closes the open frame, of which every byte must have been read. -/
def close : Position → Except Violation Position
  | inFrame 0 => .ok idle
  | inFrame remaining => .error (.frameNotConsumed remaining)
  | idle => .error .noActiveFrame
  | poisoned => .error .poisoned

/-- Counts `n` bytes against the open frame; between frames there is nothing to count against. -/
def consume (n : Nat) : Position → Except Violation Position
  | idle => .ok idle
  | inFrame remaining =>
    if remaining < n then .error (.limitExceeded n remaining) else .ok (inFrame (remaining - n))
  | poisoned => .error .poisoned

/-- The part of a read of `room` bytes that stays inside the open frame. -/
def cap (room : Nat) : Position → Nat
  | inFrame remaining => min room remaining
  | _ => room

/-- The breach made by an end of stream here, when `counted` bytes of the read that met it are
already counted; between frames there is none. -/
def cutShort? (counted : Nat) : Position → Option Violation
  | inFrame remaining => some (.truncatedFrame (remaining + counted))
  | _ => none

def debug : Position → String
  | idle => "Idle"
  | inFrame remaining => Text.record "InFrame" [("remaining", toString remaining)]
  | poisoned => "Poisoned"

theorem consume_inFrame_of_le {n remaining : Nat} (h : n ≤ remaining) :
    consume n (inFrame remaining) = .ok (inFrame (remaining - n)) := by
  simp [consume, Nat.not_lt.2 h]

theorem consume_inFrame_of_lt {n remaining : Nat} (h : remaining < n) :
    consume n (inFrame remaining) = .error (.limitExceeded n remaining) := by
  simp [consume, h]

theorem cap_le (room : Nat) (p : Position) : p.cap room ≤ room := by
  cases p with
  | inFrame remaining => exact Nat.min_le_left _ _
  | _ => exact Nat.le_refl _

theorem cap_inFrame_le (room remaining : Nat) : (inFrame remaining).cap room ≤ remaining :=
  Nat.min_le_right _ _

end Position

end Http3Framing
