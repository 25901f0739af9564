import Http3Framing.Text.Shape

/-! Breaches of the framing rules: a call that does not fit the position in the stream, a read
across the end of a frame, or an end of stream at a place where bytes are owed. -/

namespace Http3Framing

inductive Violation
  | nestedHeader (remaining : Nat)
  | frameNotConsumed (remaining : Nat)
  | noActiveFrame
  | limitExceeded (requested remaining : Nat)
  | truncatedHeader
  | truncatedVarint (expected : Nat)
  | truncatedFrame (remaining : Nat)
  | payloadTooLarge (len limit : Nat)
  | poisoned
  deriving DecidableEq

namespace Violation

def display : Violation → String
  | nestedHeader n => "frame header read while a frame of " ++ toString n ++ " bytes is still open"
  | frameNotConsumed n => "frame ended with " ++ toString n ++ " unread bytes"
  | noActiveFrame => "no frame is open"
  | limitExceeded a n =>
    "read of " ++ toString a ++ " bytes crosses the frame boundary (" ++ toString n ++ " remaining)"
  | truncatedHeader => "stream ended inside a frame header"
  | truncatedVarint n => "stream ended inside a " ++ toString n ++ "-byte varint"
  | truncatedFrame n => "stream ended with " ++ toString n ++ " frame bytes outstanding"
  | payloadTooLarge a m =>
    "frame payload of " ++ toString a ++ " bytes exceeds the " ++ toString m ++ "-byte limit"
  | poisoned => "stream is poisoned by an earlier framing failure"

def debug : Violation → String
  | nestedHeader n => Text.record "NestedHeader" [("remaining", toString n)]
  | frameNotConsumed n => Text.record "FrameNotConsumed" [("remaining", toString n)]
  | noActiveFrame => "NoActiveFrame"
  | limitExceeded a n =>
    Text.record "LimitExceeded" [("requested", toString a), ("remaining", toString n)]
  | truncatedHeader => "TruncatedHeader"
  | truncatedVarint n => Text.record "TruncatedVarint" [("expected", toString n)]
  | truncatedFrame n => Text.record "TruncatedFrame" [("remaining", toString n)]
  | payloadTooLarge a m => Text.record "PayloadTooLarge" [("len", toString a), ("max", toString m)]
  | poisoned => "Poisoned"

/-- The breaches after which the place of the next frame is unknown. -/
def losesPlace : Violation → Bool
  | limitExceeded .. | truncatedHeader | truncatedVarint _ | truncatedFrame _
  | payloadTooLarge .. => true
  | _ => false

end Violation

end Http3Framing
