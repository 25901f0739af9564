import Http3Framing.Text.Shape

/-! Counters that a stream keeps over its life, as words of 64 bits. -/

namespace Http3Framing

structure Stats where
  /-- Frame headers read. -/
  framesRead : UInt64 := 0
  /-- Frame headers written. -/
  framesWritten : UInt64 := 0
  /-- Bytes that the transport said it delivered. -/
  bytesRead : UInt64 := 0
  /-- Bytes of the writes that succeeded. -/
  bytesWritten : UInt64 := 0
  deriving DecidableEq

namespace Stats

instance : Inhabited Stats := ⟨{}⟩

def recordRead (s : Stats) (n : Nat) : Stats :=
  { s with bytesRead := s.bytesRead + UInt64.ofNat n }

def recordWrite (s : Stats) (n : Nat) : Stats :=
  { s with bytesWritten := s.bytesWritten + UInt64.ofNat n }

def recordFrameRead (s : Stats) : Stats := { s with framesRead := s.framesRead + 1 }

def recordFrameWritten (s : Stats) : Stats := { s with framesWritten := s.framesWritten + 1 }

def debug (s : Stats) : String :=
  Text.record "FramerStats" [("frames_read", toString s.framesRead),
    ("frames_written", toString s.framesWritten), ("bytes_read", toString s.bytesRead),
    ("bytes_written", toString s.bytesWritten)]

end Stats

end Http3Framing
