import Http3Framing.Text.Quoted
import Http3Framing.Text.Shape

/-! Limits on the payloads that a stream buffers: the largest payload accepted, and the size
from which the buffer of a payload grows. Limits are settled step by step from a preset and
checked once. -/

namespace Http3Framing

structure Limits where
  /-- The largest payload that is read into one buffer. -/
  maxPayload : Nat
  /-- The most that is set aside for a payload before any of it has arrived. -/
  initialBuffer : Nat
  deriving DecidableEq

namespace Limits

def standard : Limits := ⟨16777216, 8192⟩

def lowMemory : Limits := ⟨262144, 4096⟩

def highThroughput : Limits := ⟨67108864, 65536⟩

instance : Inhabited Limits := ⟨standard⟩

def debug (l : Limits) : String :=
  Text.record "FramerConfig" [("max_frame_payload", toString l.maxPayload),
    ("initial_read_buffer", toString l.initialBuffer)]

/-- How a builder shows the limits it has collected. -/
def builderDebug (l : Limits) : String :=
  Text.record "FramerBuilder" [("config", l.debug)]

/-- One change to the limits. -/
inductive Setting
  | maxPayload (n : Nat)
  | initialBuffer (n : Nat)
  | replaceBy (limits : Limits)
  deriving DecidableEq

def apply (l : Limits) : Setting → Limits
  | .maxPayload n => { l with maxPayload := n }
  | .initialBuffer n => { l with initialBuffer := n }
  | .replaceBy limits => limits

/-- The changes in order. -/
def adjust (l : Limits) (settings : List Setting) : Limits := settings.foldl apply l

/-- Why limits are refused. -/
inductive Defect
  | noPayload
  | noBuffer
  deriving DecidableEq

/-- Both sizes have to be positive; the payload is looked at first. -/
def validate (l : Limits) : Except Defect Unit :=
  if l.maxPayload = 0 then .error .noPayload
  else if l.initialBuffer = 0 then .error .noBuffer
  else .ok ()

namespace Defect

def reason : Defect → String
  | noPayload => "max_frame_payload must be greater than zero"
  | noBuffer => "initial_read_buffer must be greater than zero"

def display (d : Defect) : String := "Invalid limit configuration: " ++ d.reason

def debug (d : Defect) : String := Text.applied "Limit" (Text.quoted d.reason)

end Defect

@[simp] theorem adjust_nil (l : Limits) : l.adjust [] = l := rfl

@[simp] theorem adjust_cons (l : Limits) (s : Setting) (settings : List Setting) :
    l.adjust (s :: settings) = (l.apply s).adjust settings := rfl

theorem validate_eq_ok_iff (l : Limits) :
    l.validate = .ok () ↔ 0 < l.maxPayload ∧ 0 < l.initialBuffer := by
  unfold validate
  split
  · simp; omega
  · split
    · simp; omega
    · simp; omega

end Limits

end Http3Framing
