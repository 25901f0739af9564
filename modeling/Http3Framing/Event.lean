import Http3Framing.Frame.Header
import Http3Framing.Limits.Basic
import Http3Framing.Transport.Exchange

/-! What a stream reports about itself while it works. -/

namespace Http3Framing

inductive Event
  | built (flavour : Flavour) (limits : Limits)
  | headerRead (header : Frame.Header)
  | frameClosed
  /-- The stream has become poisoned by this failure. -/
  | poisoned (failure : Failure)
  | transportFailed (cause : Cause)
  deriving DecidableEq

namespace Event

def level : Event → String
  | headerRead _ | frameClosed => "TRACE"
  | built .. | poisoned _ => "DEBUG"
  | transportFailed _ => "WARN"

def message : Event → String
  | built .blocking _ => "building framer"
  | built (.suspending _) _ => "building async framer"
  | headerRead _ => "frame header"
  | frameClosed => "frame closed"
  | poisoned _ => "poisoning framed stream"
  | transportFailed _ => "transport failure on framed stream"

def fields : Event → List (String × String)
  | built _ limits => [("config", limits.debug)]
  | headerRead header => [("frame_type", header.kind.display), ("len", toString header.len)]
  | frameClosed => []
  | poisoned failure => [("error", failure.display)]
  | transportFailed cause => [("error", cause.display)]

/-- Level, message and fields, with a blank between. -/
def display (e : Event) : String :=
  " ".intercalate (e.level :: e.message :: e.fields.map fun field => field.1 ++ "=" ++ field.2)

end Event

end Http3Framing
