/-! Kinds of transport failures, with the word that names a kind and the phrase that describes
it. -/

namespace Http3Framing

inductive IoKind
  | interrupted
  | timedOut
  | connectionReset
  | connectionAborted
  | connectionRefused
  | notConnected
  | brokenPipe
  | wouldBlock
  | unexpectedEof
  | writeZero
  | invalidData
  | invalidInput
  | permissionDenied
  | notFound
  | other
  deriving DecidableEq

namespace IoKind

def name : IoKind → String
  | interrupted => "Interrupted"
  | timedOut => "TimedOut"
  | connectionReset => "ConnectionReset"
  | connectionAborted => "ConnectionAborted"
  | connectionRefused => "ConnectionRefused"
  | notConnected => "NotConnected"
  | brokenPipe => "BrokenPipe"
  | wouldBlock => "WouldBlock"
  | unexpectedEof => "UnexpectedEof"
  | writeZero => "WriteZero"
  | invalidData => "InvalidData"
  | invalidInput => "InvalidInput"
  | permissionDenied => "PermissionDenied"
  | notFound => "NotFound"
  | other => "Other"

def description : IoKind → String
  | interrupted => "operation interrupted"
  | timedOut => "timed out"
  | connectionReset => "connection reset"
  | connectionAborted => "connection aborted"
  | connectionRefused => "connection refused"
  | notConnected => "not connected"
  | brokenPipe => "broken pipe"
  | wouldBlock => "operation would block"
  | unexpectedEof => "unexpected end of file"
  | writeZero => "write zero"
  | invalidData => "invalid data"
  | invalidInput => "invalid input parameter"
  | permissionDenied => "permission denied"
  | notFound => "entity not found"
  | other => "other error"

def all : List IoKind :=
  [interrupted, timedOut, connectionReset, connectionAborted, connectionRefused, notConnected,
    brokenPipe, wouldBlock, unexpectedEof, writeZero, invalidData, invalidInput, permissionDenied,
    notFound, other]

/-- The kind with this name. -/
def ofName? (word : String) : Option IoKind := all.find? fun k => k.name == word

theorem ofName?_name (k : IoKind) : ofName? k.name = some k := by cases k <;> rfl

end IoKind

end Http3Framing
