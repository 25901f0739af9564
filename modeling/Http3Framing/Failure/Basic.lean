import Http3Framing.Failure.Cause

/-! The ways in which an operation fails: a framing rule is broken, the stream ended between
frames, a number is too large for the wire, or the transport failed. Each has a text, a code for
closing the stream and a chain of causes. -/

namespace Http3Framing

inductive Failure
  | frame (v : Violation)
  | endOfStream
  | integerTooLarge (n : Nat)
  | transport (cause : Cause)
  deriving DecidableEq

namespace Failure

/-- The failure as a cause of another failure. -/
def toCause : Failure → Cause
  | frame v => .frameFailure v
  | endOfStream => .streamEnd
  | integerTooLarge n => .rangeFailure n
  | transport cause => .transportFailure cause

def label : Failure → String
  | frame _ => "Frame"
  | endOfStream => "EndOfStream"
  | integerTooLarge _ => "IntegerTooLarge"
  | transport _ => "Io"

def display (f : Failure) : String := f.toCause.display

def debug (f : Failure) : String := f.toCause.debug

/-- The breach that is the direct cause of the failure. -/
def violation? (f : Failure) : Option Violation :=
  match f with
  | frame v => some v
  | transport (.violation v) => some v
  | _ => none

/-- All causes, the nearest first. -/
def sources (f : Failure) : List Cause := f.toCause.sources

def isFrameError : Failure → Bool
  | frame _ => true
  | _ => false

def isEndOfStream : Failure → Bool
  | endOfStream => true
  | _ => false

def isIntegerTooLarge : Failure → Bool
  | integerTooLarge _ => true
  | _ => false

def isTransport : Failure → Bool
  | transport _ => true
  | _ => false

/-- The operation was refused because the stream was poisoned before. -/
def isPoisoned (f : Failure) : Bool := f.violation? = some .poisoned

/-- Some cause tells of a deadline. -/
def isTimeout (f : Failure) : Bool := f.sources.any Cause.marksDeadline

/-- The failures that poison a stream when they occur on it. -/
def poisons : Failure → Bool
  | frame v => v.losesPlace
  | transport _ => true
  | _ => false

end Failure

/-- Codes with which a stream is closed. -/
inductive Code
  | noError | internalError | frameError | excessiveLoad
  deriving DecidableEq

namespace Code

def value : Code → Nat
  | noError => 0x100
  | internalError => 0x102
  | frameError => 0x106
  | excessiveLoad => 0x107

def name : Code → String
  | noError => "H3_NO_ERROR"
  | internalError => "H3_INTERNAL_ERROR"
  | frameError => "H3_FRAME_ERROR"
  | excessiveLoad => "H3_EXCESSIVE_LOAD"

def all : List Code := [noError, internalError, frameError, excessiveLoad]

end Code

/-- The code to close the stream with after this failure. -/
def Failure.code : Failure → Code
  | frame (.payloadTooLarge ..) => .excessiveLoad
  | frame _ => .frameError
  | endOfStream => .noError
  | integerTooLarge _ | transport _ => .internalError

end Http3Framing
