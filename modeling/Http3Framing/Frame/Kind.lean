import Http3Framing.Text.Shape
import Http3Framing.Varint.Basic

/-! Kinds of frames. The code space is open: seven codes have names, some are reserved so that
receivers stay tolerant, four belong to the older version of the protocol alone, and any other
code is carried through. -/

namespace Http3Framing.Frame

/-- The code that opens a frame. -/
structure Kind where
  code : Nat
  deriving DecidableEq

namespace Kind

def data : Kind := ⟨0x0⟩
def headers : Kind := ⟨0x1⟩
def cancelPush : Kind := ⟨0x3⟩
def settings : Kind := ⟨0x4⟩
def pushPromise : Kind := ⟨0x5⟩
def goaway : Kind := ⟨0x7⟩
def maxPushId : Kind := ⟨0xd⟩

/-- The kinds with a name, by code. -/
def named : List (Kind × String) :=
  [(data, "DATA"), (headers, "HEADERS"), (cancelPush, "CANCEL_PUSH"), (settings, "SETTINGS"),
    (pushPromise, "PUSH_PROMISE"), (goaway, "GOAWAY"), (maxPushId, "MAX_PUSH_ID")]

def name? (k : Kind) : Option String := named.lookup k

def ofVarint (v : Varint) : Kind := ⟨v.toNat⟩

/-- Reserved codes are `0x1f * n + 0x21`: receivers skip their frames. -/
def isReserved (k : Kind) : Bool :=
  0x21 ≤ k.code && (k.code - 0x21) % 0x1f == 0

/-- Codes of the older version that have no meaning here. -/
def isLegacy (k : Kind) : Bool :=
  [0x2, 0x6, 0x8, 0x9].contains k.code

def display (k : Kind) : String :=
  match k.name? with
  | some name => name
  | none =>
    Text.applied (if k.isReserved then "reserved" else "unknown") (Text.hexadecimal k.code)

def debug (k : Kind) : String :=
  match k.name? with
  | some name => name
  | none => Text.applied "FrameType" (Text.hexadecimal k.code)

/-- The kinds in order of code, each once. -/
def distinct (kinds : List Kind) : List Kind :=
  (kinds.mergeSort (fun a b => a.code ≤ b.code)).foldr
    (fun k later => if later.head? = some k then later else k :: later) []

end Kind

end Http3Framing.Frame
