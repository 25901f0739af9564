/-! Texts of values: a record with named fields, a constructor applied to one value and a
number in base sixteen. Which fields a value shows, and under which names, is said where the
value is defined. -/

namespace Http3Framing.Text

/-- A record: its name, then its fields between braces. -/
def record (name : String) (fields : List (String × String)) : String :=
  name ++ " \x7b " ++ ", ".intercalate (fields.map fun field => field.1 ++ ": " ++ field.2) ++
    " \x7d"

/-- A constructor and the value it carries. -/
def applied (name value : String) : String :=
  name ++ "(" ++ value ++ ")"

/-- Lower-case digits in base sixteen, with the usual mark in front. -/
def hexadecimal (n : Nat) : String :=
  "0x" ++ String.ofList (Nat.toDigits 16 n)

end Http3Framing.Text
