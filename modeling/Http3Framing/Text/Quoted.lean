import Http3Framing.Text.Extending
import Http3Framing.Text.Unprintable

/-! Quoted messages. Between the quotation marks a character stands for itself if it can be seen
on its own; a quotation mark, a backslash and the common controls have an escape of one letter,
and every other character is written as its code point. So a quoted message shows all that it
holds, whatever stands around it. -/

namespace Http3Framing.Text

/-- A character that can be seen on its own. -/
def isVisible (c : Char) : Bool := !isExtending c && !isUnprintable c

/-- A code point in base sixteen between braces. -/
def codePoint (c : Char) : List Char :=
  ['\\', 'u', '\x7b'] ++ Nat.toDigits 16 c.toNat ++ ['\x7d']

def escape : Char → List Char
  | '\x00' => ['\\', '0']
  | '\t' => ['\\', 't']
  | '\n' => ['\\', 'n']
  | '\r' => ['\\', 'r']
  | '"' => ['\\', '"']
  | '\\' => ['\\', '\\']
  | c => if isVisible c then [c] else codePoint c

def quoted (message : String) : String :=
  "\"" ++ String.ofList (message.toList.flatMap escape) ++ "\""

theorem isVisible_of_lt {c : Char} (low : 0x20 ≤ c.toNat) (high : c.toNat < 0x7f) :
    isVisible c := by
  simp [isVisible, not_isUnprintable low high, not_isExtending (c := c) (by omega)]

theorem isVisible_of_all_lt {text : List Char}
    (h : text.all fun d => 0x20 ≤ d.toNat && d.toNat < 0x7f) : ∀ d ∈ text, isVisible d := by
  intro d hd
  have := List.all_eq_true.mp h d hd
  simp only [Bool.and_eq_true, decide_eq_true_eq] at this
  exact isVisible_of_lt this.1 this.2

theorem isVisible_digitChar {n : Nat} (h : n < 16) : isVisible (Nat.digitChar n) := by
  have all : ∀ n < 16, 0x20 ≤ (Nat.digitChar n).toNat ∧ (Nat.digitChar n).toNat < 0x7f := by
    decide
  exact isVisible_of_lt (all n h).1 (all n h).2

theorem isVisible_of_mem_toDigitsCore (fuel n : Nat) (digits : List Char)
    (h : ∀ d ∈ digits, isVisible d) : ∀ d ∈ Nat.toDigitsCore 16 fuel n digits, isVisible d := by
  induction fuel generalizing n digits with
  | zero => simpa [Nat.toDigitsCore] using h
  | succ fuel ih =>
    have more : ∀ d ∈ (n % 16).digitChar :: digits, isVisible d := by
      intro d hd
      rcases List.mem_cons.mp hd with rfl | hd
      · exact isVisible_digitChar (Nat.mod_lt _ (by decide))
      · exact h d hd
    simp only [Nat.toDigitsCore]
    split
    · exact more
    · exact ih _ _ more

/-- An escape consists of characters that can be seen on their own. -/
theorem isVisible_of_mem_escape (c : Char) : ∀ d ∈ escape c, isVisible d := by
  unfold escape
  split
  case h_7 =>
    split
    · simpa
    · intro d hd
      simp only [codePoint, List.mem_append] at hd
      rcases hd with (hd | hd) | hd
      · exact isVisible_of_all_lt (by decide) d hd
      · exact isVisible_of_mem_toDigitsCore _ _ _ (by simp) d hd
      · exact isVisible_of_all_lt (by decide) d hd
  all_goals exact isVisible_of_all_lt (by decide)

/-- What is quoted can be seen in full. -/
theorem isVisible_of_mem_quoted (message : String) :
    ∀ d ∈ (quoted message).toList, isVisible d := by
  intro d hd
  simp only [quoted, String.toList_append, String.toList_ofList, List.mem_append] at hd
  rcases hd with (hd | hd) | hd
  · exact isVisible_of_all_lt (by decide) d hd
  · obtain ⟨c, -, hd⟩ := List.mem_flatMap.mp hd
    exact isVisible_of_mem_escape c d hd
  · exact isVisible_of_all_lt (by decide) d hd

/-- A visible character stands for itself, the two marks of quoting apart. -/
theorem escape_of_isVisible {c : Char} (h : isVisible c) (quote : c ≠ '"')
    (backslash : c ≠ '\\') : escape c = [c] := by
  unfold escape
  split
  case h_7 => simp [h]
  case h_5 => exact absurd rfl quote
  case h_6 => exact absurd rfl backslash
  all_goals exact absurd h (by decide +kernel)

end Http3Framing.Text
