import Http3Framing.Varint.Encoding

/-! A buffer that lies in pieces, any of which may be empty. Taking bytes off the front goes
across the pieces; the whole is their concatenation. Decoding an integer looks at the first
byte and at the length of the whole, so it does not depend on where the pieces end. -/

namespace Http3Framing

/-- The pieces of a buffer, front first. -/
abbrev Pieces := List (List UInt8)

namespace Pieces

def length (ps : Pieces) : Nat := (ps.map List.length).sum

/-- The first byte of the first piece that has one. -/
def first? : Pieces → Option UInt8
  | [] => none
  | [] :: ps => first? ps
  | (b :: _) :: _ => some b

/-- The first `n` bytes and the pieces behind them. -/
def split (n : Nat) : Pieces → List UInt8 × Pieces
  | [] => ([], [])
  | p :: ps =>
    if n ≤ p.length then (p.take n, p.drop n :: ps)
    else
      let (front, rest) := split (n - p.length) ps
      (p ++ front, rest)

/-- One integer, if it is complete, and the pieces that are left. -/
def decode (ps : Pieces) : Option Varint × Pieces :=
  match ps.first? with
  | none => (none, ps)
  | some b =>
    let w := Width.ofFirst b
    if ps.length < w.size then (none, ps)
    else
      let (front, rest) := ps.split w.size
      (some (Varint.ofBytes w front), rest)

/-- Integers off the front until none is complete, each with the bytes it took, and the rest;
at most `count` of them. -/
def decodeUpTo : Nat → Pieces → List (Varint × Nat) × Pieces
  | 0, ps => ([], ps)
  | count + 1, ps =>
    match ps.decode with
    | (none, rest) => ([], rest)
    | (some v, rest) =>
      let more := decodeUpTo count rest
      ((v, ps.length - rest.length) :: more.1, more.2)

/-- All integers off the front: each takes a byte or more, so the length bounds their number. -/
def decodeAll (ps : Pieces) : List (Varint × Nat) × Pieces := ps.decodeUpTo ps.length

theorem length_eq (ps : Pieces) : ps.length = ps.flatten.length := List.length_flatten.symm

theorem first?_eq (ps : Pieces) : ps.first? = ps.flatten.head? := by
  induction ps with
  | nil => rfl
  | cons p ps ih => cases p <;> simp [first?, ih]

theorem split_fst (n : Nat) (ps : Pieces) : (split n ps).1 = ps.flatten.take n := by
  induction ps generalizing n with
  | nil => simp [split]
  | cons p ps ih =>
    by_cases h : n ≤ p.length
    · simp [split, h, List.take_append_of_le_length h]
    · simp [split, h, ih, List.take_append, List.take_of_length_le (Nat.le_of_not_le h)]

theorem split_snd (n : Nat) (ps : Pieces) : (split n ps).2.flatten = ps.flatten.drop n := by
  induction ps generalizing n with
  | nil => simp [split]
  | cons p ps ih =>
    by_cases h : n ≤ p.length
    · simp [split, h, List.drop_append_of_le_length h]
    · simp [split, h, ih, List.drop_append, List.drop_of_length_le (Nat.le_of_not_le h)]

/-- What the whole has in front is taken off the pieces. -/
theorem decode_of_some {ps : Pieces} {v : Varint} {tail : List UInt8}
    (h : Varint.decode? ps.flatten = some (v, tail)) :
    ∃ rest, ps.decode = (some v, rest) ∧ rest.flatten = tail := by
  rw [decode, first?_eq, length_eq]
  cases hb : ps.flatten with
  | nil =>
    rw [hb] at h
    cases h
  | cons b bs =>
    have hf := split_fst (Width.ofFirst b).size ps
    have hs := split_snd (Width.ofFirst b).size ps
    rw [hb] at h hf hs
    rw [Varint.decode?] at h
    by_cases hl : (b :: bs).length < (Width.ofFirst b).size
    · rw [if_pos hl] at h
      cases h
    · rw [if_neg hl] at h
      cases h
      refine ⟨_, ?_, hs⟩
      simp only [List.head?_cons, if_neg hl, hf]

/-- Where the whole has nothing complete in front, the pieces stay as they are. -/
theorem decode_of_none {ps : Pieces} (h : Varint.decode? ps.flatten = none) :
    ps.decode = (none, ps) := by
  rw [decode, first?_eq, length_eq]
  cases hb : ps.flatten with
  | nil => rfl
  | cons b bs =>
    rw [hb, Varint.decode?] at h
    by_cases hl : (b :: bs).length < (Width.ofFirst b).size
    · simp only [List.head?_cons, if_pos hl]
    · rw [if_neg hl] at h
      cases h

end Pieces

end Http3Framing
