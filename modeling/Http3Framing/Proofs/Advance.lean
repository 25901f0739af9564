import Http3Framing.FramedStream.Operation
import Http3Framing.Proofs.Feed

/-! How a stream moves, over an honest transport and for a caller that waits. `Moves` says which
calls were made in between, and `Advances` which bytes were pulled: they come off the front of what
was to be read, inside a frame every read keeps to what the frame owes, and the position has
counted them or is poisoned. Before that, what positions say of counts and of calls. -/

namespace Http3Framing

open Transport

namespace Position

/-- How the end of the stream is reported here, before anything of the read that met it is
counted. -/
def endFailure : Position → Failure
  | inFrame remaining => .frame (.truncatedFrame remaining)
  | _ => .endOfStream

def afterEnd : Position → Position
  | idle => idle
  | _ => poisoned

/-- The calls that a position admits: reads share what the open frame owes, and a poisoned stream
makes no call. -/
def Admits : Position → List Call → Prop
  | idle, _ => True
  | inFrame remaining, calls => Call.Within remaining calls
  | poisoned, calls => calls = []

theorem admits_nil (p : Position) : p.Admits [] := by
  cases p with
  | idle => trivial
  | inFrame => trivial
  | poisoned => rfl

theorem admits_of_not_isRead {p : Position} {calls : List Call} (hp : p ≠ poisoned)
    (h : ∀ c ∈ calls, c.isRead = false) : p.Admits calls := by
  cases p with
  | idle => trivial
  | inFrame remaining => exact Call.within_of_not_isRead remaining h
  | poisoned => exact absurd rfl hp

theorem consume_zero {p : Position} (hp : p ≠ poisoned) : p.consume 0 = .ok p := by
  cases p with
  | idle => rfl
  | inFrame remaining => simp [consume]
  | poisoned => exact absurd rfl hp

theorem usable_eq {p : Position} (h : p ≠ poisoned) : p.usable = .ok () := by
  cases p with
  | poisoned => exact absurd rfl h
  | _ => rfl

theorem ne_poisoned_of_consume {p q : Position} {n : Nat} (h : consume n p = .ok q) :
    p ≠ poisoned := by
  rintro rfl
  cases h

theorem remaining?_afterEnd (p : Position) : p.afterEnd.remaining? = none := by
  cases p <;> rfl

theorem afterEnd_cases {p : Position} (h : p ≠ poisoned) :
    p.afterEnd = poisoned ∨ consume 0 p = .ok p.afterEnd := by
  cases p with
  | idle => exact .inr rfl
  | inFrame => exact .inl rfl
  | poisoned => exact absurd rfl h

/-- What is left of a frame after a count that it could bear. -/
theorem le_of_consume_inFrame {remaining n : Nat} {p : Position}
    (h : consume n (inFrame remaining) = .ok p) : n ≤ remaining ∧ p = inFrame (remaining - n) := by
  simp only [consume] at h
  split at h
  · cases h
  · cases h
    exact ⟨by omega, rfl⟩

/-- A frame that owes so much after a count owed the counted bytes as well before it. -/
theorem inFrame_of_consume {p q : Position} {n remaining : Nat} (h : consume n p = .ok q)
    (hq : q = inFrame remaining) : p = inFrame (n + remaining) := by
  subst hq
  cases p with
  | idle => cases h
  | inFrame len =>
    obtain ⟨hle, heq⟩ := le_of_consume_inFrame h
    cases heq
    rw [Nat.add_sub_cancel' hle]
  | poisoned => cases h

theorem idle_of_consume {p : Position} {n : Nat} (h : consume n p = .ok idle) : p = idle := by
  cases p with
  | idle => rfl
  | inFrame remaining => cases (le_of_consume_inFrame h).2
  | poisoned => cases h

/-- A byte cannot be read, is one too many, or can be counted. -/
theorem byte_cases (p : Position) :
    p = poisoned ∨ p = inFrame 0 ∨ ∃ q, consume 1 p = .ok q ∧ p.cap 1 = 1 := by
  match p with
  | poisoned => exact .inl rfl
  | inFrame 0 => exact .inr (.inl rfl)
  | inFrame (remaining + 1) =>
    exact .inr (.inr ⟨_, consume_inFrame_of_le (by omega), Nat.min_eq_left (by omega)⟩)
  | idle => exact .inr (.inr ⟨idle, rfl, rfl⟩)

/-- A block of a byte or more cannot be read, is too much, or has a part that can be read. -/
theorem block_cases {room : Nat} (h : 0 < room) (p : Position) :
    p = poisoned ∨ p = inFrame 0 ∨ p ≠ poisoned ∧ 1 ≤ p.cap room := by
  match p with
  | poisoned => exact .inl rfl
  | inFrame 0 => exact .inr (.inl rfl)
  | inFrame (remaining + 1) =>
    exact .inr (.inr ⟨by simp, Nat.le_min.2 ⟨h, by omega⟩⟩)
  | idle => exact .inr (.inr ⟨by simp, h⟩)

theorem cap_cap (room : Nat) (p : Position) : p.cap (p.cap room) = p.cap room := by
  cases p with
  | inFrame remaining => exact Nat.min_eq_left (Nat.min_le_right _ _)
  | _ => rfl

theorem consume_of_le_cap {room n : Nat} {p : Position} (hp : p ≠ poisoned) (h : n ≤ p.cap room) :
    ∃ q, consume n p = .ok q := by
  cases p with
  | idle => exact ⟨idle, rfl⟩
  | inFrame remaining =>
    exact ⟨_, consume_inFrame_of_le (Nat.le_trans h (cap_inFrame_le room remaining))⟩
  | poisoned => exact absurd rfl hp

/-- Counting in two parts. -/
theorem consume_add {p q r : Position} {m n : Nat} (hm : consume m p = .ok q)
    (hn : consume n q = .ok r) : consume (m + n) p = .ok r := by
  cases p with
  | idle => cases hm; cases hn; rfl
  | inFrame remaining =>
    obtain ⟨hle, rfl⟩ := le_of_consume_inFrame hm
    obtain ⟨hle', rfl⟩ := le_of_consume_inFrame hn
    rw [consume_inFrame_of_le (by omega), Nat.sub_sub]
  | poisoned => cases hm

/-- A count that can be borne can be borne in two parts. -/
theorem consume_split {p r : Position} {m n : Nat} (h : consume (m + n) p = .ok r) :
    ∃ q, consume m p = .ok q ∧ consume n q = .ok r := by
  cases p with
  | idle => exact ⟨idle, rfl, h⟩
  | inFrame remaining =>
    obtain ⟨hle, rfl⟩ := le_of_consume_inFrame h
    refine ⟨_, consume_inFrame_of_le (by omega), ?_⟩
    rw [consume_inFrame_of_le (by omega), Nat.sub_sub]
  | poisoned => cases h

theorem admits_append {p q : Position} {cs ds : List Call} (hc : p.Admits cs)
    (hp : q = poisoned ∨ consume (cs.flatMap Call.delivered).length p = .ok q)
    (hd : q.Admits ds) : p.Admits (cs ++ ds) := by
  cases p with
  | idle => trivial
  | inFrame remaining =>
    refine Call.within_append.2 ⟨hc, ?_⟩
    rcases hp with rfl | hq
    · cases hd; trivial
    · obtain ⟨_, rfl⟩ := le_of_consume_inFrame hq
      exact hd
  | poisoned =>
    rcases hp with rfl | hq
    · cases hc; cases hd; rfl
    · cases hq

end Position

namespace FramedStream

/-- The caller waits for every answer and the transport is honest. -/
def Attended (s : FramedStream) : Prop := s.patience = none ∧ s.transport.Honest

/-- The stream has gone on by these calls and is otherwise used as before. -/
structure Moves (s s' : FramedStream) (made : List Call) : Prop where
  attended : s'.Attended
  limits : s'.limits = s.limits
  flavour : s'.flavour = s.flavour
  chunk : s'.transport.chunk = s.transport.chunk
  calls : s'.transport.calls.toList = s.transport.calls.toList ++ made
  unread : s.transport.unread = made.flatMap Call.delivered ++ s'.transport.unread

/-- The stream has pulled these bytes and counted them, or it is poisoned. -/
structure Advances (s s' : FramedStream) (pulled : List UInt8) : Prop where
  moves : ∃ made, Moves s s' made ∧ made.flatMap Call.delivered = pulled ∧ s.position.Admits made
  position : s'.position = .poisoned ∨ s.position.consume pulled.length = .ok s'.position

/-- One read for `want` bytes took the stream from `s` to `s'`: what its calls brought in, and what
it met of the feed if the transport moves at all. -/
structure Reads (want : Nat) (s s' : FramedStream) (answer : Answer Delivery)
    (pulled : List UInt8) : Prop where
  moves : ∃ made, Moves s s' made ∧ made.flatMap Call.delivered = pulled ∧
    ∀ n, want ≤ n → Call.Within n made
  meets : s.transport.chunk ≠ some 0 → Meets want s.transport.feed answer s'.transport.feed

theorem Moves.refl {s : FramedStream} (h : s.Attended) : Moves s s [] :=
  ⟨h, rfl, rfl, rfl, (List.append_nil _).symm, rfl⟩

theorem Moves.trans {s₁ s₂ s₃ : FramedStream} {cs ds : List Call} (h : Moves s₁ s₂ cs)
    (h' : Moves s₂ s₃ ds) : Moves s₁ s₃ (cs ++ ds) where
  attended := h'.attended
  limits := h'.limits.trans h.limits
  flavour := h'.flavour.trans h.flavour
  chunk := h'.chunk.trans h.chunk
  calls := by rw [h'.calls, h.calls, List.append_assoc]
  unread := by rw [h.unread, h'.unread, List.flatMap_append, List.append_assoc]

/-- A stream that differs only beside its transport. -/
theorem Moves.of_eq {s s' : FramedStream} (h : s.Attended) (ht : s'.transport = s.transport)
    (hp : s'.patience = s.patience) (hl : s'.limits = s.limits) (hf : s'.flavour = s.flavour) :
    Moves s s' [] where
  attended := ⟨hp.trans h.1, by rw [ht]; exact h.2⟩
  limits := hl
  flavour := hf
  chunk := by rw [ht]
  calls := by rw [ht, List.append_nil]
  unread := by rw [ht]; rfl

theorem Moves.poisonedBy {s s' : FramedStream} {made : List Call} (h : Moves s s' made)
    (f : Failure) : Moves s (s'.poisonedBy f) made := by
  have hstep : Moves s' (s'.poisonedBy f) [] := by
    unfold FramedStream.poisonedBy
    split
    · exact .refl h.attended
    · exact .of_eq h.attended rfl rfl rfl rfl
  simpa using h.trans hstep

theorem position_poisonedBy (s : FramedStream) (f : Failure) :
    (s.poisonedBy f).position = .poisoned := by
  unfold poisonedBy
  split
  · next h =>
    unfold Position.isPoisoned at h
    split at h
    · assumption
    · cases h
  · rfl

theorem transport_poisonedBy (s : FramedStream) (f : Failure) :
    (s.poisonedBy f).transport = s.transport := by
  unfold poisonedBy
  split <;> rfl

theorem Advances.attended {s s' : FramedStream} {bs : List UInt8} (h : Advances s s' bs) :
    s'.Attended := by
  obtain ⟨_, hm, _⟩ := h.moves
  exact hm.attended

theorem Advances.delivered {s s' : FramedStream} {bs : List UInt8} (h : Advances s s' bs) :
    s'.transport.delivered = s.transport.delivered ++ bs := by
  obtain ⟨made, hm, rfl, -⟩ := h.moves
  unfold Transport.delivered
  rw [hm.calls, List.flatMap_append]

theorem Advances.trans {s₁ s₂ s₃ : FramedStream} {bs cs : List UInt8} (h : Advances s₁ s₂ bs)
    (h' : Advances s₂ s₃ cs) : Advances s₁ s₃ (bs ++ cs) := by
  obtain ⟨made, hm, rfl, ha⟩ := h.moves
  obtain ⟨more, hm', rfl, ha'⟩ := h'.moves
  refine ⟨⟨made ++ more, hm.trans hm', List.flatMap_append, ?_⟩, ?_⟩
  · exact Position.admits_append ha h.position ha'
  · rcases h'.position with hp' | hp'
    · exact .inl hp'
    · rcases h.position with hp | hp
      · rw [hp] at hp'
        cases hp'
      · rw [List.length_append]
        exact .inr (Position.consume_add hp hp')

/-- A stream that stays where it is. -/
theorem Advances.of_moves_nil {s s' : FramedStream} (h : Moves s s' [])
    (hp : s'.position = s.position) : Advances s s' [] := by
  refine ⟨⟨[], h, rfl, s.position.admits_nil⟩, ?_⟩
  by_cases hs : s.position = .poisoned
  · exact .inl (hp.trans hs)
  · right
    rw [hp]
    exact Position.consume_zero hs

theorem Advances.refl {s : FramedStream} (h : s.Attended) : Advances s s [] :=
  .of_moves_nil (.refl h) rfl

theorem Advances.poisonedBy {s : FramedStream} (h : s.Attended) (f : Failure) :
    Advances s (s.poisonedBy f) [] :=
  ⟨⟨[], Moves.poisonedBy (.refl h) f, rfl, s.position.admits_nil⟩,
    .inl (s.position_poisonedBy f)⟩

end FramedStream

end Http3Framing
