import Http3Framing.Proofs.Intake

/-! Filling a buffer, byte by byte. A block read asks for many bytes and gets some, so a buffer is filled
in pieces that depend on how the transport cuts its data. What arrives, why it stops, where the stream
then stands and what is left of the feed do not: they are those of `fill`, which looks at one symbol of
the feed after the other. -/

namespace Http3Framing

open Transport

namespace Position

/-- The breach made by reading `room` bytes when none is left. -/
def excess (room : Nat) : Position → Violation
  | inFrame remaining => .limitExceeded room remaining
  | _ => .poisoned

end Position

namespace Transport

variable {want : Nat} {before after : List Symbol}

theorem Meets.eq_of_bytes {bs : List UInt8} (h : Meets want before (.done (.stored bs)) after)
    (hne : bs ≠ []) : before = bs.map .byte ++ after := by
  cases h with
  | exhausted => exact absurd rfl hne
  | finish => exact absurd rfl hne
  | bytes => rfl

theorem Meets.eq_of_end (h : Meets want before (.done (.stored [])) after) :
    (before = [] ∧ after = []) ∨ before = .finish :: after := by
  cases h with
  | exhausted => exact .inl ⟨rfl, rfl⟩
  | finish => exact .inr rfl
  | bytes _ _ ne => exact absurd rfl ne

theorem Meets.eq_of_failed {cause : Cause} (h : Meets want before (.failed cause) after) :
    before = .failure cause :: after := by
  cases h with
  | failure => rfl

/-- A read for one byte takes one symbol. -/
theorem Meets.one {answer : Answer Delivery} (h : Meets 1 before answer after) :
    match before with
    | [] => answer = .done (.stored []) ∧ after = []
    | .finish :: rest => answer = .done (.stored []) ∧ after = rest
    | .failure cause :: rest => answer = .failed cause ∧ after = rest
    | .byte b :: rest => answer = .done (.stored [b]) ∧ after = rest := by
  cases h with
  | exhausted => exact ⟨rfl, rfl⟩
  | finish => exact ⟨rfl, rfl⟩
  | failure => exact ⟨rfl, rfl⟩
  | bytes bs _ ne le =>
    match bs with
    | [] => exact absurd rfl ne
    | [b] => exact ⟨rfl, rfl⟩
    | _ :: _ :: _ => simp at le

theorem Meets.unique {answer answer' : Answer Delivery} {after' : List Symbol}
    (h : Meets 1 before answer after) (h' : Meets 1 before answer' after') :
    answer = answer' ∧ after = after' := by
  have hone := h.one
  have hone' := h'.one
  split at hone
  all_goals exact ⟨hone.1.trans hone'.1.symm, hone.2.trans hone'.2.symm⟩

end Transport

/-- What has arrived in a buffer, why no more did, and the position and the feed afterwards. -/
structure Filling where
  bytes : List UInt8
  stop : Option Stop
  position : Position
  feed : List Symbol

namespace Filling

/-- Nothing arrives. -/
def stopped (f : Failure) (position : Position) (feed : List Symbol) : Filling :=
  ⟨[], some (.failed f), position, feed⟩

/-- The feed is at an end. Once something has arrived, the end of the stream between frames cuts the
`room` bytes short that are still to come. -/
def ended (started : Bool) (room : Nat) (p : Position) (feed : List Symbol) : Filling :=
  if started ∧ p = .idle then stopped (.frame (.truncatedFrame room)) .poisoned feed
  else stopped p.endFailure p.afterEnd feed

/-- A byte that arrived before. -/
def after (b : UInt8) (f : Filling) : Filling := { f with bytes := b :: f.bytes }

end Filling

/-- Fills a buffer with `room` bytes left, from a position and a feed. -/
def fill : (room : Nat) → (started : Bool) → Position → List Symbol → Filling
  | 0, _, p, feed => ⟨[], none, p, feed⟩
  | room + 1, started, p, feed =>
    match p.consume 1 with
    | .error _ => .stopped (.frame (p.excess (room + 1))) .poisoned feed
    | .ok q =>
      match feed with
      | [] => .ended started (room + 1) p []
      | .finish :: feed => .ended started (room + 1) p feed
      | .failure cause :: feed => .stopped (.transport cause) .poisoned feed
      | .byte b :: feed => (fill room true q feed).after b

section

variable {room : Nat} {started : Bool} {p q : Position} {feed : List Symbol}

theorem fill_of_error {v : Violation} (hr : 0 < room) (h : p.consume 1 = .error v) :
    fill room started p feed = .stopped (.frame (p.excess room)) .poisoned feed := by
  obtain ⟨room, rfl⟩ := Nat.exists_eq_succ_of_ne_zero (Nat.ne_of_gt hr)
  simp only [fill, h]

theorem fill_nil (hr : 0 < room) (h : p.consume 1 = .ok q) :
    fill room started p [] = .ended started room p [] := by
  obtain ⟨room, rfl⟩ := Nat.exists_eq_succ_of_ne_zero (Nat.ne_of_gt hr)
  simp only [fill, h]

theorem fill_finish (hr : 0 < room) (h : p.consume 1 = .ok q) :
    fill room started p (.finish :: feed) = .ended started room p feed := by
  obtain ⟨room, rfl⟩ := Nat.exists_eq_succ_of_ne_zero (Nat.ne_of_gt hr)
  simp only [fill, h]

theorem fill_failure {cause : Cause} (hr : 0 < room) (h : p.consume 1 = .ok q) :
    fill room started p (.failure cause :: feed) =
      .stopped (.transport cause) .poisoned feed := by
  obtain ⟨room, rfl⟩ := Nat.exists_eq_succ_of_ne_zero (Nat.ne_of_gt hr)
  simp only [fill, h]

/-- Bytes in front of the feed are taken one by one; it does not show that they came together. -/
theorem fill_bytes (bs : List UInt8) (hle : bs.length ≤ room) (hne : bs ≠ [])
    (hc : p.consume bs.length = .ok q) :
    fill room started p (bs.map .byte ++ feed) =
      { fill (room - bs.length) true q feed with
        bytes := bs ++ (fill (room - bs.length) true q feed).bytes } := by
  induction bs generalizing room started p with
  | nil => exact absurd rfl hne
  | cons b bs ih =>
    obtain ⟨room, rfl⟩ := Nat.exists_eq_succ_of_ne_zero
      (Nat.ne_of_gt (Nat.lt_of_lt_of_le (Nat.succ_pos bs.length) hle))
    rw [List.length_cons, Nat.add_comm] at hc
    obtain ⟨p₁, hp₁, hq⟩ := Position.consume_split hc
    have hfirst : fill (room + 1) started p ((b :: bs).map .byte ++ feed) =
        (fill room true p₁ (bs.map .byte ++ feed)).after b := by
      simp only [List.map_cons, List.cons_append, fill, hp₁]
    have hroom : room + 1 - (b :: bs).length = room - bs.length := Nat.succ_sub_succ _ _
    rw [hfirst, hroom]
    cases bs with
    | nil =>
      obtain rfl : p₁ = q := by
        rw [List.length_nil, Position.consume_zero (Position.ne_poisoned_of_consume hq)] at hq
        exact Except.ok.inj hq
      rfl
    | cons c cs =>
      rw [ih (Nat.le_of_succ_le_succ hle) (List.cons_ne_nil c cs) hq]
      rfl

end

namespace FramedStream

open FramingM

variable {s s' : FramedStream} {room : Nat}

theorem nextBlock_of_error {stop : Stop} (started : Bool) (h : readBlock room s = .error stop s')
    (hne : stop ≠ .failed .endOfStream) : nextBlock started room s = .error stop s' := by
  unfold nextBlock
  split
  · unfold FramingM.endBreaks
    rw [h]
    split
    · next heq =>
      cases heq
      exact absurd rfl hne
    · rfl
  · exact h

/-- A block that met the end of the stream. -/
theorem nextBlock_of_ended (started : Bool)
    (h : readBlock room s = .error (.failed s.position.endFailure) s')
    (hu : s.position ≠ .poisoned) (hp : s'.position = s.position.afterEnd) :
    ∃ stop s₁, nextBlock started room s = .error stop s₁ ∧
      (⟨[], some stop, s₁.position, s₁.transport.feed⟩ : Filling) =
        .ended started room s.position s'.transport.feed := by
  unfold Filling.ended
  by_cases hidle : s.position = .idle
  · rw [hidle] at h hp
    cases started with
    | true =>
      refine ⟨_, _, endBreaks_of_end (.truncatedFrame room) h, ?_⟩
      rw [if_pos ⟨rfl, hidle⟩, position_poisonedBy, transport_poisonedBy]
      rfl
    | false =>
      refine ⟨_, s', h, ?_⟩
      rw [if_neg (by simp), hidle, hp]
      rfl
  · refine ⟨_, s', nextBlock_of_error started h ?_, ?_⟩
    · cases hq : s.position with
      | idle => exact absurd hq hidle
      | inFrame remaining => nofun
      | poisoned => exact absurd hq hu
    · rw [if_neg fun h => hidle h.2, hp]
      rfl

theorem readBlocks_of_error {fuel : Nat} {started : Bool} {stop : Stop} (hr : room ≠ 0)
    (h : nextBlock started room s = .error stop s') :
    readBlocks (fuel + 1) room started s = .ok ([], some stop) s' := by
  simp only [readBlocks, ite_on, if_neg hr]
  rw [bind_of_ok (attempt_of_error h)]
  rfl

/-- However the transport cuts its data, a buffer is filled as if it were filled byte by byte. -/
theorem readBlocks_fills (fuel room : Nat) (started : Bool) (s : FramedStream) (hs : s.Attended)
    (hc : s.transport.chunk ≠ some 0) (h : room ≤ fuel) :
    ∃ (pieces : List (List UInt8)) (stop : Option Stop) (s' : FramedStream),
      readBlocks fuel room started s = .ok (pieces.map .stored, stop) s' ∧
        fill room started s.position s.transport.feed =
          ⟨pieces.flatten, stop, s'.position, s'.transport.feed⟩ := by
  induction fuel generalizing room started s with
  | zero =>
    obtain rfl : room = 0 := by omega
    exact ⟨[], none, s, rfl, rfl⟩
  | succ fuel ih =>
    rcases Nat.eq_zero_or_pos room with rfl | hr
    · exact ⟨[], none, s, rfl, rfl⟩
    have hne : room ≠ 0 := Nat.ne_of_gt hr
    rcases s.position.block_cases hr with hp | hp | ⟨hu, hw⟩
    · have hx := nextBlock_of_cut started (readBlock_of_poisoned room hp)
      refine ⟨[], _, s, readBlocks_of_error hne hx, ?_⟩
      rw [hp, fill_of_error hr rfl]
      rfl
    · have hx := nextBlock_of_cut started (readBlock_of_exhausted hr hp)
      refine ⟨[], _, _, readBlocks_of_error hne hx, ?_⟩
      rw [hp, fill_of_error hr rfl, position_poisonedBy, transport_poisonedBy]
      rfl
    · obtain ⟨q, hq⟩ := Position.consume_of_le_cap hu hw
      rcases readBlock_cases hs hu hw with
        ⟨bs, s₁, hx, hbs, hle, hread, hcount⟩ | ⟨s₁, hx, hread, hp⟩ | ⟨cause, s₁, hx, hread, hp⟩
      · -- a piece arrives: the rest of the buffer is filled behind it
        have hfeed := (hread.meets hc).eq_of_bytes hbs
        have hlt : bs.length ≤ room := Nat.le_trans hle (s.position.cap_le room)
        have hpos : 0 < bs.length := List.length_pos_iff.2 hbs
        have hchunk : s₁.transport.chunk ≠ some 0 := by
          obtain ⟨made, hmoves, -⟩ := hread.moves
          rw [hmoves.chunk]
          exact hc
        obtain ⟨pieces, stop, s₂, hy, hfill⟩ :=
          ih (room - bs.length) true s₁ hread.attended hchunk (by omega)
        refine ⟨bs :: pieces, stop, s₂, readBlocks_of_piece started hne hlt hx hy, ?_⟩
        rw [hfeed, fill_bytes bs hlt hbs hcount, hfill]
        rfl
      · obtain ⟨stop, s₂, hy, hended⟩ := nextBlock_of_ended started hx hu hp
        refine ⟨[], some stop, s₂, readBlocks_of_error hne hy, ?_⟩
        rw [List.flatten_nil, hended]
        rcases (hread.meets hc).eq_of_end with ⟨hfeed, hrest⟩ | hfeed
        · rw [hfeed, hrest, fill_nil hr hq]
        · rw [hfeed, fill_finish hr hq]
      · have hfeed := (hread.meets hc).eq_of_failed
        have hy := nextBlock_of_error started hx nofun
        refine ⟨[], _, s₁, readBlocks_of_error hne hy, ?_⟩
        rw [hfeed, fill_failure hr hq, hp]
        rfl

end FramedStream

end Http3Framing
