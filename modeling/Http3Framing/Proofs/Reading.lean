import Http3Framing.Proofs.Account
import Http3Framing.Proofs.Forms
import Http3Framing.Proofs.Steps

/-! What the other reading operations account for. They are made of bytes and blocks: many blocks
fill a buffer, the bytes of an integer spell it, and the steps of a payload are the payload. A
failure inside a frame never leaves the frame open. -/

namespace Http3Framing

namespace FramedStream

open FramingM

/-! ### Many blocks -/

theorem ended_ne_ok {α : Type} {s s' : FramedStream} {a : α} (counted : Nat) :
    (ended counted : FramingM α) s ≠ .ok a s' := by
  unfold ended
  cases s.position.cutShort? counted with
  | none => exact fun h => nomatch h
  | some v => exact fun h => nomatch h

/-- A block that is handed out has a byte or more, over any transport. -/
theorem readBlock_pos {s s' : FramedStream} {room : Nat} {d : Delivery} (hr : 0 < room)
    (h : readBlock room s = .ok d s') : 0 < d.count := by
  rcases s.position.block_cases hr with hp | hp | ⟨hu, hw⟩
  · rw [readBlock_of_poisoned room hp] at h
    cases h
  · rw [readBlock_of_exhausted hr hp] at h
    cases h
  · rw [readBlock_of_cap hu hw] at h
    cases hx : readOnce (s.position.cap room) s with
    | error stop s₁ =>
      rw [bind_of_error hx] at h
      cases h
    | ok d₁ s₁ =>
      rw [bind_of_ok hx] at h
      by_cases hd : d₁.count = 0
      · simp only [hd, if_true, bind_apply] at h
        cases he : (ended 0 : FramingM PUnit) s₁ with
        | ok a s₂ => exact absurd he (ended_ne_ok 0)
        | error stop s₂ =>
          rw [he] at h
          cases h
      · simp only [hd, if_false, bind_apply] at h
        split at h
        · cases h
          exact Nat.pos_of_ne_zero hd
        · cases h

theorem nextBlock_pos {s s' : FramedStream} {room : Nat} {started : Bool} {d : Delivery}
    (hr : 0 < room) (h : nextBlock started room s = .ok d s') : 0 < d.count := by
  unfold nextBlock at h
  split at h
  · unfold endBreaks at h
    split at h
    · cases h
    · exact readBlock_pos hr h
  · exact readBlock_pos hr h

/-- Counting what is filled comes to the same as going on with what is empty. -/
theorem readFilling_eq (size fuel filled : Nat) (s : FramedStream) :
    readFilling size fuel filled s = readBlocks fuel (size - filled) (decide (0 < filled)) s := by
  induction fuel generalizing filled s with
  | zero => rfl
  | succ fuel ih =>
    by_cases hle : size ≤ filled
    · simp only [readFilling, readBlocks, ite_on, if_pos hle,
        if_pos (Nat.sub_eq_zero_of_le hle)]
    · have hr : size - filled ≠ 0 := by omega
      simp only [readFilling, readBlocks, ite_on, if_neg hle, if_neg hr]
      cases hx : nextBlock (decide (0 < filled)) (size - filled) s with
      | error stop s₁ =>
        rw [bind_of_ok (attempt_of_error hx), bind_of_ok (attempt_of_error hx)]
      | ok d s₁ =>
        have hd : 0 < d.count := nextBlock_pos (Nat.pos_of_ne_zero hr) hx
        rw [bind_of_ok (attempt_of_ok hx), bind_of_ok (attempt_of_ok hx)]
        have hnext := ih (filled + d.count) s₁
        rw [← Nat.sub_sub, decide_eq_true (by omega : 0 < filled + d.count)] at hnext
        simp only [ite_on, bind_apply, hnext]

theorem readExact_eq (room : Nat) : FramedStream.readExact room = readBlocks room room false := by
  funext s
  have hget : (get : FramingM FramedStream) s = .ok s s := rfl
  unfold FramedStream.readExact
  rw [bind_of_ok hget]
  cases s.flavour with
  | blocking => rfl
  | suspending => exact readFilling_eq room room 0 s

theorem draws_nextBlock (started : Bool) (room : Nat) :
    Draws (nextBlock started room) (IsBlock room) := by
  unfold nextBlock
  split
  · exact (draws_readBlock room).endBreaks _ fun _ _ h => ⟨h.1, rfl⟩
  · exact draws_readBlock room

/-- What filling `room` bytes tells of the pulled bytes. -/
def IsFill (room : Nat) :
    Except Stop (List Delivery × Option Stop) → List UInt8 → Position → Prop
  | .ok (ds, stop), pulled, p =>
    (∃ pieces : List (List UInt8), ds = pieces.map .stored ∧ pieces.flatten = pulled) ∧
      pulled.length ≤ room ∧
      match stop with
      | none => pulled.length = room
      | some _ => p.remaining? = none
  | .error _, _, _ => False

theorem draws_readBlocks (fuel room : Nat) (started : Bool) (h : room ≤ fuel) :
    Draws (readBlocks fuel room started) (IsFill room) := by
  induction fuel generalizing room started with
  | zero =>
    obtain rfl : room = 0 := by omega
    exact .pure fun _ => ⟨⟨[], rfl, rfl⟩, Nat.le_refl 0, rfl⟩
  | succ fuel ih =>
    unfold readBlocks
    split
    · next hr =>
      subst hr
      exact .pure fun _ => ⟨⟨[], rfl, rfl⟩, Nat.le_refl 0, rfl⟩
    · next hr =>
      intro s hs
      refine ((draws_nextBlock started room).attempt s hs).bind (fun _ _ _ h => h.elim)
        fun o bs s₁ hs₁ ho => ?_
      cases o with
      | error stop =>
        obtain ⟨rfl, hp⟩ := ho
        exact ⟨[], .refl hs₁, ⟨[], rfl, rfl⟩, Nat.zero_le room, hp⟩
      | ok d =>
        obtain ⟨rfl, hle, hne⟩ := ho
        have hpos : 0 < bs.length := List.length_pos_iff.2 (hne (Nat.pos_of_ne_zero hr))
        have hnot : ¬ room < (Delivery.stored bs).count := Nat.not_lt.2 hle
        simp only [if_neg hnot]
        refine (ih (room - bs.length) true (by omega) s₁ hs₁).bind (fun _ _ _ h => h.elim)
          fun r more s₂ hs₂ hm => ?_
        obtain ⟨ds, stop⟩ := r
        obtain ⟨⟨pieces, rfl, rfl⟩, hmore, hall⟩ := hm
        refine ⟨[], .refl hs₂, ⟨bs :: pieces, rfl, by simp⟩, ?_, ?_⟩
        · simp only [List.length_append, List.length_nil]
          omega
        · cases stop with
          | none =>
            simp only at hall
            simp only [List.length_append, List.length_nil]
            omega
          | some stop => exact hall

/-! ### Integers and payloads -/

/-- What handing out an integer tells of the pulled bytes. -/
def IsForm : Except Stop Varint → List UInt8 → Position → Prop
  | .ok v, pulled, _ => v.Form pulled
  | .error _, _, p => p.remaining? = none

/-- The missing bytes continue the numeral of the bytes seen before. -/
theorem draws_readMissing (missing : Nat) (p : Varint.Partial missing) :
    Draws (readMissing missing p) fun o pulled q => match o with
      | .ok v => pulled.length = missing ∧ v.toNat = BigEndian.extend p.value pulled
      | .error _ => q.remaining? = none := by
  induction missing with
  | zero => exact .pure fun _ => ⟨rfl, rfl⟩
  | succ missing ih =>
    have hbyte := draws_readByte.endBreaks (.truncatedVarint p.width.size)
      fun _ _ h => ⟨h.1, rfl⟩
    refine hbyte.bind (fun _ _ _ h => h.2) fun b bs _ hb => ?_
    refine (ih (p.push b)).mono fun o more q ho => ?_
    cases o with
    | error stop => exact ho
    | ok v =>
      obtain rfl : bs = [b] := hb
      exact ⟨by simp [ho.1], ho.2⟩

theorem draws_readVarint : Draws FramedStream.readVarint IsForm := by
  refine draws_readByte.bind (fun _ _ _ h => h.2) fun b bs _ hb => ?_
  refine (draws_readMissing _ (.start b)).mono fun o more q ho => ?_
  cases o with
  | error stop => exact ho
  | ok v =>
    obtain rfl : bs = [b] := hb
    obtain ⟨hlen, hv⟩ := ho
    have hpos := (Width.ofFirst b).size_pos
    have hall : (b :: more).length = (Width.ofFirst b).size := by
      rw [List.length_cons, hlen]
      omega
    have hvalue : v = Varint.ofBytes (Width.ofFirst b) (b :: more) :=
      Varint.ext (hv.trans (Varint.extend_eq_ofBytes hall))
    change v.Form ([b] ++ more)
    rw [hvalue]
    exact Varint.form_ofBytes hall

/-- What going through the steps tells of the pulled bytes. -/
def IsSteps (steps : List Nat) : Except Stop (List Delivery) → List UInt8 → Position → Prop
  | .ok ds, pulled, _ =>
    (∃ pieces : List (List UInt8), ds = pieces.map .stored ∧ pieces.flatten = pulled) ∧
      pulled.length = steps.sum
  | .error _, _, p => p.remaining? = none

theorem draws_readSteps (steps : List Nat) : Draws (readSteps steps) (IsSteps steps) := by
  induction steps with
  | nil => exact .pure fun _ => ⟨⟨[], rfl, rfl⟩, rfl⟩
  | cons step steps ih =>
    unfold readSteps
    rw [readExact_eq]
    intro s hs
    refine (draws_readBlocks step step false (Nat.le_refl step) s hs).bind (fun _ _ _ h => h.elim)
      fun r bs s₁ hs₁ hr => ?_
    obtain ⟨ds, stop⟩ := r
    obtain ⟨⟨pieces, rfl, rfl⟩, -, hall⟩ := hr
    cases stop with
    | some stop => exact leaves_throw hs₁ hall
    | none =>
      refine (ih s₁ hs₁).bind (fun _ _ _ h => h) fun rest more s₂ hs₂ hm => ?_
      obtain ⟨⟨pieces', rfl, rfl⟩, hsum⟩ := hm
      refine ⟨[], .refl hs₂, ⟨pieces ++ pieces', by simp, by simp⟩, ?_⟩
      simp only at hall
      simp only [List.length_append, hall, hsum, List.length_nil, List.sum_cons, Nat.add_zero]

/-- The open frame tells what it owes; without one the question fails. -/
theorem draws_owed : Draws (ask Position.owed) fun o pulled p => match o with
    | .ok _ => pulled = []
    | .error _ => pulled = [] ∧ p.remaining? = none := by
  intro s hs
  unfold ask
  cases hp : s.position with
  | idle => exact ⟨[], .refl hs, rfl, hp ▸ rfl⟩
  | inFrame remaining => exact ⟨[], .refl hs, rfl⟩
  | poisoned => exact ⟨[], .refl hs, rfl, hp ▸ rfl⟩

/-- What handing out a payload tells of the pulled bytes. -/
def IsPayload : Except Stop (List UInt8) → List UInt8 → Position → Prop
  | .ok payload, pulled, _ => payload = pulled
  | .error _, _, p => p.remaining? = none

theorem draws_readPayload : Draws FramedStream.readPayload IsPayload := by
  refine draws_owed.bind (fun _ _ _ h => h.2) fun len bs _ hb => ?_
  obtain rfl : bs = [] := hb
  refine .get_bind fun s => ?_
  have hrest : Draws (do
      let ds ← readRounds s.limits len len 0
      return Delivery.overlay ds (List.replicate len 0)) IsPayload := by
    rw [readRounds_steps]
    refine (draws_readSteps _).bind (fun _ _ _ h => h) fun ds bs _ hd => .pure fun _ => ?_
    obtain ⟨⟨pieces, rfl, rfl⟩, hsum⟩ := hd
    rw [s.limits.sum_steps] at hsum
    change Delivery.overlay _ _ = _
    rw [Delivery.overlay_stored, List.drop_of_length_le (by simp [hsum]), List.append_nil]
  dsimp only
  split
  · refine (draws_poison _).bind (fun _ _ _ h => h.2 ▸ rfl) fun _ bs _ hb => ?_
    obtain ⟨rfl, -⟩ := hb
    exact hrest
  · exact hrest

/-! ### Opening and closing -/

/-- Headers are read between frames. -/
theorem readHeader_of_ne_idle {s : FramedStream} (h : s.position ≠ .idle) :
    ∃ v, FramedStream.readHeader s = .error (.failed (.frame v)) s := by
  cases hp : s.position with
  | idle => exact absurd hp h
  | inFrame remaining =>
    exact ⟨.nestedHeader remaining, bind_of_error (ask_of_error (by rw [hp]; rfl))⟩
  | poisoned =>
    exact ⟨.poisoned, bind_of_error (ask_of_error (by rw [hp]; rfl))⟩

theorem closeFrame_of_exhausted {s : FramedStream} (hp : s.position = .inFrame 0) :
    FramedStream.closeFrame s =
      .ok () { s with position := .idle, events := s.events.push .frameClosed } := by
  have hask : ask Position.close s = .ok .idle s := ask_of_ok (by rw [hp]; rfl)
  exact bind_of_ok hask

/-- A close either leaves the stream as it is or ends a frame that owed nothing. -/
theorem closeFrame_cases (s : FramedStream) :
    (∃ stop, FramedStream.closeFrame s = .error stop s) ∨
      s.position = .inFrame 0 ∧
        FramedStream.closeFrame s =
          .ok () { s with position := .idle, events := s.events.push .frameClosed } := by
  cases hp : s.position with
  | idle =>
    left
    exact ⟨.failed (.frame .noActiveFrame), bind_of_error (ask_of_error (by rw [hp]; rfl))⟩
  | inFrame remaining =>
    cases remaining with
    | zero => exact .inr ⟨rfl, closeFrame_of_exhausted hp⟩
    | succ remaining =>
      left
      exact ⟨.failed (.frame (.frameNotConsumed (remaining + 1))),
        bind_of_error (ask_of_error (by rw [hp]; rfl))⟩
  | poisoned =>
    left
    exact ⟨.failed (.frame .poisoned), bind_of_error (ask_of_error (by rw [hp]; rfl))⟩

end FramedStream

end Http3Framing
