import Http3Framing.Proofs.Drawing

/-! What a byte and a block account for. A byte is counted before it is read and a block when it has
arrived; either way what is handed out is what was pulled, and a read that fails has pulled
nothing. Each of the two can end in three ways, told apart by what the read met. -/

namespace Http3Framing

open Transport

namespace FramedStream

open FramingM

theorem Reads.of_charge {s s' : FramedStream} {p : Position} {want : Nat}
    {answer : Answer Delivery} {bs : List UInt8} (h : s.Attended)
    (hr : Reads want { s with position := p } s' answer bs) : Reads want s s' answer bs := by
  obtain ⟨made, hm, hb, hw⟩ := hr.moves
  have hcharge : Moves s { s with position := p } [] := .of_eq h rfl rfl rfl rfl
  exact ⟨⟨made, hcharge.trans hm, hb, hw⟩, hr.meets⟩

theorem Reads.of_eq {s s₁ s₂ : FramedStream} {want : Nat} {answer : Answer Delivery}
    {bs : List UInt8} (hr : Reads want s s₁ answer bs) (h : Moves s₁ s₂ [])
    (ht : s₂.transport = s₁.transport) : Reads want s s₂ answer bs := by
  obtain ⟨made, hm, hb, hw⟩ := hr.moves
  refine ⟨⟨made, ?_, hb, hw⟩, ?_⟩
  · simpa using hm.trans h
  · rw [ht]
    exact hr.meets

theorem Reads.attended {s s' : FramedStream} {want : Nat} {answer : Answer Delivery}
    {bs : List UInt8} (hr : Reads want s s' answer bs) : s'.Attended := by
  obtain ⟨_, hm, _⟩ := hr.moves
  exact hm.attended

/-- A read that keeps to what the position allows. -/
theorem Reads.advances {s s' : FramedStream} {want : Nat} {answer : Answer Delivery}
    {bs : List UInt8} (hr : Reads want s s' answer bs) (hu : s.position ≠ .poisoned)
    (hcap : s.position.cap want = want)
    (hp : s'.position = .poisoned ∨ s.position.consume bs.length = .ok s'.position) :
    Advances s s' bs := by
  obtain ⟨made, hm, rfl, hw⟩ := hr.moves
  refine ⟨⟨made, hm, rfl, ?_⟩, hp⟩
  cases hs : s.position with
  | idle => trivial
  | inFrame remaining =>
    rw [hs] at hcap
    exact hw remaining (hcap ▸ Position.cap_inFrame_le want remaining)
  | poisoned => exact absurd hs hu

/-! ### A byte -/

theorem readByte_of_poisoned {s : FramedStream} (h : s.position = .poisoned) :
    FramedStream.readByte s = .error (.failed (.frame .poisoned)) s := by
  simp only [FramedStream.readByte, bind_apply, ask, h, Position.usable]

theorem readByte_of_exhausted {s : FramedStream} (h : s.position = .inFrame 0) :
    FramedStream.readByte s = .error (.failed (.frame (.limitExceeded 1 0)))
      (s.poisonedBy (.frame (.limitExceeded 1 0))) := by
  simp only [FramedStream.readByte, bind_apply, ask, h, Position.usable, consume,
    Position.consume_inFrame_of_lt Nat.zero_lt_one, poison]

theorem readByte_of_consume {s : FramedStream} {p : Position}
    (h : s.position.consume 1 = .ok p) :
    FramedStream.readByte s = (do
      let d ← readOnce 1
      if d.count = 0 then ended 1
      return firstByte d) { s with position := p } := by
  simp only [FramedStream.readByte, bind_apply, ask,
    Position.usable_eq (Position.ne_poisoned_of_consume h), consume, h]

/-- The end of the stream, met by a read of which `counted` bytes are already counted. -/
theorem ended_of_consume {α : Type} {s : FramedStream} {p : Position} {counted : Nat}
    (h : p.consume counted = .ok s.position) :
    ∃ s', (ended counted : FramingM α) s = .error (.failed p.endFailure) s' ∧
      s'.transport = s.transport ∧ s'.position = p.afterEnd ∧ (s.Attended → Moves s s' []) := by
  cases p with
  | idle =>
    have hp : s.position = .idle := (Except.ok.inj h).symm
    refine ⟨s, ?_, rfl, hp, Moves.refl⟩
    simp only [ended, hp, Position.cutShort?, fail]
    rfl
  | inFrame remaining =>
    obtain ⟨hle, hp⟩ := Position.le_of_consume_inFrame h
    let f : Failure := .frame (.truncatedFrame remaining)
    refine ⟨s.poisonedBy f, ?_, s.transport_poisonedBy f, s.position_poisonedBy f,
      fun hs => (Moves.refl hs).poisonedBy f⟩
    simp only [ended, hp, Position.cutShort?, poison, Nat.sub_add_cancel hle]
    rfl
  | poisoned => cases h

/-- A byte that can be counted arrives, or the stream is at its end, or the transport fails. -/
theorem readByte_cases {s : FramedStream} {p : Position} (h : s.Attended)
    (hc : s.position.consume 1 = .ok p) :
    (∃ b s', FramedStream.readByte s = .ok b s' ∧ Reads 1 s s' (.done (.stored [b])) [b] ∧
        s'.position = p) ∨
      (∃ s', FramedStream.readByte s = .error (.failed s.position.endFailure) s' ∧
        Reads 1 s s' (.done (.stored [])) [] ∧ s'.position = s.position.afterEnd) ∨
      ∃ cause s', FramedStream.readByte s = .error (.failed (.transport cause)) s' ∧
        Reads 1 s s' (.failed cause) [] ∧ s'.position = .poisoned := by
  have hcharge : Moves s { s with position := p } [] := .of_eq h rfl rfl rfl rfl
  rw [readByte_of_consume hc]
  rcases readOnce_cases hcharge.attended (Nat.le_refl 1) with
    ⟨bs, s₁, hx, hle, hread, hp⟩ | ⟨cause, s₁, hx, hread, hp⟩
  · rw [bind_of_ok hx]
    have hread := hread.of_charge h
    match bs with
    | [] =>
      -- nothing arrived: the byte counted beforehand is still owed
      obtain ⟨s₂, he, ht, hp₂, hm⟩ :=
        ended_of_consume (α := PUnit) (s := s₁) (hc.trans (congrArg Except.ok hp.symm))
      exact .inr (.inl ⟨s₂, bind_of_error he, hread.of_eq (hm hread.attended) ht, hp₂⟩)
    | [b] =>
      exact .inl ⟨b, s₁, rfl, hread, hp⟩
    | _ :: _ :: _ => simp at hle
  · rw [bind_of_error hx]
    exact .inr (.inr ⟨cause, s₁, rfl, hread.of_charge h, hp⟩)

/-- What handing out a byte tells of the pulled bytes. A read that fails leaves no frame open. -/
def IsByte : Except Stop UInt8 → List UInt8 → Position → Prop
  | .ok b, pulled, _ => pulled = [b]
  | .error _, pulled, p => pulled = [] ∧ p.remaining? = none

theorem draws_readByte : Draws FramedStream.readByte IsByte := by
  intro s hs
  rcases s.position.byte_cases with hp | hp | ⟨p, hc, hcap⟩
  · rw [readByte_of_poisoned hp]
    exact ⟨[], .refl hs, rfl, hp ▸ rfl⟩
  · rw [readByte_of_exhausted hp]
    exact ⟨[], .poisonedBy hs _, rfl, s.position_poisonedBy _ ▸ rfl⟩
  · have hu := Position.ne_poisoned_of_consume hc
    rcases readByte_cases hs hc with
      ⟨b, s', hx, hread, hp⟩ | ⟨s', hx, hread, hp⟩ | ⟨cause, s', hx, hread, hp⟩
    · rw [hx]
      exact ⟨[b], hread.advances hu hcap (.inr (hp ▸ hc)), rfl⟩
    · rw [hx]
      exact ⟨[], hread.advances hu hcap (hp ▸ Position.afterEnd_cases hu), rfl,
        hp ▸ s.position.remaining?_afterEnd⟩
    · rw [hx]
      exact ⟨[], hread.advances hu hcap (.inl hp), rfl, hp ▸ rfl⟩

/-! ### A block -/

theorem readBlock_of_poisoned {s : FramedStream} (room : Nat) (h : s.position = .poisoned) :
    readBlock room s = .error (.failed (.frame .poisoned)) s := by
  simp only [readBlock, bind_apply, ask, h, Position.usable]

theorem readBlock_zero {s : FramedStream} (h : s.position ≠ .poisoned) :
    readBlock 0 s = .ok (.stored []) s := by
  simp only [readBlock, bind_apply, ask, Position.usable_eq h, if_true, pure_apply]

theorem readBlock_of_exhausted {s : FramedStream} {room : Nat} (hr : 0 < room)
    (h : s.position = .inFrame 0) :
    readBlock room s = .error (.failed (.frame (.limitExceeded room 0)))
      (s.poisonedBy (.frame (.limitExceeded room 0))) := by
  have hne : room ≠ 0 := by omega
  simp only [readBlock, bind_apply, ask, h, Position.usable, if_neg hne, Position.cap,
    Nat.min_zero, if_true, consume, Position.consume_inFrame_of_lt hr, poison]

theorem readBlock_of_cap {s : FramedStream} {room : Nat} (hu : s.position ≠ .poisoned)
    (hw : 1 ≤ s.position.cap room) :
    readBlock room s = (do
      let d ← readOnce (s.position.cap room)
      if d.count = 0 then ended 0
      consume d.count
      return d) s := by
  have hr : room ≠ 0 := by
    have := s.position.cap_le room
    omega
  have hw' : s.position.cap room ≠ 0 := by omega
  simp only [readBlock, bind_apply, ask, Position.usable_eq hu, if_neg hr, if_neg hw']

/-- A block arrives and is counted, or the stream is at its end, or the transport fails. -/
theorem readBlock_cases {s : FramedStream} {room : Nat} (h : s.Attended)
    (hu : s.position ≠ .poisoned) (hw : 1 ≤ s.position.cap room) :
    (∃ bs s', readBlock room s = .ok (.stored bs) s' ∧ bs ≠ [] ∧
        bs.length ≤ s.position.cap room ∧
        Reads (s.position.cap room) s s' (.done (.stored bs)) bs ∧
        s.position.consume bs.length = .ok s'.position) ∨
      (∃ s', readBlock room s = .error (.failed s.position.endFailure) s' ∧
        Reads (s.position.cap room) s s' (.done (.stored [])) [] ∧
        s'.position = s.position.afterEnd) ∨
      ∃ cause s', readBlock room s = .error (.failed (.transport cause)) s' ∧
        Reads (s.position.cap room) s s' (.failed cause) [] ∧
        s'.position = .poisoned := by
  rw [readBlock_of_cap hu hw]
  rcases readOnce_cases h hw with ⟨bs, s₁, hx, hle, hread, hp⟩ | ⟨cause, s₁, hx, hread, hp⟩
  · rw [bind_of_ok hx]
    match bs with
    | [] =>
      have hc : s.position.consume 0 = .ok s₁.position := by
        rw [hp]
        exact Position.consume_zero hu
      obtain ⟨s₂, he, ht, hp₂, hm⟩ := ended_of_consume (α := PUnit) hc
      exact .inr (.inl ⟨s₂, bind_of_error he, hread.of_eq (hm hread.attended) ht, hp₂⟩)
    | b :: bs =>
      -- the block is counted where the stream stood before it
      obtain ⟨q, hq⟩ : ∃ q, s.position.consume (b :: bs).length = .ok q :=
        Position.consume_of_le_cap hu hle
      let s₂ : FramedStream := { s₁ with position := q }
      have hcount : consume (b :: bs).length s₁ = .ok () s₂ := by
        simp only [consume, hp, hq, s₂]
      refine .inl ⟨b :: bs, s₂, bind_of_ok hcount, List.cons_ne_nil b bs, hle, ?_, hq⟩
      exact hread.of_eq (.of_eq hread.attended rfl rfl rfl rfl) rfl
  · rw [bind_of_error hx]
    exact .inr (.inr ⟨cause, s₁, rfl, hread, hp⟩)

/-- What handing out a block tells of the pulled bytes. -/
def IsBlock (room : Nat) : Except Stop Delivery → List UInt8 → Position → Prop
  | .ok d, pulled, _ => d = .stored pulled ∧ pulled.length ≤ room ∧ (0 < room → pulled ≠ [])
  | .error _, pulled, p => pulled = [] ∧ p.remaining? = none

theorem draws_readBlock (room : Nat) : Draws (readBlock room) (IsBlock room) := by
  intro s hs
  rcases Nat.eq_zero_or_pos room with rfl | hr
  · by_cases hu : s.position = .poisoned
    · rw [readBlock_of_poisoned 0 hu]
      exact ⟨[], .refl hs, rfl, hu ▸ rfl⟩
    · rw [readBlock_zero hu]
      exact ⟨[], .refl hs, rfl, Nat.le_refl 0, fun h => absurd h (Nat.lt_irrefl 0)⟩
  · rcases s.position.block_cases hr with hp | hp | ⟨hu, hw⟩
    · rw [readBlock_of_poisoned room hp]
      exact ⟨[], .refl hs, rfl, hp ▸ rfl⟩
    · rw [readBlock_of_exhausted hr hp]
      exact ⟨[], .poisonedBy hs _, rfl, s.position_poisonedBy _ ▸ rfl⟩
    · have hcap := s.position.cap_cap room
      have hle := s.position.cap_le room
      rcases readBlock_cases hs hu hw with
        ⟨bs, s', hx, hne, hb, hread, hp⟩ | ⟨s', hx, hread, hp⟩ | ⟨cause, s', hx, hread, hp⟩
      · rw [hx]
        exact ⟨bs, hread.advances hu hcap (.inr hp), rfl, Nat.le_trans hb hle, fun _ => hne⟩
      · rw [hx]
        exact ⟨[], hread.advances hu hcap (hp ▸ Position.afterEnd_cases hu), rfl,
          hp ▸ s.position.remaining?_afterEnd⟩
      · rw [hx]
        exact ⟨[], hread.advances hu hcap (.inl hp), rfl, hp ▸ rfl⟩

end FramedStream

end Http3Framing
