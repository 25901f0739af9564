import Http3Framing.Proofs.Payload
import Mathlib.Order.Bounds.Defs

/-! The rounds in which a payload is read. Before each round the buffer is resized: to the initial size, or
to one byte if that is zero, and then to twice its size each time, but never beyond the payload. A round
ends when the buffer is full, and each of its reads asks for all that is missing. So whatever a header
announces, the buffer is at most twice as large as what has arrived, or as large as at first. -/

namespace Http3Framing

namespace Limits

variable (l : Limits) (len i : Nat)

/-- The size of the first buffer, if the payload is as large. -/
def firstSize : Nat := max l.initialBuffer 1

/-- The size of the buffer of a payload of `len` bytes after so many resizes. -/
def sizeAfter (len : Nat) : Nat → Nat
  | 0 => 0
  | i + 1 => min len (2 ^ i * l.firstSize)

theorem sizeAfter_le : l.sizeAfter len i ≤ len := by
  cases i with
  | zero => exact Nat.zero_le len
  | succ i => exact Nat.min_le_left _ _

theorem firstSize_le (i : Nat) : l.firstSize ≤ 2 ^ i * l.firstSize :=
  Nat.le_mul_of_pos_left _ (Nat.two_pow_pos i)

theorem double (i : Nat) : 2 ^ (i + 1) * l.firstSize = 2 * (2 ^ i * l.firstSize) := by
  rw [Nat.pow_succ, Nat.mul_comm (2 ^ i), Nat.mul_assoc]

variable {len i}

/-- A step makes the next size out of the one before. -/
theorem sizeAfter_add_nextStep (h : l.sizeAfter len i < len) :
    l.sizeAfter len i + l.nextStep (l.sizeAfter len i) (len - l.sizeAfter len i) =
      l.sizeAfter len (i + 1) := by
  have hstep (size left : Nat) : l.nextStep size left = min left (max size l.firstSize) := by
    simp only [nextStep, firstSize]
    omega
  cases i with
  | zero =>
    simp only [hstep, sizeAfter, Nat.pow_zero, Nat.one_mul]
    omega
  | succ i =>
    have hle := l.firstSize_le i
    simp only [hstep, sizeAfter, double] at h ⊢
    omega

/-- A resize at most doubles what is there, or sets the first size aside. -/
theorem sizeAfter_succ_le : l.sizeAfter len (i + 1) ≤ max (2 * l.sizeAfter len i) l.firstSize := by
  cases i with
  | zero =>
    simp only [sizeAfter, Nat.pow_zero, Nat.one_mul]
    omega
  | succ i =>
    simp only [sizeAfter, double]
    omega

/-- The first size that is no less than the payload is the last. -/
theorem isLeast_of_sizeAfter (hlt : l.sizeAfter len i < len) (hfull : l.sizeAfter len (i + 1) = len) :
    IsLeast {n | 1 ≤ n ∧ len ≤ 2 ^ (n - 1) * l.firstSize} (i + 1) := by
  constructor
  · exact ⟨Nat.succ_pos i, hfull ▸ Nat.min_le_right _ _⟩
  · rintro n ⟨hpos, hn⟩
    apply Nat.le_of_not_lt
    intro hni
    -- an earlier size is no larger than the one that was too small
    obtain ⟨j, rfl⟩ : ∃ j, i = j + 1 := ⟨i - 1, by omega⟩
    have hmono : 2 ^ (n - 1) * l.firstSize ≤ 2 ^ j * l.firstSize :=
      Nat.mul_le_mul_right _ (Nat.pow_le_pow_right (by decide) (by omega))
    simp only [sizeAfter] at hlt
    omega

end Limits

namespace Call

/-- Each of the calls is as `P` says of a call before which so many bytes are there, `k` before the first
of them. -/
def Each (P : Nat → Call → Prop) : Nat → List Call → Prop
  | _, [] => True
  | k, c :: calls => P k c ∧ Each P (k + c.delivered.length) calls

variable {P Q : Nat → Call → Prop} {k : Nat}

theorem each_append {cs ds : List Call} :
    Each P k (cs ++ ds) ↔ Each P k cs ∧ Each P (k + (cs.flatMap delivered).length) ds := by
  induction cs generalizing k with
  | nil => simp [Each]
  | cons c cs ih => simp [Each, ih, and_assoc, Nat.add_assoc]

theorem Each.mono {cs : List Call} (h : Each P k cs) (hpq : ∀ k c, P k c → Q k c) : Each Q k cs := by
  induction cs generalizing k with
  | nil => trivial
  | cons c cs ih => exact ⟨hpq k c h.1, ih h.2⟩

theorem Each.at {earlier later : List Call} {c : Call} (h : Each P k (earlier ++ c :: later)) :
    P (k + (earlier.flatMap delivered).length) c := (each_append.1 h).2.1

/-- A read for all that a buffer of `size` bytes is missing when `k` of them are there; `low` of them were
there when the buffer was resized. -/
def Completes (low size k : Nat) (c : Call) : Prop :=
  low ≤ k ∧ k < size ∧ ∃ answer, c = .read (size - k) answer

end Call

namespace Transport

open Call

/-- All calls of a read ask for the same, and only the last one brings something in. -/
theorem each_readFrom (chunk : Option Nat) {want low k : Nat} (hw : 1 ≤ want) (hl : low ≤ k)
    (events : List ReadEvent) (patience : Patience) :
    Each (Completes low (k + want)) k (readFrom true chunk want events patience).calls := by
  have hcall (answer : Poll Delivery) : Completes low (k + want) k (.read want answer) :=
    ⟨hl, by omega, answer, by rw [Nat.add_sub_cancel_left]⟩
  induction events generalizing patience with
  | nil => exact ⟨hcall _, trivial⟩
  | cons e events ih =>
    match e with
    | .pending =>
      simp only [readFrom, Exchange.wait]
      cases patience.spend with
      | none => exact ⟨hcall _, trivial⟩
      | some patience => exact ⟨hcall _, ih patience⟩
    | .failure cause =>
      simp only [readFrom]
      split
      · exact ⟨hcall _, ih patience⟩
      · exact ⟨hcall _, trivial⟩
    | .finish => exact ⟨hcall _, trivial⟩
    | .claim n => exact ⟨hcall _, trivial⟩
    | .data [] => exact ih patience
    | .data (b :: bs) => exact ⟨hcall _, trivial⟩

end Transport

namespace FramedStream

open FramingM Transport

section

variable {α β : Type}

/-- The stream that an action leaves, however it ends. -/
def left : EStateM.Result Stop FramedStream α → FramedStream
  | .ok _ s | .error _ s => s

/-- The action does not touch the transport. -/
def Idles (x : FramingM α) : Prop := ∀ s, (left (x s)).transport = s.transport

theorem left_bind {x : FramingM α} {f : α → FramingM β} (hf : ∀ a, Idles (f a)) (s : FramedStream) :
    (left ((x >>= f) s)).transport = (left (x s)).transport := by
  rw [bind_apply]
  cases x s with
  | ok a s₁ => exact hf a s₁
  | error stop s₁ => rfl

theorem Idles.bind {x : FramingM α} {f : α → FramingM β} (hx : Idles x) (hf : ∀ a, Idles (f a)) :
    Idles (x >>= f) := fun s => (left_bind hf s).trans (hx s)

theorem idles_ended (counted : Nat) : Idles (ended counted : FramingM α) := by
  intro s
  unfold ended
  cases s.position.cutShort? counted with
  | none => rfl
  | some v => exact transport_poisonedBy s _

theorem idles_consume (n : Nat) : Idles (consume n) := by
  intro s
  unfold consume
  cases s.position.consume n with
  | ok p => rfl
  | error v => exact transport_poisonedBy s _

theorem left_endBreaks (v : Violation) (x : FramingM α) (s : FramedStream) :
    (left (endBreaks v x s)).transport = (left (x s)).transport := by
  unfold endBreaks
  split
  · next hx =>
    rw [hx]
    exact transport_poisonedBy _ _
  · rfl

end

variable {s s₁ s' : FramedStream} {room owed low k len i size : Nat} {started : Bool}

/-! ### What the reads of a round ask for -/

/-- Inside a frame that owes as much, a block is one read for all of its room. -/
theorem each_nextBlock (started : Bool) (hp : s.position = .inFrame owed) (hr : 0 < room)
    (hle : room ≤ owed) (hl : low ≤ k) :
    ∃ made, (left (nextBlock started room s)).transport.calls.toList =
        s.transport.calls.toList ++ made ∧ Call.Each (Call.Completes low (k + room)) k made := by
  have hcap : s.position.cap room = room := by
    rw [hp]
    exact Nat.min_eq_left hle
  have hnext : (left (nextBlock started room s)).transport = (left (readBlock room s)).transport := by
    unfold nextBlock
    split
    · exact left_endBreaks _ _ s
    · rfl
  have hblock : (left (readBlock room s)).transport = (left (readOnce room s)).transport := by
    rw [readBlock_of_cap (by simp [hp]) (by omega), hcap]
    refine left_bind (fun d => ?_) s
    split
    · exact (idles_ended 0).bind fun _ => (idles_consume _).bind fun _ _ => rfl
    · exact (idles_consume _).bind fun _ _ => rfl
  have hcalls : (left (readOnce room s)).transport.calls = (s.past (s.nextRead room)).transport.calls := by
    rw [readOnce_eq s hr]
    cases (s.nextRead room).answer with
    | failed cause => exact congrArg Transport.calls (transport_poisonedBy _ _)
    | _ => rfl
  refine ⟨(s.nextRead room).calls, ?_, each_readFrom s.transport.chunk hr hl _ s.patience⟩
  rw [hnext, hblock, hcalls]
  simp [past, record]

/-- Such a block is a piece of what is missing, or the reading stops. -/
theorem nextBlock_completes (started : Bool) (hs : s.transport.Honest) (hp : s.position = .inFrame owed)
    (hr : 0 < room) (hle : room ≤ owed) (hl : low ≤ k) :
    (∃ piece s₁ made, readBlock room s = .ok (.stored piece) s₁ ∧ 0 < piece.length ∧
        piece.length ≤ room ∧ Pulls s s₁ made piece ∧
        Call.Each (Call.Completes low (k + room)) k made) ∨
      ∃ stop s₁ made, nextBlock started room s = .error stop s₁ ∧
        s₁.transport.calls.toList = s.transport.calls.toList ++ made ∧
        Call.Each (Call.Completes low (k + room)) k made := by
  have hcap : s.position.cap room = room := by
    rw [hp]
    exact Nat.min_eq_left hle
  have hw : 1 ≤ s.position.cap room := hcap.symm ▸ hr
  obtain ⟨made, hcalls, heach⟩ := each_nextBlock started hp hr hle hl
  rcases nextBlock_looks started hs (by simp [hp]) hw with
    ⟨piece, s₁, made', hx, hpiece, hlength, hpulls⟩ | ⟨stop, s₁, made', halt, hx, -⟩
  · rw [nextBlock_of_ok started hx] at hcalls
    obtain rfl : made = made' := List.append_cancel_left (hcalls.symm.trans hpulls.listens.calls)
    rw [hcap] at hlength
    exact .inl ⟨piece, s₁, made, hx, List.length_pos_iff.2 hpiece, hlength, hpulls, heach⟩
  · rw [hx] at hcalls
    exact .inr ⟨stop, s₁, made, hx, hcalls, heach⟩

/-- The blocks of a buffer ask for what is missing from it, one after the other. -/
theorem each_readBlocks (fuel room : Nat) (started : Bool) (s : FramedStream) (hs : s.transport.Honest)
    (hp : s.position = .inFrame owed) (hle : room ≤ owed) (hf : room ≤ fuel) (hl : low ≤ k)
    {r : List Delivery × Option Stop} (hx : readBlocks fuel room started s = .ok r s') :
    ∃ made, s'.transport.calls.toList = s.transport.calls.toList ++ made ∧
      Call.Each (Call.Completes low (k + room)) k made := by
  induction fuel generalizing room started s owed k r with
  | zero =>
    cases hx
    exact ⟨[], (List.append_nil _).symm, trivial⟩
  | succ fuel ih =>
    rcases Nat.eq_zero_or_pos room with rfl | hr
    · cases hx
      exact ⟨[], (List.append_nil _).symm, trivial⟩
    have hne : room ≠ 0 := Nat.ne_of_gt hr
    rcases nextBlock_completes started hs hp hr hle hl with
      ⟨piece, s₁, made, hy, hpos, hlength, hpulls, heach⟩ | ⟨stop, s₁, made, hy, hcalls, heach⟩
    · have hp₁ := hpulls.inFrame hp rfl
      have hs₁ := hpulls.honest hs
      obtain ⟨pieces, stop, s₂, hz, -⟩ := fills_readBlocks fuel (room - piece.length) true s₁ hs₁
        (by simp [hp₁]) (by omega)
      cases hx.symm.trans (readBlocks_of_piece started hne hlength hy hz)
      obtain ⟨more, hcalls, hmore⟩ :=
        ih (k := k + piece.length) (room - piece.length) true s₁ hs₁ hp₁ (by omega) (by omega)
          (Nat.le_add_right_of_le hl) hz
      -- the buffer is the same, only that more of it is there
      have hsize : k + piece.length + (room - piece.length) = k + room := by omega
      rw [hsize] at hmore
      refine ⟨made ++ more, ?_, Call.each_append.2 ⟨heach, hpulls.brought ▸ hmore⟩⟩
      rw [hcalls, hpulls.listens.calls, List.append_assoc]
    · cases hx.symm.trans (readBlocks_of_error hne hy)
      exact ⟨made, hcalls, heach⟩

/-! ### Rounds -/

/-- In reading a payload of `len` bytes from `s` on, so many rounds are over when the stream is at `s₁`,
and the buffer has so many bytes. Another round follows as long as the payload is larger: the buffer is
resized by the next step, and what is new of it is filled. -/
inductive Rounds (len : Nat) (s : FramedStream) : Nat → Nat → FramedStream → Prop
  | start : Rounds len s 0 0 s
  | next {i size : Nat} {s₁ s₂ : FramedStream} {ds : List Delivery} (before : Rounds len s i size s₁)
    (short : size < len)
    (filled : FramedStream.readExact (s.limits.nextStep size (len - size)) s₁ = .ok (ds, none) s₂) :
    Rounds len s (i + 1) (size + s.limits.nextStep size (len - size)) s₂

theorem Rounds.size_eq (h : Rounds len s i size s₁) : size = s.limits.sizeAfter len i := by
  induction h with
  | start => rfl
  | next before short filled ih =>
    subst ih
    exact s.limits.sizeAfter_add_nextStep short

theorem Rounds.size_le (h : Rounds len s i size s₁) : size ≤ len :=
  h.size_eq ▸ s.limits.sizeAfter_le len i

/-- The size that the next resize gives the buffer. -/
theorem Rounds.resized (h : Rounds len s i size s₁) (hlt : size < len) :
    size + s.limits.nextStep size (len - size) = s.limits.sizeAfter len (i + 1) := by
  obtain rfl := h.size_eq
  exact s.limits.sizeAfter_add_nextStep hlt

/-- A resize makes the buffer no larger than twice what has arrived by then, or later, or than at first. -/
theorem Rounds.resized_le (h : Rounds len s i size s₁) (hlt : size < len) (hk : size ≤ k) :
    size + s.limits.nextStep size (len - size) ≤ max (2 * k) s.limits.firstSize := by
  have hgrown : s.limits.sizeAfter len (i + 1) ≤ max (2 * s.limits.sizeAfter len i) s.limits.firstSize :=
    s.limits.sizeAfter_succ_le
  rw [← h.size_eq] at hgrown
  rw [h.resized hlt]
  omega

/-- There are as few rounds as reach the payload. -/
theorem Rounds.least (h : Rounds len s i size s₁) (hfull : size = len) : (len = 0 → i = 0) ∧
    (0 < len → IsLeast {n | 1 ≤ n ∧ len ≤ 2 ^ (n - 1) * s.limits.firstSize} i) := by
  cases h with
  | start => exact ⟨fun _ => rfl, fun hpos => by omega⟩
  | next before short filled =>
    obtain rfl := before.size_eq
    rw [s.limits.sizeAfter_add_nextStep short] at hfull
    exact ⟨fun hnone => by omega, fun _ => s.limits.isLeast_of_sizeAfter short hfull⟩

/-- A call of the reading of a payload before which `k` bytes of it are there: it belongs to the round that
these bytes have not filled yet. -/
def InRound (len : Nat) (s : FramedStream) (k : Nat) (c : Call) : Prop :=
  ∃ i size s₁, Rounds len s i size s₁ ∧ size < len ∧
    Call.Completes size (size + s.limits.nextStep size (len - size)) k c

/-- A call asks for no more than the payload is missing, and for no more than is there or was at first. -/
theorem InRound.asks {c : Call} (h : InRound len s k c) :
    ∃ i size s₁ want answer, c = .read want answer ∧ Rounds len s i size s₁ ∧ size < len ∧
      let buffer := size + s.limits.nextStep size (len - size)
      size ≤ k ∧ k < buffer ∧ want = buffer - k ∧
        want ≤ min (len - k) (max k s.limits.firstSize) ∧
        buffer ≤ max (2 * k) s.limits.firstSize := by
  obtain ⟨i, size, s₁, hrounds, hlt, hlow, hk, answer, hc⟩ := h
  have hstep := s.limits.nextStep_le size (len - size)
  have hresized := hrounds.resized_le hlt (Nat.le_refl size)
  exact ⟨i, size, s₁, _, answer, hc, hrounds, hlt, hlow, hk, rfl, by omega, by omega⟩

/-- What comes of the next round: the buffer is filled, or the reading stops. -/
theorem Rounds.round (h : Rounds len s i size s₁) (hlt : size < len) (hs : s₁.transport.Honest)
    (hp : s₁.position = .inFrame (len - size)) :
    ∃ pieces stop s', FramedStream.readExact (s.limits.nextStep size (len - size)) s₁ =
        .ok (pieces.map .stored, stop) s' ∧
      Fills (s.limits.nextStep size (len - size)) false s₁ pieces stop s' ∧
      ∃ made, s'.transport.calls.toList = s₁.transport.calls.toList ++ made ∧
        Call.Each (InRound len s) size made := by
  have hstep := s.limits.nextStep_le size (len - size)
  rw [readExact_eq]
  obtain ⟨pieces, stop, s', hx, hfills⟩ := fills_readBlocks _ (s.limits.nextStep size (len - size)) false
    s₁ hs (by simp [hp]) (Nat.le_refl _)
  obtain ⟨made, hcalls, heach⟩ := each_readBlocks _ _ false s₁ hs hp hstep (Nat.le_refl _)
    (Nat.le_refl size) hx
  exact ⟨pieces, stop, s', hx, hfills, made, hcalls,
    heach.mono fun k c hc => ⟨i, size, s₁, h, hlt, hc⟩⟩

/-- The rounds that are over have brought in what fills the buffer, and nothing else. -/
theorem Rounds.pulls (hs : s.transport.Honest) (hp : s.position = .inFrame len)
    (h : Rounds len s i size s₁) :
    ∃ made bs, Pulls s s₁ made bs ∧ bs.length = size ∧ Call.Each (InRound len s) 0 made := by
  induction h with
  | start => exact ⟨[], [], .refl s, rfl, trivial⟩
  | @next i size s₁ s₂ ds before short filled ih =>
    obtain ⟨made, bs, hpulls, hlength, heach⟩ := ih
    obtain ⟨pieces, stop, s', hx, hfills, more, hcalls, heach'⟩ :=
      before.round short (hpulls.honest hs) (hpulls.inFrame hp hlength)
    cases filled.symm.trans hx
    obtain ⟨hfull, made', hpulls'⟩ := hfills.full
    obtain rfl : more = made' := List.append_cancel_left (hcalls.symm.trans hpulls'.listens.calls)
    refine ⟨made ++ more, bs ++ pieces.flatten, hpulls.trans hpulls', ?_, ?_⟩
    · rw [List.length_append, hlength, hfull]
    · rw [Call.each_append, hpulls.brought, hlength, Nat.zero_add]
      exact ⟨heach, heach'⟩

/-- The reading goes on round by round until the buffer has the whole payload or a round is not filled. -/
theorem Rounds.readRounds (hs : s.transport.Honest) (hp : s.position = .inFrame len) (fuel : Nat)
    (h : Rounds len s i size s₁) (hf : len - size ≤ fuel) :
    (∃ ds s' j, readRounds s.limits len fuel size s₁ = .ok ds s' ∧ Rounds len s j len s') ∨
      ∃ stop s' ds j size' s₂, readRounds s.limits len fuel size s₁ = .error stop s' ∧
        Rounds len s j size' s₂ ∧ size' < len ∧
        FramedStream.readExact (s.limits.nextStep size' (len - size')) s₂ = .ok (ds, some stop) s' := by
  induction fuel generalizing i size s₁ with
  | zero =>
    obtain rfl : size = len := Nat.le_antisymm h.size_le (by omega)
    exact .inl ⟨[], s₁, i, rfl, h⟩
  | succ fuel ih =>
    rcases Nat.lt_or_eq_of_le h.size_le with hlt | rfl
    · obtain ⟨made, bs, hpulls, hlength, -⟩ := h.pulls hs hp
      obtain ⟨pieces, stop, s₂, hx, -, -⟩ :=
        h.round hlt (hpulls.honest hs) (hpulls.inFrame hp hlength)
      have hpos := s.limits.nextStep_pos size (Nat.sub_pos_of_lt hlt)
      rw [FramedStream.readRounds, if_neg (Nat.not_le_of_lt hlt)]
      dsimp only
      rw [Nat.add_sub_cancel_left, bind_of_ok hx]
      cases stop with
      | some stop => exact .inr ⟨stop, s₂, pieces.map .stored, i, size, s₁, rfl, h, hlt, hx⟩
      | none =>
        have hmore := Rounds.next h hlt hx
        rcases ih hmore (by omega) with ⟨ds, s', j, hy, hdone⟩ |
          ⟨stop, s', ds, j, size', s₃, hy, hstopped, hlt', hcut⟩
        · exact .inl ⟨_, s', j, bind_of_ok hy, hdone⟩
        · exact .inr ⟨stop, s', ds, j, size', s₃, bind_of_error hy, hstopped, hlt', hcut⟩
    · rw [FramedStream.readRounds, if_pos (Nat.le_refl size)]
      exact .inl ⟨[], s₁, i, rfl, h⟩

/-- The reading of a payload within the limit: all rounds are filled, or the last of them is not. -/
theorem rounds_readPayload (hs : s.transport.Honest) (hp : s.position = .inFrame len)
    (hle : len ≤ s.limits.maxPayload) :
    ∃ s' made i size, s'.transport.calls.toList = s.transport.calls.toList ++ made ∧
      Call.Each (InRound len s) 0 made ∧
      ((∃ payload, FramedStream.readPayload s = .ok payload s' ∧ payload.length = len ∧ size = len ∧
          Rounds len s i size s') ∨
        ∃ stop ds s₁, FramedStream.readPayload s = .error stop s' ∧ Rounds len s i size s₁ ∧ size < len ∧
          FramedStream.readExact (s.limits.nextStep size (len - size)) s₁ = .ok (ds, some stop) s') := by
  have hwhole := readPayload_of_inFrame hp hle
  rcases Rounds.readRounds hs hp len .start (Nat.le_refl _) with
    ⟨ds, s', i, hx, hrounds⟩ | ⟨stop, s', ds, i, size, s₁, hx, hrounds, hlt, hcut⟩
  · obtain ⟨made, bs, hpulls, -, heach⟩ := hrounds.pulls hs hp
    obtain ⟨pieces, stop, s₂, hfilled, hfills⟩ := fills_readPayload hs hp hle
    have hsame := (hwhole.trans (bind_of_ok hx)).symm.trans hfilled
    cases stop with
    | some stop => cases hsame
    | none =>
      obtain rfl : s' = s₂ := (EStateM.Result.ok.inj hsame).2
      exact ⟨s', made, i, len, hpulls.listens.calls, heach,
        .inl ⟨_, hfilled, hfills.full.1, rfl, hrounds⟩⟩
  · obtain ⟨made, bs, hpulls, hlength, heach⟩ := hrounds.pulls hs hp
    obtain ⟨pieces, stop', s₂, hcut', -, more, hcalls, heach'⟩ :=
      hrounds.round hlt (hpulls.honest hs) (hpulls.inFrame hp hlength)
    cases hcut.symm.trans hcut'
    refine ⟨s', made ++ more, i, size, ?_, ?_, .inr ⟨stop, _, s₁, hwhole.trans (bind_of_error hx),
      hrounds, hlt, hcut⟩⟩
    · rw [hcalls, hpulls.listens.calls, List.append_assoc]
    · rw [Call.each_append, hpulls.brought, hlength, Nat.zero_add]
      exact ⟨heach, heach'⟩

/-- The buffer of a payload is never far ahead of what has arrived. Every resize makes it as large as the
payload or a power of two times the first size, and all bytes of the size before have arrived then. If
every round is filled there are as few of them as reach the payload; otherwise the reading stops in the
first that is not. Each read asks for what the buffer is missing: no more than the payload is, and no more
than has arrived or the first size. -/
theorem buffer_follows_data (hs : s.transport.Honest) (hp : s.position = .inFrame len)
    (hle : len ≤ s.limits.maxPayload) (patience : Patience) :
    let a := max s.limits.initialBuffer 1
    let s₀ : FramedStream := { s with patience := s.flavour.patience patience }
    let result := (Request.perform ⟨.readPayload, patience⟩ s).1.result
    let after := (Request.perform ⟨.readPayload, patience⟩ s).2.transport
    (∀ i size s₁, Rounds len s₀ i size s₁ →
      s₁.transport.delivered.length = s.transport.delivered.length + size ∧
      (1 ≤ i → size = min len (2 ^ (i - 1) * a)) ∧
      (size < len → size + s.limits.nextStep size (len - size) = min len (2 ^ i * a) ∧
        ∀ k, size ≤ k → size + s.limits.nextStep size (len - size) ≤ max (2 * k) a)) ∧
    ((∃ payload i s', result = .ok (.payload payload) ∧ payload.length = len ∧
        Rounds len s₀ i len s' ∧ s'.transport = after ∧ (len = 0 → i = 0) ∧
        (0 < len → IsLeast {n | 1 ≤ n ∧ len ≤ 2 ^ (n - 1) * a} i)) ∨
      ∃ stop i size s₁ ds s', result = .stopped stop ∧ Rounds len s₀ i size s₁ ∧ size < len ∧
        FramedStream.readExact (s.limits.nextStep size (len - size)) s₁ = .ok (ds, some stop) s' ∧
        s'.transport = after) ∧
    ∃ made, after.calls.toList = s.transport.calls.toList ++ made ∧
      ∀ earlier c later, made = earlier ++ c :: later →
        let k := (earlier.flatMap Call.delivered).length
        ∃ i size s₁ want answer, c = .read want answer ∧ Rounds len s₀ i size s₁ ∧ size < len ∧
          let buffer := size + s.limits.nextStep size (len - size)
          size ≤ k ∧ k < buffer ∧ want = buffer - k ∧ want ≤ min (len - k) (max k a) ∧
            buffer ≤ max (2 * k) a := by
  intro a s₀ result after
  have hs₀ : s₀.transport.Honest := hs
  have hp₀ : s₀.position = .inFrame len := hp
  have hrequest (payload : List UInt8) (stop : Option Stop) (s' : FramedStream)
      (hx : FramedStream.readPayload s₀ = stop.elim (.ok payload s') (.error · s')) :
      result = stop.elim (.ok (.payload payload)) .stopped ∧ after = s'.transport := by
    simp only [result, after, Request.perform]
    rw [perform_readPayload hx]
    exact ⟨rfl, rfl⟩
  refine ⟨fun i size s₁ h => ⟨?_, fun hi => ?_, fun hlt => ⟨h.resized hlt, fun k hk =>
    h.resized_le hlt hk⟩⟩, ?_⟩
  · obtain ⟨made, bs, hpulls, hlength, -⟩ := h.pulls hs₀ hp₀
    rw [hpulls.listens.delivered, hpulls.brought, List.length_append, hlength]
  · obtain ⟨j, rfl⟩ : ∃ j, i = j + 1 := ⟨i - 1, by omega⟩
    exact h.size_eq
  · obtain ⟨s', made, i, size, hcalls, heach, hends⟩ := rounds_readPayload hs₀ hp₀ hle
    have hmade : ∀ earlier c later, made = earlier ++ c :: later →
        InRound len s₀ (earlier.flatMap Call.delivered).length c := by
      rintro earlier c later rfl
      simpa using heach.at
    rcases hends with ⟨payload, hx, hlength, rfl, hrounds⟩ | ⟨stop, ds, s₁, hx, hrounds, hlt, hcut⟩
    · obtain ⟨hresult, hafter⟩ := hrequest payload none s' hx
      obtain ⟨hnone, hleast⟩ := hrounds.least rfl
      exact ⟨.inl ⟨payload, i, s', hresult, hlength, hrounds, hafter.symm, hnone, hleast⟩, made,
        hafter ▸ hcalls, fun earlier c later heq => (hmade earlier c later heq).asks⟩
    · obtain ⟨hresult, hafter⟩ := hrequest [] (some stop) s' hx
      exact ⟨.inr ⟨stop, i, size, s₁, ds, s', hresult, hrounds, hlt, hcut, hafter.symm⟩, made,
        hafter ▸ hcalls, fun earlier c later heq => (hmade earlier c later heq).asks⟩

/-- A frame that announces a thousand bytes and is cut after seven, read into eight. -/
theorem buffer_follows_data_cut : ∃ (s s₁ : FramedStream) (i size : Nat),
    s = { ofTransport .suspending ⟨4096, 2⟩
      { reads := [.data [1, 2, 3], .pending, .data [4, 5, 6, 7], .finish], chunk := some 3 } with
      position := .inFrame 1000 } ∧ s.transport.Honest ∧
      (Request.perform ⟨.readPayload, none⟩ s).1.result =
        .stopped (.failed (.frame (.truncatedFrame 993))) ∧
      Rounds 1000 s i size s₁ ∧ size ≤ 7 ∧ size + s.limits.nextStep size (1000 - size) = 8 := by
  let t : Transport := {
    reads := [.data [1, 2, 3], .pending, .data [4, 5, 6, 7], .finish]
    chunk := some 3 }
  let s : FramedStream := { ofTransport .suspending ⟨4096, 2⟩ t with position := .inFrame 1000 }
  have hs : s.transport.Honest := by simp [s, t, ofTransport, Transport.Honest]
  have hresult : (Request.perform ⟨.readPayload, none⟩ s).1.result =
      .stopped (.failed (.frame (.truncatedFrame 993))) := by decide +kernel
  let earlier : List Call := [.read 2 (.ready (.stored [1, 2])), .read 2 (.ready (.stored [3])),
    .read 1 .pending, .read 1 (.ready (.stored [4])), .read 4 (.ready (.stored [5, 6, 7]))]
  have hcalls : (Request.perform ⟨.readPayload, none⟩ s).2.transport.calls.toList =
      earlier ++ [.read 1 (.ready (.stored []))] := by decide +kernel
  obtain ⟨-, -, made, hmade, hall⟩ := buffer_follows_data hs rfl (by decide) none
  obtain ⟨i, size, s₁, want, answer, hc, hrounds, -, hlow, hk, hwant, -, -⟩ :=
    hall earlier _ [] (hmade.symm.trans hcalls)
  cases hc
  change size ≤ 7 at hlow
  change 1 = size + s.limits.nextStep size (1000 - size) - 7 at hwant
  exact ⟨s, s₁, i, size, rfl, hs, hresult, hrounds, hlow, by omega⟩

end FramedStream

end Http3Framing
