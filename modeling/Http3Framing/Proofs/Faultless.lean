import Http3Framing.Proofs.Following
import Http3Framing.Proofs.Canonical
import Http3Framing.Proofs.Bookkeeping

/-! No run of a stream meets a fault. Each checked step follows the plain one from streams that are as they
should be: an open frame owes no more than its header announced, so no difference is too small and no sum too
large; a block is no larger than the part of the buffer it was read into; a header is met between frames
only; and no counter is larger than what it counts. So every operation leaves such a stream behind, and a
run goes from one to the next. -/

namespace Http3Framing

open Transport

namespace Stats

/-- A sum that fits into the word of a counter. -/
theorem toNat_add_ofNat {w : UInt64} {k : Nat} (h : w.toNat + k < 2 ^ 64) :
    (w + UInt64.ofNat k).toNat = w.toNat + k := by
  have hk : k % 2 ^ 64 = k := Nat.mod_eq_of_lt (by omega)
  rw [UInt64.toNat_add, UInt64.toNat_ofNat', hk, Nat.mod_eq_of_lt h]

end Stats

namespace Position

theorem idle_of_betweenFrames {p : Position} {u : Unit} (h : p.betweenFrames = .ok u) : p = .idle := by
  cases p with
  | idle => rfl
  | _ => cases h

theorem inFrame_of_owed {p : Position} {len : Nat} (h : p.owed = .ok len) : p = .inFrame len := by
  cases p with
  | inFrame remaining => exact congrArg inFrame (Except.ok.inj h)
  | _ => cases h

end Position

namespace FramedStream

open FramingM

variable {n ahead counted k : Nat} {s : FramedStream} {made : List Call}

/-! ### Reading -/

theorem follows_consume (k : Nat) : Follows n (Sound n ahead counted) (Checked.consume k) (consume k)
    fun _ s => Sound n ahead (counted + k) s where
  grows s := (idles_consume k s) ▸ List.prefix_rfl
  agrees s hs _ := by
    unfold Checked.consume consume Position.consume
    cases hp : s.position with
    | idle =>
      have hsame : { s with position := .idle } = s := by rw [← hp]
      refine ⟨by simp only [hsame], { hs with frame := fun remaining hr => ?_ }⟩
      cases hr
    | poisoned => exact ⟨rfl, hs.weaken.poisonedBy _ _⟩
    | inFrame remaining =>
      by_cases hlt : remaining < k
      · simp only [if_pos hlt]
        exact ⟨rfl, hs.weaken.poisonedBy _ _⟩
      · simp only [if_neg hlt, Checked.sub_of_le (Nat.le_of_not_lt hlt)]
        refine ⟨rfl, { hs with frame := fun remaining' hr => ?_ }⟩
        obtain ⟨header, hlast, hle, hlen⟩ := hs.frame remaining hp
        cases hr
        exact ⟨header, hlast, by omega, hlen⟩

/-- What is told to be missing is at most what the header announced, and fits into its word. -/
theorem follows_ended {α : Type} {post : α → FramedStream → Prop} :
    Follows n (Sound n ahead counted) (Checked.ended counted) (ended counted) post where
  grows s := (idles_ended counted s) ▸ List.prefix_rfl
  agrees s hs _ := by
    unfold Checked.ended ended Position.cutShort?
    cases hp : s.position with
    | idle => exact ⟨rfl, hs.weaken⟩
    | poisoned => exact ⟨rfl, hs.weaken⟩
    | inFrame remaining =>
      obtain ⟨header, hlast, hle, hlen⟩ := hs.frame remaining hp
      have hlt : remaining + counted < 2 ^ 64 := by omega
      have hmissing : ∃ header ∈ s.lastHeader?, remaining + counted ≤ header.len := ⟨header, hlast, hle⟩
      simp only [Checked.add_of_lt hlt, Checked.ok_bind, Checked.assert_of hmissing]
      exact ⟨rfl, hs.weaken.poisonedBy _ _⟩

theorem makes_read (want : Nat) : Makes (Transport.read true want) fun d made =>
    Call.bytesIn made = d.count ∧ .read want (.ready d) ∈ made := by
  intro patience t
  rcases Nat.eq_zero_or_pos want with rfl | hw
  · refine ⟨[.read 0 (.ready (.stored []))], by simp [Transport.read, record], fun d hd => ?_⟩
    cases hd
    exact ⟨rfl, List.mem_singleton_self _⟩
  · rw [read_eq true hw]
    have hclaimed := (replies_readFrom t.chunk want t.reads patience).claimed
    refine ⟨_, by simp [record], fun d hd => ⟨?_, mem_calls_of_done hd⟩⟩
    exact hclaimed.trans (congrArg Answer.count hd)

/-- Bytes are counted once they are read. -/
theorem Sound.recordRead (h : Sound n ahead counted s) (hspent : Spent n s made)
    (hk : Call.bytesIn made = k) (hm : Call.Moderate (s.callsBehind n)) :
    s.stats.bytesRead.toNat + k < 2 ^ 64 ∧
      Sound n (ahead + k) counted { s with stats := s.stats.recordRead k } := by
  have hin := hspent.bytesIn
  have hlt : s.stats.bytesRead.toNat + k < 2 ^ 64 := by
    have := hm.bytesIn
    omega
  have hsum : (s.stats.recordRead k).bytesRead.toNat = s.stats.bytesRead.toNat + k :=
    Stats.toNat_add_ofNat hlt
  refine ⟨hlt, { h with bytesRead := ?_, framesRead := ?_ }⟩
  · rw [hsum]
    change _ ≤ Call.bytesIn (s.callsBehind n)
    omega
  · have hframes := h.framesRead
    rw [hsum]
    change s.stats.framesRead.toNat + _ ≤ _
    omega

theorem follows_readOnce (want : Nat) : Follows n (Sound n ahead counted) (Checked.readOnce want)
    (readOnce want) fun d s => Sound n (ahead + d.count) counted s ∧ d.count ≤ want := by
  refine (follows_exchange (makes_read want)).bind fun d => ?_
  refine (follows_count fun s hs hm => ?_).bind fun _ => follows_pure fun s hs => hs
  obtain ⟨hsound, made, ⟨hk, hmem⟩, hspent⟩ := hs
  obtain ⟨hlt, hread⟩ := hsound.recordRead hspent hk hm
  exact ⟨hlt, hread, hspent.fits _ hmem⟩

/-- The byte that is counted before it is read is counted back if the stream ends. -/
theorem follows_readByte : Follows n (Sound n ahead 0) Checked.readByte readByte
    fun _ s => Sound n (ahead + 1) 0 s := by
  refine follows_usable.bind fun _ => (follows_consume 1).bind fun _ => (follows_readOnce 1).bind fun d => ?_
  refine .ite (fun _ => ?_) fun hd => ?_
  · exact (follows_ended.on fun s hs => hs.1).bind fun _ => follows_pure fun s hs => hs
  · refine follows_pure fun s hs => hs.1.mono ?_ (Nat.zero_le _)
    exact Nat.add_le_add_left (Nat.pos_of_ne_zero hd) ahead

theorem follows_cap (room : Nat) : Follows n (Sound n ahead counted)
    (CheckedM.lift (ask fun p => .ok (p.cap room))) (ask fun p => .ok (p.cap room))
    fun want s => Sound n ahead counted s ∧ want ≤ room := by
  refine (follows_ask _ fun s hs => hs.weaken).mono (fun s hs => hs) fun want s hs => ⟨hs.1, ?_⟩
  obtain rfl : s.position.cap room = want := Except.ok.inj hs.2
  exact Position.cap_le room s.position

/-- A block is read into the buffer, and no more of it than the open frame owes. -/
theorem follows_readBlock (room : Nat) : Follows n (Sound n ahead 0) (Checked.readBlock room)
    (readBlock room) fun d s => Sound n (ahead + d.count) 0 s ∧ d.count ≤ room := by
  have hnone {counted} {s : FramedStream} (hs : Sound n ahead counted s) :
      Sound n (ahead + (Delivery.stored []).count) 0 s ∧ (Delivery.stored []).count ≤ room :=
    ⟨hs.mono (Nat.le_refl _) (Nat.zero_le _), Nat.zero_le room⟩
  refine follows_usable.bind fun _ => .ite (fun _ => follows_pure fun s hs => hnone hs) fun _ => ?_
  refine (follows_cap room).bind fun want => .ite (fun _ => ?_) fun _ => ?_
  · exact ((follows_consume room).on fun s hs => hs.1).bind fun _ => follows_pure fun s hs => hnone hs
  refine .check want (fun s hs => Checked.before_of_le hs.2) ?_
  refine (follows_readOnce want).keep.bind fun d => ?_
  have hcounted : Follows n (fun s => (Sound n (ahead + d.count) 0 s ∧ d.count ≤ want) ∧ want ≤ room)
      (do Checked.consume d.count; return d) (do consume d.count; return d)
      fun d s => Sound n (ahead + d.count) 0 s ∧ d.count ≤ room := by
    have hd {s : FramedStream} (hs : (Sound n (ahead + d.count) 0 s ∧ d.count ≤ want) ∧ want ≤ room) :
        Sound n (ahead + d.count) 0 s ∧ d.count ≤ room := ⟨hs.1.1, Nat.le_trans hs.1.2 hs.2⟩
    refine ((follows_consume d.count).keep.on fun s hs => hd hs).bind fun _ => ?_
    exact follows_pure fun s hs => ⟨hs.1.mono (Nat.le_refl _) (Nat.zero_le _), hs.2⟩
  refine .ite (fun _ => ?_) fun _ => hcounted
  exact (follows_ended.on fun s hs => hs.1.1).bind fun _ => hcounted

/-- In filling a buffer every block has a byte or more. -/
theorem follows_nextBlock (started : Bool) {room : Nat} (hr : 0 < room) :
    Follows n (Sound n ahead 0) (Checked.nextBlock started room) (nextBlock started room)
      fun d s => (Sound n (ahead + d.count) 0 s ∧ d.count ≤ room) ∧ 0 < d.count := by
  refine .and ?_ fun s d s' _ hd => nextBlock_pos hr hd
  unfold Checked.nextBlock nextBlock
  split
  · exact (follows_readBlock room).endBreaks _
  · exact follows_readBlock room

/-- The part of a buffer that is still empty begins inside the buffer, and the loop is over by the time it
has no more rounds. -/
theorem follows_readBlocks (fuel room : Nat) (started : Bool) :
    Follows n (fun s => Sound n 0 0 s ∧ room ≤ fuel) (Checked.readBlocks fuel room started)
      (readBlocks fuel room started) fun _ s => Sound n 0 0 s := by
  induction fuel generalizing room started with
  | zero =>
    refine .check () (fun s hs => ?_) (follows_pure fun s hs => hs.1)
    exact Checked.halted_of (Nat.eq_zero_of_le_zero hs.2)
  | succ fuel ih =>
    refine .ite (fun _ => follows_pure fun s hs => hs.1) fun hr => ?_
    refine (follows_nextBlock started (Nat.pos_of_ne_zero hr)).attempt.keep.bind fun r => ?_
    cases r with
    | error stop => exact follows_pure fun s hs => hs.1
    | ok d =>
      refine .skip (fun s hs => Nat.not_lt.2 hs.1.1.2) (fun _ => List.prefix_rfl) ?_
      refine .check (room - d.count) (fun s hs => Checked.behind_of_le hs.1.1.2) ?_
      refine ((ih (room - d.count) true).on fun s hs => ?_).bind fun _ => follows_pure fun s hs => hs
      obtain ⟨⟨⟨hsound, -⟩, hpos⟩, hfuel⟩ := hs
      exact ⟨hsound.weaken, by omega⟩

/-- What is filled is no more than what was read, so its count does not wrap. -/
theorem follows_readFilling (size fuel filled : Nat) :
    Follows n (fun s => Sound n filled 0 s ∧ filled ≤ size ∧ size ≤ filled + fuel)
      (Checked.readFilling size fuel filled) (readFilling size fuel filled) fun _ s => Sound n 0 0 s := by
  induction fuel generalizing filled with
  | zero =>
    exact .check () (fun s hs => Checked.halted_of hs.2.2) (follows_pure fun s hs => hs.1.weaken)
  | succ fuel ih =>
    refine .ite (fun _ => follows_pure fun s hs => hs.1.weaken) fun hsize => ?_
    refine .check (size - filled) (fun s hs => Checked.behind_of_le hs.2.1) ?_
    refine (follows_nextBlock _ (by omega)).attempt.keep.bind fun r => ?_
    cases r with
    | error stop => exact follows_pure fun s hs => hs.1
    | ok d =>
      refine .skip (fun s hs => Nat.not_lt.2 hs.1.1.2) (fun _ => List.prefix_rfl) ?_
      refine .check (filled + d.count) (fun s hs => Checked.add_of_lt ?_) ?_
      · -- all that is filled is among the bytes that are counted
        have hframes := hs.1.1.1.framesRead
        have := s.stats.bytesRead.toNat_lt
        omega
      refine ((ih (filled + d.count)).on fun s hs => ?_).bind fun _ => follows_pure fun s hs => hs
      obtain ⟨⟨⟨hsound, hle⟩, hpos⟩, -, hfuel⟩ := hs
      exact ⟨hsound, by omega, by omega⟩

theorem follows_readExact (room : Nat) : Follows n (Sound n 0 0) (Checked.readExact room) (readExact room)
    fun _ s => Sound n 0 0 s := by
  refine follows_get fun s₀ => ?_
  cases s₀.flavour with
  | blocking => exact (follows_readBlocks room room false).on fun s hs => ⟨hs.1, Nat.le_refl room⟩
  | suspending =>
    have hroom : room ≤ 0 + room := Nat.le_add_left room 0
    exact (follows_readFilling room room 0).on fun s hs => ⟨hs.1, Nat.zero_le room, hroom⟩

/-! ### Integers and headers -/

/-- The machine's view of an integer of which some bytes are missing. -/
structure Decodes {missing : Nat} (d : Checked.Decoder) (p : Varint.Partial missing) : Prop where
  value : d.value = p.value
  len : d.len = p.width.size
  seen : d.seen + missing = d.len

theorem decodes_start (first : UInt8) : Decodes (.start first) (.start first) where
  value := Nat.and_two_pow_sub_one_eq_mod first.toNat 6
  len := (Width.size_ofFirst first).symm
  seen := by
    have hpos := (Width.ofFirst first).size_pos
    have hlen : (Checked.Decoder.start first).len = (Width.ofFirst first).size :=
      (Width.size_ofFirst first).symm
    rw [hlen]
    change 1 + ((Width.ofFirst first).size - 1) = _
    omega

/-- A byte is set behind those that are there, none of which is shifted out. -/
theorem Decodes.push {missing : Nat} {d : Checked.Decoder} {p : Varint.Partial (missing + 1)}
    (h : Decodes d p) (b : UInt8) : ∃ d', d.push b = .ok d' ∧ Decodes d' (p.push b) := by
  obtain ⟨hvalue, hlen, hseen⟩ := h
  have hsize := p.width.size_le
  have hb := b.toNat_lt
  have hmore : 256 ≤ 256 ^ (missing + 1) := Nat.le_self_pow (Nat.succ_ne_zero missing) 256
  have hshift : d.value <<< 8 = d.value * 256 := Nat.shiftLeft_eq d.value 8
  have hhigh : (p.value + 1) * 256 ≤ 2 ^ 62 := Nat.le_trans (Nat.mul_le_mul_left _ hmore) p.fits
  have hmissing : d.seen ≠ d.len := by omega
  have hfit : d.value <<< 8 < 2 ^ 64 := by omega
  have hnext : d.seen + 1 < 2 ^ 64 := by omega
  refine ⟨⟨d.value <<< 8 ||| b.toNat, d.len, d.seen + 1⟩, ?_, ?_, hlen, by simp only; omega⟩
  · simp only [Checked.Decoder.push, Checked.assert_of hmissing, Checked.fit_of_lt hfit,
      Checked.add_of_lt hnext, Checked.ok_bind]
    rfl
  · rw [← Nat.shiftLeft_add_eq_or_of_lt hb, hshift, hvalue]
    rfl

theorem Decodes.finish {d : Checked.Decoder} {p : Varint.Partial 0} (h : Decodes d p) :
    d.finish = .ok p.finish := by
  obtain ⟨hvalue, -, hseen⟩ := h
  have hlt : d.value < 2 ^ 62 := hvalue ▸ p.value_lt
  unfold Checked.Decoder.finish
  rw [Checked.assert_of (show d.seen = d.len from hseen), Checked.ok_bind, dif_pos hlt]
  exact congrArg Except.ok (Varint.ext hvalue)

/-- A byte is added only while one is missing, and the value is taken only when none is. -/
theorem follows_readMissing {missing : Nat} (p : Varint.Partial missing) {d : Checked.Decoder}
    (hd : Decodes d p) {fuel : Nat} (hf : missing ≤ fuel) :
    Follows n (Sound n ahead 0) (Checked.readMissing fuel d) (readMissing missing p)
      fun _ s => Sound n ahead 0 s := by
  induction missing generalizing fuel d with
  | zero =>
    have hseen : d.seen = d.len := hd.seen
    have hfinish : Follows n (Sound n ahead 0) (CheckedM.check d.finish) (pure p.finish)
        fun _ s => Sound n ahead 0 s := follows_check (fun s _ => hd.finish) fun s hs => hs
    cases fuel with
    | zero => exact .check () (fun s _ => Checked.halted_of hseen) hfinish
    | succ fuel =>
      unfold Checked.readMissing
      rw [if_pos hseen]
      exact hfinish
  | succ missing ih =>
    obtain ⟨fuel, rfl⟩ : ∃ k, fuel = k + 1 := ⟨fuel - 1, by omega⟩
    have hseen : d.seen ≠ d.len := by
      have := hd.seen
      omega
    unfold Checked.readMissing readMissing
    rw [if_neg hseen, hd.len]
    refine (follows_readByte.endBreaks _).bind fun b => ?_
    obtain ⟨d', hpush, hd'⟩ := hd.push b
    refine .check d' (fun s _ => hpush) ?_
    exact (ih (p.push b) hd' (by omega)).on fun s hs => hs.mono (Nat.le_succ ahead) (Nat.le_refl 0)

/-- An integer takes a byte or more. -/
theorem follows_readVarint : Follows n (Sound n ahead 0) Checked.readVarint readVarint
    fun _ s => Sound n (ahead + 1) 0 s := by
  refine follows_readByte.bind fun first => ?_
  have hsize := (Width.ofFirst first).size_le
  exact follows_readMissing (.start first) (decodes_start first) (Nat.le_trans (Nat.sub_le _ 1) hsize)

/-- Between frames an integer can be read and nothing else happens. -/
theorem follows_readVarint_idle : Follows n (fun s => Sound n ahead 0 s ∧ s.position = .idle)
    Checked.readVarint readVarint fun _ s => Sound n (ahead + 1) 0 s ∧ s.position = .idle := by
  refine (follows_readVarint.on fun s hs => hs.1).and fun s v s' hs hx => ?_
  have hcharges := charges_readVarint (s := s) (by simp [hs.2])
  rw [hx] at hcharges
  obtain ⟨made, -, hended⟩ := hcharges
  cases hended with
  | done counted => exact Except.ok.inj (counted.symm.trans (idle_consume hs.2 _))

theorem isReserved_eq (k : Frame.Kind) : Checked.isReserved k = .ok k.isReserved := by
  unfold Checked.isReserved Frame.Kind.isReserved
  by_cases hle : 0x21 ≤ k.code
  · rw [if_pos hle, Checked.sub_of_le hle, Checked.ok_bind, decide_eq_true hle, Bool.true_and]
    rfl
  · rw [if_neg hle, decide_eq_false hle, Bool.false_and]
    rfl

/-- The frame of `header` is open, but the header is not yet told. -/
def Opens (n ahead : Nat) (header : Frame.Header) (s : FramedStream) : Prop :=
  ∃ s₀, Sound n ahead 0 s₀ ∧ s = { s₀ with position := .inFrame header.len }

theorem follows_openFrame (header : Frame.Header) :
    Follows n (fun s => Sound n ahead 0 s ∧ s.position = .idle) (Checked.openFrame header)
      (openFrame header) fun _ s => Opens n ahead header s where
  grows _ := List.prefix_rfl
  agrees s hs _ := by
    refine ⟨?_, s, hs.1, rfl⟩
    unfold Checked.openFrame
    rw [Checked.assert_of hs.2]
    rfl

/-- A header has more than one byte, so there are fewer of them than bytes. -/
theorem follows_recordFrameRead (header : Frame.Header) :
    Follows n (Opens n (ahead + 1) header) (Checked.count Stats.framesRead Stats.recordFrameRead 1)
      (count Stats.recordFrameRead) fun _ s => Opens n ahead header s := by
  refine follows_count ?_
  rintro _ ⟨s, hs, rfl⟩ -
  have hframes := hs.framesRead
  have hlt : s.stats.framesRead.toNat + 1 < 2 ^ 64 := by
    have := s.stats.bytesRead.toNat_lt
    omega
  have hsum : s.stats.recordFrameRead.framesRead.toNat = s.stats.framesRead.toNat + 1 :=
    Stats.toNat_add_ofNat hlt
  refine ⟨hlt, { s with stats := s.stats.recordFrameRead }, { hs with framesRead := ?_ }, rfl⟩
  rw [hsum]
  change _ ≤ s.stats.bytesRead.toNat
  omega

theorem follows_emit_headerRead {header : Frame.Header} (hlen : header.len < 2 ^ 62) :
    Follows n (Opens n ahead header) (CheckedM.lift (emit (.headerRead header))) (emit (.headerRead header))
      fun _ s => Sound n ahead 0 s := by
  refine follows_lift (fun s => rfl) ?_
  rintro _ ⟨s, hs, rfl⟩
  refine { hs with frame := fun remaining hr => ⟨header, ?_, ?_, hlen⟩ }
  · simp [lastHeader?, Event.header?]
  · cases hr
    exact Nat.le_refl _

theorem follows_betweenFrames : Follows n (Sound n ahead counted)
    (CheckedM.lift (ask Position.betweenFrames)) (ask Position.betweenFrames)
    fun _ s => Sound n ahead counted s ∧ s.position = .idle := by
  refine (follows_ask _ fun s hs => hs.weaken).mono (fun s hs => hs) fun _ s hs => ⟨hs.1, ?_⟩
  exact Position.idle_of_betweenFrames hs.2

theorem follows_readHeader : Follows n (Sound n ahead 0) Checked.readHeader readHeader
    fun _ s => Sound n ahead 0 s := by
  refine follows_betweenFrames.bind fun _ => follows_readVarint_idle.bind fun kind => ?_
  refine (follows_readVarint_idle.endBreaks _).bind fun len => ?_
  refine (follows_openFrame _).bind fun _ => (follows_recordFrameRead _).bind fun _ => ?_
  refine .check _ (fun s _ => isReserved_eq _) ?_
  refine (follows_emit_headerRead len.isLt).bind fun _ => follows_pure fun s hs => ?_
  exact hs.mono (Nat.le_succ ahead) (Nat.le_refl 0)

/-! ### Payloads -/

theorem readStep_eq (l : Limits) {filled len : Nat} (hf : filled ≤ len) :
    Checked.readStep l filled len = .ok (l.nextStep filled (len - filled)) := by
  have hstep := l.nextStep_le filled (len - filled)
  have hwithin : filled + l.nextStep filled (len - filled) ≤ len := by omega
  unfold Checked.readStep
  rw [Checked.sub_of_le hf]
  unfold Limits.nextStep at hwithin ⊢
  simp only [Checked.ok_bind, Checked.assert_of hwithin]
  rfl

/-- The next size of the buffer is no larger than the payload. -/
theorem resize_eq (l : Limits) {filled len : Nat} (hf : filled ≤ len) (hl : len < 2 ^ 62) :
    Checked.resize l filled len = .ok (filled + l.nextStep filled (len - filled)) := by
  have hstep := l.nextStep_le filled (len - filled)
  have hsize : filled + l.nextStep filled (len - filled) < 2 ^ 63 := by omega
  unfold Checked.resize
  rw [readStep_eq l hf, Checked.ok_bind, Checked.add_of_lt (Nat.lt_trans hsize (by decide)),
    Checked.ok_bind, Checked.allocate_of_lt hsize]

/-- A round fills what is new of the buffer, and the last one ends where the payload does. -/
theorem follows_readRounds (l : Limits) (len fuel filled : Nat) (hf : filled ≤ len)
    (hfuel : len ≤ filled + fuel) :
    Follows n (fun s => Sound n 0 0 s ∧ len < 2 ^ 62) (Checked.readRounds l len fuel filled)
      (readRounds l len fuel filled) fun _ s => Sound n 0 0 s := by
  induction fuel generalizing filled with
  | zero => exact .check () (fun s hs => Checked.halted_of hfuel) (follows_pure fun s hs => hs.1)
  | succ fuel ih =>
    unfold Checked.readRounds readRounds
    refine .ite (fun hfull => follows_pure fun s hs => hs.1) fun hshort => ?_
    have hle := l.nextStep_le filled (len - filled)
    have hpos := l.nextStep_pos filled (by omega : 0 < len - filled)
    refine .check _ (fun s hs => resize_eq l hf hs.2) ?_
    refine .check _ (fun s hs => Checked.behind_of_le (Nat.le_add_right _ _)) ?_
    refine (follows_readExact _).keep.bind fun r => ?_
    obtain ⟨ds, stop⟩ := r
    cases stop with
    | some stop => exact follows_lift (fun s => rfl) fun s hs => hs.1
    | none => exact (ih _ (by omega) (by omega)).bind fun more => follows_pure fun s hs => hs

/-- What the open frame owes, which is less than any word or buffer can hold. -/
theorem follows_owed : Follows n (Sound n ahead 0) (CheckedM.lift (ask Position.owed)) (ask Position.owed)
    fun len s => Sound n ahead 0 s ∧ len < 2 ^ 62 := by
  refine (follows_ask _ fun s hs => hs.weaken).mono (fun s hs => hs) fun len s hs => ⟨hs.1, ?_⟩
  obtain ⟨header, -, hle, hlen⟩ := hs.1.frame len (Position.inFrame_of_owed hs.2)
  exact Nat.lt_of_le_of_lt hle hlen

theorem follows_readPayload : Follows n (Sound n 0 0) Checked.readPayload readPayload
    fun _ s => Sound n 0 0 s := by
  refine follows_owed.bind fun len => follows_get fun s₀ => ?_
  have hrounds : Follows n (fun s => (Sound n 0 0 s ∧ len < 2 ^ 62) ∧ s = s₀)
      (do
        let first ← CheckedM.check (Checked.readStep s₀.limits 0 len)
        let _ ← CheckedM.check (Checked.allocate first)
        let ds ← Checked.readRounds s₀.limits len len 0
        return Delivery.overlay ds (List.replicate len 0))
      (do
        let ds ← readRounds s₀.limits len len 0
        return Delivery.overlay ds (List.replicate len 0))
      fun _ s => Sound n 0 0 s := by
    have hstep := s₀.limits.nextStep_le 0 len
    refine .check (s₀.limits.nextStep 0 len) (fun s hs => readStep_eq s₀.limits (Nat.zero_le len)) ?_
    refine .check (s₀.limits.nextStep 0 len) (fun s hs => Checked.allocate_of_lt (by omega)) ?_
    refine ((follows_readRounds s₀.limits len len 0 (Nat.zero_le len) (Nat.le_add_left len 0)).on
      fun s hs => hs.1).bind fun ds => follows_pure fun s hs => hs
  refine .ite (fun _ => ?_) fun _ => hrounds
  exact (follows_poison _ fun s hs => hs.1.1).bind fun _ => hrounds

/-! ### Writing -/

theorem makes_write (bytes : List UInt8) : Makes (Transport.write bytes) fun k made =>
    Call.bytesOut made = k := by
  intro patience t
  obtain ⟨haccepted, hle⟩ := accepted_writeTo bytes t.writes patience
  refine ⟨(writeTo bytes t.writes patience).calls, by simp [Transport.write, record], fun k hk => ?_⟩
  have htaken : (writeTo bytes t.writes patience).answer.taken bytes = bytes.take k :=
    congrArg (Answer.taken bytes) hk
  change ((writeTo bytes t.writes patience).calls.flatMap Call.accepted).length = k
  rw [haccepted, htaken]
  exact List.length_take_of_le (hle k hk)

theorem makes_writeAll (flavour : Flavour) (bytes : List UInt8) :
    Makes (Transport.writeAll flavour bytes) fun _ made => Call.bytesOut made = bytes.length := by
  intro patience t
  refine ⟨(writeAllTo flavour t.writes patience bytes).calls, by simp [Transport.writeAll, record], ?_⟩
  rintro ⟨⟩ hdone
  exact congrArg List.length (accepted_of_done hdone)

theorem makes_flush : Makes Transport.flush fun _ _ => True := by
  intro patience t
  exact ⟨(flushOf t.flushes patience).calls, by simp [Transport.flush, record], fun _ _ => trivial⟩

/-- Bytes are counted once they are written, and a frame can be counted behind each of them. -/
theorem Sound.recordWrite (h : Sound n ahead counted s) (hspent : Spent n s made)
    (hk : Call.bytesOut made = k) (hm : Call.Moderate (s.callsBehind n)) :
    s.stats.bytesWritten.toNat + k < 2 ^ 64 ∧
      Sound n ahead counted { s with stats := s.stats.recordWrite k } ∧
      s.stats.framesWritten.toNat + k ≤ (s.stats.recordWrite k).bytesWritten.toNat := by
  have hout := hspent.bytesOut
  have hframes := h.framesWritten
  have hlt : s.stats.bytesWritten.toNat + k < 2 ^ 64 := by
    have := hm.bytesOut
    omega
  have hsum : (s.stats.recordWrite k).bytesWritten.toNat = s.stats.bytesWritten.toNat + k :=
    Stats.toNat_add_ofNat hlt
  refine ⟨hlt, { h with bytesWritten := ?_, framesWritten := ?_ }, by omega⟩
  · rw [hsum]
    change _ ≤ Call.bytesOut (s.callsBehind n)
    omega
  · rw [hsum]
    change s.stats.framesWritten.toNat ≤ _
    omega

theorem follows_write (bytes : List UInt8) : Follows n (Sound n ahead counted) (Checked.write bytes)
    (write bytes) fun _ s => Sound n ahead counted s := by
  refine follows_usable.bind fun _ => (follows_exchange (makes_write bytes)).bind fun k => ?_
  refine (follows_count fun s hs hm => ?_).bind fun _ => follows_pure fun s hs => hs
  obtain ⟨hsound, made, hk, hspent⟩ := hs
  obtain ⟨hlt, hwritten, -⟩ := hsound.recordWrite hspent hk hm
  exact ⟨hlt, hwritten⟩

theorem follows_writeAll (bytes : List UInt8) : Follows n (Sound n ahead counted) (Checked.writeAll bytes)
    (writeAll bytes) fun _ s => Sound n ahead counted s ∧
      s.stats.framesWritten.toNat + bytes.length ≤ s.stats.bytesWritten.toNat := by
  refine follows_usable.bind fun _ => follows_get fun s₀ => ?_
  refine ((follows_exchange (makes_writeAll s₀.flavour bytes)).on fun s hs => hs.1).bind fun _ => ?_
  refine follows_count fun s hs hm => ?_
  obtain ⟨hsound, made, hk, hspent⟩ := hs
  exact hsound.recordWrite hspent hk hm

theorem follows_flush : Follows n (Sound n ahead counted) (CheckedM.lift flush) flush
    fun _ s => Sound n ahead counted s := by
  have htalk : Follows n (Sound n ahead counted) (CheckedM.lift (exchange Transport.flush))
      (exchange Transport.flush) fun _ s => Sound n ahead counted s :=
    (follows_exchange makes_flush).mono (fun s hs => hs) fun _ s hs => hs.1
  exact (follows_usable.bind fun _ => htalk).lift

/-- The encoder stays inside its array, and narrows no value that is too large. -/
theorem encode_eq_written (c : Checked.Cursor) (v : Varint) (h : v.size ≤ c.left) :
    c.encode v = .ok ⟨c.written ++ v.encode, c.left - v.size⟩ := by
  have hbits : v.toNat < 2 ^ (8 * v.size) := by
    refine Nat.lt_of_lt_of_le (Width.lt_two_pow_bits_least v.isLt) ?_
    exact Nat.pow_le_pow_right (by decide) (Nat.sub_le _ 2)
  unfold Checked.Cursor.encode Checked.Cursor.put
  rw [Checked.fit_of_lt hbits, Checked.ok_bind, ← v.encode_eq_or, v.length_encode,
    Checked.behind_of_le h]
  rfl

theorem block_eq_padded (v : Varint) : Checked.block v = .ok v.block := by
  have hroom : v.size ≤ (Checked.Cursor.blank Varint.maxSize).left := v.width.size_le
  unfold Checked.block
  rw [encode_eq_written _ v hroom, Checked.ok_bind, Varint.block, Varint.padded, v.length_encode]
  rfl

theorem headerBlock_eq_padded (kind len : Varint) : Checked.headerBlock kind len =
    .ok (Varint.padded Frame.Header.maxSize (kind.encode ++ len.encode), kind.size + len.size) := by
  have hkind : kind.size ≤ 8 := kind.width.size_le
  have hlen : len.size ≤ 8 := len.width.size_le
  have hsize : kind.size + len.size < 2 ^ 64 := by omega
  unfold Checked.headerBlock
  rw [encode_eq_written (.blank Frame.Header.maxSize) kind (by change _ ≤ 16; omega)]
  rw [Checked.ok_bind, encode_eq_written _ len (by change _ ≤ 16 - _; omega), Checked.ok_bind,
    Checked.add_of_lt hsize, Varint.padded, List.length_append, kind.length_encode, len.length_encode,
    ← Nat.sub_sub]
  rfl

/-- What is sliced off an array is what was written to it. -/
theorem slice_padded {room : Nat} {bytes : List UInt8} (h : bytes.length ≤ room) :
    Checked.slice (Varint.padded room bytes) bytes.length = .ok bytes := by
  unfold Checked.slice
  rw [Varint.length_padded h, Checked.before_of_le h]
  exact congrArg Except.ok List.take_left

/-- A number is checked before it is encoded. -/
theorem writeVarint_eq (k : Nat) : writeVarint k = (do
    ask Position.usable
    let v ← Checked.inRange k
    writeAll v.encode) := by
  unfold writeVarint Checked.inRange
  cases Varint.checked k <;> rfl

/-- The kind is checked first, and both numbers before one of them is encoded. -/
theorem writeHeader_eq (header : Frame.Header) : writeHeader header = (do
    ask Position.usable
    let kind ← Checked.inRange header.kind.code
    let len ← Checked.inRange header.len
    writeAll (kind.encode ++ len.encode)
    count Stats.recordFrameWritten) := by
  unfold writeHeader Frame.Header.encode Checked.inRange
  cases Varint.checked header.kind.code with
  | error f => rfl
  | ok kind => cases Varint.checked header.len <;> rfl

theorem follows_inRange (k : Nat) : Follows n (Sound n ahead counted) (CheckedM.lift (Checked.inRange k))
    (Checked.inRange k) fun _ s => Sound n ahead counted s := by
  unfold Checked.inRange
  cases Varint.checked k with
  | error f => exact follows_fail f fun s hs => hs.weaken
  | ok v => exact follows_pure fun s hs => hs

theorem follows_writeVarint (k : Nat) : Follows n (Sound n ahead counted) (Checked.writeVarint k)
    (writeVarint k) fun _ s => Sound n ahead counted s := by
  rw [writeVarint_eq]
  refine follows_usable.bind fun _ => (follows_inRange k).bind fun v => ?_
  have hroom : v.encode.length ≤ Varint.maxSize := v.length_encode ▸ v.width.size_le
  refine .check v.block (fun _ _ => block_eq_padded v) ?_
  refine .check v.encode (fun _ _ => v.length_encode ▸ slice_padded hroom) ?_
  exact (follows_writeAll v.encode).mono (fun s hs => hs) fun _ s hs => hs.1

/-- A header has more than one byte, so no more of them are written than bytes. -/
theorem follows_recordFrameWritten {size : Nat} (hsize : 0 < size) :
    Follows n (fun s => Sound n ahead counted s ∧
        s.stats.framesWritten.toNat + size ≤ s.stats.bytesWritten.toNat)
      (Checked.count Stats.framesWritten Stats.recordFrameWritten 1) (count Stats.recordFrameWritten)
      fun _ s => Sound n ahead counted s := by
  refine follows_count fun s hs _ => ?_
  obtain ⟨hsound, hframes⟩ := hs
  have hlt : s.stats.framesWritten.toNat + 1 < 2 ^ 64 := by
    have := s.stats.bytesWritten.toNat_lt
    omega
  have hsum : s.stats.recordFrameWritten.framesWritten.toNat = s.stats.framesWritten.toNat + 1 :=
    Stats.toNat_add_ofNat hlt
  refine ⟨hlt, { hsound with framesWritten := ?_ }⟩
  rw [hsum]
  change _ ≤ s.stats.bytesWritten.toNat
  omega

theorem follows_writeHeader (header : Frame.Header) : Follows n (Sound n ahead counted)
    (Checked.writeHeader header) (writeHeader header) fun _ s => Sound n ahead counted s := by
  rw [writeHeader_eq]
  refine follows_usable.bind fun _ => ?_
  refine (follows_inRange _).bind fun kind => (follows_inRange _).bind fun len => ?_
  have hlength : (kind.encode ++ len.encode).length = kind.size + len.size := by simp
  have hkind := kind.width.size_pos
  have hroom : (kind.encode ++ len.encode).length ≤ Frame.Header.maxSize := by
    have hkind' : kind.size ≤ 8 := kind.width.size_le
    have hlen' : len.size ≤ 8 := len.width.size_le
    rw [hlength]
    change _ ≤ 16
    omega
  refine .check _ (fun _ _ => headerBlock_eq_padded kind len) ?_
  refine .check _ (fun _ _ => hlength ▸ slice_padded hroom) ?_
  refine (follows_writeAll _).bind fun _ => follows_recordFrameWritten ?_
  rw [hlength]
  exact Nat.lt_of_lt_of_le hkind (Nat.le_add_right _ _)

theorem follows_writeFrame (kind : Frame.Kind) (payload : List UInt8) : Follows n (Sound n ahead counted)
    (Checked.writeFrame kind payload) (writeFrame kind payload) fun _ s => Sound n ahead counted s := by
  refine (follows_writeHeader _).bind fun _ => ?_
  exact (follows_writeAll payload).mono (fun s hs => hs) fun _ s hs => hs.1

theorem follows_closeFrame : Follows n (Sound n 0 0) (CheckedM.lift closeFrame) closeFrame
    fun _ s => Sound n 0 0 s := by
  refine follows_lift (fun s => ?_) fun s hs => ?_
  · rcases closeFrame_cases s with ⟨stop, hx⟩ | ⟨-, hx⟩ <;>
      rw [hx] <;> rfl
  · rcases closeFrame_cases s with ⟨stop, hx⟩ | ⟨-, hx⟩
    · rw [hx]
      exact hs
    · rw [hx]
      refine { hs with frame := fun remaining hr => ?_ }
      cases hr

/-! ### Requests -/

/-- Whatever is asked of a stream that is as it should be, the checked `f` meets no fault and does as `g`,
which leaves the stream as it should be. -/
structure Faultless (n : Nat) (f : FramedStream → Except Fault (Report × FramedStream))
    (g : FramedStream → Report × FramedStream) : Prop where
  grows : ∀ s, s.transport.calls.toList <+: (g s).2.transport.calls.toList
  agrees : ∀ s, Sound n 0 0 s → Call.Moderate ((g s).2.callsBehind n) →
    f s = .ok (g s) ∧ Sound n 0 0 (g s).2

theorem Ends.left {α : Type} {r : EStateM.Result Stop FramedStream α}
    (h : Ends n (fun _ s => Sound n 0 0 s) r) : Sound n 0 0 (left r) := by
  cases r with
  | ok a s => exact h
  | error stop s => exact h

section Reports

variable {α : Type} {x : CheckedM α} {y : FramingM α} {post : α → FramedStream → Prop}

/-- A report tells what an action came to, and leaves the stream to it. -/
theorem Follows.faultless {f : FramedStream → Except Fault (Report × FramedStream)}
    {g : FramedStream → Report × FramedStream} (h : Follows n (Sound n 0 0) x y post)
    (hpost : ∀ a s, post a s → Sound n 0 0 s) (hleft : ∀ s, (g s).2 = left (y s))
    (hf : ∀ s, x s = .ok (y s) → f s = .ok (g s)) : Faultless n f g where
  grows s := by
    rw [hleft]
    exact h.grows s
  agrees s hs hm := by
    rw [hleft] at hm ⊢
    obtain ⟨hx, hy⟩ := h.agrees s hs hm
    exact ⟨hf s hx, (hy.mono hpost).left⟩

theorem Follows.report (h : Follows n (Sound n 0 0) x y post) (hpost : ∀ a s, post a s → Sound n 0 0 s)
    (reply : α → Reply) : Faultless n (Checked.report reply x) (report reply y) := by
  refine h.faultless hpost (fun s => ?_) fun s hx => congrArg (Except.map _) hx
  unfold FramedStream.report
  cases y s <;> rfl

end Reports

theorem faultless_reportBlock (buffer : List UInt8) :
    Faultless n (Checked.reportBlock buffer) (reportBlock buffer) := by
  refine (follows_readBlock buffer.length).faultless (fun _ _ h => h.1.weaken) (fun s => ?_) fun s hx => ?_
  · unfold reportBlock
    cases readBlock buffer.length s <;> rfl
  · unfold Checked.reportBlock reportBlock
    rw [hx]
    cases readBlock buffer.length s <;> rfl

theorem faultless_reportExact (buffer : List UInt8) :
    Faultless n (Checked.reportExact buffer) (reportExact buffer) := by
  refine (follows_readExact buffer.length).faultless (fun _ _ h => h) (fun s => ?_) fun s hx => ?_
  · unfold reportExact
    cases readExact buffer.length s <;> rfl
  · unfold Checked.reportExact reportExact
    rw [hx]
    cases readExact buffer.length s <;> rfl

theorem faultless_perform (o : Operation) : Faultless n (Checked.perform o) o.perform := by
  cases o with
  | readHeader => exact follows_readHeader.report (fun _ _ h => h) _
  | readPayload => exact follows_readPayload.report (fun _ _ h => h) _
  | readByte => exact follows_readByte.report (fun _ _ h => h.weaken) _
  | readVarint => exact follows_readVarint.report (fun _ _ h => h.weaken) _
  | read buffer => exact faultless_reportBlock buffer
  | readExact buffer => exact faultless_reportExact buffer
  | closeFrame => exact follows_closeFrame.report (fun _ _ h => h) _
  | write bytes => exact (follows_write bytes).report (fun _ _ h => h) _
  | writeAll bytes => exact (follows_writeAll bytes).report (fun _ _ h => h.1) _
  | flush => exact follows_flush.report (fun _ _ h => h) _
  | writeVarint k => exact (follows_writeVarint k).report (fun _ _ h => h) _
  | writeHeader header => exact (follows_writeHeader header).report (fun _ _ h => h) _
  | writeFrame kind payload => exact (follows_writeFrame kind payload).report (fun _ _ h => h) _

/-- It does not matter how long the caller waits. -/
theorem Sound.waiting (h : Sound n ahead counted s) (patience : Patience) :
    Sound n ahead counted { s with patience } :=
  ⟨h.since, h.frame, h.bytesRead, h.framesRead, h.bytesWritten, h.framesWritten⟩

theorem faultless_request (r : Request) : Faultless n (Checked.request r) r.perform := by
  have hperform := faultless_perform (n := n) r.operation
  refine ⟨fun s => hperform.grows { s with patience := s.flavour.patience r.patience }, fun s hs hm => ?_⟩
  obtain ⟨hx, hsound⟩ := hperform.agrees _ (hs.waiting (s.flavour.patience r.patience)) hm
  refine ⟨?_, hsound.waiting none⟩
  unfold Checked.request
  rw [hx]
  rfl

theorem calls_run (rs : List Request) (s : FramedStream) :
    s.transport.calls.toList <+: (run rs s).2.transport.calls.toList := by
  induction rs generalizing s with
  | nil => exact List.prefix_rfl
  | cons r rs ih => exact ((faultless_request (n := 0) r).grows s).trans (ih (r.perform s).2)

/-- A run goes on as long as its requests do, and what is moderate in the end was so before. -/
theorem faultless_run (rs : List Request) (hs : Sound n 0 0 s)
    (hm : Call.Moderate ((run rs s).2.callsBehind n)) :
    Checked.run rs s = .ok (run rs s) ∧ Sound n 0 0 (run rs s).2 := by
  induction rs generalizing s with
  | nil => exact ⟨rfl, hs⟩
  | cons r rs ih =>
    have hfirst : Call.Moderate ((r.perform s).2.callsBehind n) :=
      hm.of_prefix (callsBehind_mono (calls_run rs (r.perform s).2))
    obtain ⟨hx, hsound⟩ := (faultless_request r).agrees s hs hfirst
    obtain ⟨hrest, hend⟩ := ih hsound hm
    refine ⟨?_, hend⟩
    unfold Checked.run
    rw [hx, Checked.ok_bind]
    simp only [hrest]
    rfl

/-- A stream that has just been opened is as it should be. -/
theorem Opened.sound {t : Transport} {s₀ : FramedStream} (ho : Opened t s₀) :
    Sound t.calls.size 0 0 s₀ := by
  obtain ⟨htransport, hidle, hstats, -⟩ := ho.fresh
  refine ⟨by rw [htransport], fun remaining hp => ?_, ?_, ?_, ?_, ?_⟩
  · rw [hidle] at hp
    cases hp
  all_goals simp [hstats]

/-- No run of a stream meets a fault, whatever its limits, whatever is asked of it and however it was
answered, as long as no read brought in more than there was room for and fewer than `2 ^ 64` bytes were
moved each way: every checked step goes well, and the checked run comes to what the plain one does. In the
end, and so after each request, an open frame owes at most what the header read last announced, and that is
no more than a header can announce. -/
theorem runs_without_fault {t : Transport} {s₀ : FramedStream} (ho : Opened t s₀) (rs : List Request)
    (hm : Call.Moderate ((run rs s₀).2.transport.callsSince t.calls.size)) :
    Checked.run rs s₀ = .ok (run rs s₀) ∧
      ∀ remaining, (run rs s₀).2.position = .inFrame remaining →
        ∃ header, (run rs s₀).2.lastHeader? = some header ∧ remaining ≤ header.len ∧
          header.len ≤ 2 ^ 62 - 1 := by
  obtain ⟨hrun, hsound⟩ := faultless_run rs ho.sound hm
  refine ⟨hrun, fun remaining hp => ?_⟩
  obtain ⟨header, hlast, hle, hlen⟩ := hsound.frame remaining hp
  exact ⟨header, hlast, hle, Nat.le_sub_one_of_lt hlen⟩

/-- A payload is read in four rounds and its frame closed; of the next frame a byte is counted and given up,
and a frame of a reserved kind is written. -/
theorem runs_without_fault_given_up : ∃ (t : Transport) (s₀ : FramedStream) (rs : List Request),
    rs = [⟨.readHeader, none⟩, ⟨.readPayload, none⟩, ⟨.closeFrame, none⟩, ⟨.readHeader, none⟩,
      ⟨.readByte, some 1⟩, ⟨.writeFrame ⟨0x21⟩ [0xff], none⟩] ∧
    s₀.limits.initialBuffer = 1 ∧ Opened t s₀ ∧
    Call.Moderate ((run rs s₀).2.transport.callsSince t.calls.size) ∧
    Checked.run rs s₀ = .ok (run rs s₀) ∧ (run rs s₀).2.position = .inFrame 2 ∧
    ∃ header, (run rs s₀).2.lastHeader? = some header ∧ 2 ≤ header.len ∧ header.len ≤ 2 ^ 62 - 1 := by
  let t : Transport := { reads := [.data [0, 5, 1, 2, 3, 4, 5], .failure IoKind.interrupted,
    .data [0x40, 1, 3], .pending, .data [6]] }
  let s₀ : FramedStream := ofTransport .suspending ⟨16, 1⟩ t
  let rs : List Request := [⟨.readHeader, none⟩, ⟨.readPayload, none⟩, ⟨.closeFrame, none⟩,
    ⟨.readHeader, none⟩, ⟨.readByte, some 1⟩, ⟨.writeFrame ⟨0x21⟩ [0xff], none⟩]
  have ho : Opened t s₀ := .taken .suspending ⟨16, 1⟩
  have hm : Call.Moderate ((run rs s₀).2.transport.callsSince t.calls.size) :=
    ⟨by decide +kernel, by decide +kernel, by decide +kernel⟩
  have hp : (run rs s₀).2.position = .inFrame 2 := by decide +kernel
  obtain ⟨hrun, hframe⟩ := runs_without_fault ho rs hm
  exact ⟨t, s₀, rs, rfl, rfl, ho, hm, hrun, hp, hframe 2 hp⟩

/-- A read that says it brought in more than there was room for is a fault. -/
example : Checked.run [⟨.readExact [0], none⟩] (ofTransport .blocking .standard { reads := [.claim 2] }) =
    .error .outOfBounds := by decide +kernel

end FramedStream

end Http3Framing
