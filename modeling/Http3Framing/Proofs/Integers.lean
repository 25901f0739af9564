import Http3Framing.FramedStream.Walk
import Http3Framing.Proofs.Heading
import Http3Framing.Proofs.Listening

/-! Integers of a stream and integers of a buffer. Bytes are cut into the forms of integers and a
rest that begins with none; decoding a buffer finds that cut, and so does reading integers off a
stream, between frames as well as inside a frame that ends with the bytes. What becomes of an
incomplete last integer depends on what follows it: the end of the stream cuts it short, the end of
the frame is crossed by it. -/

namespace Http3Framing

open Transport

namespace Varint

/-- The bytes are forms of these integers, one after the other, and a rest that begins with none. -/
inductive Spelling : List UInt8 → List Varint → List UInt8 → Prop
  | rest {bs : List UInt8} (none : decode? bs = none) : Spelling bs [] bs
  | form {v : Varint} {form bs rest : List UInt8} {vs : List Varint} (first : v.Form form)
    (others : Spelling bs vs rest) : Spelling (form ++ bs) (v :: vs) rest

theorem spelling_decodeUpTo (count : Nat) (bs : List UInt8) (h : bs.length ≤ count) :
    Spelling bs ((decodeUpTo count bs).1.map Prod.fst) (decodeUpTo count bs).2 := by
  induction count generalizing bs with
  | zero =>
    obtain rfl : bs = [] := List.eq_nil_of_length_eq_zero (by omega)
    exact .rest rfl
  | succ count ih =>
    rw [decodeUpTo]
    cases hd : decode? bs with
    | none => exact .rest hd
    | some d =>
      obtain ⟨v, rest⟩ := d
      have hlt := decode?_shortens hd
      obtain ⟨form, hform, rfl⟩ := form_of_decode? hd
      exact .form hform (ih rest (by omega))

/-- Decoding a buffer finds its integers and its rest. -/
theorem spelling_decodeAll (bs : List UInt8) :
    Spelling bs ((decodeAll bs).1.map Prod.fst) (decodeAll bs).2 :=
  spelling_decodeUpTo bs.length bs (Nat.le_refl _)

theorem Spelling.decode?_rest {bs rest : List UInt8} {vs : List Varint} (h : Spelling bs vs rest) :
    decode? rest = none := by
  induction h with
  | rest none => exact none
  | form _ _ ih => exact ih

/-- A rest that is not empty is shorter than its first byte announces. -/
theorem length_lt_of_decode?_none {b : UInt8} {bs : List UInt8} (h : decode? (b :: bs) = none) :
    (b :: bs).length < (Width.ofFirst b).size := by
  simp only [decode?] at h
  split at h
  · assumption
  · cases h

end Varint

namespace Transport

/-- The bytes to come before anything else: an end of the stream, a failure or a claim. -/
def ahead : List ReadEvent → List UInt8
  | [] => []
  | .data bytes :: events => bytes ++ ahead events
  | .pending :: events => ahead events
  | .failure cause :: events => if cause.kind = .interrupted then ahead events else []
  | .finish :: _ | .claim _ :: _ => []

/-- A transport that delivers these bytes, in pieces of any size, with interruptions and with answers
that it is not ready, and then anything at all. -/
structure Begins (t : Transport) (bytes : List UInt8) : Prop where
  chunk : t.chunk ≠ some 0
  ahead : bytes <+: Transport.ahead t.reads

theorem length_ahead_le (events : List ReadEvent) :
    (ahead events).length ≤ (events.map ReadEvent.weight).sum := by
  induction events with
  | nil => exact Nat.le_refl 0
  | cons e events ih =>
    rw [List.map_cons, List.sum_cons]
    cases e with
    | data bytes =>
      rw [ahead, List.length_append]
      exact Nat.add_le_add_left ih bytes.length
    | failure cause =>
      rw [ahead]
      split
      · exact Nat.le_add_left_of_le ih
      · exact Nat.zero_le _
    | pending => exact Nat.le_add_left_of_le ih
    | finish => exact Nat.zero_le _
    | claim n => exact Nat.zero_le _

theorem Begins.length_le {t : Transport} {bytes : List UInt8} (h : t.Begins bytes) :
    bytes.length ≤ t.weight :=
  Nat.le_trans h.ahead.length_le (length_ahead_le t.reads)

/-- A read of one byte meets the first of the bytes to come. -/
theorem readFrom_of_ahead {chunk : Option Nat} (hc : chunk ≠ some 0) {events : List ReadEvent}
    {b : UInt8} {w : List UInt8} (h : ahead events = b :: w) :
    (readFrom true chunk 1 events none).answer = .done (.stored [b]) ∧
      ahead (readFrom true chunk 1 events none).rest = w := by
  induction events with
  | nil => cases h
  | cons e events ih =>
    match e with
    | .pending => exact ih h
    | .failure cause =>
      rw [ahead] at h
      split at h
      · next hk =>
        simp only [readFrom, hk, decide_true, Bool.and_self, if_true]
        exact ih h
      · cases h
    | .finish => cases h
    | .claim n => cases h
    | .data [] => exact ih h
    | .data (c :: bs) =>
      have hone : portion chunk 1 = 1 :=
        Nat.le_antisymm (portion_le chunk 1) (portion_pos hc Nat.zero_lt_one)
      rw [ahead, List.cons_append, List.cons.injEq] at h
      obtain ⟨rfl, rfl⟩ := h
      simp only [readFrom, hone]
      exact ⟨rfl, rfl⟩

end Transport

namespace FramedStream

open FramingM

variable {s : FramedStream}

/-- The stream has these bytes to come, for a caller that waits. -/
structure Faces (s : FramedStream) (bytes : List UInt8) : Prop where
  waits : s.patience = none
  begins : s.transport.Begins bytes

theorem Listens.took {s' : FramedStream} {made : List Call} {bs : List UInt8}
    (h : Listens s s' made) (hw : s.patience = none) (hb : made.flatMap Call.delivered = bs) :
    Took s s' bs where
  patience := h.waiting hw
  limits := h.limits
  flavour := h.flavour
  unread := hb ▸ h.unread
  delivered := hb ▸ h.delivered

theorem readOnce_of_faces {b : UInt8} {w : List UInt8} (h : s.Faces (b :: w)) :
    ∃ s', readOnce 1 s = .ok (.stored [b]) s' ∧ Took s s' [b] ∧ s'.Faces w ∧
      s'.position = s.position := by
  obtain ⟨later, hahead⟩ := h.begins.ahead
  obtain ⟨hanswer, hrest⟩ := readFrom_of_ahead h.begins.chunk hahead.symm
  rw [← h.waits] at hanswer hrest
  change (s.nextRead 1).answer = .done (.stored [b]) at hanswer
  have hone : (s.nextRead 1).calls.flatMap Call.delivered = [b] := delivered_of_answer hanswer
  have hx := readOnce_eq s (Nat.le_refl 1)
  rw [hanswer] at hx
  let s' : FramedStream := { s.past (s.nextRead 1) with stats := s.stats.recordRead 1 }
  have hlistens : Listens s s' (s.nextRead 1).calls :=
    listens_nextRead 1 rfl rfl rfl rfl (by rw [hanswer]; rfl)
  refine ⟨s', hx, hlistens.took h.waits hone, ⟨hlistens.waiting h.waits, ?_⟩, rfl⟩
  exact ⟨h.begins.chunk, later, hrest.symm⟩

theorem yields_faces : Yields Faces where
  waits h := h.waits
  byte {s b w p} h hc := by
    have hfaces : Faces { s with position := p } (b :: w) := ⟨h.waits, h.begins⟩
    obtain ⟨s', hx, htook, hrest, hp⟩ := readOnce_of_faces hfaces
    refine ⟨s', ?_, ⟨htook.patience, htook.limits, htook.flavour, htook.unread,
      htook.delivered⟩, hrest, hp⟩
    rw [readByte_of_consume hc, bind_of_ok hx]
    rfl

/-! ### Reading as long as something is owed -/

section

variable {H : FramedStream → List UInt8 → Prop} {bs rest : List UInt8} {vs : List Varint}
  {fuel : Nat} {q : Position}

/-- While something is owed, one more integer is read. -/
theorem readParts_succ (ho : s.remaining? ≠ some 0) :
    readParts .integers (fuel + 1) [] s = (do
      match ← attempt (readPart .integers []) with
      | .error stop => return ([], some stop)
      | .ok (part, buffer) =>
        let (parts, stop) ← readParts .integers fuel buffer
        return (part :: parts, stop)) s := by
  rw [readParts]
  change (if s.remaining? = some 0 then _ else _ : FramingM (List Part × Option Stop)) s = _
  exact congrFun (if_neg ho) s

theorem readParts_of_ok {s₁ s₂ : FramedStream} {v : Varint} {parts : List Part}
    {stop : Option Stop} (ho : s.remaining? ≠ some 0)
    (hx : FramedStream.readVarint s = .ok v s₁)
    (hz : readParts .integers fuel [] s₁ = .ok (parts, stop) s₂) :
    readParts .integers (fuel + 1) [] s = .ok (.integer v :: parts, stop) s₂ := by
  have hpart : readPart .integers [] s = .ok (.integer v, []) s₁ := bind_of_ok hx
  rw [readParts_succ ho, bind_of_ok (attempt_of_ok hpart)]
  exact bind_of_ok hz

theorem readParts_of_error {s₁ : FramedStream} {stop : Stop} (ho : s.remaining? ≠ some 0)
    (hx : FramedStream.readVarint s = .error stop s₁) :
    readParts .integers (fuel + 1) [] s = .ok ([], some stop) s₁ := by
  have hpart : readPart .integers [] s = .error stop s₁ := bind_of_error hx
  rw [readParts_succ ho, bind_of_ok (attempt_of_error hpart)]
  rfl

theorem readParts_of_exhausted (ho : s.remaining? = some 0) :
    readParts .integers (fuel + 1) [] s = .ok ([], none) s := by
  rw [readParts]
  change (if s.remaining? = some 0 then _ else _ : FramingM (List Part × Option Stop)) s = _
  rw [if_pos ho]
  rfl

/-- Bytes that can still be counted are owed. -/
theorem remaining?_ne_of_consume {n : Nat} (hc : s.position.consume n = .ok q) (hn : 0 < n) :
    s.remaining? ≠ some 0 := by
  intro ho
  unfold FramedStream.remaining? at ho
  cases hp : s.position with
  | inFrame remaining =>
    rw [hp] at hc ho
    obtain ⟨hle, -⟩ := Position.le_of_consume_inFrame hc
    cases ho
    omega
  | idle =>
    rw [hp] at ho
    cases ho
  | poisoned =>
    rw [hp] at ho
    cases ho

/-- Reading goes through the integers that the bytes spell and on at their rest. -/
theorem readParts_of_spelling (hy : Yields H) (hs : Varint.Spelling bs vs rest) (h : H s bs)
    (hc : s.position.consume bs.length = .ok q) (hfuel : bs.length < fuel) :
    ∃ front s₁ left, bs = front ++ rest ∧ Took s s₁ front ∧ H s₁ rest ∧
      s₁.position.consume rest.length = .ok q ∧
      ∀ stop s₂, readParts .integers (left + 1) [] s₁ = .ok ([], stop) s₂ →
        readParts .integers fuel [] s = .ok (vs.map .integer, stop) s₂ := by
  induction hs generalizing s fuel with
  | rest none =>
    obtain ⟨fuel, rfl⟩ := Nat.exists_eq_add_one_of_ne_zero (Nat.ne_of_gt (Nat.zero_lt_of_lt hfuel))
    exact ⟨[], s, fuel, rfl, .refl (hy.waits h), h, hc, fun stop s₂ hx => hx⟩
  | @form v form bs rest vs first others ih =>
    have hpos : 0 < form.length := List.length_pos_iff.2 first.ne_nil
    rw [List.length_append] at hc hfuel
    have howed := remaining?_ne_of_consume hc (by omega)
    obtain ⟨p, hc₁, hc₂⟩ := Position.consume_split hc
    obtain ⟨s₁, hx, htook, hrest, hp⟩ := hy.readVarint first h hc₁
    obtain ⟨fuel, rfl⟩ := Nat.exists_eq_add_one_of_ne_zero (Nat.ne_of_gt (Nat.zero_lt_of_lt hfuel))
    obtain ⟨front, s₂, left, rfl, htook', hrest', hc', hloop⟩ :=
      ih hrest (hp ▸ hc₂) (show bs.length < fuel by omega)
    refine ⟨form ++ front, s₂, left, (List.append_assoc _ _ _).symm, htook.trans htook', hrest',
      hc', ?_⟩
    intro stop s₃ hz
    exact readParts_of_ok howed hx (hloop stop s₃ hz)

end

/-! ### Between frames and inside a frame -/

/-- Between frames, before the end of the stream. -/
theorem readWith_of_holds {b : List UInt8} {vs : List Varint} {rest : List UInt8}
    (hs : Varint.Spelling b vs rest) (h : s.Holds b) (hp : s.position = .idle) :
    ∃ f s', readWith .integers s = .ok (vs.map .integer, some (.failed f)) s' ∧ Took s s' b ∧
      (rest = [] → f = .endOfStream ∧ s'.position = .idle) ∧
      ∀ first more, rest = first :: more →
        f = .frame (.truncatedVarint (Width.ofFirst first).size) ∧ s'.position = .poisoned := by
  obtain ⟨front, s₁, left, rfl, htook, hrest, hc, hloop⟩ := readParts_of_spelling yields_holds hs h
    (idle_consume hp _) (Nat.lt_succ_of_le h.carries.length_le)
  have hp₁ := Position.idle_of_consume hc
  have howed : s₁.remaining? ≠ some 0 := by
    unfold FramedStream.remaining?
    rw [hp₁]
    nofun
  cases rest with
  | nil =>
    obtain ⟨s₂, hx, htook', hq⟩ := readVarint_of_nil hrest hp₁
    refine ⟨_, s₂, hloop _ _ (readParts_of_error howed hx), htook.trans htook', fun _ => ⟨rfl, hq⟩,
      ?_⟩
    rintro first more ⟨⟩
  | cons first more =>
    have hcut := Varint.length_lt_of_decode?_none hs.decode?_rest
    obtain ⟨s₂, hx, htook', hq⟩ := readVarint_of_cut hrest hcut hp₁
    refine ⟨_, s₂, hloop _ _ (readParts_of_error howed hx), htook.trans htook', ?_, ?_⟩
    · rintro ⟨⟩
    · rintro _ _ ⟨⟩
      exact ⟨rfl, hq⟩

/-- Inside a frame that ends with the bytes, whatever comes behind it. -/
theorem readWith_of_faces {b : List UInt8} {vs : List Varint} {rest : List UInt8}
    (hs : Varint.Spelling b vs rest) (h : s.Faces b) (hp : s.position = .inFrame b.length) :
    ∃ stop s', readWith .integers s = .ok (vs.map .integer, stop) s' ∧ Took s s' b ∧
      (rest = [] → stop = none ∧ s'.position = .inFrame 0) ∧
      (rest ≠ [] →
        stop = some (.failed (.frame (.limitExceeded 1 0))) ∧ s'.position = .poisoned) := by
  have hc : s.position.consume b.length = .ok (.inFrame 0) := by
    rw [hp, Position.consume_inFrame_of_le (Nat.le_refl _), Nat.sub_self]
  obtain ⟨front, s₁, left, rfl, htook, hrest, hc₁, hloop⟩ := readParts_of_spelling yields_faces hs h
    hc (Nat.lt_succ_of_le h.begins.length_le)
  have hp₁ : s₁.position = .inFrame rest.length := Position.inFrame_of_consume hc₁ rfl
  cases rest with
  | nil =>
    have howed : s₁.remaining? = some 0 := by
      unfold FramedStream.remaining?
      rw [hp₁]
      rfl
    refine ⟨none, s₁, hloop _ _ (readParts_of_exhausted howed), ?_, fun _ => ⟨rfl, hp₁⟩,
      fun hne => absurd rfl hne⟩
    rw [List.append_nil]
    exact htook
  | cons first more =>
    have howed := remaining?_ne_of_consume hc₁ (Nat.succ_pos more.length)
    have hcut := Varint.length_lt_of_decode?_none hs.decode?_rest
    obtain ⟨s₂, hx, htook', hq⟩ := yields_faces.readVarint_of_cut hrest hcut hc₁
      fun s₂ hs₂ hp₂ => ⟨_, endBreaks_of_frame _ (readByte_of_exhausted hp₂),
        (Took.refl hs₂.waits).poisonedBy _, s₂.position_poisonedBy _⟩
    exact ⟨_, s₂, hloop _ _ (readParts_of_error howed hx), htook.trans htook',
      fun hnil => absurd hnil (List.cons_ne_nil first more), fun _ => ⟨rfl, hq⟩⟩

/-- A stream and a buffer decode the same integers from the same bytes, none above the largest, and pull
all of the bytes. Between frames, before the end of the stream, integers are read until the stream has
ended, or is cut inside the integer that the buffer leaves over; inside a frame that ends with the bytes,
whatever follows it, they are read until nothing is owed and the frame can be closed, or the integer that
is left over goes beyond the frame. -/
theorem stream_decodes_like_buffer (b : List UInt8) :
    Varint.decode? (Varint.decodeAll b).2 = none ∧
    let vs := (Varint.decodeAll b).1.map Prod.fst
    let rest := (Varint.decodeAll b).2
    (∀ v ∈ vs, v.toNat ≤ 2 ^ 62 - 1) ∧
    (∀ s : FramedStream, s.patience = none → s.position = .idle → s.transport.Carries b →
      ∃ f s', readWith .integers s = .ok (vs.map .integer, some (.failed f)) s' ∧
        s'.transport.delivered = s.transport.delivered ++ b ∧
        s.transport.unread = b ++ s'.transport.unread ∧
        (rest = [] → f = .endOfStream ∧ s'.position = .idle) ∧
        ∀ first more, rest = first :: more →
          f = .frame (.truncatedVarint (Width.ofFirst first).size) ∧ s'.position = .poisoned) ∧
    ∀ s : FramedStream, s.patience = none → s.position = .inFrame b.length →
      s.transport.Begins b →
      ∃ stop s', readWith .integers s = .ok (vs.map .integer, stop) s' ∧
        s'.transport.delivered = s.transport.delivered ++ b ∧
        s.transport.unread = b ++ s'.transport.unread ∧
        (rest = [] → stop = none ∧ s'.position = .inFrame 0 ∧
          ∃ closed, FramedStream.closeFrame s' = .ok () closed ∧ closed.position = .idle) ∧
        (rest ≠ [] →
          stop = some (.failed (.frame (.limitExceeded 1 0))) ∧ s'.position = .poisoned) := by
  refine ⟨(Varint.spelling_decodeAll b).decode?_rest, ?_⟩
  intro vs rest
  have hs : Varint.Spelling b vs rest := Varint.spelling_decodeAll b
  refine ⟨?_, ?_, ?_⟩
  · intro v _
    exact Nat.le_sub_one_of_lt v.isLt
  · intro s hw hp h
    obtain ⟨f, s', hx, htook, hend⟩ := readWith_of_holds hs ⟨hw, h⟩ hp
    exact ⟨f, s', hx, htook.delivered, htook.unread, hend⟩
  · intro s hw hp h
    obtain ⟨stop, s', hx, htook, hwhole, hcut⟩ := readWith_of_faces hs ⟨hw, h⟩ hp
    refine ⟨stop, s', hx, htook.delivered, htook.unread, fun hnil => ?_, hcut⟩
    obtain ⟨hstop, hq⟩ := hwhole hnil
    exact ⟨hstop, hq, _, closeFrame_of_exhausted hq, rfl⟩

/-- Integers of two bytes and of one, and two bytes of one of four: cut by the end of the stream, and
going beyond a frame behind which the transport would claim bytes. -/
theorem stream_decodes_like_buffer_left : ∃ (b : List UInt8) (vs : List Varint) (s t : FramedStream),
    b = [0x40, 1, 0x25, 0x80, 7] ∧ vs.map Varint.toNat = [1, 37] ∧ s.transport.Carries b ∧
      t.transport.Begins b ∧ ¬ t.transport.Honest ∧
      (∃ s', readWith .integers s =
        .ok (vs.map .integer, some (.failed (.frame (.truncatedVarint 4)))) s') ∧
      ∃ t', readWith .integers t =
        .ok (vs.map .integer, some (.failed (.frame (.limitExceeded 1 0)))) t' := by
  let b : List UInt8 := [0x40, 1, 0x25, 0x80, 7]
  let s : FramedStream := { transport :=
    { reads := [.data [0x40], .pending, .data [1, 0x25, 0x80], .failure IoKind.interrupted, .data [7]]
      chunk := some 2 } }
  let t : FramedStream :=
    { transport := { reads := [.data [0x40, 1], .pending, .data [0x25, 0x80, 7, 9], .claim 3] }
      position := .inFrame 5
      flavour := .suspending }
  have hcarries : s.transport.Carries b :=
    ⟨by simp [s, Transport.Honest], nofun, [], by decide +kernel, trivial⟩
  have hbegins : t.transport.Begins b := ⟨nofun, [9], by decide +kernel⟩
  have hdishonest : ¬ t.transport.Honest := fun h => h 3 (by simp [t])
  have hrest : (Varint.decodeAll b).2 = [0x80, 7] := by decide +kernel
  obtain ⟨-, -, hbetween, hinside⟩ := stream_decodes_like_buffer b
  obtain ⟨f, s', hx, -, -, -, hcut⟩ := hbetween s rfl rfl hcarries
  obtain ⟨stop, t', hz, -, -, -, hbeyond⟩ := hinside t rfl rfl hbegins
  obtain ⟨rfl, -⟩ := hcut 0x80 [7] hrest
  obtain ⟨rfl, -⟩ := hbeyond (by rw [hrest]; exact List.cons_ne_nil _ _)
  exact ⟨b, _, s, t, rfl, by decide +kernel, hcarries, hbegins, hdishonest, ⟨s', hx⟩, t', hz⟩

end FramedStream

end Http3Framing
