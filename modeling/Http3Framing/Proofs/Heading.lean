import Http3Framing.Proofs.Intake

/-! Reading integers and headers between frames, of bytes that are followed by the end of the
stream. A form at the front is read whatever follows it; bytes that end inside a form are reported
with the size that its first byte announced. -/

namespace Http3Framing.FramedStream

open FramingM

section

variable {s : FramedStream}

theorem idle_consume (hp : s.position = .idle) (n : Nat) : s.position.consume n = .ok .idle := by
  rw [hp]
  rfl

/-! ### Integers -/

/-- Streams that stand before a list of bytes of which each can be read by itself. -/
structure Yields (H : FramedStream → List UInt8 → Prop) : Prop where
  waits {s : FramedStream} {w : List UInt8} : H s w → s.patience = none
  byte {s : FramedStream} {b : UInt8} {w : List UInt8} {p : Position} : H s (b :: w) →
    s.position.consume 1 = .ok p →
    ∃ s', FramedStream.readByte s = .ok b s' ∧ Took s s' [b] ∧ H s' w ∧ s'.position = p

theorem yields_holds : Yields Holds := ⟨Holds.patience, readByte_of_cons⟩

section

variable {H : FramedStream → List UInt8 → Prop} {p q : Position}

theorem Yields.readMissing (hy : Yields H) {bs rest : List UInt8} {missing : Nat}
    (part : Varint.Partial missing) (hlen : bs.length = missing) (h : H s (bs ++ rest))
    (hc : s.position.consume missing = .ok q) :
    ∃ v s', FramedStream.readMissing missing part s = .ok v s' ∧
      v.toNat = BigEndian.extend part.value bs ∧ Took s s' bs ∧ H s' rest ∧ s'.position = q := by
  induction missing generalizing s bs with
  | zero =>
    obtain rfl : bs = [] := List.eq_nil_of_length_eq_zero hlen
    rw [Position.consume_zero (Position.ne_poisoned_of_consume hc)] at hc
    exact ⟨part.finish, s, rfl, rfl, .refl (hy.waits h), h, Except.ok.inj hc⟩
  | succ missing ih =>
    obtain ⟨b, bs, rfl⟩ := List.exists_cons_of_length_eq_add_one hlen
    rw [Nat.add_comm] at hc
    obtain ⟨p, hc₁, hc₂⟩ := Position.consume_split hc
    obtain ⟨s₁, hx, htook, hrest, hp⟩ := hy.byte h hc₁
    obtain ⟨v, s₂, hz, hv, htook', hrest', hq⟩ :=
      ih (part.push b) (Nat.succ.inj hlen) hrest (hp ▸ hc₂)
    have hbyte := endBreaks_of_ok (.truncatedVarint part.width.size) hx
    exact ⟨v, s₂, (bind_of_ok hbyte).trans hz, hv, htook.trans htook', hrest', hq⟩

/-- Too few bytes are taken, and then what comes behind them stops the integer. -/
theorem Yields.readMissing_of_cut (hy : Yields H) {w : List UInt8} {missing : Nat} {stop : Stop}
    (part : Varint.Partial missing) (h : H s w) (hw : w.length < missing)
    (hc : s.position.consume w.length = .ok q)
    (hstop : ∀ s₁, H s₁ [] → s₁.position = q → ∃ s₂,
      endBreaks (.truncatedVarint part.width.size) FramedStream.readByte s₁ = .error stop s₂ ∧
        Took s₁ s₂ [] ∧ s₂.position = .poisoned) :
    ∃ s', FramedStream.readMissing missing part s = .error stop s' ∧ Took s s' w ∧
      s'.position = .poisoned := by
  induction missing generalizing s w with
  | zero => cases hw
  | succ missing ih =>
    cases w with
    | nil =>
      rw [List.length_nil, Position.consume_zero (Position.ne_poisoned_of_consume hc)] at hc
      obtain ⟨s₁, hx, htook, hp⟩ := hstop s h (Except.ok.inj hc)
      exact ⟨s₁, bind_of_error hx, htook, hp⟩
    | cons b w =>
      rw [List.length_cons, Nat.add_comm] at hc
      obtain ⟨p, hc₁, hc₂⟩ := Position.consume_split hc
      obtain ⟨s₁, hx, htook, hrest, hp⟩ := hy.byte h hc₁
      have hbyte := endBreaks_of_ok (.truncatedVarint part.width.size) hx
      obtain ⟨s₂, hz, htook', hq⟩ :=
        ih (part.push b) hrest (Nat.lt_of_succ_lt_succ hw) (hp ▸ hc₂) hstop
      exact ⟨s₂, (bind_of_ok hbyte).trans hz, htook.trans htook', hq⟩

/-- A form at the front is read as its value, and counted in full. -/
theorem Yields.readVarint (hy : Yields H) {v : Varint} {form rest : List UInt8} (hf : v.Form form)
    (h : H s (form ++ rest)) (hc : s.position.consume form.length = .ok q) :
    ∃ s', FramedStream.readVarint s = .ok v s' ∧ Took s s' form ∧ H s' rest ∧ s'.position = q := by
  obtain ⟨w, hv, hform⟩ := id hf
  obtain ⟨b, bs, hbs, rfl, hlen⟩ := Varint.encodeAs_eq_cons hv
  rw [← hform] at hbs
  subst hbs
  have hmissing : bs.length = (Width.ofFirst b).size - 1 := by
    rw [← hlen]
    rfl
  rw [List.length_cons, Nat.add_comm, hmissing] at hc
  obtain ⟨p, hc₁, hc₂⟩ := Position.consume_split hc
  obtain ⟨s₁, hx, htook, hrest, hp⟩ := hy.byte h hc₁
  obtain ⟨v', s₂, hz, hvalue, htook', hrest', hq⟩ :=
    hy.readMissing (.start b) hmissing hrest (hp ▸ hc₂)
  -- what the bytes add up to is spelled by the same bytes
  have heq : v' = Varint.ofBytes (Width.ofFirst b) (b :: bs) :=
    Varint.ext (hvalue.trans (Varint.extend_eq_ofBytes hlen))
  obtain rfl : v = v' := by
    rw [heq]
    exact (hf.unique (Varint.form_ofBytes hlen) (rfl : (b :: bs) ++ [] = (b :: bs) ++ [])).1
  exact ⟨s₂, (bind_of_ok hx).trans hz, htook.trans htook', hrest', hq⟩

theorem Yields.readVarint_of_cut (hy : Yields H) {b : UInt8} {w : List UInt8} {stop : Stop}
    (h : H s (b :: w)) (hw : (b :: w).length < (Width.ofFirst b).size)
    (hc : s.position.consume (b :: w).length = .ok q)
    (hstop : ∀ s₁, H s₁ [] → s₁.position = q → ∃ s₂,
      endBreaks (.truncatedVarint (Width.ofFirst b).size) FramedStream.readByte s₁ =
          .error stop s₂ ∧
        Took s₁ s₂ [] ∧ s₂.position = .poisoned) :
    ∃ s', FramedStream.readVarint s = .error stop s' ∧ Took s s' (b :: w) ∧
      s'.position = .poisoned := by
  rw [List.length_cons, Nat.add_comm] at hc
  obtain ⟨p, hc₁, hc₂⟩ := Position.consume_split hc
  obtain ⟨s₁, hx, htook, hrest, hp⟩ := hy.byte h hc₁
  have hmissing : w.length < (Width.ofFirst b).size - 1 := by
    rw [List.length_cons] at hw
    omega
  obtain ⟨s₂, hz, htook', hq⟩ :=
    hy.readMissing_of_cut (.start b) hrest hmissing (hp ▸ hc₂) hstop
  exact ⟨s₂, (bind_of_ok hx).trans hz, htook.trans htook', hq⟩

end

theorem readVarint_of_nil (h : s.Holds []) (hp : s.position = .idle) :
    ∃ s', FramedStream.readVarint s = .error (.failed .endOfStream) s' ∧ Took s s' [] ∧
      s'.position = .idle := by
  obtain ⟨s', hx, htook, hq⟩ := readByte_of_nil h (idle_consume hp 1)
  rw [hp] at hx hq
  exact ⟨s', bind_of_error hx, htook, hq⟩

theorem readVarint_of_form {v : Varint} {form rest : List UInt8} (hf : v.Form form)
    (h : s.Holds (form ++ rest)) (hp : s.position = .idle) :
    ∃ s', FramedStream.readVarint s = .ok v s' ∧ Took s s' form ∧ s'.Holds rest ∧
      s'.position = .idle :=
  yields_holds.readVarint hf h (idle_consume hp form.length)

/-- The end between frames, met behind the first byte of an integer, cuts it. -/
theorem readVarint_of_cut {b : UInt8} {w : List UInt8} (h : s.Holds (b :: w))
    (hw : (b :: w).length < (Width.ofFirst b).size) (hp : s.position = .idle) :
    ∃ s', FramedStream.readVarint s =
        .error (.failed (.frame (.truncatedVarint (Width.ofFirst b).size))) s' ∧
      Took s s' (b :: w) ∧ s'.position = .poisoned := by
  apply yields_holds.readVarint_of_cut h hw (idle_consume hp _)
  intro s₁ hs₁ hp₁
  obtain ⟨s₂, hx, htook, -⟩ := readByte_of_nil hs₁ (idle_consume hp₁ 1)
  rw [hp₁] at hx
  have hbyte := endBreaks_of_end (.truncatedVarint (Width.ofFirst b).size) hx
  exact ⟨_, hbyte, htook.poisonedBy _, s₂.position_poisonedBy _⟩

/-! ### Headers -/

/-- What is left of reading a header once the kind was read. -/
theorem readHeader_of_kind {s₁ : FramedStream} {kind : Varint} (hp : s.position = .idle)
    (hx : FramedStream.readVarint s = .ok kind s₁) :
    FramedStream.readHeader s = (do
      let len ← endBreaks .truncatedHeader FramedStream.readVarint
      let header : Frame.Header := ⟨.ofVarint kind, len.toNat⟩
      openFrame header
      count Stats.recordFrameRead
      emit (.headerRead header)
      return header) s₁ := by
  have hask : ask Position.betweenFrames s = .ok () s := ask_of_ok (by rw [hp]; rfl)
  exact (bind_of_ok hask).trans (bind_of_ok hx)

theorem readHeader_of_error {s₁ : FramedStream} {stop : Stop} (hp : s.position = .idle)
    (hx : FramedStream.readVarint s = .error stop s₁) :
    FramedStream.readHeader s = .error stop s₁ := by
  have hask : ask Position.betweenFrames s = .ok () s := ask_of_ok (by rw [hp]; rfl)
  exact (bind_of_ok hask).trans (bind_of_error hx)

theorem readHeader_of_nil (h : s.Holds []) (hp : s.position = .idle) :
    ∃ s', FramedStream.readHeader s = .error (.failed .endOfStream) s' ∧ Took s s' [] ∧
      s'.position = .idle := by
  obtain ⟨s', hx, htook, hq⟩ := readVarint_of_nil h hp
  exact ⟨s', readHeader_of_error hp hx, htook, hq⟩

theorem readHeader_of_cutKind {b : UInt8} {w : List UInt8} (h : s.Holds (b :: w))
    (hw : (b :: w).length < (Width.ofFirst b).size) (hp : s.position = .idle) :
    ∃ s', FramedStream.readHeader s =
        .error (.failed (.frame (.truncatedVarint (Width.ofFirst b).size))) s' ∧
      Took s s' (b :: w) ∧ s'.position = .poisoned := by
  obtain ⟨s', hx, htook, hq⟩ := readVarint_of_cut h hw hp
  exact ⟨s', readHeader_of_error hp hx, htook, hq⟩

theorem readHeader_of_noLength {kind : Varint} {form : List UInt8} (hk : kind.Form form)
    (h : s.Holds form) (hp : s.position = .idle) :
    ∃ s', FramedStream.readHeader s = .error (.failed (.frame .truncatedHeader)) s' ∧
      Took s s' form ∧ s'.position = .poisoned := by
  rw [← List.append_nil form] at h
  obtain ⟨s₁, hx, htook, hrest, hq⟩ := readVarint_of_form hk h hp
  obtain ⟨s₂, hy, htook', -⟩ := readVarint_of_nil hrest hq
  have hlen := endBreaks_of_end .truncatedHeader hy
  have hall := htook.trans htook'
  rw [List.append_nil] at hall
  refine ⟨s₂.poisonedBy (.frame .truncatedHeader), ?_, hall.poisonedBy _,
    s₂.position_poisonedBy _⟩
  rw [readHeader_of_kind hp hx, bind_of_error hlen]

theorem readHeader_of_cutLength {kind : Varint} {form w : List UInt8} {b : UInt8}
    (hk : kind.Form form) (h : s.Holds (form ++ b :: w))
    (hw : (b :: w).length < (Width.ofFirst b).size) (hp : s.position = .idle) :
    ∃ s', FramedStream.readHeader s =
        .error (.failed (.frame (.truncatedVarint (Width.ofFirst b).size))) s' ∧
      Took s s' (form ++ b :: w) ∧ s'.position = .poisoned := by
  obtain ⟨s₁, hx, htook, hrest, hq⟩ := readVarint_of_form hk h hp
  obtain ⟨s₂, hy, htook', hq'⟩ := readVarint_of_cut hrest hw hq
  have hlen := endBreaks_of_frame .truncatedHeader hy
  refine ⟨s₂, ?_, htook.trans htook', hq'⟩
  rw [readHeader_of_kind hp hx, bind_of_error hlen]

/-- Two forms at the front are read as a header, and opening its frame is all that happens besides. -/
theorem Yields.readHeader {H : FramedStream → List UInt8 → Prop} (hy : Yields H) {kind len : Varint}
    {kindForm lenForm rest : List UInt8} (hk : kind.Form kindForm) (hl : len.Form lenForm)
    (h : H s (kindForm ++ (lenForm ++ rest))) (hp : s.position = .idle) :
    ∃ s', FramedStream.readHeader s = .ok ⟨.ofVarint kind, len.toNat⟩ { s' with
        position := .inFrame len.toNat
        stats := s'.stats.recordFrameRead
        events := s'.events.push (.headerRead ⟨.ofVarint kind, len.toNat⟩) } ∧
      Took s s' (kindForm ++ lenForm) ∧ H s' rest := by
  obtain ⟨s₁, hx, htook, hrest, hq⟩ := hy.readVarint hk h (idle_consume hp _)
  obtain ⟨s₂, hy', htook', hrest', -⟩ := hy.readVarint hl hrest (idle_consume hq _)
  have hlen := endBreaks_of_ok .truncatedHeader hy'
  exact ⟨s₂, (readHeader_of_kind hp hx).trans (bind_of_ok hlen), htook.trans htook', hrest'⟩

theorem readHeader_of_forms {kind len : Varint} {kindForm lenForm rest : List UInt8}
    (hk : kind.Form kindForm) (hl : len.Form lenForm)
    (h : s.Holds (kindForm ++ (lenForm ++ rest))) (hp : s.position = .idle) :
    ∃ s', FramedStream.readHeader s = .ok ⟨.ofVarint kind, len.toNat⟩ s' ∧
      Took s s' (kindForm ++ lenForm) ∧ s'.Holds rest ∧ s'.position = .inFrame len.toNat := by
  obtain ⟨s₁, hx, htook, hrest⟩ := yields_holds.readHeader hk hl h hp
  refine ⟨_, hx, ?_, ⟨hrest.patience, hrest.carries⟩, rfl⟩
  exact ⟨htook.patience, htook.limits, htook.flavour, htook.unread, htook.delivered⟩

end

end Http3Framing.FramedStream
