import Http3Framing.Proofs.Canonical
import Http3Framing.Proofs.Integers
import Http3Framing.Proofs.Sending
import Http3Framing.Proofs.Speaking

/-! The layout of a header. Its size, its block, the bytes that are written and the bytes that are read all
follow from one pair of integers, so they agree; and where there is no such pair, because a field is above
the range of the wire, all of them are refused with the same number. -/

namespace Http3Framing

namespace Frame.Header

variable {h : Header} {kind len : Varint} {n : Nat} {bytes : List UInt8}

/-- The fields as integers of the wire, or the failure that names the first of them that is none. -/
def fields (h : Header) : Except Failure (Varint × Varint) := do
  let kind ← Varint.checked h.kind.code
  let len ← Varint.checked h.len
  return (kind, len)

/-- The field that is named when a header is refused: the kind is looked at first. -/
def blamed (h : Header) : Nat := if h.kind.code ≤ 2 ^ 62 - 1 then h.len else h.kind.code

theorem fields_ofVarint (kind len : Varint) : fields ⟨.ofVarint kind, len.toNat⟩ = .ok (kind, len) := by
  have hkind : Varint.checked kind.toNat = .ok kind := Varint.checked_of_lt kind.isLt
  have hlen : Varint.checked len.toNat = .ok len := Varint.checked_of_lt len.isLt
  unfold fields
  rw [hlen]
  change (Varint.checked kind.toNat >>= _) = _
  rw [hkind]
  rfl

/-- A header has fields that the wire can carry, or it is refused for one that is too large. -/
theorem fields_cases (h : Header) :
    (∃ kind len, h = ⟨.ofVarint kind, len.toNat⟩ ∧ h.fields = .ok (kind, len)) ∨
      ¬ (h.kind.code ≤ 2 ^ 62 - 1 ∧ h.len ≤ 2 ^ 62 - 1) ∧ 2 ^ 62 ≤ h.blamed ∧
        h.fields = .error (.integerTooLarge h.blamed) := by
  by_cases hkind : h.kind.code ≤ 2 ^ 62 - 1
  · have hk : h.kind.code < 2 ^ 62 := Nat.lt_of_le_pred (by decide) hkind
    by_cases hlen : h.len ≤ 2 ^ 62 - 1
    · have hl : h.len < 2 ^ 62 := Nat.lt_of_le_pred (by decide) hlen
      exact .inl ⟨⟨h.kind.code, hk⟩, ⟨h.len, hl⟩, rfl, fields_ofVarint ⟨_, hk⟩ ⟨_, hl⟩⟩
    · have hl : 2 ^ 62 ≤ h.len := Nat.le_of_pred_lt (Nat.lt_of_not_le hlen)
      have hb : h.blamed = h.len := if_pos hkind
      refine .inr ⟨fun hfits => hlen hfits.2, hb ▸ hl, ?_⟩
      rw [fields, Varint.checked_of_lt hk, Varint.checked_of_le hl, hb]
      rfl
  · have hk : 2 ^ 62 ≤ h.kind.code := Nat.le_of_pred_lt (Nat.lt_of_not_le hkind)
    have hb : h.blamed = h.kind.code := if_neg hkind
    refine .inr ⟨fun hfits => hkind hfits.1, hb ▸ hk, ?_⟩
    rw [fields, Varint.checked_of_le hk, hb]
    rfl

theorem exists_fields_iff :
    (∃ kind len, h.fields = .ok (kind, len)) ↔ h.kind.code ≤ 2 ^ 62 - 1 ∧ h.len ≤ 2 ^ 62 - 1 := by
  rcases h.fields_cases with ⟨kind, len, rfl, hf⟩ | ⟨hn, -, hf⟩
  · exact iff_of_true ⟨kind, len, hf⟩ ⟨Nat.le_pred_of_lt kind.isLt, Nat.le_pred_of_lt len.isLt⟩
  · refine iff_of_false ?_ hn
    rintro ⟨kind, len, hok⟩
    rw [hf] at hok
    cases hok

theorem encode_eq (h : Header) : h.encode = h.fields.map fun x => x.1.encode ++ x.2.encode := by
  unfold encode fields
  cases Varint.checked h.kind.code with
  | error f => rfl
  | ok kind => cases Varint.checked h.len <;> rfl

theorem block_eq (h : Header) : h.block = h.fields.map fun x =>
    (Varint.padded maxSize (x.1.encode ++ x.2.encode), x.1.size + x.2.size) := by
  unfold block fields
  cases Varint.checked h.kind.code with
  | error f => rfl
  | ok kind => cases Varint.checked h.len <;> rfl

theorem encodedSize?_eq (h : Header) :
    h.encodedSize? = h.fields.toOption.map fun x => x.1.size + x.2.size := by
  unfold encodedSize? fields Varint.checked
  cases Varint.ofNat? h.kind.code with
  | none => rfl
  | some kind => cases Varint.ofNat? h.len <;> rfl

/-- A block is made of the fields, and nothing else has a size. -/
theorem block_eq_ok_iff {block : List UInt8} : h.block = .ok (block, n) ↔ ∃ kind len,
    h.fields = .ok (kind, len) ∧ block = Varint.padded maxSize (kind.encode ++ len.encode) ∧
      n = kind.size + len.size := by
  rw [block_eq]
  cases h.fields with
  | error f =>
    refine iff_of_false ?_ ?_
    · rintro ⟨⟩
    · rintro ⟨kind, len, ⟨⟩, -⟩
  | ok x =>
    constructor
    · rintro ⟨⟩
      exact ⟨x.1, x.2, rfl, rfl, rfl⟩
    · rintro ⟨kind, len, ⟨⟩, rfl, rfl⟩
      rfl

theorem encodedSize?_eq_some_iff : h.encodedSize? = some n ↔ ∃ block, h.block = .ok (block, n) := by
  rw [encodedSize?_eq, block_eq]
  cases h.fields with
  | error f =>
    refine iff_of_false ?_ ?_
    · rintro ⟨⟩
    · rintro ⟨block, ⟨⟩⟩
  | ok x =>
    constructor
    · rintro ⟨⟩
      exact ⟨_, rfl⟩
    · rintro ⟨block, ⟨⟩⟩
      rfl

theorem length_encode_append (kind len : Varint) :
    (kind.encode ++ len.encode).length = kind.size + len.size := by
  rw [List.length_append, Varint.length_encode, Varint.length_encode]

/-- The front of a block are the forms of the fields, and the rest of it is zeros. -/
theorem block_split (kind len : Varint) :
    let block := Varint.padded maxSize (kind.encode ++ len.encode)
    let n := kind.size + len.size
    2 ≤ n ∧ n ≤ 16 ∧ block.length = 16 ∧ block.take n = kind.encode ++ len.encode ∧
      block.drop n = List.replicate (16 - n) 0 := by
  intro block n
  have hlength : (kind.encode ++ len.encode).length = n := length_encode_append kind len
  have hkind : 0 < kind.size ∧ kind.size ≤ 8 := ⟨kind.width.size_pos, kind.width.size_le⟩
  have hlen : 0 < len.size ∧ len.size ≤ 8 := ⟨len.width.size_pos, len.width.size_le⟩
  have hfits : n ≤ 16 := Nat.add_le_add hkind.2 hlen.2
  have hblock : block = (kind.encode ++ len.encode) ++ List.replicate (16 - n) 0 := by
    rw [← hlength]
    rfl
  refine ⟨Nat.add_le_add hkind.1 hlen.1, hfits, ?_, ?_, ?_⟩
  · rw [hblock, List.length_append, hlength, List.length_replicate, Nat.add_sub_cancel' hfits]
  · rw [hblock, List.take_left' hlength]
  · rw [hblock, List.drop_left' hlength]

/-- Among the forms of two fields only the shortest are as short. -/
theorem forms_eq_of_length_le {kindForm lenForm : List UInt8} (hk : kind.Form kindForm)
    (hl : len.Form lenForm) (hle : (kindForm ++ lenForm).length ≤ kind.size + len.size) :
    kindForm ++ lenForm = kind.encode ++ len.encode := by
  have hkind := hk.size_le
  have hlen := hl.size_le
  rw [List.length_append] at hle
  rw [hk.length_eq_iff.1 (by omega), hl.length_eq_iff.1 (by omega)]

end Frame.Header

namespace FramedStream

open FramingM

variable {s s' : FramedStream} {header : Frame.Header}

/-- What was pulled for a header are two forms, one of its kind and one of its length. -/
theorem forms_of_readHeader (hs : s.Attended) (hx : FramedStream.readHeader s = .ok header s') :
    ∃ (kind len : Varint) (kindForm lenForm : List UInt8), header = ⟨.ofVarint kind, len.toNat⟩ ∧
      kind.Form kindForm ∧ len.Form lenForm ∧
      s'.transport.delivered = s.transport.delivered ++ (kindForm ++ lenForm) := by
  have hp : s.position = .idle := by
    apply Decidable.byContradiction
    intro hne
    obtain ⟨v, hv⟩ := readHeader_of_ne_idle hne
    rw [hv] at hx
    cases hx
  have hkind := draws_readVarint s hs
  cases hy : FramedStream.readVarint s with
  | error stop s₁ =>
    rw [readHeader_of_error hp hy] at hx
    cases hx
  | ok kind s₁ =>
    rw [hy] at hkind
    obtain ⟨kindForm, hadvance, hk⟩ := hkind
    have hlen : Leaves s₁ IsForm (endBreaks .truncatedHeader FramedStream.readVarint s₁) :=
      draws_readVarint.endBreaks .truncatedHeader (fun _ _ _ => rfl) s₁ hadvance.attended
    rw [readHeader_of_kind hp hy, bind_apply] at hx
    cases hz : endBreaks .truncatedHeader FramedStream.readVarint s₁ with
    | error stop s₂ =>
      rw [hz] at hx
      cases hx
    | ok len s₂ =>
      rw [hz] at hx hlen
      cases hx
      obtain ⟨lenForm, hadvance', hl⟩ := hlen
      refine ⟨kind, len, kindForm, lenForm, rfl, hk, hl, ?_⟩
      change s₂.transport.delivered = _
      rw [hadvance'.delivered, hadvance.delivered, List.append_assoc]

/-- These bytes stand for the header. They are put out when it is written, they are read as it wherever a
stream between frames begins with them, and nothing else that is as short is read as it. -/
structure Conveys (bytes : List UInt8) (header : Frame.Header) : Prop where
  put {s s' : FramedStream} {patience : Patience} : s.position ≠ .poisoned →
    Request.perform ⟨.writeHeader header, patience⟩ s = (⟨.ok .done, none⟩, s') →
    s'.transport.output = s.transport.output ++ bytes
  accepted {s : FramedStream} : s.position ≠ .poisoned → s.transport.Willing →
    ∃ s', Request.perform ⟨.writeHeader header, none⟩ s = (⟨.ok .done, none⟩, s')
  read {s : FramedStream} : s.position = .idle → s.transport.Begins bytes →
    ∃ s', Request.perform ⟨.readHeader, none⟩ s = (⟨.ok (.header header), none⟩, s') ∧
      Took s s' bytes ∧ s'.position = .inFrame header.len
  unique {s s' : FramedStream} {w : List UInt8} : s.transport.Honest →
    Request.perform ⟨.readHeader, none⟩ s = (⟨.ok (.header header), none⟩, s') →
    s'.transport.delivered = s.transport.delivered ++ w → w.length ≤ bytes.length → w = bytes

theorem request_refused {f : Failure} (hu : s.position ≠ .poisoned) (he : header.encode = .error f)
    (patience : Patience) : Request.perform ⟨.writeHeader header, patience⟩ s =
      (⟨.stopped (.failed f), none⟩, { s with patience := none }) := by
  let s₀ : FramedStream := { s with patience := s.flavour.patience patience }
  have hx : FramedStream.writeHeader header s₀ = .error (.failed f) s₀ := writeHeader_of_error hu he
  rw [Request.perform_report rfl, hx]

section

variable (kind len : Varint)

theorem encode_ofVarint :
    Frame.Header.encode ⟨.ofVarint kind, len.toNat⟩ = .ok (kind.encode ++ len.encode) := by
  rw [Frame.Header.encode_eq, Frame.Header.fields_ofVarint]
  rfl

theorem conveys_encode : Conveys (kind.encode ++ len.encode) ⟨.ofVarint kind, len.toNat⟩ where
  put {s s' patience} hu hx := by
    have hsays := says_writeHeader ⟨.ofVarint kind, len.toNat⟩
      (s := { s with patience := s.flavour.patience patience }) hu
    rw [Request.perform_report rfl] at hx
    cases hy : FramedStream.writeHeader ⟨.ofVarint kind, len.toNat⟩
        { s with patience := s.flavour.patience patience } with
    | error stop s₁ =>
      rw [hy] at hx
      cases hx
    | ok a s₁ =>
      rw [hy] at hx hsays
      cases hx
      obtain ⟨made, hspeaks, hspoken⟩ := hsays
      cases hspoken with
      | done put =>
        rw [encode_ofVarint] at put
        rw [Except.ok.inj put]
        exact hspeaks.output
  accepted {s} hu hw := by
    have hsends : Sends { s with patience := s.flavour.patience none } :=
      ⟨s.flavour.patience_none, hu, hw⟩
    obtain ⟨s₁, hx, -⟩ := writeHeader_of_sends hsends (encode_ofVarint kind len)
    rw [Request.perform_report rfl, hx]
    exact ⟨_, rfl⟩
  read {s} hp hb := by
    have hfaces : Faces { s with patience := s.flavour.patience none }
        (kind.encode ++ (len.encode ++ [])) := by
      rw [List.append_nil]
      exact ⟨s.flavour.patience_none, hb⟩
    obtain ⟨s₁, hx, htook, -⟩ :=
      yields_faces.readHeader kind.form_encode len.form_encode hfaces hp
    rw [Request.perform_report rfl, hx]
    exact ⟨_, rfl, ⟨rfl, htook.limits, htook.flavour, htook.unread, htook.delivered⟩, rfl⟩
  unique {s s' w} hh hx hd hle := by
    rw [Request.perform_report rfl] at hx
    cases hy : FramedStream.readHeader { s with patience := s.flavour.patience none } with
    | error stop s₁ =>
      rw [hy] at hx
      cases hx
    | ok header s₁ =>
      rw [hy] at hx
      cases hx
      obtain ⟨kind', len', kindForm, lenForm, heq, hk, hl, hdelivered⟩ :=
        forms_of_readHeader (s := { s with patience := s.flavour.patience none })
          ⟨s.flavour.patience_none, hh⟩ hy
      obtain ⟨rfl, rfl⟩ : kind = kind' ∧ len = len' := by
        cases kind; cases len; cases kind'; cases len'; cases heq
        exact ⟨rfl, rfl⟩
      obtain rfl : w = kindForm ++ lenForm := List.append_cancel_left (hd.symm.trans hdelivered)
      rw [Frame.Header.length_encode_append] at hle
      exact Frame.Header.forms_eq_of_length_le hk hl hle

end

/-- All ways of laying out a header have the same opinion of it. A size is given and a block is made if both
fields are integers of the wire. If not, the block and the writing of the header are refused with the first
field that is none, and the stream is as before. The block holds the bytes that convey the header, as many as
the size says, and zeros behind them. -/
theorem header_layouts_agree (header : Frame.Header) :
    (∀ n, header.encodedSize? = some n ↔ ∃ block, header.block = .ok (block, n)) ∧
    ((∃ n, header.encodedSize? = some n) ↔
      header.kind.code ≤ 2 ^ 62 - 1 ∧ header.len ≤ 2 ^ 62 - 1) ∧
    (header.encodedSize? = none →
      let large := if header.kind.code ≤ 2 ^ 62 - 1 then header.len else header.kind.code
      2 ^ 62 ≤ large ∧ header.block = .error (.integerTooLarge large) ∧
        ∀ (s : FramedStream) (patience : Patience), s.position ≠ .poisoned →
          Request.perform ⟨.writeHeader header, patience⟩ s =
            (⟨.stopped (.failed (.integerTooLarge large)), none⟩, { s with patience := none })) ∧
    ∀ block n, header.block = .ok (block, n) → 2 ≤ n ∧ n ≤ 16 ∧ block.length = 16 ∧
      block.drop n = List.replicate (16 - n) 0 ∧ Conveys (block.take n) header := by
  refine ⟨fun n => Frame.Header.encodedSize?_eq_some_iff, ?_, ?_, ?_⟩
  · rw [← Frame.Header.exists_fields_iff]
    simp only [Frame.Header.encodedSize?_eq_some_iff, Frame.Header.block_eq_ok_iff]
    constructor
    · rintro ⟨n, block, kind, len, hf, -⟩
      exact ⟨kind, len, hf⟩
    · rintro ⟨kind, len, hf⟩
      exact ⟨_, _, kind, len, hf, rfl, rfl⟩
  · intro hnone
    rw [Frame.Header.encodedSize?_eq] at hnone
    rcases header.fields_cases with ⟨kind, len, -, hf⟩ | ⟨-, hlarge, hf⟩
    · rw [hf] at hnone
      cases hnone
    · refine ⟨hlarge, ?_, fun s patience hu => request_refused hu ?_ patience⟩
      · rw [Frame.Header.block_eq, hf]
        rfl
      · rw [Frame.Header.encode_eq, hf]
        rfl
  · intro block n hblock
    obtain ⟨kind, len, hf, rfl, rfl⟩ := Frame.Header.block_eq_ok_iff.1 hblock
    obtain ⟨hlow, hhigh, hlength, htake, hdrop⟩ := Frame.Header.block_split kind len
    refine ⟨hlow, hhigh, hlength, hdrop, ?_⟩
    rcases header.fields_cases with ⟨kind', len', rfl, hf'⟩ | ⟨-, -, hf'⟩
    · cases hf.symm.trans hf'
      rw [htake]
      exact conveys_encode kind len
    · cases hf.symm.trans hf'

/-- A kind of one byte and a length of four, written in three pieces and read in four. -/
theorem header_layouts_agree_settings : ∃ (block : List UInt8) (s s' t t' : FramedStream),
    Frame.Header.block ⟨.settings, 16384⟩ = .ok (block, 5) ∧
      s.transport.writes = [.accept 2, .pending, .accept 1] ∧
      Request.perform ⟨.writeHeader ⟨.settings, 16384⟩, none⟩ s = (⟨.ok .done, none⟩, s') ∧
      s'.transport.output = [4, 0x80, 0, 0x40, 0] ∧
      t.transport.reads = [.data [4], .pending, .data [0x80], .failure IoKind.interrupted,
        .data [0, 0x40], .data [0, 9], .claim 1] ∧
      Request.perform ⟨.readHeader, none⟩ t = (⟨.ok (.header ⟨.settings, 16384⟩), none⟩, t') ∧
      t'.transport.delivered = [4, 0x80, 0, 0x40, 0] ∧ t'.position = .inFrame 16384 := by
  let s : FramedStream := { transport := { writes := [.accept 2, .pending, .accept 1] } }
  let t : FramedStream := { transport := { reads := [.data [4], .pending, .data [0x80],
    .failure IoKind.interrupted, .data [0, 0x40], .data [0, 9], .claim 1] } }
  let block : List UInt8 := [4, 0x80, 0, 0x40, 0] ++ List.replicate 11 0
  have hblock : Frame.Header.block ⟨.settings, 16384⟩ = .ok (block, 5) := rfl
  obtain ⟨-, -, -, hall⟩ := header_layouts_agree ⟨.settings, 16384⟩
  obtain ⟨-, -, -, -, hconveys⟩ := hall block 5 hblock
  have hs : s.position ≠ .poisoned := by simp [s]
  have hwilling : s.transport.Willing := by
    simp [s, Transport.Willing, Transport.WriteEvent.takes]
  have hbegins : t.transport.Begins (block.take 5) := ⟨by simp [t], [9], by decide +kernel⟩
  obtain ⟨s', hwritten⟩ := hconveys.accepted hs hwilling
  obtain ⟨t', hread, htook, hp⟩ := hconveys.read rfl hbegins
  exact ⟨block, s, s', t, t', hblock, rfl, hwritten, hconveys.put hs hwritten, rfl, hread,
    htook.delivered, hp⟩

end FramedStream

end Http3Framing
