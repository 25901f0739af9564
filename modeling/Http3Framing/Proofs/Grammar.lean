import Http3Framing.FramedStream.Walk
import Http3Framing.Proofs.Heading

/-! The grammar of frames on byte strings, apart from any transport: a frame is its kind, the length
of its payload and the payload, and where no frame begins the bytes deviate in one of six ways. A
walk over a stream returns the longest row of frames at the front of its bytes and stops at the
deviation behind it. -/

namespace Http3Framing

/-- A row of frames at the front of the bytes, with payloads of at most `most` bytes, and the bytes
behind it. -/
inductive Leading (most : Nat) :
    List UInt8 → List (Frame.Kind × List UInt8) → List UInt8 → Prop
  | done (rest : List UInt8) : Leading most rest [] rest
  | frame {kind len : Varint} {kindForm lenForm payload w rest : List UInt8}
    {frames : List (Frame.Kind × List UInt8)} (hk : kind.Form kindForm) (hl : len.Form lenForm)
    (size : payload.length = len.toNat) (le : payload.length ≤ most)
    (more : Leading most w frames rest) :
    Leading most (kindForm ++ (lenForm ++ (payload ++ w)))
      ((.ofVarint kind, payload) :: frames) rest

/-- Bytes that no frame begins: the header that can be read of them, the failure that names what
is wrong, and the bytes that need not be looked at to find it. -/
inductive Deviation (most : Nat) :
    List UInt8 → Option Frame.Header → Failure → List UInt8 → Prop
  | ended : Deviation most [] none .endOfStream []
  | cutKind {b : UInt8} {w : List UInt8} (short : (b :: w).length < (Width.ofFirst b).size) :
    Deviation most (b :: w) none (.frame (.truncatedVarint (Width.ofFirst b).size)) []
  | noLength {kind : Varint} {form : List UInt8} (hk : kind.Form form) :
    Deviation most form none (.frame .truncatedHeader) []
  | cutLength {kind : Varint} {form w : List UInt8} {b : UInt8} (hk : kind.Form form)
    (short : (b :: w).length < (Width.ofFirst b).size) :
    Deviation most (form ++ b :: w) none (.frame (.truncatedVarint (Width.ofFirst b).size)) []
  | oversized {kind len : Varint} {kindForm lenForm : List UInt8} (rest : List UInt8)
    (hk : kind.Form kindForm) (hl : len.Form lenForm) (lt : most < len.toNat) :
    Deviation most (kindForm ++ (lenForm ++ rest)) (some ⟨.ofVarint kind, len.toNat⟩)
      (.frame (.payloadTooLarge len.toNat most)) rest
  | cutPayload {kind len : Varint} {kindForm lenForm rest : List UInt8} (hk : kind.Form kindForm)
    (hl : len.Form lenForm) (le : len.toNat ≤ most) (short : rest.length < len.toNat) :
    Deviation most (kindForm ++ (lenForm ++ rest)) (some ⟨.ofVarint kind, len.toNat⟩)
      (.frame (.truncatedFrame (len.toNat - rest.length))) []

variable {most : Nat} {w rest suffix left : List UInt8} {opened : Option Frame.Header}
  {failure : Failure} {frames : List (Frame.Kind × List UInt8)}

/-- Every byte string begins with a frame or deviates. -/
theorem frame_or_deviation (most : Nat) (w : List UInt8) :
    (∃ kind len kindForm lenForm payload rest, Varint.Form kind kindForm ∧
        Varint.Form len lenForm ∧ payload.length = len.toNat ∧ payload.length ≤ most ∧
        w = kindForm ++ (lenForm ++ (payload ++ rest))) ∨
      ∃ opened failure left, Deviation most w opened failure left := by
  rcases Varint.form_cases w with rfl | ⟨b, more, rfl, hshort⟩ | ⟨kind, kindForm, w₁, hk, rfl⟩
  · exact .inr ⟨_, _, _, .ended⟩
  · exact .inr ⟨_, _, _, .cutKind hshort⟩
  rcases Varint.form_cases w₁ with rfl | ⟨b, more, rfl, hshort⟩ | ⟨len, lenForm, w₂, hl, rfl⟩
  · rw [List.append_nil]
    exact .inr ⟨_, _, _, .noLength hk⟩
  · exact .inr ⟨_, _, _, .cutLength hk hshort⟩
  by_cases hmost : most < len.toNat
  · exact .inr ⟨_, _, _, .oversized w₂ hk hl hmost⟩
  by_cases hshort : w₂.length < len.toNat
  · exact .inr ⟨_, _, _, .cutPayload hk hl (by omega) hshort⟩
  · have hlen : (w₂.take len.toNat).length = len.toNat := by
      rw [List.length_take]
      omega
    refine .inl ⟨kind, len, kindForm, lenForm, w₂.take len.toNat, w₂.drop len.toNat, hk, hl, hlen,
      by omega, ?_⟩
    rw [List.take_append_drop]

/-- Every byte string is a row of frames followed by a deviation. -/
theorem exists_leading (most : Nat) (w : List UInt8) :
    ∃ frames suffix opened failure left, Leading most w frames suffix ∧
      Deviation most suffix opened failure left := by
  rcases frame_or_deviation most w with
    ⟨kind, len, kindForm, lenForm, payload, rest, hk, hl, hsize, hle, hw⟩ | h
  · have hshorter : rest.length < w.length := by
      have hpos : 0 < kindForm.length := List.length_pos_iff.2 hk.ne_nil
      simp only [hw, List.length_append]
      omega
    obtain ⟨frames, suffix, opened, failure, left, hlead, hdev⟩ := exists_leading most rest
    subst hw
    exact ⟨_, suffix, opened, failure, left, .frame hk hl hsize hle hlead, hdev⟩
  · obtain ⟨opened, failure, left, hdev⟩ := h
    exact ⟨[], w, opened, failure, left, .done w, hdev⟩
termination_by w.length

/-- A frame takes up bytes. -/
theorem Leading.length_le (h : Leading most w frames rest) : frames.length ≤ w.length := by
  induction h with
  | done => exact Nat.zero_le _
  | frame hk hl size le more ih =>
    have hpos := List.length_pos_iff.2 hk.ne_nil
    simp only [List.length_append, List.length_cons]
    omega

/-- No frame begins where the bytes deviate. -/
theorem Deviation.no_frame (h : Deviation most suffix opened failure left) {kind len : Varint}
    {kindForm lenForm payload rest : List UInt8} (hk : kind.Form kindForm) (hl : len.Form lenForm)
    (hsize : payload.length = len.toNat) (hle : payload.length ≤ most) :
    suffix ≠ kindForm ++ (lenForm ++ (payload ++ rest)) := by
  intro heq
  cases h with
  | ended =>
    exact hk.ne_nil (List.append_eq_nil_iff.1 heq.symm).1
  | cutKind short => exact hk.not_short heq.symm short
  | noLength hk' =>
    have hform : suffix ++ [] = kindForm ++ (lenForm ++ (payload ++ rest)) := by
      rw [List.append_nil, heq]
    obtain ⟨-, -, hnil⟩ := hk'.unique hk hform
    exact hl.ne_nil (List.append_eq_nil_iff.1 hnil.symm).1
  | cutLength hk' short =>
    obtain ⟨-, -, hlen⟩ := hk'.unique hk heq
    exact hl.not_short hlen.symm short
  | oversized rest hk' hl' lt =>
    obtain ⟨-, -, hlen⟩ := hk'.unique hk heq
    obtain ⟨rfl, -, -⟩ := hl'.unique hl hlen
    omega
  | cutPayload hk' hl' le short =>
    obtain ⟨-, -, hlen⟩ := hk'.unique hk heq
    obtain ⟨rfl, -, rfl⟩ := hl'.unique hl hlen
    rw [List.length_append] at short
    omega

/-- The row of frames in front of a deviation is the longest. -/
theorem Leading.longest (h : Leading most w frames suffix)
    (hd : Deviation most suffix opened failure left) {others : List (Frame.Kind × List UInt8)}
    (h' : Leading most w others rest) : others <+: frames := by
  induction h generalizing others with
  | done suffix =>
    cases h' with
    | done => exact List.prefix_refl []
    | frame hk hl size le more => exact absurd rfl (hd.no_frame hk hl size le)
  | @frame kind len kindForm lenForm payload w _ frames hk hl size le more ih =>
    generalize hw : kindForm ++ (lenForm ++ (payload ++ w)) = w' at h'
    cases h' with
    | done => exact List.nil_prefix
    | frame hk' hl' size' le' more' =>
      obtain ⟨rfl, -, hlen⟩ := hk.unique hk' hw
      obtain ⟨rfl, -, hpayload⟩ := hl.unique hl' hlen
      obtain ⟨rfl, rfl⟩ := List.append_inj hpayload (size.trans size'.symm)
      exact List.cons_prefix_cons.2 ⟨rfl, ih hd more'⟩

/-- Bytes behind a row of frames change nothing in front of them. -/
theorem Leading.append (h : Leading most w frames rest) (more : List UInt8) :
    Leading most (w ++ more) frames (rest ++ more) := by
  induction h with
  | done rest => exact .done (rest ++ more)
  | frame hk hl size le _ ih =>
    simp only [List.append_assoc]
    exact .frame hk hl size le ih

/-- A row of frames fixes the bytes behind it. -/
theorem Leading.rest_unique {rest' : List UInt8} (h : Leading most w frames rest)
    (h' : Leading most w frames rest') : rest = rest' := by
  induction h with
  | done rest =>
    cases h'
    rfl
  | @frame kind len kindForm lenForm payload w _ frames hk hl size le more ih =>
    generalize hw : kindForm ++ (lenForm ++ (payload ++ w)) = w' at h'
    generalize hf : (Frame.Kind.ofVarint kind, payload) :: frames = frames' at h'
    cases h' with
    | done => cases hf
    | frame hk' hl' size' le' more' =>
      simp only [List.cons.injEq, Prod.mk.injEq] at hf
      obtain ⟨⟨-, rfl⟩, rfl⟩ := hf
      obtain ⟨-, -, hlen⟩ := hk.unique hk' hw
      obtain ⟨-, -, hpayload⟩ := hl.unique hl' hlen
      exact ih (List.append_cancel_left hpayload ▸ more')

/-- Only the end of the bytes is no frame error. -/
theorem Deviation.failure_cases (h : Deviation most suffix opened failure left) :
    suffix = [] ∧ opened = none ∧ failure = .endOfStream ∨
      suffix ≠ [] ∧ ∃ v, failure = .frame v := by
  cases h with
  | ended => exact .inl ⟨rfl, rfl, rfl⟩
  | cutKind => exact .inr ⟨List.cons_ne_nil _ _, _, rfl⟩
  | noLength hk => exact .inr ⟨hk.ne_nil, _, rfl⟩
  | cutLength => exact .inr ⟨by simp, _, rfl⟩
  | oversized _ hk => exact .inr ⟨by simp [hk.ne_nil], _, rfl⟩
  | cutPayload hk => exact .inr ⟨by simp [hk.ne_nil], _, rfl⟩

/-! ### Walking -/

namespace FramedStream

open FramingM

/-- What a walk returns of a frame that it has read. -/
def Entry.ofFrame (frame : Frame.Kind × List UInt8) : Entry :=
  ⟨⟨frame.1, frame.2.length⟩, [.block frame.2]⟩

/-- What a walk returns of a header behind which it stopped. -/
def Entry.ofHeader (header : Frame.Header) : Entry := ⟨header, []⟩

section Step

variable {s s₁ s₂ s₃ s₄ : FramedStream} {header : Frame.Header} {payload : List UInt8}
  {stop : Stop}

theorem walkWithin_of_no_header (style : Style) (fuel : Nat)
    (hx : FramedStream.readHeader s = .error stop s₁) :
    walkWithin style (fuel + 1) s = .ok ([], some stop) s₁ :=
  bind_of_ok (attempt_of_error hx)

theorem walkWithin_of_no_payload (fuel : Nat)
    (hx : FramedStream.readHeader s = .ok header s₁)
    (hy : FramedStream.readPayload s₁ = .error stop s₂) :
    walkWithin .whole (fuel + 1) s = .ok ([Entry.ofHeader header], some stop) s₂ := by
  have hpart : readPart .whole [] s₁ = .error stop s₂ := bind_of_error hy
  have hparts : readWith .whole s₁ = .ok ([], some stop) s₂ := bind_of_ok (attempt_of_error hpart)
  unfold walkWithin
  rw [bind_of_ok (attempt_of_ok hx)]
  exact bind_of_ok hparts

theorem walkWithin_of_frame {fuel : Nat} {entries : List Entry} {end? : Option Stop}
    (hx : FramedStream.readHeader s = .ok header s₁)
    (hy : FramedStream.readPayload s₁ = .ok payload s₂)
    (hz : FramedStream.closeFrame s₂ = .ok () s₃)
    (hrest : walkWithin .whole fuel s₃ = .ok (entries, end?) s₄) :
    walkWithin .whole (fuel + 1) s = .ok (⟨header, [.block payload]⟩ :: entries, end?) s₄ := by
  have hpart : readPart .whole [] s₁ = .ok (.block payload, []) s₂ := bind_of_ok hy
  have hparts : readWith .whole s₁ = .ok ([.block payload], none) s₂ :=
    bind_of_ok (attempt_of_ok hpart)
  rw [walkWithin, bind_of_ok (attempt_of_ok hx)]
  refine (bind_of_ok hparts).trans ?_
  refine (bind_of_ok (attempt_of_ok hz)).trans ?_
  exact bind_of_ok hrest

end Step

/-- At a deviation the walk stops with its failure; only the end of the bytes leaves the stream
between frames. -/
theorem walkWithin_of_deviation {s : FramedStream} (fuel : Nat) (h : s.Holds suffix)
    (hp : s.position = .idle)
    (hd : Deviation s.limits.maxPayload suffix opened failure left) :
    ∃ s' pulled, walkWithin .whole (fuel + 1) s =
        .ok (opened.toList.map Entry.ofHeader, some (.failed failure)) s' ∧
      Took s s' pulled ∧ suffix = pulled ++ left ∧
      s'.position = if suffix = [] then .idle else .poisoned := by
  cases hd with
  | ended =>
    obtain ⟨s', hx, htook, hq⟩ := readHeader_of_nil h hp
    exact ⟨s', [], walkWithin_of_no_header _ fuel hx, htook, rfl, hq⟩
  | cutKind short =>
    obtain ⟨s', hx, htook, hq⟩ := readHeader_of_cutKind h short hp
    exact ⟨s', _, walkWithin_of_no_header _ fuel hx, htook, (List.append_nil _).symm, hq⟩
  | noLength hk =>
    obtain ⟨s', hx, htook, hq⟩ := readHeader_of_noLength hk h hp
    refine ⟨s', _, walkWithin_of_no_header _ fuel hx, htook, (List.append_nil _).symm, ?_⟩
    rw [if_neg hk.ne_nil, hq]
  | cutLength hk short =>
    obtain ⟨s', hx, htook, hq⟩ := readHeader_of_cutLength hk h short hp
    refine ⟨s', _, walkWithin_of_no_header _ fuel hx, htook, (List.append_nil _).symm, ?_⟩
    rw [if_neg (by simp), hq]
  | oversized rest hk hl lt =>
    obtain ⟨s₁, hx, htook, hrest, hq⟩ := readHeader_of_forms hk hl h hp
    rw [← htook.limits] at lt ⊢
    obtain ⟨s₂, hy, htook', hq'⟩ := readPayload_of_lt hrest hq lt
    refine ⟨s₂, _, walkWithin_of_no_payload fuel hx hy, htook.trans htook', by simp, ?_⟩
    rw [if_neg (by simp [hk.ne_nil]), hq']
  | cutPayload hk hl le short =>
    obtain ⟨s₁, hx, htook, hrest, hq⟩ := readHeader_of_forms hk hl h hp
    rw [← htook.limits] at le
    obtain ⟨s₂, hy, htook', hq'⟩ := readPayload_of_cut hrest hq le short
    refine ⟨s₂, _, walkWithin_of_no_payload fuel hx hy, htook.trans htook', by simp, ?_⟩
    rw [if_neg (by simp [hk.ne_nil]), hq']

/-- A walk returns the frames in front of a deviation, one after the other. -/
theorem walkWithin_of_leading {s : FramedStream} {fuel : Nat} (h : s.Holds w)
    (hp : s.position = .idle) (hlead : Leading s.limits.maxPayload w frames suffix)
    (hd : Deviation s.limits.maxPayload suffix opened failure left)
    (hfuel : frames.length < fuel) :
    ∃ s' pulled, walkWithin .whole fuel s =
        .ok (frames.map Entry.ofFrame ++ opened.toList.map Entry.ofHeader,
          some (.failed failure)) s' ∧
      Took s s' pulled ∧ w = pulled ++ left ∧
      s'.position = if suffix = [] then .idle else .poisoned := by
  obtain ⟨fuel, rfl⟩ : ∃ n, fuel = n + 1 := ⟨fuel - 1, by omega⟩
  generalize hmost : s.limits.maxPayload = most at hlead hd
  induction hlead generalizing s fuel with
  | done suffix =>
    subst hmost
    exact walkWithin_of_deviation fuel h hp hd
  | @frame kind len kindForm lenForm payload w _ frames hk hl size le more ih =>
    obtain ⟨fuel, rfl⟩ : ∃ n, fuel = n + 1 :=
      ⟨fuel - 1, by simp only [List.length_cons] at hfuel; omega⟩
    obtain ⟨s₁, hx, htook, hrest, hq⟩ := readHeader_of_forms hk hl h hp
    rw [← size] at hx hq
    have hlimit : payload.length ≤ s₁.limits.maxPayload := by
      rw [htook.limits, hmost]
      exact le
    obtain ⟨s₂, hy, htook', hrest', hq'⟩ := readPayload_of_bytes hrest hq hlimit
    let s₃ : FramedStream := { s₂ with position := .idle, events := s₂.events.push .frameClosed }
    have hz : FramedStream.closeFrame s₂ = .ok () s₃ := closeFrame_of_exhausted hq'
    have htook'' := htook.trans htook'
    obtain ⟨s₄, pulled, hwalk, hlast, hsplit, hq''⟩ :=
      ih (s := s₃) ⟨hrest'.patience, hrest'.carries⟩ rfl fuel
        (by simp only [List.length_cons] at hfuel; omega) (by rw [← hmost, ← htook''.limits]) hd
    refine ⟨s₄, (kindForm ++ lenForm ++ payload) ++ pulled, walkWithin_of_frame hx hy hz hwalk,
      htook''.trans
        ⟨hlast.patience, hlast.limits, hlast.flavour, hlast.unread, hlast.delivered⟩, ?_, ?_⟩
    · rw [hsplit]
      simp only [List.append_assoc]
    · exact hq''

/-- A walk over a stream that carries `w`, where a row of frames and a deviation were found. -/
theorem walk_of_leading (flavour : Flavour) (limits : Limits) {t : Transport} (h : t.Carries w)
    (hlead : Leading limits.maxPayload w frames suffix)
    (hd : Deviation limits.maxPayload suffix opened failure left) :
    ∃ s' pulled, walk .whole (ofTransport flavour limits t) =
        .ok (frames.map Entry.ofFrame ++ opened.toList.map Entry.ofHeader,
          some (.failed failure)) s' ∧
      Took (ofTransport flavour limits t) s' pulled ∧ w = pulled ++ left ∧
      s'.position = if suffix = [] then .idle else .poisoned := by
  have hfuel : frames.length < t.weight + 1 :=
    Nat.lt_succ_of_le (Nat.le_trans hlead.length_le h.length_le)
  exact walkWithin_of_leading (s := ofTransport flavour limits t) ⟨rfl, h⟩ rfl hlead hd hfuel

/-- Bytes deviate in one way only: a walk finds no other. -/
theorem deviation_unique {opened' : Option Frame.Header} {failure' : Failure}
    {left' : List UInt8} (h : Deviation most suffix opened failure left)
    (h' : Deviation most suffix opened' failure' left') :
    opened = opened' ∧ failure = failure' ∧ left = left' := by
  have hcarries := Transport.carries_ofBytes suffix
  obtain ⟨s₁, pulled, hwalk, htook, hsplit, -⟩ :=
    walk_of_leading .blocking ⟨most, 1⟩ hcarries (.done suffix) h
  obtain ⟨s₂, pulled', hwalk', htook', hsplit', -⟩ :=
    walk_of_leading .blocking ⟨most, 1⟩ hcarries (.done suffix) h'
  rw [hwalk] at hwalk'
  simp only [EStateM.Result.ok.injEq, Prod.mk.injEq, Option.some.injEq, Stop.failed.injEq] at hwalk'
  obtain ⟨⟨hopened, hfailure⟩, rfl⟩ := hwalk'
  have hunread (pulled left : List UInt8) (h : Took (ofTransport .blocking ⟨most, 1⟩
      (.ofBytes suffix)) s₁ pulled) (hs : suffix = pulled ++ left) :
      left = s₁.transport.unread := by
    have hbytes : (Transport.ofBytes suffix).unread = suffix := List.append_nil suffix
    have hall : suffix = pulled ++ s₁.transport.unread := hbytes.symm.trans h.unread
    exact List.append_cancel_left (hs.symm.trans hall)
  refine ⟨?_, hfailure, (hunread _ _ htook hsplit).trans (hunread _ _ htook' hsplit').symm⟩
  cases opened <;> cases opened' <;> simp_all [Entry.ofHeader]

/-- The walk over a stream returns the longest row of frames at the front of its bytes, in whatever
pieces these arrive, and then fails by what the bytes behind the row deviate in. The stream is
left between frames when there are no such bytes and poisoned otherwise. -/
theorem walk_reads_grammar (flavour : Flavour) (limits : Limits) {t : Transport}
    {w : List UInt8} (h : t.Carries w) :
    ∃ frames suffix opened failure left s' pulled,
      walk .whole (ofTransport flavour limits t) =
          .ok (frames.map Entry.ofFrame ++ opened.toList.map Entry.ofHeader,
            some (.failed failure)) s' ∧
        Leading limits.maxPayload w frames suffix ∧
        (∀ others rest, Leading limits.maxPayload w others rest → others <+: frames) ∧
        Deviation limits.maxPayload suffix opened failure left ∧
        s'.position = (if suffix = [] then .idle else .poisoned) ∧
        w = pulled ++ left ∧ t.unread = pulled ++ s'.transport.unread := by
  obtain ⟨frames, suffix, opened, failure, left, hlead, hd⟩ :=
    exists_leading limits.maxPayload w
  obtain ⟨s', pulled, hwalk, htook, hsplit, hp⟩ := walk_of_leading flavour limits h hlead hd
  exact ⟨frames, suffix, opened, failure, left, s', pulled, hwalk, hlead,
    fun others rest h' => hlead.longest hd h', hd, hp, hsplit, htook.unread⟩

/-- A frame whose length is not in its shortest form and a frame that is cut, in two pieces. -/
theorem walk_reads_grammar_cut : ∃ (frames : List (Frame.Kind × List UInt8))
    (suffix left : List UInt8) (opened : Option Frame.Header),
      frames.map Entry.ofFrame ++ opened.toList.map Entry.ofHeader =
          [⟨⟨.data, 1⟩, [.block [0xaa]]⟩, ⟨⟨.headers, 2⟩, []⟩] ∧
        Leading 100 [0, 0x40, 1, 0xaa, 1, 2, 0xbb] frames suffix ∧
        Deviation 100 suffix opened (.frame (.truncatedFrame 1)) left := by
  let t : Transport :=
    { reads := [.data [0, 0x40, 1, 0xaa, 1], .failure IoKind.interrupted, .data [2, 0xbb]] }
  have h : t.Carries [0, 0x40, 1, 0xaa, 1, 2, 0xbb] :=
    ⟨by simp [t, Transport.Honest], by simp [t], [], rfl, trivial⟩
  have hrun : (match walk .whole (ofTransport .suspending ⟨100, 1⟩ t) with
      | .ok a _ => some a
      | .error _ _ => none) =
      some ([⟨⟨.data, 1⟩, [.block [0xaa]]⟩, ⟨⟨.headers, 2⟩, []⟩],
        some (.failed (.frame (.truncatedFrame 1)))) := by decide +kernel
  obtain ⟨frames, suffix, opened, failure, left, s', pulled, hwalk, hlead, -, hd, -⟩ :=
    walk_reads_grammar .suspending ⟨100, 1⟩ h
  rw [hwalk] at hrun
  simp only [Option.some.injEq, Prod.mk.injEq, Stop.failed.injEq] at hrun
  obtain ⟨hentries, rfl⟩ := hrun
  exact ⟨frames, suffix, left, opened, hentries, hlead, hd⟩

end FramedStream

end Http3Framing
