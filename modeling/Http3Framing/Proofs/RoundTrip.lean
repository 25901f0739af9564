import Http3Framing.Proofs.Grammar
import Http3Framing.Proofs.Sending

/-! What is written is read back, also when it is cut. The bytes of frames that were written are a
row of frames in the sense of the grammar, so the frames in front of a cut are the longest row in
front of it; what is left over is no frame, and nothing exactly when the cut falls between two
frames. -/

namespace Http3Framing

open Transport

variable {most k : Nat} {frames : List (Frame.Kind × List UInt8)}

/-- Frames that were written begin the bytes that they put out. -/
theorem leading_wire (h : ∀ f ∈ frames, Sendable f ∧ f.2.length ≤ most) (rest : List UInt8) :
    Leading most (wire frames ++ rest) frames rest := by
  induction frames with
  | nil => exact .done rest
  | cons frame frames ih =>
    obtain ⟨hs, hle⟩ := h frame List.mem_cons_self
    have hmore := ih fun f hf => h f (List.mem_cons_of_mem frame hf)
    let kind : Varint := ⟨frame.1.code, hs.1⟩
    let len : Varint := ⟨frame.2.length, hs.2⟩
    have hbytes : frameBytes frame = kind.encode ++ (len.encode ++ frame.2) := by
      unfold frameBytes
      rw [encode_of_sendable hs]
      exact List.append_assoc _ _ _
    have hwire : wire (frame :: frames) ++ rest =
        kind.encode ++ (len.encode ++ (frame.2 ++ (wire frames ++ rest))) := by
      unfold wire
      rw [List.flatMap_cons, hbytes]
      simp only [List.append_assoc]
    rw [hwire]
    exact .frame kind.form_encode len.form_encode rfl hle hmore

/-- The first of them begin the bytes that they put out, too. -/
theorem leading_wire_take (h : ∀ f ∈ frames, Sendable f ∧ f.2.length ≤ most) (n : Nat)
    (rest : List UInt8) : Leading most (wire (frames.take n) ++ rest) (frames.take n) rest :=
  leading_wire (fun f hf => h f (List.mem_of_mem_take hf)) rest

theorem wire_take_append_drop (frames : List (Frame.Kind × List UInt8)) (n : Nat) :
    wire (frames.take n) ++ wire (frames.drop n) = wire frames := by
  unfold wire
  rw [← List.flatMap_append, List.take_append_drop]

theorem length_wire_take_le {m n : Nat} (h : m ≤ n) (frames : List (Frame.Kind × List UInt8)) :
    (wire (frames.take m)).length ≤ (wire (frames.take n)).length := by
  have hsplit := congrArg List.length (wire_take_append_drop (frames.take n) m)
  rw [List.length_append, List.take_take, Nat.min_eq_left h] at hsplit
  omega

/-- A cut behind the first frames leaves these whole. -/
theorem take_wire {i : Nat} (h : (wire (frames.take i)).length ≤ k) :
    (wire frames).take k = wire (frames.take i) ++
      (wire (frames.drop i)).take (k - (wire (frames.take i)).length) := by
  rw [← wire_take_append_drop frames i, List.take_append, List.take_of_length_le h]

/-- A row in front of a cut is a row in front of all bytes, so it begins the frames. -/
theorem Leading.prefix_of_take_wire {found : List (Frame.Kind × List UInt8)}
    {suffix : List UInt8} (hlead : Leading most ((wire frames).take k) found suffix)
    (h : ∀ f ∈ frames, Sendable f ∧ f.2.length ≤ most) : found <+: frames := by
  have hfound := hlead.append ((wire frames).drop k)
  rw [List.take_append_drop] at hfound
  have hall := leading_wire h []
  rw [List.append_nil] at hall
  exact hall.longest .ended hfound

/-- The bytes in front of a cut are those of the frames found there and those left over. -/
theorem Leading.length_of_take_wire {n : Nat} {suffix : List UInt8}
    (hlead : Leading most ((wire frames).take k) (frames.take n) suffix)
    (h : ∀ f ∈ frames, Sendable f ∧ f.2.length ≤ most) (hk : k ≤ (wire frames).length) :
    (wire (frames.take n)).length + suffix.length = k := by
  have hfound := hlead.append ((wire frames).drop k)
  rw [List.take_append_drop] at hfound
  have hrest := leading_wire_take h n (wire (frames.drop n))
  have hsplit := wire_take_append_drop frames n
  rw [hsplit] at hrest
  have hsuffix := congrArg List.length (hfound.rest_unique hrest)
  have hlength := congrArg List.length hsplit
  rw [List.length_append, List.length_drop] at hsuffix
  rw [List.length_append] at hlength
  omega

/-- The first `k` bytes of frames that were written: the frames that lie wholly in front of the cut
and a rest that begins no frame. -/
theorem leading_take_wire (h : ∀ f ∈ frames, Sendable f ∧ f.2.length ≤ most)
    (hk : k ≤ (wire frames).length) :
    ∃ n suffix opened failure left, n ≤ frames.length ∧
      Leading most ((wire frames).take k) (frames.take n) suffix ∧
      Deviation most suffix opened failure left ∧
      (wire (frames.take n)).length + suffix.length = k ∧
      ∀ i ≤ frames.length, (wire (frames.take i)).length ≤ k ↔ i ≤ n := by
  obtain ⟨found, suffix, opened, failure, left, hlead, hd⟩ :=
    exists_leading most ((wire frames).take k)
  have hprefix := hlead.prefix_of_take_wire h
  have hfound : found = frames.take found.length := List.prefix_iff_eq_take.1 hprefix
  rw [hfound] at hlead
  have hsize := hlead.length_of_take_wire h hk
  refine ⟨found.length, suffix, opened, failure, left, hprefix.length_le, hlead, hd, hsize, ?_⟩
  intro i hi
  constructor
  · intro hle
    rw [take_wire hle] at hlead
    have hrow := leading_wire_take h i
      ((wire (frames.drop i)).take (k - (wire (frames.take i)).length))
    have hshort := (hlead.longest hd hrow).length_le
    rw [List.length_take, List.length_take] at hshort
    have := hprefix.length_le
    omega
  · intro hle
    have hmono := length_wire_take_le hle frames
    omega

namespace FramedStream

open FramingM

/-- The bytes that a fresh stream puts out when it writes these frames. -/
def written (flavour : Flavour) (limits : Limits) (t : Transport)
    (frames : List (Frame.Kind × List UInt8)) : List UInt8 :=
  (run (writing frames) (ofTransport flavour limits t)).2.transport.output

theorem run_written (flavour : Flavour) (limits : Limits) {t : Transport} (h : t.Willing)
    (hout : t.output = []) (frames : List (Frame.Kind × List UInt8)) :
    (run (writing frames) (ofTransport flavour limits t)).1 = frames.map frameReport ∧
      written flavour limits t frames = wire (sendable frames) := by
  have hsends : (ofTransport flavour limits t).Sends := ⟨rfl, by simp [ofTransport], h⟩
  obtain ⟨s', hrun, hsent⟩ := run_writing hsends frames
  have houtput := hsent.output
  rw [show (ofTransport flavour limits t).transport.output = [] from hout] at houtput
  rw [written, hrun, wire_sendable]
  exact ⟨rfl, houtput⟩

/-- The cut falls between two frames, or in front of the first or behind the last one. -/
def AtBoundary (frames : List (Frame.Kind × List UInt8)) (k : Nat) : Prop :=
  ∃ i ≤ frames.length, (wire (frames.take i)).length = k

theorem atBoundary_zero (frames : List (Frame.Kind × List UInt8)) : AtBoundary frames 0 :=
  ⟨0, Nat.zero_le _, rfl⟩

theorem atBoundary_length (frames : List (Frame.Kind × List UInt8)) :
    AtBoundary frames (wire frames).length :=
  ⟨frames.length, Nat.le_refl _, by rw [List.take_length]⟩

/-- Frames are written one by one, each reported as done if the wire can carry it, and the output is
their bytes one after the other. A frame that the wire cannot carry is refused and not sent at all. Cut
after `k` bytes, the frames are read back as far as they lie in front of the cut. The stream then ends if
the cut falls between frames, as it does in front of the first and behind the last of them, and a frame
is broken if not. -/
theorem round_trip_cut (writer reader : Flavour) (limits limits' : Limits) {t t' : Transport}
    (hwilling : t.Willing) (hout : t.output = [])
    (hfit : ∀ f ∈ frames, f.2.length ≤ limits'.maxPayload)
    (hk : k ≤ (written writer limits t frames).length)
    (hcarries : t'.Carries ((written writer limits t frames).take k)) :
    (run (writing frames) (ofTransport writer limits t)).1 = frames.map frameReport ∧
    written writer limits t frames = wire (sendable frames) ∧
    AtBoundary (sendable frames) 0 ∧
    AtBoundary (sendable frames) (written writer limits t frames).length ∧
    ∃ n opened failure s', n ≤ (sendable frames).length ∧
      (∀ i ≤ (sendable frames).length, (wire ((sendable frames).take i)).length ≤ k ↔ i ≤ n) ∧
      walk .whole (ofTransport reader limits' t') =
        .ok (((sendable frames).take n).map Entry.ofFrame ++
          (Option.toList opened).map Entry.ofHeader, some (.failed failure)) s' ∧
      (AtBoundary (sendable frames) k →
        opened = none ∧ failure = .endOfStream ∧ s'.position = .idle) ∧
      (¬ AtBoundary (sendable frames) k →
        (∃ v, failure = .frame v) ∧ s'.position = .poisoned) := by
  obtain ⟨hreports, hwritten⟩ := run_written writer limits hwilling hout frames
  rw [hwritten] at hk hcarries ⊢
  refine ⟨hreports, rfl, atBoundary_zero _, atBoundary_length _, ?_⟩
  have hsent : ∀ f ∈ sendable frames, Sendable f ∧ f.2.length ≤ limits'.maxPayload := by
    intro f hf
    obtain ⟨hmem, hs⟩ := List.mem_filter.1 hf
    exact ⟨of_decide_eq_true hs, hfit f hmem⟩
  generalize sendable frames = sent at hk hcarries hsent
  obtain ⟨n, suffix, opened, failure, left, hn, hlead, hd, hsize, hcount⟩ :=
    leading_take_wire hsent hk
  obtain ⟨s', pulled, hwalk, -, -, hp⟩ := walk_of_leading reader limits' hcarries hlead hd
  refine ⟨n, opened, failure, s', hn, hcount, hwalk, ?_, ?_⟩
  · rintro ⟨i, hi, hik⟩
    -- no bytes are left over, or a frame fewer would have reached as far
    have hin := (hcount i hi).1 (by omega)
    have hmono := length_wire_take_le hin sent
    have hnil : suffix = [] := List.eq_nil_of_length_eq_zero (by omega)
    rcases hd.failure_cases with ⟨-, ho, hf⟩ | ⟨hne, -⟩
    · rw [if_pos hnil] at hp
      exact ⟨ho, hf, hp⟩
    · exact absurd hnil hne
  · intro hnot
    rcases hd.failure_cases with ⟨hnil, -, -⟩ | ⟨hne, hv⟩
    · rw [hnil, List.length_nil] at hsize
      exact absurd ⟨n, hn, hsize⟩ hnot
    · rw [if_neg hne] at hp
      exact ⟨hv, hp⟩

/-- Two frames, cut in the payload of the second. -/
theorem round_trip_cut_in_payload : ∃ (t t' : Transport) (failure : Failure) (s' : FramedStream),
    t.Willing ∧
      (run (writing [(.data, [0xaa]), (.headers, [0xbb, 0xcc])])
        (ofTransport .blocking .standard t)).1 = [⟨.ok .done, none⟩, ⟨.ok .done, none⟩] ∧
      written .blocking .standard t [(.data, [0xaa]), (.headers, [0xbb, 0xcc])] =
        [0, 1, 0xaa, 1, 2, 0xbb, 0xcc] ∧
      t'.Carries [0, 1, 0xaa, 1, 2, 0xbb] ∧
      (∃ entries, walk .whole (ofTransport .suspending ⟨8, 1⟩ t') =
        .ok (entries, some (.failed failure)) s') ∧
      (∃ v, failure = .frame v) ∧ s'.position = .poisoned := by
  let frames : List (Frame.Kind × List UInt8) := [(.data, [0xaa]), (.headers, [0xbb, 0xcc])]
  let t : Transport := { writes := [.accept 1, .pending, .accept 2] }
  let t' : Transport :=
    { reads := [.data [0, 1, 0xaa, 1], .failure IoKind.interrupted, .data [2, 0xbb]] }
  have hwilling : t.Willing := by simp [t, Transport.Willing, Transport.WriteEvent.takes]
  have hwritten : written .blocking .standard t frames = [0, 1, 0xaa, 1, 2, 0xbb, 0xcc] := by
    decide +kernel
  have hcarries : t'.Carries [0, 1, 0xaa, 1, 2, 0xbb] :=
    ⟨by simp [t', Transport.Honest], by simp [t'], [], rfl, trivial⟩
  have hinside : ¬ AtBoundary (sendable frames) 6 := by
    have hsizes : ∀ i ≤ (sendable frames).length,
        (wire ((sendable frames).take i)).length ≠ 6 := by decide +kernel
    rintro ⟨i, hi, hcut⟩
    exact hsizes i hi hcut
  have hk : 6 ≤ (written .blocking .standard t frames).length := by
    rw [hwritten]
    decide
  have hcut : t'.Carries ((written .blocking .standard t frames).take 6) := by
    rw [hwritten]
    exact hcarries
  obtain ⟨hreports, -, -, -, n, opened, failure, s', -, -, hwalk, -, hbroken⟩ :=
    round_trip_cut .blocking .suspending .standard ⟨8, 1⟩ hwilling rfl (by decide) hk hcut
  exact ⟨t, t', failure, s', hwilling, hreports, hwritten, hcarries, ⟨_, hwalk⟩, hbroken hinside⟩

end FramedStream

end Http3Framing
