import Http3Framing.Proofs.Outcome

/-! What a run puts out. Every step that its transport did not break puts out exactly the bytes that
its reply stands for, and the counters of the writing side count them. A write is refused for two reasons
only: the stream is poisoned, or a number is out of range. A write that the transport breaks leaves a
beginning of its bytes behind and poisons the stream, after which nothing more is put out: so the output
of a run is cut at most once. -/

namespace Http3Framing.FramedStream

open FramingM

namespace Operation

/-- What a step with this report has put out, if the transport did not break it. -/
def sent (o : Operation) (r : Report) : List UInt8 :=
  match r.result with
  | .ok reply => o.puts reply
  | .stopped _ => []

/-- The headers among the bytes of a step with this report. -/
def sentFrames (o : Operation) (r : Report) : Nat :=
  match r.result with
  | .ok _ => o.frames
  | .stopped _ => 0

/-- A write that the transport broke. -/
def breaks (o : Operation) (r : Report) : Bool :=
  o.sends && match r.result with
    | .stopped (.failed (.transport _)) => true
    | _ => false

theorem bytes_of_not_sends {o : Operation} (h : o.sends = false) : o.bytes = [] := by
  cases o with
  | write | writeAll | flush | writeVarint | writeHeader | writeFrame => cases h
  | _ => rfl

theorem puts_of_not_sends {o : Operation} (h : o.sends = false) (reply : Reply) :
    o.puts reply = [] := by
  unfold puts
  split
  · cases h
  · exact bytes_of_not_sends h
  · rfl

/-- A step that was broken gave no reply. -/
theorem sent_of_breaks {o : Operation} {r : Report} (h : o.breaks r) :
    o.sent r = [] ∧ o.sentFrames r = 0 := by
  cases hr : r.result with
  | ok reply => simp [breaks, hr] at h
  | stopped stop => simp only [sent, sentFrames, hr, and_self]

theorem frames_of_not_sends {o : Operation} (h : o.sends = false) : o.frames = 0 := by
  cases o with
  | writeHeader | writeFrame => cases h
  | _ => rfl

/-- The results of a write on a stream at this position. A poisoned stream refuses it, a number that is out
of range does, or the transport breaks it; otherwise it is done. -/
inductive Verdict (o : Operation) (p : Position) : Result → Prop
  | poisoned (is : p = .poisoned) : Verdict o p (.stopped (.failed (.frame .poisoned)))
  | tooLarge {n : Nat} (usable : p ≠ .poisoned) (excess : o.excess? = some n) :
    Verdict o p (.stopped (.failed (.integerTooLarge n)))
  | broken {cause : Cause} (usable : p ≠ .poisoned) (fits : o.excess? = none) :
    Verdict o p (.stopped (.failed (.transport cause)))
  | done {reply : Reply} (usable : p ≠ .poisoned) (fits : o.excess? = none) (gives : o.Gives reply) :
    Verdict o p (.ok reply)

end Operation

/-- From `s` to `s'` the counted bytes were put out, with so many headers among them, and the rest of the
bytes behind them. -/
structure PutOut (s s' : FramedStream) (counted : List UInt8) (frames : Nat) (rest : List UInt8) :
    Prop where
  output : s'.transport.output = s.transport.output ++ (counted ++ rest)
  bytesWritten : s'.stats.bytesWritten = s.stats.bytesWritten + UInt64.ofNat counted.length
  framesWritten : s'.stats.framesWritten = s.stats.framesWritten + UInt64.ofNat frames

section

variable {o : Operation} {s s₁ s₂ s' : FramedStream} {r : Report}

theorem PutOut.refl (s : FramedStream) : PutOut s s [] 0 [] :=
  ⟨(List.append_nil _).symm, (UInt64.add_zero _).symm, (UInt64.add_zero _).symm⟩

theorem PutOut.trans {a b rest : List UInt8} {m n : Nat} (h : PutOut s s₁ a m [])
    (h' : PutOut s₁ s₂ b n rest) : PutOut s s₂ (a ++ b) (m + n) rest where
  output := by simp [h'.output, h.output]
  bytesWritten := by
    rw [h'.bytesWritten, h.bytesWritten, List.length_append, UInt64.ofNat_add, UInt64.add_assoc]
  framesWritten := by
    rw [h'.framesWritten, h.framesWritten, UInt64.ofNat_add, UInt64.add_assoc]

/-- Nothing more is put out. -/
theorem PutOut.end {counted rest : List UInt8} {n : Nat} (h : PutOut s s₁ counted n rest)
    (h' : PutOut s₁ s₂ [] 0 []) : PutOut s s₂ counted n rest where
  output := by simp [h'.output, h.output]
  bytesWritten := by
    rw [h'.bytesWritten, h.bytesWritten]
    exact UInt64.add_zero _
  framesWritten := by
    rw [h'.framesWritten, h.framesWritten]
    exact UInt64.add_zero _

theorem Listens.putOut {made : List Call} (h : Listens s s' made) : PutOut s s' [] 0 [] where
  output := h.output.trans (List.append_nil _).symm
  bytesWritten := by
    rw [h.stats]
    exact (UInt64.add_zero _).symm
  framesWritten := by
    rw [h.stats]
    exact (UInt64.add_zero _).symm

/-! ### One step -/

/-- What a step is to the output: it puts out what its report stands for, or the transport breaks it and
poisons the stream. -/
def Puts (o : Operation) (r : Report) (s s' : FramedStream) : Prop :=
  (o.breaks r = false ∧ PutOut s s' (o.sent r) (o.sentFrames r) []) ∨
    o.breaks r = true ∧ s'.position = .poisoned ∧ ∃ whole part, o.Cut whole part ∧
      PutOut s s' whole (if whole = [] then 0 else 1) part

/-- The patience of the caller is nothing to the output. -/
theorem Puts.unhurried {patience patience' : Patience}
    (h : Puts o r { s with patience := patience } s') :
    Puts o r s { s' with patience := patience' } := by
  rcases h with ⟨hbreaks, hput⟩ | ⟨hbreaks, hp, whole, part, hcut, hput⟩
  · exact .inl ⟨hbreaks, hput.output, hput.bytesWritten, hput.framesWritten⟩
  · exact .inr ⟨hbreaks, hp, whole, part, hcut, hput.output, hput.bytesWritten, hput.framesWritten⟩

/-- A step of the reading side puts out nothing. -/
theorem puts_of_not_sends (ho : o.sends = false) (h : PutOut s s' [] 0 []) : Puts o r s s' := by
  have hsent : o.sent r = [] := by
    unfold Operation.sent
    split
    · exact Operation.puts_of_not_sends ho _
    · rfl
  have hframes : o.sentFrames r = 0 := by
    unfold Operation.sentFrames
    split
    · exact Operation.frames_of_not_sends ho
    · rfl
  refine .inl ⟨?_, ?_⟩
  · simp [Operation.breaks, ho]
  · rw [hsent, hframes]
    exact h

theorem puts_of_spoken {made : List Call} (ho : o.sends) (hs : Speaks s s' made)
    (h : Spoken (fun reply out => o.Gives reply ∧ out = o.puts reply) o.Cut
      (fun n => o.excess? = some n) o.frames s s' made r.result.outcome)
    (hw : s.patience = none) : Puts o r s s' := by
  cases hr : r.result with
  | ok reply =>
    rw [hr] at h
    cases h with
    | done put after stats =>
      have hbreaks : o.breaks r = false := by simp [Operation.breaks, hr]
      have hsent : o.sent r = o.puts reply := by simp only [Operation.sent, hr]
      have hframes : o.sentFrames r = o.frames := by simp only [Operation.sentFrames, hr]
      refine .inl ⟨hbreaks, ?_⟩
      rw [hsent, hframes, ← put.2]
      refine ⟨?_, ?_, ?_⟩
      · rw [hs.output, List.append_nil]
      · rw [stats]
        rfl
      · rw [stats]
        rfl
  | stopped stop =>
    have hsent : o.sent r = [] := by simp only [Operation.sent, hr]
    have hframes : o.sentFrames r = 0 := by simp only [Operation.sentFrames, hr]
    rw [hr] at h
    cases h with
    | refused _ same =>
      have hbreaks : o.breaks r = false := by simp [Operation.breaks, hr]
      refine .inl ⟨hbreaks, ?_⟩
      rw [hsent, hframes, same]
      exact .refl s
    | @broken _ whole part cut output after stats =>
      have hbreaks : o.breaks r = true := by simp [Operation.breaks, hr, ho]
      refine .inr ⟨hbreaks, after, whole, part, cut, ?_, ?_, ?_⟩
      · rw [hs.output, output]
      · rw [stats]
        rfl
      · rw [stats]
        rfl
    | dropped impatient => exact absurd hw impatient

theorem puts_of_did (h : Did o s (r, s')) (hw : s.patience = none) : Puts o r s s' := by
  cases h with
  | @misused v breach =>
    have hsends : o.sends = false := by
      cases o with
      | write | writeAll | flush | writeVarint | writeHeader | writeFrame => cases breach
      | _ => rfl
    exact puts_of_not_sends hsends (.refl s)
  | opened is _ listens =>
    subst is
    exact puts_of_not_sends rfl ⟨listens.putOut.output, listens.putOut.bytesWritten,
      listens.putOut.framesWritten⟩
  | closed is =>
    subst is
    exact puts_of_not_sends rfl ⟨(List.append_nil _).symm, (UInt64.add_zero _).symm,
      (UInt64.add_zero _).symm⟩
  | read reads _ listens => exact puts_of_not_sends reads listens.putOut
  | sent sends speaks spoken => exact puts_of_spoken sends speaks spoken hw

/-- A poisoned stream puts out nothing more. -/
theorem perform_poisoned (o : Operation) (hp : s.position = .poisoned) :
    (Request.perform ⟨o, none⟩ s).2.position = .poisoned ∧
      o.breaks (Request.perform ⟨o, none⟩ s).1 = false ∧
      o.sent (Request.perform ⟨o, none⟩ s).1 = [] ∧
      o.sentFrames (Request.perform ⟨o, none⟩ s).1 = 0 ∧
      PutOut s (Request.perform ⟨o, none⟩ s).2 [] 0 [] := by
  obtain ⟨report, hx, hreport⟩ := request_of_poisoned ⟨o, none⟩ hp
  rw [hx]
  refine ⟨hp, ?_, ?_, ?_, ⟨(PutOut.refl s).output, (PutOut.refl s).bytesWritten,
    (PutOut.refl s).framesWritten⟩⟩
  · rcases hreport with h | ⟨-, h⟩ <;> simp [Operation.breaks, h]
  · rcases hreport with h | ⟨rfl, h⟩
    · simp only [Operation.sent, h]
    · simp only [Operation.sent, h]
      rfl
  · rcases hreport with h | ⟨rfl, h⟩
    · simp only [Operation.sentFrames, h]
    · simp only [Operation.sentFrames, h]
      rfl

theorem puts_request (o : Operation) (s : FramedStream) :
    Puts o (Request.perform ⟨o, none⟩ s).1 s (Request.perform ⟨o, none⟩ s).2 := by
  by_cases hu : s.position = .poisoned
  · obtain ⟨-, hbreaks, hsent, hframes, hput⟩ := perform_poisoned o hu
    refine .inl ⟨hbreaks, ?_⟩
    rw [hsent, hframes]
    exact hput
  · obtain ⟨s₁, hdid, hs₁⟩ := did_request ⟨o, none⟩ hu
    have hwaits : s.flavour.patience none = none := by cases s.flavour <;> rfl
    rw [hs₁]
    exact (puts_of_did hdid hwaits).unhurried

/-- A number that is out of range is refused before anything is written. -/
theorem perform_of_excess {n : Nat} (hu : s.position ≠ .poisoned) (h : o.excess? = some n) :
    o.perform s = (⟨.stopped (.failed (.integerTooLarge n)), none⟩, s) := by
  have hreport {α : Type} {x : FramingM α} (reply : α → Reply)
      (hx : x s = .error (.failed (.integerTooLarge n)) s) :
      report reply x s = (⟨.stopped (.failed (.integerTooLarge n)), none⟩, s) := by
    simp only [report, hx]
  cases o with
  | writeVarint m =>
    simp only [Operation.excess?] at h
    split at h
    · next hle =>
      cases h
      have hbytes : encoded ((Varint.checked n).map Varint.encode) s =
          .error (.failed (.integerTooLarge n)) s := by
        rw [Varint.checked_of_le hle]
        rfl
      exact hreport _ ((bind_of_ok (ask_usable hu)).trans (bind_of_error hbytes))
    · cases h
  | writeHeader header => exact hreport _ (writeHeader_of_error hu (Frame.Header.encode_of_excess h))
  | writeFrame kind payload =>
    exact hreport _ (bind_of_error (writeHeader_of_error hu (Frame.Header.encode_of_excess h)))
  | _ => cases h

theorem Did.verdict (h : Did o s (r, s')) (ho : o.sends) (hw : s.patience = none)
    (hu : s.position ≠ .poisoned) (hfits : o.excess? = none) : o.Verdict s.position r.result := by
  cases h with
  | @misused v breach =>
    cases o with
    | write | writeAll | flush | writeVarint | writeHeader | writeFrame => cases breach
    | _ => cases ho
  | opened is => cases is; cases ho
  | closed is => cases is; cases ho
  | read reads => cases ho.symm.trans reads
  | sent _ _ spoken =>
    cases hr : r.result with
    | ok reply =>
      rw [hr] at spoken
      cases spoken with
      | done put => exact .done hu hfits put.1
    | stopped stop =>
      rw [hr] at spoken
      cases spoken with
      | refused tooLarge => cases hfits.symm.trans tooLarge
      | broken => exact .broken hu hfits
      | dropped impatient => exact absurd hw impatient

/-- The result of a write whose caller waits. -/
theorem verdict_request (ho : o.sends) (s : FramedStream) :
    o.Verdict s.position (Request.perform ⟨o, none⟩ s).1.result := by
  have hwaits : s.flavour.patience none = none := Flavour.patience_none s.flavour
  by_cases hu : s.position = .poisoned
  · obtain ⟨report, hx, hreport⟩ := request_of_poisoned ⟨o, none⟩ hu
    rw [hx]
    rcases hreport with h | ⟨rfl, -⟩
    · rw [h]
      exact .poisoned hu
    · cases ho
  · cases hx : o.excess? with
    | some n =>
      have hperform := perform_of_excess
        (s := { s with patience := s.flavour.patience none }) (o := o) hu hx
      simp only [Request.perform, hperform]
      exact .tooLarge hu hx
    | none =>
      obtain ⟨s₁, hdid, -⟩ := did_request ⟨o, none⟩ hu
      exact hdid.verdict ho hwaits hu hx

end

/-! ### Runs -/

/-- The steps of a run: its operations, each with its report. -/
def steps (os : List Operation) (s : FramedStream) : List (Operation × Report) :=
  os.zip (run (unhurried os) s).1

@[simp] theorem steps_nil (s : FramedStream) : steps [] s = [] := rfl

theorem steps_cons (o : Operation) (os : List Operation) (s : FramedStream) :
    steps (o :: os) s = (o, (Request.perform ⟨o, none⟩ s).1) ::
      steps os (Request.perform ⟨o, none⟩ s).2 := rfl

/-- The writes among the steps have the results that are due where the stream stands before them. -/
theorem verdict_of_steps {os : List Operation} {s : FramedStream} {i : Nat} {o : Operation}
    {r : Report} (h : (steps os s)[i]? = some (o, r)) (ho : o.sends) :
    o.Verdict (run (unhurried (os.take i)) s).2.position r.result := by
  induction os generalizing s i with
  | nil => cases h
  | cons o' os ih =>
    rw [steps_cons] at h
    cases i with
    | zero =>
      rw [List.getElem?_cons_zero] at h
      cases h
      exact verdict_request ho s
    | succ i =>
      rw [List.getElem?_cons_succ] at h
      exact ih h

/-- What the steps have put out, apart from the one that the transport broke. -/
def sent (xs : List (Operation × Report)) : List UInt8 := xs.flatMap fun x => x.1.sent x.2

/-- The headers among these bytes. -/
def sentFrames (xs : List (Operation × Report)) : Nat := (xs.map fun x => x.1.sentFrames x.2).sum

/-- The one step that the transport broke is among the steps, and its bytes were cut. Nothing was put out
after it. -/
def CutOnce (xs : List (Operation × Report)) (whole part : List UInt8) : Prop :=
  ∃ earlier o r later, xs = earlier ++ (o, r) :: later ∧ o.breaks r ∧ o.Cut whole part ∧
    (∀ x ∈ earlier ++ later, x.1.breaks x.2 = false) ∧ sent later = []

section

variable {x : Operation × Report} {xs : List (Operation × Report)} {whole part : List UInt8}

@[simp] theorem sent_nil : sent [] = [] := rfl

@[simp] theorem sentFrames_nil : sentFrames [] = 0 := rfl

@[simp] theorem sent_cons : sent (x :: xs) = x.1.sent x.2 ++ sent xs := List.flatMap_cons

@[simp] theorem sentFrames_cons : sentFrames (x :: xs) = x.1.sentFrames x.2 + sentFrames xs := by
  rw [sentFrames, List.map_cons, List.sum_cons, sentFrames]

/-- A step in front that is not broken itself. -/
theorem CutOnce.cons (hx : x.1.breaks x.2 = false) (h : CutOnce xs whole part) :
    CutOnce (x :: xs) whole part := by
  obtain ⟨earlier, o, r, later, rfl, hbreaks, hcut, hall, hnone⟩ := h
  exact ⟨x :: earlier, o, r, later, rfl, hbreaks, hcut, List.forall_mem_cons.2 ⟨hx, hall⟩, hnone⟩

end

theorem run_poisoned {s : FramedStream} (hp : s.position = .poisoned) (os : List Operation) :
    (∀ x ∈ steps os s, x.1.breaks x.2 = false) ∧ sent (steps os s) = [] ∧
      sentFrames (steps os s) = 0 ∧ PutOut s (run (unhurried os) s).2 [] 0 [] := by
  induction os generalizing s with
  | nil =>
    rw [steps_nil]
    exact ⟨List.forall_mem_nil _, sent_nil, sentFrames_nil, .refl s⟩
  | cons o os ih =>
    obtain ⟨hp', hbreaks, hsent, hframes, hput⟩ := perform_poisoned o hp
    obtain ⟨hall, hrest, hframes', hput'⟩ := ih hp'
    rw [steps_cons]
    refine ⟨List.forall_mem_cons.2 ⟨hbreaks, hall⟩, ?_, ?_, hput.trans hput'⟩
    · rw [sent_cons, hsent, hrest]
      rfl
    · rw [sentFrames_cons, hframes, hframes']

/-- The output of a run is what was there before, then the bytes of its steps in order: the first `n`
bytes of a write that took `n`, all bytes of a longer write, an integer in its shortest form, a header or
a header and its payload; and, if the transport broke a write, the beginning of the bytes of that write,
which ends the output. The counters of the writing side have counted the bytes of the steps and, of a
broken frame, the header if it is out. A write that gives no reply and is not broken was refused: because
the stream was poisoned before, or for a number of its own that is out of range. -/
theorem output_exact (os : List Operation) (s : FramedStream) :
    (∀ (i : Nat) (o : Operation) (r : Report), (steps os s)[i]? = some (o, r) → o.sends →
      o.Verdict (run (unhurried (os.take i)) s).2.position r.result) ∧
    ∃ whole part,
      (run (unhurried os) s).2.transport.output =
        s.transport.output ++ (sent (steps os s) ++ whole ++ part) ∧
      (run (unhurried os) s).2.stats.bytesWritten =
        s.stats.bytesWritten + UInt64.ofNat (sent (steps os s) ++ whole).length ∧
      (run (unhurried os) s).2.stats.framesWritten =
        s.stats.framesWritten +
          UInt64.ofNat (sentFrames (steps os s) + if whole = [] then 0 else 1) ∧
      ((whole = [] ∧ part = [] ∧ ∀ x ∈ steps os s, x.1.breaks x.2 = false) ∨
        CutOnce (steps os s) whole part) := by
  refine ⟨fun i o r => verdict_of_steps, ?_⟩
  suffices h : ∃ whole part, PutOut s (run (unhurried os) s).2 (sent (steps os s) ++ whole)
      (sentFrames (steps os s) + if whole = [] then 0 else 1) part ∧
      ((whole = [] ∧ part = [] ∧ ∀ x ∈ steps os s, x.1.breaks x.2 = false) ∨
        CutOnce (steps os s) whole part) by
    obtain ⟨whole, part, hput, hcut⟩ := h
    exact ⟨whole, part, hput.output, hput.bytesWritten, hput.framesWritten, hcut⟩
  induction os generalizing s with
  | nil =>
    rw [steps_nil, sent_nil, sentFrames_nil]
    exact ⟨[], [], .refl s, .inl ⟨rfl, rfl, List.forall_mem_nil _⟩⟩
  | cons o os ih =>
    rw [steps_cons, sent_cons, sentFrames_cons]
    rcases puts_request o s with ⟨hbreaks, hput⟩ | ⟨hbreaks, hp, whole, part, hcut, hput⟩
    · -- the step is whole: the rest of the run follows it
      obtain ⟨whole, part, hrest, hcut⟩ := ih (Request.perform ⟨o, none⟩ s).2
      refine ⟨whole, part, ?_, ?_⟩
      · rw [List.append_assoc, Nat.add_assoc]
        exact hput.trans hrest
      · rcases hcut with ⟨hwhole, hpart, hall⟩ | hcut
        · exact .inl ⟨hwhole, hpart, List.forall_mem_cons.2 ⟨hbreaks, hall⟩⟩
        · exact .inr (hcut.cons hbreaks)
    · -- the step is broken: nothing follows it
      obtain ⟨hall, hnone, hframes, hrest⟩ := run_poisoned hp os
      obtain ⟨hsent, hsentFrames⟩ := Operation.sent_of_breaks hbreaks
      refine ⟨whole, part, ?_, .inr ⟨[], o, _, _, rfl, hbreaks, hcut, hall, hnone⟩⟩
      rw [hsent, hsentFrames, hnone, hframes, List.append_nil, List.nil_append, Nat.zero_add]
      exact hput.end hrest

/-- An interruption cuts the write of a caller that does not insist. -/
example : (run (unhurried [.writeAll [7, 8]]) (ofTransport (.suspending false) .standard
    { writes := [.accept 1, .failure IoKind.interrupted] })).2.transport.output = [7] := by
  decide +kernel

end Http3Framing.FramedStream
