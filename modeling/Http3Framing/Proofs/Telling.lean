import Http3Framing.Proofs.Filling
import Http3Framing.Proofs.Poisoning

/-! What a stream tells of itself. A usable stream tells of a header that it has read, of a frame that it
has closed and of the failure that poisons it, whose cause it names before if the transport is at fault,
and of nothing else; a poisoned stream is silent. So the events of a request are known from its report,
and so is whether it has poisoned the stream. -/

namespace Http3Framing

/-- How a stream tells of the failure that poisons it. -/
def Failure.told : Failure → List Event
  | transport cause => [.transportFailed cause, .poisoned (.transport cause)]
  | f => [.poisoned f]

/-- The failure that has poisoned a stream on which an operation stopped in this way. -/
def Stop.poison? : Stop → Option Failure
  | failed f => if f.poisons then some f else none
  | _ => none

theorem Stop.poison?_of_poisons {f : Failure} (h : f.poisons) : (failed f).poison? = some f := if_pos h

theorem Stop.poison?_of_not_poisons {f : Failure} (h : f.poisons = false) :
    (failed f).poison? = none := if_neg (by simp [h])

namespace FramedStream

open FramingM

variable {α β : Type} {s s₁ s' : FramedStream} {fault : Option Failure}

/-- From `s` to `s'` the stream has told of the failure that has poisoned it, if one has, and of nothing
else. -/
structure Tells (s s' : FramedStream) (fault : Option Failure) : Prop where
  events : s'.events.toList = s.events.toList ++ fault.elim [] Failure.told
  poisoned : s'.position = .poisoned ↔ fault.isSome

theorem Tells.refl (hu : s.position ≠ .poisoned) : Tells s s none :=
  ⟨(List.append_nil _).symm, fun hp => absurd hp hu, nofun⟩

theorem Tells.usable (h : Tells s s' none) : s'.position ≠ .poisoned :=
  fun hp => Bool.false_ne_true (h.poisoned.1 hp)

theorem Tells.trans (h : Tells s s₁ none) (h' : Tells s₁ s' fault) : Tells s s' fault := by
  refine ⟨?_, h'.poisoned⟩
  rw [h'.events, h.events]
  exact congrArg (· ++ _) (List.append_nil _)

/-- A usable stream that differs in nothing that it tells. -/
theorem Tells.of_eq (he : s'.events = s.events) (hu : s'.position ≠ .poisoned) : Tells s s' none :=
  ⟨by rw [he]; exact (List.append_nil _).symm, fun hp => absurd hp hu, nofun⟩

/-- How an action that ended so has told of itself. -/
def Told (s : FramedStream) : EStateM.Result Stop FramedStream α → Prop
  | .ok _ s' => Tells s s' none
  | .error stop s' => Tells s s' stop.poison?

/-- Wherever the stream is usable the action tells of what stopped it. -/
def Telling (x : FramingM α) : Prop := ∀ s, s.position ≠ .poisoned → Told s (x s)

/-! ### Putting actions together -/

theorem Told.behind {r : EStateM.Result Stop FramedStream α} (h : Tells s s₁ none)
    (hr : Told s₁ r) : Told s r := by
  cases r with
  | ok a s' => exact h.trans hr
  | error stop s' => exact h.trans hr

theorem Telling.bind {x : FramingM α} {f : α → FramingM β} (hx : Telling x)
    (hf : ∀ a, Telling (f a)) : Telling (x >>= f) := by
  intro s hu
  have hs := hx s hu
  cases hr : x s with
  | ok a s₁ =>
    rw [hr] at hs
    rw [bind_of_ok hr]
    exact .behind hs (hf a s₁ hs.usable)
  | error stop s₁ =>
    rw [hr] at hs
    rw [bind_of_error hr]
    exact hs

theorem telling_pure (a : α) : Telling (pure a : FramingM α) := fun _ hu => .refl hu

theorem telling_fail {f : Failure} (h : f.poisons = false) : Telling (fail f : FramingM α) := by
  intro s hu
  change Tells s s (Stop.failed f).poison?
  rw [Stop.poison?_of_not_poisons h]
  exact .refl hu

theorem poisonedBy_of_usable (hu : s.position ≠ .poisoned) (f : Failure) :
    s.poisonedBy f = { s with position := .poisoned, events := s.events.push (.poisoned f) } := by
  unfold FramedStream.poisonedBy
  cases hp : s.position with
  | poisoned => exact absurd hp hu
  | _ => rfl

theorem tells_poisonedBy {v : Violation} (hu : s.position ≠ .poisoned) :
    Tells s (s.poisonedBy (.frame v)) (some (.frame v)) := by
  rw [poisonedBy_of_usable hu]
  exact ⟨Array.toList_push, fun _ => rfl, fun _ => rfl⟩

theorem telling_poison {v : Violation} (h : v.losesPlace) :
    Telling (poison (.frame v) : FramingM α) := by
  intro s hu
  change Tells s (s.poisonedBy (.frame v)) (Stop.failed (.frame v)).poison?
  rw [Stop.poison?_of_poisons (f := .frame v) h]
  exact tells_poisonedBy hu

/-- A question that is refused on a usable stream does not lose its place. -/
theorem telling_ask {question : Position → Except Violation α}
    (h : ∀ p v, p ≠ .poisoned → question p = .error v → v.losesPlace = false) :
    Telling (ask question) := by
  intro s hu
  cases hq : question s.position with
  | ok a =>
    rw [ask_of_ok hq]
    exact .refl hu
  | error v =>
    rw [ask_of_error hq]
    exact telling_fail (α := α) (f := .frame v) (h _ _ hu hq) s hu

theorem telling_usable : Telling (ask Position.usable) :=
  telling_ask fun p v hp hv => by
    rw [Position.usable_eq hp] at hv
    cases hv

theorem telling_betweenFrames : Telling (ask Position.betweenFrames) :=
  telling_ask fun p v hp hv => by
    cases p with
    | idle => cases hv
    | inFrame remaining =>
      cases hv
      rfl
    | poisoned => exact absurd rfl hp

theorem telling_consume (n : Nat) : Telling (consume n) := by
  intro s hu
  unfold consume
  cases hc : s.position.consume n with
  | ok p => exact .of_eq rfl (Position.ne_poisoned_of_consume_eq hc)
  | error v => exact telling_poison (Position.losesPlace_of_consume_error hu hc) s hu

theorem telling_ended (counted : Nat) : Telling (ended counted : FramingM α) := by
  intro s hu
  unfold ended
  cases hp : s.position with
  | idle => exact telling_fail rfl s hu
  | inFrame remaining => exact telling_poison rfl s hu
  | poisoned => exact absurd hp hu

theorem telling_count (f : Stats → Stats) : Telling (count f) := fun _ hu => .of_eq rfl hu

/-- The transport is named as the cause before the stream is poisoned. -/
theorem telling_exchange (talk : Patience → Transport → Transport.Outcome α) :
    Telling (exchange talk) := by
  intro s hu
  unfold exchange
  generalize talk s.patience s.transport = o
  obtain ⟨answer, patience, transport⟩ := o
  cases answer with
  | done a => exact .of_eq rfl hu
  | failed cause =>
    simp only [poison]
    rw [poisonedBy_of_usable (by exact hu)]
    refine ⟨?_, fun _ => rfl, fun _ => rfl⟩
    simp [Stop.poison?, Failure.poisons, Failure.told]
  | dropped => exact .of_eq rfl hu

theorem Telling.endBreaks {x : FramingM α} {v : Violation} (hx : Telling x) (hv : v.losesPlace) :
    Telling (endBreaks v x) := by
  intro s hu
  have hs := hx s hu
  unfold FramingM.endBreaks
  cases hr : x s with
  | ok a s₁ =>
    rw [hr] at hs
    exact hs
  | error stop s₁ =>
    rw [hr] at hs
    by_cases hstop : stop = .failed .endOfStream
    · -- the end of the stream alone tells nothing, so all that is told is the breach
      subst hstop
      exact .behind hs (telling_poison hv s₁ hs.usable)
    · split
      · next heq =>
        cases heq
        exact absurd rfl hstop
      · exact hs

/-! ### Reading -/

theorem telling_readOnce (want : Nat) : Telling (readOnce want) :=
  (telling_exchange _).bind fun _ => (telling_count _).bind fun _ => telling_pure _

theorem telling_readByte : Telling FramedStream.readByte := by
  refine telling_usable.bind fun _ => (telling_consume 1).bind fun _ =>
    (telling_readOnce 1).bind fun d => ?_
  split
  · exact (telling_ended 1).bind fun _ => telling_pure _
  · exact telling_pure _

theorem telling_readMissing (missing : Nat) (p : Varint.Partial missing) :
    Telling (readMissing missing p) := by
  induction missing with
  | zero => exact telling_pure _
  | succ missing ih => exact (telling_readByte.endBreaks rfl).bind fun b => ih (p.push b)

theorem telling_readVarint : Telling FramedStream.readVarint :=
  telling_readByte.bind fun b => telling_readMissing _ (.start b)

theorem telling_readBlock (room : Nat) : Telling (readBlock room) := by
  refine telling_usable.bind fun _ => ?_
  split
  · exact telling_pure _
  refine (telling_ask fun _ _ _ h => by cases h).bind fun want => ?_
  split
  · exact (telling_consume room).bind fun _ => telling_pure _
  refine (telling_readOnce want).bind fun d => ?_
  split
  · exact (telling_ended 0).bind fun _ => (telling_consume _).bind fun _ => telling_pure d
  · exact (telling_consume _).bind fun _ => telling_pure d

theorem telling_nextBlock (started : Bool) (room : Nat) : Telling (nextBlock started room) := by
  unfold nextBlock
  split
  · exact (telling_readBlock room).endBreaks rfl
  · exact telling_readBlock room

/-- Filling a buffer hands out what stopped it, and has told of that. -/
theorem tells_readBlocks (fuel room : Nat) (started : Bool) (s : FramedStream)
    (hu : s.position ≠ .poisoned) :
    ∃ ds stop s', readBlocks fuel room started s = .ok (ds, stop) s' ∧
      Tells s s' (stop.bind Stop.poison?) := by
  induction fuel generalizing room started s with
  | zero => exact ⟨[], none, s, rfl, .refl hu⟩
  | succ fuel ih =>
    by_cases hr : room = 0
    · subst hr
      exact ⟨[], none, s, rfl, .refl hu⟩
    have hnext := telling_nextBlock started room s hu
    cases hx : nextBlock started room s with
    | error stop s₁ =>
      rw [hx] at hnext
      exact ⟨[], some stop, s₁, readBlocks_of_error hr hx, hnext⟩
    | ok d s₁ =>
      rw [hx] at hnext
      simp only [readBlocks, ite_on, if_neg hr]
      rw [bind_of_ok (attempt_of_ok hx)]
      by_cases hover : room < d.count
      · simp only [if_pos hover]
        exact ⟨_, _, s₁, rfl, hnext⟩
      · simp only [if_neg hover]
        obtain ⟨ds, stop, s₂, hy, htells⟩ := ih (room - d.count) true s₁ hnext.usable
        refine ⟨d :: ds, stop, s₂, ?_, hnext.trans htells⟩
        rw [bind_of_ok hy]
        rfl

theorem telling_readSteps (steps : List Nat) : Telling (readSteps steps) := by
  induction steps with
  | nil => exact telling_pure _
  | cons step steps ih =>
    intro s hu
    obtain ⟨ds, stop, s₁, hx, htells⟩ := tells_readBlocks step step false s hu
    simp only [readSteps, readExact_eq]
    rw [bind_of_ok hx]
    cases stop with
    | some stop => exact htells
    | none => exact .behind htells ((ih.bind fun _ => telling_pure _) s₁ htells.usable)

theorem telling_readPayload : Telling FramedStream.readPayload := by
  intro s hu
  cases hp : s.position with
  | idle =>
    have hx : FramedStream.readPayload s = .error (.failed (.frame .noActiveFrame)) s :=
      bind_of_error (ask_of_error (by rw [hp]; rfl))
    rw [hx]
    exact .refl hu
  | inFrame len =>
    by_cases hlt : s.limits.maxPayload < len
    · rw [readPayload_of_oversized hp hlt]
      exact telling_poison rfl s hu
    · rw [readPayload_in_steps hp (Nat.le_of_not_lt hlt)]
      exact ((telling_readSteps _).bind fun _ => telling_pure _) s hu
  | poisoned => exact absurd hp hu

/-! ### Writing -/

theorem telling_encoded {bytes : Except Failure (List UInt8)}
    (h : ∀ f, bytes = .error f → f.poisons = false) : Telling (encoded bytes) := by
  cases bytes with
  | ok bytes => exact telling_pure bytes
  | error f => exact telling_fail (h f rfl)

theorem telling_write (bytes : List UInt8) : Telling (FramedStream.write bytes) :=
  telling_usable.bind fun _ => (telling_exchange _).bind fun _ => (telling_count _).bind fun _ =>
    telling_pure _

theorem telling_writeAll (bytes : List UInt8) : Telling (FramedStream.writeAll bytes) :=
  telling_usable.bind fun _ s =>
    ((telling_exchange (Transport.writeAll s.flavour bytes)).bind fun _ => telling_count _) s

theorem telling_flush : Telling FramedStream.flush :=
  telling_usable.bind fun _ => telling_exchange _

theorem telling_writeVarint (n : Nat) : Telling (FramedStream.writeVarint n) := by
  refine telling_usable.bind fun _ => (telling_encoded fun f hf => ?_).bind telling_writeAll
  rcases Varint.checked_cases n with ⟨v, hv⟩ | ⟨hv, -⟩
  · rw [hv] at hf
    cases hf
  · rw [hv] at hf
    cases hf
    rfl

theorem telling_writeHeader (header : Frame.Header) : Telling (FramedStream.writeHeader header) := by
  refine telling_usable.bind fun _ => (telling_encoded fun f hf => ?_).bind fun bytes =>
    (telling_writeAll bytes).bind fun _ => telling_count _
  rcases header.encode_cases with ⟨bytes, hb, -⟩ | ⟨n, hb, -⟩
  · rw [hb] at hf
    cases hf
  · rw [hb] at hf
    cases hf
    rfl

theorem telling_writeFrame (kind : Frame.Kind) (payload : List UInt8) :
    Telling (FramedStream.writeFrame kind payload) :=
  (telling_writeHeader _).bind fun _ => telling_writeAll payload

/-! ### Requests -/

/-- The failure of this report that has poisoned the stream. -/
def Report.poison? (r : Report) : Option Failure :=
  match r.result with
  | .ok _ => none
  | .stopped stop => stop.poison?

/-- What a usable stream tells of an operation with this report. -/
def Operation.told : Operation → Report → List Event
  | readHeader, ⟨.ok (.header header), _⟩ => [.headerRead header]
  | closeFrame, ⟨.ok _, _⟩ => [.frameClosed]
  | _, r => r.poison?.elim [] Failure.told

/-- From `s` to `s'` the stream has told of an operation with this report, and is poisoned if the report
says so. -/
structure Reports (o : Operation) (s : FramedStream) (x : Report × FramedStream) : Prop where
  events : x.2.events.toList = s.events.toList ++ o.told x.1
  poisoned : x.2.position = .poisoned ↔ x.1.poison?.isSome

theorem Operation.told_of_poison? {o : Operation} {r : Report} {stop : Stop}
    (h : r.result = .stopped stop) : o.told r = r.poison?.elim [] Failure.told := by
  obtain ⟨result, buffer⟩ := r
  subst h
  cases o <;> rfl

section

variable {o : Operation}

theorem Tells.reports {r : Report} (h : Tells s s' r.poison?)
    (ho : o.told r = r.poison?.elim [] Failure.told) : Reports o s (r, s') :=
  ⟨h.events.trans (congrArg _ ho.symm), h.poisoned⟩

theorem reports_report {x : FramingM α} {reply : α → Reply} (hx : Telling x)
    (hu : s.position ≠ .poisoned) (ho : ∀ a, o.told ⟨.ok (reply a), none⟩ = []) :
    Reports o s (report reply x s) := by
  have hs := hx s hu
  unfold report
  cases hr : x s with
  | ok a s' =>
    rw [hr] at hs
    exact Tells.reports hs (ho a)
  | error stop s' =>
    rw [hr] at hs
    exact Tells.reports hs (Operation.told_of_poison? rfl)

theorem reports_read (buffer : List UInt8) (hu : s.position ≠ .poisoned) :
    Reports (.read buffer) s ((Operation.read buffer).perform s) := by
  have hs := telling_readBlock buffer.length s hu
  change Reports _ s (reportBlock buffer s)
  unfold reportBlock
  cases hr : readBlock buffer.length s with
  | ok d s' =>
    rw [hr] at hs
    exact Tells.reports hs rfl
  | error stop s' =>
    rw [hr] at hs
    exact Tells.reports hs rfl

theorem reports_readExact (buffer : List UInt8) (hu : s.position ≠ .poisoned) :
    Reports (.readExact buffer) s ((Operation.readExact buffer).perform s) := by
  obtain ⟨ds, stop, s', hx, htells⟩ := tells_readBlocks buffer.length buffer.length false s hu
  change Reports _ s (reportExact buffer s)
  unfold reportExact
  simp only [readExact_eq, hx]
  cases stop with
  | none => exact htells.reports rfl
  | some stop => exact htells.reports rfl

/-- A header that was read is told of once its frame is open. -/
theorem reports_readHeader (hu : s.position ≠ .poisoned) :
    Reports .readHeader s (Operation.readHeader.perform s) := by
  let head : FramingM Frame.Header := do
    ask Position.betweenFrames
    let kind ← FramedStream.readVarint
    let len ← endBreaks .truncatedHeader FramedStream.readVarint
    return ⟨.ofVarint kind, len.toNat⟩
  have hhead : Telling head :=
    telling_betweenFrames.bind fun _ => telling_readVarint.bind fun _ =>
      (telling_readVarint.endBreaks rfl).bind fun _ => telling_pure _
  have hrun : FramedStream.readHeader = head >>= fun header => (do
      openFrame header
      count Stats.recordFrameRead
      emit (.headerRead header)
      return header) := by
    simp only [FramedStream.readHeader, head, bind_assoc, pure_bind]
  have hs := hhead s hu
  simp only [Operation.perform, report, hrun]
  cases hx : head s with
  | error stop s₁ =>
    rw [hx] at hs
    rw [bind_of_error hx]
    exact Tells.reports hs rfl
  | ok header s₁ =>
    rw [hx] at hs
    rw [bind_of_ok hx]
    refine ⟨?_, by rintro ⟨⟩, by rintro ⟨⟩⟩
    have hevents : s₁.events.toList = s.events.toList := hs.events.trans (List.append_nil _)
    exact (Array.toList_push.trans (congrArg (· ++ _) hevents))

theorem reports_closeFrame (hu : s.position ≠ .poisoned) :
    Reports .closeFrame s (Operation.closeFrame.perform s) := by
  have hrefused {v : Violation} (hclose : s.position.close = .error v)
      (hv : v.losesPlace = false) : Reports .closeFrame s (Operation.closeFrame.perform s) := by
    have hx : FramedStream.closeFrame s = .error (.failed (.frame v)) s :=
      bind_of_error (ask_of_error hclose)
    have hs : Told s (fail (.frame v) s : EStateM.Result Stop FramedStream Unit) :=
      telling_fail (f := .frame v) hv s hu
    simp only [Operation.perform, report, hx]
    exact Tells.reports hs rfl
  cases hp : s.position with
  | idle => exact hrefused (v := .noActiveFrame) (by rw [hp]; rfl) rfl
  | inFrame remaining =>
    cases remaining with
    | zero =>
      simp only [Operation.perform, report, closeFrame_of_exhausted hp]
      exact ⟨Array.toList_push, by rintro ⟨⟩, by rintro ⟨⟩⟩
    | succ remaining =>
      exact hrefused (v := .frameNotConsumed (remaining + 1)) (by rw [hp]; rfl) rfl
  | poisoned => exact absurd hp hu

theorem reports_perform (o : Operation) (hu : s.position ≠ .poisoned) :
    Reports o s (o.perform s) := by
  cases o with
  | readHeader => exact reports_readHeader hu
  | readPayload => exact reports_report telling_readPayload hu fun _ => rfl
  | readByte => exact reports_report telling_readByte hu fun _ => rfl
  | readVarint => exact reports_report telling_readVarint hu fun _ => rfl
  | read buffer => exact reports_read buffer hu
  | readExact buffer => exact reports_readExact buffer hu
  | closeFrame => exact reports_closeFrame hu
  | write bytes => exact reports_report (telling_write bytes) hu fun _ => rfl
  | writeAll bytes => exact reports_report (telling_writeAll bytes) hu fun _ => rfl
  | flush => exact reports_report telling_flush hu fun _ => rfl
  | writeVarint n => exact reports_report (telling_writeVarint n) hu fun _ => rfl
  | writeHeader header => exact reports_report (telling_writeHeader header) hu fun _ => rfl
  | writeFrame kind payload =>
    exact reports_report (telling_writeFrame kind payload) hu fun _ => rfl

/-- The events of a request are those of its report, and a stream is poisoned by the request whose report
says so. -/
theorem reports_request (r : Request) (hu : s.position ≠ .poisoned) :
    Reports r.operation s (r.perform s) := by
  have h := reports_perform (s := { s with patience := s.flavour.patience r.patience }) r.operation hu
  exact ⟨h.events, h.poisoned⟩

end

end FramedStream

end Http3Framing
