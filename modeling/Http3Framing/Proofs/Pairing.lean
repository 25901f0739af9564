import Http3Framing.Proofs.Reading

/-! Actions side by side. On two streams that a relation pairs, two actions match when they end with
paired values or with paired stops and leave streams that are paired again. Whatever looks only at the
positions and the limits of paired streams, and moves, counts and tells on both alike, matches itself; so
every operation matches itself as soon as the exchanges with the transport that it is made of do. The
writing side asks for less: it sees no more of a position than whether it is usable. -/

namespace Http3Framing

namespace FramingM

open FramedStream

/-- What is counted on a stream: bytes or a frame, on either side. -/
inductive Tally : (Stats → Stats) → Prop
  | read (n : Nat) : Tally (·.recordRead n)
  | write (n : Nat) : Tally (·.recordWrite n)
  | frameRead : Tally Stats.recordFrameRead
  | frameWritten : Tally Stats.recordFrameWritten

/-- Paired streams are both usable or both not, and stay paired when both are poisoned, counted or
told. -/
class Peers (M : FramedStream → FramedStream → Prop) : Prop where
  usable {s s' : FramedStream} : M s s' → s.position.usable = s'.position.usable
  spoil {s s' : FramedStream} :
    M s s' → M { s with position := .poisoned } { s' with position := .poisoned }
  count {s s' : FramedStream} {f : Stats → Stats} (hf : Tally f) :
    M s s' → M { s with stats := f s.stats } { s' with stats := f s'.stats }
  tell {s s' : FramedStream} (events events' : Array Event) :
    M s s' → M { s with events } { s' with events := events' }

/-- Paired streams stand even at the same place under the same limits, and stay paired when both are
moved. -/
class Pairing (M : FramedStream → FramedStream → Prop) : Prop extends Peers M where
  position {s s' : FramedStream} : M s s' → s.position = s'.position
  limits {s s' : FramedStream} : M s s' → s.limits = s'.limits
  place {s s' : FramedStream} (p : Position) :
    M s s' → M { s with position := p } { s' with position := p }
  usable := fun h => congrArg Position.usable (position h)
  spoil := fun h => place .poisoned h

variable {M : FramedStream → FramedStream → Prop} {R : Stop → Stop → Prop} {α β : Type}
  {V : α → α → Prop} {W : β → β → Prop}

/-- Two results with paired values, or with paired stops, on paired streams. -/
inductive Agree (M : FramedStream → FramedStream → Prop) (R : Stop → Stop → Prop)
    (V : α → α → Prop) : EStateM.Result Stop FramedStream α →
      EStateM.Result Stop FramedStream α → Prop
  | ok {a a' : α} {s s' : FramedStream} (hV : V a a') (h : M s s') :
    Agree M R V (.ok a s) (.ok a' s')
  | error {stop stop' : Stop} {s s' : FramedStream} (hR : R stop stop') (h : M s s') :
    Agree M R V (.error stop s) (.error stop' s')

/-- The actions end alike on paired streams. -/
def Matches (M : FramedStream → FramedStream → Prop) (R : Stop → Stop → Prop) (V : α → α → Prop)
    (x y : FramingM α) : Prop :=
  ∀ s s', M s s' → Agree M R V (x s) (y s')

/-- The action ends in the same way on paired streams. -/
abbrev Steady (M : FramedStream → FramedStream → Prop) (x : FramingM α) : Prop :=
  Matches M Eq Eq x x

theorem Steady.matches {x : FramingM α} (h : Steady M x) (hR : ∀ stop, R stop stop) :
    Matches M R Eq x x := by
  intro s s' hs
  have hx := h s s' hs
  generalize x s = r, x s' = r' at hx
  cases hx with
  | ok hV hm => exact .ok hV hm
  | error heq hm => exact .error (heq ▸ hR _) hm

theorem Matches.seq {x y : FramingM α} {f g : α → FramingM β} (hx : Matches M R V x y)
    (hf : ∀ a b, V a b → Matches M R W (f a) (g b)) : Matches M R W (x >>= f) (y >>= g) := by
  intro s s' hs
  have hxy := hx s s' hs
  rw [bind_apply, bind_apply]
  generalize x s = r, y s' = r' at hxy
  cases hxy with
  | ok hV hm => exact hf _ _ hV _ _ hm
  | error hR hm => exact .error hR hm

/-- Behind actions with the same value. -/
theorem Matches.bind {x y : FramingM α} {f g : α → FramingM β} (hx : Matches M R Eq x y)
    (hf : ∀ a, Matches M R W (f a) (g a)) : Matches M R W (x >>= f) (y >>= g) := by
  refine hx.seq ?_
  rintro a _ rfl
  exact hf a

theorem matches_pure {a a' : α} (h : V a a') :
    Matches M R V (pure a : FramingM α) (pure a') := fun _ _ hs => .ok h hs

theorem steady_pure (a : α) : Steady M (pure a : FramingM α) := matches_pure rfl

theorem matches_throw (stop : Stop) (hR : R stop stop) :
    Matches M R V (throw stop : FramingM α) (throw stop) := fun _ _ hs => .error hR hs

theorem steady_throw (stop : Stop) : Steady M (throw stop : FramingM α) := matches_throw stop rfl

theorem steady_fail (f : Failure) : Steady M (fail f : FramingM α) := steady_throw _

section Peers

variable [Peers M]

theorem Peers.poisonedBy {s s' : FramedStream} (h : M s s') (f f' : Failure) :
    M (s.poisonedBy f) (s'.poisonedBy f') := by
  have hpoisoned : s.position.isPoisoned = s'.position.isPoisoned := by
    have hu : s.position.usable = s'.position.usable := Peers.usable h
    generalize s.position = p, s'.position = p' at hu
    cases p <;> cases p' <;> first | rfl | cases hu
  unfold FramedStream.poisonedBy
  rw [← hpoisoned]
  split
  · exact h
  · exact Peers.tell _ _ (Peers.spoil h)

theorem steady_poison (f : Failure) : Steady M (poison f : FramingM α) :=
  fun _ _ h => .error rfl (Peers.poisonedBy h f f)

theorem steady_usable : Steady M (ask Position.usable) := by
  intro s s' h
  have hu : s.position.usable = s'.position.usable := Peers.usable h
  unfold ask
  rw [← hu]
  cases s.position.usable with
  | ok a => exact .ok rfl h
  | error v => exact .error rfl h

theorem steady_emit (e : Event) : Steady M (emit e) := fun _ _ h => .ok rfl (Peers.tell _ _ h)

theorem steady_count {f : Stats → Stats} (hf : Tally f) : Steady M (count f) :=
  fun _ _ h => .ok rfl (Peers.count hf h)

theorem Steady.endBreaks {x : FramingM α} (v : Violation) (h : Steady M x) :
    Steady M (endBreaks v x) := by
  intro s s' hs
  have hx := h s s' hs
  unfold FramingM.endBreaks
  generalize x s = r, x s' = r' at hx
  cases hx with
  | ok hV hm => exact .ok hV hm
  | @error stop _ s₁ s₂ heq hm =>
    subst heq
    by_cases hstop : stop = .failed .endOfStream
    · subst hstop
      exact steady_poison _ s₁ s₂ hm
    · split
      · next heq =>
        cases heq
        exact absurd rfl hstop
      · split
        · next heq =>
          cases heq
          exact absurd rfl hstop
        · exact .error rfl hm

omit [Peers M] in
theorem Steady.attempt {x : FramingM α} (h : Steady M x) : Steady M (attempt x) := by
  intro s s' hs
  have hx := h s s' hs
  unfold FramingM.attempt
  generalize x s = r, x s' = r' at hx
  cases hx with
  | ok hV hm => exact .ok (congrArg Except.ok hV) hm
  | error heq hm => exact .ok (congrArg Except.error heq) hm

/-- Two exchanges of paired streams that are answered alike and leave them paired. -/
structure Echoes (M : FramedStream → FramedStream → Prop) (R : Stop → Stop → Prop)
    (s s' : FramedStream) (o o' : Transport.Outcome α) : Prop where
  answer : o.answer = o'.answer ∨ ∃ c c', o.answer = .failed c ∧ o'.answer = .failed c' ∧
    R (.failed (.transport c)) (.failed (.transport c'))
  streams : M { s with transport := o.transport, patience := o.patience }
    { s' with transport := o'.transport, patience := o'.patience }

theorem matches_exchange {talk talk' : Patience → Transport → Transport.Outcome α}
    (hR : ∀ stop, R stop stop)
    (h : ∀ s s', M s s' →
      Echoes M R s s' (talk s.patience s.transport) (talk' s'.patience s'.transport)) :
    Matches M R Eq (exchange talk) (exchange talk') := by
  intro s s' hs
  obtain ⟨ha, hm⟩ := h s s' hs
  unfold exchange
  generalize talk s.patience s.transport = o, talk' s'.patience s'.transport = o' at ha hm
  obtain ⟨answer, patience, transport⟩ := o
  obtain ⟨answer', patience', transport'⟩ := o'
  have hfailed (c c' : Cause) (hc : R (.failed (.transport c)) (.failed (.transport c'))) :
      Agree M R Eq
        (poison (.transport c) { s with
          transport, patience, events := s.events.push (.transportFailed c) })
        (poison (.transport c') { s' with
          transport := transport', patience := patience',
          events := s'.events.push (.transportFailed c') } :
            EStateM.Result Stop FramedStream α) :=
    .error hc (Peers.poisonedBy (Peers.tell _ _ hm) _ _)
  rcases ha with rfl | ⟨c, c', rfl, rfl, hc⟩
  · cases answer with
    | done a => exact .ok rfl hm
    | failed c => exact hfailed c c (hR _)
    | dropped => exact .error (hR _) hm
  · exact hfailed c c' hc

end Peers

section Paired

variable [Pairing M]

theorem steady_ask (question : Position → Except Violation α) : Steady M (ask question) := by
  intro s s' h
  have hp : s.position = s'.position := Pairing.position h
  unfold ask
  rw [← hp]
  cases question s.position with
  | ok a => exact .ok rfl h
  | error v => exact .error rfl h

theorem steady_consume (n : Nat) : Steady M (consume n) := by
  intro s s' h
  have hp : s.position = s'.position := Pairing.position h
  unfold consume
  rw [← hp]
  cases s.position.consume n with
  | ok p => exact .ok rfl (Pairing.place p h)
  | error v => exact steady_poison _ s s' h

theorem steady_ended (counted : Nat) : Steady M (ended counted : FramingM α) := by
  intro s s' h
  have hp : s.position = s'.position := Pairing.position h
  unfold ended
  rw [← hp]
  cases s.position.cutShort? counted with
  | none => exact steady_fail _ s s' h
  | some v => exact steady_poison _ s s' h

end Paired

end FramingM

namespace FramedStream

open FramingM

variable {M : FramedStream → FramedStream → Prop} {R : Stop → Stop → Prop}

/-! ### Reading -/

section Reading

variable [Pairing M]

theorem steady_readByte (h : Steady M (readOnce 1)) : Steady M FramedStream.readByte := by
  refine .bind (steady_ask _) fun _ => .bind (steady_consume 1) fun _ => .bind h fun d => ?_
  split
  · exact .bind (steady_ended 1) fun _ => steady_pure _
  · exact steady_pure _

theorem steady_readMissing (h : Steady M (readOnce 1)) (missing : Nat)
    (p : Varint.Partial missing) : Steady M (readMissing missing p) := by
  induction missing with
  | zero => exact steady_pure _
  | succ missing ih => exact .bind ((steady_readByte h).endBreaks _) fun b => ih (p.push b)

theorem steady_readVarint (h : Steady M (readOnce 1)) : Steady M FramedStream.readVarint :=
  .bind (steady_readByte h) fun b => steady_readMissing h _ (.start b)

theorem steady_openFrame (header : Frame.Header) : Steady M (openFrame header) :=
  fun _ _ h => .ok rfl (Pairing.place _ h)

theorem steady_readHeader (h : Steady M (readOnce 1)) : Steady M FramedStream.readHeader :=
  .bind (steady_ask _) fun _ => .bind (steady_readVarint h) fun _ =>
    .bind ((steady_readVarint h).endBreaks _) fun _ => .bind (steady_openFrame _) fun _ =>
      .bind (steady_count .frameRead) fun _ => .bind (steady_emit _) fun _ => steady_pure _

/-! A stream whose reads match themselves whatever they ask for fills its buffers alike. -/

section Filling

variable (h : ∀ want, Steady M (readOnce want))

include h

theorem steady_readBlock (room : Nat) : Steady M (readBlock room) := by
  refine .bind (steady_ask _) fun _ => ?_
  split
  · exact steady_pure _
  refine .bind (steady_ask _) fun want => ?_
  split
  · exact .bind (steady_consume room) fun _ => steady_pure _
  refine .bind (h want) fun d => ?_
  split
  · exact .bind (steady_ended 0) fun _ => .bind (steady_consume _) fun _ => steady_pure d
  · exact .bind (steady_consume _) fun _ => steady_pure d

theorem steady_nextBlock (started : Bool) (room : Nat) : Steady M (nextBlock started room) := by
  unfold nextBlock
  split
  · exact (steady_readBlock h room).endBreaks _
  · exact steady_readBlock h room

theorem steady_readBlocks (fuel room : Nat) (started : Bool) :
    Steady M (readBlocks fuel room started) := by
  induction fuel generalizing room started with
  | zero => exact steady_pure _
  | succ fuel ih =>
    unfold readBlocks
    split
    · exact steady_pure _
    refine .bind (steady_nextBlock h started room).attempt fun o => ?_
    cases o with
    | error stop => exact steady_pure _
    | ok d =>
      simp only
      split
      · exact steady_pure _
      · exact .bind (ih _ true) fun _ => steady_pure _

theorem steady_readExact (room : Nat) : Steady M (FramedStream.readExact room) := by
  rw [readExact_eq]
  exact steady_readBlocks h room room false

end Filling

/-- Deliveries that are paired by `V` and the same reason to stop. -/
def Blocks (V : List Delivery → List Delivery → Prop) (r r' : List Delivery × Option Stop) : Prop :=
  V r.1 r'.1 ∧ r.2 = r'.2

section Steps

variable {V : List Delivery → List Delivery → Prop}

omit [Pairing M] in
theorem matches_readSteps (hnil : V [] [])
    (happend : ∀ ds ds' es es', V ds ds' → V es es' → V (ds ++ es) (ds' ++ es'))
    (h : ∀ room, Matches M Eq (Blocks V) (FramedStream.readExact room) (FramedStream.readExact room))
    (steps : List Nat) : Matches M Eq V (readSteps steps) (readSteps steps) := by
  induction steps with
  | nil => exact matches_pure hnil
  | cons step steps ih =>
    refine (h step).seq ?_
    rintro ⟨ds, stop⟩ ⟨ds', _⟩ ⟨hds, rfl⟩
    cases stop with
    | some stop => exact matches_throw stop rfl
    | none => exact ih.seq fun es es' hes => matches_pure (happend ds ds' es es' hds hes)

/-- A payload does not show the pieces in which it arrived. -/
theorem steady_readPayload (h : ∀ steps, Matches M Eq V (readSteps steps) (readSteps steps))
    (hoverlay : ∀ ds ds' old, V ds ds' → Delivery.overlay ds old = Delivery.overlay ds' old) :
    Steady M FramedStream.readPayload := by
  refine .bind (steady_ask _) fun len => ?_
  let body (l : Limits) : FramingM (List UInt8) := do
    if l.maxPayload < len then poison (.frame (.payloadTooLarge len l.maxPayload))
    let ds ← readRounds l len len 0
    return Delivery.overlay ds (List.replicate len 0)
  have hread (l : Limits) : Steady M (do
      let ds ← readRounds l len len 0
      return Delivery.overlay ds (List.replicate len 0)) := by
    rw [readRounds_steps]
    exact (h _).seq fun ds ds' hds => matches_pure (hoverlay ds ds' _ hds)
  have hbody (l : Limits) : Steady M (body l) := by
    simp only [body]
    split
    · exact .bind (steady_poison _) fun _ => hread l
    · exact hread l
  intro s s' hs
  have hl : s.limits = s'.limits := Pairing.limits hs
  change Agree M Eq Eq (body s.limits s) (body s'.limits s')
  rw [← hl]
  exact hbody s.limits s s' hs

end Steps

theorem steady_closeFrame : Steady M FramedStream.closeFrame :=
  .bind (steady_ask _) fun p =>
    .bind (fun _ _ h => .ok rfl (Pairing.place p h)) fun _ => steady_emit _

end Reading

/-! ### Writing -/

section Writing

variable [Peers M]

theorem steady_write {bytes : List UInt8} (h : Steady M (exchange (Transport.write bytes))) :
    Steady M (FramedStream.write bytes) :=
  .bind steady_usable fun _ => .bind h fun n => .bind (steady_count (.write n)) fun _ => steady_pure n

theorem steady_flush (h : Steady M (exchange Transport.flush)) : Steady M FramedStream.flush :=
  .bind steady_usable fun _ => h

/-- Callers of each their kind, who write the same bytes. -/
theorem matches_writeAll {bytes : List UInt8} (hR : ∀ stop, R stop stop)
    (h : ∀ s s', M s s' → Matches M R Eq (exchange (Transport.writeAll s.flavour bytes))
      (exchange (Transport.writeAll s'.flavour bytes))) :
    Matches M R Eq (FramedStream.writeAll bytes) (FramedStream.writeAll bytes) := by
  refine .bind (steady_usable.matches hR) fun _ s s' hs => ?_
  have hrun : Matches M R Eq
      (do exchange (Transport.writeAll s.flavour bytes); count (·.recordWrite bytes.length))
      (do exchange (Transport.writeAll s'.flavour bytes); count (·.recordWrite bytes.length)) :=
    .bind (h s s' hs) fun _ => (steady_count (.write _)).matches hR
  exact hrun s s' hs

omit [Peers M] in
theorem steady_encoded (bytes : Except Failure (List UInt8)) : Steady M (encoded bytes) := by
  unfold encoded
  split
  · exact steady_pure _
  · exact steady_fail _

section

variable (hR : ∀ stop, R stop stop)
  (h : ∀ bytes, Matches M R Eq (FramedStream.writeAll bytes) (FramedStream.writeAll bytes))

include hR h

theorem matches_writeVarint (n : Nat) :
    Matches M R Eq (FramedStream.writeVarint n) (FramedStream.writeVarint n) :=
  .bind (steady_usable.matches hR) fun _ => .bind ((steady_encoded _).matches hR) h

theorem matches_writeHeader (header : Frame.Header) :
    Matches M R Eq (FramedStream.writeHeader header) (FramedStream.writeHeader header) :=
  .bind (steady_usable.matches hR) fun _ =>
    .bind ((steady_encoded _).matches hR) fun bytes =>
      .bind (h bytes) fun _ => (steady_count .frameWritten).matches hR

theorem matches_writeFrame (kind : Frame.Kind) (payload : List UInt8) :
    Matches M R Eq (FramedStream.writeFrame kind payload) (FramedStream.writeFrame kind payload) :=
  .bind (matches_writeHeader hR h _) fun _ => h payload

end

end Writing

/-! ### Operations -/

/-- Two reports of which `A` holds, from streams that are paired afterwards. -/
def Together (M : FramedStream → FramedStream → Prop) (A : Report → Report → Prop)
    (r r' : Report × FramedStream) : Prop :=
  A r.1 r'.1 ∧ M r.2 r'.2

/-- What the operations of the reading side are made of matches itself: single bytes end in the same
way, longer blocks in pieces that `V` pairs. -/
structure Intakes (M : FramedStream → FramedStream → Prop)
    (V : List Delivery → List Delivery → Prop) : Prop where
  readOnce : Steady M (readOnce 1)
  readExact (room : Nat) :
    Matches M Eq (Blocks V) (FramedStream.readExact room) (FramedStream.readExact room)
  nil : V [] []
  append (ds ds' es es' : List Delivery) : V ds ds' → V es es' → V (ds ++ es) (ds' ++ es')
  overlay (ds ds' : List Delivery) (old : List UInt8) :
    V ds ds' → Delivery.overlay ds old = Delivery.overlay ds' old

/-- What the operations of the writing side are made of matches itself; long writes may stop for reasons
that `R` pairs. -/
structure Outlets (M : FramedStream → FramedStream → Prop) (R : Stop → Stop → Prop) : Prop where
  write (bytes : List UInt8) : Steady M (exchange (Transport.write bytes))
  writeAll (bytes : List UInt8) :
    Matches M R Eq (FramedStream.writeAll bytes) (FramedStream.writeAll bytes)
  flush : Steady M (exchange Transport.flush)

/-- Reads that match themselves whatever they ask for deliver the same pieces. -/
theorem intakes_of_readOnce [Pairing M] (h : ∀ want, Steady M (readOnce want)) : Intakes M Eq where
  readOnce := h 1
  readExact room s s' hs := by
    have hrun := steady_readExact h room s s' hs
    generalize FramedStream.readExact room s = r, FramedStream.readExact room s' = r' at hrun
    cases hrun with
    | ok hV hm => exact .ok ⟨congrArg Prod.fst hV, congrArg Prod.snd hV⟩ hm
    | error heq hm => exact .error heq hm
  nil := rfl
  append _ _ _ _ h h' := by rw [h, h']
  overlay _ _ _ h := by rw [h]

section Operations

variable {A : Report → Report → Prop} {V : List Delivery → List Delivery → Prop}
  {s s' : FramedStream}

theorem together_report {α : Type} {x : FramingM α} (reply : α → Reply) (hA : ∀ r, A r r)
    (hR : ∀ stop stop', R stop stop' → A ⟨.stopped stop, none⟩ ⟨.stopped stop', none⟩)
    (hx : Matches M R Eq x x) (hs : M s s') :
    Together M A (report reply x s) (report reply x s') := by
  have hrun := hx s s' hs
  unfold report
  generalize x s = r, x s' = r' at hrun
  cases hrun with
  | ok hV hm =>
    subst hV
    exact ⟨hA _, hm⟩
  | error hstop hm => exact ⟨hR _ _ hstop, hm⟩

theorem together_read (buffer : List UInt8) (hA : ∀ r, A r r)
    (hx : Steady M (readBlock buffer.length)) (hs : M s s') :
    Together M A (reportBlock buffer s) (reportBlock buffer s') := by
  have hrun := hx s s' hs
  unfold reportBlock
  generalize readBlock buffer.length s = r, readBlock buffer.length s' = r' at hrun
  cases hrun with
  | ok hV hm =>
    subst hV
    exact ⟨hA _, hm⟩
  | error heq hm =>
    subst heq
    exact ⟨hA _, hm⟩

theorem together_readExact (buffer : List UInt8) (hA : ∀ r, A r r) (hx : Intakes M V)
    (hs : M s s') : Together M A (reportExact buffer s) (reportExact buffer s') := by
  have hrun := hx.readExact buffer.length s s' hs
  unfold reportExact
  generalize FramedStream.readExact buffer.length s = r,
    FramedStream.readExact buffer.length s' = r' at hrun
  cases hrun with
  | @ok a a' _ _ hV hm =>
    obtain ⟨ds, stop⟩ := a
    obtain ⟨ds', stop'⟩ := a'
    obtain ⟨hds, rfl⟩ := hV
    have hoverlay := hx.overlay ds ds' buffer hds
    simp only at hoverlay ⊢
    rw [hoverlay]
    exact ⟨hA _, hm⟩
  | error heq hm =>
    subst heq
    exact ⟨hA _, hm⟩

/-- Reading operations on paired streams go together if what they are made of does; a block that may be
short has to be looked at by itself. -/
theorem together_reading [Pairing M] (hx : Intakes M V) (hA : ∀ r, A r r) (hs : M s s')
    {o : Operation} (ho : o.sends = false)
    (hread : ∀ buffer, o = .read buffer → Steady M (readBlock buffer.length)) :
    Together M A (o.perform s) (o.perform s') := by
  have hsteady {α : Type} {x : FramingM α} (reply : α → Reply) (h : Steady M x) :
      Together M A (report reply x s) (report reply x s') :=
    together_report (R := Eq) reply hA (fun _ _ heq => heq ▸ hA _) h hs
  have hsteps := matches_readSteps hx.nil hx.append hx.readExact
  cases o with
  | readHeader => exact hsteady _ (steady_readHeader hx.readOnce)
  | readPayload => exact hsteady _ (steady_readPayload hsteps hx.overlay)
  | readByte => exact hsteady _ (steady_readByte hx.readOnce)
  | readVarint => exact hsteady _ (steady_readVarint hx.readOnce)
  | read buffer => exact together_read buffer hA (hread buffer rfl) hs
  | readExact buffer => exact together_readExact buffer hA hx hs
  | closeFrame => exact hsteady _ steady_closeFrame
  | _ => cases ho

/-- Writing operations on paired streams go together if what they are made of does. -/
theorem together_writing [Peers M] (hx : Outlets M R) (hrefl : ∀ stop, R stop stop) (hA : ∀ r, A r r)
    (hR : ∀ stop stop', R stop stop' → A ⟨.stopped stop, none⟩ ⟨.stopped stop', none⟩)
    (hs : M s s') {o : Operation} (ho : o.sends) :
    Together M A (o.perform s) (o.perform s') := by
  have hmatches {α : Type} {x : FramingM α} (reply : α → Reply) (h : Matches M R Eq x x) :
      Together M A (report reply x s) (report reply x s') := together_report reply hA hR h hs
  cases o with
  | write bytes => exact hmatches _ ((steady_write (hx.write bytes)).matches hrefl)
  | writeAll bytes => exact hmatches _ (hx.writeAll bytes)
  | flush => exact hmatches _ ((steady_flush hx.flush).matches hrefl)
  | writeVarint n => exact hmatches _ (matches_writeVarint hrefl hx.writeAll n)
  | writeHeader header => exact hmatches _ (matches_writeHeader hrefl hx.writeAll header)
  | writeFrame kind payload => exact hmatches _ (matches_writeFrame hrefl hx.writeAll kind payload)
  | _ => cases ho

/-- Both sides together. -/
theorem together_perform [Pairing M] (hi : Intakes M V) (hx : Outlets M R)
    (hrefl : ∀ stop, R stop stop) (hA : ∀ r, A r r)
    (hR : ∀ stop stop', R stop stop' → A ⟨.stopped stop, none⟩ ⟨.stopped stop', none⟩)
    (hs : M s s') (o : Operation)
    (hread : ∀ buffer, o = .read buffer → Steady M (readBlock buffer.length)) :
    Together M A (o.perform s) (o.perform s') := by
  cases ho : o.sends with
  | false => exact together_reading hi hA hs ho hread
  | true => exact together_writing hx hrefl hA hR hs ho

end Operations

/-! ### Runs -/

/-- Requests of callers that wait go together as their operations do. -/
theorem Together.request {A : Report → Report → Prop} {o : Operation} {s s' : FramedStream}
    (hwaits : ∀ s s', M s s' → s.patience = none ∧ s'.patience = none) (hs : M s s')
    (h : Together M A (o.perform s) (o.perform s')) :
    Together M A (Request.perform ⟨o, none⟩ s) (Request.perform ⟨o, none⟩ s') := by
  obtain ⟨hbefore, hbefore'⟩ := hwaits s s' hs
  obtain ⟨hafter, hafter'⟩ := hwaits _ _ h.2
  rw [Request.perform_none hbefore hafter, Request.perform_none hbefore' hafter']
  exact h

/-- Side by side, the reports are related one by one and the streams are paired in the end. -/
theorem paired_run {A : Report → Report → Prop} {os : List Operation} {s s' : FramedStream}
    (hwaits : ∀ s s', M s s' → s.patience = none ∧ s'.patience = none)
    (hstep : ∀ o ∈ os, ∀ s s', M s s' → Together M A (o.perform s) (o.perform s')) (hs : M s s') :
    (∀ x ∈ (run (unhurried os) s).1.zip (run (unhurried os) s').1, A x.1 x.2) ∧
      M (run (unhurried os) s).2 (run (unhurried os) s').2 := by
  induction os generalizing s s' with
  | nil => exact ⟨fun x hx => absurd hx List.not_mem_nil, hs⟩
  | cons o os ih =>
    obtain ⟨hreport, hm⟩ := (hstep o List.mem_cons_self s s' hs).request hwaits hs
    obtain ⟨hreports, hend⟩ := ih (fun o ho => hstep o (List.mem_cons_of_mem _ ho)) hm
    refine ⟨fun x hx => ?_, hend⟩
    rcases List.mem_cons.1 hx with rfl | hx
    · exact hreport
    · exact hreports x hx

end FramedStream

end Http3Framing
