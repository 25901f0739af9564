import Http3Framing.Proofs.Telling

/-! The books of a stream. Over an honest transport and for callers of any patience the counters of the
reading side, the events and the position tell the same story of a run: the bytes that the transport
delivered, the headers that were read and the frames that were closed, and the one failure, if any, that
has poisoned the stream. -/

namespace Http3Framing

/-- The events with this message. -/
def mentions (message : String) (events : List Event) : List Event :=
  events.filter fun e => e.message = message

theorem mentions_append (message : String) (es fs : List Event) :
    mentions message (es ++ fs) = mentions message es ++ mentions message fs := List.filter_append ..

/-- A failure tells of itself once, and of the transport if that is at fault. -/
theorem Failure.mentions_told (f : Failure) :
    mentions "frame header" f.told = [] ∧ mentions "frame closed" f.told = [] ∧
      mentions "poisoning framed stream" f.told = [.poisoned f] ∧
      (mentions "transport failure on framed stream" f.told).length =
        if f.isTransport then 1 else 0 := by
  cases f <;> simp [mentions, told, Event.message, isTransport]

/-- So many headers were read and so many frames closed when a stream stands here. -/
def Position.Balances : Position → Nat → Nat → Prop
  | idle, opened, closed => closed = opened
  | inFrame _, opened, closed => closed + 1 = opened
  | poisoned, opened, closed => closed = opened ∨ closed + 1 = opened

theorem Position.Balances.consume {p q : Position} {n opened closed : Nat}
    (h : p.Balances opened closed) (hc : p.consume n = .ok q) : q.Balances opened closed := by
  cases p with
  | idle =>
    cases hc
    exact h
  | inFrame remaining =>
    obtain ⟨-, rfl⟩ := le_of_consume_inFrame hc
    exact h
  | poisoned => cases hc

theorem Position.Balances.poison {p : Position} {opened closed : Nat}
    (h : p.Balances opened closed) : poisoned.Balances opened closed := by
  cases p with
  | idle => exact .inl h
  | inFrame remaining => exact .inr h
  | poisoned => exact h

namespace FramedStream

open FramingM

namespace Operation

/-- A header that was read. -/
def opens : Operation → Report → Bool
  | readHeader, ⟨.ok (.header _), _⟩ => true
  | _, _ => false

/-- An operation with this report read a header, or closed a frame, or told at most of a poisoning. -/
theorem told_cases (o : Operation) (r : Report) :
    (∃ header, o.told r = [.headerRead header] ∧ o.opens r = true ∧ o.closes r = false ∧
        r.poison? = none) ∨
      (o.told r = [.frameClosed] ∧ o.opens r = false ∧ o.closes r = true ∧ r.poison? = none) ∨
      o.told r = r.poison?.elim [] Failure.told ∧ o.opens r = false ∧ o.closes r = false := by
  obtain ⟨result, buffer⟩ := r
  cases result with
  | stopped stop => exact .inr (.inr (by cases o <;> exact ⟨rfl, rfl, rfl⟩))
  | ok reply =>
    cases o with
    | readHeader =>
      cases reply with
      | header header => exact .inl ⟨header, rfl, rfl, rfl, rfl⟩
      | _ => exact .inr (.inr ⟨rfl, rfl, rfl⟩)
    | closeFrame => exact .inr (.inl ⟨rfl, rfl, rfl, rfl⟩)
    | _ => exact .inr (.inr ⟨rfl, rfl, rfl⟩)

end Operation

/-! ### Events -/

/-- How many headers were read by requests with these reports. -/
def headersRead (xs : List (Request × Report)) : Nat := xs.countP fun x => x.1.operation.opens x.2

/-- How many frames were closed. -/
def framesClosed (xs : List (Request × Report)) : Nat := xs.countP fun x => x.1.operation.closes x.2

/-- The failures that have poisoned the stream. -/
def poisonings (xs : List (Request × Report)) : List Failure := xs.filterMap fun x => x.2.poison?

/-- All that was told of requests with these reports. -/
def told (xs : List (Request × Report)) : List Event := xs.flatMap fun x => x.1.operation.told x.2

/-- What was told is what the reports say: headers, closes and poisonings, and those of them that the
transport is at fault for. -/
theorem mentions_told (xs : List (Request × Report)) :
    (mentions "frame header" (told xs)).length = headersRead xs ∧
      (mentions "frame closed" (told xs)).length = framesClosed xs ∧
      mentions "poisoning framed stream" (told xs) = (poisonings xs).map .poisoned ∧
      (mentions "transport failure on framed stream" (told xs)).length =
        (poisonings xs).countP Failure.isTransport := by
  induction xs with
  | nil => exact ⟨rfl, rfl, rfl, rfl⟩
  | cons x xs ih =>
    obtain ⟨hheaders, hcloses, hpoison, hcauses⟩ := ih
    have hcons (message : String) : mentions message (told (x :: xs)) =
        mentions message (x.1.operation.told x.2) ++ mentions message (told xs) :=
      mentions_append message _ _
    simp only [hcons, List.length_append, hheaders, hcloses, hpoison, hcauses, headersRead,
      framesClosed, poisonings, List.countP_cons, List.filterMap_cons]
    rcases x.1.operation.told_cases x.2 with
      ⟨header, htold, hopen, hclose, hnone⟩ | ⟨htold, hopen, hclose, hnone⟩ | ⟨htold, hopen, hclose⟩
    · simp [htold, hopen, hclose, hnone, mentions, Event.message, Nat.add_comm]
    · simp [htold, hopen, hclose, hnone, mentions, Event.message, Nat.add_comm]
    · rw [htold]
      cases hf : x.2.poison? with
      | none => simp [hopen, hclose, mentions]
      | some f =>
        obtain ⟨h₁, h₂, h₃, h₄⟩ := f.mentions_told
        simp [hopen, hclose, h₁, h₂, h₃, h₄, List.countP_cons, Nat.add_comm]

section

variable {s s' : FramedStream}

/-- A poisoned stream tells nothing, and nothing that it is asked for poisons it again. -/
theorem silent_of_poisoned (r : Request) (hp : s.position = .poisoned) :
    (r.perform s).2.position = .poisoned ∧ (r.perform s).2.events = s.events ∧
      r.operation.told (r.perform s).1 = [] ∧ (r.perform s).1.poison? = none := by
  obtain ⟨report, hx, hreport⟩ := request_of_poisoned r hp
  rw [hx]
  have hnone : report.poison? = none := by
    unfold Report.poison?
    rcases hreport with h | ⟨-, h⟩
    · rw [h]
      rfl
    · rw [h]
  refine ⟨hp, rfl, ?_, hnone⟩
  rcases hreport with h | ⟨ho, -⟩
  · rw [Operation.told_of_poison? h, hnone]
    rfl
  · rw [ho]
    show report.poison?.elim [] Failure.told = []
    rw [hnone]
    rfl

/-- The events of a run are those of its requests with their reports. -/
theorem events_run (rs : List Request) (s : FramedStream) :
    (run rs s).2.events.toList = s.events.toList ++ told (rs.zip (run rs s).1) := by
  induction rs generalizing s with
  | nil => exact (List.append_nil _).symm
  | cons r rs ih =>
    have hfirst : (r.perform s).2.events.toList =
        s.events.toList ++ r.operation.told (r.perform s).1 := by
      by_cases hp : s.position = .poisoned
      · obtain ⟨-, hevents, htold, -⟩ := silent_of_poisoned r hp
        rw [hevents, htold, List.append_nil]
      · exact (reports_request r hp).events
    rw [run_cons, ih, hfirst, List.append_assoc]
    rfl

theorem poisonings_cons (r : Request) (rs : List Request) (s : FramedStream) :
    poisonings ((r :: rs).zip (run (r :: rs) s).1) =
      (r.perform s).1.poison?.toList ++ poisonings (rs.zip (run rs (r.perform s).2).1) := by
  unfold poisonings
  rw [run_cons, List.zip_cons_cons, List.filterMap_cons]
  cases (r.perform s).1.poison? <;> rfl

theorem poisonings_of_poisoned (rs : List Request) (hp : s.position = .poisoned) :
    poisonings (rs.zip (run rs s).1) = [] := by
  induction rs generalizing s with
  | nil => rfl
  | cons r rs ih =>
    obtain ⟨hstays, -, -, hnone⟩ := silent_of_poisoned r hp
    rw [poisonings_cons, hnone, ih hstays]
    rfl

/-- A run on a usable stream poisons it once or not at all. -/
theorem poisonings_run (rs : List Request) (hu : s.position ≠ .poisoned) :
    ((run rs s).2.position ≠ .poisoned ∧ poisonings (rs.zip (run rs s).1) = []) ∨
      (run rs s).2.position = .poisoned ∧ ∃ f, poisonings (rs.zip (run rs s).1) = [f] := by
  induction rs generalizing s with
  | nil => exact .inl ⟨hu, rfl⟩
  | cons r rs ih =>
    have hreports := reports_request r hu
    rw [poisonings_cons, run_cons]
    cases hf : (r.perform s).1.poison? with
    | none =>
      have hnext : (r.perform s).2.position ≠ .poisoned := fun hp => by
        have hsome := hreports.poisoned.1 hp
        rw [hf] at hsome
        cases hsome
      exact ih hnext
    | some f =>
      -- whatever follows, the stream stays poisoned by this failure
      have hnext : (r.perform s).2.position = .poisoned := hreports.poisoned.2 (by rw [hf]; rfl)
      obtain ⟨⟨patience, hstays⟩, -⟩ := run_of_poisoned rs hnext
      rw [poisonings_of_poisoned rs hnext]
      exact .inr ⟨by rw [hstays]; exact hnext, f, rfl⟩

end

/-! ### The counters of the reading side -/

/-- The counters of the reading side are the same. -/
structure SameReadings (s s' : FramedStream) : Prop where
  bytes : s'.stats.bytesRead = s.stats.bytesRead
  frames : s'.stats.framesRead = s.stats.framesRead

/-- Wherever it begins, the action leaves the counters of the reading side alone. -/
def Mute {α : Type} (x : FramingM α) : Prop :=
  ∀ s, match x s with
    | .ok _ s' => SameReadings s s'
    | .error _ s' => SameReadings s s'

section

variable {α β : Type} {s s' : FramedStream}

theorem SameReadings.refl (s : FramedStream) : SameReadings s s := ⟨rfl, rfl⟩

theorem SameReadings.trans {s₁ s₂ s₃ : FramedStream} (h : SameReadings s₁ s₂)
    (h' : SameReadings s₂ s₃) : SameReadings s₁ s₃ :=
  ⟨h'.bytes.trans h.bytes, h'.frames.trans h.frames⟩

theorem sameReadings_poisonedBy (s : FramedStream) (f : Failure) :
    SameReadings s (s.poisonedBy f) := by
  unfold FramedStream.poisonedBy
  split
  · exact .refl s
  · exact ⟨rfl, rfl⟩

theorem Mute.bind {x : FramingM α} {f : α → FramingM β} (hx : Mute x) (hf : ∀ a, Mute (f a)) :
    Mute (x >>= f) := by
  intro s
  have hs := hx s
  cases hr : x s with
  | error stop s₁ =>
    rw [hr] at hs
    rw [bind_of_error hr]
    exact hs
  | ok a s₁ =>
    rw [hr] at hs
    rw [bind_of_ok hr]
    have hrest := hf a s₁
    cases hr' : f a s₁ with
    | error stop s₂ =>
      rw [hr'] at hrest
      exact hs.trans hrest
    | ok b s₂ =>
      rw [hr'] at hrest
      exact hs.trans hrest

theorem mute_pure (a : α) : Mute (pure a : FramingM α) := fun s => .refl s

theorem mute_ask (question : Position → Except Violation α) : Mute (ask question) := by
  intro s
  cases hq : question s.position with
  | ok a =>
    rw [ask_of_ok hq]
    exact .refl s
  | error v =>
    rw [ask_of_error hq]
    exact .refl s

theorem mute_exchange (talk : Patience → Transport → Transport.Outcome α) :
    Mute (exchange talk) := by
  intro s
  unfold exchange
  generalize talk s.patience s.transport = o
  obtain ⟨answer, patience, transport⟩ := o
  cases answer with
  | failed cause =>
    have hfirst : SameReadings s { s with
      transport, patience, events := s.events.push (.transportFailed cause) } := ⟨rfl, rfl⟩
    exact hfirst.trans (sameReadings_poisonedBy _ (.transport cause))
  | _ => exact ⟨rfl, rfl⟩

theorem mute_recordWrite (n : Nat) : Mute (count (·.recordWrite n)) := fun _ => ⟨rfl, rfl⟩

theorem mute_write (bytes : List UInt8) : Mute (FramedStream.write bytes) :=
  (mute_ask _).bind fun _ => (mute_exchange _).bind fun n => (mute_recordWrite n).bind fun _ =>
    mute_pure n

theorem mute_writeAll (bytes : List UInt8) : Mute (FramedStream.writeAll bytes) :=
  (mute_ask _).bind fun _ s =>
    ((mute_exchange (Transport.writeAll s.flavour bytes)).bind fun _ => mute_recordWrite _) s

theorem mute_encoded (bytes : Except Failure (List UInt8)) : Mute (encoded bytes) := by
  cases bytes with
  | ok bytes => exact mute_pure bytes
  | error f => exact fun s => .refl s

theorem mute_writeHeader (header : Frame.Header) : Mute (FramedStream.writeHeader header) :=
  (mute_ask _).bind fun _ => (mute_encoded _).bind fun bytes => (mute_writeAll bytes).bind fun _ _ =>
    ⟨rfl, rfl⟩

theorem Mute.report {x : FramingM α} (hx : Mute x) (reply : α → Reply) (s : FramedStream) :
    SameReadings s (FramedStream.report reply x s).2 := by
  have hs := hx s
  unfold FramedStream.report
  cases hr : x s with
  | ok a s' =>
    rw [hr] at hs
    exact hs
  | error stop s' =>
    rw [hr] at hs
    exact hs

/-- No operation of the writing side counts on the reading side. -/
theorem sameReadings_perform {o : Operation} (ho : o.sends) (s : FramedStream) :
    SameReadings s (o.perform s).2 := by
  cases o with
  | write bytes => exact (mute_write bytes).report _ s
  | writeAll bytes => exact (mute_writeAll bytes).report _ s
  | flush => exact Mute.report ((mute_ask _).bind fun _ => mute_exchange _) _ s
  | writeVarint n =>
    exact Mute.report ((mute_ask _).bind fun _ => (mute_encoded _).bind mute_writeAll) _ s
  | writeHeader header => exact (mute_writeHeader header).report _ s
  | writeFrame kind payload =>
    exact Mute.report ((mute_writeHeader _).bind fun _ => mute_writeAll payload) _ s
  | _ => cases ho

end

/-! ### Requests and runs -/

/-- From `s` to `s'` so many headers were read and so many frames closed, and the books of the reading
side have kept up. -/
structure Books (s s' : FramedStream) (opened closed : Nat) : Prop where
  honest : s'.transport.Honest
  bytes : ∃ n, s'.transport.delivered.length = s.transport.delivered.length + n ∧
    s'.stats.bytesRead = s.stats.bytesRead + UInt64.ofNat n
  frames : s'.stats.framesRead = s.stats.framesRead + UInt64.ofNat opened
  place : ∀ m n, s.position.Balances m n → s'.position.Balances (m + opened) (n + closed)

section

variable {o : Operation} {s s₁ s' : FramedStream} {r : Report}

theorem Books.trans {i j m n : Nat} (h : Books s s₁ i j) (h' : Books s₁ s' m n) :
    Books s s' (i + m) (j + n) := by
  obtain ⟨k, hlength, hcount⟩ := h.bytes
  obtain ⟨k', hlength', hcount'⟩ := h'.bytes
  refine ⟨h'.honest, ⟨k + k', ?_, ?_⟩, ?_, fun a b hab => ?_⟩
  · rw [hlength', hlength, Nat.add_assoc]
  · rw [hcount', hcount, UInt64.ofNat_add, UInt64.add_assoc]
  · rw [h'.frames, h.frames, UInt64.ofNat_add, UInt64.add_assoc]
  · rw [← Nat.add_assoc, ← Nat.add_assoc]
    exact h'.place _ _ (h.place a b hab)

/-- Nothing is read, and nothing is opened or closed. -/
theorem books_of_quiet (hs : s'.transport.Honest)
    (hd : s'.transport.delivered = s.transport.delivered) (h : SameReadings s s')
    (hp : ∀ m n, s.position.Balances m n → s'.position.Balances m n) : Books s s' 0 0 := by
  refine ⟨hs, ⟨0, congrArg List.length hd, ?_⟩, ?_, hp⟩
  · exact h.bytes.trans (UInt64.add_zero _).symm
  · exact h.frames.trans (UInt64.add_zero _).symm

theorem Books.refl (hs : s.transport.Honest) : Books s s 0 0 :=
  books_of_quiet hs rfl (.refl s) fun _ _ h => h

/-- Bytes are read, and nothing is opened or closed. -/
theorem Listens.books {made : List Call} (hl : Listens s s' made) (hs : s.transport.Honest)
    (hp : ∀ m n, s.position.Balances m n → s'.position.Balances m n) : Books s s' 0 0 := by
  obtain ⟨hs', hclaimed⟩ := hl.honest hs
  refine ⟨hs', ⟨(made.flatMap Call.delivered).length, ?_, ?_⟩, ?_, hp⟩
  · rw [hl.delivered, List.length_append]
  · rw [hl.stats, hclaimed]
    rfl
  · rw [hl.stats]
    exact (UInt64.add_zero _).symm

theorem Operation.not_opens_of_stopped {stop : Stop} (h : r.result = .stopped stop) :
    o.opens r = false ∧ o.closes r = false := by
  obtain ⟨result, buffer⟩ := r
  subst h
  cases o <;> exact ⟨rfl, rfl⟩

theorem Operation.not_opens_of_takes {reply : Reply} {n : Nat} (ht : o.Takes reply n) :
    o.opens r = false ∧ o.closes r = false := by
  cases o with
  | readHeader => cases ht
  | closeFrame => cases ht
  | _ => exact ⟨rfl, rfl⟩

theorem Operation.not_opens_of_sends (h : o.sends) : o.opens r = false ∧ o.closes r = false := by
  cases o with
  | readHeader => cases h
  | closeFrame => cases h
  | _ => exact ⟨rfl, rfl⟩

theorem Books.of_not_opens (h : Books s s' 0 0) (ho : o.opens r = false ∧ o.closes r = false) :
    Books s s' (if o.opens r then 1 else 0) (if o.closes r then 1 else 0) := by
  rw [ho.1, ho.2]
  exact h

/-- A read keeps between frames or inside its frame, or it poisons the stream. -/
theorem Ended.balances {made : List Call} {outcome : Except Stop Reply}
    (h : Ended o.Takes o.ahead True s s' made outcome) (hs : s.transport.Honest) {m n : Nat}
    (hb : s.position.Balances m n) : s'.position.Balances m n := by
  cases h with
  | done counted => exact hb.consume counted
  | dropped counted => exact hb.consume counted
  | poisoned _ after => exact after ▸ hb.poison
  | ended _ before after =>
    rw [before] at hb
    rw [after]
    exact hb
  | overrun dishonest => exact absurd hs dishonest

/-- A write stays where it is, or it poisons the stream. -/
theorem Spoken.balances {told : Reply → List UInt8 → Prop} {cut : List UInt8 → List UInt8 → Prop}
    {large : Nat → Prop} {frames : Nat} {made : List Call} {outcome : Except Stop Reply}
    (h : Spoken told cut large frames s s' made outcome) {m n : Nat}
    (hb : s.position.Balances m n) : s'.position.Balances m n := by
  cases h with
  | done _ after => exact after ▸ hb
  | refused _ same => exact same ▸ hb
  | broken _ _ after => exact after ▸ hb.poison
  | dropped _ after => exact after ▸ hb

theorem books_perform (o : Operation) (hs : s.transport.Honest) (hu : s.position ≠ .poisoned) :
    Books s (o.perform s).2 (if o.opens (o.perform s).1 then 1 else 0)
      (if o.closes (o.perform s).1 then 1 else 0) := by
  have hdid := did_perform o hu
  have hmute (ho : o.sends) := sameReadings_perform ho s
  generalize o.perform s = x at hdid hmute
  cases hdid with
  | misused => exact (Books.refl hs).of_not_opens (Operation.not_opens_of_stopped rfl)
  | @opened header s₁ made is before listens =>
    subst is
    have hread : Books s { s₁ with position := .idle } 0 0 :=
      Listens.books (listens.trans (.of_eq rfl rfl rfl rfl rfl)) hs fun m n h => by
        rw [before] at h
        exact h
    have hopen : Books { s₁ with position := .idle } { s₁ with
        position := .inFrame header.len
        stats := s₁.stats.recordFrameRead
        events := s₁.events.push (.headerRead header) } 1 0 :=
      ⟨hread.honest, ⟨0, rfl, (UInt64.add_zero _).symm⟩, rfl, fun _ _ h => congrArg (· + 1) h⟩
    exact hread.trans hopen
  | closed is before =>
    subst is
    refine ⟨hs, ⟨0, rfl, (UInt64.add_zero _).symm⟩, (UInt64.add_zero _).symm, fun m n h => ?_⟩
    rw [before] at h
    exact h
  | @read report s₁ made reads fits listens ended =>
    refine (listens.books hs fun m n => ended.balances hs).of_not_opens ?_
    cases hr : report.result with
    | stopped stop => exact Operation.not_opens_of_stopped hr
    | ok reply =>
      rw [hr] at ended
      cases ended with
      | done _ took => exact Operation.not_opens_of_takes took
  | sent sends speaks spoken =>
    exact (books_of_quiet (speaks.honest hs) speaks.delivered (hmute sends) fun m n =>
      spoken.balances).of_not_opens (Operation.not_opens_of_sends sends)

theorem books_request (r : Request) (hs : s.transport.Honest) :
    Books s (r.perform s).2 (if r.operation.opens (r.perform s).1 then 1 else 0)
      (if r.operation.closes (r.perform s).1 then 1 else 0) := by
  by_cases hp : s.position = .poisoned
  · obtain ⟨report, hx, hreport⟩ := request_of_poisoned r hp
    rw [hx]
    have hstays : Books s { s with patience := none } 0 0 :=
      books_of_quiet hs rfl ⟨rfl, rfl⟩ fun _ _ h => h
    refine hstays.of_not_opens ?_
    rcases hreport with h | ⟨ho, -⟩
    · exact Operation.not_opens_of_stopped h
    · rw [ho]
      exact ⟨rfl, rfl⟩
  · have h := books_perform (s := { s with patience := s.flavour.patience r.patience }) r.operation
      hs hp
    exact ⟨h.honest, h.bytes, h.frames, h.place⟩

theorem books_run (rs : List Request) (hs : s.transport.Honest) :
    Books s (run rs s).2 (headersRead (rs.zip (run rs s).1)) (framesClosed (rs.zip (run rs s).1)) := by
  induction rs generalizing s with
  | nil => exact .refl hs
  | cons r rs ih =>
    have hfirst := books_request r hs
    have h := hfirst.trans (ih hfirst.honest)
    rw [run_cons]
    unfold headersRead framesClosed
    rw [List.zip_cons_cons, List.countP_cons, List.countP_cons, Nat.add_comm _ (ite _ _ _),
      Nat.add_comm _ (ite _ _ _)]
    exact h

end

/-! ### Runs of a stream from its opening -/

/-- A stream that has just been opened around a transport. -/
inductive Opened (t : Transport) : FramedStream → Prop
  | taken (flavour : Flavour) (limits : Limits) : Opened t (ofTransport flavour limits t)
  | built {flavour : Flavour} {limits : Limits} {s : FramedStream}
    (checked : build flavour limits t = .ok s) : Opened t s

/-- Nothing is counted yet, and at most the opening was told. -/
theorem Opened.fresh {t : Transport} {s : FramedStream} (h : Opened t s) :
    s.transport = t ∧ s.position = .idle ∧ s.stats = {} ∧
      (s.events.toList = [] ∨ ∃ flavour limits, s.events.toList = [.built flavour limits]) := by
  cases h with
  | taken flavour limits => exact ⟨rfl, rfl, rfl, .inl rfl⟩
  | @built flavour limits _ checked =>
    unfold build at checked
    cases hv : limits.validate with
    | error d =>
      rw [hv] at checked
      cases checked
    | ok u =>
      rw [hv] at checked
      cases checked
      exact ⟨rfl, rfl, rfl, .inr ⟨flavour, limits, rfl⟩⟩

/-- What is told on opening has none of the messages of a run. -/
theorem Opened.mentions {t : Transport} {s : FramedStream} (h : Opened t s) {message : String}
    (hm : message ∈ ["frame header", "frame closed", "poisoning framed stream",
      "transport failure on framed stream"]) : mentions message s.events.toList = [] := by
  obtain ⟨-, -, -, hevents | ⟨flavour, limits, hevents⟩⟩ := h.fresh
  · rw [hevents]
    rfl
  · rw [hevents]
    simp only [List.mem_cons, List.not_mem_nil, or_false] at hm
    rcases hm with rfl | rfl | rfl | rfl <;> cases flavour <;> rfl

/-- In every run of a stream over an honest transport, of requests that may be refused, fail, poison the
stream or be dropped, as long as the totals fit into their words: the bytes that were counted are those
that the transport delivered; the headers that were counted are those that were read, and each was told;
each close was told, and no frame was closed but those whose header was read, all of them between frames
and all but the open one inside a frame; and a stream is poisoned by one failure, which was reported and
told once, and named as the transport's if it was. -/
theorem books_tell_the_run {t : Transport} {s₀ : FramedStream} (ht : t.Honest) (ho : Opened t s₀)
    (rs : List Request)
    (hbytes : (run rs s₀).2.transport.delivered.length < t.delivered.length + 2 ^ 64)
    (hframes : headersRead (rs.zip (run rs s₀).1) < 2 ^ 64) :
    let s := (run rs s₀).2
    let xs := rs.zip (run rs s₀).1
    let events := s.events.toList
    t.delivered.length + s.stats.bytesRead.toNat = s.transport.delivered.length ∧
    s.stats.framesRead.toNat = headersRead xs ∧
    (mentions "frame header" events).length = headersRead xs ∧
    (mentions "frame closed" events).length = framesClosed xs ∧
    s.position.Balances (headersRead xs) (framesClosed xs) ∧
    (s.position ≠ .poisoned → poisonings xs = [] ∧
      mentions "poisoning framed stream" events = [] ∧
      mentions "transport failure on framed stream" events = []) ∧
    (s.position = .poisoned → ∃ f, poisonings xs = [f] ∧
      mentions "poisoning framed stream" events = [.poisoned f] ∧
      (mentions "transport failure on framed stream" events).length =
        if f.isTransport then 1 else 0) := by
  intro s xs events
  obtain ⟨htransport, hidle, hstats, -⟩ := ho.fresh
  have hu : s₀.position ≠ .poisoned := by simp [hidle]
  have hbooks := books_run (s := s₀) rs (by rw [htransport]; exact ht)
  have htold {message : String} (hm : message ∈ ["frame header", "frame closed",
      "poisoning framed stream", "transport failure on framed stream"]) :
      mentions message events = mentions message (told xs) := by
    have hevents : events = s₀.events.toList ++ told xs := events_run rs s₀
    rw [hevents, mentions_append, ho.mentions hm, List.nil_append]
  obtain ⟨hheaders, hcloses, hpoison, hcauses⟩ := mentions_told xs
  rw [← htold (by simp)] at hheaders hcloses hpoison hcauses
  refine ⟨?_, ?_, hheaders, hcloses, ?_, fun hp => ?_, fun hp => ?_⟩
  · obtain ⟨n, hlength, hcount⟩ := hbooks.bytes
    rw [htransport] at hlength
    rw [hstats] at hcount
    have hn : s.stats.bytesRead = UInt64.ofNat n := hcount.trans (UInt64.zero_add _)
    rw [hn, UInt64.toNat_ofNat_of_lt' (show n < 2 ^ 64 by omega)]
    exact hlength.symm
  · have hn : s.stats.framesRead = UInt64.ofNat (headersRead xs) := by
      rw [hbooks.frames, hstats]
      exact UInt64.zero_add _
    rw [hn, UInt64.toNat_ofNat_of_lt' hframes]
  · have hplace := hbooks.place 0 0 (by rw [hidle]; rfl)
    rw [Nat.zero_add, Nat.zero_add] at hplace
    exact hplace
  · rcases poisonings_run rs hu with ⟨-, hnone⟩ | ⟨hp', -⟩
    · change poisonings xs = [] at hnone
      rw [hnone] at hpoison hcauses
      exact ⟨hnone, hpoison, List.eq_nil_of_length_eq_zero hcauses⟩
    · exact absurd hp' hp
  · rcases poisonings_run rs hu with ⟨hu', -⟩ | ⟨-, f, hone⟩
    · exact absurd hp hu'
    · change poisonings xs = [f] at hone
      rw [hone] at hpoison hcauses
      refine ⟨f, hone, hpoison, ?_⟩
      rw [hcauses, List.countP_singleton]

/-- A byte is given up, the rest of its frame is read and the frame closed; the next one is open when the
connection is reset, and the read after that is refused. -/
theorem books_tell_the_run_reset : ∃ (t : Transport) (s₀ : FramedStream) (rs : List Request),
    rs = [⟨.readHeader, none⟩, ⟨.readByte, some 1⟩, ⟨.read [0, 0], none⟩, ⟨.closeFrame, none⟩,
      ⟨.readHeader, none⟩, ⟨.readPayload, none⟩, ⟨.readByte, none⟩] ∧
    t.Honest ∧ Opened t s₀ ∧
    let s := (run rs s₀).2
    s.stats.bytesRead.toNat = 5 ∧ s.stats.framesRead.toNat = 2 ∧
    (mentions "frame closed" s.events.toList).length = 1 ∧
    mentions "poisoning framed stream" s.events.toList =
      [.poisoned (.transport (.plain .connectionReset))] ∧
    (mentions "transport failure on framed stream" s.events.toList).length = 1 := by
  let t : Transport := { reads := [.data [0, 2], .pending, .data [0xaa, 4, 1],
    .failure IoKind.connectionReset] }
  let s₀ : FramedStream := ofTransport .suspending .standard t
  let rs : List Request := [⟨.readHeader, none⟩, ⟨.readByte, some 1⟩, ⟨.read [0, 0], none⟩,
    ⟨.closeFrame, none⟩, ⟨.readHeader, none⟩, ⟨.readPayload, none⟩, ⟨.readByte, none⟩]
  have ht : t.Honest := by simp [t, Transport.Honest]
  have ho : Opened t s₀ := .taken .suspending .standard
  have hlength : (run rs s₀).2.transport.delivered.length = 5 := by decide +kernel
  have hread : headersRead (rs.zip (run rs s₀).1) = 2 := by decide +kernel
  have hclosed : framesClosed (rs.zip (run rs s₀).1) = 1 := by decide +kernel
  have hfailures : poisonings (rs.zip (run rs s₀).1) = [.transport (.plain .connectionReset)] := by
    decide +kernel
  have hp : (run rs s₀).2.position = .poisoned := by decide +kernel
  obtain ⟨hbytes, hframes, -, hcloses, -, -, hpoisoned⟩ :=
    books_tell_the_run ht ho rs (by rw [hlength]; decide) (by rw [hread]; decide)
  obtain ⟨f, hone, hpoison, hcauses⟩ := hpoisoned hp
  rw [hfailures] at hone
  cases hone
  have hnone : t.delivered.length = 0 := rfl
  refine ⟨t, s₀, rs, rfl, ht, ho, ?_, hframes.trans hread, hcloses.trans hclosed, hpoison, hcauses⟩
  rw [hlength, hnone, Nat.zero_add] at hbytes
  exact hbytes

end FramedStream

end Http3Framing
