import Http3Framing.Proofs.Advance

/-! What actions draw from the transport. One exchange with the transport is looked at first, then
one read of it; an action is then described by `Draws`, which says of every attended stream how
the action moves it and what its outcome tells of the bytes it pulled. -/

namespace Http3Framing

open Transport

namespace Transport

/-- How an exchange of a caller that waits leaves an honest transport. -/
structure Served {α : Type} (t : Transport) (o : Outcome α) (made : List Call) : Prop where
  answered : o.answer ≠ .dropped
  patience : o.patience = none
  honest : o.transport.Honest
  chunk : o.transport.chunk = t.chunk
  calls : o.transport.calls.toList = t.calls.toList ++ made
  unread : t.unread = made.flatMap Call.delivered ++ o.transport.unread

theorem read_eq (retry : Bool) {want : Nat} (hw : 1 ≤ want) (patience : Patience) (t : Transport) :
    t.read retry want patience =
      ⟨(readFrom retry t.chunk want t.reads patience).answer,
        (readFrom retry t.chunk want t.reads patience).patience,
        { t.record (readFrom retry t.chunk want t.reads patience).calls with
          reads := (readFrom retry t.chunk want t.reads patience).rest }⟩ :=
  if_neg (by omega)

theorem served_read {t : Transport} {want : Nat} (hw : 1 ≤ want) (h : t.Honest) :
    Served t (t.read true want none) (readFrom true t.chunk want t.reads none).calls := by
  rw [read_eq true hw]
  refine ⟨?_, patience_readFrom _ _ _, claim_notMem_readFrom _ _ h, rfl, ?_, ?_⟩
  · rcases answer_readFrom t.chunk want h with ⟨bs, hb, _⟩ | ⟨cause, hk⟩
    · simp [hb]
    · simp [hk]
  · simp [record]
  · exact (delivered_readFrom true t.chunk want t.reads none).symm

/-- An exchange on another side than the reading one. -/
theorem served_of_not_isRead {α : Type} {t : Transport} {o : Outcome α} {made : List Call}
    (h : t.Honest) (ha : o.answer ≠ .dropped) (hp : o.patience = none)
    (hr : o.transport.reads = t.reads) (hc : o.transport.chunk = t.chunk)
    (hm : o.transport.calls.toList = t.calls.toList ++ made)
    (hs : ∀ c ∈ made, c.isRead = false) : Served t o made where
  answered := ha
  patience := hp
  honest n := by rw [hr]; exact h n
  chunk := hc
  calls := hm
  unread := by
    rw [Call.flatMap_delivered_of_not_isRead hs, unread, unread, hr]
    rfl

theorem writeTo_waiting (offered : List UInt8) (events : List WriteEvent) :
    (writeTo offered events none).answer ≠ .dropped ∧
      (writeTo offered events none).patience = none ∧
      ∀ c ∈ (writeTo offered events none).calls, c.isRead = false := by
  induction events with
  | nil => simp [writeTo, Call.isRead]
  | cons e events ih =>
    cases e with
    | pending => simpa [writeTo, Exchange.after, Call.isRead] using ih
    | failure cause => simp [writeTo, Call.isRead]
    | acceptAll => simp [writeTo, Call.isRead]
    | accept n => simp [writeTo, Call.isRead]

theorem writeAllTo_waiting (flavour : Flavour) (events : List WriteEvent) (left : List UInt8) :
    (writeAllTo flavour events none left).answer ≠ .dropped ∧
      (writeAllTo flavour events none left).patience = none ∧
      ∀ c ∈ (writeAllTo flavour events none left).calls, c.isRead = false := by
  induction events generalizing left with
  | nil => cases left <;> simp [writeAllTo, Call.isRead]
  | cons e events ih =>
    cases left with
    | nil => simp [writeAllTo]
    | cons b bs =>
      cases e with
      | pending => simpa [writeAllTo, Exchange.after, Call.isRead] using ih (b :: bs)
      | failure cause =>
        by_cases hk : flavour.insists && cause.kind = .interrupted
        · simpa [writeAllTo, hk, Exchange.after, Call.isRead] using ih (b :: bs)
        · simp [writeAllTo, hk, Call.isRead]
      | acceptAll => simp [writeAllTo, Call.isRead]
      | accept n =>
        by_cases hn : n = 0
        · simp [writeAllTo, hn, Call.isRead]
        · simpa [writeAllTo, hn, Exchange.after, Call.isRead] using
            ih ((b :: bs).drop (min n (b :: bs).length))

theorem flushOf_waiting (events : List FlushEvent) :
    (flushOf events none).answer ≠ .dropped ∧ (flushOf events none).patience = none ∧
      ∀ c ∈ (flushOf events none).calls, c.isRead = false := by
  induction events with
  | nil => simp [flushOf, Call.isRead]
  | cons e events ih =>
    cases e with
    | pending => simpa [flushOf, Exchange.after, Call.isRead] using ih
    | failure cause => simp [flushOf, Call.isRead]
    | finish => simp [flushOf, Call.isRead]

end Transport

namespace FramingM

open FramedStream

variable {α β : Type}

@[simp] theorem bind_apply (x : FramingM α) (f : α → FramingM β) (s : FramedStream) :
    (x >>= f) s = match x s with
      | .ok a s => f a s
      | .error stop s => .error stop s := by
  change EStateM.bind x f s = _
  unfold EStateM.bind
  cases x s <;> rfl

theorem bind_of_ok {x : FramingM α} {f : α → FramingM β} {s s' : FramedStream} {a : α}
    (h : x s = .ok a s') : (x >>= f) s = f a s' := by
  rw [bind_apply, h]

theorem bind_of_error {x : FramingM α} {f : α → FramingM β} {s s' : FramedStream} {stop : Stop}
    (h : x s = .error stop s') : (x >>= f) s = .error stop s' := by
  rw [bind_apply, h]

@[simp] theorem pure_apply (a : α) (s : FramedStream) :
    (pure a : FramingM α) s = .ok a s := rfl

@[simp] theorem ite_on (c : Prop) [Decidable c] (x y : FramingM α) (s : FramedStream) :
    (if c then x else y) s = if c then x s else y s := by
  split <;> rfl

theorem attempt_of_ok {α : Type} {x : FramingM α} {s s' : FramedStream} {a : α}
    (h : x s = .ok a s') : attempt x s = .ok (.ok a) s' := by
  unfold attempt
  rw [h]

theorem attempt_of_error {α : Type} {x : FramingM α} {s s' : FramedStream} {stop : Stop}
    (h : x s = .error stop s') : attempt x s = .ok (.error stop) s' := by
  unfold attempt
  rw [h]

theorem ask_of_ok {question : Position → Except Violation α} {s : FramedStream} {a : α}
    (h : question s.position = .ok a) : ask question s = .ok a s := by
  unfold ask
  rw [h]

theorem ask_of_error {question : Position → Except Violation α} {s : FramedStream} {v : Violation}
    (h : question s.position = .error v) : ask question s = .error (.failed (.frame v)) s := by
  unfold ask
  rw [h]

theorem ask_usable {s : FramedStream} (hu : s.position ≠ .poisoned) :
    ask Position.usable s = .ok () s :=
  ask_of_ok (Position.usable_eq hu)

theorem endBreaks_of_ok {x : FramingM α} {s s' : FramedStream} {a : α} (v : Violation)
    (h : x s = .ok a s') : endBreaks v x s = .ok a s' := by
  simp only [endBreaks, h]

theorem endBreaks_of_frame {x : FramingM α} {s s' : FramedStream} {v' : Violation} (v : Violation)
    (h : x s = .error (.failed (.frame v')) s') :
    endBreaks v x s = .error (.failed (.frame v')) s' := by
  simp only [endBreaks, h]

theorem endBreaks_of_end {x : FramingM α} {s s' : FramedStream} (v : Violation)
    (h : x s = .error (.failed .endOfStream) s') :
    endBreaks v x s = .error (.failed (.frame v)) (s'.poisonedBy (.frame v)) := by
  simp only [endBreaks, h, poison]

/-- An exchange either gives its value and leaves the position alone, or it poisons. -/
theorem exchange_cases {talk : Patience → Transport → Outcome α} {s : FramedStream}
    {made : List Call} (h : s.Attended)
    (hs : Served s.transport (talk none s.transport) made) :
    (∃ a s', exchange talk s = .ok a s' ∧ (talk none s.transport).answer = .done a ∧
        Moves s s' made ∧ s'.transport = (talk none s.transport).transport ∧
        s'.position = s.position) ∨
      ∃ cause s', exchange talk s = .error (.failed (.transport cause)) s' ∧
        (talk none s.transport).answer = .failed cause ∧ Moves s s' made ∧
        s'.transport = (talk none s.transport).transport ∧ s'.position = .poisoned := by
  rcases ho : talk none s.transport with ⟨answer, patience, transport⟩
  rw [ho] at hs
  have hmoves : Moves s { s with transport, patience } made :=
    ⟨⟨hs.patience, hs.honest⟩, rfl, rfl, hs.chunk, hs.calls, hs.unread⟩
  cases answer with
  | done a =>
    refine .inl ⟨a, { s with transport, patience }, ?_, rfl, hmoves, rfl, rfl⟩
    simp only [exchange, h.1, ho]
  | failed cause =>
    let s₁ : FramedStream :=
      { s with transport, patience, events := s.events.push (.transportFailed cause) }
    have hm : Moves s s₁ made :=
      ⟨⟨hs.patience, hs.honest⟩, rfl, rfl, hs.chunk, hs.calls, hs.unread⟩
    refine .inr ⟨cause, s₁.poisonedBy (.transport cause), ?_, rfl, hm.poisonedBy _, ?_,
      position_poisonedBy _ _⟩
    · simp only [exchange, h.1, ho, poison, s₁]
    · exact transport_poisonedBy _ _
  | dropped => exact absurd rfl hs.answered

/-- One read of the transport: the bytes it stored, or the failure that poisoned the stream. -/
theorem readOnce_cases {s : FramedStream} {want : Nat} (h : s.Attended) (hw : 1 ≤ want) :
    (∃ bs s', readOnce want s = .ok (.stored bs) s' ∧ bs.length ≤ want ∧
        Reads want s s' (.done (.stored bs)) bs ∧ s'.position = s.position) ∨
      ∃ cause s', readOnce want s = .error (.failed (.transport cause)) s' ∧
        Reads want s s' (.failed cause) [] ∧ s'.position = .poisoned := by
  have hserved := served_read hw h.2
  have hread := read_eq true hw none s.transport
  rcases exchange_cases h hserved with ⟨d, s₁, hx, ha, hm, ht, hp⟩ | ⟨cause, s₁, hx, ha, hm, ht, hp⟩
  · have hcount (n : Nat) : Moves s₁ { s₁ with stats := s₁.stats.recordRead n } [] :=
      .of_eq hm.attended rfl rfl rfl rfl
    rw [hread] at ha
    rcases answer_readFrom s.transport.chunk want h.2 with ⟨bs, hb, hle⟩ | ⟨cause, hk⟩
    · obtain rfl : Delivery.stored bs = d := Answer.done.inj (hb.symm.trans ha)
      refine .inl ⟨bs, { s₁ with stats := s₁.stats.recordRead bs.length }, ?_, hle, ⟨?_, ?_⟩, hp⟩
      · simp only [readOnce, bind_apply, hx, count, pure_apply, Delivery.count]
      · refine ⟨_, ?_, delivered_of_answer hb, fun n hn => within_readFrom _ hw hn h.2⟩
        simpa using hm.trans (hcount bs.length)
      · intro hc
        have := meets_readFrom hc hw h.2
        rw [hb] at this
        simpa only [feed, ht, hread] using this
    · simp only [hk] at ha
      cases ha
  · rw [hread] at ha
    rcases answer_readFrom s.transport.chunk want h.2 with ⟨bs, hb, _⟩ | ⟨cause', hk⟩
    · simp only [hb] at ha
      cases ha
    · obtain rfl : cause = cause' := Answer.failed.inj (ha.symm.trans hk)
      refine .inr ⟨cause, s₁, ?_, ⟨?_, ?_⟩, hp⟩
      · simp only [readOnce, bind_apply, hx]
      · exact ⟨_, hm, delivered_of_failed hk, fun n hn => within_readFrom _ hw hn h.2⟩
      · intro hc
        have := meets_readFrom hc hw h.2
        rw [hk] at this
        simpa only [feed, ht, hread] using this

/-! ### Actions -/

/-- The stream that a result leaves, reached from `s` by pulling bytes of which, together with the
outcome and the position in the end, `post` holds. -/
def Leaves (s : FramedStream) (post : Except Stop α → List UInt8 → Position → Prop) :
    EStateM.Result Stop FramedStream α → Prop
  | .ok a s' => ∃ pulled, Advances s s' pulled ∧ post (.ok a) pulled s'.position
  | .error stop s' => ∃ pulled, Advances s s' pulled ∧ post (.error stop) pulled s'.position

/-- On every attended stream the action advances it, and `post` relates its outcome to the bytes
that it pulled and to the position in the end. -/
def Draws (x : FramingM α) (post : Except Stop α → List UInt8 → Position → Prop) : Prop :=
  ∀ s : FramedStream, s.Attended → Leaves s post (x s)

/-- The action pulls nothing. -/
abbrev Rests (x : FramingM α) : Prop := Draws x fun _ pulled _ => pulled = []

variable {post post' : Except Stop α → List UInt8 → Position → Prop}

theorem Draws.mono {x : FramingM α} (h : Draws x post)
    (hp : ∀ o bs p, post o bs p → post' o bs p) : Draws x post' := by
  intro s hs
  have hx := h s hs
  cases hr : x s with
  | ok a s' =>
    rw [hr] at hx
    obtain ⟨bs, ha, hb⟩ := hx
    exact ⟨bs, ha, hp _ _ _ hb⟩
  | error stop s' =>
    rw [hr] at hx
    obtain ⟨bs, ha, hb⟩ := hx
    exact ⟨bs, ha, hp _ _ _ hb⟩

section Bind

variable {post' : Except Stop β → List UInt8 → Position → Prop}

/-- What the first action pulled comes before what the second one pulls. -/
theorem Leaves.bind {x : FramingM α} {f : α → FramingM β} {s : FramedStream}
    (hx : Leaves s post (x s))
    (herr : ∀ stop bs p, post (.error stop) bs p → post' (.error stop) bs p)
    (hf : ∀ a bs s₁, s₁.Attended → post (.ok a) bs s₁.position →
      Leaves s₁ (fun o more => post' o (bs ++ more)) (f a s₁)) :
    Leaves s post' ((x >>= f) s) := by
  cases hr : x s with
  | ok a s₁ =>
    rw [hr] at hx
    obtain ⟨bs, ha, hb⟩ := hx
    have hy := hf a bs s₁ ha.attended hb
    rw [bind_of_ok hr]
    cases hr' : f a s₁ with
    | ok b s₂ =>
      rw [hr'] at hy
      obtain ⟨more, ha', hb'⟩ := hy
      exact ⟨bs ++ more, ha.trans ha', hb'⟩
    | error stop s₂ =>
      rw [hr'] at hy
      obtain ⟨more, ha', hb'⟩ := hy
      exact ⟨bs ++ more, ha.trans ha', hb'⟩
  | error stop s₁ =>
    rw [hr] at hx
    obtain ⟨bs, ha, hb⟩ := hx
    rw [bind_of_error hr]
    exact ⟨bs, ha, herr stop bs s₁.position hb⟩

theorem Draws.bind {x : FramingM α} {f : α → FramingM β} (hx : Draws x post)
    (herr : ∀ stop bs p, post (.error stop) bs p → post' (.error stop) bs p)
    (hf : ∀ a bs p, post (.ok a) bs p → Draws (f a) fun o more => post' o (bs ++ more)) :
    Draws (x >>= f) post' :=
  fun s hs => (hx s hs).bind herr fun a bs s₁ hs₁ hb => hf a bs s₁.position hb s₁ hs₁

end Bind

theorem Draws.pure {a : α} (h : ∀ p, post (.ok a) [] p) : Draws (pure a : FramingM α) post :=
  fun s hs => ⟨[], .refl hs, h s.position⟩

theorem Draws.get_bind {f : FramedStream → FramingM α} (h : ∀ s, Draws (f s) post) :
    Draws (get >>= f) post :=
  fun s hs => h s s hs

theorem leaves_throw {s : FramedStream} {stop : Stop} (hs : s.Attended)
    (h : post (.error stop) [] s.position) : Leaves s post ((throw stop : FramingM α) s) :=
  ⟨[], .refl hs, h⟩

/-- Behind the question whether the stream is usable, only a usable stream is met. -/
theorem Draws.usable {x : FramingM α} (hp : post (.error (.failed (.frame .poisoned))) [] .poisoned)
    (h : ∀ s : FramedStream, s.Attended → s.position ≠ .poisoned → Leaves s post (x s)) :
    Draws (do ask Position.usable; x) post := by
  intro s hs
  by_cases hu : s.position = .poisoned
  · rw [bind_of_error (ask_of_error (by rw [hu]; rfl))]
    exact ⟨[], .refl hs, hu ▸ hp⟩
  · rw [bind_of_ok (ask_usable hu)]
    exact h s hs hu

theorem rests_fail (f : Failure) : Rests (fail f : FramingM α) :=
  fun _ hs => ⟨[], .refl hs, rfl⟩

theorem draws_poison (f : Failure) :
    Draws (poison f : FramingM α) fun _ pulled p => pulled = [] ∧ p = .poisoned :=
  fun s hs => ⟨[], .poisonedBy hs f, rfl, s.position_poisonedBy f⟩

theorem rests_ask (q : Position → Except Violation α) : Rests (ask q) := by
  intro s hs
  unfold ask
  cases q s.position with
  | ok a => exact ⟨[], .refl hs, rfl⟩
  | error v => exact ⟨[], .refl hs, rfl⟩

theorem rests_count (f : Stats → Stats) : Rests (count f) :=
  fun _ hs => ⟨[], .of_moves_nil (.of_eq hs rfl rfl rfl rfl) rfl, rfl⟩

/-- The end of the stream is reported differently, but reached in the same way. -/
theorem Draws.endBreaks {x : FramingM α} (v : Violation) (h : Draws x post)
    (hp : ∀ bs p, post (.error (.failed .endOfStream)) bs p →
      post (.error (.failed (.frame v))) bs .poisoned) :
    Draws (endBreaks v x) post := by
  intro s hs
  have hx := h s hs
  unfold FramingM.endBreaks
  cases hr : x s with
  | ok a s' => rw [hr] at hx; exact hx
  | error stop s' =>
    rw [hr] at hx
    split
    · next heq =>
      cases heq
      obtain ⟨bs, ha, hb⟩ := hx
      refine ⟨bs, ?_, s'.position_poisonedBy (.frame v) ▸ hp bs s'.position hb⟩
      simpa using ha.trans (.poisonedBy ha.attended (.frame v))
    · exact hx

theorem Draws.attempt {x : FramingM α} (h : Draws x post) :
    Draws (attempt x) fun o bs p => match o with
      | .ok o => post o bs p
      | .error _ => False := by
  intro s hs
  have hx := h s hs
  unfold FramingM.attempt
  cases hr : x s with
  | ok a s' => rw [hr] at hx; exact hx
  | error stop s' => rw [hr] at hx; exact hx

end FramingM

end Http3Framing
