import Http3Framing.Proofs.Drawing

/-! Transports without the answers that they are not ready. A caller that waits is answered in the
same way by a transport and by the settled one, is asked for the same bytes and leaves the same to
come. While no write is interrupted, which of the two kinds of callers writes is seen only in the
report that nothing was taken. -/

namespace Http3Framing

open Transport

/-- The call was answered. -/
def Call.settled : Call → Bool
  | read _ .pending | write _ .pending | flush .pending => false
  | _ => true

namespace Transport

def ReadEvent.settled : ReadEvent → Bool
  | pending => false
  | _ => true

def WriteEvent.settled : WriteEvent → Bool
  | pending => false
  | _ => true

def FlushEvent.settled : FlushEvent → Bool
  | pending => false
  | _ => true

/-- The transport without the answers that it is not ready. -/
def settle (t : Transport) : Transport where
  reads := t.reads.filter ReadEvent.settled
  chunk := t.chunk
  writes := t.writes.filter WriteEvent.settled
  flushes := t.flushes.filter FlushEvent.settled
  calls := (t.calls.toList.filter Call.settled).toArray

namespace Exchange

variable {ε α : Type}

/-- The exchange without the answers that the transport is not ready. -/
def settle (keep : ε → Bool) (x : Exchange ε α) : Exchange ε α where
  calls := x.calls.filter Call.settled
  rest := x.rest.filter keep
  patience := x.patience
  answer := x.answer

theorem settle_after {keep : ε → Bool} {call : Call} (x : Exchange ε α) (h : call.settled) :
    (x.after call).settle keep = (x.settle keep).after call := by
  simp [settle, after, h]

theorem settle_after_pending {keep : ε → Bool} {call : Call} (x : Exchange ε α)
    (h : call.settled = false) : (x.after call).settle keep = x.settle keep := by
  simp [settle, after, h]

end Exchange

theorem settle_readFrom (retry : Bool) (chunk : Option Nat) (want : Nat)
    (events : List ReadEvent) :
    readFrom retry chunk want (events.filter ReadEvent.settled) none =
      (readFrom retry chunk want events none).settle ReadEvent.settled := by
  induction events with
  | nil => rfl
  | cons e events ih =>
    match e with
    | .pending => exact ih.trans (Exchange.settle_after_pending _ rfl).symm
    | .failure cause =>
      simp only [List.filter_cons, ReadEvent.settled, if_true, readFrom]
      split
      · rw [ih, Exchange.settle_after _ rfl]
      · rfl
    | .finish => rfl
    | .claim n => rfl
    | .data [] => exact ih
    | .data (b :: bs) => rfl

theorem settle_writeTo (offered : List UInt8) (events : List WriteEvent) :
    writeTo offered (events.filter WriteEvent.settled) none =
      (writeTo offered events none).settle WriteEvent.settled := by
  induction events with
  | nil => rfl
  | cons e events ih =>
    cases e with
    | pending => exact ih.trans (Exchange.settle_after_pending _ rfl).symm
    | _ => rfl

theorem settle_writeAllTo (flavour : Flavour) (events : List WriteEvent) (left : List UInt8) :
    writeAllTo flavour (events.filter WriteEvent.settled) none left =
      (writeAllTo flavour events none left).settle WriteEvent.settled := by
  induction events generalizing left with
  | nil => cases left <;> rfl
  | cons e events ih =>
    cases left with
    | nil =>
      simp only [writeAllTo, Exchange.settle, List.filter_nil]
    | cons b bs =>
      cases e with
      | pending => exact (ih (b :: bs)).trans (Exchange.settle_after_pending _ rfl).symm
      | acceptAll => rfl
      | failure cause =>
        simp only [List.filter_cons, WriteEvent.settled, if_true, writeAllTo]
        split
        · rw [ih, Exchange.settle_after _ rfl]
        · rfl
      | accept n =>
        simp only [List.filter_cons, WriteEvent.settled, if_true, writeAllTo]
        split
        · rfl
        · rw [ih, Exchange.settle_after _ rfl]

theorem settle_flushOf (events : List FlushEvent) :
    flushOf (events.filter FlushEvent.settled) none =
      (flushOf events none).settle FlushEvent.settled := by
  induction events with
  | nil => rfl
  | cons e events ih =>
    cases e with
    | pending => exact ih.trans (Exchange.settle_after_pending _ rfl).symm
    | _ => rfl

def Outcome.settle {α : Type} (o : Outcome α) : Outcome α :=
  { o with transport := o.transport.settle }

theorem settle_read (retry : Bool) (want : Nat) (t : Transport) :
    t.settle.read retry want none = (t.read retry want none).settle := by
  by_cases hw : want = 0
  · simp [Transport.read, hw, Outcome.settle, settle, record]
    rfl
  · have hx := settle_readFrom retry t.chunk want t.reads
    simp only [Transport.read, if_neg hw, Outcome.settle]
    simp only [settle, hx, Exchange.settle, record]
    simp

theorem settle_write (offered : List UInt8) (t : Transport) :
    t.settle.write offered none = (t.write offered none).settle := by
  have hx := settle_writeTo offered t.writes
  simp only [Transport.write, Outcome.settle]
  simp only [settle, hx, Exchange.settle, record]
  simp

theorem settle_writeAll (flavour : Flavour) (bytes : List UInt8) (t : Transport) :
    t.settle.writeAll flavour bytes none = (t.writeAll flavour bytes none).settle := by
  have hx := settle_writeAllTo flavour t.writes bytes
  simp only [Transport.writeAll, Outcome.settle]
  simp only [settle, hx, Exchange.settle, record]
  simp

theorem settle_flush (t : Transport) : t.settle.flush none = (t.flush none).settle := by
  have hx := settle_flushOf t.flushes
  simp only [Transport.flush, Outcome.settle]
  simp only [settle, hx, Exchange.settle, record]
  simp

theorem unread_settle (t : Transport) : t.settle.unread = t.unread := by
  unfold unread settle
  induction t.reads with
  | nil => rfl
  | cons e events ih =>
    cases e with
    | pending => exact ih
    | _ => exact congrArg (_ ++ ·) ih

theorem output_settle (t : Transport) : t.settle.output = t.output := by
  unfold output settle
  simp only
  induction t.calls.toList with
  | nil => rfl
  | cons call calls ih =>
    match call with
    | .read _ .pending | .write _ .pending | .flush .pending => exact ih
    | .read _ (.ready _) | .write _ (.ready _) | .flush (.ready _) => exact congrArg (_ ++ ·) ih
    | .read _ (.failed _) | .write _ (.failed _) | .flush (.failed _) => exact ih

def WriteEvent.interrupts : WriteEvent → Bool
  | failure cause => cause.kind = .interrupted
  | _ => false

/-- No write is interrupted. Only a blocking caller would try again. -/
def Uninterrupted (t : Transport) : Prop := ∀ e ∈ t.writes, e.interrupts = false

instance (t : Transport) : Decidable t.Uninterrupted :=
  inferInstanceAs (Decidable (∀ e ∈ t.writes, e.interrupts = false))

theorem rest_writeTo (offered : List UInt8) (events : List WriteEvent) :
    (writeTo offered events none).rest <:+ events := by
  induction events with
  | nil => exact List.suffix_rfl
  | cons e events ih =>
    cases e with
    | pending => exact ih.trans (List.suffix_cons _ _)
    | _ => exact List.suffix_cons _ _

theorem rest_writeAllTo (flavour : Flavour) (events : List WriteEvent) (left : List UInt8) :
    (writeAllTo flavour events none left).rest <:+ events := by
  induction events generalizing left with
  | nil => cases left <;> exact List.suffix_rfl
  | cons e events ih =>
    cases left with
    | nil => simp [writeAllTo]
    | cons b bs =>
      cases e with
      | pending => exact (ih (b :: bs)).trans (List.suffix_cons _ _)
      | acceptAll => exact List.suffix_cons _ _
      | failure cause =>
        simp only [writeAllTo]
        split
        · exact (ih (b :: bs)).trans (List.suffix_cons _ _)
        · exact List.suffix_cons _ _
      | accept n =>
        simp only [writeAllTo]
        split
        · exact List.suffix_cons _ _
        · exact (ih _).trans (List.suffix_cons _ _)

theorem Uninterrupted.of_suffix {t t' : Transport} (h : t.Uninterrupted)
    (hs : t'.writes <:+ t.writes) : t'.Uninterrupted := fun e he => h e (hs.subset he)

/-- Whoever writes gives up at a failure that is no interruption. -/
theorem writeAllTo_of_failure (flavour : Flavour) {cause : Cause} (h : cause.kind ≠ .interrupted)
    (events : List WriteEvent) (patience : Patience) (b : UInt8) (bs : List UInt8) :
    writeAllTo flavour (.failure cause :: events) patience (b :: bs) =
      ⟨[.write (b :: bs) (.failed cause)], events, patience, .failed cause⟩ := by
  simp only [writeAllTo, h, decide_false, Bool.and_false, Bool.false_eq_true, if_false]

/-- How callers write all of a block, if it is not interrupted, tells only in how they report that
nothing was taken. -/
theorem writeAllTo_flavour (flavour flavour' : Flavour) {events : List WriteEvent}
    (h : ∀ e ∈ events, e.interrupts = false) (left : List UInt8) :
    ∃ answer, writeAllTo flavour' events none left =
        { writeAllTo flavour events none left with answer } ∧
      (answer = (writeAllTo flavour events none left).answer ∨
        (writeAllTo flavour events none left).answer = .failed (stall flavour) ∧
          answer = .failed (stall flavour')) := by
  induction events generalizing left with
  | nil => cases left <;> exact ⟨_, rfl, .inl rfl⟩
  | cons e events ih =>
    obtain ⟨he, hevents⟩ := List.forall_mem_cons.1 h
    cases left with
    | nil => exact ⟨_, rfl, .inl rfl⟩
    | cons b bs =>
      cases e with
      | pending =>
        obtain ⟨answer, hx, ha⟩ := ih hevents (b :: bs)
        refine ⟨answer, ?_, ha⟩
        simp only [writeAllTo, Exchange.wait_none, hx, Exchange.after]
      | acceptAll => exact ⟨_, rfl, .inl rfl⟩
      | failure cause =>
        have hk : cause.kind ≠ .interrupted := of_decide_eq_false he
        have hends := (writeAllTo_of_failure · hk events none b bs)
        rw [hends flavour, hends flavour']
        exact ⟨.failed cause, rfl, .inl rfl⟩
      | accept n =>
        by_cases hn : min n (b :: bs).length = 0
        · refine ⟨.failed (stall flavour'), ?_, .inr ⟨?_, rfl⟩⟩
          · simp only [writeAllTo, if_pos hn]
          · simp only [writeAllTo, if_pos hn]
        · obtain ⟨answer, hx, ha⟩ := ih hevents ((b :: bs).drop (min n (b :: bs).length))
          refine ⟨answer, ?_, ?_⟩
          · simp only [writeAllTo, if_neg hn, hx, Exchange.after]
          · simpa only [writeAllTo, if_neg hn, Exchange.after] using ha

end Transport

end Http3Framing
