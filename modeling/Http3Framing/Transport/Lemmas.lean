import Http3Framing.Transport.Exchange

/-! What an exchange does to the bytes of a transport. Reading loses nothing: what the calls
delivered, followed by what is left, is what was there before, and a block that was answered is
all that was delivered. Writing all of a block accepts a part of it from the front, and the whole
of it exactly when the exchange is done. -/

namespace Http3Framing.Transport

open Exchange

theorem Exchange.after_calls {ε α : Type} (call : Call) (x : Exchange ε α) :
    (x.after call).calls = call :: x.calls := rfl

theorem delivered_readFrom (retry : Bool) (chunk : Option Nat) (want : Nat)
    (events : List ReadEvent) (patience : Patience) :
    (readFrom retry chunk want events patience).calls.flatMap Call.delivered ++
        (readFrom retry chunk want events patience).rest.flatMap ReadEvent.bytes =
      events.flatMap ReadEvent.bytes := by
  induction events generalizing patience with
  | nil => rfl
  | cons e events ih =>
    match e with
    | .pending =>
      simp only [readFrom, wait]
      cases patience.spend with
      | none => simp [Call.delivered, ReadEvent.bytes]
      | some p => simpa [after, Call.delivered, ReadEvent.bytes] using ih p
    | .failure cause =>
      simp only [readFrom]
      split
      · simpa [after, Call.delivered, ReadEvent.bytes] using ih patience
      · simp [Call.delivered, ReadEvent.bytes]
    | .finish => simp [readFrom, Call.delivered, Delivery.bytes, ReadEvent.bytes]
    | .claim n => simp [readFrom, Call.delivered, Delivery.bytes, ReadEvent.bytes]
    | .data [] => simpa [readFrom, ReadEvent.bytes] using ih patience
    | .data (b :: bs) =>
      simp only [readFrom, Call.delivered, Delivery.bytes, ReadEvent.bytes, List.flatMap_cons,
        List.flatMap_nil, List.append_nil, ← List.append_assoc, List.take_append_drop]

/-- The bytes of an answered read are all that its calls delivered. -/
theorem delivered_of_answer {retry : Bool} {chunk : Option Nat} {want : Nat}
    {events : List ReadEvent} {patience : Patience} {d : Delivery}
    (h : (readFrom retry chunk want events patience).answer = .done d) :
    (readFrom retry chunk want events patience).calls.flatMap Call.delivered = d.bytes := by
  induction events generalizing patience with
  | nil => cases h; rfl
  | cons e events ih =>
    match e with
    | .pending =>
      simp only [readFrom, wait] at h ⊢
      cases hp : patience.spend with
      | none => simp [hp] at h
      | some p =>
        simp only [hp] at h
        simpa [after, Call.delivered] using ih h
    | .failure cause =>
      simp only [readFrom] at h ⊢
      split at h
      · next hk =>
        rw [if_pos hk]
        simpa [after, Call.delivered] using ih h
      · cases h
    | .finish => cases h; rfl
    | .claim n => cases h; rfl
    | .data [] => exact ih h
    | .data (b :: bs) => cases h; simp [readFrom, Call.delivered]

theorem accepted_writeAllTo (flavour : Flavour) (events : List WriteEvent) (patience : Patience)
    (left : List UInt8) :
    (writeAllTo flavour events patience left).calls.flatMap Call.accepted <+: left := by
  induction events generalizing patience left with
  | nil =>
    cases left with
    | nil => simp [writeAllTo]
    | cons b bs => simp [writeAllTo, Call.accepted]
  | cons e events ih =>
    cases left with
    | nil => simp [writeAllTo]
    | cons b bs =>
      cases e with
      | pending =>
        simp only [writeAllTo, wait]
        cases patience.spend with
        | none => simp [Call.accepted]
        | some p => simpa [after, Call.accepted] using ih p (b :: bs)
      | failure cause =>
        simp only [writeAllTo]
        split
        · simpa [after, Call.accepted] using ih patience (b :: bs)
        · simp [Call.accepted]
      | acceptAll => simp [writeAllTo, Call.accepted]
      | accept n =>
        simp only [writeAllTo]
        split
        · simp [Call.accepted, List.take_prefix]
        · have hp := ih patience ((b :: bs).drop (min n (b :: bs).length))
          have hq := (List.prefix_append_right_inj ((b :: bs).take (min n (b :: bs).length))).2 hp
          rw [List.take_append_drop] at hq
          rw [after_calls, List.flatMap_cons, Call.accepted]
          exact hq

/-- Once all is written, all was accepted. -/
theorem accepted_of_done {flavour : Flavour} {events : List WriteEvent} {patience : Patience}
    {left : List UInt8} (h : (writeAllTo flavour events patience left).answer = .done ()) :
    (writeAllTo flavour events patience left).calls.flatMap Call.accepted = left := by
  induction events generalizing patience left with
  | nil =>
    cases left with
    | nil => simp [writeAllTo]
    | cons b bs => simp [writeAllTo, Call.accepted]
  | cons e events ih =>
    cases left with
    | nil => simp [writeAllTo]
    | cons b bs =>
      cases e with
      | pending =>
        simp only [writeAllTo, wait] at h ⊢
        cases hp : patience.spend with
        | none => simp [hp] at h
        | some p =>
          simp only [hp] at h
          simpa [after, Call.accepted] using ih h
      | failure cause =>
        simp only [writeAllTo] at h ⊢
        split at h
        · next hk =>
          rw [if_pos hk]
          simpa [after, Call.accepted] using ih h
        · cases h
      | acceptAll => simp [writeAllTo, Call.accepted]
      | accept n =>
        simp only [writeAllTo] at h ⊢
        split at h
        · cases h
        · next hn =>
          rw [if_neg hn, after_calls, List.flatMap_cons, Call.accepted, ih h]
          exact List.take_append_drop _ _

theorem output_record (t : Transport) (calls : List Call) :
    (t.record calls).output = t.output ++ calls.flatMap Call.accepted := by
  simp [record, output]

end Http3Framing.Transport
