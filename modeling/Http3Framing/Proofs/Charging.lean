import Http3Framing.Proofs.Heading
import Http3Framing.Proofs.Listening

/-! What reading charges. Over any transport and for a caller of any patience there are five ways in
which a read ends: it is done and the position has counted what it took; it was dropped, and the
position has counted what arrived and the byte that was waited for if that one is counted beforehand;
it poisoned the stream; the stream ended between frames before anything was taken; or the transport
claimed more than it was offered room for. Bytes and blocks end so, and all that is made of them. -/

namespace Http3Framing

open Transport

namespace Position

theorem ne_poisoned_of_consume_eq {p q : Position} {n : Nat} (h : consume n p = .ok q) :
    q ≠ poisoned := by
  cases p with
  | idle => cases h; simp
  | inFrame remaining =>
    obtain ⟨-, rfl⟩ := le_of_consume_inFrame h
    simp
  | poisoned => cases h

/-- A usable stream refuses to count only what goes beyond the frame. -/
theorem losesPlace_of_consume_error {p : Position} {n : Nat} {v : Violation} (hp : p ≠ poisoned)
    (h : consume n p = .error v) : v.losesPlace := by
  cases p with
  | idle => cases h
  | inFrame remaining =>
    rw [consume] at h
    split at h
    · cases h
      rfl
    · cases h
  | poisoned => exact absurd rfl hp

end Position

/-- Deliveries that fit into a buffer leave its size as it is. -/
theorem Delivery.length_overlay {ds : List Delivery} {old : List UInt8}
    (h : (ds.map count).sum ≤ old.length) : (overlay ds old).length = old.length := by
  induction ds generalizing old with
  | nil => rfl
  | cons d ds ih =>
    rw [List.map_cons, List.sum_cons] at h
    cases d with
    | stored bs =>
      change bs.length + _ ≤ _ at h
      rw [overlay, List.length_append, ih (by rw [List.length_drop]; omega), List.length_drop]
      omega
    | claimed n =>
      change n + _ ≤ _ at h
      rw [overlay, List.length_append, ih (by rw [List.length_drop]; omega), List.length_drop,
        List.length_take]
      omega

namespace Failure

/-- The failure of a read that goes beyond the open frame. -/
def crosses : Failure → Bool
  | frame (.limitExceeded ..) => true
  | _ => false

end Failure

namespace FramedStream

open FramingM

variable {α β : Type} {size : α → Nat → Prop} {size' : β → Nat → Prop} {lost : Nat}
  {clean : Prop} {s s₁ s' : FramedStream} {made : List Call} {n : Nat}

/-- How a read from `s` to `s'` by these calls has ended. A value that was handed out took a number of
bytes for which `size` holds; when the caller gave up, `lost` bytes were counted that had not arrived;
a read that went beyond the open frame has pulled all that the frame owed; `clean` says whether the
stream may just have ended. -/
inductive Ended (size : α → Nat → Prop) (lost : Nat) (clean : Prop) (s s' : FramedStream)
    (made : List Call) : Except Stop α → Prop
  | done {a : α} {n : Nat} (counted : s.position.consume n = .ok s'.position) (took : size a n)
    (arrived : s.transport.Honest → (made.flatMap Call.delivered).length = n) :
    Ended size lost clean s s' made (.ok a)
  | dropped {n : Nat} (counted : s.position.consume n = .ok s'.position)
    (impatient : s.patience ≠ none)
    (arrived : s.transport.Honest → (made.flatMap Call.delivered).length + lost = n) :
    Ended size lost clean s s' made (.error .dropped)
  | poisoned {f : Failure} (poisons : f.poisons) (after : s'.position = .poisoned)
    (crossed : f.crosses → s.transport.Honest →
      s.position = .inFrame (made.flatMap Call.delivered).length) :
    Ended size lost clean s s' made (.error (.failed f))
  | ended (allowed : clean) (before : s.position = .idle) (after : s'.position = .idle)
    (nothing : (made.map Call.claimed).sum = 0) :
    Ended size lost clean s s' made (.error (.failed .endOfStream))
  | overrun {claimed room : Nat} (dishonest : ¬ s.transport.Honest) :
    Ended size lost clean s s' made (.error (.overrun claimed room))

/-- The result of a read from `s`. -/
def Charges (size : α → Nat → Prop) (lost : Nat) (clean : Prop) (s : FramedStream) :
    EStateM.Result Stop FramedStream α → Prop
  | .ok a s' => ∃ made, Listens s s' made ∧ Ended size lost clean s s' made (.ok a)
  | .error stop s' => ∃ made, Listens s s' made ∧ Ended size lost clean s s' made (.error stop)

/-! ### Putting reads together -/

/-- How a read stopped does not depend on what it would have handed out. -/
theorem Ended.of_error {clean' : Prop} {stop : Stop}
    (h : Ended size lost clean s s' made (.error stop)) (hc : clean → clean') :
    Ended size' lost clean' s s' made (.error stop) := by
  cases h with
  | dropped counted impatient arrived => exact .dropped counted impatient arrived
  | poisoned poisons after crossed => exact .poisoned poisons after crossed
  | ended allowed before after nothing => exact .ended (hc allowed) before after nothing
  | overrun dishonest => exact .overrun dishonest

/-- What comes behind a read that was done. -/
theorem Ended.after {more : List Call} {o : Except Stop β} (hl : Listens s s₁ made)
    (hc : s.position.consume n = .ok s₁.position)
    (ha : s.transport.Honest → (made.flatMap Call.delivered).length = n)
    (h : Ended (fun b m => size' b (n + m)) lost False s₁ s' more o) :
    Ended size' lost clean s s' (made ++ more) o := by
  have hlength (hs : s.transport.Honest) : ((made ++ more).flatMap Call.delivered).length =
      n + (more.flatMap Call.delivered).length := by
    rw [List.flatMap_append, List.length_append, ha hs]
  cases h with
  | done counted took arrived =>
    refine .done (Position.consume_add hc counted) took fun hs => ?_
    rw [hlength hs, arrived (hl.honest hs).1]
  | dropped counted impatient arrived =>
    refine .dropped (Position.consume_add hc counted) (mt hl.waiting impatient) fun hs => ?_
    rw [hlength hs, Nat.add_assoc, arrived (hl.honest hs).1]
  | poisoned poisons after crossed =>
    refine .poisoned poisons after fun hf hs => ?_
    rw [hlength hs]
    exact Position.inFrame_of_consume hc (crossed hf (hl.honest hs).1)
  | ended allowed => exact allowed.elim
  | overrun dishonest => exact .overrun (mt (fun hs => (hl.honest hs).1) dishonest)

/-- Inside a frame the stream does not just end. -/
theorem Ended.of_inFrame {remaining : Nat} {o : Except Stop α} (hp : s.position = .inFrame remaining)
    (h : Ended size lost clean s s' made o) : Ended size lost False s s' made o := by
  cases h with
  | done counted took arrived => exact .done counted took arrived
  | dropped counted impatient arrived => exact .dropped counted impatient arrived
  | poisoned poisons after crossed => exact .poisoned poisons after crossed
  | ended _ before =>
    rw [hp] at before
    cases before
  | overrun dishonest => exact .overrun dishonest

theorem Charges.mono {clean' : Prop} {size' : α → Nat → Prop}
    {r : EStateM.Result Stop FramedStream α} (h : Charges size lost clean s r)
    (hs : ∀ a n, size a n → size' a n) (hc : clean → clean') : Charges size' lost clean' s r := by
  cases r with
  | ok a s' =>
    obtain ⟨made, hl, he⟩ := h
    cases he with
    | done counted took arrived => exact ⟨made, hl, .done counted (hs _ _ took) arrived⟩
  | error stop s' =>
    obtain ⟨made, hl, he⟩ := h
    exact ⟨made, hl, he.of_error hc⟩

theorem Charges.after {r : EStateM.Result Stop FramedStream β} (hl : Listens s s₁ made)
    (hc : s.position.consume n = .ok s₁.position)
    (ha : s.transport.Honest → (made.flatMap Call.delivered).length = n)
    (h : Charges (fun b m => size' b (n + m)) lost False s₁ r) : Charges size' lost clean s r := by
  cases r with
  | ok a s' =>
    obtain ⟨more, hl', he⟩ := h
    exact ⟨made ++ more, hl.trans hl', he.after hl hc ha⟩
  | error stop s' =>
    obtain ⟨more, hl', he⟩ := h
    exact ⟨made ++ more, hl.trans hl', he.after hl hc ha⟩

theorem Charges.bind {x : FramingM α} {f : α → FramingM β} (hx : Charges size lost clean s (x s))
    (hf : ∀ a n s₁, size a n → s.position.consume n = .ok s₁.position →
      Charges (fun b m => size' b (n + m)) lost False s₁ (f a s₁)) :
    Charges size' lost clean s ((x >>= f) s) := by
  cases hr : x s with
  | ok a s₁ =>
    rw [hr] at hx
    obtain ⟨made, hl, he⟩ := hx
    rw [bind_of_ok hr]
    cases he with
    | done counted took arrived => exact .after hl counted arrived (hf a _ s₁ took counted)
  | error stop s₁ =>
    rw [hr] at hx
    obtain ⟨made, hl, he⟩ := hx
    rw [bind_of_error hr]
    exact ⟨made, hl, he.of_error id⟩

theorem charges_pure {a : α} (hu : s.position ≠ .poisoned) (h : size a 0) :
    Charges size lost clean s ((pure a : FramingM α) s) :=
  ⟨[], .refl s, .done (Position.consume_zero hu) h fun _ => rfl⟩

theorem charges_poison {f : Failure} (h : f.poisons) (hc : f.crosses → s.position = .inFrame 0) :
    Charges size lost clean s ((poison f : FramingM α) s) :=
  ⟨[], listens_poisonedBy s f, .poisoned h (s.position_poisonedBy f) fun hf _ => hc hf⟩

theorem Charges.endBreaks {x : FramingM α} {v : Violation} (h : Charges size lost clean s (x s))
    (hv : v.losesPlace) (hc : (Failure.frame v).crosses = false) :
    Charges size lost False s (endBreaks v x s) := by
  unfold FramingM.endBreaks
  cases hr : x s with
  | ok a s' =>
    rw [hr] at h
    obtain ⟨made, hl, he⟩ := h
    cases he with
    | done counted took arrived => exact ⟨made, hl, .done counted took arrived⟩
  | error stop s' =>
    rw [hr] at h
    obtain ⟨made, hl, he⟩ := h
    cases he with
    | dropped counted impatient arrived => exact ⟨made, hl, .dropped counted impatient arrived⟩
    | ended =>
      refine ⟨made, hl.poisonedBy _, .poisoned hv (s'.position_poisonedBy _) fun hf => ?_⟩
      rw [hc] at hf
      cases hf
    | overrun dishonest => exact ⟨made, hl, .overrun dishonest⟩
    | poisoned poisons after crossed =>
      split
      · next heq =>
        cases heq
        cases poisons
      · exact ⟨made, hl, .poisoned poisons after crossed⟩

/-- The end of the stream behind calls that brought in nothing; nothing comes after it. -/
theorem charges_ended {f : β → FramingM α} {counted : Nat} (hl : Listens s s₁ made)
    (hc : s.position.consume counted = .ok s₁.position) (hn : (made.map Call.claimed).sum = 0) :
    Charges size lost True s ((ended counted >>= f) s₁) := by
  cases hp : s.position with
  | idle =>
    rw [hp] at hc
    have hq : s₁.position = .idle := (Except.ok.inj hc).symm
    have hend : (ended counted : FramingM β) s₁ = .error (.failed .endOfStream) s₁ := by
      simp only [FramingM.ended, hq, Position.cutShort?, fail]
      rfl
    rw [bind_of_error hend]
    exact ⟨made, hl, .ended trivial hp hq hn⟩
  | inFrame remaining =>
    rw [hp] at hc
    obtain ⟨-, hq⟩ := Position.le_of_consume_inFrame hc
    simp only [bind_apply, FramingM.ended, hq, Position.cutShort?, poison]
    exact ⟨made, hl.poisonedBy _, .poisoned rfl (s₁.position_poisonedBy _) fun hf => by cases hf⟩
  | poisoned =>
    rw [hp] at hc
    cases hc

/-! ### Bytes and blocks -/

/-- A byte is counted before it is waited for. -/
theorem charges_readByte (hu : s.position ≠ .poisoned) :
    Charges (fun _ n => n = 1) 1 True s (FramedStream.readByte s) := by
  rcases s.position.byte_cases with hp | hp | ⟨p, hc, -⟩
  · exact absurd hp hu
  · rw [readByte_of_exhausted hp]
    exact charges_poison rfl fun _ => hp
  rw [readByte_of_consume hc]
  obtain ⟨made, ⟨d, s₁, hx, hl, hp, hbytes, hclaimed, hs⟩ | ⟨cause, s₁, hx, hl, hp⟩ |
    ⟨s₁, hx, hl, hp, hnone, himpatient⟩⟩ := readOnce_ends { s with position := p } (Nat.le_refl 1)
  · replace hl := hl.at p
    have hc₁ : s.position.consume 1 = .ok s₁.position := by rw [hc, hp]
    rw [bind_of_ok hx]
    by_cases hd : d.count = 0
    · simp only [if_pos hd]
      exact charges_ended hl hc₁ (hclaimed.trans hd)
    · simp only [if_neg hd]
      refine ⟨made, hl, .done hc₁ rfl fun hs' => ?_⟩
      obtain ⟨bs, rfl, hle⟩ := hs hs'
      change bs.length ≠ 0 at hd
      rw [hbytes]
      change bs.length = 1
      omega
  · rw [bind_of_error hx]
    exact ⟨made, hl.at p, .poisoned rfl hp nofun⟩
  · rw [bind_of_error hx]
    refine ⟨made, hl.at p, .dropped (n := 1) (by rw [hc, hp]) himpatient fun _ => ?_⟩
    rw [hnone, List.length_nil]

/-- A block is counted when it has arrived. -/
theorem charges_readBlock (room : Nat) (hu : s.position ≠ .poisoned) :
    Charges (fun d n => d.count = n ∧ (s.transport.Honest → n ≤ room)) 0 True s
      (readBlock room s) := by
  rcases Nat.eq_zero_or_pos room with rfl | hr
  · rw [readBlock_zero hu]
    exact charges_pure hu ⟨rfl, fun _ => Nat.le_refl 0⟩
  rcases s.position.block_cases hr with hp | hp | ⟨-, hw⟩
  · exact absurd hp hu
  · rw [readBlock_of_exhausted hr hp]
    exact charges_poison rfl fun _ => hp
  rw [readBlock_of_cap hu hw]
  obtain ⟨made, ⟨d, s₁, hx, hl, hp, hbytes, hclaimed, hs⟩ | ⟨cause, s₁, hx, hl, hp⟩ |
    ⟨s₁, hx, hl, hp, hnone, himpatient⟩⟩ := readOnce_ends s hw
  · rw [bind_of_ok hx]
    by_cases hd : d.count = 0
    · have hc : s.position.consume 0 = .ok s₁.position := by rw [hp, Position.consume_zero hu]
      simp only [if_pos hd]
      exact charges_ended hl hc (hclaimed.trans hd)
    simp only [if_neg hd, bind_apply, consume, hp]
    cases hc : s.position.consume d.count with
    | error v =>
      -- only a claim can be larger than what the frame owes
      refine ⟨made, hl.poisonedBy _, .poisoned (Position.losesPlace_of_consume_error hu hc)
        (s₁.position_poisonedBy _) fun _ hs' => ?_⟩
      obtain ⟨bs, rfl, hle⟩ := hs hs'
      obtain ⟨q, hq⟩ := Position.consume_of_le_cap hu hle
      cases hc.symm.trans hq
    | ok p =>
      have hmove : Listens s₁ { s₁ with position := p } [] := .of_eq rfl rfl rfl rfl rfl
      have hl' := hl.trans hmove
      rw [List.append_nil] at hl'
      refine ⟨made, hl', .done hc ⟨rfl, fun hs' => ?_⟩ fun hs' => ?_⟩
      · obtain ⟨bs, rfl, hle⟩ := hs hs'
        exact Nat.le_trans hle (s.position.cap_le room)
      · obtain ⟨bs, rfl, -⟩ := hs hs'
        rw [hbytes]
        rfl
  · rw [bind_of_error hx]
    exact ⟨made, hl, .poisoned rfl hp fun hf => by cases hf⟩
  · rw [bind_of_error hx]
    refine ⟨made, hl, .dropped (n := 0) ?_ himpatient fun _ => ?_⟩
    · rw [hp, Position.consume_zero hu]
    · rw [hnone, List.length_nil]

theorem charges_nextBlock (started : Bool) (room : Nat) (hu : s.position ≠ .poisoned) :
    Charges (fun d n => d.count = n ∧ (s.transport.Honest → n ≤ room)) 0 (started = false) s
      (nextBlock started room s) := by
  have hblock := charges_readBlock room hu
  unfold nextBlock
  cases started with
  | true => exact (hblock.endBreaks rfl rfl).mono (fun _ _ h => h) False.elim
  | false => exact hblock.mono (fun _ _ h => h) fun _ => rfl

/-- Blocks that fill a buffer, or why they did not. -/
def filled : List Delivery × Option Stop → Except Stop (List Delivery)
  | (ds, none) => .ok ds
  | (_, some stop) => .error stop

/-- A block in front of those that fill the rest of a buffer. -/
theorem Ended.filled_cons {room : Nat} {d : Delivery} {ds : List Delivery} {stop : Option Stop}
    (hle : d.count ≤ room) (hc : ¬ clean)
    (h : Ended (fun ds n => n = room - d.count ∧ (ds.map Delivery.count).sum = room - d.count) 0 clean
      s s' made (filled (ds, stop))) :
    Ended (fun ds n => d.count + n = room ∧ (ds.map Delivery.count).sum = room) 0 False s s' made
      (filled (d :: ds, stop)) := by
  cases stop with
  | none =>
    cases h with
    | done counted took arrived =>
      obtain ⟨rfl, hsum⟩ := took
      refine .done counted ⟨by omega, ?_⟩ arrived
      rw [List.map_cons, List.sum_cons, hsum]
      omega
  | some stop => exact h.of_error hc

/-- Between frames the end of the stream leaves the buffer as it was. -/
theorem charges_readBlocks (fuel room : Nat) (started : Bool) (s : FramedStream)
    (hu : s.position ≠ .poisoned) (h : room ≤ fuel) :
    ∃ r s' made, readBlocks fuel room started s = .ok r s' ∧ Listens s s' made ∧
      Ended (fun ds n => n = room ∧ (ds.map Delivery.count).sum = room) 0 (started = false) s s'
        made (filled r) ∧
      (r.2 = some (.failed .endOfStream) → r.1 = []) := by
  induction fuel generalizing room started s with
  | zero =>
    obtain rfl : room = 0 := by omega
    exact ⟨_, s, [], rfl, .refl s, .done (Position.consume_zero hu) ⟨rfl, rfl⟩ fun _ => rfl, nofun⟩
  | succ fuel ih =>
    by_cases hr : room = 0
    · subst hr
      exact ⟨_, s, [], rfl, .refl s, .done (Position.consume_zero hu) ⟨rfl, rfl⟩ fun _ => rfl, nofun⟩
    have hnext := charges_nextBlock started room hu
    simp only [readBlocks, ite_on, if_neg hr]
    cases hx : nextBlock started room s with
    | error stop s₁ =>
      rw [hx] at hnext
      obtain ⟨made, hl, he⟩ := hnext
      rw [bind_of_ok (attempt_of_error hx)]
      exact ⟨_, s₁, made, rfl, hl, he.of_error id, fun _ => rfl⟩
    | ok d s₁ =>
      rw [hx] at hnext
      obtain ⟨made, hl, he⟩ := hnext
      have hd : 0 < d.count := nextBlock_pos (Nat.pos_of_ne_zero hr) hx
      rw [bind_of_ok (attempt_of_ok hx)]
      cases he with
      | done counted took arrived =>
        obtain ⟨rfl, hle⟩ := took
        by_cases hover : room < d.count
        · simp only [if_pos hover]
          refine ⟨_, s₁, made, rfl, hl, .overrun fun hs => ?_, ?_⟩
          · exact absurd (hle hs) (Nat.not_le.2 hover)
          · rintro ⟨⟩
        simp only [if_neg hover]
        obtain ⟨⟨ds, stop⟩, s₂, more, hy, hl', he', -⟩ :=
          ih (room - d.count) true s₁ (Position.ne_poisoned_of_consume_eq counted) (by omega)
        refine ⟨(d :: ds, stop), s₂, made ++ more, ?_, hl.trans hl', ?_, ?_⟩
        · rw [bind_of_ok hy]
          rfl
        · exact .after hl counted arrived (he'.filled_cons (Nat.le_of_not_lt hover) (by decide))
        · -- once something has arrived, the end of the stream is a breach
          rintro ⟨⟩
          cases he' with
          | poisoned poisons => cases poisons
          | ended allowed => cases allowed

/-! ### Integers, payloads and headers -/

theorem charges_readMissing (missing : Nat) (p : Varint.Partial missing) (s : FramedStream)
    (hu : s.position ≠ .poisoned) :
    Charges (fun v n => n = missing ∧ ∃ bs : List UInt8, bs.length = missing ∧
      v.toNat = BigEndian.extend p.value bs) 1 False s (readMissing missing p s) := by
  induction missing generalizing s with
  | zero => exact charges_pure hu ⟨rfl, [], rfl, rfl⟩
  | succ missing ih =>
    refine ((charges_readByte hu).endBreaks rfl rfl).bind fun b n s₁ hn hc => ?_
    subst hn
    refine (ih (p.push b) s₁ (Position.ne_poisoned_of_consume_eq hc)).mono ?_ id
    rintro v m ⟨rfl, bs, hlen, hv⟩
    exact ⟨Nat.add_comm 1 m, b :: bs, by rw [List.length_cons, hlen], hv⟩

/-- An integer takes the bytes of one of its forms. -/
theorem charges_readVarint (hu : s.position ≠ .poisoned) :
    Charges (fun v n => ∃ form, v.Form form ∧ form.length = n) 1 True s
      (FramedStream.readVarint s) := by
  refine (charges_readByte hu).bind fun b n s₁ hn hc => ?_
  subst hn
  refine (charges_readMissing _ (.start b) s₁ (Position.ne_poisoned_of_consume_eq hc)).mono ?_ id
  rintro v m ⟨rfl, bs, hlen, hv⟩
  have hpos := (Width.ofFirst b).size_pos
  have hall : (b :: bs).length = (Width.ofFirst b).size := by
    rw [List.length_cons, hlen]
    omega
  obtain rfl : v = Varint.ofBytes (Width.ofFirst b) (b :: bs) :=
    Varint.ext (hv.trans (Varint.extend_eq_ofBytes hall))
  refine ⟨b :: bs, Varint.form_ofBytes hall, ?_⟩
  rw [hall]
  omega

theorem charges_readSteps (steps : List Nat) (s : FramedStream) {remaining : Nat}
    (hp : s.position = .inFrame remaining) :
    Charges (fun ds n => n = steps.sum ∧ (ds.map Delivery.count).sum = n) 0 False s
      (readSteps steps s) := by
  induction steps generalizing s remaining with
  | nil => exact charges_pure (by simp [hp]) ⟨rfl, rfl⟩
  | cons step steps ih =>
    obtain ⟨⟨ds, stop⟩, s₁, made, hx, hl, he, -⟩ :=
      charges_readBlocks step step false s (by simp [hp]) (Nat.le_refl step)
    simp only [readSteps, readExact_eq]
    rw [bind_of_ok hx]
    cases stop with
    | some stop => exact ⟨made, hl, (he.of_inFrame hp).of_error id⟩
    | none =>
      cases he with
      | done counted took arrived =>
        obtain ⟨rfl, hsum⟩ := took
        have hp₁ := counted
        rw [hp] at hp₁
        obtain ⟨-, hp₁⟩ := Position.le_of_consume_inFrame hp₁
        refine .after hl counted arrived ((ih s₁ hp₁).bind fun more m s₂ hm hc => ?_)
        refine charges_pure (Position.ne_poisoned_of_consume_eq hc) ?_
        rw [List.sum_cons, List.map_append, List.sum_append, hsum, hm.2, hm.1, Nat.add_zero]
        exact ⟨rfl, rfl⟩

/-- A payload takes all that the frame owes. -/
theorem charges_readPayload {len : Nat} (hp : s.position = .inFrame len) :
    Charges (fun payload n => n = len ∧ payload.length = len) 0 False s
      (FramedStream.readPayload s) := by
  by_cases h : s.limits.maxPayload < len
  · rw [readPayload_of_oversized hp h]
    exact charges_poison rfl nofun
  · rw [readPayload_in_steps hp (Nat.le_of_not_lt h)]
    refine (charges_readSteps _ s hp).bind fun ds n s₁ hn hc => ?_
    obtain ⟨rfl, hsum⟩ := hn
    rw [s.limits.sum_steps] at hsum
    refine charges_pure (Position.ne_poisoned_of_consume_eq hc) ⟨s.limits.sum_steps len, ?_⟩
    rw [Delivery.length_overlay (by simp [hsum]), List.length_replicate]

/-- Between frames a header is read and opens its frame, or it is not read and no frame is open. -/
theorem charges_readHeader (hp : s.position = .idle) :
    (∃ header s₁ made, Listens s s₁ made ∧ FramedStream.readHeader s = .ok header
        { s₁ with
          position := .inFrame header.len
          stats := s₁.stats.recordFrameRead
          events := s₁.events.push (.headerRead header) }) ∨
      ∃ stop s' made, FramedStream.readHeader s = .error stop s' ∧ Listens s s' made ∧
        Ended (α := Frame.Header) (fun _ _ => True) 1 True s s' made (.error stop) := by
  have hkind := charges_readVarint (s := s) (by simp [hp])
  cases hx : FramedStream.readVarint s with
  | error stop s₁ =>
    rw [hx] at hkind
    obtain ⟨made, hl, he⟩ := hkind
    exact .inr ⟨stop, s₁, made, readHeader_of_error hp hx, hl, he.of_error id⟩
  | ok kind s₁ =>
    rw [hx] at hkind
    obtain ⟨made, hl, he⟩ := hkind
    cases he with
    | done counted took arrived =>
      have hlen := (charges_readVarint (Position.ne_poisoned_of_consume_eq counted)).endBreaks
        (v := .truncatedHeader) rfl rfl
      have hrest := readHeader_of_kind hp hx
      cases hy : FramingM.endBreaks .truncatedHeader FramedStream.readVarint s₁ with
      | error stop s₂ =>
        rw [hy] at hlen
        obtain ⟨more, hl', he'⟩ := hlen
        refine .inr ⟨stop, s₂, made ++ more, hrest.trans (bind_of_error hy), hl.trans hl', ?_⟩
        exact (he'.of_error id).after hl counted arrived
      | ok len s₂ =>
        rw [hy] at hlen
        obtain ⟨more, hl', -⟩ := hlen
        exact .inl ⟨_, s₂, made ++ more, hl.trans hl', hrest.trans (bind_of_ok hy)⟩

end FramedStream

end Http3Framing
