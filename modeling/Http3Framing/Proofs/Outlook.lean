import Http3Framing.Proofs.Boundary
import Http3Framing.Proofs.Charging
import Http3Framing.Proofs.Filling

/-! Filling a buffer, as the transport lets it. A transport has so many bytes to come before something
puts an end to them; a buffer takes them up to its size, and inside a frame up to the end of the frame.
That decides how many bytes arrive, and with what the filling ends. -/

namespace Http3Framing

namespace Position

/-- Where a stream stands after `n` more bytes, of which an open frame owes as many. -/
def after (n : Nat) : Position → Position
  | inFrame remaining => inFrame (remaining - n)
  | p => p

theorem consume_eq_after {room n : Nat} {p : Position} (hp : p ≠ poisoned) (h : n ≤ p.cap room) :
    p.consume n = .ok (p.after n) := by
  cases p with
  | idle => rfl
  | inFrame remaining => exact consume_inFrame_of_le (Nat.le_trans h (cap_inFrame_le room remaining))
  | poisoned => exact absurd rfl hp

@[simp] theorem after_zero (p : Position) : p.after 0 = p := by
  cases p <;> rfl

theorem after_after (m n : Nat) (p : Position) : (p.after m).after n = p.after (m + n) := by
  cases p with
  | inFrame remaining => exact congrArg inFrame (Nat.sub_sub remaining m n)
  | _ => rfl

theorem after_ne_poisoned {p : Position} (n : Nat) (hp : p ≠ poisoned) : p.after n ≠ poisoned := by
  cases p with
  | poisoned => exact absurd rfl hp
  | _ => nofun

/-- What was taken of a read is missing from the rest of it. -/
theorem cap_after {room n : Nat} {p : Position} (h : n ≤ p.cap room) :
    (p.after n).cap (room - n) = p.cap room - n := by
  cases p with
  | inFrame remaining =>
    simp only [cap, after] at h ⊢
    omega
  | _ => rfl

/-- Where a frame owes nothing after a count of what it could bear, all it could bear was counted. -/
theorem eq_cap_of_after_exhausted {p : Position} {room n : Nat} (h : p.after n = inFrame 0)
    (hle : n ≤ p.cap room) : n = p.cap room := by
  cases p with
  | inFrame remaining =>
    have hzero : remaining - n = 0 := inFrame.inj h
    simp only [cap] at hle ⊢
    omega
  | idle => cases h
  | poisoned => cases h

end Position

namespace Transport

/-- What puts an end to the bytes of a transport. -/
inductive Halt
  | ended
  | failed (cause : Cause)
  /-- The caller gives up. -/
  | dropped
  deriving DecidableEq

/-- The bytes to come, what puts an end to them, and what is left of the script then. -/
structure Outlook where
  bytes : List UInt8
  halt : Halt
  beyond : List ReadEvent
  deriving DecidableEq

/-- The outlook with these bytes before it. -/
def Outlook.before (o : Outlook) (bs : List UInt8) : Outlook := { o with bytes := bs ++ o.bytes }

/-- What a caller of this patience has to expect of the events: all bytes before the stream ends, a read
fails or the caller gives up. Interruptions are passed over; a transport that never delivers a byte is at
its end where it has bytes to deliver. -/
def outlookOf (chunk : Option Nat) : List ReadEvent → Patience → Outlook
  | [], _ => ⟨[], .ended, []⟩
  | .pending :: events, patience =>
    match patience.spend with
    | none => ⟨[], .dropped, events⟩
    | some patience => outlookOf chunk events patience
  | .failure cause :: events, patience =>
    if cause.kind = .interrupted then outlookOf chunk events patience
    else ⟨[], .failed cause, events⟩
  | .finish :: events, _ | .claim _ :: events, _ => ⟨[], .ended, events⟩
  | .data [] :: events, patience => outlookOf chunk events patience
  | .data (b :: bytes) :: events, patience =>
    if chunk = some 0 then ⟨[], .ended, .data (b :: bytes) :: events⟩
    else (outlookOf chunk events patience).before (b :: bytes)

theorem outlookOf_data {chunk : Option Nat} (hc : chunk ≠ some 0) (bs : List UInt8)
    (events : List ReadEvent) (patience : Patience) :
    outlookOf chunk (.data bs :: events) patience = (outlookOf chunk events patience).before bs := by
  cases bs with
  | nil => rfl
  | cons b bs => exact if_neg hc

theorem Outlook.before_before (o : Outlook) (bs cs : List UInt8) :
    (o.before cs).before bs = o.before (bs ++ cs) := by
  simp only [before, List.append_assoc]

/-- The answer of a read that meets this. -/
def Halt.answer : Halt → Answer Delivery
  | ended => .done (.stored [])
  | failed cause => .failed cause
  | dropped => .dropped

/-- What halts a reader with `room` bytes left, and where that leaves a stream that stands at `p`. Once
something has arrived, the end of the stream between frames cuts the rest short. -/
def Halt.settle (room : Nat) (started : Bool) (p : Position) : Halt → Stop × Position
  | ended =>
    match p with
    | .inFrame remaining => (.failed (.frame (.truncatedFrame remaining)), .poisoned)
    | _ =>
      if started then (.failed (.frame (.truncatedFrame room)), .poisoned)
      else (.failed .endOfStream, p)
  | failed cause => (.failed (.transport cause), .poisoned)
  | dropped => (.dropped, p)

/-- How a buffer of `room` bytes ends up, and the stream that stood at `p` before it, when `k` bytes
arrived. -/
def Halt.finish (room : Nat) (started : Bool) (p : Position) (k : Nat) (halt : Halt) :
    Option Stop × Position :=
  if k = room then (none, p.after k)
  else if k = p.cap room then (some (.failed (.frame (.limitExceeded (room - k) 0))), .poisoned)
  else (halt.settle (room - k) (started || decide (0 < k)) (p.after k)).map some id

section

variable {room k : Nat} {started : Bool} {p : Position}

theorem Halt.finish_full (halt : Halt) (h : k = room) :
    halt.finish room started p k = (none, p.after room) := by
  rw [finish, if_pos h, h]

theorem Halt.finish_crossed (halt : Halt) (hlt : k < room) (h : k = p.cap room) :
    halt.finish room started p k =
      (some (.failed (.frame (.limitExceeded (room - k) 0))), .poisoned) := by
  rw [finish, if_neg (Nat.ne_of_lt hlt), if_pos h]

theorem Halt.finish_short (halt : Halt) (h : k < p.cap room) :
    halt.finish room started p k =
      (halt.settle (room - k) (started || decide (0 < k)) (p.after k)).map some id := by
  have hle := p.cap_le room
  rw [finish, if_neg (by omega), if_neg (Nat.ne_of_lt h)]

end

/-- The exchange of one read for `want` bytes with this outlook and feed: its last call stores the first
of the bytes to come, or there are none and it meets what halts them. -/
inductive Sees (want : Nat) (chunk : Option Nat) (o : Outlook) (feed : List Symbol)
    (x : Exchange ReadEvent Delivery) : Prop
  | stored {bs : List UInt8} (answer : x.answer = .done (.stored bs)) (ne : bs ≠ [])
    (le : bs.length ≤ want) (last : ∃ c, x.calls.getLast? = some c ∧ c.delivered = bs)
    (outlook : o = (outlookOf chunk x.rest x.patience).before bs)
    (rest : feed = bs.map .byte ++ x.rest.flatMap ReadEvent.symbols)
  | halted {halt : Halt} (outlook : o = ⟨[], halt, x.rest⟩) (answer : x.answer = halt.answer)

theorem Sees.after {want : Nat} {chunk : Option Nat} {o : Outlook} {feed : List Symbol}
    {x : Exchange ReadEvent Delivery} (h : Sees want chunk o feed x) (call : Call) :
    Sees want chunk o feed (x.after call) := by
  cases h with
  | halted outlook answer => exact .halted outlook answer
  | stored answer ne le last outlook rest =>
    obtain ⟨c, hc, hd⟩ := last
    refine .stored answer ne le ⟨c, ?_, hd⟩ outlook rest
    rw [Exchange.after_calls, List.getLast?_cons, hc]
    rfl

/-- A piece of data gives what was asked for, or as much of it as there is; the rest stays. -/
theorem sees_data {chunk : Option Nat} (hc : chunk ≠ some 0) {want : Nat} (hw : 1 ≤ want) (b : UInt8)
    (bs : List UInt8) (events : List ReadEvent) (patience : Patience) :
    Sees want chunk (outlookOf chunk (.data (b :: bs) :: events) patience)
      ((ReadEvent.data (b :: bs) :: events).flatMap ReadEvent.symbols)
      (readFrom true chunk want (.data (b :: bs) :: events) patience) := by
  let n := portion chunk want
  have hpos : 0 < n := portion_pos hc hw
  have hsplit : (b :: bs).take n ++ (b :: bs).drop n = b :: bs := List.take_append_drop n (b :: bs)
  refine .stored rfl ?_ ?_ ⟨_, rfl, rfl⟩ ?_ ?_
  · exact List.ne_nil_of_length_pos (by rw [List.length_take, List.length_cons]; omega)
  · exact Nat.le_trans (List.length_take_le _ _) (portion_le chunk want)
  · show _ = (outlookOf chunk (.data ((b :: bs).drop n) :: events) patience).before
      ((b :: bs).take n)
    rw [outlookOf_data hc, outlookOf_data hc, Outlook.before_before, hsplit]
  · show (b :: bs).map Symbol.byte ++ _ =
      ((b :: bs).take n).map .byte ++ (((b :: bs).drop n).map .byte ++ _)
    rw [← List.append_assoc, ← List.map_append, hsplit]

theorem sees_readFrom (chunk : Option Nat) {want : Nat} (hw : 1 ≤ want) {events : List ReadEvent}
    (h : ∀ n, .claim n ∉ events) (patience : Patience) :
    Sees want chunk (outlookOf chunk events patience) (events.flatMap ReadEvent.symbols)
      (readFrom true chunk want events patience) := by
  induction events generalizing patience with
  | nil => exact .halted rfl rfl
  | cons e events ih =>
    replace ih := ih (claim_not_mem_of_cons h)
    match e with
    | .pending =>
      simp only [readFrom, outlookOf, Exchange.wait]
      cases patience.spend with
      | none => exact .halted rfl rfl
      | some patience => exact (ih patience).after _
    | .failure cause =>
      by_cases hk : cause.kind = .interrupted
      · simp only [readFrom, outlookOf, List.flatMap_cons, ReadEvent.symbols, hk, if_true,
          decide_true, Bool.and_self]
        exact (ih patience).after _
      · simp only [readFrom, outlookOf, hk]
        exact .halted rfl rfl
    | .finish => exact .halted rfl rfl
    | .claim n => exact absurd List.mem_cons_self (h n)
    | .data [] => exact ih patience
    | .data (b :: bs) =>
      by_cases hc : chunk = some 0
      · subst hc
        have hnone : portion (some 0) want = 0 := Nat.min_zero want
        simp only [readFrom, outlookOf, hnone]
        exact .halted rfl rfl
      · exact sees_data hc hw b bs events patience

end Transport

namespace FramedStream

open FramingM Transport

variable {s s₁ s₂ s' : FramedStream} {made more : List Call} {room : Nat} {started : Bool}

/-- What the reader of a stream has to expect. -/
def outlook (s : FramedStream) : Outlook := outlookOf s.transport.chunk s.transport.reads s.patience

/-- By these calls, of which the last was not in vain, the stream has pulled these bytes off the front of
those to come, and stands behind them. -/
structure Pulls (s s' : FramedStream) (made : List Call) (bs : List UInt8) : Prop where
  listens : Listens s s' made
  brought : made.flatMap Call.delivered = bs
  last : ∀ c, made.getLast? = some c → c.delivered ≠ []
  outlook : s.outlook = s'.outlook.before bs
  feed : s.transport.feed = bs.map .byte ++ s'.transport.feed
  position : s'.position = s.position.after bs.length

theorem Pulls.refl (s : FramedStream) : Pulls s s [] [] :=
  ⟨.refl s, rfl, nofun, rfl, rfl, s.position.after_zero.symm⟩

theorem Pulls.trans {bs cs : List UInt8} (h : Pulls s s₁ made bs) (h' : Pulls s₁ s₂ more cs) :
    Pulls s s₂ (made ++ more) (bs ++ cs) where
  listens := h.listens.trans h'.listens
  brought := by rw [List.flatMap_append, h.brought, h'.brought]
  last c hc := by
    rw [List.getLast?_append] at hc
    cases hm : more.getLast? with
    | none =>
      rw [hm] at hc
      exact h.last c hc
    | some d =>
      rw [hm] at hc
      cases hc
      exact h'.last _ hm
  outlook := by rw [h.outlook, h'.outlook, Outlook.before_before]
  feed := by rw [h.feed, h'.feed, List.map_append, List.append_assoc]
  position := by rw [h'.position, h.position, Position.after_after, List.length_append]

theorem Pulls.honest {bs : List UInt8} (h : Pulls s s' made bs) (hs : s.transport.Honest) :
    s'.transport.Honest := (h.listens.honest hs).1

/-- What is pulled inside a frame is not owed any more. -/
theorem Pulls.inFrame {bs : List UInt8} {owed n : Nat} (h : Pulls s s' made bs)
    (hp : s.position = .inFrame owed) (hn : bs.length = n) : s'.position = .inFrame (owed - n) := by
  rw [h.position, hp, hn]
  rfl

/-- How one read for `want` bytes comes out: it stores the first of the bytes to come, or there are none
and it meets what halts them. -/
inductive Looks (want : Nat) (s : FramedStream) : EStateM.Result Stop FramedStream Delivery → Prop
  | stored {bs : List UInt8} {s' : FramedStream} {made : List Call} (ne : bs ≠ [])
    (le : bs.length ≤ want) (listens : Listens s s' made) (position : s'.position = s.position)
    (brought : made.flatMap Call.delivered = bs)
    (last : ∀ c, made.getLast? = some c → c.delivered ≠ [])
    (outlook : s.outlook = s'.outlook.before bs)
    (feed : s.transport.feed = bs.map .byte ++ s'.transport.feed) : Looks want s (.ok (.stored bs) s')
  | ended {s' : FramedStream} {made : List Call}
    (outlook : s.outlook = ⟨[], .ended, s'.transport.reads⟩) (listens : Listens s s' made)
    (position : s'.position = s.position) (nothing : made.flatMap Call.delivered = []) :
    Looks want s (.ok (.stored []) s')
  | failed {cause : Cause} {s' : FramedStream} {made : List Call}
    (outlook : s.outlook = ⟨[], .failed cause, s'.transport.reads⟩) (listens : Listens s s' made)
    (position : s'.position = .poisoned) (nothing : made.flatMap Call.delivered = []) :
    Looks want s (.error (.failed (.transport cause)) s')
  | dropped {s' : FramedStream} {made : List Call}
    (outlook : s.outlook = ⟨[], .dropped, s'.transport.reads⟩) (listens : Listens s s' made)
    (position : s'.position = s.position) (nothing : made.flatMap Call.delivered = []) :
    Looks want s (.error .dropped s')

theorem looks_readOnce (hs : s.transport.Honest) {want : Nat} (hw : 1 ≤ want) :
    Looks want s (readOnce want s) := by
  have hx := readOnce_eq s hw
  have hsees : Sees want s.transport.chunk s.outlook s.transport.feed (s.nextRead want) :=
    sees_readFrom s.transport.chunk hw hs s.patience
  have hdelivered := (s.replies_nextRead want).delivered
  rw [hx]
  cases hsees with
  | @stored bs answer ne le last outlook rest =>
    rw [answer] at hdelivered
    simp only [answer]
    refine .stored ne le (listens_nextRead want rfl rfl rfl rfl (by rw [answer]; rfl)) rfl hdelivered
      (fun c hc => ?_) outlook rest
    obtain ⟨call, hcall, hstored⟩ := last
    cases hcall.symm.trans hc
    rw [hstored]
    exact ne
  | @halted halt outlook answer =>
    rw [answer] at hdelivered
    simp only [answer]
    cases halt with
    | ended =>
      exact .ended outlook (listens_nextRead want rfl rfl rfl rfl (by rw [answer]; rfl)) rfl hdelivered
    | failed cause =>
      let s₁ : FramedStream := { s.past (s.nextRead want) with
        events := s.events.push (.transportFailed cause) }
      have hlistens : Listens s s₁ (s.nextRead want).calls :=
        listens_nextRead want rfl rfl rfl rfl (by rw [answer]; exact (Stats.recordRead_zero _).symm)
      refine .failed ?_ (hlistens.poisonedBy _) (s₁.position_poisonedBy _) hdelivered
      rw [transport_poisonedBy]
      exact outlook
    | dropped =>
      exact .dropped outlook (listens_nextRead want rfl rfl rfl rfl
        (by rw [answer]; exact (Stats.recordRead_zero _).symm)) rfl hdelivered

/-! ### Blocks -/

/-- A read that met the end of the stream, between frames or inside one. -/
theorem readBlock_of_end (hu : s.position ≠ .poisoned) (hw : 1 ≤ s.position.cap room)
    (hx : readOnce (s.position.cap room) s = .ok (.stored []) s₁) (hp : s₁.position = s.position) :
    readBlock room s = match s.position with
      | .inFrame remaining => .error (.failed (.frame (.truncatedFrame remaining)))
          (s₁.poisonedBy (.frame (.truncatedFrame remaining)))
      | _ => .error (.failed .endOfStream) s₁ := by
  rw [readBlock_of_cap hu hw, bind_of_ok hx]
  cases hq : s.position with
  | idle =>
    have hend : (ended 0 : FramingM PUnit) s₁ = .error (.failed .endOfStream) s₁ := by
      simp only [FramingM.ended, hp, hq, Position.cutShort?]
      rfl
    exact bind_of_error hend
  | inFrame remaining =>
    have hend : (ended 0 : FramingM PUnit) s₁ = .error (.failed (.frame (.truncatedFrame remaining)))
        (s₁.poisonedBy (.frame (.truncatedFrame remaining))) := by
      simp only [FramingM.ended, hp, hq, Position.cutShort?, poison]
      rfl
    exact bind_of_error hend
  | poisoned => exact absurd hq hu

theorem readBlock_of_stored {bs : List UInt8} (hu : s.position ≠ .poisoned) (hne : bs ≠ [])
    (hle : bs.length ≤ s.position.cap room)
    (hx : readOnce (s.position.cap room) s = .ok (.stored bs) s₁) (hp : s₁.position = s.position) :
    readBlock room s = .ok (.stored bs) { s₁ with position := s.position.after bs.length } := by
  have hpos : 0 < bs.length := List.length_pos_iff.2 hne
  have hcount : (Delivery.stored bs).count ≠ 0 := Nat.ne_of_gt hpos
  have hconsume : consume bs.length s₁ =
      .ok () { s₁ with position := s.position.after bs.length } := by
    simp only [consume, hp, Position.consume_eq_after hu hle]
  rw [readBlock_of_cap hu (by omega), bind_of_ok hx]
  simp only [if_neg hcount]
  exact bind_of_ok hconsume

/-- The end of the stream settles a block. -/
theorem nextBlock_of_end (started : Bool) (hu : s.position ≠ .poisoned)
    (hw : 1 ≤ s.position.cap room)
    (hx : readOnce (s.position.cap room) s = .ok (.stored []) s₁) (hp : s₁.position = s.position) :
    ∃ stop s', nextBlock started room s = .error stop s' ∧ (s' = s₁ ∨ ∃ f, s' = s₁.poisonedBy f) ∧
      Halt.ended.settle room started s.position = (stop, s'.position) := by
  have hy := readBlock_of_end hu hw hx hp
  cases hq : s.position with
  | inFrame remaining =>
    rw [hq] at hy
    exact ⟨_, _, nextBlock_of_cut started hy, .inr ⟨_, rfl⟩,
      Prod.ext rfl (s₁.position_poisonedBy _).symm⟩
  | idle =>
    rw [hq] at hy
    cases started with
    | false => exact ⟨_, s₁, hy, .inl rfl, Prod.ext rfl (hp.trans hq).symm⟩
    | true =>
      exact ⟨_, _, endBreaks_of_end _ hy, .inr ⟨_, rfl⟩,
        Prod.ext rfl (s₁.position_poisonedBy _).symm⟩
  | poisoned => exact absurd hq hu

/-- A block is the first of the bytes to come, or there are none and it meets what halts them. -/
theorem nextBlock_looks (started : Bool) (hs : s.transport.Honest) (hu : s.position ≠ .poisoned)
    (hw : 1 ≤ s.position.cap room) :
    (∃ bs s' made, readBlock room s = .ok (.stored bs) s' ∧ bs ≠ [] ∧
        bs.length ≤ s.position.cap room ∧ Pulls s s' made bs) ∨
      ∃ stop s' made halt, nextBlock started room s = .error stop s' ∧ Listens s s' made ∧
        made.flatMap Call.delivered = [] ∧ s.outlook = ⟨[], halt, s'.transport.reads⟩ ∧
        halt.settle room started s.position = (stop, s'.position) := by
  have hlooks := looks_readOnce hs hw
  have hblock := readBlock_of_cap hu hw
  generalize hx : readOnce (s.position.cap room) s = r at hlooks
  cases hlooks with
  | @stored bs s₁ made ne le listens position brought last outlook feed =>
    let s₂ : FramedStream := { s₁ with position := s.position.after bs.length }
    have hmove : Listens s₁ s₂ [] := .of_eq rfl rfl rfl rfl rfl
    have hl := listens.trans hmove
    rw [List.append_nil] at hl
    exact .inl ⟨bs, s₂, made, readBlock_of_stored hu ne le hx position, ne, le, hl, brought, last,
      outlook, feed, rfl⟩
  | @ended s₁ made outlook listens position nothing =>
    obtain ⟨stop, s', hy, hs', hsettled⟩ := nextBlock_of_end started hu hw hx position
    refine .inr ⟨stop, s', made, .ended, hy, ?_⟩
    rcases hs' with rfl | ⟨f, rfl⟩
    · exact ⟨listens, nothing, outlook, hsettled⟩
    · refine ⟨listens.poisonedBy f, nothing, ?_, hsettled⟩
      rw [transport_poisonedBy]
      exact outlook
  | @failed cause s₁ made outlook listens position nothing =>
    have hy : readBlock room s = .error (.failed (.transport cause)) s₁ :=
      hblock.trans (bind_of_error hx)
    exact .inr ⟨_, s₁, made, .failed cause, nextBlock_of_error started hy (by rintro ⟨⟩), listens,
      nothing, outlook, Prod.ext rfl position.symm⟩
  | @dropped s₁ made outlook listens position nothing =>
    have hy : readBlock room s = .error .dropped s₁ := hblock.trans (bind_of_error hx)
    exact .inr ⟨_, s₁, made, .dropped, nextBlock_of_error started hy (by rintro ⟨⟩), listens, nothing,
      outlook, Prod.ext rfl position.symm⟩

/-- A block that was asked for brings in a byte at least. -/
theorem block_of_readBlock {d : Delivery} (hs : s.transport.Honest) (hr : 0 < room)
    (h : readBlock room s = .ok d s') :
    ∃ bs, d = .stored bs ∧ bs ≠ [] ∧ bs.length ≤ s.position.cap room := by
  rcases s.position.block_cases hr with hp | hp | ⟨hu, hw⟩
  · rw [readBlock_of_poisoned room hp] at h
    cases h
  · rw [readBlock_of_exhausted hr hp] at h
    cases h
  · rcases nextBlock_looks false hs hu hw with
      ⟨bs, s₁, made, hx, hne, hle, -⟩ | ⟨stop, s₁, made, halt, hx, -⟩
    · rw [hx] at h
      cases h
      exact ⟨bs, rfl, hne, hle⟩
    · cases h.symm.trans hx

/-! ### Buffers -/

/-- How the filling of a buffer ends at `s` with `room` bytes left: nothing is left, or the frame owes
nothing more, or nothing more is to come and the reader meets what halts it. -/
inductive Finish (room : Nat) (started : Bool) (s : FramedStream) : Option Stop → FramedStream → Prop
  | full (left : room = 0) : Finish room started s none s
  | crossed (left : 0 < room) (owes : s.position = .inFrame 0) :
    Finish room started s (some (.failed (.frame (.limitExceeded room 0))))
      (s.poisonedBy (.frame (.limitExceeded room 0)))
  | halted {stop : Stop} {s' : FramedStream} {made : List Call} {halt : Halt}
    (wants : 1 ≤ s.position.cap room) (listens : Listens s s' made)
    (nothing : made.flatMap Call.delivered = [])
    (outlook : s.outlook = ⟨[], halt, s'.transport.reads⟩)
    (settled : halt.settle room started s.position = (stop, s'.position)) :
    Finish room started s (some stop) s'

/-- A buffer of `room` bytes is filled from `s` on with these pieces, and that ends with this stop if
not with a full buffer. -/
structure Fills (room : Nat) (started : Bool) (s : FramedStream) (pieces : List (List UInt8))
    (stop : Option Stop) (s' : FramedStream) : Prop where
  le : pieces.flatten.length ≤ s.position.cap room
  ends : ∃ s₁ made, Pulls s s₁ made pieces.flatten ∧ Finish (room - pieces.flatten.length)
    (started || decide (0 < pieces.flatten.length)) s₁ stop s'

theorem fills_of_finish {stop : Option Stop} (h : Finish room started s stop s') :
    Fills room started s [] stop s' := by
  refine ⟨Nat.zero_le _, s, [], .refl s, ?_⟩
  simpa using h

/-- A piece in front of those that fill the rest of a buffer. -/
theorem Fills.cons {piece : List UInt8} {pieces : List (List UInt8)} {stop : Option Stop}
    (hne : piece ≠ []) (hle : piece.length ≤ s.position.cap room) (hp : Pulls s s₁ made piece)
    (h : Fills (room - piece.length) true s₁ pieces stop s') :
    Fills room started s (piece :: pieces) stop s' := by
  obtain ⟨s₂, more, hpulls, hfinish⟩ := h.ends
  have hrest := h.le
  rw [hp.position, Position.cap_after hle] at hrest
  have hpos : 0 < piece.length := List.length_pos_iff.2 hne
  have hlength : (piece :: pieces).flatten.length = piece.length + pieces.flatten.length := by
    rw [List.flatten_cons, List.length_append]
  refine ⟨by omega, s₂, made ++ more, ?_, ?_⟩
  · rw [List.flatten_cons]
    exact hp.trans hpulls
  · have hstarted : (started || decide (0 < (piece :: pieces).flatten.length)) = true := by
      rw [decide_eq_true (by omega), Bool.or_true]
    rw [hstarted, hlength, ← Nat.sub_sub]
    exact hfinish

/-- A buffer takes what comes, up to its size and to the end of the open frame. -/
theorem fills_readBlocks (fuel room : Nat) (started : Bool) (s : FramedStream)
    (hs : s.transport.Honest) (hu : s.position ≠ .poisoned) (h : room ≤ fuel) :
    ∃ pieces stop s', readBlocks fuel room started s = .ok (pieces.map .stored, stop) s' ∧
      Fills room started s pieces stop s' := by
  induction fuel generalizing room started s with
  | zero =>
    obtain rfl : room = 0 := by omega
    exact ⟨[], none, s, rfl, fills_of_finish (.full rfl)⟩
  | succ fuel ih =>
    rcases Nat.eq_zero_or_pos room with rfl | hr
    · exact ⟨[], none, s, rfl, fills_of_finish (.full rfl)⟩
    have hne : room ≠ 0 := Nat.ne_of_gt hr
    rcases s.position.block_cases hr with hp | hp | ⟨-, hw⟩
    · exact absurd hp hu
    · have hx := nextBlock_of_cut started (readBlock_of_exhausted hr hp)
      exact ⟨[], _, _, readBlocks_of_error hne hx, fills_of_finish (.crossed hr hp)⟩
    rcases nextBlock_looks started hs hu hw with
      ⟨piece, s₁, made, hx, hpiece, hle, hpulls⟩ | ⟨stop, s₁, made, halt, hx, hl, hnone, ho, hstop⟩
    · have hpos : 0 < piece.length := List.length_pos_iff.2 hpiece
      have hu₁ : s₁.position ≠ .poisoned := by
        rw [hpulls.position]
        exact Position.after_ne_poisoned _ hu
      obtain ⟨pieces, stop, s₂, hy, hfills⟩ :=
        ih (room - piece.length) true s₁ (hpulls.honest hs) hu₁ (by omega)
      have hroom : piece.length ≤ room := Nat.le_trans hle (s.position.cap_le room)
      exact ⟨piece :: pieces, stop, s₂, readBlocks_of_piece started hne hroom hx hy,
        .cons hpiece hle hpulls hfills⟩
    · exact ⟨[], some stop, s₁, readBlocks_of_error hne hx,
        fills_of_finish (.halted hw hl hnone ho hstop)⟩

/-! ### What comes of a buffer -/

section

variable {pieces : List (List UInt8)} {stop : Option Stop}

/-- As many of the bytes to come arrive as are asked for inside the frame. -/
theorem Fills.bytes (h : Fills room started s pieces stop s') :
    pieces.flatten = s.outlook.bytes.take (s.position.cap room) := by
  obtain ⟨s₁, made, hpulls, hfinish⟩ := h.ends
  have hle := h.le
  have hroom := s.position.cap_le room
  rw [hpulls.outlook]
  have hall : pieces.flatten.length = s.position.cap room ∨ s₁.outlook.bytes = [] := by
    cases hfinish with
    | full left => exact .inl (by omega)
    | crossed left owes =>
      rw [hpulls.position] at owes
      exact .inl (Position.eq_cap_of_after_exhausted owes hle)
    | halted _ _ _ outlook => exact .inr (by rw [outlook])
  show _ = (pieces.flatten ++ s₁.outlook.bytes).take _
  rcases hall with hall | hnone
  · rw [← hall, List.take_left']
    rfl
  · rw [hnone, List.append_nil, List.take_of_length_le hle]

/-- What the three ends of a filling say of the number of bytes that arrived. -/
theorem Fills.finish (h : Fills room started s pieces stop s') :
    s.outlook.halt.finish room started s.position pieces.flatten.length = (stop, s'.position) := by
  obtain ⟨s₁, made, hpulls, hfinish⟩ := h.ends
  have hle := h.le
  have hroom := s.position.cap_le room
  cases hfinish with
  | full left =>
    have hall : pieces.flatten.length = room := by omega
    rw [Halt.finish_full _ hall, hpulls.position, hall]
  | crossed left owes =>
    rw [hpulls.position] at owes
    rw [Halt.finish_crossed _ (by omega) (Position.eq_cap_of_after_exhausted owes hle),
      position_poisonedBy]
  | @halted f _ _ halt wants _ _ outlook settled =>
    rw [hpulls.position, Position.cap_after hle] at wants
    have hhalt : s.outlook.halt = halt := by
      rw [hpulls.outlook, outlook]
      rfl
    rw [Halt.finish_short _ (by omega), hhalt, ← hpulls.position, settled]
    rfl

/-- The calls of a filling; if all that could arrive did, the last of them brought in the last of it. -/
theorem Fills.calls (h : Fills room started s pieces stop s') :
    ∃ made, Listens s s' made ∧ made.flatMap Call.delivered = pieces.flatten ∧
      (pieces.flatten.length = s.position.cap room →
        ∀ c, made.getLast? = some c → c.delivered ≠ []) := by
  obtain ⟨s₁, made, hpulls, hfinish⟩ := h.ends
  have hle := h.le
  cases hfinish with
  | full => exact ⟨made, hpulls.listens, hpulls.brought, fun _ => hpulls.last⟩
  | crossed => exact ⟨made, hpulls.listens.poisonedBy _, hpulls.brought, fun _ => hpulls.last⟩
  | @halted _ _ more _ wants listens nothing =>
    rw [hpulls.position, Position.cap_after hle] at wants
    refine ⟨made ++ more, hpulls.listens.trans listens, ?_, fun hall => ?_⟩
    · rw [List.flatMap_append, hpulls.brought, nothing, List.append_nil]
    · omega

/-- What a filling leaves of the feed: what is behind the bytes it took, or behind what halted it. -/
theorem Fills.rest (h : Fills room started s pieces stop s') :
    s'.transport.feed =
      if pieces.flatten.length = s.position.cap room then s.transport.feed.drop pieces.flatten.length
      else s.outlook.beyond.flatMap ReadEvent.symbols := by
  obtain ⟨s₁, made, hpulls, hfinish⟩ := h.ends
  have hle := h.le
  have hroom := s.position.cap_le room
  have hbehind : s₁.transport.feed = s.transport.feed.drop pieces.flatten.length := by
    rw [hpulls.feed, List.drop_left']
    exact List.length_map _
  cases hfinish with
  | full left => rw [if_pos (by omega), hbehind]
  | crossed left owes =>
    rw [hpulls.position] at owes
    have hcap := Position.eq_cap_of_after_exhausted owes hle
    rw [if_pos hcap, transport_poisonedBy, hbehind]
  | halted wants _ _ outlook =>
    rw [hpulls.position, Position.cap_after hle] at wants
    rw [if_neg (by omega), hpulls.outlook, outlook]
    rfl

/-- Fillings of one buffer from one state differ in nothing but how their bytes are cut into pieces. -/
theorem Fills.unique {pieces' : List (List UInt8)} {stop' : Option Stop} (hs : s.transport.Honest)
    (h : Fills room started s pieces stop s₁) (h' : Fills room started s pieces' stop' s₂) :
    pieces.flatten = pieces'.flatten ∧ stop = stop' ∧ s₁.position = s₂.position ∧
      s₁.stats = s₂.stats ∧ s₁.transport.unread = s₂.transport.unread ∧
      s₁.transport.feed = s₂.transport.feed := by
  have hbytes : pieces.flatten = pieces'.flatten := h.bytes.trans h'.bytes.symm
  obtain ⟨made, hl, hbrought, -⟩ := h.calls
  obtain ⟨made', hl', hbrought', -⟩ := h'.calls
  have hmade : made.flatMap Call.delivered = made'.flatMap Call.delivered := by
    rw [hbrought, hbrought', hbytes]
  obtain ⟨hstop, hposition⟩ := Prod.mk.inj (h.finish.symm.trans (hbytes ▸ h'.finish))
  refine ⟨hbytes, hstop, hposition, ?_, ?_, ?_⟩
  · rw [hl.stats, hl'.stats, (hl.honest hs).2, (hl'.honest hs).2, hmade]
  · exact List.append_cancel_left (hl.unread.symm.trans (hmade ▸ hl'.unread))
  · rw [h.rest, h'.rest, hbytes]

end

/-- A read into a buffer that is not empty answers with a byte at least. -/
theorem count_of_read {block : List UInt8} {patience : Patience} {n : Nat} (hs : s.transport.Honest)
    (hne : block ≠ [])
    (h : (Request.perform ⟨.read block, patience⟩ s).1.result = .ok (.count n)) :
    0 < n ∧ n ≤ s.position.cap block.length := by
  let s₀ : FramedStream := { s with patience := s.flavour.patience patience }
  change (reportBlock block s₀).1.result = .ok (.count n) at h
  cases hx : readBlock block.length s₀ with
  | ok d s₁ =>
    have hs₀ : s₀.transport.Honest := hs
    obtain ⟨bs, rfl, hbs, hle⟩ := block_of_readBlock hs₀ (List.length_pos_iff.2 hne) hx
    simp only [reportBlock, hx] at h
    cases h
    exact ⟨List.length_pos_iff.2 hbs, hle⟩
  | error stop s₁ =>
    simp only [reportBlock, hx] at h
    cases h

/-- A caller that waits never gives up. -/
theorem halt_outlookOf_none (chunk : Option Nat) (events : List ReadEvent) :
    (outlookOf chunk events none).halt ≠ .dropped := by
  induction events with
  | nil => nofun
  | cons e events ih =>
    match e with
    | .pending => exact ih
    | .failure cause =>
      rw [outlookOf]
      split
      · exact ih
      · nofun
    | .finish | .claim n => nofun
    | .data [] => exact ih
    | .data (b :: bs) =>
      rw [outlookOf]
      split
      · nofun
      · exact ih

theorem perform_readExact {buffer : List UInt8} {pieces : List (List UInt8)} {stop : Option Stop}
    (hx : readBlocks buffer.length buffer.length false s = .ok (pieces.map .stored, stop) s') :
    (Operation.readExact buffer).perform s =
      (⟨stop.elim (.ok .done) .stopped,
        some (pieces.flatten ++ buffer.drop pieces.flatten.length)⟩, s') := by
  simp only [Operation.perform, reportExact, readExact_eq, hx, Delivery.overlay_stored]
  cases stop <;> rfl

/-- What comes of a request to fill a buffer, as the outlook has it. -/
theorem request_readExact (hs : s.Attended) (hu : s.position ≠ .poisoned) (buffer : List UInt8) :
    let arrived := s.outlook.bytes.take (s.position.cap buffer.length)
    ∃ made stop s', Request.perform ⟨.readExact buffer, none⟩ s =
        (⟨stop.elim (.ok .done) .stopped, some (arrived ++ buffer.drop arrived.length)⟩, s') ∧
      Listens s s' made ∧ made.flatMap Call.delivered = arrived ∧
      (arrived.length = s.position.cap buffer.length →
        ∀ c, made.getLast? = some c → c.delivered ≠ []) ∧
      s.outlook.halt.finish buffer.length false s.position arrived.length = (stop, s'.position) := by
  intro arrived
  obtain ⟨pieces, stop, s', hx, hfills⟩ :=
    fills_readBlocks buffer.length buffer.length false s hs.2 hu (Nat.le_refl _)
  have harrived : pieces.flatten = arrived := hfills.bytes
  obtain ⟨made, hl, hbrought, hlast⟩ := hfills.calls
  have hends := hfills.finish
  have hrun := perform_readExact hx
  rw [harrived] at hbrought hlast hends hrun
  rw [Request.perform_none hs.1 (attended_perform hs _).1]
  exact ⟨made, stop, s', hrun, hl, hbrought, hlast, hends⟩

/-- The outlook of a stream decides what becomes of a buffer that it is to fill. All that can arrive does,
in front of what the buffer held before: a full buffer, or as much as the frame owes, or what comes
before the transport halts. Which of these it is decides the answer and the position, and a buffer that
crosses the end of the frame asks the transport for nothing more. A caller that waits is not dropped, and
no read into a buffer with room answers with nothing, so the filling goes on with every block. -/
theorem buffer_filled_as_outlook_allows (hs : s.Attended) (hu : s.position ≠ .poisoned)
    (buffer : List UInt8) :
    let m := buffer.length
    let t := s.position.cap m
    let arrived := s.outlook.bytes.take t
    let k := arrived.length
    let r := (Request.perform ⟨.readExact buffer, none⟩ s).1
    let s' := (Request.perform ⟨.readExact buffer, none⟩ s).2
    (∃ made, s'.transport.calls.toList = s.transport.calls.toList ++ made ∧
      made.flatMap Call.delivered = arrived ∧
      s.transport.unread = arrived ++ s'.transport.unread ∧
      (k = t → ∀ c, made.getLast? = some c → c.delivered ≠ [])) ∧
    r.buffer = some (arrived ++ buffer.drop k) ∧
    (k = m → r.result = .ok .done ∧ (s.position = .idle → s'.position = .idle) ∧
      ∀ owed, s.position = .inFrame owed → s'.position = .inFrame (owed - m)) ∧
    (∀ owed, s.position = .inFrame owed → k = owed → owed < m →
      r.result = .stopped (.failed (.frame (.limitExceeded (m - owed) 0))) ∧
        s'.position = .poisoned) ∧
    (k < t → s.outlook.halt = .ended →
      (∀ owed, s.position = .inFrame owed →
        r.result = .stopped (.failed (.frame (.truncatedFrame (owed - k)))) ∧
          s'.position = .poisoned) ∧
      (s.position = .idle → k = 0 →
        r.result = .stopped (.failed .endOfStream) ∧ s'.position = .idle) ∧
      (s.position = .idle → 0 < k →
        r.result = .stopped (.failed (.frame (.truncatedFrame (m - k)))) ∧
          s'.position = .poisoned)) ∧
    (∀ cause, k < t → s.outlook.halt = .failed cause →
      r.result = .stopped (.failed (.transport cause)) ∧ s'.position = .poisoned) ∧
    s.outlook.halt ≠ .dropped ∧
    ∀ patience block n, block ≠ [] →
      (Request.perform ⟨.read block, patience⟩ s).1.result = .ok (.count n) →
        0 < n ∧ n ≤ s.position.cap block.length := by
  obtain ⟨made, stop, s', hrun, hl, hbrought, hlast, hends⟩ := request_readExact hs hu buffer
  have hunread := hl.unread
  rw [hbrought] at hunread
  intro m t arrived k
  rw [hrun]
  change s.outlook.halt.finish m false s.position k = (stop, s'.position) at hends
  -- short of what could arrive, what halts the transport decides
  have hcut (hlt : k < t) : (s.outlook.halt.settle (m - k) (decide (0 < k)) (s.position.after k)).map
      some id = (stop, s'.position) := (Halt.finish_short _ hlt).symm.trans hends
  refine ⟨⟨made, hl.calls, hbrought, hunread, hlast⟩, rfl, fun hall => ?_,
    fun owed hframe hall hlt => ?_, fun hlt hended => ⟨fun owed hframe => ?_, fun hidle hnone => ?_,
    fun hidle hsome => ?_⟩, fun cause hlt hfailed => ?_, ?_,
    fun patience block n hne hread => count_of_read hs.2 hne hread⟩
  · rw [Halt.finish_full _ hall] at hends
    obtain ⟨rfl, hp⟩ := Prod.mk.inj hends
    refine ⟨rfl, fun hidle => ?_, fun owed hframe => ?_⟩
    · rw [← hp, hidle]
      rfl
    · rw [← hp, hframe]
      rfl
  · have ht : k = s.position.cap m := by
      rw [hframe, Position.cap]
      omega
    rw [Halt.finish_crossed _ (by omega) ht, hall] at hends
    obtain ⟨rfl, hp⟩ := Prod.mk.inj hends
    exact ⟨rfl, hp.symm⟩
  · have hends := hcut hlt
    rw [hended, hframe] at hends
    obtain ⟨rfl, hp⟩ := Prod.mk.inj hends
    exact ⟨rfl, hp.symm⟩
  · have hends := hcut hlt
    rw [hended, hidle, hnone] at hends
    obtain ⟨rfl, hp⟩ := Prod.mk.inj hends
    exact ⟨rfl, hp.symm⟩
  · have hends := hcut hlt
    rw [hended, hidle, decide_eq_true hsome] at hends
    obtain ⟨rfl, hp⟩ := Prod.mk.inj hends
    exact ⟨rfl, hp.symm⟩
  · have hends := hcut hlt
    rw [hfailed] at hends
    obtain ⟨rfl, hp⟩ := Prod.mk.inj hends
    exact ⟨rfl, hp.symm⟩
  · show (outlookOf s.transport.chunk s.transport.reads s.patience).halt ≠ .dropped
    rw [hs.1]
    exact halt_outlookOf_none _ _

/-- Three of five bytes arrive around an interruption and a wait, and the stream ends between frames. -/
theorem buffer_filled_as_outlook_allows_cut : ∃ (t : Transport) (s : FramedStream),
    s = ofTransport .suspending .standard t ∧ t.chunk = some 2 ∧ s.Attended ∧ s.position ≠ .poisoned ∧
      s.outlook = ⟨[1, 2, 3], .ended, [.data [4, 5]]⟩ ∧
      (Request.perform ⟨.readExact [7, 7, 7, 8, 9], none⟩ s).1.result =
        .stopped (.failed (.frame (.truncatedFrame 2))) ∧
      (Request.perform ⟨.readExact [7, 7, 7, 8, 9], none⟩ s).1.buffer = some [1, 2, 3, 8, 9] ∧
      (Request.perform ⟨.readExact [7, 7, 7, 8, 9], none⟩ s).2.position = .poisoned := by
  let t : Transport := {
    reads := [.data [1], .failure IoKind.interrupted, .pending, .data [2, 3], .finish, .data [4, 5]]
    chunk := some 2 }
  let s : FramedStream := ofTransport .suspending .standard t
  have hs : s.Attended := ⟨rfl, by simp [s, t, ofTransport, Transport.Honest]⟩
  have hu : s.position ≠ .poisoned := by decide
  have ho : s.outlook = ⟨[1, 2, 3], .ended, [.data [4, 5]]⟩ := by decide
  obtain ⟨-, hbuffer, -, -, hended, -⟩ := buffer_filled_as_outlook_allows hs hu [7, 7, 7, 8, 9]
  rw [ho] at hbuffer hended
  obtain ⟨-, -, hcut⟩ := hended (by decide) rfl
  obtain ⟨hresult, hp⟩ := hcut rfl (by decide)
  exact ⟨t, s, rfl, rfl, hs, hu, ho, hresult, hbuffer, hp⟩

end FramedStream

end Http3Framing
