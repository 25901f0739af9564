import Http3Framing.Transport.Lemmas

/-! What the reads of a transport meet, whatever the events of its script look like. The feed of
a transport is what reads of single bytes would meet: the bytes one by one, the ends of the stream
and the failures, without interruptions and without answers that it is not ready. A transport is
honest when it stores every byte that it claims. Each read of an honest transport takes a piece
off the front of its feed. -/

namespace Http3Framing

namespace Call

/-- A read that asks for a byte or more, for at most `n`, and brings in no more than it asked
for. Calls of the other sides need no allowance. -/
def KeepsTo (n : Nat) : Call → Prop
  | read want answer => 1 ≤ want ∧ want ≤ n ∧ (read want answer).delivered.length ≤ want
  | _ => True

def isRead : Call → Bool
  | read .. => true
  | _ => false

theorem delivered_of_not_isRead {c : Call} (h : c.isRead = false) : c.delivered = [] := by
  cases c with
  | read => cases h
  | write => rfl
  | flush => rfl

theorem keepsTo_of_not_isRead {c : Call} (n : Nat) (h : c.isRead = false) : c.KeepsTo n := by
  cases c with
  | read => cases h
  | write => trivial
  | flush => trivial

/-- Calls that share an allowance of `n` bytes, each brought-in byte using up one. -/
def Within : Nat → List Call → Prop
  | _, [] => True
  | n, c :: calls => c.KeepsTo n ∧ Within (n - c.delivered.length) calls

theorem within_append {n : Nat} {cs ds : List Call} :
    Within n (cs ++ ds) ↔ Within n cs ∧ Within (n - (cs.flatMap delivered).length) ds := by
  induction cs generalizing n with
  | nil => simp [Within]
  | cons c cs ih => simp [Within, ih, and_assoc, Nat.sub_sub]

theorem within_of_not_isRead {cs : List Call} (n : Nat) (h : ∀ c ∈ cs, c.isRead = false) :
    Within n cs := by
  induction cs with
  | nil => trivial
  | cons c cs ih =>
    have hc : c.isRead = false := h c List.mem_cons_self
    refine ⟨keepsTo_of_not_isRead n hc, ?_⟩
    rw [delivered_of_not_isRead hc]
    exact ih fun d hd => h d (List.mem_cons_of_mem c hd)

theorem flatMap_delivered_of_not_isRead {cs : List Call} (h : ∀ c ∈ cs, c.isRead = false) :
    cs.flatMap delivered = [] :=
  List.flatMap_eq_nil_iff.2 fun c hc => delivered_of_not_isRead (h c hc)

/-- An allowance is never overdrawn. -/
theorem Within.length_le {n : Nat} {cs : List Call} (h : Within n cs) :
    (cs.flatMap delivered).length ≤ n := by
  induction cs generalizing n with
  | nil => exact Nat.zero_le n
  | cons c cs ih =>
    obtain ⟨hc, hcs⟩ := h
    have hrest := ih hcs
    have hfirst : c.delivered.length ≤ n := by
      cases c with
      | read => exact Nat.le_trans hc.2.2 hc.2.1
      | write => exact Nat.zero_le n
      | flush => exact Nat.zero_le n
    rw [List.flatMap_cons, List.length_append]
    omega

/-- What one of the reads may ask for. -/
theorem Within.want_le {n want : Nat} {answer : Poll Delivery} {earlier later : List Call}
    (h : Within n (earlier ++ .read want answer :: later)) :
    1 ≤ want ∧ want + (earlier.flatMap delivered).length ≤ n := by
  obtain ⟨_, ⟨hpos, hle, _⟩, _⟩ := within_append.1 h
  omega

end Call

namespace Transport

/-- What a read of one byte can meet. -/
inductive Symbol
  | byte (b : UInt8)
  | finish
  | failure (cause : Cause)
  deriving DecidableEq

def ReadEvent.symbols : ReadEvent → List Symbol
  | data bytes => bytes.map .byte
  | finish => [.finish]
  | failure cause => if cause.kind = .interrupted then [] else [.failure cause]
  | claim _ | pending => []

/-- The symbols to come, in order. -/
def feed (t : Transport) : List Symbol := t.reads.flatMap ReadEvent.symbols

/-- No event claims bytes that it does not store. -/
def Honest (t : Transport) : Prop := ∀ n, .claim n ∉ t.reads

/-- A read for `want` bytes of this feed, its answer and the feed after it. -/
inductive Meets (want : Nat) : List Symbol → Answer Delivery → List Symbol → Prop
  | exhausted : Meets want [] (.done (.stored [])) []
  | finish (feed : List Symbol) : Meets want (.finish :: feed) (.done (.stored [])) feed
  | failure (cause : Cause) (feed : List Symbol) :
    Meets want (.failure cause :: feed) (.failed cause) feed
  | bytes (bs : List UInt8) (feed : List Symbol) (ne : bs ≠ []) (le : bs.length ≤ want) :
    Meets want (bs.map .byte ++ feed) (.done (.stored bs)) feed

@[simp] theorem Exchange.wait_none {ε α : Type} (call : Call) (rest : List ε)
    (go : Patience → Exchange ε α) : Exchange.wait call rest none go = (go none).after call := rfl

theorem portion_le (chunk : Option Nat) (want : Nat) : portion chunk want ≤ want := by
  cases chunk with
  | none => exact Nat.le_refl want
  | some cap => exact Nat.min_le_left want cap

theorem portion_pos {chunk : Option Nat} {want : Nat} (hc : chunk ≠ some 0) (hw : 0 < want) :
    0 < portion chunk want := by
  cases chunk with
  | none => exact hw
  | some cap =>
    have hcap : cap ≠ 0 := fun h => hc (congrArg some h)
    exact Nat.lt_min.2 ⟨hw, Nat.pos_of_ne_zero hcap⟩

section Reading

variable {chunk : Option Nat} {want : Nat} {events : List ReadEvent}

/-- A caller that waits is answered: with stored bytes, no more than it asked for, or with a
failure of the transport. -/
theorem answer_readFrom (chunk : Option Nat) (want : Nat) (h : ∀ n, .claim n ∉ events) :
    (∃ bs, (readFrom true chunk want events none).answer = .done (.stored bs) ∧
        bs.length ≤ want) ∨
      ∃ cause, (readFrom true chunk want events none).answer = .failed cause := by
  induction events with
  | nil => exact .inl ⟨[], rfl, Nat.zero_le want⟩
  | cons e events ih =>
    have ih := ih fun n hn => h n (List.mem_cons_of_mem e hn)
    match e with
    | .pending => exact ih
    | .failure cause =>
      simp only [readFrom]
      split
      · exact ih
      · exact .inr ⟨cause, rfl⟩
    | .finish => exact .inl ⟨[], rfl, Nat.zero_le want⟩
    | .claim n => exact absurd List.mem_cons_self (h n)
    | .data [] => exact ih
    | .data (b :: bs) =>
      refine .inl ⟨_, rfl, ?_⟩
      exact Nat.le_trans (List.length_take_le _ _) (portion_le chunk want)

theorem patience_readFrom (chunk : Option Nat) (want : Nat) (events : List ReadEvent) :
    (readFrom true chunk want events none).patience = none := by
  induction events with
  | nil => rfl
  | cons e events ih =>
    match e with
    | .pending => exact ih
    | .failure cause =>
      simp only [readFrom]
      split
      · exact ih
      · rfl
    | .finish => rfl
    | .claim n => rfl
    | .data [] => exact ih
    | .data (b :: bs) => rfl

theorem patience_read (want : Nat) (t : Transport) : (t.read true want none).patience = none := by
  unfold read
  split
  · rfl
  · exact patience_readFrom _ _ _

/-- The events left were there before, apart from a shortened piece of data. -/
theorem claim_notMem_readFrom (chunk : Option Nat) (want : Nat) (h : ∀ n, .claim n ∉ events)
    (n : Nat) : .claim n ∉ (readFrom true chunk want events none).rest := by
  induction events with
  | nil => exact List.not_mem_nil
  | cons e events ih =>
    have hrest : .claim n ∉ events := fun hn => h n (List.mem_cons_of_mem e hn)
    have ih := ih fun n hn => h n (List.mem_cons_of_mem e hn)
    match e with
    | .pending => exact ih
    | .failure cause =>
      simp only [readFrom]
      split
      · exact ih
      · exact hrest
    | .finish => exact hrest
    | .claim n => exact hrest
    | .data [] => exact ih
    | .data (b :: bs) => simpa [readFrom] using hrest

/-- All calls of a read ask for what the read asks for, and only the last one brings in bytes. -/
theorem within_readFrom {n : Nat} (chunk : Option Nat) (hw : 1 ≤ want) (hn : want ≤ n)
    (h : ∀ n, .claim n ∉ events) :
    Call.Within n (readFrom true chunk want events none).calls := by
  induction events with
  | nil => exact ⟨⟨hw, hn, Nat.zero_le want⟩, trivial⟩
  | cons e events ih =>
    have ih := ih fun n hn => h n (List.mem_cons_of_mem e hn)
    match e with
    | .pending => exact ⟨⟨hw, hn, Nat.zero_le want⟩, ih⟩
    | .failure cause =>
      simp only [readFrom]
      split
      · exact ⟨⟨hw, hn, Nat.zero_le want⟩, ih⟩
      · exact ⟨⟨hw, hn, Nat.zero_le want⟩, trivial⟩
    | .finish => exact ⟨⟨hw, hn, Nat.zero_le want⟩, trivial⟩
    | .claim n => exact absurd List.mem_cons_self (h n)
    | .data [] => exact ih
    | .data (b :: bs) =>
      refine ⟨⟨hw, hn, ?_⟩, trivial⟩
      exact Nat.le_trans (List.length_take_le _ _) (portion_le chunk want)

/-- A read that fails has brought in nothing. -/
theorem delivered_of_failed {cause : Cause}
    (h : (readFrom true chunk want events none).answer = .failed cause) :
    (readFrom true chunk want events none).calls.flatMap Call.delivered = [] := by
  induction events with
  | nil => cases h
  | cons e events ih =>
    match e with
    | .pending => exact ih h
    | .failure cause =>
      simp only [readFrom] at h ⊢
      split at h
      · next hk =>
        rw [if_pos hk]
        exact ih h
      · next hk =>
        rw [if_neg hk]
        rfl
    | .finish => cases h
    | .claim n => cases h
    | .data [] => exact ih h
    | .data (b :: bs) => cases h

/-- A read takes a piece off the front of the feed. -/
theorem meets_readFrom (hc : chunk ≠ some 0) (hw : 0 < want) (h : ∀ n, .claim n ∉ events) :
    Meets want (events.flatMap ReadEvent.symbols) (readFrom true chunk want events none).answer
      ((readFrom true chunk want events none).rest.flatMap ReadEvent.symbols) := by
  induction events with
  | nil => exact .exhausted
  | cons e events ih =>
    have ih := ih fun n hn => h n (List.mem_cons_of_mem e hn)
    match e with
    | .pending => exact ih
    | .failure cause =>
      by_cases hk : cause.kind = .interrupted
      · simpa [readFrom, hk, ReadEvent.symbols, Exchange.after] using ih
      · simpa [readFrom, hk, ReadEvent.symbols] using Meets.failure cause _
    | .finish => exact .finish _
    | .claim n => exact absurd List.mem_cons_self (h n)
    | .data [] => exact ih
    | .data (b :: bs) =>
      have hpos := portion_pos hc hw
      have hsplit : (b :: bs).map Symbol.byte =
          ((b :: bs).take (portion chunk want)).map .byte ++
            ((b :: bs).drop (portion chunk want)).map .byte := by
        rw [← List.map_append, List.take_append_drop]
      simp only [readFrom, List.flatMap_cons, ReadEvent.symbols]
      rw [hsplit, List.append_assoc]
      refine .bytes _ _ ?_ (Nat.le_trans (List.length_take_le _ _) (portion_le chunk want))
      intro hnil
      have := congrArg List.length hnil
      simp only [List.length_take, List.length_cons, List.length_nil] at this
      omega

end Reading

end Transport

end Http3Framing
