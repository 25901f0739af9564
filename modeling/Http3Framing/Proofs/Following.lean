import Http3Framing.Proofs.Checking
import Http3Framing.Proofs.Rounds
import Mathlib.Data.List.Infix

/-! When the checked steps follow the plain ones. A checked action follows an action of the stream if, on a
stream that is as it should be, it meets no fault, comes to the same, and leaves the stream as it should be;
all this as long as the calls made by then show a transport that keeps to the room it is offered and moves
fewer bytes than a word can count. Calls are never taken back, so what is asked of those made in the end
holds all along. -/

namespace Http3Framing

namespace Call

/-- A read has not said that it brought in more than there was room for. -/
def FitsRoom : Call → Prop
  | read want (.ready d) => d.count ≤ want
  | _ => True

instance : DecidablePred FitsRoom := fun c =>
  match c with
  | read want (.ready d) => inferInstanceAs (Decidable (d.count ≤ want))
  | read _ (.failed _) | read _ .pending | write .. | flush _ => isTrue trivial

/-- The bytes that reads have brought in, as the transport says. -/
def bytesIn (calls : List Call) : Nat := (calls.map claimed).sum

/-- The bytes that writes have taken. -/
def bytesOut (calls : List Call) : Nat := (calls.flatMap accepted).length

theorem bytesIn_append (cs ds : List Call) : bytesIn (cs ++ ds) = bytesIn cs + bytesIn ds := by
  simp [bytesIn]

theorem bytesOut_append (cs ds : List Call) : bytesOut (cs ++ ds) = bytesOut cs + bytesOut ds := by
  simp [bytesOut]

/-- The calls of a transport that keeps to the room it is offered and has moved fewer than `2 ^ 64` bytes
each way. -/
structure Moderate (calls : List Call) : Prop where
  fits : ∀ c ∈ calls, c.FitsRoom
  bytesIn : bytesIn calls < 2 ^ 64
  bytesOut : bytesOut calls < 2 ^ 64

theorem Moderate.of_prefix {cs ds : List Call} (h : cs <+: ds) (hd : Moderate ds) : Moderate cs := by
  obtain ⟨more, rfl⟩ := h
  have hin := hd.bytesIn
  have hout := hd.bytesOut
  rw [bytesIn_append] at hin
  rw [bytesOut_append] at hout
  exact ⟨fun c hc => hd.fits c (List.mem_append_left more hc), by omega, by omega⟩

end Call

namespace Transport

/-- An answered read is the last call of its exchange. -/
theorem mem_calls_of_done {retry : Bool} {chunk : Option Nat} {want : Nat} {events : List ReadEvent}
    {patience : Patience} {d : Delivery}
    (h : (readFrom retry chunk want events patience).answer = .done d) :
    Call.read want (.ready d) ∈ (readFrom retry chunk want events patience).calls := by
  induction events generalizing patience with
  | nil =>
    cases h
    exact List.mem_singleton_self _
  | cons e events ih =>
    match e with
    | .pending =>
      simp only [readFrom, Exchange.wait] at h ⊢
      cases hp : patience.spend with
      | none => simp [hp] at h
      | some p =>
        simp only [hp] at h
        exact List.mem_cons_of_mem _ (ih h)
    | .failure cause =>
      simp only [readFrom] at h ⊢
      split at h
      · next hk =>
        rw [if_pos hk]
        exact List.mem_cons_of_mem _ (ih h)
      · cases h
    | .finish =>
      cases h
      exact List.mem_singleton_self _
    | .claim n =>
      cases h
      exact List.mem_singleton_self _
    | .data [] => exact ih h
    | .data (b :: bs) =>
      cases h
      exact List.mem_singleton_self _

end Transport

namespace FramedStream

open FramingM

variable {n ahead counted : Nat} {s s' : FramedStream}

/-! ### Streams as they should be -/

/-- The calls behind the first `n`. -/
def callsBehind (n : Nat) (s : FramedStream) : List Call := s.transport.callsSince n

/-- A stream as it should be since its transport had received `n` calls. An open frame owes no more than its
header announced, `counted` bytes less if so many of them may not have arrived; and no counter is larger than
what it counts, where a header has a byte or more: `ahead` bytes have been read beyond one for each. -/
structure Sound (n ahead counted : Nat) (s : FramedStream) : Prop where
  since : n ≤ s.transport.calls.size
  frame : ∀ remaining, s.position = .inFrame remaining →
    ∃ header, s.lastHeader? = some header ∧ remaining + counted ≤ header.len ∧ header.len < 2 ^ 62
  bytesRead : s.stats.bytesRead.toNat ≤ Call.bytesIn (s.callsBehind n)
  framesRead : s.stats.framesRead.toNat + ahead ≤ s.stats.bytesRead.toNat
  bytesWritten : s.stats.bytesWritten.toNat ≤ Call.bytesOut (s.callsBehind n)
  framesWritten : s.stats.framesWritten.toNat ≤ s.stats.bytesWritten.toNat

theorem Sound.mono {ahead' counted' : Nat} (h : Sound n ahead counted s) (ha : ahead' ≤ ahead)
    (hc : counted' ≤ counted) : Sound n ahead' counted' s := by
  refine { h with frame := fun remaining hp => ?_, framesRead := ?_ }
  · obtain ⟨header, hlast, hle, hlt⟩ := h.frame remaining hp
    exact ⟨header, hlast, by omega, hlt⟩
  · have := h.framesRead
    omega

theorem Sound.weaken (h : Sound n ahead counted s) : Sound n 0 0 s :=
  h.mono (Nat.zero_le _) (Nat.zero_le _)

/-- The stream has made these calls, of which nothing is counted yet. -/
structure Spent (n : Nat) (s : FramedStream) (made : List Call) : Prop where
  fits : ∀ c ∈ made, c.FitsRoom
  bytesIn : s.stats.bytesRead.toNat + Call.bytesIn made ≤ Call.bytesIn (s.callsBehind n)
  bytesOut : s.stats.bytesWritten.toNat + Call.bytesOut made ≤ Call.bytesOut (s.callsBehind n)

theorem callsBehind_of_append {made : List Call} (hn : n ≤ s.transport.calls.size)
    (hc : s'.transport.calls.toList = s.transport.calls.toList ++ made) :
    s'.callsBehind n = s.callsBehind n ++ made := by
  unfold callsBehind Transport.callsSince
  rw [hc, List.drop_append_of_le_length (by simpa using hn)]

/-- More calls, and at most a poisoning. -/
theorem Sound.after {made : List Call} (h : Sound n ahead counted s)
    (hc : s'.transport.calls.toList = s.transport.calls.toList ++ made) (hstats : s'.stats = s.stats)
    (hp : s'.position = .poisoned ∨ s'.position = s.position ∧ s'.events = s.events) :
    Sound n ahead counted s' := by
  have hbehind := callsBehind_of_append h.since hc
  have hsize : s.transport.calls.size ≤ s'.transport.calls.size := by
    have := congrArg List.length hc
    simp at this
    omega
  have hin := h.bytesRead
  have hout := h.bytesWritten
  refine ⟨Nat.le_trans h.since hsize, fun remaining hr => ?_, ?_, ?_, ?_, ?_⟩
  · rcases hp with hp | ⟨hp, he⟩
    · rw [hp] at hr
      cases hr
    · unfold lastHeader?
      rw [he]
      exact h.frame remaining (hp ▸ hr)
  · rw [hstats, hbehind, Call.bytesIn_append]
    omega
  · rw [hstats]
    exact h.framesRead
  · rw [hstats, hbehind, Call.bytesOut_append]
    omega
  · rw [hstats]
    exact h.framesWritten

theorem Sound.spent {made : List Call} (h : Sound n ahead counted s)
    (hc : s'.transport.calls.toList = s.transport.calls.toList ++ made) (hstats : s'.stats = s.stats)
    (hm : Call.Moderate (s'.callsBehind n)) : Spent n s' made := by
  have hbehind := callsBehind_of_append h.since hc
  have hin := h.bytesRead
  have hout := h.bytesWritten
  refine ⟨fun c hc' => hm.fits c ?_, ?_, ?_⟩
  · rw [hbehind]
    exact List.mem_append_right _ hc'
  · rw [hstats, hbehind, Call.bytesIn_append]
    omega
  · rw [hstats, hbehind, Call.bytesOut_append]
    omega

theorem stats_poisonedBy (s : FramedStream) (f : Failure) : (s.poisonedBy f).stats = s.stats := by
  unfold FramedStream.poisonedBy
  split <;> rfl

theorem Sound.poisonedBy (h : Sound n ahead counted s) (f : Failure) (counted' : Nat) :
    Sound n ahead counted' (s.poisonedBy f) := by
  have hp := s.position_poisonedBy f
  have hstats := s.stats_poisonedBy f
  have hcalls : (s.poisonedBy f).transport.calls.toList = s.transport.calls.toList ++ [] := by
    rw [s.transport_poisonedBy, List.append_nil]
  refine { h.after hcalls hstats (.inl hp) with frame := fun remaining hr => ?_ }
  rw [hp] at hr
  cases hr

/-! ### Following -/

section

variable {α β : Type} {pre pre' : FramedStream → Prop} {post post' : α → FramedStream → Prop}
  {mid : β → FramedStream → Prop}

/-- A value is handed out on a stream as `post` says, and anything else ends on one as it should be. -/
def Ends (n : Nat) (post : α → FramedStream → Prop) : EStateM.Result Stop FramedStream α → Prop
  | .ok a s => post a s
  | .error _ s => Sound n 0 0 s

theorem Ends.mono {r : EStateM.Result Stop FramedStream α} (h : Ends n post r)
    (hpost : ∀ a s, post a s → post' a s) : Ends n post' r := by
  cases r with
  | ok a s => exact hpost a s h
  | error stop s => exact h

/-- The checked action `x` follows `y` from every stream with `pre`. -/
structure Follows (n : Nat) (pre : FramedStream → Prop) (x : CheckedM α) (y : FramingM α)
    (post : α → FramedStream → Prop) : Prop where
  grows : ∀ s, s.transport.calls.toList <+: (left (y s)).transport.calls.toList
  agrees : ∀ s, pre s → Call.Moderate ((left (y s)).callsBehind n) →
    x s = .ok (y s) ∧ Ends n post (y s)

theorem callsBehind_mono (h : s.transport.calls.toList <+: s'.transport.calls.toList) :
    s.callsBehind n <+: s'.callsBehind n := h.drop n

theorem Follows.mono {x : CheckedM α} {y : FramingM α} (h : Follows n pre x y post)
    (hpre : ∀ s, pre' s → pre s) (hpost : ∀ a s, post a s → post' a s) :
    Follows n pre' x y post' where
  grows := h.grows
  agrees s hs hm :=
    have ⟨hx, hy⟩ := h.agrees s (hpre s hs) hm
    ⟨hx, hy.mono hpost⟩

theorem Follows.on {x : CheckedM α} {y : FramingM α} (h : Follows n pre x y post)
    (hpre : ∀ s, pre' s → pre s) : Follows n pre' x y post := h.mono hpre fun _ _ hs => hs

/-- What is no fact about a stream holds on. -/
theorem Follows.keep {p : Prop} {x : CheckedM α} {y : FramingM α} (h : Follows n pre x y post) :
    Follows n (fun s => pre s ∧ p) x y fun a s => post a s ∧ p where
  grows := h.grows
  agrees s hs hm :=
    have ⟨hx, hy⟩ := h.agrees s hs.1 hm
    ⟨hx, hy.mono fun _ _ hpost => ⟨hpost, hs.2⟩⟩

/-- What is known of the plain action besides. -/
theorem Follows.and {x : CheckedM α} {y : FramingM α} {q : α → FramedStream → Prop}
    (h : Follows n pre x y post) (hq : ∀ s a s', pre s → y s = .ok a s' → q a s') :
    Follows n pre x y fun a s => post a s ∧ q a s where
  grows := h.grows
  agrees s hs hm := by
    obtain ⟨hx, hy⟩ := h.agrees s hs hm
    refine ⟨hx, ?_⟩
    cases hr : y s with
    | ok a s' =>
      rw [hr] at hy
      exact ⟨hy, hq s a s' hs hr⟩
    | error stop s' =>
      rw [hr] at hy
      exact hy

theorem Follows.bind {x : CheckedM β} {y : FramingM β} {f : β → CheckedM α} {g : β → FramingM α}
    (hx : Follows n pre x y mid) (hf : ∀ b, Follows n (mid b) (f b) (g b) post) :
    Follows n pre (x >>= f) (y >>= g) post where
  grows s := by
    have hfirst := hx.grows s
    cases hr : y s with
    | ok b s₁ =>
      rw [hr] at hfirst
      rw [bind_of_ok hr]
      exact hfirst.trans ((hf b).grows s₁)
    | error stop s₁ =>
      rw [hr] at hfirst
      rw [bind_of_error hr]
      exact hfirst
  agrees s hs hm := by
    have hfirst := hx.agrees s hs
    cases hr : y s with
    | ok b s₁ =>
      rw [bind_of_ok hr] at hm ⊢
      rw [hr] at hfirst
      -- what is moderate in the end was so when the first action was over
      obtain ⟨hxs, hmid⟩ := hfirst (hm.of_prefix (callsBehind_mono ((hf b).grows s₁)))
      rw [CheckedM.bind_of_ok hxs]
      exact (hf b).agrees s₁ hmid hm
    | error stop s₁ =>
      rw [bind_of_error hr] at hm ⊢
      rw [hr] at hfirst
      obtain ⟨hxs, hstop⟩ := hfirst hm
      exact ⟨CheckedM.bind_of_error hxs f, hstop⟩

theorem follows_pure {a : α} (h : ∀ s, pre s → post a s) : Follows n pre (pure a) (pure a) post where
  grows _ := List.prefix_rfl
  agrees s hs _ := ⟨rfl, h s hs⟩

/-- What `pre` rules out has not to be followed. -/
theorem Follows.of_false {x : CheckedM α} {y : FramingM α}
    (hy : ∀ s, s.transport.calls.toList <+: (left (y s)).transport.calls.toList) (h : ∀ s, ¬ pre s) :
    Follows n pre x y post where
  grows := hy
  agrees s hs := absurd hs (h s)

theorem Follows.ite {p : Prop} [Decidable p] {x x' : CheckedM α} {y y' : FramingM α}
    (h : p → Follows n pre x y post) (h' : ¬ p → Follows n pre x' y' post) :
    Follows n pre (if p then x else x') (if p then y else y') post := by
  by_cases hp : p
  · rw [if_pos hp, if_pos hp]
    exact h hp
  · rw [if_neg hp, if_neg hp]
    exact h' hp

/-- A way out that `pre` rules out has not to be taken. -/
theorem Follows.skip {p : Prop} [Decidable p] {x : CheckedM α} {y y' : FramingM α}
    (hp : ∀ s, pre s → ¬ p)
    (hy : ∀ s, s.transport.calls.toList <+: (left (y s)).transport.calls.toList)
    (h : Follows n pre x y' post) : Follows n pre x (if p then y else y') post := by
  split
  · next htrue => exact .of_false hy fun s hs => hp s hs htrue
  · exact h

/-- A step that is taken for granted goes well where `pre` holds. -/
theorem Follows.check {e : Except Fault β} {f : β → CheckedM α} {y : FramingM α} (b : β)
    (he : ∀ s, pre s → e = .ok b) (hf : Follows n pre (f b) y post) :
    Follows n pre (CheckedM.check e >>= f) y post where
  grows := hf.grows
  agrees s hs hm := by
    rw [he s hs]
    exact hf.agrees s hs hm

theorem follows_check {e : Except Fault α} {a : α} (he : ∀ s, pre s → e = .ok a)
    (h : ∀ s, pre s → post a s) : Follows n pre (CheckedM.check e) (pure a) post where
  grows _ := List.prefix_rfl
  agrees s hs _ := by
    rw [he s hs]
    exact ⟨rfl, h s hs⟩

theorem follows_get {f : FramedStream → CheckedM α} {g : FramedStream → FramingM α}
    (h : ∀ s₀, Follows n (fun s => pre s ∧ s = s₀) (f s₀) (g s₀) post) :
    Follows n pre (CheckedM.lift get >>= f) (get >>= g) post where
  grows s := (h s).grows s
  agrees s hs hm := (h s).agrees s ⟨hs, rfl⟩ hm

/-- Nothing is partial in what is followed. -/
theorem Follows.lift {x : CheckedM α} {y : FramingM α} (h : Follows n pre x y post) :
    Follows n pre (CheckedM.lift y) y post where
  grows := h.grows
  agrees s hs hm := ⟨rfl, (h.agrees s hs hm).2⟩

/-- An action that does not touch the transport, in which nothing is partial. -/
theorem follows_lift {y : FramingM α} (hidle : Idles y) (h : ∀ s, pre s → Ends n post (y s)) :
    Follows n pre (CheckedM.lift y) y post where
  grows s := (hidle s) ▸ List.prefix_rfl
  agrees s hs _ := ⟨rfl, h s hs⟩

theorem follows_ask (question : Position → Except Violation α) (hpre : ∀ s, pre s → Sound n 0 0 s) :
    Follows n pre (CheckedM.lift (ask question)) (ask question) fun a s =>
      pre s ∧ question s.position = .ok a := by
  refine follows_lift (fun s => ?_) fun s hs => ?_
  · unfold ask
    cases question s.position <;> rfl
  · unfold ask
    cases hq : question s.position with
    | ok a => exact ⟨hs, hq⟩
    | error v => exact hpre s hs

theorem follows_usable : Follows n (Sound n ahead counted) (CheckedM.lift (ask Position.usable))
    (ask Position.usable) fun _ s => Sound n ahead counted s :=
  (follows_ask Position.usable fun _ hs => hs.weaken).mono (fun _ hs => hs) fun _ _ hs => hs.1

theorem follows_poison (f : Failure) (hpre : ∀ s, pre s → Sound n 0 0 s) :
    Follows n pre (CheckedM.lift (poison f : FramingM α)) (poison f) post :=
  follows_lift (fun s => s.transport_poisonedBy f) fun s hs => (hpre s hs).poisonedBy f 0

theorem follows_fail (f : Failure) (hpre : ∀ s, pre s → Sound n 0 0 s) :
    Follows n pre (CheckedM.lift (fail f : FramingM α)) (fail f) post :=
  follows_lift (fun _ => rfl) hpre

/-- Whatever it is asked, a transport keeps its earlier calls; `told` says which calls are behind them once
it has an answer. -/
def Makes (talk : Patience → Transport → Transport.Outcome α) (told : α → List Call → Prop) : Prop :=
  ∀ patience t, ∃ made, (talk patience t).transport.calls.toList = t.calls.toList ++ made ∧
    ∀ a, (talk patience t).answer = .done a → told a made

/-- The answer decides what becomes of an exchange. -/
theorem exchange_eq (talk : Patience → Transport → Transport.Outcome α) (s : FramedStream) :
    exchange talk s =
      match (talk s.patience s.transport).answer with
      | .done a => .ok a { s with
          transport := (talk s.patience s.transport).transport
          patience := (talk s.patience s.transport).patience }
      | .failed cause => .error (.failed (.transport cause)) (FramedStream.poisonedBy { s with
          transport := (talk s.patience s.transport).transport
          patience := (talk s.patience s.transport).patience
          events := s.events.push (.transportFailed cause) } (.transport cause))
      | .dropped => .error .dropped { s with
          transport := (talk s.patience s.transport).transport
          patience := (talk s.patience s.transport).patience } := by
  unfold exchange poison
  generalize talk s.patience s.transport = o
  obtain ⟨answer, patience, transport⟩ := o
  cases answer <;> rfl

theorem transport_exchange (talk : Patience → Transport → Transport.Outcome α) (s : FramedStream) :
    (left (exchange talk s)).transport = (talk s.patience s.transport).transport := by
  rw [exchange_eq]
  cases (talk s.patience s.transport).answer with
  | failed cause => exact transport_poisonedBy _ _
  | _ => rfl

/-- The calls of an exchange that was answered are yet to be counted. -/
theorem follows_exchange {talk : Patience → Transport → Transport.Outcome α}
    {told : α → List Call → Prop} (h : Makes talk told) :
    Follows n (Sound n ahead counted) (CheckedM.lift (exchange talk)) (exchange talk) fun a s =>
      Sound n ahead counted s ∧ ∃ made, told a made ∧ Spent n s made where
  grows s := by
    obtain ⟨made, hcalls, -⟩ := h s.patience s.transport
    rw [transport_exchange, hcalls]
    exact List.prefix_append _ _
  agrees s hs hm := by
    refine ⟨rfl, ?_⟩
    obtain ⟨made, hcalls, htold⟩ := h s.patience s.transport
    rw [exchange_eq] at hm ⊢
    cases ha : (talk s.patience s.transport).answer with
    | done a =>
      rw [ha] at hm
      exact ⟨hs.after hcalls rfl (.inr ⟨rfl, rfl⟩), made, htold a ha, hs.spent hcalls rfl hm⟩
    | dropped =>
      change Sound n 0 0 _
      exact Sound.weaken (hs.after hcalls rfl (.inr ⟨rfl, rfl⟩))
    | failed cause =>
      let s₁ : FramedStream := { s with
        transport := (talk s.patience s.transport).transport
        patience := (talk s.patience s.transport).patience
        events := s.events.push (.transportFailed cause) }
      have hcalls₁ : (s₁.poisonedBy (.transport cause)).transport.calls.toList =
          s.transport.calls.toList ++ made := by
        rw [transport_poisonedBy]
        exact hcalls
      exact Sound.weaken (hs.after hcalls₁ (stats_poisonedBy s₁ _) (.inl (position_poisonedBy s₁ _)))

/-- A counter that does not wrap. -/
theorem follows_count {counter : Stats → UInt64} {record : Stats → Stats} {k : Nat}
    {after : FramedStream → Prop} (h : ∀ s, pre s → Call.Moderate (s.callsBehind n) →
      (counter s.stats).toNat + k < 2 ^ 64 ∧ after { s with stats := record s.stats }) :
    Follows n pre (Checked.count counter record k) (FramingM.count record) fun _ s => after s where
  grows _ := List.prefix_rfl
  agrees s hs hm := by
    obtain ⟨hfits, hafter⟩ := h s hs hm
    refine ⟨?_, hafter⟩
    unfold Checked.count
    rw [Checked.add_of_lt hfits]
    rfl

theorem Follows.endBreaks {x : CheckedM α} {y : FramingM α} (h : Follows n pre x y post) (v : Violation) :
    Follows n pre (CheckedM.through (FramingM.endBreaks v) x) (FramingM.endBreaks v y) post where
  grows s := by
    rw [left_endBreaks]
    exact h.grows s
  agrees s hs hm := by
    have hsame : (left (FramingM.endBreaks v y s)).callsBehind n = (left (y s)).callsBehind n := by
      unfold callsBehind
      rw [left_endBreaks]
    rw [hsame] at hm
    obtain ⟨hx, hy⟩ := h.agrees s hs hm
    refine ⟨congrArg (Except.map _) hx, ?_⟩
    unfold FramingM.endBreaks
    split
    · next hr =>
      rw [hr] at hy
      exact Sound.poisonedBy hy _ _
    · exact hy

theorem Follows.attempt {x : CheckedM α} {y : FramingM α} (h : Follows n pre x y post) :
    Follows n pre (CheckedM.through FramingM.attempt x) (FramingM.attempt y) fun r s =>
      match r with
      | .ok a => post a s
      | .error _ => Sound n 0 0 s where
  grows s := by
    have := h.grows s
    unfold FramingM.attempt
    cases hr : y s <;> (rw [hr] at this; exact this)
  agrees s hs hm := by
    have hsame : (left (FramingM.attempt y s)).callsBehind n = (left (y s)).callsBehind n := by
      unfold FramingM.attempt
      cases y s <;> rfl
    rw [hsame] at hm
    obtain ⟨hx, hy⟩ := h.agrees s hs hm
    refine ⟨congrArg (Except.map _) hx, ?_⟩
    unfold FramingM.attempt
    cases hr : y s <;> (rw [hr] at hy; exact hy)

end

end FramedStream

end Http3Framing
