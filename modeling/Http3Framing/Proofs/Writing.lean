import Http3Framing.Proofs.Drawing

/-! The writing operations pull nothing. They exchange calls with another side of the transport
than the one that is read, so the position stays as it is unless the exchange poisons it. -/

namespace Http3Framing

open Transport

namespace FramedStream

open FramingM

/-- One action after another that pulls nothing. -/
theorem rests_bind {α β : Type} {x : FramingM α} {f : α → FramingM β} (hx : Rests x)
    (hf : ∀ a, Rests (f a)) : Rests (x >>= f) := by
  refine hx.bind (fun _ _ _ h => h) fun a bs _ hb => ?_
  obtain rfl : bs = [] := hb
  exact hf a

theorem rests_exchange {α : Type} {talk : Patience → Transport → Outcome α}
    (h : ∀ t : Transport, t.Honest → ∃ made, Served t (talk none t) made ∧
      ∀ c ∈ made, c.isRead = false) (s : FramedStream) (hs : s.Attended)
    (hu : s.position ≠ .poisoned) : Leaves s (fun _ pulled _ => pulled = []) (exchange talk s) := by
  obtain ⟨made, hserved, hm⟩ := h s.transport hs.2
  have hnone := Call.flatMap_delivered_of_not_isRead hm
  have hadmits := Position.admits_of_not_isRead hu hm
  rcases exchange_cases hs hserved with
    ⟨a, s', hx, -, hmoves, -, hp⟩ | ⟨cause, s', hx, -, hmoves, -, hp⟩
  · rw [hx]
    refine ⟨[], ⟨⟨made, hmoves, hnone, hadmits⟩, .inr ?_⟩, rfl⟩
    rw [hp]
    exact Position.consume_zero hu
  · rw [hx]
    exact ⟨[], ⟨⟨made, hmoves, hnone, hadmits⟩, .inl hp⟩, rfl⟩

/-- An exchange on another side, followed by a count. -/
theorem rests_exchange_count {α : Type} {talk : Patience → Transport → Outcome α}
    (f : α → Stats → Stats) (h : ∀ t : Transport, t.Honest → ∃ made,
      Served t (talk none t) made ∧ ∀ c ∈ made, c.isRead = false)
    (s : FramedStream) (hs : s.Attended) (hu : s.position ≠ .poisoned) :
    Leaves s (fun _ pulled _ => pulled = []) ((do
      let a ← exchange talk
      count (f a)
      return a : FramingM α) s) := by
  refine (rests_exchange h s hs hu).bind (fun _ _ _ h => h) fun a bs s₁ hs₁ hb => ?_
  obtain rfl : bs = [] := hb
  exact rests_bind (rests_count _) (fun _ => .pure fun _ => rfl) s₁ hs₁

theorem served_write (bytes : List UInt8) (t : Transport) (h : t.Honest) :
    ∃ made, Served t (t.write bytes none) made ∧ ∀ c ∈ made, c.isRead = false := by
  obtain ⟨ha, hp, hc⟩ := writeTo_waiting bytes t.writes
  exact ⟨_, served_of_not_isRead h ha hp rfl rfl (by simp [Transport.write, record]) hc, hc⟩

theorem served_writeAll (flavour : Flavour) (bytes : List UInt8) (t : Transport) (h : t.Honest) :
    ∃ made, Served t (t.writeAll flavour bytes none) made ∧ ∀ c ∈ made, c.isRead = false := by
  obtain ⟨ha, hp, hc⟩ := writeAllTo_waiting flavour t.writes bytes
  exact ⟨_, served_of_not_isRead h ha hp rfl rfl (by simp [Transport.writeAll, record]) hc, hc⟩

theorem served_flush (t : Transport) (h : t.Honest) :
    ∃ made, Served t (t.flush none) made ∧ ∀ c ∈ made, c.isRead = false := by
  obtain ⟨ha, hp, hc⟩ := flushOf_waiting t.flushes
  exact ⟨_, served_of_not_isRead h ha hp rfl rfl (by simp [Transport.flush, record]) hc, hc⟩

theorem rests_write (bytes : List UInt8) : Rests (FramedStream.write bytes) :=
  .usable rfl (rests_exchange_count (fun n stats => stats.recordWrite n) (served_write bytes))

theorem rests_writeAll (bytes : List UInt8) : Rests (FramedStream.writeAll bytes) := by
  refine .usable rfl fun s hs hu => ?_
  refine (rests_exchange (served_writeAll s.flavour bytes) s hs hu).bind (fun _ _ _ h => h)
    fun _ bs s₁ hs₁ hb => ?_
  obtain rfl : bs = [] := hb
  exact rests_count _ s₁ hs₁

theorem rests_flush : Rests FramedStream.flush :=
  .usable rfl (rests_exchange served_flush)

theorem rests_encoded (bytes : Except Failure (List UInt8)) : Rests (encoded bytes) := by
  unfold encoded
  split
  · exact .pure fun _ => rfl
  · exact rests_fail _

theorem rests_writeVarint (n : Nat) : Rests (FramedStream.writeVarint n) :=
  rests_bind (rests_ask _) fun _ => rests_bind (rests_encoded _) rests_writeAll

theorem rests_writeHeader (header : Frame.Header) : Rests (FramedStream.writeHeader header) :=
  rests_bind (rests_ask _) fun _ => rests_bind (rests_encoded _) fun bytes =>
    rests_bind (rests_writeAll bytes) fun _ => rests_count _

theorem rests_writeFrame (kind : Frame.Kind) (payload : List UInt8) :
    Rests (FramedStream.writeFrame kind payload) :=
  rests_bind (rests_writeHeader _) fun _ => rests_writeAll payload

end FramedStream

end Http3Framing
