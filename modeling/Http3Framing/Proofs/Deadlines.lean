import Http3Framing.Failure.Basic

/-! Deadlines under layers. A deadline is told by its marker or by a transport error of the kind, and other
errors can be wrapped around it, one around the other. The causes of a failure are followed from each to
the next, so layers are seen through, in any number. But a transport error stands in the place of the error
that it carries: where it carries another transport error, that one is passed over, with a marker that it
carries itself. -/

namespace Http3Framing

namespace Cause

/-- An error that is wrapped around another: a layer of the caller's own, a transport error that carries
it, or a framing failure that it is the cause of. -/
inductive Wrap
  | layer (text : String)
  | carrier (kind : IoKind)
  | failure
  deriving DecidableEq

namespace Wrap

def around : Wrap → Cause → Cause
  | layer text, c => .layer text c
  | carrier kind, c => .carrier kind c
  | failure, c => .transportFailure c

/-- Errors that stand in the place of what they are wrapped around. -/
def isCarrier : Wrap → Bool
  | carrier _ => true
  | _ => false

theorem around_inj {w w' : Wrap} {c c' : Cause} (h : w.around c = w'.around c') :
    w = w' ∧ c = c' := by
  cases w <;> cases w' <;> cases h <;> exact ⟨rfl, rfl⟩

end Wrap

/-- A cause with these errors around it, the outermost first. -/
def under (ws : List Wrap) (c : Cause) : Cause := ws.foldr Wrap.around c

theorem under_append (ws ws' : List Wrap) (c : Cause) :
    under (ws ++ ws') c = under ws (under ws' c) := List.foldr_append

def isTransportError : Cause → Bool
  | plain _ | stalled | carrier .. => true
  | _ => false

/-- The marker of a deadline, or a transport error of the kind. -/
def isDeadline : Cause → Bool
  | timedOut => true
  | plain kind | carrier kind _ => kind = .timedOut
  | _ => false

/-- The innermost of these errors carries what they are around. -/
def Carried (ws : List Wrap) : Prop := ∃ outer kind, ws = outer ++ [.carrier kind]

/-- A transport error carries the cause, which is a transport error itself or is carried by one that
another carries. -/
def Concealed (ws : List Wrap) (d : Cause) : Prop :=
  ∃ outer kind, ws = outer ++ [.carrier kind] ∧ (d.isTransportError ∨ Carried outer)

/-- Somewhere a transport error carries a transport error. -/
def nested : Cause → Bool
  | layer _ inner | transportFailure inner => inner.nested
  | carrier _ inner => inner.isTransportError || inner.nested
  | _ => false

/-! ### Causes behind a cause -/

section

variable {c d e : Cause} {ws : List Wrap}

/-- A cause stands directly in an error that is no carrier. -/
def Exposed (c e : Cause) : Prop := ∃ ws w, c = under (ws ++ [w]) e ∧ w.isCarrier = false

/-- What is exposed under an error is what it is around or is exposed there. -/
theorem exposed_around_iff {w : Wrap} :
    Exposed (w.around c) e ↔ (c = e ∧ w.isCarrier = false) ∨ Exposed c e := by
  constructor
  · rintro ⟨ws, w', h, hw⟩
    cases ws with
    | nil =>
      obtain ⟨rfl, rfl⟩ := Wrap.around_inj h
      exact .inl ⟨rfl, hw⟩
    | cons w₀ ws =>
      obtain ⟨rfl, rfl⟩ := Wrap.around_inj h
      exact .inr ⟨ws, w', rfl, hw⟩
  · rintro (⟨rfl, hw⟩ | ⟨ws, w', rfl, hw⟩)
    · exact ⟨[], w, rfl, hw⟩
    · exact ⟨w :: ws, w', rfl, hw⟩

theorem not_exposed (h : ∀ w c', c ≠ Wrap.around w c') : ¬ Exposed c e := by
  rintro ⟨ws, w, hc, -⟩
  cases ws with
  | nil => exact h _ _ hc
  | cons w₀ ws => exact h _ _ hc

/-- An error that is around nothing, and behind which nothing tells of a deadline. -/
theorem mem_sources_iff_of_alone (he : e.marksDeadline) (h : ∀ w c', c ≠ Wrap.around w c')
    (hs : ∀ d ∈ c.sources, d.marksDeadline = false) : e ∈ c.sources ↔ Exposed c e := by
  refine ⟨fun hmem => ?_, fun hx => absurd hx (not_exposed h)⟩
  rw [hs e hmem] at he
  cases he

/-- The causes that are reached behind a cause are those that stand in an error that is no carrier. -/
theorem mem_sources_iff (he : e.marksDeadline) : e ∈ c.sources ↔ Exposed c e := by
  have hbehind {w : Wrap} {inner : Cause} (hw : w.isCarrier = false)
      (ih : e ∈ inner.sources ↔ Exposed inner e) :
      e ∈ inner :: inner.sources ↔ Exposed (w.around inner) e := by
    rw [exposed_around_iff, List.mem_cons, ih, hw, eq_comm]
    exact or_congr_left (and_iff_left rfl).symm
  induction c with
  | layer text inner ih => exact hbehind (w := .layer text) rfl ih
  | transportFailure inner ih => exact hbehind (w := .failure) rfl ih
  | carrier kind inner ih =>
    refine ih.trans (Iff.trans ?_ (exposed_around_iff (w := .carrier kind)).symm)
    exact (or_iff_right fun h => Bool.noConfusion h.2).symm
  | frameFailure v | rangeFailure n =>
    exact mem_sources_iff_of_alone he (fun w _ => by cases w <;> rintro ⟨⟩)
      (List.forall_mem_singleton.2 rfl)
  | _ =>
    exact mem_sources_iff_of_alone he (fun w _ => by cases w <;> rintro ⟨⟩) (List.forall_mem_nil _)

/-! ### Deadlines -/

theorem carried_concat_iff {outer : List Wrap} {w : Wrap} :
    Carried (outer ++ [w]) ↔ w.isCarrier := by
  constructor
  · rintro ⟨outer', kind, h⟩
    obtain ⟨-, h⟩ := List.append_inj' h rfl
    cases h
    rfl
  · intro h
    cases w with
    | carrier kind => exact ⟨outer, kind, rfl⟩
    | _ => cases h

theorem not_carried_nil : ¬ Carried [] := by
  rintro ⟨outer, kind, h⟩
  cases outer <;> cases h

/-- A failure of the transport tells of a deadline when its cause does or one that is reached behind it. -/
theorem isTimeout_iff_marks (c : Cause) :
    (Failure.transport c).isTimeout ↔ ∃ ws e, c = under ws e ∧ e.marksDeadline ∧ ¬ Carried ws := by
  have hsources : (Failure.transport c).sources = c :: c.sources := rfl
  rw [Failure.isTimeout, hsources, List.any_cons, Bool.or_eq_true, List.any_eq_true]
  constructor
  · rintro (he | ⟨e, hmem, he⟩)
    · exact ⟨[], c, rfl, he, not_carried_nil⟩
    · obtain ⟨ws, w, hc, hw⟩ := (mem_sources_iff he).1 hmem
      refine ⟨ws ++ [w], e, hc, he, ?_⟩
      rw [carried_concat_iff, hw]
      exact Bool.false_ne_true
  · rintro ⟨ws, e, rfl, he, hfree⟩
    rcases ws.eq_nil_or_concat with rfl | ⟨outer, w, rfl⟩
    · exact .inl he
    · rw [List.concat_eq_append] at hfree ⊢
      rw [carried_concat_iff, Bool.not_eq_true] at hfree
      exact .inr ⟨e, (mem_sources_iff he).2 ⟨outer, w, rfl, hfree⟩, he⟩

theorem marksDeadline_of_isDeadline (h : d.isDeadline) : d.marksDeadline := by
  cases d with
  | timedOut => rfl
  | plain kind => exact h
  | carrier kind inner => exact Bool.or_eq_true_iff.2 (.inl h)
  | _ => cases h

/-- What marks a deadline tells of it itself or carries the marker. -/
theorem marksDeadline_cases (h : e.marksDeadline) :
    e.isDeadline ∨ ∃ kind, e = .carrier kind .timedOut := by
  cases e with
  | timedOut => exact .inl rfl
  | plain kind => exact .inl h
  | carrier kind inner =>
    rcases Bool.or_eq_true_iff.1 h with hkind | hinner
    · exact .inl hkind
    · obtain rfl := of_decide_eq_true hinner
      exact .inr ⟨kind, rfl⟩
  | _ => cases h

/-- A deadline is told by the marker or by a transport error. -/
theorem eq_timedOut_of_isDeadline (h : d.isDeadline) (hd : ¬ d.isTransportError) : d = .timedOut := by
  cases d with
  | timedOut => rfl
  | plain kind => exact absurd rfl hd
  | carrier kind inner => exact absurd rfl hd
  | _ => cases h

/-- A failure of the transport tells of the deadlines that are not concealed. -/
theorem isTimeout_iff (c : Cause) :
    (Failure.transport c).isTimeout ↔
      ∃ ws d, c = under ws d ∧ d.isDeadline ∧ ¬ Concealed ws d := by
  rw [isTimeout_iff_marks]
  constructor
  · rintro ⟨ws, e, rfl, he, hfree⟩
    rcases marksDeadline_cases he with hd | ⟨kind, rfl⟩
    · refine ⟨ws, e, rfl, hd, ?_⟩
      rintro ⟨outer, kind, hws, -⟩
      exact hfree ⟨outer, kind, hws⟩
    · -- the marker in a carrier that stands in no other
      have hunder := under_append ws [.carrier kind] .timedOut
      refine ⟨_, .timedOut, hunder.symm, rfl, ?_⟩
      rintro ⟨outer, kind', hws, hmarker | houter⟩
      · cases hmarker
      · rw [← List.append_inj_left' hws rfl] at houter
        exact hfree houter
  · rintro ⟨ws, d, rfl, hd, hshown⟩
    by_cases hcarried : Carried ws
    · obtain ⟨outer, kind, rfl⟩ := hcarried
      obtain rfl := eq_timedOut_of_isDeadline hd fun h => hshown ⟨outer, kind, rfl, .inl h⟩
      exact ⟨outer, .carrier kind .timedOut, under_append outer _ _, by simp [marksDeadline],
        fun h => hshown ⟨outer, kind, rfl, .inr h⟩⟩
    · exact ⟨ws, d, rfl, marksDeadline_of_isDeadline hd, hcarried⟩

theorem nested_of_under (ws : List Wrap) (h : (under ws c).nested = false) : c.nested = false := by
  induction ws with
  | nil => exact h
  | cons w ws ih =>
    cases w with
    | carrier kind => exact ih (Bool.or_eq_false_iff.1 h).2
    | _ => exact ih h

/-- Only a carrier in a carrier conceals. -/
theorem not_concealed (h : (under ws d).nested = false) : ¬ Concealed ws d := by
  rintro ⟨outer, kind, rfl, hd | ⟨outer', kind', rfl⟩⟩
  · rw [under_append] at h
    have hnested : (Cause.carrier kind d).nested = false := nested_of_under outer h
    rw [nested, hd] at hnested
    cases hnested
  · rw [under_append, under_append] at h
    cases nested_of_under outer' h

end

end Cause

/-- A failure that the transport caused is a timeout exactly if somewhere in its cause, under any number
of errors of any kinds, stands a deadline that is not concealed. So it is never one without a deadline, and
where no transport error carries another it is one with every deadline. -/
theorem timeout_unless_concealed (c : Cause) :
    ((Failure.transport c).isTimeout ↔
      ∃ ws d, c = .under ws d ∧ d.isDeadline ∧ ¬ Cause.Concealed ws d) ∧
    (c.nested = false →
      ((Failure.transport c).isTimeout ↔ ∃ ws d, c = .under ws d ∧ d.isDeadline)) := by
  refine ⟨Cause.isTimeout_iff c, fun hflat => c.isTimeout_iff.trans ?_⟩
  constructor
  · rintro ⟨ws, d, hc, hd, -⟩
    exact ⟨ws, d, hc, hd⟩
  · rintro ⟨ws, d, rfl, hd⟩
    exact ⟨ws, d, rfl, hd, Cause.not_concealed hflat⟩

/-- A marker under errors of every kind, carriers among them. -/
theorem timeout_unless_concealed_layers : ∃ c : Cause,
    c = .under [.failure, .carrier .other, .layer "session", .failure, .carrier .connectionReset]
      .timedOut ∧
    c.nested = false ∧ (Failure.transport c).isTimeout := by
  let ws : List Cause.Wrap :=
    [.failure, .carrier .other, .layer "session", .failure, .carrier .connectionReset]
  have hflat : (Cause.under ws .timedOut).nested = false := by decide
  obtain ⟨-, htells⟩ := timeout_unless_concealed (.under ws .timedOut)
  exact ⟨_, rfl, hflat, (htells hflat).2 ⟨ws, .timedOut, rfl, rfl⟩⟩

/-- Not every deadline is recognised: the marker in a carrier in a carrier is not. -/
theorem timeout_not_always_recognised : ¬ ∀ c : Cause,
    (Failure.transport c).isTimeout ↔ ∃ ws d, c = .under ws d ∧ d.isDeadline := by
  intro h
  have htold := (h (.carrier .other (.carrier .other .timedOut))).2
    ⟨[.carrier .other, .carrier .other], .timedOut, rfl, rfl⟩
  revert htold
  decide

end Http3Framing
