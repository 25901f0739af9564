import Http3Framing.FramedStream.Basic

/-! Opening a framed stream around a transport: with given limits, taken as they are, or with
limits that are checked first. -/

namespace Http3Framing.FramedStream

/-- Limits are taken as they are. -/
def ofTransport (flavour : Flavour) (limits : Limits) (transport : Transport) : FramedStream :=
  { transport, limits, flavour }

/-- Limits are checked, and the opening is reported. -/
def build (flavour : Flavour) (limits : Limits) (transport : Transport) :
    Except Limits.Defect FramedStream := do
  limits.validate
  return { ofTransport flavour limits transport with events := #[.built flavour limits] }

theorem build_eq_ok_iff {flavour : Flavour} {limits : Limits} {transport : Transport} :
    (∃ s, build flavour limits transport = .ok s) ↔
      0 < limits.maxPayload ∧ 0 < limits.initialBuffer := by
  rw [← Limits.validate_eq_ok_iff]
  unfold build
  cases limits.validate with
  | ok _ => exact ⟨fun _ => rfl, fun _ => ⟨_, rfl⟩⟩
  | error d => exact ⟨fun ⟨_, h⟩ => (nomatch h), fun h => (nomatch h)⟩

end Http3Framing.FramedStream
