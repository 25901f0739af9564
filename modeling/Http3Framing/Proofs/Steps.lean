import Http3Framing.FramedStream.Reading

/-! The steps of a payload. How its buffer grows is known before a byte of it is read, so the rounds in
which it is read are buffers of these sizes, filled one after the other. -/

namespace Http3Framing

namespace Limits

/-- The steps from `filled` bytes on; each is at least one byte, so `left` bounds their number. -/
def stepsWithin (l : Limits) : Nat → Nat → Nat → List Nat
  | 0, _, _ => []
  | _ + 1, _, 0 => []
  | fuel + 1, filled, left + 1 =>
    let step := l.nextStep filled (left + 1)
    step :: stepsWithin l fuel (filled + step) (left + 1 - step)

/-- The steps in which a payload of `len` bytes is read. -/
def steps (l : Limits) (len : Nat) : List Nat := l.stepsWithin len 0 len

theorem stepsWithin_succ (l : Limits) (fuel size : Nat) {left : Nat} (h : 0 < left) :
    l.stepsWithin (fuel + 1) size left = l.nextStep size left ::
      l.stepsWithin fuel (size + l.nextStep size left) (left - l.nextStep size left) := by
  cases left with
  | zero => cases h
  | succ left => rfl

theorem sum_stepsWithin (l : Limits) (fuel filled left : Nat) (h : left ≤ fuel) :
    (l.stepsWithin fuel filled left).sum = left := by
  induction fuel generalizing filled left with
  | zero => simp [stepsWithin]; omega
  | succ fuel ih =>
    cases left with
    | zero => rfl
    | succ left =>
      have hle := l.nextStep_le filled (left + 1)
      have hpos : 0 < l.nextStep filled (left + 1) := l.nextStep_pos filled (Nat.succ_pos left)
      simp only [stepsWithin, List.sum_cons]
      rw [ih _ _ (by omega)]
      omega

/-- The steps cover the payload. -/
theorem sum_steps (l : Limits) (len : Nat) : (l.steps len).sum = len :=
  l.sum_stepsWithin len 0 len (Nat.le_refl _)

end Limits

namespace FramedStream

/-- The bytes of all steps, one after the other. -/
def readSteps : List Nat → FramingM (List Delivery)
  | [] => return []
  | step :: steps => do
    let (ds, stop) ← readExact step
    match stop with
    | some stop => throw stop
    | none => return ds ++ (← readSteps steps)

theorem readRounds_eq (l : Limits) (len fuel filled : Nat) :
    readRounds l len fuel filled = readSteps (l.stepsWithin fuel filled (len - filled)) := by
  induction fuel generalizing filled with
  | zero => rfl
  | succ fuel ih =>
    by_cases hle : len ≤ filled
    · rw [readRounds, if_pos hle, Nat.sub_eq_zero_of_le hle]
      rfl
    · have hmore := ih (filled + l.nextStep filled (len - filled))
      rw [← Nat.sub_sub] at hmore
      rw [readRounds, if_neg hle, l.stepsWithin_succ fuel filled (by omega), readSteps]
      dsimp only
      rw [Nat.add_sub_cancel_left]
      refine bind_congr fun r => ?_
      obtain ⟨ds, stop⟩ := r
      cases stop with
      | some stop => rfl
      | none => exact congrArg (· >>= fun more => pure (ds ++ more)) hmore

/-- The rounds of a payload go through its steps. -/
theorem readRounds_steps (l : Limits) (len : Nat) :
    readRounds l len len 0 = readSteps (l.steps len) := readRounds_eq l len len 0

end FramedStream

end Http3Framing
