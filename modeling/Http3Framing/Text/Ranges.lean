/-! Sets of code points as closed ranges, ascending and with a gap between neighbours. A look-up
walks the ranges up to the first one that does not end below the code point; the range found
decides alone, because all later ones start above it. -/

namespace Http3Framing.Text

/-- The first and the last code point of each range. -/
abbrev Ranges := List (Nat × Nat)

namespace Ranges

def contains : Ranges → Nat → Bool
  | [], _ => false
  | (first, last) :: rest, n => if n ≤ last then first ≤ n else contains rest n

/-- No range is empty, none starts below `least`, and each leaves a gap before the next. -/
def ascendsFrom (least : Nat) : Ranges → Bool
  | [] => true
  | (first, last) :: rest => least ≤ first && first ≤ last && ascendsFrom (last + 2) rest

/-- How many code points the ranges hold. -/
def size : Ranges → Nat
  | [] => 0
  | (first, last) :: rest => last + 1 - first + size rest

theorem least_le {least : Nat} {ranges : Ranges} (h : ascendsFrom least ranges) :
    ∀ range ∈ ranges, least ≤ range.1 := by
  induction ranges generalizing least with
  | nil => simp
  | cons r rest ih =>
    obtain ⟨first, last⟩ := r
    simp only [ascendsFrom, Bool.and_eq_true, decide_eq_true_eq] at h
    intro range hr
    rcases List.mem_cons.mp hr with rfl | hr
    · exact h.1.1
    · have := ih h.2 range hr
      omega

/-- The look-up finds just the code points of the ranges. -/
theorem contains_iff {least : Nat} {ranges : Ranges} (h : ascendsFrom least ranges) (n : Nat) :
    contains ranges n ↔ ∃ range ∈ ranges, range.1 ≤ n ∧ n ≤ range.2 := by
  induction ranges generalizing least with
  | nil => simp [contains]
  | cons r rest ih =>
    obtain ⟨first, last⟩ := r
    simp only [ascendsFrom, Bool.and_eq_true, decide_eq_true_eq] at h
    have later := least_le h.2
    unfold contains
    split
    · constructor
      · intro hn
        exact ⟨(first, last), by simp, by simpa using hn, by assumption⟩
      · rintro ⟨range, hr, hn⟩
        rcases List.mem_cons.mp hr with rfl | hr
        · simpa using hn.1
        · have := later range hr
          omega
    · rw [ih h.2]
      constructor
      · rintro ⟨range, hr, hn⟩
        exact ⟨range, List.mem_cons_of_mem _ hr, hn⟩
      · rintro ⟨range, hr, hn⟩
        rcases List.mem_cons.mp hr with rfl | hr
        · exact absurd hn.2 (by assumption)
        · exact ⟨range, hr, hn⟩

end Ranges

end Http3Framing.Text
