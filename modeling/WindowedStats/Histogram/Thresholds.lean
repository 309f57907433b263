import WindowedStats.SetupError

/-!
# Thresholds

At least two strictly ascending marks divide the values between the first and the last mark into
slots.  A slot holds its lower mark and not its upper one, only the last slot holds both.

`ofList_eq_ok_iff` says which lists are thresholds.
-/

namespace WindowedStats

/-- The strictly ascending marks between the slots of a histogram. -/
structure Thresholds where
  marks : List Int
  two_le_length : 2 ≤ marks.length
  ascending : marks.Pairwise (· < ·)
deriving DecidableEq

namespace Thresholds

/-- Whether each mark is less than the one after it. -/
def neighboursAscend (marks : List Int) : Bool :=
  (marks.zip marks.tail).all fun p => p.1 < p.2

theorem neighboursAscend_iff {marks : List Int} :
    neighboursAscend marks = true ↔ marks.Pairwise (· < ·) := by
  induction marks with
  | nil => simp [neighboursAscend]
  | cons a rest ih =>
    cases rest with
    | nil => simp [neighboursAscend]
    | cons b rest =>
      have step : neighboursAscend (a :: b :: rest) = true ↔
          a < b ∧ neighboursAscend (b :: rest) = true := by
        simp [neighboursAscend]
      rw [step, ih, List.pairwise_cons (a := a)]
      refine and_congr_left fun hr => ⟨fun hab m hm => ?_, fun h => h b (by simp)⟩
      rcases List.mem_cons.1 hm with rfl | hm
      · exact hab
      · exact Int.lt_trans hab ((List.pairwise_cons.1 hr).1 m hm)

/-- The thresholds with the given marks. -/
def ofList (marks : List Int) : Except SetupError Thresholds :=
  if h₂ : 2 ≤ marks.length then
    if h : neighboursAscend marks = true then .ok ⟨marks, h₂, neighboursAscend_iff.1 h⟩
    else .error (.unsortedThresholds marks)
  else .error (.tooFewThresholds marks)

theorem ofList_eq_ok_iff {marks : List Int} {t : Thresholds} :
    ofList marks = .ok t ↔ t.marks = marks := by
  constructor
  · intro h
    unfold ofList at h
    split at h
    · split at h
      · cases h; rfl
      · cases h
    · cases h
  · rintro rfl
    simp [ofList, t.two_le_length, neighboursAscend_iff.2 t.ascending]

theorem marks_ne_nil (t : Thresholds) : t.marks ≠ [] := by
  intro h
  have := t.two_le_length
  simp [h] at this

/-- The first mark. -/
def first (t : Thresholds) : Int := t.marks.head t.marks_ne_nil

/-- The last mark. -/
def last (t : Thresholds) : Int := t.marks.getLast t.marks_ne_nil

/-- The number of slots. -/
def size (t : Thresholds) : Nat := t.marks.length - 1

/-- Whether some slot holds a value. -/
def contains (t : Thresholds) (v : Int) : Bool := t.first ≤ v && v ≤ t.last

/-- The marks between two slots. -/
def inner (t : Thresholds) : List Int := t.marks.tail.dropLast

/-- The place of the slot for a value: one slot further for each inner mark that the value has
reached. -/
def slot (t : Thresholds) (v : Int) : Nat := (t.inner.takeWhile (· ≤ v)).length

theorem slot_lt_size (t : Thresholds) (v : Int) : t.slot v < t.size := by
  have h₁ : t.slot v ≤ t.inner.length := (List.takeWhile_sublist _).length_le
  have h₂ := t.two_le_length
  simp only [inner, List.length_dropLast, List.length_tail] at h₁
  simp only [size]
  omega

end Thresholds

end WindowedStats
