/-
The circle on which a chord spans 120 degrees, placed by a third point: its centre is the
centre of the circle through all three points, moved from the chord to the left by the
distance that such a chord has from its own centre. Main statement: `ofChord_eq_ok`, what
the circle is made from when there is one.
-/
import PathCurves.Bisector
import PathCurves.Circle
import PathCurves.Fault

namespace PathCurves.Circle

variable {α : Type} [Scalar α]

/-- The circle of chord `a b`, placed by the point `m`. The three points must determine
one circle. -/
def ofChord (a b m : Point α) : Except Fault (Circle α) :=
  let chord := b - a
  let length := chord.norm
  if Point.Near a b then .error .noChord
  else
    match Line.bisector a b, Line.bisector a m with
    | none, _ => .error .noChord
    | some _, none => .error .collinear
    | some l₁, some l₂ =>
      match Line.meet l₁ l₂ with
      | none => .error .collinear
      | some o =>
        let root := Scalar.sqrt (3.0 : α)
        .ok ⟨o + (chord / length).quarterTurn * (length / (2.0 * root)), length / root⟩

/-- What a circle of a chord is made from: the point that the two bisectors share. -/
theorem ofChord_eq_ok {a b m : Point α} {c : Circle α} (h : ofChord a b m = .ok c) :
    ∃ l₁ l₂ o, ¬ Point.Near a b ∧ Line.bisector a b = some l₁ ∧ Line.bisector a m = some l₂ ∧
      Line.meet l₁ l₂ = some o ∧
      c.centre = o + ((b - a) / (b - a).norm).quarterTurn *
        ((b - a).norm / (2.0 * Scalar.sqrt 3.0)) ∧
      c.radius = (b - a).norm / Scalar.sqrt 3.0 := by
  unfold ofChord at h
  dsimp only at h
  split at h
  · cases h
  · next hnear =>
    split at h
    · cases h
    · cases h
    · next l₁ l₂ h₁ h₂ =>
      split at h
      · cases h
      · next o ho =>
        cases h
        exact ⟨l₁, l₂, o, hnear, h₁, h₂, ho, rfl, rfl⟩

theorem ofChord_of_meet {a b m o : Point α} {l₁ l₂ : Line α} (hnear : ¬ Point.Near a b)
    (h₁ : Line.bisector a b = some l₁) (h₂ : Line.bisector a m = some l₂)
    (hmeet : Line.meet l₁ l₂ = some o) :
    ofChord a b m = .ok ⟨o + ((b - a) / (b - a).norm).quarterTurn *
      ((b - a).norm / (2.0 * Scalar.sqrt 3.0)), (b - a).norm / Scalar.sqrt 3.0⟩ := by
  simp only [ofChord, if_neg hnear, h₁, h₂, hmeet]

end PathCurves.Circle
