/-
The smallest and the greatest of a list of values, and the affine map that carries them
to two targets. Main statements: `mem_of_extent`, the extent is made of two of the values,
`length_of_rescale`, rescaling keeps every value, and `eq_flatAnchor_of_rescale`, it has one fault.
-/
import PathCurves.Fault
import PathCurves.Scalar

namespace PathCurves

variable {α : Type} [Scalar α]

/-- The smallest and the greatest value; undefined ones do not count unless all are. -/
def extent : List α → Option (α × α)
  | [] => none
  | v :: rest => some (rest.foldl Scalar.lesser v, rest.foldl Scalar.greater v)

theorem exists_extent {values : List α} (h : values ≠ []) :
    ∃ low high, extent values = some (low, high) := by
  cases values with
  | nil => exact absurd rfl h
  | cons v rest => exact ⟨_, _, rfl⟩

omit [Scalar α] in
theorem foldl_mem_cons {choose : α → α → α} (h : ∀ a b, choose a b = a ∨ choose a b = b)
    (v : α) (rest : List α) : rest.foldl choose v ∈ v :: rest := by
  induction rest generalizing v with
  | nil => exact List.mem_singleton.mpr rfl
  | cons w rest ih =>
    rcases List.mem_cons.mp (ih (choose v w)) with heq | hmem
    · rw [List.foldl_cons, heq]
      rcases h v w with hv | hw
      · rw [hv]
        exact List.mem_cons_self
      · rw [hw]
        exact List.mem_cons_of_mem _ List.mem_cons_self
    · exact List.mem_cons_of_mem _ (List.mem_cons_of_mem _ hmem)

theorem mem_of_extent {values : List α} {low high : α} (h : extent values = some (low, high)) :
    low ∈ values ∧ high ∈ values := by
  cases values with
  | nil => cases h
  | cons v rest =>
    cases h
    exact ⟨foldl_mem_cons Scalar.lesser_cases v rest, foldl_mem_cons Scalar.greater_cases v rest⟩

/-- Where `v` lies between `low` and `low + span`, as a point between `a` and `b`. The form
gives `a` and `b` themselves at the two ends. -/
def interpolate (a b low span v : α) : α :=
  let f := (v - low) / span
  a * (1.0 - f) + b * f

/-- Maps the smallest of the values to `a` and the greatest to `b`, along the axis that a
fault would name. -/
def rescale (axis : Axis) (a b : α) (values : List α) : Except Fault (List α) :=
  if a == b then .error (.flatAnchor axis)
  else
    match extent values with
    | none => .ok []
    | some (low, high) =>
      let span := high - low
      if span ≤ 0.0 ∨ Scalar.isFinite span = false then .error (.flatAnchor axis)
      else .ok (values.map (interpolate a b low span))

theorem length_of_rescale {axis : Axis} {a b : α} {values out : List α}
    (h : rescale axis a b values = .ok out) : out.length = values.length := by
  unfold rescale at h
  split at h
  · cases h
  · split at h
    · next hv =>
      cases values with
      | nil => cases h; rfl
      | cons v rest => simp [extent] at hv
    · dsimp only at h
      split at h
      · cases h
      · cases h; simp

/-- Rescaling fails only for want of a span, of the values or of the targets. -/
theorem eq_flatAnchor_of_rescale {axis : Axis} {a b : α} {values : List α} {fault : Fault}
    (h : rescale axis a b values = .error fault) : fault = .flatAnchor axis := by
  unfold rescale at h
  split at h
  · cases h
    rfl
  · split at h
    · cases h
    · dsimp only at h
      split at h
      · cases h
        rfl
      · cases h

end PathCurves
