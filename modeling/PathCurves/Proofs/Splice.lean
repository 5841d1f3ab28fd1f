/-
Runs of points that are replaced one after another. A path that covers a run is what stands
before it, the run, and what stands behind it, and a splice changes the middle of the three
(`splice_append`).

`undo_splice`: what a splice put in can be taken out again, and any other segment can be put
there instead. `splice_pointwise`: what stands at each position once a run is replaced.
`splice_comm`: two runs that lie apart can be replaced in either order, by given segments and by
the spirals between their own ends.
-/
import Mathlib
import PathCurves.Polyline.Fit
import PathCurves.Scalar.Double

namespace PathCurves

/-- Where a position behind the run from `start` to `stop` lies once `count` points have taken the
place of the run. -/
def moved (start stop count position : ℕ) : ℕ := position - (stop - start + 1) + count

namespace Polyline

variable {α : Type} {path out : Polyline α} {start stop : ℕ} {segment : Segment α}

/-- The points at the positions from `start` to `stop`. -/
def slice (path : Polyline α) (start stop : ℕ) : List (Point α) :=
  path.points.extract start (stop + 1)

/-! ## Before, between, behind -/

theorem Covers.length_slice (h : path.Covers start stop) :
    start + (path.slice start stop).length = stop + 1 := by
  obtain ⟨hle, hlt⟩ := h
  rw [length] at hlt
  simp only [slice, List.extract_eq_take_drop, List.length_take, List.length_drop]
  omega

theorem Covers.slice_ne_nil (h : path.Covers start stop) : path.slice start stop ≠ [] := by
  have hlength := h.length_slice
  have hle := h.1
  exact List.ne_nil_of_length_pos (by omega)

/-- A path falls into what stands before a run that it covers, the run, and what stands
behind it. -/
theorem Covers.exists_append (h : path.Covers start stop) :
    ∃ front back, path = ⟨front ++ path.slice start stop ++ back⟩ ∧ front.length = start := by
  obtain ⟨hle, hlt⟩ := h
  rw [length] at hlt
  refine ⟨path.points.take start, path.points.drop (stop + 1), ?_, ?_⟩
  · have hback : path.points.drop (stop + 1) =
        (path.points.drop start).drop (stop + 1 - start) := by
      rw [List.drop_drop]
      congr 1
      omega
    rw [slice, List.extract_eq_take_drop, hback, List.append_assoc, List.take_append_drop,
      List.take_append_drop]
  · rw [List.length_take]
    omega

theorem splice_append {front middle back : List (Point α)} (hfront : front.length = start)
    (hmiddle : start + middle.length = stop + 1) (hle : start ≤ stop) (segment : Segment α) :
    splice ⟨front ++ middle ++ back⟩ start stop segment =
      .ok ⟨front ++ segment.points ++ back⟩ := by
  have hcovers : Covers ⟨front ++ middle ++ back⟩ start stop := by
    refine ⟨hle, ?_⟩
    simp only [length, List.length_append]
    omega
  have hboth : (front ++ middle).length = stop + 1 := by
    rw [List.length_append]
    omega
  rw [splice_of_covers hcovers]
  congr 3
  · rw [List.append_assoc, List.take_left' hfront]
  · rw [List.drop_left' hboth]

/-- Where a segment was put in, it is the run that a further splice replaces. -/
theorem splice_inserted {front back : List (Point α)} (hfront : front.length = start)
    (segment other : Segment α) :
    splice ⟨front ++ segment.points ++ back⟩ start (start + segment.length - 1) other =
      .ok ⟨front ++ other.points ++ back⟩ := by
  have hpos := segment.length_pos
  rw [Segment.length] at hpos ⊢
  exact splice_append hfront (by omega) (by omega) other

/-! ## A splice taken back -/

/-- A run that a path covers can be replaced by any segment. The result can be undone: with the
points that were replaced, which are a segment, put in the place of the new ones the path is
what it was; and any other segment in that place gives what it would have given at once. -/
theorem undo_splice (h : path.Covers start stop) (segment : Segment α) :
    ∃ out, path.splice start stop segment = .ok out ∧
      (∃ removed, Segment.ofPoints (path.slice start stop) = .ok removed ∧
        out.splice start (start + segment.length - 1) removed = .ok path) ∧
      ∀ other : Segment α, ∃ result, path.splice start stop other = .ok result ∧
        out.splice start (start + segment.length - 1) other = .ok result := by
  obtain ⟨front, back, hpath, hfront⟩ := h.exists_append
  have hsplice : ∀ s : Segment α,
      path.splice start stop s = .ok ⟨front ++ s.points ++ back⟩ := by
    intro s
    rw [hpath]
    exact splice_append hfront h.length_slice h.1 s
  refine ⟨_, hsplice segment, ⟨⟨path.slice start stop, h.slice_ne_nil⟩,
    Segment.ofPoints_eq_ok_iff.mpr rfl, ?_⟩, fun other => ⟨_, hsplice other, ?_⟩⟩
  · rw [splice_inserted hfront]
    exact congrArg _ hpath.symm
  · exact splice_inserted hfront segment other

/-- Three points in the place of two, on a path of four. -/
theorem undo_splice_example :
    Covers (⟨[⟨0, 0⟩, ⟨1, 2⟩, ⟨3, 1⟩, ⟨4, 4⟩]⟩ : Polyline Float) 1 2 ∧
      ∃ removed, Segment.ofPoints [⟨1, 2⟩, ⟨3, 1⟩] = .ok removed ∧
        splice ⟨[⟨0, 0⟩, ⟨5, 5⟩, ⟨6, 5⟩, ⟨7, 5⟩, ⟨4, 4⟩]⟩ 1 3 removed =
          .ok (⟨[⟨0, 0⟩, ⟨1, 2⟩, ⟨3, 1⟩, ⟨4, 4⟩]⟩ : Polyline Float) := by
  have hcovers : Covers (⟨[⟨0, 0⟩, ⟨1, 2⟩, ⟨3, 1⟩, ⟨4, 4⟩]⟩ : Polyline Float) 1 2 := by decide
  obtain ⟨out, hout, ⟨removed, hremoved, hback⟩, -⟩ :=
    undo_splice hcovers ⟨[⟨5, 5⟩, ⟨6, 5⟩, ⟨7, 5⟩], by simp⟩
  cases hout
  exact ⟨hcovers, removed, hremoved, hback⟩

/-! ## What a splice leaves as it was -/

/-- What a splice did: it exchanged the middle of three parts. -/
theorem splice_eq_ok (h : path.splice start stop segment = .ok out) :
    ∃ front middle back, path = ⟨front ++ middle ++ back⟩ ∧
      out = ⟨front ++ segment.points ++ back⟩ ∧ front.length = start ∧
      start + middle.length = stop + 1 ∧ start ≤ stop := by
  by_cases hcovers : path.Covers start stop
  · obtain ⟨front, back, hpath, hfront⟩ := hcovers.exists_append
    rw [hpath, splice_append hfront hcovers.length_slice hcovers.1] at h
    cases h
    exact ⟨front, _, back, hpath, rfl, hfront, hcovers.length_slice, hcovers.1⟩
  · rw [splice_of_not_covers hcovers] at h
    cases h

theorem get?_splice_before {position : ℕ} (h : path.splice start stop segment = .ok out)
    (hbefore : position < start) : out.get? position = path.get? position := by
  obtain ⟨front, middle, back, rfl, rfl, hfront, -, -⟩ := splice_eq_ok h
  simp only [get?, List.append_assoc]
  rw [List.getElem?_append_left (by omega), List.getElem?_append_left (by omega)]

theorem get?_splice_behind {position : ℕ} (h : path.splice start stop segment = .ok out)
    (hbehind : stop < position) :
    out.get? (moved start stop segment.length position) = path.get? position := by
  obtain ⟨front, middle, back, rfl, rfl, hfront, hmiddle, hle⟩ := splice_eq_ok h
  simp only [get?, moved, Segment.length]
  rw [List.getElem?_append_right (by simp only [List.length_append]; omega),
    List.getElem?_append_right (by simp only [List.length_append]; omega)]
  congr 1
  simp only [List.length_append]
  omega

/-! ## Position by position -/

theorem length_of_splice (h : path.splice start stop segment = .ok out) :
    out.length = path.length - (stop - start + 1) + segment.length := by
  obtain ⟨front, middle, back, rfl, rfl, hfront, hmiddle, hle⟩ := splice_eq_ok h
  simp only [length, Segment.length, List.length_append]
  omega

theorem get?_splice_within {position : ℕ} (h : path.splice start stop segment = .ok out)
    (hstart : start ≤ position) (hstop : position < start + segment.length) :
    out.get? position = segment.points[position - start]? := by
  obtain ⟨front, middle, back, rfl, rfl, hfront, -, -⟩ := splice_eq_ok h
  rw [Segment.length] at hstop
  simp only [get?, List.append_assoc]
  rw [List.getElem?_append_right (by omega), List.getElem?_append_left (by omega), hfront]

/-- Behind the new points stands what stood behind the run: every position there is one that a
position of the path has moved to. -/
theorem get?_splice_after {position : ℕ} (h : path.splice start stop segment = .ok out)
    (hafter : start + segment.length ≤ position) :
    out.get? position = path.get? (position - segment.length + (stop - start + 1)) := by
  obtain ⟨_, _, _, -, -, -, -, hle⟩ := splice_eq_ok h
  have hmoved : moved start stop segment.length
      (position - segment.length + (stop - start + 1)) = position := by
    rw [moved]
    omega
  rw [← get?_splice_behind h (by omega), hmoved]

theorem exists_splice_iff :
    (∃ out, path.splice start stop segment = .ok out) ↔ path.Covers start stop := by
  refine ⟨fun ⟨out, h⟩ => ?_, fun h => ⟨_, splice_of_covers h segment⟩⟩
  by_contra hcovers
  rw [splice_of_not_covers hcovers] at h
  cases h

theorem splice_eq_error_iff {fault : Fault} : path.splice start stop segment = .error fault ↔
    ¬ path.Covers start stop ∧ fault = .outOfRange start stop path.length := by
  by_cases hcovers : path.Covers start stop
  · rw [splice_of_covers hcovers]
    simp [hcovers]
  · rw [splice_of_not_covers hcovers, Except.error.injEq, eq_comm]
    exact (and_iff_right hcovers).symm

/-- A run of points can be replaced if the path reaches over it, and otherwise the positions are
out of range. Then the path is longer by the new points and shorter by the run. Before the run
every point is where it was, the new points follow in their order, and behind them come the points
from behind the run. -/
theorem splice_pointwise (path : Polyline α) (start stop : ℕ) (segment : Segment α) :
    ((∃ out, path.splice start stop segment = .ok out) ↔ start ≤ stop ∧ stop < path.length) ∧
    (∀ fault, path.splice start stop segment = .error fault ↔
      ¬ (start ≤ stop ∧ stop < path.length) ∧ fault = .outOfRange start stop path.length) ∧
    ∀ out, path.splice start stop segment = .ok out →
      out.length = path.length - (stop - start + 1) + segment.length ∧
      ∀ i, out.get? i =
        if i < start then path.get? i
        else if i < start + segment.length then segment.points[i - start]?
        else path.get? (i - segment.length + (stop - start + 1)) := by
  refine ⟨exists_splice_iff, fun fault => splice_eq_error_iff,
    fun out h => ⟨length_of_splice h, fun i => ?_⟩⟩
  split
  · next hbefore => exact get?_splice_before h hbefore
  · next hstart =>
    split
    · next hstop => exact get?_splice_within h (not_lt.mp hstart) hstop
    · next hstop => exact get?_splice_after h (not_lt.mp hstop)

/-- Three points in the place of two. -/
example : (splice ⟨[⟨0, 0⟩, ⟨1, 2⟩, ⟨3, 1⟩, ⟨4, 4⟩]⟩ 1 2
    (⟨[⟨5, 5⟩, ⟨6, 5⟩, ⟨7, 5⟩], by simp⟩ : Segment Int)).toOption.bind (·.get? 4) = some ⟨4, 4⟩ := by
  decide

/-! ## Two runs that lie apart -/

/-- Two runs of a path, the second one behind the first. -/
structure Apart (path : Polyline α) (start₁ stop₁ start₂ stop₂ : ℕ) : Prop where
  first : start₁ ≤ stop₁
  between : stop₁ < start₂
  second : start₂ ≤ stop₂
  within : stop₂ < path.length

variable {start₁ stop₁ start₂ stop₂ : ℕ}

namespace Apart

theorem covers_first (h : path.Apart start₁ stop₁ start₂ stop₂) : path.Covers start₁ stop₁ :=
  ⟨h.first, h.between.trans (h.second.trans_lt h.within)⟩

theorem covers_second (h : path.Apart start₁ stop₁ start₂ stop₂) : path.Covers start₂ stop₂ :=
  ⟨h.second, h.within⟩

/-- A path with two runs apart falls into five parts, of which the runs are the second and the
fourth. -/
theorem exists_append (h : path.Apart start₁ stop₁ start₂ stop₂) :
    ∃ front run₁ gap run₂ back, path = ⟨front ++ run₁ ++ gap ++ run₂ ++ back⟩ ∧
      front.length = start₁ ∧ start₁ + run₁.length = stop₁ + 1 ∧
      stop₁ + 1 + gap.length = start₂ ∧ start₂ + run₂.length = stop₂ + 1 := by
  obtain ⟨ahead, back, hpath, hahead⟩ := h.covers_second.exists_append
  have hlt : stop₁ < ahead.length := hahead ▸ h.between
  have hcovers : Covers ⟨ahead⟩ start₁ stop₁ := ⟨h.first, hlt⟩
  obtain ⟨front, gap, hsplit, hfront⟩ := hcovers.exists_append
  have hrun₁ := hcovers.length_slice
  generalize slice ⟨ahead⟩ start₁ stop₁ = run₁ at hsplit hrun₁
  cases hsplit
  refine ⟨front, _, gap, _, back, hpath, hfront, hrun₁, ?_, h.covers_second.length_slice⟩
  simp only [List.length_append] at hahead
  omega

/-- In either order the two runs are exchanged, the second one where it has moved to. -/
theorem splice_splice (h : path.Apart start₁ stop₁ start₂ stop₂) (r₁ r₂ : Segment α) :
    ∃ out, (path.splice start₂ stop₂ r₂ >>= fun q => q.splice start₁ stop₁ r₁) = .ok out ∧
      (path.splice start₁ stop₁ r₁ >>= fun q =>
        q.splice (moved start₁ stop₁ r₁.length start₂) (moved start₁ stop₁ r₁.length stop₂) r₂) =
          .ok out := by
  obtain ⟨front, run₁, gap, run₂, back, rfl, hfront, hrun₁, hgap, hrun₂⟩ := h.exists_append
  have hfirst := h.first
  have hsecond := h.second
  have hahead : (front ++ run₁ ++ gap).length = start₂ := by
    simp only [List.length_append]
    omega
  -- The first run is exchanged in the same way whatever stands behind it.
  have hexchange : ∀ rest, splice ⟨front ++ run₁ ++ rest⟩ start₁ stop₁ r₁ =
      .ok ⟨front ++ r₁.points ++ rest⟩ := fun rest => splice_append hfront hrun₁ hfirst r₁
  have hmoved : splice ⟨front ++ r₁.points ++ gap ++ run₂ ++ back⟩
      (moved start₁ stop₁ r₁.length start₂) (moved start₁ stop₁ r₁.length stop₂) r₂ =
        .ok ⟨front ++ r₁.points ++ gap ++ r₂.points ++ back⟩ := by
    apply splice_append
    · simp only [List.length_append, moved, Segment.length]
      omega
    · simp only [moved]
      omega
    · simp only [moved]
      omega
  refine ⟨⟨front ++ r₁.points ++ gap ++ r₂.points ++ back⟩, ?_, ?_⟩
  · rw [splice_append hahead hrun₂ hsecond, Except.ok_bind]
    simpa only [List.append_assoc] using hexchange (gap ++ r₂.points ++ back)
  · have hfirst := hexchange (gap ++ run₂ ++ back)
    simp only [List.append_assoc] at hfirst hmoved ⊢
    rw [hfirst, Except.ok_bind, hmoved]

variable [Scalar α] [Trig α] {a b : Point α} {q : Polyline α}

/-- The spiral in the place of the first run has the same anchors once the second run is
exchanged. -/
theorem spliceSpiral_first (h : path.Apart start₁ stop₁ start₂ stop₂)
    (ha : path.get? start₁ = some a) (hb : path.get? stop₁ = some b)
    (hq : path.splice start₂ stop₂ segment = .ok q) (sampling : Sampling) :
    q.spliceSpiral start₁ stop₁ sampling =
      (Spiral.trace ⟨a, b, sampling.spiralPoints, 1.0, sampling.fresnelSteps⟩ >>= fun spiral =>
        q.splice start₁ stop₁ spiral) := by
  have hbetween := h.between
  exact spliceSpiral_of_get? h.first
    ((get?_splice_before hq (h.first.trans_lt hbetween)).trans ha)
    ((get?_splice_before hq hbetween).trans hb) sampling

/-- The spiral in the place of the second run has the same anchors, which have moved, once the
first run is exchanged. -/
theorem spliceSpiral_second (h : path.Apart start₁ stop₁ start₂ stop₂)
    (ha : path.get? start₂ = some a) (hb : path.get? stop₂ = some b)
    (hq : path.splice start₁ stop₁ segment = .ok q) (sampling : Sampling) :
    q.spliceSpiral (moved start₁ stop₁ segment.length start₂)
        (moved start₁ stop₁ segment.length stop₂) sampling =
      (Spiral.trace ⟨a, b, sampling.spiralPoints, 1.0, sampling.fresnelSteps⟩ >>= fun spiral =>
        q.splice (moved start₁ stop₁ segment.length start₂)
          (moved start₁ stop₁ segment.length stop₂) spiral) := by
  have hbetween := h.between
  have hsecond := h.second
  exact spliceSpiral_of_get? (by simp only [moved]; omega)
    ((get?_splice_behind hq hbetween).trans ha)
    ((get?_splice_behind hq (hbetween.trans_le hsecond)).trans hb) sampling

/-- With spirals, both orders succeed when both spirals can be traced and fail otherwise. -/
theorem spliceSpiral_spliceSpiral (h : path.Apart start₁ stop₁ start₂ stop₂)
    (p₁ p₂ : Sampling) :
    (∃ out, (path.spliceSpiral start₂ stop₂ p₂ >>= fun q => q.spliceSpiral start₁ stop₁ p₁) =
        .ok out ∧
      (path.spliceSpiral start₁ stop₁ p₁ >>= fun q =>
        q.spliceSpiral (moved start₁ stop₁ p₁.spiralPoints start₂)
          (moved start₁ stop₁ p₁.spiralPoints stop₂) p₂) = .ok out) ∨
    (∃ fault, (path.spliceSpiral start₂ stop₂ p₂ >>= fun q => q.spliceSpiral start₁ stop₁ p₁) =
        .error fault) ∧
      ∃ fault, (path.spliceSpiral start₁ stop₁ p₁ >>= fun q =>
        q.spliceSpiral (moved start₁ stop₁ p₁.spiralPoints start₂)
          (moved start₁ stop₁ p₁.spiralPoints stop₂) p₂) = .error fault := by
  obtain ⟨a₁, b₁, ha₁, hb₁⟩ := h.covers_first.exists_ends
  obtain ⟨a₂, b₂, ha₂, hb₂⟩ := h.covers_second.exists_ends
  rw [spliceSpiral_of_get? h.first ha₁ hb₁, spliceSpiral_of_get? h.second ha₂ hb₂]
  cases ht₁ : Spiral.trace ⟨a₁, b₁, p₁.spiralPoints, 1.0, p₁.fresnelSteps⟩ with
  | error fault =>
    refine .inr ⟨?_, fault, rfl⟩
    cases Spiral.trace ⟨a₂, b₂, p₂.spiralPoints, 1.0, p₂.fresnelSteps⟩ with
    | error fault₂ => exact ⟨fault₂, rfl⟩
    | ok r₂ =>
      have hq := splice_of_covers h.covers_second r₂
      refine ⟨fault, ?_⟩
      rw [Except.ok_bind, hq, Except.ok_bind, h.spliceSpiral_first ha₁ hb₁ hq, ht₁,
        Except.error_bind]
  | ok r₁ =>
    have hq₁ := splice_of_covers h.covers_first r₁
    have hlength : r₁.length = p₁.spiralPoints := Spiral.length_of_trace ht₁
    rw [← hlength]
    cases ht₂ : Spiral.trace ⟨a₂, b₂, p₂.spiralPoints, 1.0, p₂.fresnelSteps⟩ with
    | error fault =>
      refine .inr ⟨⟨fault, rfl⟩, fault, ?_⟩
      rw [Except.ok_bind, hq₁, Except.ok_bind, h.spliceSpiral_second ha₂ hb₂ hq₁, ht₂,
        Except.error_bind]
    | ok r₂ =>
      have hq₂ := splice_of_covers h.covers_second r₂
      obtain ⟨out, hout₁, hout₂⟩ := h.splice_splice r₁ r₂
      refine .inl ⟨out, ?_, ?_⟩
      · rw [Except.ok_bind, hq₂, Except.ok_bind, h.spliceSpiral_first ha₁ hb₁ hq₂, ht₁,
          Except.ok_bind, ← hout₁, hq₂, Except.ok_bind]
      · rw [Except.ok_bind, hq₁, Except.ok_bind, h.spliceSpiral_second ha₂ hb₂ hq₁, ht₂,
          Except.ok_bind, ← hout₂, hq₁, Except.ok_bind]

end Apart

/-- Of two runs that lie apart either can be replaced first. With segments both orders give one
path; with spirals they give one path or fail both. The run behind is then found where the other
replacement has moved it to. -/
theorem splice_comm [Scalar α] [Trig α] (h : path.Apart start₁ stop₁ start₂ stop₂) :
    (∀ r₁ r₂ : Segment α, ∃ out,
      (path.splice start₂ stop₂ r₂ >>= fun q => q.splice start₁ stop₁ r₁) = .ok out ∧
      (path.splice start₁ stop₁ r₁ >>= fun q =>
        q.splice (moved start₁ stop₁ r₁.length start₂) (moved start₁ stop₁ r₁.length stop₂) r₂) =
          .ok out) ∧
    ∀ p₁ p₂ : Sampling,
      (∃ out, (path.spliceSpiral start₂ stop₂ p₂ >>= fun q => q.spliceSpiral start₁ stop₁ p₁) =
          .ok out ∧
        (path.spliceSpiral start₁ stop₁ p₁ >>= fun q =>
          q.spliceSpiral (moved start₁ stop₁ p₁.spiralPoints start₂)
            (moved start₁ stop₁ p₁.spiralPoints stop₂) p₂) = .ok out) ∨
      (∃ fault, (path.spliceSpiral start₂ stop₂ p₂ >>= fun q => q.spliceSpiral start₁ stop₁ p₁) =
          .error fault) ∧
        ∃ fault, (path.spliceSpiral start₁ stop₁ p₁ >>= fun q =>
          q.spliceSpiral (moved start₁ stop₁ p₁.spiralPoints start₂)
            (moved start₁ stop₁ p₁.spiralPoints stop₂) p₂) = .error fault :=
  ⟨h.splice_splice, h.spliceSpiral_spliceSpiral⟩

/-- Three points in the place of two move the run behind them by one position. A spiral of one
point is refused, also where it comes second. -/
theorem splice_comm_example :
    Apart (⟨[⟨0, 0⟩, ⟨1, 1⟩, ⟨2, 3⟩, ⟨3, 5⟩, ⟨4, 3⟩, ⟨5, 2⟩, ⟨6, 1⟩]⟩ : Polyline Float) 1 2 4 5 ∧
      splice (⟨[⟨0, 0⟩, ⟨7, 7⟩, ⟨8, 7⟩, ⟨8, 8⟩, ⟨3, 5⟩, ⟨4, 3⟩, ⟨5, 2⟩, ⟨6, 1⟩]⟩ : Polyline Float)
          5 6 ⟨[⟨9, 9⟩], by simp⟩ =
        .ok ⟨[⟨0, 0⟩, ⟨7, 7⟩, ⟨8, 7⟩, ⟨8, 8⟩, ⟨3, 5⟩, ⟨9, 9⟩, ⟨6, 1⟩]⟩ ∧
      ∃ fault, (spliceSpiral (⟨[⟨0, 0⟩, ⟨1, 1⟩, ⟨2, 3⟩, ⟨3, 5⟩, ⟨4, 3⟩, ⟨5, 2⟩, ⟨6, 1⟩]⟩ :
          Polyline Float) 4 5 {} >>= fun q => q.spliceSpiral 1 2 { spiralPoints := 1 }) =
        .error fault := by
  have h : Apart (⟨[⟨0, 0⟩, ⟨1, 1⟩, ⟨2, 3⟩, ⟨3, 5⟩, ⟨4, 3⟩, ⟨5, 2⟩, ⟨6, 1⟩]⟩ : Polyline Float)
      1 2 4 5 := ⟨by decide, by decide, by decide, by decide⟩
  obtain ⟨hsegments, hspirals⟩ := splice_comm h
  refine ⟨h, ?_, ?_⟩
  · obtain ⟨out, hsecond, hfirst⟩ :=
      hsegments ⟨[⟨7, 7⟩, ⟨8, 7⟩, ⟨8, 8⟩], by simp⟩ ⟨[⟨9, 9⟩], by simp⟩
    cases hsecond
    exact hfirst
  · rcases hspirals { spiralPoints := 1 } {} with ⟨out, -, hfirst⟩ | ⟨hfault, -⟩
    · cases hfirst
    · exact hfault

end Polyline

end PathCurves
