/-
How many points a generated curve has: as many as were asked for, and at least two of them
(`Curve.length_of_trace`, `Curve.two_le_samples`). So no generated segment is empty, and whatever
is made from one has points too.

A segment without points is refused where a caller gives the points, and nowhere else. Every other
operation ends with faults of its own; `Fault.Generated` lists them, with one lemma for each
operation. Main statement: `Curve.trace_spec`.
-/
import PathCurves.Proofs.ArcFaults
import PathCurves.Proofs.Editing
import PathCurves.Proofs.Positions
import PathCurves.Proofs.Report
import PathCurves.Proofs.Streaming

namespace PathCurves

/-! ## Segments -/

namespace Segment

variable {α : Type} {points : List (Point α)}

theorem ofPoints_points (s : Segment α) : ofPoints s.points = .ok s :=
  ofPoints_eq_ok_iff.mpr rfl

theorem ofPoints_eq_error_iff {fault : Fault} :
    ofPoints points = .error fault ↔ points = [] ∧ fault = .emptySegment := by
  unfold ofPoints
  split
  · next h => simp [h, eq_comm]
  · next h => simp [h]

theorem getElem?_first (s : Segment α) : s.points[0]? = some s.first := by
  rw [first, ← List.head?_eq_getElem?, List.head?_eq_some_head s.nonempty]

theorem getElem?_last (s : Segment α) : s.points[s.length - 1]? = some s.last := by
  rw [last, length, ← List.getLast?_eq_getElem?, List.getLast?_eq_some_getLast s.nonempty]

end Segment

/-! ## Faults of generated curves -/

/-- The faults that generating curves and putting them into a path can end with. -/
inductive Fault.Generated : Fault → Prop
  | tooFew (count : Count) (given least : ℕ) (h : given < least) :
      Fault.Generated (.tooFew count given least)
  | flatAnchor (axis : Axis) : Fault.Generated (.flatAnchor axis)
  | unboundedRadius : Fault.Generated .unboundedRadius
  | noChord : Fault.Generated .noChord
  | collinear : Fault.Generated .collinear
  | outOfRange (start stop length : ℕ) (h : ¬ (start ≤ stop ∧ stop < length)) :
      Fault.Generated (.outOfRange start stop length)

theorem Fault.Generated.ne_emptySegment {fault : Fault} (h : fault.Generated) :
    fault ≠ .emptySegment := by
  rintro rfl
  cases h

variable {α : Type} [Scalar α] [Trig α] {fault : Fault}

theorem Circle.exists_sample_iff {c : Circle α} {count : ℕ} :
    (∃ s, c.sample count = .ok s) ↔ 2 ≤ count := by
  refine ⟨fun ⟨s, hs⟩ => ?_, fun h => ⟨_, dif_pos h⟩⟩
  by_contra h
  rw [sample, dif_neg h] at hs
  cases hs

theorem Circle.generated_of_sample {c : Circle α} {count : ℕ} (h : c.sample count = .error fault) :
    fault.Generated := by
  unfold sample at h
  split at h
  · cases h
  · next hcount =>
    cases h
    exact .tooFew .samples count 2 (Nat.not_le.mp hcount)

theorem Deltoid.exists_trace_iff {d : Deltoid α} :
    (∃ s, d.trace = .ok s) ↔ 2 ≤ d.samples ∧ Scalar.isFinite d.radius = true := by
  refine ⟨?_, fun ⟨hcount, hradius⟩ => ⟨_, trace_eq_ok_iff.mpr ⟨hcount, hradius, rfl⟩⟩⟩
  rintro ⟨s, hs⟩
  obtain ⟨hcount, hradius, -⟩ := trace_eq_ok_iff.mp hs
  exact ⟨hcount, hradius⟩

theorem Deltoid.generated_of_trace {d : Deltoid α} (h : d.trace = .error fault) :
    fault.Generated := by
  unfold trace at h
  split at h
  · split at h
    · cases h
    · cases h
      exact .unboundedRadius
  · next hcount =>
    cases h
    exact .tooFew .samples d.samples 2 (Nat.not_le.mp hcount)

/-- The two lists of coordinates are as long as the raw spiral, so some points come of them. -/
theorem Spiral.generated_of_trace {s : Spiral α} (h : s.trace = .error fault) :
    fault.Generated := by
  unfold trace at h
  split at h
  · next hsamples =>
    cases h
    exact .tooFew .samples s.samples 2 hsamples
  next hsamples =>
  split at h
  · cases h
    exact .flatAnchor .x
  next hx =>
  split at h
  · cases h
    exact .flatAnchor .y
  next hy =>
  split at h
  · next hsteps =>
    cases h
    exact .tooFew .fresnelSteps s.steps 2 hsteps
  next hsteps =>
  rcases Except.bind_eq_error_iff.mp h with h | ⟨xs, hxs, h⟩
  · obtain rfl := eq_flatAnchor_of_rescale h
    exact .flatAnchor .x
  rcases Except.bind_eq_error_iff.mp h with h | ⟨ys, hys, h⟩
  · obtain rfl := eq_flatAnchor_of_rescale h
    exact .flatAnchor .y
  obtain ⟨segment, hpoints, -⟩ := exists_trace_of_rescale (Nat.not_lt.mp hsamples) hx hy
    (Nat.not_lt.mp hsteps) hxs hys
  rw [hpoints, Segment.ofPoints_points] at h
  cases h

/-! ## Generated curves -/

/-- A curve that can be generated. -/
inductive Curve (α : Type) where
  | circle (c : Circle α) (count : ℕ)
  | deltoid (d : Deltoid α)
  | spiral (s : Spiral α)

namespace Curve

variable {c : Curve α} {s : Segment α}

/-- How many points are asked for. -/
def samples : Curve α → ℕ
  | circle _ count => count
  | deltoid d => d.samples
  | spiral s => s.samples

/-- The points of the curve. -/
def trace : Curve α → Except Fault (Segment α)
  | circle c count => c.sample count
  | deltoid d => d.trace
  | spiral s => s.trace

theorem length_of_trace (h : c.trace = .ok s) : s.length = c.samples := by
  cases c with
  | circle c count => exact Circle.length_of_sample h
  | deltoid d => exact Deltoid.length_of_trace h
  | spiral spiral => exact Spiral.length_of_trace h

theorem two_le_samples (h : c.trace = .ok s) : 2 ≤ c.samples := by
  cases c with
  | circle c count => exact Circle.exists_sample_iff.mp ⟨s, h⟩
  | deltoid d => exact (Deltoid.exists_trace_iff.mp ⟨s, h⟩).1
  | spiral spiral => exact (Spiral.trace_eq_ok_iff.mp h).1

theorem generated_of_trace (h : c.trace = .error fault) : fault.Generated := by
  cases c with
  | circle c count => exact Circle.generated_of_sample h
  | deltoid d => exact Deltoid.generated_of_trace h
  | spiral spiral => exact Spiral.generated_of_trace h

end Curve

/-! ## Curves in paths -/

namespace Polyline

variable {path : Polyline α} {start stop : ℕ} {sampling : Sampling}

omit [Scalar α] [Trig α] in
theorem generated_of_splice {segment : Segment α}
    (h : path.splice start stop segment = .error fault) : fault.Generated := by
  obtain ⟨hrange, rfl⟩ := splice_eq_error_iff.mp h
  exact .outOfRange start stop path.length hrange

theorem generated_of_spliceSpiral (h : path.spliceSpiral start stop sampling = .error fault) :
    fault.Generated := by
  unfold spliceSpiral at h
  split at h
  · rcases Except.bind_eq_error_iff.mp h with h | ⟨spiral, -, h⟩
    · exact Spiral.generated_of_trace h
    · exact generated_of_splice h
  · next hcovers =>
    cases h
    exact .outOfRange start stop path.length hcovers

theorem generated_of_fitArc (h : path.fitArc sampling = .error fault) : fault.Generated := by
  cases fitArc_eq_error_iff.mp h with
  | points hlen => exact .tooFew .pathPoints path.length 3 hlen
  | circle _ hcircle =>
    cases hcircle with
    | noChord => exact .noChord
    | near | parallel => exact .collinear
  | samples _ _ hcount => exact .tooFew .samples sampling.deltoidPoints 2 hcount
  | radius => exact .unboundedRadius

theorem two_le_length_of_fitArc {fit : ArcFit α} (h : path.fitArc sampling = .ok fit) :
    2 ≤ fit.segment.length := by
  obtain ⟨-, -, -, htrace⟩ := fitArc_eq_ok h
  rw [Deltoid.length_of_trace htrace]
  exact (Deltoid.exists_trace_iff.mp ⟨_, htrace⟩).1

end Polyline

/-! ## Texts -/

/-- The faults of texts: of a path's source and of the bounds of a run. -/
inductive Fault.Textual : Fault → Prop
  | malformedLine (number : ℕ) (text : String) : Fault.Textual (.malformedLine number text)
  | invalidIndex (text : String) : Fault.Textual (.invalidIndex text)
  | unreadable (failure : ReadFailure) : Fault.Textual (.unreadable failure)

theorem Fault.Textual.ne_emptySegment {fault : Fault} (h : fault.Textual) :
    fault ≠ .emptySegment := by
  rintro rfl
  cases h

theorem Polyline.LineFault.textual {number : ℕ} {line : List UInt8}
    (h : LineFault number line fault) : fault.Textual := by
  cases h with
  | notUtf8 => exact .unreadable _
  | malformed => exact .malformedLine _ _

theorem Polyline.textual_of_read {source : ByteSource} (h : read source = .error fault) :
    fault.Textual := by
  obtain ⟨chunks, ending⟩ := source
  have hreads := readsAs_read chunks ending
  rw [h] at hreads
  cases hreads with
  | badLine _ _ hfault => exact hfault.textual
  | broken => exact .unreadable _
  | badLastLine _ _ hfault => exact hfault.textual

/-! ## Sessions -/

namespace Draft

variable {draft next : Draft} {e : Edit} {reply : Reply}

theorem withPath_eq_failed {result : Except Fault (Polyline Float)}
    (h : draft.withPath result = .error (.failed fault)) : result = .error fault := by
  cases result with
  | error found =>
    cases h
    rfl
  | ok path => cases h

theorem withSegment_eq_failed {start stop : ℕ} {segment : Except Fault (Segment Float)}
    (h : draft.withSegment start stop segment = .error (.failed fault)) :
    segment = .error fault ∨ fault.Generated := by
  rcases Except.bind_eq_error_iff.mp (withPath_eq_failed h) with h | ⟨s, -, h⟩
  · exact .inl h
  · exact .inr (Polyline.generated_of_splice h)

/-- An edit that fails ends with a fault of its text or its curve, unless it is to put no points
into the path. -/
theorem fault_of_tryEdit (h : draft.tryEdit e = .error (.failed fault)) :
    fault.Generated ∨ fault.Textual ∨ ∃ start stop, e = .splice start stop [] := by
  cases e with
  | replace path => cases h
  | parse text => exact .inr (.inl (Polyline.textual_of_read (withPath_eq_failed h)))
  | get position => cases h
  | splice start stop replacement =>
    rcases withSegment_eq_failed h with hpoints | hsplice
    · obtain ⟨rfl, -⟩ := Segment.ofPoints_eq_error_iff.mp hpoints
      exact .inr (.inr ⟨start, stop, rfl⟩)
    · exact .inl hsplice
  | spliceSpiral start stop spiral =>
    exact .inl ((withSegment_eq_failed h).elim Spiral.generated_of_trace id)
  | spliceDeltoid start stop deltoid =>
    exact .inl ((withSegment_eq_failed h).elim Deltoid.generated_of_trace id)
  | spliceFittedSpiral start stop sampling =>
    exact .inl (Polyline.generated_of_spliceSpiral (withPath_eq_failed h))
  | fit sampling =>
    simp only [tryEdit] at h
    split at h
    · cases h
    · next found hfit =>
      cases h
      exact .inl (Polyline.generated_of_fitArc hfit)
  | fitToPath =>
    simp only [tryEdit] at h
    split at h <;> cases h
  | spliceFit start stop =>
    simp only [tryEdit] at h
    split at h
    · rcases withSegment_eq_failed h with hsegment | hsplice
      · cases hsegment
      · exact .inl hsplice
    · cases h
  | spliceCircle start stop samples =>
    simp only [tryEdit] at h
    split at h
    · exact .inl ((withSegment_eq_failed h).elim Circle.generated_of_sample id)
    · cases h

theorem tryEdit_eq_emptySegment_iff : draft.tryEdit e = .error (.failed .emptySegment) ↔
    ∃ start stop, e = .splice start stop [] := by
  refine ⟨fun h => ?_, ?_⟩
  · obtain h | h | h := fault_of_tryEdit h
    · exact absurd rfl h.ne_emptySegment
    · exact absurd rfl h.ne_emptySegment
    · exact h
  · rintro ⟨start, stop, rfl⟩
    rfl

theorem fit_of_tryEdit (h : draft.tryEdit e = .ok (next, reply)) :
    next.fit = draft.fit ∨
      ∃ sampling fit, draft.path.fitArc sampling = .ok fit ∧ next.fit = some fit := by
  cases e with
  | fit sampling =>
    simp only [tryEdit] at h
    split at h
    · next fit hfit =>
      cases h
      exact .inr ⟨sampling, fit, hfit, rfl⟩
    · cases h
  | replace | get =>
    cases h
    exact .inl rfl
  | parse | splice | spliceSpiral | spliceDeltoid | spliceFittedSpiral =>
    exact .inl (withPath_eq_ok h).2.1
  | fitToPath | spliceFit | spliceCircle =>
    simp only [tryEdit] at h
    split at h
    · exact .inl (withPath_eq_ok h).2.1
    · cases h

/-- The arc that is kept, if there is one, has two points. -/
def KeepsPoints (draft : Draft) : Prop := ∀ fit, draft.fit = some fit → 2 ≤ fit.segment.length

theorem KeepsPoints.edit (h : draft.KeepsPoints) (e : Edit) : (draft.edit e).1.KeepsPoints := by
  cases hdone : draft.tryEdit e with
  | error refusal =>
    rw [edit_of_refused hdone]
    exact h
  | ok done =>
    rw [edit_of_done hdone]
    intro fit hfit
    obtain hsame | ⟨sampling, found, harc, hfound⟩ := fit_of_tryEdit hdone
    · exact h fit (hsame ▸ hfit)
    · obtain rfl : found = fit := Option.some.inj (hfound.symm.trans hfit)
      exact Polyline.two_le_length_of_fitArc harc

theorem KeepsPoints.after (h : draft.KeepsPoints) (edits : List Edit) :
    (draft.after edits).KeepsPoints := by
  induction edits generalizing draft with
  | nil => exact h
  | cons e edits ih =>
    rw [after_cons]
    exact ih (h.edit e)

end Draft

/-! ## Reports -/

theorem Report.ne_emptySegment {origin : Report.Origin} {bounds : List String}
    (h : Report.FirstFault origin bounds fault) : fault ≠ .emptySegment := by
  cases h with
  | path hpath =>
    cases origin with
    | builtIn => cases hpath
    | file source => exact (Polyline.textual_of_read hpath).ne_emptySegment
    | unavailable failure =>
      cases hpath
      nofun
  | bound _ hbound =>
    cases hbound with
    | start hindex | stop _ hindex =>
      rw [Text.parseIndex_eq_error hindex]
      nofun
  | splice _ _ hsplice => exact (Polyline.generated_of_spliceSpiral hsplice).ne_emptySegment
  | fit _ _ _ hfit => exact (Polyline.generated_of_fitArc hfit).ne_emptySegment

/-! ## All of them together -/

/-- Every generated curve has as many points as were asked for, which are two or more; nothing is
assumed of the numbers, so undefined and infinite ones are among them. A circle asks for nothing
else, and a deltoid only for a finite radius. No curve, no path it is put into, no arc of a path
and no report ends for want of points, and an edit does only if it is to put none into the path.
So the arc that a session keeps has points all the time. The first point of a segment stands at
the front of its points and the last one at their end. -/
theorem Curve.trace_spec (α : Type) [Scalar α] [Trig α] :
    (∀ (c : Circle α) count, (∃ s, c.sample count = .ok s) ↔ 2 ≤ count) ∧
    (∀ d : Deltoid α,
      (∃ s, d.trace = .ok s) ↔ 2 ≤ d.samples ∧ Scalar.isFinite d.radius = true) ∧
    (∀ (c : Curve α) s, c.trace = .ok s → s.length = c.samples ∧ 2 ≤ c.samples) ∧
    (∀ c : Curve α, c.trace ≠ .error .emptySegment) ∧
    (∀ (path : Polyline α) start stop s, path.splice start stop s ≠ .error .emptySegment) ∧
    (∀ (path : Polyline α) start stop sampling,
      path.spliceSpiral start stop sampling ≠ .error .emptySegment) ∧
    (∀ (path : Polyline α) sampling, path.fitArc sampling ≠ .error .emptySegment) ∧
    (∀ origin bounds written,
      (Report.report origin bounds).run #[] ≠ .error .emptySegment written) ∧
    (∀ (draft : Draft) e, draft.tryEdit e = .error (.failed .emptySegment) ↔
      ∃ start stop, e = .splice start stop []) ∧
    (∀ edits fit, (Draft.after {} edits).fit = some fit → 2 ≤ fit.segment.length) ∧
    (∀ points : List (Point α), Segment.ofPoints points = .error .emptySegment ↔ points = []) ∧
    ∀ s : Segment α, Segment.ofPoints s.points = .ok s ∧ 0 < s.length ∧
      s.points[0]? = some s.first ∧ s.points[s.length - 1]? = some s.last := by
  refine ⟨fun _ _ => Circle.exists_sample_iff, fun _ => Deltoid.exists_trace_iff,
    fun _ _ h => ⟨length_of_trace h, two_le_samples h⟩,
    fun _ h => (generated_of_trace h).ne_emptySegment rfl,
    fun _ _ _ _ h => (Polyline.generated_of_splice h).ne_emptySegment rfl,
    fun _ _ _ _ h => (Polyline.generated_of_spliceSpiral h).ne_emptySegment rfl,
    fun _ _ h => (Polyline.generated_of_fitArc h).ne_emptySegment rfl,
    fun _ _ _ h => Report.ne_emptySegment (Report.report_eq_error_iff.mp h).1 rfl,
    fun _ _ => Draft.tryEdit_eq_emptySegment_iff, fun edits => ?_, fun points => ?_,
    fun s => ⟨s.ofPoints_points, s.length_pos, s.getElem?_first, s.getElem?_last⟩⟩
  · have hnone : Draft.KeepsPoints {} := nofun
    exact hnone.after edits
  · rw [Segment.ofPoints_eq_error_iff, and_iff_left rfl]

end PathCurves
