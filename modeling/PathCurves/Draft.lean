/-
Editing sessions. A draft is the path that is being edited together with the arc that was
fitted last; an edit either succeeds and says what it found, or is refused and changes
nothing (`edit_of_refused`). An edit that gives a new path keeps the arc (`withPath_eq_ok`).
-/
import PathCurves.Polyline.Fit
import PathCurves.Polyline.Reader
import PathCurves.Scalar.Double

namespace PathCurves

/-- A path under edit, and the arc that was fitted last. -/
structure Draft where
  path : Polyline Float := {}
  fit : Option (ArcFit Float) := none
deriving DecidableEq, Repr

/-- What can be done to a draft. -/
inductive Edit where
  | replace (path : Polyline Float)
  | parse (text : String)
  | get (position : Nat)
  | splice (start stop : Nat) (replacement : List (Point Float))
  | spliceSpiral (start stop : Nat) (spiral : Spiral Float)
  | spliceDeltoid (start stop : Nat) (deltoid : Deltoid Float)
  /-- Replaces a run of points by the spiral between its own ends. -/
  | spliceFittedSpiral (start stop : Nat) (sampling : Sampling)
  | fit (sampling : Sampling)
  /-- Starts over with the points of the arc that is kept. -/
  | fitToPath
  | spliceFit (start stop : Nat)
  /-- Replaces a run of points by the circle of the arc that is kept. -/
  | spliceCircle (start stop samples : Nat)
deriving DecidableEq, Repr

/-- What an edit answers when it succeeds. -/
inductive Reply where
  | done
  | point (found : Option (Point Float))
  | fitted (fit : ArcFit Float)
deriving DecidableEq, Repr

/-- Why an edit is refused: no arc is kept, or the operation failed. -/
inductive Refusal where
  | noFit
  | failed (fault : Fault)
deriving DecidableEq, Repr

namespace Draft

/-- The draft after an operation that gives a new path. -/
def withPath (draft : Draft) : Except Fault (Polyline Float) → Except Refusal (Draft × Reply)
  | .ok path => .ok ({ draft with path }, .done)
  | .error fault => .error (.failed fault)

/-- The draft after a run of points is replaced by a segment, if there is one. -/
def withSegment (draft : Draft) (start stop : Nat) (segment : Except Fault (Segment Float)) :
    Except Refusal (Draft × Reply) :=
  draft.withPath (segment.bind fun segment => draft.path.splice start stop segment)

theorem withPath_eq_ok {draft after : Draft} {result : Except Fault (Polyline Float)}
    {reply : Reply} (h : draft.withPath result = .ok (after, reply)) :
    result = .ok after.path ∧ after.fit = draft.fit ∧ reply = .done := by
  cases result with
  | error fault => cases h
  | ok path =>
    cases h
    exact ⟨rfl, rfl, rfl⟩

theorem withSegment_eq_ok {draft after : Draft} {start stop : Nat}
    {segment : Except Fault (Segment Float)} {reply : Reply}
    (h : draft.withSegment start stop segment = .ok (after, reply)) :
    ∃ s, segment = .ok s ∧ draft.path.splice start stop s = .ok after.path := by
  cases segment with
  | error fault => cases h
  | ok s => exact ⟨s, rfl, (withPath_eq_ok h).1⟩

/-- The draft after an edit and the edit's answer. -/
def tryEdit (draft : Draft) : Edit → Except Refusal (Draft × Reply)
  | .replace path => draft.withPath (.ok path)
  | .parse text => draft.withPath (Polyline.parse text)
  | .get position => .ok (draft, .point (draft.path.get? position))
  | .splice start stop replacement => draft.withSegment start stop (Segment.ofPoints replacement)
  | .spliceSpiral start stop spiral => draft.withSegment start stop spiral.trace
  | .spliceDeltoid start stop deltoid => draft.withSegment start stop deltoid.trace
  | .spliceFittedSpiral start stop sampling =>
    draft.withPath (draft.path.spliceSpiral start stop sampling)
  | .fit sampling =>
    match draft.path.fitArc sampling with
    | .ok fit => .ok ({ draft with fit := some fit }, .fitted fit)
    | .error fault => .error (.failed fault)
  | .fitToPath =>
    match draft.fit with
    | some fit => draft.withPath (.ok fit.segment.toPolyline)
    | none => .error .noFit
  | .spliceFit start stop =>
    match draft.fit with
    | some fit => draft.withSegment start stop (.ok fit.segment)
    | none => .error .noFit
  | .spliceCircle start stop samples =>
    match draft.fit with
    | some fit => draft.withSegment start stop (fit.circle.sample samples)
    | none => .error .noFit

/-- The draft after an edit, which is the draft before it if the edit is refused, and what
the edit answers. -/
def edit (draft : Draft) (e : Edit) : Draft × Except Refusal Reply :=
  match draft.tryEdit e with
  | .ok (after, reply) => (after, .ok reply)
  | .error refusal => (draft, .error refusal)

theorem edit_of_refused {draft : Draft} {e : Edit} {refusal : Refusal}
    (h : draft.tryEdit e = .error refusal) : draft.edit e = (draft, .error refusal) := by
  rw [edit, h]

theorem edit_of_done {draft after : Draft} {e : Edit} {reply : Reply}
    (h : draft.tryEdit e = .ok (after, reply)) : draft.edit e = (after, .ok reply) := by
  rw [edit, h]

/-- The drafts after each of a row of edits, with the answers. -/
def run (draft : Draft) : List Edit → List (Draft × Except Refusal Reply)
  | [] => []
  | e :: edits =>
    let (after, answer) := draft.edit e
    (after, answer) :: after.run edits

end Draft

end PathCurves
