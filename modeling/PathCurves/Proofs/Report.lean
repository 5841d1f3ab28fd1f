/-
The report is written as a whole or not at all. Main statement: `report_spec`, a report that
stops at a fault stops at the first one there is and has written nothing, and every other
report consists of its three blocks.
-/
import PathCurves.Proofs.RoundTrip
import PathCurves.Report

namespace PathCurves.Report

open Text

/-! ## What a report is made from -/

/-- The bounds of the run to replace: the two that are given, or without two of them all but the
first two points and the last. -/
inductive Range : List String → ℕ → ℕ → ℕ → Prop
  | given {first second rest length start stop} (hstart : parseIndex first = .ok start)
      (hstop : parseIndex second = .ok stop) : Range (first :: second :: rest) length start stop
  | standard {bounds length} (h : bounds.length < 2) : Range bounds length 2 (length - 2)

/-- The fault of bounds: that of the first one, or that of the second one if the first one has
none. Bounds that are not two are not looked at. -/
inductive BoundFault : List String → Fault → Prop
  | start {first second rest fault} (h : parseIndex first = .error fault) :
      BoundFault (first :: second :: rest) fault
  | stop {first second rest start fault} (hstart : parseIndex first = .ok start)
      (h : parseIndex second = .error fault) : BoundFault (first :: second :: rest) fault

/-- The first fault on the way to a report, where everything before it succeeds. The arc is
fitted to the path as it is read. -/
inductive FirstFault (origin : Origin) (bounds : List String) : Fault → Prop
  | path {fault} (h : origin.path = .error fault) : FirstFault origin bounds fault
  | bound {path fault} (hpath : origin.path = .ok path) (h : BoundFault bounds fault) :
      FirstFault origin bounds fault
  | splice {path start stop fault} (hpath : origin.path = .ok path)
      (hrange : Range bounds path.length start stop)
      (h : path.spliceSpiral start stop {} = .error fault) : FirstFault origin bounds fault
  | fit {path start stop spliced fault} (hpath : origin.path = .ok path)
      (hrange : Range bounds path.length start stop)
      (hspliced : path.spliceSpiral start stop {} = .ok spliced)
      (h : path.fitArc {} = .error fault) : FirstFault origin bounds fault

/-- The points of the three blocks: the path with the spiral, the arc, and the circle in a
hundred points. -/
inductive Blocks (origin : Origin) (bounds : List String) :
    List (Point Float) → List (Point Float) → List (Point Float) → Prop
  | mk {path start stop spliced fit circle} (hpath : origin.path = .ok path)
      (hrange : Range bounds path.length start stop)
      (hspliced : path.spliceSpiral start stop {} = .ok spliced)
      (hfit : path.fitArc {} = .ok fit) (hcircle : fit.circle.sample 100 = .ok circle) :
      Blocks origin bounds spliced.points fit.segment.points circle.points

/-- Points that are written as one block: there are some, and no line of them is blank or goes
on in the next line. -/
def IsBlock (points : List (Point Float)) : Prop :=
  points ≠ [] ∧ ∀ line ∈ Point.lines points, ¬ Blank line.toList ∧ '\n' ∉ line.toList

/-! ## Bounds -/

theorem range_of_lt {bounds : List String} (h : bounds.length < 2) (length : ℕ) :
    range bounds length = .ok (2, length - 2) := by
  match bounds with
  | [] => rfl
  | [_] => rfl
  | _ :: _ :: rest => simp at h

theorem exists_two {bounds : List String} (h : ¬ bounds.length < 2) :
    ∃ first second rest, bounds = first :: second :: rest := by
  match bounds with
  | [] => simp at h
  | [_] => simp at h
  | first :: second :: rest => exact ⟨first, second, rest, rfl⟩

theorem range_eq_ok_iff {bounds : List String} {length start stop : ℕ} :
    range bounds length = .ok (start, stop) ↔ Range bounds length start stop := by
  refine ⟨?_, ?_⟩
  · intro h
    by_cases hlt : bounds.length < 2
    · rw [range_of_lt hlt] at h
      cases h
      exact .standard hlt
    · obtain ⟨first, second, rest, rfl⟩ := exists_two hlt
      obtain ⟨a, ha, h⟩ := Except.bind_eq_ok_iff.mp h
      obtain ⟨b, hb, h⟩ := Except.bind_eq_ok_iff.mp h
      cases h
      exact .given ha hb
  · intro h
    cases h with
    | given hstart hstop => rw [range, hstart, hstop]; rfl
    | standard hlt => exact range_of_lt hlt length

theorem range_eq_error_iff {bounds : List String} {length : ℕ} {fault : Fault} :
    range bounds length = .error fault ↔ BoundFault bounds fault := by
  refine ⟨?_, ?_⟩
  · intro h
    by_cases hlt : bounds.length < 2
    · rw [range_of_lt hlt] at h
      cases h
    · obtain ⟨first, second, rest, rfl⟩ := exists_two hlt
      rcases Except.bind_eq_error_iff.mp h with h | ⟨start, hstart, h⟩
      · exact .start h
      · rcases Except.bind_eq_error_iff.mp h with h | ⟨stop, _, h⟩
        · exact .stop hstart h
        · cases h
  · intro h
    cases h with
    | start h => rw [range, h]; rfl
    | stop hstart h => rw [range, hstart, h]; rfl

/-! ## Writing -/

variable {α β : Type} {x : Except Fault α} {f : α → Writer β} {written after : Array String}

@[simp] theorem run_attempt_ok_bind (a : α) :
    (attempt (.ok a) >>= f).run written = (f a).run written := rfl

@[simp] theorem run_attempt_error_bind (fault : Fault) :
    (attempt (.error fault) >>= f).run written = .error fault written := rfl

theorem run_attempt_bind_eq_ok_iff {b : β} : (attempt x >>= f).run written = .ok b after ↔
    ∃ a, x = .ok a ∧ (f a).run written = .ok b after := by
  cases x with
  | error fault => rw [run_attempt_error_bind]; simp
  | ok a => rw [run_attempt_ok_bind]; simp

/-- A program that begins with an operation stops at the fault of the operation, and has written
nothing then, or at a fault after it. -/
theorem run_attempt_bind_eq_error_iff {fault : Fault} :
    (attempt x >>= f).run written = .error fault after ↔
      (x = .error fault ∧ after = written) ∨
        ∃ a, x = .ok a ∧ (f a).run written = .error fault after := by
  cases x with
  | error found => rw [run_attempt_error_bind]; simp [eq_comm]
  | ok a => rw [run_attempt_ok_bind]; simp

theorem run_writePoints (points : List (Point Float)) (written : Array String) :
    (writePoints points).run written = .ok () (written ++ Point.lines points) := by
  induction points generalizing written with
  | nil => simp [writePoints, Point.lines]
  | cons p points ih =>
    have hstep : (writePoints (p :: points)).run written =
        (writePoints points).run (written.push p.line) := rfl
    rw [hstep, ih]
    simp [Point.lines]

theorem run_writePoints_bind (points : List (Point Float)) (f : Unit → Writer β) :
    (writePoints points >>= f).run written = (f ()).run (written ++ Point.lines points) := by
  rw [EStateM.run_bind, run_writePoints]

theorem run_writeLine_bind (line : String) (f : Unit → Writer β) :
    (writeLine line >>= f).run written = (f ()).run (written.push line) := rfl

theorem sample_circlePoints (c : Circle Float) :
    ∃ circle, c.sample circlePoints = .ok circle ∧ circle.length = 100 :=
  ⟨_, dif_pos (by decide), Segment.length_sampled _ _ _ _ _⟩

/-- Once the first line is written, the report is written as a whole. -/
theorem run_writeBlocks (spliced : Polyline Float) (fit : ArcFit Float) :
    ∃ circle, fit.circle.sample circlePoints = .ok circle ∧ circle.length = 100 ∧
      (writeBlocks spliced fit).run #[] = .ok () (Point.lines spliced.points ++
        "" :: Point.lines fit.segment.points ++ "" :: Point.lines circle.points).toArray := by
  obtain ⟨circle, hcircle, hlength⟩ := sample_circlePoints fit.circle
  refine ⟨circle, hcircle, hlength, ?_⟩
  rw [writeBlocks, run_writePoints_bind, run_writeLine_bind, run_writePoints_bind,
    run_writeLine_bind, hcircle, run_attempt_ok_bind, run_writePoints]
  simp

/-! ## The report -/

variable {origin : Origin} {bounds : List String} {fault : Fault}

theorem report_eq_error_iff : (report origin bounds).run #[] = .error fault written ↔
    FirstFault origin bounds fault ∧ written = #[] := by
  refine ⟨?_, ?_⟩
  · intro h
    rcases run_attempt_bind_eq_error_iff.mp h with ⟨h, hw⟩ | ⟨path, hpath, h⟩
    · exact ⟨.path h, hw⟩
    rcases run_attempt_bind_eq_error_iff.mp h with ⟨h, hw⟩ | ⟨⟨start, stop⟩, hrange, h⟩
    · exact ⟨.bound hpath (range_eq_error_iff.mp h), hw⟩
    have hrange := range_eq_ok_iff.mp hrange
    rcases run_attempt_bind_eq_error_iff.mp h with ⟨h, hw⟩ | ⟨spliced, hspliced, h⟩
    · exact ⟨.splice hpath hrange h, hw⟩
    rcases run_attempt_bind_eq_error_iff.mp h with ⟨h, hw⟩ | ⟨fit, hfit, h⟩
    · exact ⟨.fit hpath hrange hspliced h, hw⟩
    · obtain ⟨circle, -, -, hrun⟩ := run_writeBlocks spliced fit
      rw [hrun] at h
      cases h
  · intro h
    obtain ⟨h, rfl⟩ := h
    cases h with
    | path h => rw [report, h, run_attempt_error_bind]
    | bound hpath h =>
      rw [report, hpath, run_attempt_ok_bind, range_eq_error_iff.mpr h, run_attempt_error_bind]
    | splice hpath hrange h =>
      rw [report, hpath, run_attempt_ok_bind, range_eq_ok_iff.mpr hrange, run_attempt_ok_bind]
      dsimp only
      rw [h, run_attempt_error_bind]
    | fit hpath hrange hspliced h =>
      rw [report, hpath, run_attempt_ok_bind, range_eq_ok_iff.mpr hrange, run_attempt_ok_bind]
      dsimp only
      rw [hspliced, run_attempt_ok_bind, h, run_attempt_error_bind]

theorem isBlock_iff {points : List (Point Float)} : IsBlock points ↔ points ≠ [] := by
  refine ⟨fun h => h.1, fun h => ⟨h, fun line hline => ?_⟩⟩
  obtain ⟨p, -, rfl⟩ := List.mem_map.mp hline
  refine ⟨fun hblank => ?_, p.not_mem_line rfl (by decide)⟩
  obtain ⟨hne, hword⟩ := Point.isWord_ofDouble p.x
  obtain ⟨c, hc⟩ := List.exists_mem_of_ne_nil _ hne
  have hmem : c ∈ p.line.toList := by
    rw [Point.toList_line]
    exact List.mem_append_left _ hc
  have hfalse := hblank c hmem
  rw [hword c hc] at hfalse
  cases hfalse

theorem Blocks.isBlock {spliced arc circle : List (Point Float)}
    (h : Blocks origin bounds spliced arc circle) :
    IsBlock spliced ∧ IsBlock arc ∧ IsBlock circle ∧ circle.length = 100 := by
  cases h with
  | @mk path start stop spliced fit circle hpath hrange hspliced hfit hcircle =>
    obtain ⟨_, _, _, spiral, -, hpoints⟩ := Polyline.spliceSpiral_eq_ok hspliced
    have hne : spliced.points ≠ [] := by
      rw [hpoints]
      simp [spiral.nonempty]
    obtain ⟨found, hfound, hlength⟩ := sample_circlePoints fit.circle
    cases hfound.symm.trans hcircle
    exact ⟨isBlock_iff.mpr hne, isBlock_iff.mpr fit.segment.nonempty,
      isBlock_iff.mpr circle.nonempty, hlength⟩

theorem report_eq_ok_iff : (report origin bounds).run #[] = .ok () written ↔
    ∃ spliced arc circle, Blocks origin bounds spliced arc circle ∧
      written = (Point.lines spliced ++ "" :: Point.lines arc ++ "" :: Point.lines circle).toArray := by
  refine ⟨?_, ?_⟩
  · intro h
    obtain ⟨path, hpath, h⟩ := run_attempt_bind_eq_ok_iff.mp h
    obtain ⟨⟨start, stop⟩, hrange, h⟩ := run_attempt_bind_eq_ok_iff.mp h
    obtain ⟨spliced, hspliced, h⟩ := run_attempt_bind_eq_ok_iff.mp h
    obtain ⟨fit, hfit, h⟩ := run_attempt_bind_eq_ok_iff.mp h
    obtain ⟨circle, hcircle, -, hrun⟩ := run_writeBlocks spliced fit
    rw [hrun] at h
    cases h
    exact ⟨_, _, _, .mk hpath (range_eq_ok_iff.mp hrange) hspliced hfit hcircle, rfl⟩
  · intro h
    obtain ⟨_, _, _, hblocks, rfl⟩ := h
    cases hblocks with
    | @mk path start stop spliced fit circle hpath hrange hspliced hfit hcircle =>
      obtain ⟨found, hfound, -, hrun⟩ := run_writeBlocks spliced fit
      cases hfound.symm.trans hcircle
      rw [report, hpath, run_attempt_ok_bind, range_eq_ok_iff.mpr hrange, run_attempt_ok_bind]
      dsimp only
      rw [hspliced, run_attempt_ok_bind, hfit, run_attempt_ok_bind, hrun]

/-- A report that stops at a fault stops at the first fault there is and has written nothing;
every other report consists of its three blocks with one empty line between one and the next.
The program says which of the two it was. -/
theorem report_spec (origin : Origin) (bounds : List String) :
    (∀ fault written, (report origin bounds).run #[] = .error fault written ↔
      FirstFault origin bounds fault ∧ written = #[]) ∧
    (∀ written, (report origin bounds).run #[] = .ok () written ↔
      ∃ spliced arc circle, Blocks origin bounds spliced arc circle ∧
        IsBlock spliced ∧ IsBlock arc ∧ IsBlock circle ∧ circle.length = 100 ∧
        written =
          (Point.lines spliced ++ "" :: Point.lines arc ++ "" :: Point.lines circle).toArray) ∧
    ((∃ fault, FirstFault origin bounds fault ∧
        run origin bounds = ⟨1, [], some s!"Error: {fault.inspect}"⟩) ∨
      ∃ spliced arc circle, Blocks origin bounds spliced arc circle ∧
        run origin bounds =
          ⟨0, Point.lines spliced ++ "" :: Point.lines arc ++ "" :: Point.lines circle, none⟩) := by
  refine ⟨fun _ _ => report_eq_error_iff, fun written => ?_, ?_⟩
  · rw [report_eq_ok_iff]
    refine ⟨?_, ?_⟩
    · intro h
      obtain ⟨spliced, arc, circle, hblocks, hwritten⟩ := h
      obtain ⟨hspliced, harc, hcircle, hlength⟩ := hblocks.isBlock
      exact ⟨spliced, arc, circle, hblocks, hspliced, harc, hcircle, hlength, hwritten⟩
    · intro h
      obtain ⟨spliced, arc, circle, hblocks, -, -, -, -, hwritten⟩ := h
      exact ⟨spliced, arc, circle, hblocks, hwritten⟩
  · cases hrun : (report origin bounds).run #[] with
    | ok _ written =>
      obtain ⟨spliced, arc, circle, hblocks, hwritten⟩ := report_eq_ok_iff.mp hrun
      exact .inr ⟨spliced, arc, circle, hblocks, by rw [run, hrun, hwritten]⟩
    | error fault written =>
      obtain ⟨hfirst, hwritten⟩ := report_eq_error_iff.mp hrun
      exact .inl ⟨fault, hfirst, by rw [run, hrun, hwritten]⟩

end PathCurves.Report
