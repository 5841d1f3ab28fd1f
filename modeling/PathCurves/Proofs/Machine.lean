/-
The operations of the library on a machine whose words have 64 bits and whose lists have fewer than
`2 ^ 63` entries. Differences and sums of words, positions in lists and cuts of lists are partial
there: a run that asks for one that does not exist stops out of range. A run that asks for a longer
list than there can be stops out of memory.

Every operation is written once more with the partial steps it takes, in their order. It agrees with
the operation of the library (`agrees_of_length_lt`): the guards before each step see to it that no
run is ever out of range, for counts and positions of any size and for numbers of any kind.
-/
import PathCurves.Proofs.ArcFaults
import PathCurves.Scalar.Double

namespace PathCurves.Machine

/-! ## Runs -/

/-- Why a run stops without a result. -/
inductive Stop where
  /-- A difference is negative, a sum is no word, or a list does not reach to a position. -/
  | outOfRange
  | outOfMemory
deriving DecidableEq, Repr

/-- A run that gives a result or fails, unless it stops. -/
abbrev Run (β : Type) : Type := ExceptT Fault (Except Stop) β

/-- How many words there are. -/
def words : Nat := UInt64.size

/-- What the length of every list lies below. -/
def room : Nat := words / 2

theorem room_add_room : room + room = words := rfl

example : words = 2 ^ 64 ∧ room = 2 ^ 63 := ⟨rfl, rfl⟩

variable {β γ : Type}

/-- A run that stops. -/
def stop (why : Stop) : Run β := ExceptT.mk (.error why)

/-- A run that takes no partial step. -/
def ofResult (result : Except Fault β) : Run β := ExceptT.mk (.ok result)

/-- The difference of two words. -/
def sub (a b : Nat) : Run Nat := if b ≤ a then pure (a - b) else stop .outOfRange

/-- The sum of two words. -/
def add (a b : Nat) : Run Nat := if a + b < words then pure (a + b) else stop .outOfRange

/-- The entry at a position. -/
def entry (list : List β) (position : Nat) : Run β :=
  match list[position]? with
  | some b => pure b
  | none => stop .outOfRange

/-- The entry at a position that is neither the first nor the last one. -/
def innerEntry (list : List β) (position : Nat) : Run β :=
  if 0 < position ∧ position < list.length - 1 then entry list position else stop .outOfRange

/-- The entries before a position. -/
def before (list : List β) (position : Nat) : Run (List β) :=
  if position ≤ list.length then pure (list.take position) else stop .outOfRange

/-- The entries from a position on. -/
def behind (list : List β) (position : Nat) : Run (List β) :=
  if position ≤ list.length then pure (list.drop position) else stop .outOfRange

/-- Makes room for a list. -/
def reserve (length : Nat) : Run Unit := if length < room then pure () else stop .outOfMemory

/-- Fails where a count lies below the least one that makes sense. -/
def require (count : Count) (given least : Nat) : Run Unit :=
  if given < least then ofResult (.error (.tooFew count given least)) else pure ()

theorem sub_eq {a b : Nat} (h : b ≤ a) : sub a b = pure (a - b) := if_pos h

theorem add_eq {a b : Nat} (h : a + b < words) : add a b = pure (a + b) := if_pos h

theorem entry_eq {list : List β} {position : Nat} {b : β} (h : list[position]? = some b) :
    entry list position = pure b := by
  rw [entry, h]

theorem innerEntry_eq {list : List β} {position : Nat} {b : β} (hpos : 0 < position)
    (hlt : position < list.length - 1) (h : list[position]? = some b) :
    innerEntry list position = pure b := by
  rw [innerEntry, if_pos ⟨hpos, hlt⟩, entry_eq h]

theorem before_eq {list : List β} {position : Nat} (h : position ≤ list.length) :
    before list position = pure (list.take position) := if_pos h

theorem behind_eq {list : List β} {position : Nat} (h : position ≤ list.length) :
    behind list position = pure (list.drop position) := if_pos h

theorem reserve_eq {length : Nat} (h : length < room) : reserve length = pure () := if_pos h

theorem require_eq {count : Count} {given least : Nat} (h : least ≤ given) :
    require count given least = pure () := if_neg (Nat.not_lt.mpr h)

theorem require_of_lt {count : Count} {given least : Nat} (h : given < least) :
    require count given least = ofResult (.error (.tooFew count given least)) := if_pos h

theorem mapM_of_forall {list : List β} {f : β → Run γ} {g : β → γ}
    (h : ∀ b ∈ list, f b = pure (g b)) : list.mapM f = pure (list.map g) := by
  induction list with
  | nil => rfl
  | cons b list ih =>
    rw [List.mapM_cons, h b List.mem_cons_self, pure_bind,
      ih fun c hc => h c (List.mem_cons_of_mem _ hc), pure_bind, List.map_cons]

/-! ## Agreement -/

/-- A run agrees with a result if it gives it, where that fits into the memory, or fails with the
same fault. What does not fit may run out of memory instead; no run that agrees with a result is
out of range. -/
inductive Agrees (fits : Prop) : Except Fault β → Run β → Prop
  | gives {b : β} (h : fits) : Agrees fits (.ok b) (pure b)
  | fails {fault : Fault} : Agrees fits (.error fault) (ofResult (.error fault))
  | exhausts {result : Except Fault β} (h : ¬ fits) : Agrees fits result (stop .outOfMemory)

namespace Agrees

variable {fits wider : Prop} {run : Run β} {result : Except Fault β}

theorem ofResult (h : fits) (result : Except Fault β) : Agrees fits result (ofResult result) := by
  cases result with
  | error fault => exact .fails
  | ok b => exact .gives h

theorem eq_ofResult (h : Agrees fits result run) (hfits : fits) : run = Machine.ofResult result := by
  cases h with
  | gives => rfl
  | fails => rfl
  | exhausts h => exact absurd hfits h

theorem ne_outOfRange (h : Agrees fits result run) : run ≠ stop .outOfRange := by
  intro hrun
  cases h with
  | gives => cases hrun
  | fails => cases hrun
  | exhausts => cases hrun

/-- Two runs in a row agree with two operations in a row. The second run only takes place where
the result of the first one fits. -/
theorem bind {next : β → Run γ} {further : β → Except Fault γ} (h : Agrees wider result run)
    (hwider : fits → wider)
    (hnext : wider → ∀ b, result = .ok b → Agrees fits (further b) (next b)) :
    Agrees fits (result >>= further) (run >>= next) := by
  cases h with
  | gives h => exact hnext h _ rfl
  | fails => exact .fails
  | exhausts h => exact .exhausts (mt hwider h)

end Agrees

section

variable {α : Type} [Scalar α]

/-! ## Spacing and sums -/

/-- Evenly spaced numbers: the last position is looked for anew at each of them. -/
def spacing (start stop : α) (count : Nat) : Run (List α) := do
  let step ← if 1 < count then do
      let gaps ← sub count 1
      pure ((stop - start) / (gaps : α))
    else pure 0.0
  (List.range count).mapM fun i =>
    if 1 < count then do
      let last ← sub count 1
      pure (if i = last then stop else start + step * (i : α))
    else pure (start + step * (i : α))

theorem spacing_eq (start stop : α) (count : Nat) :
    spacing start stop count = pure (spaced start stop count) := by
  unfold spacing
  by_cases h : 1 < count
  · rw [if_pos h, sub_eq (Nat.le_of_lt h), pure_bind, pure_bind]
    apply mapM_of_forall
    intro i _
    rw [if_pos h, pure_bind, stride, if_pos h]
    simp only [h, true_and]
  · rw [if_neg h, pure_bind]
    apply mapM_of_forall
    intro i _
    rw [if_neg h, stride, if_neg h]
    simp only [h, false_and, if_false]

/-- The samples of a curve at evenly spaced parameters. -/
def curve (f : α → Point α) (start stop : α) (count : Nat) : Run (Segment α) := do
  reserve count
  let parameters ← spacing start stop count
  ofResult (Segment.ofPoints (parameters.map f))

theorem agrees_curve (f : α → Point α) (start stop : α) {count : Nat} (h : 2 ≤ count) :
    Agrees (count < room) (.ok (.sampled f start stop count h)) (curve f start stop count) := by
  have hpoints : Segment.ofPoints ((spaced start stop count).map f) =
      .ok (.sampled f start stop count h) := Segment.ofPoints_eq_ok_iff.mpr rfl
  unfold curve
  by_cases hroom : count < room
  · rw [reserve_eq hroom, pure_bind, spacing_eq, pure_bind, hpoints]
    exact .gives hroom
  · rw [reserve, if_neg hroom]
    exact .exhausts hroom

variable [Trig α]

/-- The two Fresnel sums. -/
def fresnel (t : α) (steps : Nat) : Run (α × α) := do
  require .fresnelSteps steps 2
  let gaps ← sub steps 1
  let width := t / (gaps : α)
  let positions ← spacing 0.0 t steps
  let phases := positions.map Fresnel.phase
  pure (Fresnel.total Trig.cos phases * width, Fresnel.total Trig.sin phases * width)

theorem fresnel_eq (t : α) (steps : Nat) :
    fresnel t steps = ofResult (Fresnel.integrals t steps) := by
  unfold fresnel Fresnel.integrals
  by_cases h : steps < 2
  · rw [require_of_lt h, if_pos h]
    rfl
  · have hle : 2 ≤ steps := Nat.not_lt.mp h
    rw [require_eq hle, if_neg h, pure_bind, sub_eq (by omega), pure_bind, spacing_eq, pure_bind]
    rfl

/-! ## Curves -/

/-- The samples of a circle. -/
def circle (c : Circle α) (count : Nat) : Run (Segment α) := do
  require .samples count 2
  curve c.pointAt 0.0 (2.0 * Scalar.pi) count

theorem agrees_circle (c : Circle α) (count : Nat) :
    Agrees (count < room) (c.sample count) (circle c count) := by
  unfold circle Circle.sample
  by_cases h : 2 ≤ count
  · rw [require_eq h, pure_bind, dif_pos h]
    exact agrees_curve _ _ _ h
  · rw [require_of_lt (Nat.not_le.mp h), dif_neg h]
    exact .fails

/-- The samples of a deltoid. -/
def deltoid (d : Deltoid α) : Run (Segment α) := do
  require .samples d.samples 2
  if Scalar.isFinite d.radius then
    curve d.pointAt d.sweep.radians.1 d.sweep.radians.2 d.samples
  else ofResult (.error .unboundedRadius)

theorem agrees_deltoid (d : Deltoid α) : Agrees (d.samples < room) d.trace (deltoid d) := by
  unfold deltoid Deltoid.trace
  by_cases h : 2 ≤ d.samples
  · rw [require_eq h, pure_bind, dif_pos h]
    by_cases hfinite : Scalar.isFinite d.radius = true
    · rw [if_pos hfinite, if_pos hfinite]
      exact agrees_curve _ _ _ h
    · rw [if_neg hfinite, if_neg hfinite]
      exact .fails
  · rw [require_of_lt (Nat.not_le.mp h), dif_neg h]
    exact .fails

/-- A sample of a spiral before it is stretched, with Fresnel sums of its own. -/
def rawPoint (s : Spiral α) (t : α) : Run (Point α) := do
  let sums ← fresnel (s.rate * t) s.steps
  let scale := Scalar.sqrt (Scalar.pi / 2.0 : α)
  pure ⟨sums.1 * scale, sums.2 * scale⟩

/-- The samples of a spiral. -/
def spiral (s : Spiral α) : Run (Segment α) := do
  require .samples s.samples 2
  if s.start.x == s.stop.x then ofResult (.error (.flatAnchor .x))
  else if s.start.y == s.stop.y then ofResult (.error (.flatAnchor .y))
  else do
    reserve s.samples
    let times ← spacing 0.0 1.0 s.samples
    let raw ← times.mapM (rawPoint s)
    let xs ← ofResult (rescale .x s.start.x s.stop.x (raw.map Point.x))
    let ys ← ofResult (rescale .y s.start.y s.stop.y (raw.map Point.y))
    ofResult (Segment.ofPoints (List.zipWith Point.mk xs ys))

/-- The raw samples, where the sums have enough positions. -/
theorem raw_eq (s : Spiral α) (h : 2 ≤ s.steps) :
    (spaced 0.0 1.0 s.samples).mapM (rawPoint s) = pure s.raw := by
  apply mapM_of_forall
  intro t _
  rw [rawPoint, fresnel_eq, Fresnel.integrals, if_neg (Nat.not_lt.mpr h)]
  rfl

/-- Where they have not, the first sample fails. -/
theorem raw_of_lt (s : Spiral α) (hsamples : 2 ≤ s.samples) (h : s.steps < 2) :
    (spaced 0.0 1.0 s.samples).mapM (rawPoint s) =
      ofResult (.error (.tooFew .fresnelSteps s.steps 2)) := by
  obtain ⟨t, times, hspaced⟩ :=
    List.exists_cons_of_ne_nil (spaced_ne_nil (0.0 : α) 1.0 (by omega : 0 < s.samples))
  rw [hspaced, List.mapM_cons, rawPoint, fresnel_eq, Fresnel.integrals, if_pos h]
  rfl

theorem agrees_spiral (s : Spiral α) : Agrees (s.samples < room) s.trace (spiral s) := by
  unfold spiral Spiral.trace
  by_cases hsamples : s.samples < 2
  · rw [require_of_lt hsamples, if_pos hsamples]
    exact .fails
  rw [require_eq (Nat.not_lt.mp hsamples), if_neg hsamples, pure_bind]
  by_cases hx : (s.start.x == s.stop.x) = true
  · rw [if_pos hx, if_pos hx]
    exact .fails
  rw [if_neg hx, if_neg hx]
  by_cases hy : (s.start.y == s.stop.y) = true
  · rw [if_pos hy, if_pos hy]
    exact .fails
  rw [if_neg hy, if_neg hy]
  by_cases hroom : s.samples < room
  · rw [reserve_eq hroom, pure_bind, spacing_eq, pure_bind]
    by_cases hsteps : s.steps < 2
    · rw [raw_of_lt s (Nat.not_lt.mp hsamples) hsteps, if_pos hsteps]
      exact .fails
    · rw [raw_eq s (Nat.not_lt.mp hsteps), if_neg hsteps, pure_bind]
      refine (Agrees.ofResult hroom _).bind id fun _ xs _ => ?_
      exact (Agrees.ofResult hroom _).bind id fun _ ys _ => .ofResult hroom _
  · rw [reserve, if_neg hroom]
    exact .exhausts hroom

end

/-! ## Segments and paths -/

section

variable {α : Type} {path : Polyline α} {start stop : Nat} {segment : Segment α}

/-- The point that a segment starts from. -/
def firstPoint (segment : Segment α) : Run (Point α) := entry segment.points 0

/-- The point that a segment ends in. -/
def lastPoint (segment : Segment α) : Run (Point α) := do
  let last ← sub segment.length 1
  entry segment.points last

theorem firstPoint_eq (segment : Segment α) : firstPoint segment = pure segment.first :=
  entry_eq (List.head?_eq_getElem?.symm.trans (List.head?_eq_some_head segment.nonempty))

theorem lastPoint_eq (segment : Segment α) : lastPoint segment = pure segment.last := by
  rw [lastPoint, sub_eq segment.length_pos, pure_bind]
  exact entry_eq (List.getLast?_eq_getElem?.symm.trans
    (List.getLast?_eq_some_getLast segment.nonempty))

/-- Fails unless a path covers a run of points. -/
def checkRange (path : Polyline α) (start stop : Nat) : Run Unit :=
  if path.Covers start stop then pure ()
  else ofResult (.error (.outOfRange start stop path.length))

/-- A path with a run of its points replaced, in a list that is made for its new length. -/
def splice (path : Polyline α) (start stop : Nat) (segment : Segment α) : Run (Polyline α) := do
  checkRange path start stop
  let gap ← sub stop start
  let replaced ← add gap 1
  let kept ← sub path.length replaced
  let length ← add kept segment.length
  reserve length
  let front ← before path.points start
  let next ← add stop 1
  let back ← behind path.points next
  pure ⟨front ++ segment.points ++ back⟩

/-- How many points a path has once a run of them is replaced. -/
def splicedLength (path : Polyline α) (start stop count : Nat) : Nat :=
  path.length - (stop - start + 1) + count

theorem agrees_splice (hpath : path.length < room) (hsegment : segment.length < room)
    (start stop : Nat) : Agrees (splicedLength path start stop segment.length < room)
      (path.splice start stop segment) (splice path start stop segment) := by
  unfold splice checkRange
  by_cases hcovers : path.Covers start stop
  · have hle : start ≤ stop := hcovers.1
    have hlt : stop < path.length := hcovers.2
    -- Both lists have room, so there is a word for the sum of their lengths.
    have hwords := room_add_room
    have hpoints : path.points.length = path.length := rfl
    rw [if_pos hcovers, Polyline.splice_of_covers hcovers, pure_bind, sub_eq hle, pure_bind,
      add_eq (by omega), pure_bind, sub_eq (by omega), pure_bind, add_eq (by omega), pure_bind]
    by_cases hroom : path.length - (stop - start + 1) + segment.length < room
    · rw [reserve_eq hroom, pure_bind, before_eq (by omega), pure_bind, add_eq (by omega),
        pure_bind, behind_eq (by omega), pure_bind]
      exact .gives hroom
    · rw [reserve, if_neg hroom]
      exact .exhausts hroom
  · rw [if_neg hcovers, Polyline.splice_of_not_covers hcovers]
    exact .fails

end

section

variable {α : Type} [Scalar α] [Trig α]

/-- A path with a spiral in the place of a run of its points. -/
def spiralSplice (path : Polyline α) (start stop : Nat) (sampling : Sampling) :
    Run (Polyline α) := do
  checkRange path start stop
  let a ← entry path.points start
  let b ← entry path.points stop
  let segment ← spiral ⟨a, b, sampling.spiralPoints, 1.0, sampling.fresnelSteps⟩
  splice path start stop segment

theorem agrees_spiralSplice {path : Polyline α} (hpath : path.length < room) (start stop : Nat)
    (sampling : Sampling) :
    Agrees (splicedLength path start stop sampling.spiralPoints < room)
      (path.spliceSpiral start stop sampling) (spiralSplice path start stop sampling) := by
  unfold spiralSplice checkRange
  by_cases hcovers : path.Covers start stop
  · obtain ⟨a, b, ha, hb⟩ := hcovers.exists_ends
    rw [if_pos hcovers, pure_bind, entry_eq ha, pure_bind, entry_eq hb, pure_bind,
      Polyline.spliceSpiral_of_get? hcovers.1 ha hb]
    refine (agrees_spiral _).bind (fun h => ?_) fun hroom segment hsegment => ?_
    · exact Nat.lt_of_le_of_lt (Nat.le_add_left _ _) h
    · have hlength := Spiral.length_of_trace hsegment
      dsimp only at hlength hroom
      rw [← hlength] at hroom ⊢
      exact agrees_splice hpath hroom start stop
  · rw [if_neg hcovers, Polyline.spliceSpiral_of_not_covers hcovers]
    exact .fails

/-- The arc of a path. Its middle point is neither the first nor the last one. -/
def arcFit (path : Polyline α) (sampling : Sampling) : Run (ArcFit α) := do
  require .pathPoints path.length 3
  let a ← entry path.points 0
  let last ← sub path.length 1
  let b ← entry path.points last
  let m ← innerEntry path.points (path.length / 2)
  let circle ← ofResult (Circle.ofChord a b m)
  let heading ← ofResult (Point.heading a b)
  let segment ← deltoid ⟨circle.radius,
    Polyline.arcSweep.turnedBy (heading - Polyline.cuspOffset), circle.centre,
    sampling.deltoidPoints⟩
  pure ⟨circle, heading, segment⟩

theorem agrees_arcFit (path : Polyline α) (sampling : Sampling) :
    Agrees (sampling.deltoidPoints < room) (path.fitArc sampling) (arcFit path sampling) := by
  unfold arcFit
  by_cases h : 3 ≤ path.length
  · obtain ⟨a, b, m, hguides⟩ := Polyline.exists_guides h
    have hmiddle : 0 < path.length / 2 ∧ path.length / 2 < path.length - 1 := by omega
    rw [require_eq h, pure_bind, entry_eq hguides.first, pure_bind, sub_eq (by omega), pure_bind,
      entry_eq hguides.last, pure_bind, innerEntry_eq hmiddle.1 hmiddle.2 hguides.middle,
      pure_bind, hguides.fitArc_eq]
    refine (Agrees.ofResult trivial _).bind (fun _ => trivial) fun _ circle _ => ?_
    refine (Agrees.ofResult trivial _).bind (fun _ => trivial) fun _ heading _ => ?_
    exact (agrees_deltoid _).bind id fun hroom segment _ => .gives hroom
  · rw [require_of_lt (Nat.not_le.mp h), Polyline.fitArc, dif_neg h]
    exact .fails

end

/-! ## All operations -/

/-- On a machine, whatever has to do with counts, positions and lists agrees with the library: no
difference is negative, no sum is too great, and no position lies outside its list. This holds for
counts and positions of any size and for numbers of any kind, and for paths and segments of which
the machine has room for one. -/
theorem agrees_of_length_lt {α : Type} [Scalar α] [Trig α] {path : Polyline α}
    {segment : Segment α} (hpath : path.length < room) (hsegment : segment.length < room) :
    (∀ (start stop : α) (count : Nat),
      spacing start stop count = pure (spaced start stop count)) ∧
    (∀ (t : α) (steps : Nat), fresnel t steps = ofResult (Fresnel.integrals t steps)) ∧
    (∀ (c : Circle α) (count : Nat), Agrees (count < room) (c.sample count) (circle c count)) ∧
    (∀ d : Deltoid α, Agrees (d.samples < room) d.trace (deltoid d)) ∧
    (∀ s : Spiral α, Agrees (s.samples < room) s.trace (spiral s)) ∧
    (firstPoint segment = pure segment.first ∧ lastPoint segment = pure segment.last) ∧
    (∀ start stop : Nat, Agrees (splicedLength path start stop segment.length < room)
      (path.splice start stop segment) (splice path start stop segment)) ∧
    (∀ (start stop : Nat) (sampling : Sampling),
      Agrees (splicedLength path start stop sampling.spiralPoints < room)
        (path.spliceSpiral start stop sampling) (spiralSplice path start stop sampling)) ∧
    ∀ sampling : Sampling,
      Agrees (sampling.deltoidPoints < room) (path.fitArc sampling) (arcFit path sampling) :=
  ⟨spacing_eq, fresnel_eq, agrees_circle, agrees_deltoid, agrees_spiral,
    ⟨firstPoint_eq segment, lastPoint_eq segment⟩, agrees_splice hpath hsegment,
    agrees_spiralSplice hpath, agrees_arcFit path⟩

/-- A path of three doubles with its middle point replaced by two, and a run of the same path that
is to become a spiral of the greatest counts there are. -/
theorem agrees_of_length_lt_example :
    splice (⟨[⟨0.0, 0.0⟩, ⟨1.0, 0.0⟩, ⟨2.0, 1.0⟩]⟩ : Polyline Float) 1 1
        ⟨[⟨1.0, 1.0⟩, ⟨1.5, 1.0⟩], List.cons_ne_nil _ _⟩ =
      pure ⟨[⟨0.0, 0.0⟩, ⟨1.0, 1.0⟩, ⟨1.5, 1.0⟩, ⟨2.0, 1.0⟩]⟩ ∧
    spiralSplice (⟨[⟨0.0, 0.0⟩, ⟨1.0, 0.0⟩, ⟨2.0, 1.0⟩]⟩ : Polyline Float) 0 2
      ⟨words - 1, words - 1, words - 1⟩ ≠ stop .outOfRange := by
  have hpath : (⟨[⟨0.0, 0.0⟩, ⟨1.0, 0.0⟩, ⟨2.0, 1.0⟩]⟩ : Polyline Float).length < room := by
    decide
  have hsegment : Segment.length
      (⟨[⟨1.0, 1.0⟩, ⟨1.5, 1.0⟩], List.cons_ne_nil _ _⟩ : Segment Float) < room := by
    decide
  obtain ⟨-, -, -, -, -, -, hsplice, hspiral, -⟩ := agrees_of_length_lt hpath hsegment
  exact ⟨(hsplice 1 1).eq_ofResult (by decide), (hspiral 0 2 _).ne_outOfRange⟩

end PathCurves.Machine
