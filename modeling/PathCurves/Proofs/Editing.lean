/-
Runs of local edits: those that replace a run of points, look a point up or fit an arc, but do
not start over with another path.

`Polyline.Patched` says what such edits make of a path: patches, one after another, each a run of
points that a segment replaced. Its laws are proved by induction over the patches (`length_eq`,
`isEmpty_eq`, `get?_eq`, `survivor?_lt`). `Draft.patched_edit` is the one case analysis over the
edits, and `Draft.run_of_isLocal` puts the two together.
-/
import Mathlib
import PathCurves.Draft
import PathCurves.Proofs.Splice

namespace PathCurves

/-! ## Patches -/

/-- A run of points that is replaced, from its first position to its last, and the count of the
points that take its place. -/
structure Patch where
  start : ℕ
  stop : ℕ
  count : ℕ
deriving DecidableEq, Repr

namespace Patch

/-- By how many points a patch makes a path longer. -/
def growth (p : Patch) : ℤ := p.count - (p.stop - p.start + 1)

/-- Where a position lies after a patch; the positions of the run itself are gone. -/
def place? (p : Patch) (position : ℕ) : Option ℕ :=
  if position < p.start then some position
  else if position ≤ p.stop then none
  else some (moved p.start p.stop p.count position)

/-- Where a position lies after patches, one after another, if it never was inside the run that
one of them replaced. -/
def survivor? : List Patch → ℕ → Option ℕ
  | [], position => some position
  | p :: patches, position => (p.place? position).bind (survivor? patches)

theorem place?_lt {p : Patch} {i i' j j' : ℕ} (hle : p.start ≤ p.stop) (hlt : i < i')
    (hi : p.place? i = some j) (hi' : p.place? i' = some j') : j < j' := by
  unfold place? moved at hi hi'
  split at hi
  · -- The first position lies before the run, the other one before or behind it.
    cases hi
    split at hi'
    · cases hi'
      exact hlt
    · split at hi'
      · cases hi'
      · cases hi'
        omega
  · -- Both positions lie behind the run and move by as much.
    split at hi
    · cases hi
    · cases hi
      rw [if_neg (by omega), if_neg (by omega)] at hi'
      cases hi'
      omega

end Patch

namespace Polyline

variable {α : Type} {path next last : Polyline α} {p : Patch} {patches : List Patch}
  {segment : Segment α}

/-! ## One patch -/

theorem length_splice (h : path.splice p.start p.stop segment = .ok next)
    (hcount : segment.length = p.count) : (next.length : ℤ) = path.length + p.growth := by
  obtain ⟨front, middle, back, rfl, rfl, -, hmiddle, hle⟩ := splice_eq_ok h
  rw [Segment.length] at hcount
  simp only [length, List.length_append, Patch.growth]
  omega

theorem isEmpty_splice (h : path.splice p.start p.stop segment = .ok next) :
    path.isEmpty = false ∧ next.isEmpty = false := by
  obtain ⟨front, middle, back, rfl, rfl, -, hmiddle, hle⟩ := splice_eq_ok h
  have hne : middle ≠ [] := by
    rintro rfl
    simp only [List.length_nil] at hmiddle
    omega
  simp [isEmpty, hne, segment.nonempty]

/-- A point outside the run is found again where its position has moved to. -/
theorem get?_splice {i j : ℕ} (h : path.splice p.start p.stop segment = .ok next)
    (hcount : segment.length = p.count) (hi : p.place? i = some j) :
    next.get? j = path.get? i := by
  unfold Patch.place? at hi
  split at hi
  · next hbefore =>
    cases hi
    exact get?_splice_before h hbefore
  · split at hi
    · cases hi
    · next hbehind =>
      cases hi
      rw [← hcount]
      exact get?_splice_behind h (Nat.lt_of_not_le hbehind)

/-! ## Patches one after another -/

/-- What patches, one after another, make of a path. -/
inductive Patched : Polyline α → List Patch → Polyline α → Prop
  | nil {path : Polyline α} : Patched path [] path
  | cons {path next last : Polyline α} {p : Patch} {patches : List Patch} {segment : Segment α}
      (hcount : segment.length = p.count) (hsplice : path.splice p.start p.stop segment = .ok next)
      (hrest : Patched next patches last) : Patched path (p :: patches) last

namespace Patched

theorem append {more : List Patch} (h : Patched path patches next) (h' : Patched next more last) :
    Patched path (patches ++ more) last := by
  induction h with
  | nil => exact h'
  | cons hcount hsplice _ ih => exact .cons hcount hsplice (ih h')

theorem length_eq (h : Patched path patches last) :
    (last.length : ℤ) = path.length + (patches.map Patch.growth).sum := by
  induction h with
  | nil => simp
  | cons hcount hsplice _ ih =>
    rw [ih, length_splice hsplice hcount, List.map_cons, List.sum_cons]
    ring

theorem isEmpty_eq (h : Patched path patches last) : last.isEmpty = path.isEmpty := by
  induction h with
  | nil => rfl
  | cons _ hsplice _ ih =>
    obtain ⟨hpath, hnext⟩ := isEmpty_splice hsplice
    rw [ih, hnext, hpath]

/-- A point that no patch replaced is there after all of them. -/
theorem get?_eq {i j : ℕ} (h : Patched path patches last)
    (hi : Patch.survivor? patches i = some j) : last.get? j = path.get? i := by
  induction h generalizing i with
  | nil =>
    cases hi
    rfl
  | cons hcount hsplice _ ih =>
    obtain ⟨k, hk, hj⟩ := Option.bind_eq_some_iff.mp hi
    rw [ih hj, get?_splice hsplice hcount hk]

theorem survivor?_lt {i i' j j' : ℕ} (h : Patched path patches last) (hlt : i < i')
    (hi : Patch.survivor? patches i = some j) (hi' : Patch.survivor? patches i' = some j') :
    j < j' := by
  induction h generalizing i i' with
  | nil =>
    cases hi
    cases hi'
    exact hlt
  | cons _ hsplice _ ih =>
    obtain ⟨k, hk, hj⟩ := Option.bind_eq_some_iff.mp hi
    obtain ⟨k', hk', hj'⟩ := Option.bind_eq_some_iff.mp hi'
    obtain ⟨_, _, _, _, _, _, _, hle⟩ := splice_eq_ok hsplice
    exact ih (Patch.place?_lt hle hlt hk hk') hj hj'

end Patched

end Polyline

/-! ## Local edits -/

namespace Edit

/-- The edits that replace a run of points. -/
def IsSplice : Edit → Prop
  | .splice .. | .spliceSpiral .. | .spliceDeltoid .. | .spliceFittedSpiral .. | .spliceFit ..
  | .spliceCircle .. => True
  | .replace _ | .parse _ | .get _ | .fit _ | .fitToPath => False

/-- The edits that do not start over with another path. -/
def IsLocal : Edit → Prop
  | .replace _ | .parse _ | .fitToPath => False
  | _ => True

/-- The run of points that an edit is to replace and how many points it asks to put there, where
`kept` is the arc that was fitted last. -/
def patch? (kept : Option (ArcFit Float)) : Edit → Option Patch
  | .splice start stop replacement => some ⟨start, stop, replacement.length⟩
  | .spliceSpiral start stop spiral => some ⟨start, stop, spiral.samples⟩
  | .spliceDeltoid start stop deltoid => some ⟨start, stop, deltoid.samples⟩
  | .spliceFittedSpiral start stop sampling => some ⟨start, stop, sampling.spiralPoints⟩
  | .spliceFit start stop => kept.map fun fit => ⟨start, stop, fit.segment.length⟩
  | .spliceCircle start stop samples => some ⟨start, stop, samples⟩
  | .replace _ | .parse _ | .get _ | .fit _ | .fitToPath => none

end Edit

namespace Draft

variable {draft next : Draft} {e : Edit} {edits : List Edit} {reply : Reply}

/-- A splice that succeeds puts as many points in the place of its run as it asked for. -/
theorem tryEdit_splice (hsplice : e.IsSplice) (h : draft.tryEdit e = .ok (next, reply)) :
    ∃ p segment, e.patch? draft.fit = some p ∧ segment.length = p.count ∧
      draft.path.splice p.start p.stop segment = .ok next.path := by
  cases e with
  | replace | parse | get | fit | fitToPath => exact hsplice.elim
  | splice start stop replacement =>
    obtain ⟨s, hs, h⟩ := withSegment_eq_ok h
    exact ⟨_, s, rfl, congrArg List.length (Segment.ofPoints_eq_ok_iff.mp hs).symm, h⟩
  | spliceSpiral start stop spiral =>
    obtain ⟨s, hs, h⟩ := withSegment_eq_ok h
    exact ⟨_, s, rfl, Spiral.length_of_trace hs, h⟩
  | spliceDeltoid start stop deltoid =>
    obtain ⟨s, hs, h⟩ := withSegment_eq_ok h
    exact ⟨_, s, rfl, Deltoid.length_of_trace hs, h⟩
  | spliceFittedSpiral start stop sampling =>
    obtain ⟨hcovers, _, _, s, hs, hpoints⟩ := Polyline.spliceSpiral_eq_ok (withPath_eq_ok h).1
    refine ⟨_, s, rfl, Spiral.length_of_trace hs, ?_⟩
    rw [Polyline.splice_of_covers hcovers, ← hpoints]
  | spliceFit start stop =>
    cases hfit : draft.fit with
    | none => simp [tryEdit, hfit] at h
    | some fit =>
      simp only [tryEdit, hfit] at h
      obtain ⟨s, hs, h⟩ := withSegment_eq_ok h
      cases hs
      exact ⟨_, fit.segment, rfl, rfl, h⟩
  | spliceCircle start stop samples =>
    cases hfit : draft.fit with
    | none => simp [tryEdit, hfit] at h
    | some fit =>
      simp only [tryEdit, hfit] at h
      obtain ⟨s, hs, h⟩ := withSegment_eq_ok h
      exact ⟨_, s, rfl, Circle.length_of_sample hs, h⟩

/-- The other local edits leave the path alone. -/
theorem tryEdit_of_not_isSplice (hlocal : e.IsLocal) (hsplice : ¬ e.IsSplice)
    (h : draft.tryEdit e = .ok (next, reply)) :
    e.patch? draft.fit = none ∧ next.path = draft.path := by
  cases e with
  | replace | parse | fitToPath => exact hlocal.elim
  | get position =>
    cases h
    exact ⟨rfl, rfl⟩
  | fit sampling =>
    simp only [tryEdit] at h
    split at h
    · cases h
      exact ⟨rfl, rfl⟩
    · cases h
  | splice | spliceSpiral | spliceDeltoid | spliceFittedSpiral | spliceFit | spliceCircle =>
    exact (hsplice trivial).elim

/-- The patch that an edit makes, if it is not refused. -/
def patch? (draft : Draft) (e : Edit) : Option Patch :=
  match (draft.edit e).2 with
  | .ok _ => e.patch? draft.fit
  | .error _ => none

/-- The patches that a row of edits makes. -/
def patches (draft : Draft) : List Edit → List Patch
  | [] => []
  | e :: edits => (draft.patch? e).toList ++ (draft.edit e).1.patches edits

/-- The draft that a row of edits ends with. -/
def after (draft : Draft) (edits : List Edit) : Draft :=
  match (draft.run edits).getLast? with
  | some (last, _) => last
  | none => draft

/-- A local edit patches the path once or not at all. -/
theorem patched_edit (draft : Draft) (hlocal : e.IsLocal) :
    Polyline.Patched draft.path (draft.patch? e).toList (draft.edit e).1.path := by
  unfold patch?
  cases h : draft.tryEdit e with
  | error refusal =>
    rw [edit_of_refused h]
    exact .nil
  | ok done =>
    rw [edit_of_done h]
    by_cases hsplice : e.IsSplice
    · obtain ⟨p, segment, hp, hcount, hsplice⟩ := tryEdit_splice hsplice h
      simp only [hp, Option.toList_some]
      exact .cons hcount hsplice .nil
    · obtain ⟨hp, hpath⟩ := tryEdit_of_not_isSplice hlocal hsplice h
      simp only [hp, hpath, Option.toList_none]
      exact .nil

/-! ## Rows of edits -/

theorem after_cons (draft : Draft) (e : Edit) (edits : List Edit) :
    draft.after (e :: edits) = (draft.edit e).1.after edits := by
  simp only [after, run, List.getLast?_cons]
  cases (run (draft.edit e).1 edits).getLast? with
  | none => rfl
  | some last => rfl

theorem patched_run (draft : Draft) (hlocal : ∀ e ∈ edits, e.IsLocal) :
    Polyline.Patched draft.path (draft.patches edits) (draft.after edits).path := by
  induction edits generalizing draft with
  | nil => exact .nil
  | cons e edits ih =>
    rw [after_cons]
    exact (draft.patched_edit (hlocal e (by simp))).append
      (ih _ fun e' he' => hlocal e' (by simp [he']))

/-- The answer at a place of the run is the answer to the edit there, made to the draft that the
edits before it end with. -/
theorem getElem?_run (draft : Draft) (edits : List Edit) (i : ℕ) :
    (draft.run edits)[i]? = edits[i]?.map fun e => (draft.after (edits.take i)).edit e := by
  induction edits generalizing draft i with
  | nil => simp [run]
  | cons e edits ih =>
    cases i with
    | zero => simp [run, after]
    | succ i => simp only [run, List.getElem?_cons_succ, List.take_succ_cons, after_cons, ih]

theorem eq_of_edit_eq_error {refusal : Refusal} (h : draft.edit e = (next, .error refusal)) :
    next = draft := by
  cases hdone : draft.tryEdit e with
  | error found =>
    rw [edit_of_refused hdone] at h
    cases h
    rfl
  | ok done =>
    rw [edit_of_done hdone] at h
    cases h

theorem edit_of_isEmpty (hempty : draft.path.isEmpty = true) (hsplice : e.IsSplice) :
    ∃ refusal, draft.edit e = (draft, .error refusal) := by
  cases h : draft.tryEdit e with
  | error refusal => exact ⟨refusal, edit_of_refused h⟩
  | ok done =>
    obtain ⟨p, segment, -, -, hsplice⟩ := tryEdit_splice hsplice h
    have hpath := (Polyline.isEmpty_splice hsplice).1
    rw [hempty] at hpath
    cases hpath

/-- What a run of local edits keeps and changes. A refused edit leaves the draft as it was. The
path has points all the time or never, and while it has none every splice is refused. Its length
grows by what the patches add. A point that never was inside a replaced run is in the path at
the end, and such points keep their order. -/
theorem run_of_isLocal (draft : Draft) (edits : List Edit) (hlocal : ∀ e ∈ edits, e.IsLocal) :
    (∀ i next refusal, (draft.run edits)[i]? = some (next, .error refusal) →
      next = draft.after (edits.take i)) ∧
    (∀ i, (draft.after (edits.take i)).path.isEmpty = draft.path.isEmpty) ∧
    (draft.path.isEmpty = true → ∀ i e, edits[i]? = some e → e.IsSplice →
      ∃ refusal, (draft.run edits)[i]? = some (draft.after (edits.take i), .error refusal)) ∧
    ((draft.after edits).path.length : ℤ) =
      draft.path.length + ((draft.patches edits).map Patch.growth).sum ∧
    (∀ i j p, draft.path.get? i = some p → Patch.survivor? (draft.patches edits) i = some j →
      (draft.after edits).path.get? j = some p) ∧
    ∀ i i' j j', i < i' → Patch.survivor? (draft.patches edits) i = some j →
      Patch.survivor? (draft.patches edits) i' = some j' → j < j' := by
  have hpatched := draft.patched_run hlocal
  have hempty : ∀ i, (draft.after (edits.take i)).path.isEmpty = draft.path.isEmpty := fun i =>
    (draft.patched_run fun e he => hlocal e (List.mem_of_mem_take he)).isEmpty_eq
  refine ⟨?_, hempty, ?_, hpatched.length_eq, ?_, ?_⟩
  · intro i next refusal h
    rw [getElem?_run, Option.map_eq_some_iff] at h
    obtain ⟨e, -, h⟩ := h
    exact eq_of_edit_eq_error h
  · intro hdraft i e he hsplice
    obtain ⟨refusal, h⟩ := edit_of_isEmpty ((hempty i).trans hdraft) hsplice
    exact ⟨refusal, by rw [getElem?_run, he, Option.map_some, h]⟩
  · intro i j p hp hj
    rw [hpatched.get?_eq hj, hp]
  · intro i i' j j' hlt hj hj'
    exact hpatched.survivor?_lt hlt hj hj'

/-- Two splices that succeed and two that are refused: the last of four points is the last of
six in the end. -/
theorem run_of_isLocal_example :
    (∀ e ∈ [.splice 1 2 [⟨5, 5⟩, ⟨6, 5⟩, ⟨7, 5⟩], .splice 4 5 [⟨8, 8⟩], .spliceFit 0 0, .get 0,
      .splice 0 0 [⟨9, 9⟩, ⟨9, 8⟩]], Edit.IsLocal e) ∧
    ∃ last, Draft.after { path := ⟨[⟨0, 0⟩, ⟨1, 2⟩, ⟨3, 1⟩, ⟨4, 4⟩]⟩ }
        [.splice 1 2 [⟨5, 5⟩, ⟨6, 5⟩, ⟨7, 5⟩], .splice 4 5 [⟨8, 8⟩], .spliceFit 0 0, .get 0,
          .splice 0 0 [⟨9, 9⟩, ⟨9, 8⟩]] = last ∧
      last.path.length = 6 ∧ last.path.get? 5 = some ⟨4, 4⟩ := by
  have hlocal : ∀ e ∈ [.splice 1 2 [⟨5, 5⟩, ⟨6, 5⟩, ⟨7, 5⟩], .splice 4 5 [⟨8, 8⟩],
      .spliceFit 0 0, .get 0, .splice 0 0 [⟨9, 9⟩, ⟨9, 8⟩]], Edit.IsLocal e := by
    simp [Edit.IsLocal]
  obtain ⟨-, -, -, hlength, hsurvivor, -⟩ :=
    run_of_isLocal { path := ⟨[⟨0, 0⟩, ⟨1, 2⟩, ⟨3, 1⟩, ⟨4, 4⟩]⟩ } _ hlocal
  exact ⟨hlocal, _, rfl, Int.ofNat.inj (hlength.trans rfl), hsurvivor 3 5 ⟨4, 4⟩ rfl rfl⟩

end Draft

end PathCurves
