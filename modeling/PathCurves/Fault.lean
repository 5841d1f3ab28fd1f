/-
Why an operation of the library can fail. A fault names its cause and carries the
numbers or the text that show it; `PathCurves.Fault.Wording` puts it into words. Main
statements: `Except.bind_eq_ok_iff` and `Except.bind_eq_error_iff`, two operations in a row
succeed when each does, and otherwise fail as the first of them that fails.
-/

@[simp] theorem Except.ok_bind {ε α β : Type} (a : α) (f : α → Except ε β) :
    (.ok a >>= f) = f a := rfl

@[simp] theorem Except.error_bind {ε α β : Type} (e : ε) (f : α → Except ε β) :
    (.error e >>= f) = .error e := rfl

theorem Except.bind_eq_ok_iff {ε α β : Type} {x : Except ε α} {f : α → Except ε β} {b : β} :
    x >>= f = .ok b ↔ ∃ a, x = .ok a ∧ f a = .ok b := by
  cases x with
  | error e => simp [bind, Except.bind]
  | ok a => simp [bind, Except.bind]

theorem Except.bind_eq_error_iff {ε α β : Type} {x : Except ε α} {f : α → Except ε β} {e : ε} :
    x >>= f = .error e ↔ x = .error e ∨ ∃ a, x = .ok a ∧ f a = .error e := by
  cases x with
  | error d => simp [bind, Except.bind]
  | ok a => simp [bind, Except.bind]

namespace PathCurves

/-- A coordinate axis of the plane. -/
inductive Axis where
  | x
  | y
deriving DecidableEq, Repr

/-- The counts that are too small below a certain number: of the points of a generated curve, of the
positions of a Fresnel sum, and of the points of a path to which an arc is fitted. -/
inductive Count where
  | samples
  | fresnelSteps
  | pathPoints
deriving DecidableEq, Repr

/-- Why a source of bytes could not be read as text: a line is no text, the operating system
refused, or the source broke off for a reason of its own. -/
inductive ReadFailure where
  | notUtf8
  | system (code : Nat) (kind description : String)
  | broken (reason : String)
deriving DecidableEq, Repr

/-- The causes of failure. Lines are numbered from one. -/
inductive Fault where
  /-- No rescaling reaches two anchors that agree along an axis, or starts from values
  without a finite, positive extent along it. -/
  | flatAnchor (axis : Axis)
  | collinear
  | noChord
  | emptySegment
  | unboundedRadius
  /-- The positions from `start` to `stop` are not all positions of a path of that length. -/
  | outOfRange (start stop length : Nat)
  | tooFew (count : Count) (given least : Nat)
  | malformedLine (number : Nat) (text : String)
  | invalidIndex (text : String)
  | unreadable (failure : ReadFailure)
deriving DecidableEq, Repr

end PathCurves
