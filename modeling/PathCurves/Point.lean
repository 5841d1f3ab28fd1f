/-
Points of the plane, and the displacements between them in the same coordinates.
-/
import PathCurves.Scalar

namespace PathCurves

/-- A point, or a displacement, by its two coordinates. -/
@[ext] structure Point (α : Type) where
  x : α
  y : α
deriving BEq, DecidableEq, Repr, Inhabited

namespace Point

variable {α : Type} [Scalar α]

instance : Add (Point α) := ⟨fun p q => ⟨p.x + q.x, p.y + q.y⟩⟩

instance : Sub (Point α) := ⟨fun p q => ⟨p.x - q.x, p.y - q.y⟩⟩

instance : HMul (Point α) α (Point α) := ⟨fun p s => ⟨p.x * s, p.y * s⟩⟩

instance : HDiv (Point α) α (Point α) := ⟨fun p s => ⟨p.x / s, p.y / s⟩⟩

@[simp] theorem add_x (p q : Point α) : (p + q).x = p.x + q.x := rfl

@[simp] theorem add_y (p q : Point α) : (p + q).y = p.y + q.y := rfl

@[simp] theorem sub_x (p q : Point α) : (p - q).x = p.x - q.x := rfl

@[simp] theorem sub_y (p q : Point α) : (p - q).y = p.y - q.y := rfl

@[simp] theorem mul_x (p : Point α) (s : α) : (p * s).x = p.x * s := rfl

@[simp] theorem mul_y (p : Point α) (s : α) : (p * s).y = p.y * s := rfl

@[simp] theorem div_x (p : Point α) (s : α) : (p / s).x = p.x / s := rfl

@[simp] theorem div_y (p : Point α) (s : α) : (p / s).y = p.y / s := rfl

/-- The point where the axes meet. -/
def origin : Point α := ⟨0.0, 0.0⟩

/-- The length of a displacement. -/
def norm (d : Point α) : α := Scalar.sqrt (d.x * d.x + d.y * d.y)

/-- The displacement turned a quarter circle to the left. -/
def quarterTurn (d : Point α) : Point α := ⟨-d.y, d.x⟩

/-- The point halfway between two points. -/
def midpoint (a b : Point α) : Point α := ⟨(a.x + b.x) * 0.5, (a.y + b.y) * 0.5⟩

/-- The displacement turned left by an angle in radians. -/
def turned [Trig α] (angle : α) (d : Point α) : Point α :=
  let re := Trig.cos angle
  let im := Trig.sin angle
  ⟨re * d.x - im * d.y, im * d.x + re * d.y⟩

end Point

end PathCurves
