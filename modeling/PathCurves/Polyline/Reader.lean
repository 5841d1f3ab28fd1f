/-
Reading a path from bytes, one point a line. The bytes arrive in chunks, and the source may
break off after the last one; the reader takes them one by one, so that where a chunk ends
makes no difference (`foldlM_chunk`). A complete line is read as soon as its line feed is
seen: its fault comes before that of a source that breaks off later.
-/
import PathCurves.Fault
import PathCurves.Polyline
import PathCurves.Text.Blank
import PathCurves.Text.Numeral

namespace PathCurves

/-- How a source of bytes comes to its end. -/
inductive Ending where
  | complete
  | broken (reason : String)
deriving DecidableEq, Repr

/-- A source of bytes: the chunks that it hands out, and how it ends after them. -/
structure ByteSource where
  chunks : List (List UInt8)
  ending : Ending := .complete
deriving DecidableEq, Repr

namespace Polyline

/-- The point that a line stands for, by the line's number from one; a blank line stands for
none. -/
def readLine (number : Nat) (line : String) : Except Fault (Option (Point Float)) :=
  match Text.fields line.toList with
  | [] => .ok none
  | [x, y] =>
    match Text.Numeral.read? x, Text.Numeral.read? y with
    | some x, some y => .ok (some ⟨x.toDouble, y.toDouble⟩)
    | _, _ => .error (.malformedLine number line)
  | _ => .error (.malformedLine number line)

/-- What has been read so far: the points of the complete lines, how many these are, and the bytes
of the line that is not complete. Points and bytes are kept with the last one first. -/
structure Reader where
  points : List (Point Float) := []
  lines : Nat := 0
  pending : List UInt8 := []
deriving DecidableEq, Repr

namespace Reader

/-- The byte that ends a line. -/
def lineFeed : UInt8 := 0x0A

/-- The byte that belongs to the end of a line if it stands right before it. -/
def carriageReturn : UInt8 := 0x0D

/-- Reads the bytes of one line, given backwards. -/
def finish (r : Reader) (backwards : List UInt8) : Except Fault Reader :=
  match String.fromUTF8? ⟨backwards.reverse.toArray⟩ with
  | none => .error (.unreadable .notUtf8)
  | some line =>
    match readLine (r.lines + 1) line with
    | .error fault => .error fault
    | .ok point => .ok ⟨point.toList ++ r.points, r.lines + 1, []⟩

/-- The bytes of a line without the carriage return before its end. -/
def withoutReturn : List UInt8 → List UInt8
  | [] => []
  | b :: before => if b = carriageReturn then before else b :: before

/-- Takes one byte. -/
def byte (r : Reader) (b : UInt8) : Except Fault Reader :=
  if b = lineFeed then r.finish (withoutReturn r.pending)
  else .ok { r with pending := b :: r.pending }

/-- Takes one chunk. -/
def chunk (r : Reader) (bytes : List UInt8) : Except Fault Reader := bytes.foldlM byte r

/-- Chunks handed out one after the other are read as their bytes in a row. -/
theorem foldlM_chunk (r : Reader) (chunks : List (List UInt8)) :
    chunks.foldlM chunk r = r.chunk chunks.flatten := by
  induction chunks generalizing r with
  | nil => rfl
  | cons bytes chunks ih =>
    rw [List.foldlM_cons, List.flatten_cons]
    show _ = (bytes ++ chunks.flatten).foldlM byte r
    rw [List.foldlM_append]
    exact bind_congr fun r => ih r

/-- Takes the end of the source. A last line without a line feed counts if it has any byte
and the source is complete. -/
def close (r : Reader) : Ending → Except Fault (Polyline Float)
  | .broken reason => .error (.unreadable (.broken reason))
  | .complete =>
    if r.pending = [] then .ok ⟨r.points.reverse⟩
    else (r.finish r.pending).map fun r => ⟨r.points.reverse⟩

end Reader

/-- The path that a source of bytes stands for. -/
def read (source : ByteSource) : Except Fault (Polyline Float) := do
  let r ← source.chunks.foldlM Reader.chunk {}
  r.close source.ending

/-- The path that a text stands for. -/
def parse (text : String) : Except Fault (Polyline Float) :=
  read ⟨[text.toUTF8.data.toList], .complete⟩

end Polyline

end PathCurves
