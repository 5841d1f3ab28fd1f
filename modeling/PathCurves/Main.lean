/-
The command line: the file of a path and the bounds of a run of its points, all optional.
-/
import PathCurves.Report

namespace PathCurves

/-- The number of a refusal, which some calls of the operating system hand on negated. -/
def refusalNumber (code : UInt32) : Nat :=
  if code.toNat < UInt32.size / 2 then code.toNat else UInt32.size - code.toNat

/-- The refusal of the operating system to hand out a file. -/
def refusalOf : IO.Error → ReadFailure
  | .noFileOrDirectory _ code _ =>
    .system (refusalNumber code) "NotFound" "No such file or directory"
  | .permissionDenied _ code _ =>
    .system (refusalNumber code) "PermissionDenied" "Permission denied"
  | .inappropriateType _ code _ => .system (refusalNumber code) "IsADirectory" "Is a directory"
  | error => .broken (toString error)

/-- The origin of the path that the first argument names. -/
def originOf : Option String → IO Report.Origin
  | none => return .builtIn
  | some name => do
    try
      let bytes ← IO.FS.readBinFile name
      return .file ⟨[bytes.data.toList], .complete⟩
    catch error => return .unavailable (refusalOf error)

end PathCurves

open PathCurves in
/-- Prints the report on the path that the arguments name. -/
def main (arguments : List String) : IO UInt32 := do
  let outcome := Report.run (← originOf arguments.head?) arguments.tail
  for line in outcome.output do
    IO.println line
  if let some complaint := outcome.complaint then
    IO.eprintln complaint
  return outcome.code.toUInt32
