import AbilityRotation.Report

/-!
The command line: reports on the rotation that the arguments give, or without arguments on the one
in the standard input.
-/

open AbilityRotation

/-- Prints the report on a rotation text and returns its exit code. -/
def main (args : List String) : IO UInt32 := do
  let text ←
    match Report.textOfArguments? args with
    | some text => pure text
    | none => (← IO.getStdin).readToEnd
  match Report.ofText text with
  | .error fault => throw (IO.userError fault.message)
  | .ok report =>
      IO.print report.output
      return report.exitCode.toUInt32
