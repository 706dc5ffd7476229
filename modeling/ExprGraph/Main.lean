import ExprGraph.CommandLine

set_option autoImplicit false

namespace ExprGraph

def finish (outcome : CommandLine.Outcome) : IO UInt32 := do
  if outcome.warned then IO.eprintln CommandLine.warning
  for line in outcome.output do IO.println line
  if outcome.complaint ≠ "" then IO.eprintln outcome.complaint
  return outcome.exitCode.toUInt32

end ExprGraph

def main (arguments : List String) : IO UInt32 :=
  ExprGraph.finish (ExprGraph.CommandLine.run arguments)
