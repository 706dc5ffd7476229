import ExprGraph.Context.Render
import ExprGraph.Decimal.Natural
import ExprGraph.Evaluation
import ExprGraph.Ladder
import ExprGraph.Text.Sequence

set_option autoImplicit false

namespace ExprGraph.CommandLine

inductive Flag where
  | depth
  | var
  | print
deriving DecidableEq, Repr

namespace Flag

def all : List Flag := [.depth, .var, .print]

def long : Flag → String
  | .depth => "depth"
  | .var => "var"
  | .print => "print"

def short : Flag → Char
  | .depth => 'd'
  | .var => 'v'
  | .print => 'p'

def takesValue : Flag → Bool
  | .print => false
  | _ => true

def usage : Flag → String
  | .depth => "--depth <DEPTH>"
  | .var => "--var <VARS>"
  | .print => "--print"

end Flag

inductive Complaint where
  | unexpectedArgument (argument : String)
  | unexpectedValue (value : String) (flag : Flag)
  | missingValue (flag : Flag)
  | repeated (flag : Flag)
  | invalidDepth (value : String) (fault : Decimal.NaturalFault)
  | invalidBinding (value : String) (fault : Binding.Fault)
deriving DecidableEq, Repr

namespace Complaint

def invalidMessage (value : String) (flag : Flag) (reason : String) : String :=
  "invalid value '" ++ Text.emphasize value ++ "' for '" ++ flag.usage ++ "': " ++ reason

def message : Complaint → String
  | .unexpectedArgument argument => "unexpected argument '" ++ Text.emphasize argument ++ "' found"
  | .unexpectedValue value flag =>
    "unexpected value '" ++ Text.emphasize value ++ "' for '" ++ flag.usage ++
      "' found; no more were expected"
  | .missingValue flag => "a value is required for '" ++ flag.usage ++ "' but none was supplied"
  | .repeated flag => "the argument '" ++ flag.usage ++ "' cannot be used multiple times"
  | .invalidDepth value fault => invalidMessage value .depth fault.message
  | .invalidBinding value fault => invalidMessage value .var fault.message

-- The message with a hint, without the control sequences of either. A sequence that an argument
-- leaves open outside the emphasis takes its end from the words that follow it.
def text (complaint : Complaint) : String :=
  Text.withoutControls <|
    "error: " ++ complaint.message ++ "\n\nFor more information, try '" ++
      Text.emphasize "--help" ++ "'."

end Complaint

structure Settings where
  depth : Nat
  bindings : Bindings
  print : Bool

structure Reading where
  depth : Option Nat
  bindings : Bindings
  print : Bool
  -- A flag whose value is another argument, and that argument once it has been met. It is looked at
  -- when the next flag is accepted, or at the end.
  pending : Option (Flag × Option String)
  -- Whether a lone `--` has been met, after which nothing is a flag.
  flagsEnded : Bool

namespace Reading

def start : Reading := ⟨none, [], false, none, false⟩

def depthLimit : Nat := UInt64.size - 1

def accept (reading : Reading) (flag : Flag) (value : String) : Except Complaint Reading :=
  match flag with
  | .depth =>
    if reading.depth.isSome then .error (.repeated .depth)
    else match Decimal.readNatural depthLimit value with
      | .ok depth => .ok { reading with depth := some depth }
      | .error fault => .error (.invalidDepth value fault)
  | .var =>
    match Binding.read value with
    | .ok binding => .ok { reading with bindings := reading.bindings ++ [binding] }
    | .error fault => .error (.invalidBinding value fault)
  | .print =>
    if reading.print then .error (.repeated .print) else .ok { reading with print := true }

def settle (reading : Reading) : Except Complaint Reading :=
  match reading.pending with
  | none => .ok reading
  | some (flag, none) => .error (.missingValue flag)
  | some (flag, some value) => accept { reading with pending := none } flag value

def acceptNow (reading : Reading) (flag : Flag) (value : String) : Except Complaint Reading := do
  (← reading.settle).accept flag value

def await (reading : Reading) (flag : Flag) : Except Complaint Reading := do
  return { ← reading.settle with pending := some (flag, none) }

def readLong (reading : Reading) (body : List Char) : Except Complaint Reading :=
  let name := String.ofList (body.takeWhile (· ≠ '='))
  match Flag.all.find? (·.long = name), body.dropWhile (· ≠ '=') with
  | none, _ => .error (.unexpectedArgument ("--" ++ name))
  | some flag, [] => if flag.takesValue then reading.await flag else reading.acceptNow flag ""
  | some flag, _ :: value =>
    if flag.takesValue then reading.acceptNow flag (.ofList value)
    else .error (.unexpectedValue (.ofList value) flag)

def readShort (reading : Reading) : List Char → Except Complaint Reading
  | [] => .ok reading
  | c :: rest =>
    match Flag.all.find? (·.short = c) with
    | none => .error (.unexpectedArgument (.ofList ['-', c]))
    | some flag =>
      if flag.takesValue then
        match rest with
        | [] => reading.await flag
        | '=' :: value => reading.acceptNow flag (.ofList value)
        | value => reading.acceptNow flag (.ofList value)
      else do (← reading.acceptNow flag "").readShort rest

def step (reading : Reading) (argument : String) : Except Complaint Reading :=
  if reading.flagsEnded then .error (.unexpectedArgument argument)
  else match argument.toList with
    | ['-', '-'] => .ok { reading with flagsEnded := true }
    | '-' :: '-' :: body => reading.readLong body
    | '-' :: c :: rest => reading.readShort (c :: rest)
    | _ =>
      match reading.pending with
      | some (flag, none) => .ok { reading with pending := some (flag, some argument) }
      | _ => .error (.unexpectedArgument argument)

end Reading

def defaultDepth : Nat := 16

def readArguments (arguments : List String) : Except Complaint Settings := do
  let reading ← (← arguments.foldlM Reading.step .start).settle
  return ⟨reading.depth.getD defaultDepth, reading.bindings, reading.print⟩

structure Outcome where
  exitCode : Nat
  output : List String
  warned : Bool
  complaint : String

def warning : String := "rendered text grows exponentially with --depth"

def modestDepth : Nat := 10

def valueLayout : Decimal.Layout where
  positional _ := true
  keepsFraction := false

abbrev Report := ExceptT EvaluationError (StateM (List String))

def Report.line (text : String) : Report Unit := modifyThe (List String) (· ++ [text])

def Report.ofExcept {α : Type} : Except Error α → Report α
  | .ok a => pure a
  | .error error => throw (.expression error)

def report (settings : Settings) : Report Unit := do
  let (root, context) := (Ladder.build settings.depth).run .empty
  let root ← Report.ofExcept root
  if settings.print then
    Report.line (← Report.ofExcept (context.render root))
  match context.evaluate root settings.bindings with
  | .ok value => Report.line (valueLayout.write value)
  | .error error => throw error

def runSettings (settings : Settings) : Outcome :=
  let warned := settings.print && modestDepth < settings.depth
  match (report settings).run.run [] with
  | (.ok (), output) => ⟨0, output, warned, ""⟩
  | (.error error, output) => ⟨1, output, warned, "Error: " ++ error.message⟩

def run (arguments : List String) : Outcome :=
  match readArguments arguments with
  | .ok settings => runSettings settings
  | .error complaint => ⟨2, [], false, complaint.text⟩

end ExprGraph.CommandLine
