import Framecode.Command.Host
import Framecode.Command.Options
import Framecode.Engine.Run
import Framecode.Interchange.Read
import Framecode.Interchange.Write
import Framecode.Source.Assemble
import Framecode.Source.Listing

/-! Carrying out requests. Every stage that fails ends the command with a status
of its own and a message; nothing is printed then, apart from what a program has
written before its fault. -/
namespace Framecode.Command

open Engine (Machine Code Sink Input State)

/-- What a command leaves behind: its status and what it prints. Log events are not part of it:
they are all meant for debugging or tracing, and the default filter of the log lets none of them
through to the standard error. -/
structure Report where
  status : Nat
  stdout : String := ""
  stderr : String := ""
  deriving DecidableEq, Repr

namespace Report

/-- The report of a command that could not be understood. -/
def usage (error : UsageError) : Report := { status := 10, stderr := error.text }

/-- The report of a file that could not be read. -/
def unreadable (path : String) (error : FileError) : Report :=
  { status := 11, stderr := s!"error: cannot read '{path}': {error.message}\n" }

/-- The report of a file that could not be written. -/
def unwritable (path : String) (error : FileError) : Report :=
  { status := 12, stderr := s!"error: cannot write '{path}': {error.message}\n" }

/-- The report of a program text with a fault. -/
def rejected (path : String) (status : Nat) (message : String) : Report :=
  { status, stderr := s!"error: {path}: {message}\n" }

/-- The report of a program that failed to load or to run, after it had written
some output. -/
def failed (fault : Engine.Fault) (stdout : String) : Report :=
  { status := fault.exitCode, stdout, stderr := s!"error: {fault.message}\n" }

end Report

/-- Whether a text is a document rather than source text: its first character that
is neither blank nor a byte order mark at the start is an opening bracket. -/
def isDocument (text : String) : Bool :=
  (Text.trimStart (text.toList.dropWhile (· == '\uFEFF'))).head? == some '<'

/-- Read a program in either form. The path and the parser's complaint are for the report. -/
def readProgram (complaint : Interchange.Complaint) (path text : String) :
    Except Report Program :=
  if isDocument text then
    match Interchange.read text with
    | .ok program => .ok program
    | .error error => .error (.rejected path error.exitCode (error.message complaint))
  else
    match Source.assemble text with
    | .ok program => .ok program
    | .error error => .error (.rejected path error.problem.exitCode error.message)

/-- Read a source text with its statistics. The path is for the report. -/
def readSourceText (path text : String) : Except Report (Program × Source.Stats) :=
  match Source.assembleWithStats text with
  | .ok result => .ok result
  | .error error => .error (.rejected path error.problem.exitCode error.message)

/-- The report of a check. -/
def checkReport (path : String) (program : Program) : Report :=
  match Code.load program with
  | .error fault => .failed fault ""
  | .ok code =>
    { status := 0
      stdout := s!"OK: {path} ({code.size} instructions, {code.labels.size} labels)\n" }

/-- The report of a run on some input. There is none when the fuel is used up. -/
def runReport (fuel : Nat) (program : Program) (input : Input) : Option Report :=
  match Code.load program with
  | .error fault => some (.failed fault "")
  | .ok code =>
    let ended := Machine.run ⟨code, Sink.accepting⟩ fuel (State.initial input)
    ended.outcome.map fun outcome =>
      match outcome with
      | .failed fault => .failed fault ended.state.output
      | other => { status := other.status, stdout := ended.state.output }

section

variable {m : Type → Type} [Monad m] (host : Host m)

/-- The text of a file, which has to be UTF-8. -/
def readText (path : String) : ExceptT Report m String := do
  match ← host.readFile path with
  | .error error => throw (.unreadable path error)
  | .ok bytes =>
    match String.fromUTF8? ⟨bytes.toArray⟩ with
    | some text => return text
    | none => throw (.unreadable path .notText)

/-- The program in a file. -/
def loadFile (path : String) : ExceptT Report m Program := do
  let text ← readText host path
  ExceptT.mk (pure (readProgram (host.complaint text) path text))

/-- Write the report of every group to its file. -/
def writeGroups (stats : Source.Stats) : List StatsGroup → ExceptT Report m Unit
  | [] => return ()
  | group :: rest => do
    match ← host.writeFile group.path (stats.report group.records) with
    | .error error => throw (.unwritable group.path error)
    | .ok () => writeGroups stats rest

/-- The bytes that a run reads from. A directory can be named too, and there is
nothing to read in it. -/
def inputBytes : Option String → ExceptT Report m (List UInt8)
  | none => host.readInput
  | some path => do
    match ← host.readFile path with
    | .error .isDirectory => return []
    | .error error => throw (.unreadable path error)
    | .ok bytes => return bytes

/-- Carry out a request. A run is given fuel, and has no report when that is used
up. -/
def Request.perform (fuel : Nat) : Request → ExceptT Report m (Option Report)
  | .help => return some { status := 0, stderr := Command.usage }
  | .run path input => do
    let program ← loadFile host path
    let bytes ← inputBytes host input
    return runReport fuel program ⟨bytes⟩
  | .parse path groups => do
    let text ← readText host path
    let (program, stats) ← ExceptT.mk (pure (readSourceText path text))
    writeGroups host stats groups
    return some { status := 0, stdout := Interchange.write program }
  | .check path => do
    let program ← loadFile host path
    return some (checkReport path program)
  | .disassemble path => do
    let program ← loadFile host path
    return some { status := 0, stdout := Source.listing program }

/-- Carry out a command line. -/
def invoke (fuel : Nat) (args : List String) : m (Option Report) :=
  match Request.ofArguments args with
  | .error error => pure (some (.usage error))
  | .ok request => do
    match ← (request.perform host fuel).run with
    | .ok report => pure report
    | .error report => pure (some report)

end

end Framecode.Command
