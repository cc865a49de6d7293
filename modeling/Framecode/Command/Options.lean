import Framecode.Source.Stats
import Framecode.Text.Cut

/-! The command line: which command is asked for, with what files and options,
and what is wrong with arguments that ask for none. -/
namespace Framecode.Command

/-- The commands that work on a program file. -/
inductive Verb where
  | run
  | parse
  | check
  | disassemble
  deriving DecidableEq, Repr

namespace Verb

/-- The word for a command. -/
def word : Verb → String
  | .run => "run"
  | .parse => "parse"
  | .check => "check"
  | .disassemble => "disassemble"

/-- How to call a command. -/
def usage : Verb → String
  | .run => "Usage: ippi run <program> [--input <file>]"
  | .parse => "Usage: ippi parse <source> [--stats=<file> <stat>...]..."
  | .check => "Usage: ippi check <source>"
  | .disassemble => "Usage: ippi disassemble <source>"

end Verb

/-- What can be wrong with the arguments of a command. -/
inductive Misuse where
  | sourceMissing
  | unexpected (arg : String)
  | inputMissing
  | inputTwice
  | statsMissing
  | statsTwice (path : String)
  | statAlone (arg : String)
  deriving DecidableEq, Repr

/-- The wording of a misuse of a command. -/
def Misuse.message (verb : Verb) : Misuse → String
  | .sourceMissing => s!"{verb.word} requires a source file"
  | .unexpected arg => s!"unexpected argument '{arg}'"
  | .inputMissing => "--input requires a file"
  | .inputTwice => "--input given more than once"
  | .statsMissing => "--stats requires a file"
  | .statsTwice path => s!"statistics file '{path}' given more than once"
  | .statAlone arg => s!"'{arg}' must follow --stats=<file>"

/-- A file of statistics and the records that are to be written to it. -/
structure StatsGroup where
  path : String
  records : List Source.Stat
  deriving DecidableEq, Repr

/-- What the command line asks for. -/
inductive Request where
  | run (program : String) (input : Option String)
  | parse (source : String) (groups : List StatsGroup)
  | check (program : String)
  | disassemble (program : String)
  | help
  deriving DecidableEq, Repr

/-- What is wrong with a command line. -/
inductive UsageError where
  | noCommand
  | unknownCommand (word : String)
  | misuse (verb : Verb) (problem : Misuse)
  deriving DecidableEq, Repr

/-- Whether an argument looks like an option. -/
def isOption (arg : String) : Bool := (Text.after? ['-', '-'] arg.toList).isSome

/-- The single source argument of a command that takes nothing else. -/
def readSource : List String → Except Misuse String
  | [] => .error .sourceMissing
  | [source] => .ok source
  | _ :: other :: _ => .error (.unexpected other)

/-- Read the arguments of a run, given the program and the input file found so far.
The first argument that is no option is the program. -/
def readRun (program input : Option String) :
    List String → Except Misuse (String × Option String)
  | [] =>
    match program with
    | none => .error .sourceMissing
    | some path => .ok (path, input)
  | arg :: rest =>
    if arg = "--input" then
      match rest with
      | [] => .error .inputMissing
      | path :: rest =>
        if input.isSome then .error .inputTwice else readRun program (some path) rest
    else if program.isNone && !isOption arg then readRun (some arg) input rest
    else .error (.unexpected arg)

/-- The record that an option asks for. -/
def statOption? (arg : String) : Option Source.Stat :=
  match arg with
  | "--loc" => some .loc
  | "--comments" => some .comments
  | "--labels" => some .labels
  | "--jumps" => some .jumps
  | "--fwjumps" => some .fwJumps
  | "--backjumps" => some .backJumps
  | "--badjumps" => some .badJumps
  | "--frequent" => some .frequent
  | "--eol" => some .eol
  | _ => (Text.after? "--print=".toList arg.toList).map fun text => .print (String.ofList text)

/-- The file that an option opens a group of statistics for. -/
def statsPath? (arg : String) : Option String :=
  (Text.after? "--stats=".toList arg.toList).map String.ofList

/-- Read the arguments of a parse, given the source and the groups found so far,
the latest group first. A record belongs to the group before it. -/
def readParse (source : Option String) (groups : List StatsGroup) :
    List String → Except Misuse (String × List StatsGroup)
  | [] =>
    match source with
    | none => .error .sourceMissing
    | some path => .ok (path, groups.reverse)
  | arg :: rest =>
    match statsPath? arg with
    | some path =>
      if path.isEmpty then .error .statsMissing
      else if groups.any (·.path == path) then .error (.statsTwice path)
      else readParse source (⟨path, []⟩ :: groups) rest
    | none =>
      match statOption? arg with
      | some stat =>
        match groups with
        | [] => .error (.statAlone arg)
        | group :: earlier =>
          readParse source ({ group with records := group.records ++ [stat] } :: earlier) rest
      | none =>
        if source.isNone && !isOption arg then readParse (some arg) groups rest
        else .error (.unexpected arg)

/-- Read the arguments of a command. -/
def Verb.request (verb : Verb) (args : List String) : Except Misuse Request :=
  match verb with
  | .run => (readRun none none args).map fun found => .run found.1 found.2
  | .parse => (readParse none [] args).map fun found => .parse found.1 found.2
  | .check => (readSource args).map .check
  | .disassemble => (readSource args).map .disassemble

/-- The command that a word names. -/
def Verb.ofWord? (text : String) : Option Verb :=
  [Verb.run, .parse, .check, .disassemble].find? (·.word == text)

/-- Read a command line. -/
def Request.ofArguments : List String → Except UsageError Request
  | [] => .error .noCommand
  | word :: args =>
    match Verb.ofWord? word with
    | some verb =>
      match verb.request args with
      | .ok request => .ok request
      | .error problem => .error (.misuse verb problem)
    | none =>
      if ["--help", "-h", "help"].contains word then .ok .help
      else .error (.unknownCommand word)

/-- What the tool can do, line by line. -/
def usageLines : List String :=
  [ "Usage: ippi <command> [args]",
    "",
    "Commands:",
    "  run <program> [--input <file>]  Execute a source or XML program",
    "  parse <source> [--stats=<file> <stat>...]...",
    "                                  Print the program as XML",
    "  check <program>                 Load a program without running it",
    "  disassemble <program>           Print canonical source text",
    "",
    "A program file starting with '<' is read as XML.",
    "",
    "Statistics (each --stats=<file> group is written to its file):",
    "  --loc --comments --labels --jumps --fwjumps --backjumps --badjumps",
    "  --frequent --print=<text> --eol",
    "",
    "Set IPPI_LOG (e.g. IPPI_LOG=debug) to enable engine logging." ]

/-- What the tool can do. -/
def usage : String := String.join (usageLines.map (· ++ "\n"))

/-- What a command line with a fault is answered with. -/
def UsageError.text : UsageError → String
  | .noCommand => usage
  | .unknownCommand word => s!"error: unknown command '{word}'\n\n" ++ usage
  | .misuse verb problem => s!"error: {problem.message verb}\n{verb.usage}\n"

end Framecode.Command
