import Framecode.Program

/-! Programs as XML documents. Instructions are written in the order of execution,
one element each, with their arguments numbered from one. -/
namespace Framecode.Interchange

/-- The spelling of a character in the text of an element. -/
def escapeChar (c : Char) : List Char :=
  if c = '&' then ['&', 'a', 'm', 'p', ';']
  else if c = '<' then ['&', 'l', 't', ';']
  else if c = '>' then ['&', 'g', 't', ';']
  else if c = '"' then ['&', 'q', 'u', 'o', 't', ';']
  else if c = '\x27' then ['&', 'a', 'p', 'o', 's', ';']
  else [c]

/-- The spelling of a text in an element. -/
def escape (text : String) : String := String.ofList (text.toList.flatMap escapeChar)

/-- The element of an argument with a given number. -/
def writeArgument (number : Nat) (arg : Argument) : String :=
  "    <arg" ++ toString number ++ " type=\"" ++ arg.kind.name ++ "\">" ++ escape arg.text ++
    "</arg" ++ toString number ++ ">\n"

/-- The elements of arguments, numbered from a start. -/
def writeArguments (start : Nat) : List Argument → String
  | [] => ""
  | arg :: rest => writeArgument start arg ++ writeArguments (start + 1) rest

/-- The element of an instruction. -/
def writeInstruction (instr : Instruction) : String :=
  "  <instruction order=\"" ++ toString instr.order.toNat ++ "\" opcode=\"" ++
    instr.opcode.mnemonic ++ "\">\n" ++ writeArguments 1 instr.args ++ "  </instruction>\n"

/-- The document of a program. -/
def write (program : Program) : String :=
  "<?xml version=\"1.0\" encoding=\"UTF-8\"?>\n<program language=\"IPPcode24\">\n" ++
    String.join (program.sorted.map writeInstruction) ++ "</program>\n"

end Framecode.Interchange
