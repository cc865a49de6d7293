import Framecode.Program
import Framecode.Source.Header

/-! The canonical source text of a program: the header, then one line for each
instruction, in the order of execution. -/
namespace Framecode.Source

/-- The source text of a program. -/
def listing (program : Program) : String :=
  header ++ "\n" ++ String.join (program.sorted.map fun instr => instr.display ++ "\n")

end Framecode.Source
