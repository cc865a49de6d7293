/-! Output sinks. A sink takes or refuses each text as a whole, and may go by what
it has taken so far. -/
namespace Framecode.Engine

/-- A sink: given the texts taken so far, the latest one first, and the next text,
the reason to refuse it, if there is one. -/
structure Sink where
  refusal : List String → String → Option String

namespace Sink

/-- The sink that takes everything. -/
def accepting : Sink := ⟨fun _ _ => none⟩

/-- The number of bytes of texts in UTF-8. -/
def byteSize : List String → Nat
  | [] => 0
  | text :: rest => text.utf8ByteSize + byteSize rest

/-- The sink that takes a limited number of bytes in all, and refuses every text
that would exceed it for the reason given. An empty text is never refused. -/
def limited (limit : Nat) (reason : String) : Sink :=
  ⟨fun taken text =>
    if text.isEmpty || byteSize taken + text.utf8ByteSize ≤ limit then none else some reason⟩

end Sink

end Framecode.Engine
