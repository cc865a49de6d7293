import Framecode.Command.Workspace
import Framecode.Proofs.Command.Hosts
import Framecode.Proofs.Text.Bytes

/-! Texts in files. A file is read as bytes, and the bytes of a text in UTF-8 are read as that text
and as no other. -/
namespace Framecode.Command

private theorem toList_loop (bytes : ByteArray) (index : Nat) (found : List UInt8) :
    ByteArray.toList.loop bytes index found = found.reverse ++ bytes.data.toList.drop index := by
  induction index, found using ByteArray.toList.loop.induct bytes with
  | case1 index found inside ih =>
    have bound : index < bytes.data.toList.length := inside
    have byte : bytes.get! index = bytes.data.toList[index] := by
      rw [Array.getElem_toList]
      exact getElem!_pos bytes.data index inside
    rw [ByteArray.toList.loop, if_pos inside, ih, List.drop_eq_getElem_cons bound, byte]
    simp
  | case2 index found outside =>
    have beyond : bytes.data.toList.length ≤ index := Nat.not_lt.mp outside
    rw [ByteArray.toList.loop, if_neg outside, List.drop_eq_nil_of_le beyond, List.append_nil]

private theorem bytesOf_eq_utf8 (text : String) :
    Workspace.bytesOf text = Text.utf8 text.toList := by
  rw [Workspace.bytesOf, ByteArray.toList, toList_loop, String.toUTF8, Text.toByteArray_eq_utf8]
  rfl

/-- The bytes of a text are read as that text. -/
theorem fromUTF8_bytesOf (text : String) :
    String.fromUTF8? ⟨(Workspace.bytesOf text).toArray⟩ = some text :=
  Text.fromUTF8_some_iff.mpr (bytesOf_eq_utf8 text)

/-- Bytes that are read as a text are the bytes of that text. -/
theorem bytesOf_of_fromUTF8 {bytes : List UInt8} {text : String}
    (read : String.fromUTF8? ⟨bytes.toArray⟩ = some text) : bytes = Workspace.bytesOf text := by
  rw [bytesOf_eq_utf8]
  exact Text.fromUTF8_some_iff.mp read

/-- A file that holds the bytes of a text is read as that text. -/
theorem Host.textAt_held {σ : Type} {host : Host (StateM σ)} {state : σ} {path text : String}
    {bytes : List UInt8} (held : ((host.readFile path).run state).1 = .ok bytes)
    (decoded : String.fromUTF8? ⟨bytes.toArray⟩ = some text) :
    host.textAt state path = .ok text := by
  simp only [textAt, held, decoded]

/-- Reading changes nothing in a workspace. -/
theorem Workspace.host_steady (stdin : List UInt8) : (Workspace.host stdin).Steady :=
  ⟨fun _ _ => rfl, fun _ => rfl⟩

end Framecode.Command
