import SecretTally.Checked
import SecretTally.Number.Bytes
import SecretTally.Number.Words

/-! Integers of the working width from bytes, by way of a buffer as wide as they are. The last bytes
are written to its end, zeros stay in front of them, and the buffer is read as words. Every difference,
slice and copy is tested, and one that does not exist leaves no result at all. -/

namespace SecretTally

namespace Bytes
open Checked

def width : Nat := Decimal.width / 8

def overwrite? (start : Nat) (buffer source : List UInt8) : Option (List UInt8) := do
  let target ← from? start buffer
  if target.length = source.length then some (buffer.take start ++ source) else none

/-- A buffer of the working width that ends with the bytes, or with the last ones if it is too short. -/
def buffered? (bytes : List UInt8) : Option (List UInt8) := do
  let buffer := List.replicate width 0
  let length := min bytes.length buffer.length
  let offset ← difference? buffer.length length
  let source ← from? (← difference? bytes.length length) bytes
  overwrite? offset buffer source

end Bytes

namespace Words

def ofBytes (bytes : List UInt8) : UInt64 :=
  bytes.foldl (fun w b => (w <<< 8) ||| b.toUInt64) 0

def ofBuffer : (count : Nat) → (buffer : List UInt8) → List UInt64
  | 0, _ => []
  | count + 1, buffer => ofBuffer count (buffer.drop 8) ++ [ofBytes (buffer.take 8)]

theorem length_ofBuffer (count : Nat) (buffer : List UInt8) :
    (ofBuffer count buffer).length = count := by
  induction count generalizing buffer with
  | zero => rfl
  | succ count ih => rw [ofBuffer, List.length_append, ih, List.length_singleton]

end Words

namespace WideInt

def ofBuffer? (buffer : List UInt8) : Option WideInt :=
  if buffer.length = Bytes.width then
    some ⟨Words.ofBuffer 32 buffer, Words.length_ofBuffer 32 buffer⟩
  else none

def ofBytes? (bytes : List UInt8) : Option WideInt := do ofBuffer? (← Bytes.buffered? bytes)

end WideInt
end SecretTally
