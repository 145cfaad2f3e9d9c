import Mathlib.Data.List.Basic

/-! A file of bytes as its contents, with the two calls that change it. -/

namespace RusqDoltlite.Effects

abbrev ByteFile := List UInt8

namespace ByteFile

/-- Puts `bytes` at `offset`. A gap behind the end is filled with zero bytes; a write of no
bytes does nothing. -/
def write (file : ByteFile) (offset : Nat) (bytes : List UInt8) : ByteFile :=
  if bytes = [] then file
  else
    file.take offset ++ List.replicate (offset - file.length) 0 ++ bytes ++
      file.drop (offset + bytes.length)

def truncate (file : ByteFile) (size : Nat) : ByteFile :=
  file.take size ++ List.replicate (size - file.length) 0

theorem length_write (file : ByteFile) (offset : Nat) (bytes : List UInt8) :
    (file.write offset bytes).length =
      if bytes.length = 0 then file.length else max file.length (offset + bytes.length) := by
  unfold write
  by_cases empty : bytes = []
  · simp [empty]
  · have nonempty : bytes.length ≠ 0 := by simpa using empty
    rw [if_neg empty, if_neg nonempty]
    simp only [List.length_append, List.length_take, List.length_replicate, List.length_drop]
    omega

theorem length_truncate (file : ByteFile) (size : Nat) : (file.truncate size).length = size := by
  simp only [truncate, List.length_append, List.length_take, List.length_replicate]
  omega

end ByteFile

end RusqDoltlite.Effects
