import Mathlib.Data.List.Basic
import Mathlib.Tactic.IntervalCases
import RusqDoltlite.Wire.Table
import RusqDoltlite.Session.Record

/-! The text form of session ids and hashes. Text is a list of bytes without the terminator. -/

namespace RusqDoltlite.Codec

open Wire Session

theorem bind_eq_ok {ε α β : Type} {step : Except ε α} {next : α → Except ε β} {value : β} :
    (step >>= next) = .ok value ↔ ∃ middle, step = .ok middle ∧ next middle = .ok value := by
  cases step <;> simp [bind, Except.bind]

theorem unit_bind_eq_ok {ε α : Type} {step : Except ε Unit} {next : Unit → Except ε α} {value : α} :
    (step >>= next) = .ok value ↔ step = .ok () ∧ next () = .ok value := by
  rw [bind_eq_ok]
  exact ⟨fun found => ⟨found.choose_spec.1, found.choose_spec.2⟩, fun both => ⟨(), both⟩⟩

abbrev Fixed (size : Nat) := { bytes : Bytes // bytes.length = size }

abbrev Uuid := Fixed 16

abbrev Hash := Fixed 32

def hexValue (char : UInt8) : Option UInt8 :=
  if 0x30 ≤ char ∧ char ≤ 0x39 then some (char - 0x30)
  else if 0x61 ≤ char ∧ char ≤ 0x66 then some (char - 0x61 + 10)
  else if 0x41 ≤ char ∧ char ≤ 0x46 then some (char - 0x41 + 10)
  else none

def hexDigit (value : UInt8) : UInt8 := if value < 10 then 0x30 + value else 0x61 + (value - 10)

def hexByte (high low : UInt8) : Option UInt8 := do
  let hi ← hexValue high
  let lo ← hexValue low
  some (hi <<< 4 ||| lo)

theorem hexByte_digits (byte : UInt8) :
    hexByte (hexDigit (byte >>> 4)) (hexDigit (byte &&& 15)) = some byte := by
  have every : ∀ value : Fin 256, hexByte (hexDigit (UInt8.ofFin value >>> 4))
      (hexDigit (UInt8.ofFin value &&& 15)) = some (UInt8.ofFin value) := by decide +kernel
  exact every byte.toFin

def hexEncode (bytes : Bytes) : Bytes :=
  bytes.flatMap fun byte : UInt8 => [hexDigit (byte >>> 4), hexDigit (byte &&& 15)]

def dashAt (position : Nat) : Bool :=
  position == 8 || position == 13 || position == 18 || position == 23

def uuidBytes : Nat → Bytes → Option Bytes
  | _, [] => some []
  | position, [char] => if dashAt position && char == 0x2d then some [] else none
  | position, char :: next :: rest =>
    if dashAt position then
      if char = 0x2d then uuidBytes (position + 1) (next :: rest) else none
    else do
      let byte ← hexByte char next
      let others ← uuidBytes (position + 2) rest
      some (byte :: others)

def uuidDecode (text : Bytes) : Option Uuid := do
  if text.length = 36 then
    let bytes ← uuidBytes 0 text
    if size : bytes.length = 16 then
      if allZero bytes then none else some ⟨bytes, size⟩
    else none
  else none

def uuidText : Nat → Bytes → Bytes
  | _, [] => []
  | i, byte :: rest =>
    hexDigit (byte >>> 4) :: hexDigit (byte &&& 15) ::
      (if i = 3 ∨ i = 5 ∨ i = 7 ∨ i = 9 then 0x2d :: uuidText (i + 1) rest
      else uuidText (i + 1) rest)

def uuidEncode (uuid : Uuid) : Bytes := uuidText 0 uuid.1

/-- Where the digits of a byte stand in the text: the dashes follow bytes 3, 5, 7 and 9. -/
def digitsAt (i : Nat) : Nat := 2 * i + min ((i - 2) / 2) 4

variable {i : Nat} {bytes text : Bytes} {uuid : Uuid}

theorem digitsAt_dash (dash : i = 3 ∨ i = 5 ∨ i = 7 ∨ i = 9) :
    digitsAt (i + 1) = digitsAt i + 2 + 1 ∧ dashAt (digitsAt i + 2) = true := by
  rcases dash with rfl | rfl | rfl | rfl <;> decide

theorem digitsAt_plain (small : i < 16) (plain : ¬ (i = 3 ∨ i = 5 ∨ i = 7 ∨ i = 9)) :
    digitsAt (i + 1) = digitsAt i + 2 := by
  unfold digitsAt
  omega

theorem dashAt_digitsAt (small : i < 16) : dashAt (digitsAt i) = false := by
  interval_cases i <;> rfl

theorem exists_two (long : 2 ≤ text.length) : ∃ char following others, text = char :: following :: others := by
  match text, long with
  | char :: following :: others, _ => exact ⟨char, following, others, rfl⟩

theorem uuidText_length (size : i + bytes.length = 16) :
    digitsAt i + (uuidText i bytes).length = 36 := by
  induction bytes generalizing i with
  | nil =>
    have all : i = 16 := size
    subst all
    rfl
  | cons byte rest ih =>
    have next : i + 1 + rest.length = 16 := by
      simp only [List.length_cons] at size
      omega
    have tail := ih next
    have small : i < 16 := by omega
    simp only [uuidText]
    split
    · rename_i dash
      have step := digitsAt_dash dash
      simp only [List.length_cons]
      omega
    · rename_i plain
      have step := digitsAt_plain small plain
      simp only [List.length_cons]
      omega

theorem uuidBytes_text (size : i + bytes.length = 16) :
    uuidBytes (digitsAt i) (uuidText i bytes) = some bytes := by
  induction bytes generalizing i with
  | nil => rfl
  | cons byte rest ih =>
    have next : i + 1 + rest.length = 16 := by
      simp only [List.length_cons] at size
      omega
    have tail := ih next
    have small : i < 16 := by omega
    have digits := dashAt_digitsAt small
    rw [uuidText, uuidBytes, if_neg (by simp [digits]), hexByte_digits, Option.bind_eq_bind,
      Option.bind_some]
    split
    · rename_i dash
      -- a dash follows: the loop steps over it before the next byte
      obtain ⟨step, here⟩ := digitsAt_dash dash
      obtain ⟨after, others, more⟩ : ∃ after others, uuidText (i + 1) rest = after :: others := by
        cases rest with
        | nil => rcases dash with rfl | rfl | rfl | rfl <;> cases next
        | cons following others => exact ⟨_, _, rfl⟩
      rw [more] at tail
      rw [more, uuidBytes, if_pos here, if_pos rfl, ← step, tail]
      rfl
    · rename_i plain
      have step := digitsAt_plain small plain
      rw [← step, tail]
      rfl

theorem length_uuidEncode (uuid : Uuid) : (uuidEncode uuid).length = 36 := by
  have length := @uuidText_length 0 uuid.1 (by rw [uuid.2])
  simpa [digitsAt, uuidEncode] using length

theorem uuidDecode_encode (present : allZero uuid.1 = false) :
    uuidDecode (uuidEncode uuid) = some uuid := by
  have bytes : uuidBytes 0 (uuidEncode uuid) = some uuid.1 :=
    uuidBytes_text (i := 0) (by rw [uuid.2])
  simp [uuidDecode, length_uuidEncode, bytes, uuid.2, present]

theorem uuidDecode_present (decoded : uuidDecode text = some uuid) : allZero uuid.1 = false := by
  simp only [uuidDecode, Option.bind_eq_bind] at decoded
  split at decoded
  · obtain ⟨bytes, read, rest⟩ := Option.bind_eq_some_iff.mp decoded
    split at rest
    · split at rest
      · cases rest
      · rename_i present
        cases rest
        simpa using present
    · cases rest
  · cases decoded

theorem uuidDecode_canonical (decoded : uuidDecode text = some uuid) :
    uuidDecode (uuidEncode uuid) = some uuid :=
  uuidDecode_encode (uuidDecode_present decoded)

def lower (char : UInt8) : UInt8 := if 0x41 ≤ char ∧ char ≤ 0x5a then char + 0x20 else char

theorem hexDigit_hexValue {char value : UInt8} (digit : hexValue char = some value) :
    value < 16 ∧ hexDigit value = lower char := by
  have every : ∀ char : Fin 256, (hexValue (UInt8.ofFin char)).all
      (fun value => value < 16 && hexDigit value == lower (UInt8.ofFin char)) = true := by decide +kernel
  have here : (hexValue char).all (fun value => value < 16 && hexDigit value == lower char) = true :=
    every char.toFin
  simpa [digit] using here

theorem nibbles {high low : UInt8} (first : high < 16) (second : low < 16) :
    (high <<< 4 ||| low) >>> 4 = high ∧ (high <<< 4 ||| low) &&& 15 = low := by
  have every : ∀ high low : Fin 16,
      (UInt8.ofNat high.1 <<< 4 ||| UInt8.ofNat low.1) >>> 4 = UInt8.ofNat high.1 ∧
        (UInt8.ofNat high.1 <<< 4 ||| UInt8.ofNat low.1) &&& 15 = UInt8.ofNat low.1 := by
    decide +kernel
  have both := every ⟨high.toNat, UInt8.lt_iff_toNat_lt.mp first⟩
    ⟨low.toNat, UInt8.lt_iff_toNat_lt.mp second⟩
  simpa using both

theorem hexByte_eq_some {high low byte : UInt8} (pair : hexByte high low = some byte) :
    hexDigit (byte >>> 4) = lower high ∧ hexDigit (byte &&& 15) = lower low := by
  simp only [hexByte, Option.bind_eq_bind] at pair
  obtain ⟨hi, first, rest⟩ := Option.bind_eq_some_iff.mp pair
  obtain ⟨lo, second, whole⟩ := Option.bind_eq_some_iff.mp rest
  cases whole
  have upper := hexDigit_hexValue first
  have under := hexDigit_hexValue second
  have parts := nibbles upper.1 under.1
  rw [parts.1, parts.2]
  exact ⟨upper.2, under.2⟩

theorem uuidText_uuidBytes (size : i + bytes.length = 16) (length : digitsAt i + text.length = 36)
    (read : uuidBytes (digitsAt i) text = some bytes) :
    uuidText i bytes = text.map lower := by
  induction bytes generalizing i text with
  | nil =>
    have last : i = 16 := size
    subst last
    have empty : text = [] := List.eq_nil_of_length_eq_zero (by simpa [digitsAt] using length)
    subst empty
    rfl
  | cons byte rest ih =>
    have next : i + 1 + rest.length = 16 := by
      simp only [List.length_cons] at size
      omega
    have small : i < 16 := by omega
    have digits := dashAt_digitsAt small
    have long : 2 ≤ text.length := by
      unfold digitsAt at length
      omega
    obtain ⟨char, following, others, rfl⟩ := exists_two long
    simp only [uuidBytes, digits, Bool.false_eq_true, if_false, Option.bind_eq_bind] at read
    obtain ⟨first, pair, tail⟩ := Option.bind_eq_some_iff.mp read
    obtain ⟨remaining, tail, same⟩ := Option.bind_eq_some_iff.mp tail
    cases same
    have shown := hexByte_eq_some pair
    simp only [List.length_cons] at length
    rw [uuidText, shown.1, shown.2, List.map_cons, List.map_cons]
    split
    · rename_i dash
      obtain ⟨step, here⟩ := digitsAt_dash dash
      have more : 2 ≤ others.length := by
        unfold digitsAt at length
        omega
      obtain ⟨hyphen, after, later, rfl⟩ := exists_two more
      rw [uuidBytes, if_pos here] at tail
      split at tail
      · rename_i hyphenated
        rw [← step] at tail
        simp only [List.length_cons] at length
        have rest := @ih (i + 1) (after :: later) next (by simp only [List.length_cons]; omega) tail
        rw [rest, hyphenated]
        rfl
      · cases tail
    · rename_i plain
      have step := digitsAt_plain small plain
      rw [← step] at tail
      rw [ih next (by omega) tail]

theorem uuidEncode_decoded (decoded : uuidDecode text = some uuid) :
    uuidEncode uuid = text.map lower := by
  simp only [uuidDecode, Option.bind_eq_bind] at decoded
  split at decoded
  swap
  · cases decoded
  rename_i length
  obtain ⟨bytes, read, rest⟩ := Option.bind_eq_some_iff.mp decoded
  split at rest
  swap
  · cases rest
  rename_i size
  split at rest
  · cases rest
  cases rest
  exact uuidText_uuidBytes (i := 0) (by simpa using size) (by simpa [digitsAt] using length) read

end RusqDoltlite.Codec
