import Mathlib.Data.List.Induction
import Mathlib.Algebra.Order.Group.Nat

/-! Unsigned integers as a fixed number of bytes, the most significant one first. -/

namespace RusqDoltlite.Wire

def putBe : Nat → Nat → List UInt8
  | 0, _ => []
  | width + 1, value => putBe width (value / 256) ++ [UInt8.ofNat value]

def getBe (bytes : List UInt8) : Nat :=
  bytes.foldl (fun value byte => value * 256 + byte.toNat) 0

@[simp] theorem length_putBe (width value : Nat) : (putBe width value).length = width := by
  induction width generalizing value with
  | zero => rfl
  | succ width ih => simp [putBe, ih]

@[simp] theorem getBe_nil : getBe [] = 0 := rfl

theorem getBe_append_byte (bytes : List UInt8) (byte : UInt8) :
    getBe (bytes ++ [byte]) = getBe bytes * 256 + byte.toNat := by
  simp [getBe]

theorem getBe_putBe (width value : Nat) : getBe (putBe width value) = value % 256 ^ width := by
  induction width generalizing value with
  | zero => simp [putBe, Nat.mod_one]
  | succ width ih =>
    have low : (UInt8.ofNat value).toNat = value % 256 := by simp
    rw [putBe, getBe_append_byte, ih, low, Nat.pow_succ', Nat.mod_mul]
    omega

theorem getBe_putBe_of_lt {width value : Nat} (small : value < 256 ^ width) :
    getBe (putBe width value) = value := by
  rw [getBe_putBe, Nat.mod_eq_of_lt small]

theorem getBe_lt (bytes : List UInt8) : getBe bytes < 256 ^ bytes.length := by
  induction bytes using List.reverseRecOn with
  | nil => simp
  | append_singleton bytes byte ih =>
    have small : byte.toNat < 256 := byte.toNat_lt
    rw [getBe_append_byte, List.length_append, List.length_singleton, Nat.pow_succ]
    omega

theorem putBe_getBe (bytes : List UInt8) : putBe bytes.length (getBe bytes) = bytes := by
  induction bytes using List.reverseRecOn with
  | nil => rfl
  | append_singleton bytes byte ih =>
    have small : byte.toNat < 256 := byte.toNat_lt
    have high : (getBe bytes * 256 + byte.toNat) / 256 = getBe bytes := by omega
    have low : UInt8.ofNat (getBe bytes * 256 + byte.toNat) = byte := by
      apply UInt8.toNat_inj.mp
      rw [UInt8.toNat_ofNat']
      omega
    rw [getBe_append_byte, List.length_append, List.length_singleton, putBe, high, low, ih]

theorem putBe_getBe_of_length {bytes : List UInt8} {width : Nat} (length : bytes.length = width) :
    putBe width (getBe bytes) = bytes := by
  subst length
  exact putBe_getBe bytes

theorem putBe_inj {width first second : Nat} (small : first < 256 ^ width)
    (fits : second < 256 ^ width) (same : putBe width first = putBe width second) :
    first = second := by
  calc
    first = getBe (putBe width first) := (getBe_putBe_of_lt small).symm
    _ = getBe (putBe width second) := by rw [same]
    _ = second := getBe_putBe_of_lt fits

def prefixed (width : Nat) (field : List UInt8) : List UInt8 := putBe width field.length ++ field

/-- Fields behind their lengths can be told apart, whatever follows them. -/
theorem prefixed_append_inj {width : Nat} {first second rest rest' : List UInt8}
    (small : first.length < 256 ^ width) (fits : second.length < 256 ^ width)
    (same : prefixed width first ++ rest = prefixed width second ++ rest') :
    first = second ∧ rest = rest' := by
  rw [prefixed, prefixed, List.append_assoc, List.append_assoc] at same
  have lengths := List.append_inj same (by rw [length_putBe, length_putBe])
  have length := putBe_inj small fits lengths.1
  exact List.append_inj lengths.2 length

end RusqDoltlite.Wire
