import Mathlib.Data.List.Basic

/-! Percent-encoding. A set `keep` says which bytes stand for themselves, and every other byte is
written as an escape with upper-case digits. -/

namespace RusqDoltlite.Wire.Percent

def percent : UInt8 := 0x25

def upperDigit (value : UInt8) : UInt8 := if value < 10 then 0x30 + value else 0x37 + value

def digitValue (c : UInt8) : Option UInt8 :=
  if 0x30 ≤ c ∧ c ≤ 0x39 then some (c - 0x30)
  else if 0x41 ≤ c ∧ c ≤ 0x46 then some (c - 0x37)
  else if 0x61 ≤ c ∧ c ≤ 0x66 then some (c - 0x57)
  else none

def escaped (high low : UInt8) : Option UInt8 :=
  (digitValue high).bind fun hi => (digitValue low).map fun lo => hi <<< 4 ||| lo

def encodeByte (keep : UInt8 → Bool) (byte : UInt8) : List UInt8 :=
  if keep byte then [byte] else [percent, upperDigit (byte >>> 4), upperDigit (byte &&& 15)]

def encode (keep : UInt8 → Bool) (bytes : List UInt8) : List UInt8 := bytes.flatMap (encodeByte keep)

/-- A percent sign without two digits behind it stands for itself. -/
def decode : List UInt8 → List UInt8
  | [] => []
  | [a] => [a]
  | [a, b] => [a, b]
  | a :: b :: c :: rest =>
    if a = percent then
      match escaped b c with
      | some byte => byte :: decode rest
      | none => a :: decode (b :: c :: rest)
    else a :: decode (b :: c :: rest)

/-- Text in which every byte is written in the only way `encode` writes it. -/
def canonical (keep : UInt8 → Bool) : List UInt8 → Bool
  | [] => true
  | [a] => keep a
  | [a, b] => keep a && keep b
  | a :: b :: c :: rest =>
    if a = percent then
      match escaped b c with
      | some byte => !keep byte && upperDigit (byte >>> 4) == b && upperDigit (byte &&& 15) == c &&
          canonical keep rest
      | none => false
    else keep a && canonical keep (b :: c :: rest)

theorem forall_byte {p : UInt8 → Bool}
    (every : (List.finRange 256).all (fun value => p (UInt8.ofFin value)) = true) (byte : UInt8) :
    p byte = true :=
  List.all_eq_true.mp every byte.toFin (List.mem_finRange _)

theorem escaped_digits (byte : UInt8) :
    escaped (upperDigit (byte >>> 4)) (upperDigit (byte &&& 15)) = some byte :=
  beq_iff_eq.mp (forall_byte (p := fun byte =>
    escaped (upperDigit (byte >>> 4)) (upperDigit (byte &&& 15)) == some byte) (by decide +kernel) byte)

variable {keep : UInt8 → Bool}

theorem encode_cons (byte : UInt8) (bytes : List UInt8) :
    encode keep (byte :: bytes) = encodeByte keep byte ++ encode keep bytes := rfl

theorem encode_append (first second : List UInt8) :
    encode keep (first ++ second) = encode keep first ++ encode keep second :=
  List.flatMap_append

theorem digitValue_upperDigit (byte : UInt8) :
    (digitValue (upperDigit (byte >>> 4))).isSome && (digitValue (upperDigit (byte &&& 15))).isSome :=
  forall_byte (p := fun byte => (digitValue (upperDigit (byte >>> 4))).isSome &&
    (digitValue (upperDigit (byte &&& 15))).isSome) (by decide +kernel) byte

theorem not_mem_encode {c : UInt8} (replaced : keep c = false) (sign : c ≠ percent)
    (outside : digitValue c = none) (bytes : List UInt8) : c ∉ encode keep bytes := by
  intro member
  obtain ⟨byte, _, here⟩ := List.mem_flatMap.mp member
  have digits := Bool.and_eq_true_iff.mp (digitValue_upperDigit byte)
  rw [encodeByte] at here
  split at here
  · next kept =>
      rw [List.mem_singleton.mp here, kept] at replaced
      cases replaced
  · rcases List.mem_cons.mp here with first | later
    · exact sign first
    · rcases List.mem_cons.mp later with second | last
      · rw [← second, outside] at digits
        cases digits.1
      · rw [← List.mem_singleton.mp last, outside] at digits
        cases digits.2

theorem decode_cons {a : UInt8} (plain : a ≠ percent) (rest : List UInt8) :
    decode (a :: rest) = a :: decode rest := by
  match rest with
  | [] => rfl
  | [b] => rfl
  | b :: c :: rest => rw [decode, if_neg plain]

theorem decode_escape {b c byte : UInt8} (pair : escaped b c = some byte) (rest : List UInt8) :
    decode (percent :: b :: c :: rest) = byte :: decode rest := by
  rw [decode, if_pos rfl, pair]

theorem decode_encode_append (marked : keep percent = false) (bytes rest : List UInt8) :
    decode (encode keep bytes ++ rest) = bytes ++ decode rest := by
  induction bytes with
  | nil => rfl
  | cons byte bytes ih =>
    rw [encode_cons, encodeByte]
    split
    · next kept =>
        have plain : byte ≠ percent := by
          intro same
          rw [same, marked] at kept
          cases kept
        rw [List.append_assoc, List.cons_append, List.nil_append, decode_cons plain, ih, List.cons_append]
    · rw [List.append_assoc, List.cons_append, List.cons_append, List.cons_append, List.nil_append,
        decode_escape (escaped_digits byte), ih, List.cons_append]

theorem decode_encode (marked : keep percent = false) (bytes : List UInt8) :
    decode (encode keep bytes) = bytes := by
  have decoded := decode_encode_append marked bytes []
  rwa [List.append_nil, decode, List.append_nil] at decoded

theorem encodeByte_append_eq_iff {a : UInt8} (plain : a ≠ percent) (first rest : List UInt8) :
    encodeByte keep a ++ first = a :: rest ↔ keep a = true ∧ first = rest := by
  rw [encodeByte]
  split
  · next kept => simp [kept]
  · next escaped =>
      constructor
      · intro same
        exact absurd (List.cons.inj same).1.symm plain
      · intro both
        exact absurd both.1 escaped

theorem encodeByte_percent_append_eq_iff (marked : keep percent = false) (first rest : List UInt8) :
    encodeByte keep percent ++ first = percent :: rest ↔ 0x32 :: 0x35 :: first = rest := by
  rw [encodeByte, if_neg (by rw [marked]; exact Bool.false_ne_true), List.cons_append]
  exact ⟨fun same => (List.cons.inj same).2, fun same => congrArg (percent :: ·) same⟩

theorem keep_iff_encode_singleton (marked : keep percent = false) (a : UInt8) :
    keep a = true ↔ encode keep [a] = [a] := by
  rw [encode_cons]
  by_cases sign : a = percent
  · rw [sign, encodeByte_percent_append_eq_iff marked, marked]
    simp
  · rw [encodeByte_append_eq_iff sign]
    exact ⟨fun kept => ⟨kept, rfl⟩, fun both => both.1⟩

theorem canonical_cons {a : UInt8} (plain : a ≠ percent) (rest : List UInt8) :
    canonical keep (a :: rest) = (keep a && canonical keep rest) := by
  match rest with
  | [] => simp [canonical]
  | [b] => simp [canonical]
  | b :: c :: rest => rw [canonical, if_neg plain]

/-- The canonical texts are those that decoding and encoding leave as they are. -/
theorem canonical_iff (marked : keep percent = false) (text : List UInt8) :
    canonical keep text = true ↔ encode keep (decode text) = text := by
  induction text using decode.induct with
  | case1 => exact ⟨fun _ => rfl, fun _ => rfl⟩
  | case2 a => exact keep_iff_encode_singleton marked a
  | case3 a b =>
    rw [canonical, decode, encode_cons, Bool.and_eq_true]
    by_cases sign : a = percent
    · rw [sign, encodeByte_percent_append_eq_iff marked, marked]
      simp
    · rw [encodeByte_append_eq_iff sign, ← keep_iff_encode_singleton marked]
  | case4 b c rest byte pair ih =>
    rw [decode_escape pair, encode_cons, canonical, if_pos rfl, pair, encodeByte]
    simp only [Bool.and_eq_true, Bool.not_eq_true', beq_iff_eq]
    split
    · next kept =>
        have other : byte ≠ percent := by
          intro same
          rw [same, marked] at kept
          cases kept
        constructor
        · intro all
          rw [kept] at all
          cases all.1.1.1
        · intro same
          exact absurd (List.cons.inj same).1 other
    · next escape =>
        rw [ih, and_assoc, and_assoc]
        simp only [List.cons_append, List.nil_append, List.cons.injEq, true_and]
        exact ⟨fun all => all.2, fun all => ⟨Bool.eq_false_iff.mpr escape, all⟩⟩
  | case5 b c rest pair ih =>
    rw [decode, if_pos rfl, pair, encode_cons, canonical, if_pos rfl, pair,
      encodeByte_percent_append_eq_iff marked]
    constructor
    · intro kept
      cases kept
    · intro same
      have digits : b = 0x32 ∧ c = 0x35 := by
        injection same with first later
        injection later with second later
        exact ⟨first.symm, second.symm⟩
      rw [digits.1, digits.2] at pair
      cases pair
  | case6 a b c rest sign ih =>
    rw [decode_cons sign, encode_cons, canonical_cons sign, Bool.and_eq_true, ih,
      encodeByte_append_eq_iff sign]

theorem canonical_encode (marked : keep percent = false) (bytes : List UInt8) :
    canonical keep (encode keep bytes) = true := by
  rw [canonical_iff marked, decode_encode marked]

theorem canonical_append (marked : keep percent = false) {c : UInt8} (outside : digitValue c = none)
    (front rest : List UInt8) :
    canonical keep (front ++ c :: rest) = (canonical keep front && canonical keep (c :: rest)) := by
  have cut : ∀ a : UInt8, canonical keep (a :: c :: rest) = (keep a && canonical keep (c :: rest)) := by
    intro a
    by_cases sign : a = percent
    · subst sign
      rw [marked, Bool.false_and]
      cases rest with
      | nil => rw [canonical, marked, Bool.false_and]
      | cons d rest => rw [canonical, if_pos rfl, escaped, outside, Option.bind_none]
    · exact canonical_cons sign _
  induction front using decode.induct with
  | case1 => rw [canonical, Bool.true_and, List.nil_append]
  | case2 a => exact cut a
  | case3 a b =>
    rw [List.cons_append, List.cons_append, List.nil_append]
    by_cases sign : a = percent
    · subst sign
      have broken : escaped b c = none := by
        rw [escaped, outside]
        cases digitValue b <;> rfl
      have left : canonical keep (percent :: b :: c :: rest) = false := by
        rw [canonical, if_pos rfl, broken]
      rw [left, canonical, marked, Bool.false_and, Bool.false_and]
    · rw [canonical_cons sign, cut b, canonical, Bool.and_assoc]
  | case4 b d front byte pair ih =>
    rw [List.cons_append, List.cons_append, List.cons_append, canonical, canonical, if_pos rfl, if_pos rfl,
      pair]
    simp only [ih, Bool.and_assoc]
  | case5 b d front pair ih =>
    rw [List.cons_append, List.cons_append, List.cons_append, canonical, canonical, if_pos rfl, if_pos rfl,
      pair, Bool.false_and]
  | case6 a b d front sign ih =>
    rw [List.cons_append, canonical_cons sign, canonical_cons sign, ih, Bool.and_assoc]

end RusqDoltlite.Wire.Percent
