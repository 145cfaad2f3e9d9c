import Mathlib.Data.List.TakeWhile

/-! ASCII text as bytes; text in two parts around the first separator; fields of a byte string at
fixed offsets; tables of rows of one width in it, and search in a table sorted by a key. -/

namespace RusqDoltlite.Wire

def ascii (text : String) : List UInt8 := text.toByteArray.data.toList

def isDigit (char : UInt8) : Bool := 0x30 ≤ char && char ≤ 0x39

section

variable {α : Type} [DecidableEq α] {c : α} {front : List α} (plain : c ∉ front)
include plain

theorem all_ne : ∀ d ∈ front, (d != c) = true := fun _ member =>
  bne_iff_ne.mpr (ne_of_mem_of_not_mem member plain)

theorem takeWhile_ne_append (rest : List α) : (front ++ c :: rest).takeWhile (· != c) = front := by
  rw [List.takeWhile_append_of_pos (all_ne plain), List.takeWhile_cons, if_neg (by simp), List.append_nil]

theorem dropWhile_ne_append (rest : List α) : (front ++ c :: rest).dropWhile (· != c) = c :: rest := by
  rw [List.dropWhile_append_of_pos (all_ne plain), List.dropWhile_cons, if_neg (by simp)]

theorem takeWhile_ne_self : front.takeWhile (· != c) = front :=
  List.takeWhile_eq_self_iff.mpr (all_ne plain)

theorem dropWhile_ne_self : front.dropWhile (· != c) = [] :=
  List.dropWhile_eq_nil_iff.mpr (all_ne plain)

theorem append_cons_inj {front' : List α} (plain' : c ∉ front') (rest rest' : List α) :
    front ++ c :: rest = front' ++ c :: rest' ↔ front = front' ∧ rest = rest' := by
  constructor
  · intro same
    have first : front = front' := by
      rw [← takeWhile_ne_append plain rest, same, takeWhile_ne_append plain']
    subst first
    exact ⟨rfl, (List.cons.inj (List.append_cancel_left same)).2⟩
  · intro both
    rw [both.1, both.2]

end

theorem not_mem_takeWhile_ne {α : Type} [DecidableEq α] (c : α) (text : List α) :
    c ∉ text.takeWhile (· != c) := by
  intro member
  have test := List.mem_takeWhile_imp member
  simp at test

theorem split_first {α : Type} [DecidableEq α] (c : α) (text : List α) :
    c ∉ text ∨ ∃ front rest, c ∉ front ∧ text = front ++ c :: rest := by
  induction text with
  | nil => exact .inl List.not_mem_nil
  | cons d text ih =>
    by_cases same : d = c
    · subst same
      exact .inr ⟨[], text, List.not_mem_nil, rfl⟩
    · rcases ih with free | ⟨front, rest, plain, whole⟩
      · exact .inl (by simp [free, Ne.symm same])
      · exact .inr ⟨d :: front, rest, by simp [plain, Ne.symm same], by rw [whole, List.cons_append]⟩

/-- The `count` bytes from `offset` on, or fewer where the string ends before. -/
def slice (bytes : List UInt8) (offset count : Nat) : List UInt8 :=
  (bytes.drop offset).take count

@[simp] theorem length_slice (bytes : List UInt8) (offset count : Nat) :
    (slice bytes offset count).length = min count (bytes.length - offset) := by
  simp [slice]

theorem length_slice_of_le {bytes : List UInt8} {offset count : Nat}
    (inside : offset + count ≤ bytes.length) : (slice bytes offset count).length = count := by
  rw [length_slice]
  omega

theorem slice_append_slice (bytes : List UInt8) (offset first second : Nat) :
    slice bytes offset first ++ slice bytes (offset + first) second =
      slice bytes offset (first + second) := by
  simp only [slice, ← List.drop_drop]
  rw [← List.take_add]

theorem slice_all (bytes : List UInt8) : slice bytes 0 bytes.length = bytes := by
  simp [slice]

theorem slice_front {field rest : List UInt8} {count : Nat} (width : field.length = count) :
    slice (field ++ rest) 0 count = field := by
  simp [slice, ← width]

theorem slice_slice {bytes : List UInt8} {offset count inner width : Nat} (inside : inner + width ≤ count) :
    slice (slice bytes offset count) inner width = slice bytes (offset + inner) width := by
  simp only [slice, List.drop_take, List.take_take, List.drop_drop]
  congr 1
  omega

def slices (bytes : List UInt8) : Nat → List Nat → List (List UInt8)
  | _, [] => []
  | offset, width :: widths => slice bytes offset width :: slices bytes (offset + width) widths

def span : List Nat → Nat
  | [] => 0
  | width :: widths => width + span widths

theorem length_flatten_eq_span (fields : List (List UInt8)) :
    fields.flatten.length = span (fields.map List.length) := by
  induction fields with
  | nil => rfl
  | cons field fields ih => rw [List.flatten_cons, List.length_append, List.map_cons, span, ih]

theorem span_append (front back : List Nat) : span (front ++ back) = span front + span back := by
  induction front with
  | nil => simp [span]
  | cons width front ih =>
    rw [List.cons_append, span, span, ih]
    omega

theorem slices_flatten (front : List UInt8) (fields : List (List UInt8)) :
    slices (front ++ fields.flatten) front.length (fields.map List.length) = fields := by
  induction fields generalizing front with
  | nil => rfl
  | cons field fields ih =>
    have here : slice (front ++ (field :: fields).flatten) front.length field.length = field := by
      simp [slice]
    have tail := ih (front ++ field)
    rw [List.append_assoc, List.length_append] at tail
    rw [List.map_cons, slices, here, List.flatten_cons, tail]

theorem flatten_slices (bytes : List UInt8) (offset : Nat) (widths : List Nat) :
    (slices bytes offset widths).flatten = slice bytes offset (span widths) := by
  induction widths generalizing offset with
  | nil => simp [slices, span, slice]
  | cons width widths ih =>
    rw [slices, span, List.flatten_cons, ih, slice_append_slice]

def allZero (bytes : List UInt8) : Bool := bytes.all (· == 0)

theorem slice_part (front part rest : List UInt8) :
    slice (front ++ (part ++ rest)) front.length part.length = part := by
  rw [slice, List.drop_left, List.take_left]

theorem slice_inner (front : List UInt8) {part : List UInt8} (rest : List UInt8) {offset count : Nat}
    (inside : offset + count ≤ part.length) :
    slice (front ++ (part ++ rest)) (front.length + offset) count = slice part offset count := by
  have enough : count ≤ (part.drop offset).length := by
    rw [List.length_drop]
    omega
  rw [slice, ← List.drop_drop, List.drop_left, List.drop_append_of_le_length (by omega),
    List.take_append_of_le_length enough, slice]

section
variable {Row : Type}

def readRows (read : Nat → Row) (width : Nat) : Nat → Nat → List Row
  | _, 0 => []
  | offset, count + 1 => read offset :: readRows read width (offset + width) count

theorem length_readRows (read : Nat → Row) (width offset count : Nat) :
    (readRows read width offset count).length = count := by
  induction count generalizing offset with
  | zero => rfl
  | succ count ih => rw [readRows, List.length_cons, ih]

theorem length_flatMap_rows {write : Row → List UInt8} {width : Nat} {rows : List Row}
    (widths : ∀ row ∈ rows, (write row).length = width) :
    (rows.flatMap write).length = rows.length * width := by
  induction rows with
  | nil => simp
  | cons row rows ih =>
    have later := ih fun other member => widths other (List.mem_cons_of_mem row member)
    rw [List.flatMap_cons, List.length_append, widths row List.mem_cons_self, later,
      List.length_cons, Nat.succ_mul, Nat.add_comm]

theorem readRows_flatMap {read : List UInt8 → Nat → Row} {write : Row → List UInt8} {width : Nat}
    {rows : List Row} (front rest : List UInt8) (widths : ∀ row ∈ rows, (write row).length = width)
    (back : ∀ row ∈ rows, ∀ front rest, read (front ++ (write row ++ rest)) front.length = row) :
    readRows (read (front ++ (rows.flatMap write ++ rest))) width front.length rows.length = rows := by
  induction rows generalizing front with
  | nil => rfl
  | cons row rows ih =>
    have here := back row List.mem_cons_self front (rows.flatMap write ++ rest)
    have next : front.length + width = (front ++ write row).length := by
      rw [List.length_append, widths row List.mem_cons_self]
    have later := ih (front ++ write row)
      (fun other member => widths other (List.mem_cons_of_mem row member))
      (fun other member => back other (List.mem_cons_of_mem row member))
    rw [List.append_assoc] at later
    rw [List.flatMap_cons, List.append_assoc, List.length_cons, readRows, here, next, later]

end

section
variable {Item : Type} (key : Item → Nat)

def bisect (items : List Item) (wanted low high : Nat) : Option Item :=
  if low < high then
    match items[(low + high) / 2]? with
    | none => none
    | some item =>
      if key item = wanted then some item
      else if wanted < key item then bisect items wanted low ((low + high) / 2)
      else bisect items wanted ((low + high) / 2 + 1) high
  else none
termination_by high - low

variable {key}

theorem bisect_sound {items : List Item} {wanted low high : Nat} {item : Item}
    (found : bisect key items wanted low high = some item) : item ∈ items ∧ key item = wanted := by
  fun_induction bisect key items wanted low high with
  | case1 => cases found
  | case2 low high range other inside here =>
    cases found
    exact ⟨List.mem_of_getElem? inside, here⟩
  | case3 low high range other inside differs less ih => exact ih found
  | case4 low high range other inside differs more ih => exact ih found
  | case5 => cases found

theorem bisect_complete {items : List Item} {low high i : Nat} {item : Item}
    (sorted : items.Pairwise fun first second => key first < key second)
    (stands : items[i]? = some item) (above : low ≤ i) (below : i < high)
    (inside : high ≤ items.length) : bisect key items (key item) low high = some item := by
  have position : ∀ (first second : Nat) (one two : Item), items[first]? = some one →
      items[second]? = some two → first < second → key one < key two := by
    intro first second one two left right less
    obtain ⟨_, rfl⟩ := List.getElem?_eq_some_iff.mp left
    obtain ⟨_, rfl⟩ := List.getElem?_eq_some_iff.mp right
    exact List.pairwise_iff_getElem.mp sorted _ _ _ _ less
  fun_induction bisect key items (key item) low high with
  | case1 low high range missing =>
    rw [List.getElem?_eq_none_iff] at missing
    omega
  | case2 low high range other middle here =>
    rcases Nat.lt_trichotomy i ((low + high) / 2) with less | same | more
    · have := position _ _ _ _ stands middle less
      omega
    · rw [same, middle] at stands
      exact stands
    · have := position _ _ _ _ middle stands more
      omega
  | case3 low high range other middle differs less ih =>
    apply ih above _ (by omega)
    by_contra beyond
    rcases Nat.eq_or_lt_of_le (Nat.le_of_not_lt beyond) with same | more
    · rw [← same, middle, Option.some.injEq] at stands
      exact differs (by rw [stands])
    · have := position _ _ _ _ middle stands more
      omega
  | case4 low high range other middle differs notLess ih =>
    apply ih _ below inside
    by_contra before
    rcases Nat.eq_or_lt_of_le (Nat.le_of_not_lt before) with same | less
    · have equal : i = (low + high) / 2 := by omega
      rw [equal, middle, Option.some.injEq] at stands
      exact differs (by rw [stands])
    · have lower : i < (low + high) / 2 := by omega
      have := position _ _ _ _ stands middle lower
      omega
  | case5 low high empty => omega

theorem bisect_eq_some_iff {items : List Item} {wanted : Nat} {item : Item}
    (sorted : items.Pairwise fun first second => key first < key second) :
    bisect key items wanted 0 items.length = some item ↔ item ∈ items ∧ key item = wanted := by
  constructor
  · exact bisect_sound
  · rintro ⟨member, rfl⟩
    obtain ⟨i, below, stands⟩ := List.mem_iff_getElem.mp member
    exact bisect_complete sorted (List.getElem?_eq_some_iff.mpr ⟨below, stands⟩) (Nat.zero_le i) below
      (Nat.le_refl _)

end

end RusqDoltlite.Wire
