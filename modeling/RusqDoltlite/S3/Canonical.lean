import Mathlib.Data.List.Sort
import RusqDoltlite.S3.Sign

/-! The canonical request of Signature Version 4, as the receiver of a request makes it. It is computed
from the request itself: its URI, its headers and its body. -/

namespace RusqDoltlite.S3.Canonical

open Session Codec Wire

def space : UInt8 := 0x20

def collapse : Bytes → Bytes
  | [] => []
  | a :: rest => if a = space ∧ rest.head? = some space then collapse rest else a :: collapse rest

def normalize (value : Bytes) : Bytes :=
  collapse ((value.dropWhile (· == space)).rdropWhile (· == space))

def parseHeader (line : Bytes) : Bytes × Bytes :=
  ((line.takeWhile (· != 0x3a)).map lower, (line.dropWhile (· != 0x3a)).tail)

def target (uri : Bytes) : Bytes :=
  match splitScheme uri with
  | some parts => parts.2.dropWhile fun c => c != slash && c != 0x3f
  | none => []

def path (uri : Bytes) : Bytes := (target uri).takeWhile (· != 0x3f)

def query (uri : Bytes) : Bytes := ((target uri).dropWhile (· != 0x3f)).tail

def keepPath (c : UInt8) : Bool := urlSafe c || c == slash

/-- The path of S3: decoded, and encoded again once. -/
def canonicalPath (path : Bytes) : Bytes :=
  if path = [] then [slash] else Percent.encode keepPath (Percent.decode path)

def parameter (text : Bytes) : Bytes × Bytes :=
  (Percent.encode urlSafe (Percent.decode (text.takeWhile (· != equals))),
    Percent.encode urlSafe (Percent.decode (text.dropWhile (· != equals)).tail))

def before (first second : Bytes × Bytes) : Prop :=
  first.1 < second.1 ∨ first.1 = second.1 ∧ first.2 ≤ second.2

instance : DecidableRel before := fun _ _ => inferInstanceAs (Decidable (_ ∨ _))

def canonicalQuery (query : Bytes) : Bytes :=
  if query = [] then []
  else [ampersand].intercalate
    ((((query.splitOn ampersand).map parameter).insertionSort before).map fun pair =>
      pair.1 ++ equals :: pair.2)

def signedNames (zSignedHeaders : Bytes) : List Bytes :=
  ((zSignedHeaders.splitOn semicolon).map (·.map lower)).insertionSort (· ≤ ·)

def headerValue (headers : List Bytes) (name : Bytes) : Bytes :=
  (((headers.map parseHeader).find? (·.1 == name)).map (·.2)).getD []

/-- The canonical request for a request and the headers its signature covers. -/
def canonicalRequest (crypto : Crypto) (request : Request) (zSignedHeaders : Bytes) : Bytes :=
  request.eMethod.text ++ newline :: (canonicalPath (path request.zUri) ++ newline ::
    (canonicalQuery (query request.zUri) ++ newline ::
      ((signedNames zSignedHeaders).flatMap (fun name =>
          canonicalLine name (normalize (headerValue request.headers name)) ++ [newline]) ++ newline ::
        ([semicolon].intercalate (signedNames zSignedHeaders) ++ newline ::
          hexEncode (crypto.sha256 request.body).1))))

def Plain (value : Bytes) : Prop :=
  value.head? ≠ some space ∧ value.getLast? ≠ some space ∧ ¬[space, space] <:+: value

instance (value : Bytes) : Decidable (Plain value) := inferInstanceAs (Decidable (_ ∧ _ ∧ _))

theorem plain_of_not_mem {value : Bytes} (free : space ∉ value) : Plain value := by
  refine ⟨fun first => free (List.mem_of_head? first), fun last => free (List.mem_of_getLast? last), ?_⟩
  intro inside
  exact free (inside.mem List.mem_cons_self)

theorem length_collapse_le (value : Bytes) : (collapse value).length ≤ value.length := by
  induction value with
  | nil => exact Nat.le_refl _
  | cons a rest ih =>
    rw [collapse]
    split
    · exact Nat.le_succ_of_le ih
    · exact Nat.succ_le_succ ih

theorem collapse_eq_iff (value : Bytes) : collapse value = value ↔ ¬[space, space] <:+: value := by
  induction value with
  | nil => simp [collapse]
  | cons a rest ih =>
    have front : [space, space] <+: a :: rest ↔ a = space ∧ rest.head? = some space := by
      cases rest with
      | nil => simp
      | cons b rest => simp [eq_comm]
    rw [collapse, List.infix_cons_iff, not_or, front]
    split
    · next both =>
        constructor
        · intro same
          have shorter := length_collapse_le rest
          rw [same] at shorter
          exact absurd shorter (Nat.not_succ_le_self _)
        · intro apart
          exact absurd both apart.1
    · next apart =>
        rw [List.cons.injEq, ih]
        exact ⟨fun same => ⟨apart, same.2⟩, fun both => ⟨rfl, both.2⟩⟩

theorem length_normalize_le (value : Bytes) : (normalize value).length ≤ value.length :=
  calc (normalize value).length
      ≤ ((value.dropWhile (· == space)).rdropWhile (· == space)).length := length_collapse_le _
    _ ≤ (value.dropWhile (· == space)).length := (List.rdropWhile_prefix _ _).length_le
    _ ≤ value.length := (List.dropWhile_suffix _).length_le

theorem normalize_eq_iff (value : Bytes) : normalize value = value ↔ Plain value := by
  rw [normalize]
  constructor
  · intro same
    have total := congrArg List.length same
    have first := length_collapse_le ((value.dropWhile (· == space)).rdropWhile (· == space))
    have second := (List.rdropWhile_prefix (· == space) (value.dropWhile (· == space))).length_le
    have third := (List.dropWhile_suffix (l := value) (· == space)).length_le
    -- No stage can have taken anything away.
    have front : value.dropWhile (· == space) = value :=
      (List.dropWhile_suffix (· == space)).eq_of_length (by omega)
    rw [front] at same total first second
    have back : value.rdropWhile (· == space) = value :=
      (List.rdropWhile_prefix (· == space) value).eq_of_length (by omega)
    rw [back] at same
    refine ⟨?_, ?_, (collapse_eq_iff value).mp same⟩
    · intro head
      have present : value ≠ [] := List.ne_nil_of_mem (List.mem_of_head? head)
      have size : 0 < value.length := List.length_pos_of_ne_nil present
      rw [List.dropWhile_eq_self_iff] at front
      rw [List.head?_eq_getElem?, List.getElem?_eq_getElem size] at head
      exact front size (beq_iff_eq.mpr (Option.some.inj head))
    · intro last
      have present : value ≠ [] := List.ne_nil_of_mem (List.mem_of_getLast? last)
      rw [List.rdropWhile_eq_self_iff] at back
      rw [List.getLast?_eq_some_getLast present] at last
      exact back present (beq_iff_eq.mpr (Option.some.inj last))
  · intro plain
    have front : value.dropWhile (· == space) = value := by
      rw [List.dropWhile_eq_self_iff]
      intro size head
      apply plain.1
      rw [List.head?_eq_getElem?, List.getElem?_eq_getElem size, beq_iff_eq.mp head]
    have back : value.rdropWhile (· == space) = value := by
      rw [List.rdropWhile_eq_self_iff]
      intro present last
      apply plain.2.1
      rw [List.getLast?_eq_some_getLast present, beq_iff_eq.mp last]
    rw [front, back]
    exact (collapse_eq_iff value).mpr plain.2.2

theorem normalize_space (value : Bytes) : normalize (space :: value) = normalize value := by
  rw [normalize, normalize, List.dropWhile_cons, if_pos (beq_self_eq_true space)]

end RusqDoltlite.S3.Canonical
