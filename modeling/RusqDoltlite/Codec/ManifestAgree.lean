import Mathlib.Data.List.Chain
import Mathlib.Data.List.Forall2
import RusqDoltlite.Codec.ManifestParse

/-! `bcvSessionGcManifestValid`, the checks that the collector makes on a manifest it finds in a session
object, against `bcvManifestParse`, which it calls then. What the validator accepts has its block
lists one behind the other; the parser reads it without leaving the bytes, but for the size of the
arrays it allocates and for an assertion about the end of the last one. -/

namespace RusqDoltlite.Codec

open Wire Session

def minNameBytes : Nat := 12

def maxNameBytes : Nat := 32

def gcMaxDatabases : Nat := 4096

/-- A flat list has no entries. The entries of a delta are no more than the blocks, all inside, and
each of a block there is. -/
def validEntries (a : Bytes) (nName cursor : Nat) (head : DbHead) : Except Err Unit :=
  if head.parentId = 0 then check (head.nEntry = 0) .corrupt "root database has sparse entries"
  else do
    check (head.nEntry ≤ head.count) .corrupt "sparse entry count exceeds block count"
    check (cursor + head.listBytes nName ≤ a.length) .corrupt "sparse entries exceed manifest length"
    check ((readRows (readEntry nName a) (4 + nName) cursor head.nEntry).all
      (fun entry => entry.1 < head.count) = true) .corrupt "sparse block index is out of range"

/-- One database; `earlier` are the ids before it. The answer is where its block list ends. -/
def validDb (a : Bytes) (nName : Nat) (earlier : List Nat) (cursor : Nat) (head : DbHead) :
    Except Err Nat := do
  check (head.dbId ≠ 0 ∧ ∀ last ∈ earlier.getLast?, last < head.dbId) .corrupt
    "database IDs are zero or not increasing"
  check (head.parentId ≠ 0 → head.parentId < head.dbId ∧ earlier ≠ []) .corrupt
    "database parent ID is invalid"
  check (head.offset = cursor) .corrupt "database block offset is not contiguous"
  check (head.parentId ≠ 0 → head.parentId ∈ earlier) .corrupt "database parent is missing"
  validEntries a nName cursor head
  check (cursor + head.listBytes nName ≤ a.length) .corrupt "database blocks exceed manifest length"
  .ok (cursor + head.listBytes nName)

def validDbs (a : Bytes) (nName : Nat) : List Nat → Nat → List DbHead → Except Err Nat
  | _, cursor, [] => .ok cursor
  | earlier, cursor, head :: heads => do
      let cursor ← validDb a nName earlier cursor head
      validDbs a nName (earlier ++ [head.dbId]) cursor heads

def validSizes (szBlk : Nat) (heads : List DbHead) : List Nat → List (Nat × Nat) → Except Err Unit
  | _, [] => .ok ()
  | earlier, entry :: entries => do
      check (entry.1 ∉ earlier) .corrupt "duplicate file-size extension database ID"
      check (∃ head ∈ heads.find? (fun head : DbHead => head.dbId == entry.1),
        entry.2 ≠ 0 ∧ entry.2 < 2 ^ 63 ∧ entry.2 ≤ head.count * szBlk) .corrupt
        "invalid file-size extension entry"
      validSizes szBlk heads (earlier ++ [entry.1]) entries

/-- The bytes behind the block lists. Those that are no sizes do not matter. -/
def validTrailer (a : Bytes) (cursor : Nat) : Except Err Unit :=
  if 12 ≤ a.length - cursor ∧ slice a cursor 8 = sizeMagic then do
    let nSize := getU32 a (cursor + 8)
    check (nSize ≤ getU32 a 8 ∧ 12 + nSize * 12 = a.length - cursor) .corrupt
      "invalid file-size extension length"
    validSizes (getU32 a 4) (readHeads a) [] (readRows (readSize a) 12 (cursor + 12) nSize)
  else .ok ()

/-- `bcvSessionGcManifestValid`. The reasons are only logged. -/
def manifestValid (a : Bytes) : Except Err Unit := do
  check (manifestHeaderSize ≤ a.length) .corrupt "invalid argument or short header"
  check (getU32 a 0 = manifestVersion) .corrupt "unsupported manifest version"
  check (getU32 a 4 ≠ 0) .corrupt "zero manifest block size"
  let nDb := getU32 a 8
  let nDelete := getU32 a 12
  let nName := getU32 a 16
  check (minNameBytes ≤ nName ∧ nName ≤ maxNameBytes) .corrupt "manifest block-name size out of range"
  check (nDb ≤ gcMaxDatabases) .corrupt "manifest database count exceeds limit"
  check (nDb ≤ (a.length - manifestHeaderSize) / dbHeaderSize) .corrupt
    "database headers exceed manifest length"
  let cursor := manifestHeaderSize + nDb * dbHeaderSize
  check (nDelete ≤ (a.length - cursor) / (nName + 8)) .corrupt "delete list exceeds manifest length"
  let cursor ← validDbs a nName [] (cursor + nDelete * (nName + 8)) (readHeads a)
  check (∀ last ∈ (readHeads a).getLast?, last.dbId ≤ getU32 a 20) .corrupt
    "maximum database ID is too small"
  check (cursor ≤ a.length) .corrupt "manifest arrays exceed the manifest length"
  validTrailer a cursor

/-- Block lists one behind the other, from a cursor up to where the last one stops. -/
def HeadsLaid (a : Bytes) (nName : Nat) : Nat → List DbHead → Nat → Prop
  | cursor, [], stop => stop = cursor
  | cursor, head :: heads, stop =>
    head.offset = cursor ∧ cursor + head.listBytes nName ≤ a.length ∧
      (head.parentId ≠ 0 → ∀ entry ∈ readRows (readEntry nName a) (4 + nName) cursor head.nEntry,
        entry.1 < head.count) ∧
      HeadsLaid a nName (cursor + head.listBytes nName) heads stop

variable {core stop : Nat} {dbs : List StoredDb} {a : Bytes} {located : Nat × Option Nat}

section laid
variable {a : Bytes} {nName cursor stop : Nat} {heads : List DbHead}

theorem validDb_eq_ok {earlier : List Nat} {head : DbHead}
    (valid : validDb a nName earlier cursor head = .ok stop) :
    head.offset = cursor ∧ stop = cursor + head.listBytes nName ∧
      cursor + head.listBytes nName ≤ a.length ∧
      (head.parentId ≠ 0 → ∀ entry ∈ readRows (readEntry nName a) (4 + nName) cursor head.nEntry,
        entry.1 < head.count) := by
  simp only [validDb, unit_bind_eq_ok, check_eq_ok, Except.ok.injEq] at valid
  obtain ⟨_, _, place, _, entries, inside, rfl⟩ := valid
  refine ⟨place, rfl, inside, fun child => ?_⟩
  rw [validEntries, if_neg child] at entries
  simp only [unit_bind_eq_ok, check_eq_ok, List.all_eq_true, decide_eq_true_eq] at entries
  exact entries.2.2

theorem validDbs_laid {earlier : List Nat} (valid : validDbs a nName earlier cursor heads = .ok stop) :
    HeadsLaid a nName cursor heads stop := by
  induction heads generalizing earlier cursor with
  | nil =>
    cases valid
    rfl
  | cons head heads ih =>
    rw [validDbs, bind_eq_ok] at valid
    obtain ⟨next, here, later⟩ := valid
    obtain ⟨place, rfl, inside, entries⟩ := validDb_eq_ok here
    exact ⟨place, inside, entries, ih later⟩

theorem validDbs_ascending {earlier : List Nat} (sorted : earlier.IsChain (· < ·))
    (valid : validDbs a nName earlier cursor heads = .ok stop) :
    (earlier ++ heads.map DbHead.dbId).IsChain (· < ·) := by
  induction heads generalizing earlier cursor with
  | nil => rwa [List.map_nil, List.append_nil]
  | cons head heads ih =>
    rw [validDbs, bind_eq_ok] at valid
    obtain ⟨next, here, later⟩ := valid
    simp only [validDb, unit_bind_eq_ok, check_eq_ok] at here
    have more : (earlier ++ [head.dbId]).IsChain (· < ·) :=
      List.isChain_append.mpr ⟨sorted, List.isChain_singleton _, by simpa using here.1.2⟩
    have all := ih more later
    rwa [List.append_assoc, List.singleton_append] at all

theorem coreEnd_laid (laid : HeadsLaid a nName cursor heads stop) (small : a.length ≤ 0x7fffffff) :
    coreEnd a.length nName cursor heads = .ok stop := by
  induction heads generalizing cursor with
  | nil => rw [coreEnd, show stop = cursor from laid]
  | cons head heads ih =>
    obtain ⟨rfl, inside, _, later⟩ := laid
    rw [coreEnd, unit_bind_eq_ok, check_eq_ok, max_eq_right (Nat.le_add_right _ _)]
    exact ⟨⟨inside, inside.trans small⟩, ih later⟩

theorem HeadsLaid.getLast (laid : HeadsLaid a nName cursor heads stop) {last : DbHead}
    (ends : last ∈ heads.getLast?) : stop = last.offset + last.listBytes nName := by
  induction heads generalizing cursor with
  | nil => cases ends
  | cons head heads ih =>
    obtain ⟨place, _, _, later⟩ := laid
    cases heads with
    | nil =>
      cases ends
      change stop = head.offset + head.listBytes nName
      rw [place]
      exact later
    | cons next heads => exact ih later ends

structure Fits (nName core : Nat) (last : Bool) (head : DbHead) : Prop where
  array : head.parentId ≠ 0 → head.count * nName ≤ maxAllocation
  ends : last = true → head.parentId ≠ 0 → head.count ≠ 0 →
    core = head.offset + head.listBytes nName

variable {earlier : List StoredDb}

theorem blocksRead_iff {last : Bool} {head : DbHead} (place : head.offset = cursor)
    (ordered : earlier.Pairwise fun first second => first.dbId < second.dbId)
    (inside : cursor + head.listBytes nName ≤ a.length)
    (entries : head.parentId ≠ 0 →
      ∀ entry ∈ readRows (readEntry nName a) (4 + nName) cursor head.nEntry, entry.1 < head.count) :
    (Fits nName core last head → ∃ blocks : List Bytes, blocks.length = head.count ∧
      blocksRead a nName earlier core last head = .ok blocks) ∧
    (∀ blocks, blocksRead a nName earlier core last head = .ok blocks → Fits nName core last head) := by
  unfold blocksRead
  by_cases empty : head.count = 0
  · rw [if_pos empty]
    refine ⟨fun _ => ⟨[], by rw [empty]; rfl, rfl⟩, fun _ _ => ⟨fun _ => ?_, fun _ _ filled => ?_⟩⟩
    · rw [empty, Nat.zero_mul]
      decide
    · exact absurd empty filled
  rw [if_neg empty]
  by_cases root : head.parentId = 0
  · rw [if_pos root]
    refine ⟨fun _ => ⟨_, ?_, rfl⟩, fun _ _ => ⟨fun child => absurd root child, fun _ child => absurd root child⟩⟩
    exact length_readRows _ _ _ _
  rw [if_neg root]
  by_cases wide : maxAllocation < head.count * nName
  · refine ⟨fun fits => absurd (fits.array root) (Nat.not_le.mpr wide), fun blocks read => ?_⟩
    rw [childRead, if_pos wide] at read
    split at read
    · cases read
    · split at read <;> cases read
  subst place
  have extent : head.listBytes nName = head.nEntry * (4 + nName) := by rw [DbHead.listBytes, if_pos root]
  rw [extent] at inside
  rw [childRead_eq ordered (Nat.le_of_not_lt wide) inside (entries root)]
  constructor
  · intro fits
    refine ⟨_, ?_, if_neg ?_⟩
    · rw [length_applyEntries, length_inherited]
    · rintro ⟨final, differs⟩
      apply differs
      rw [fits.ends final root empty, extent]
  · intro blocks read
    split at read
    · cases read
    · next same =>
        refine ⟨fun _ => Nat.le_of_not_lt wide, fun final _ _ => ?_⟩
        rw [extent]
        by_contra differs
        exact same ⟨final, fun other => differs other.symm⟩

/-- Every database fits; the assertion is about the last one. -/
def AllFit (nName core : Nat) : List DbHead → Prop
  | [] => True
  | head :: heads => Fits nName core heads.isEmpty head ∧ AllFit nName core heads

structure ReadFrom (done : List Nat) (head : DbHead) (db : StoredDb) : Prop where
  dbId : db.dbId = head.dbId
  blocks : db.blkOrig.length = head.count
  unsized : db.fileSize ≠ 0 → head.dbId ∈ done

theorem ordered_snoc {head : DbHead} {heads : List DbHead} (blocks : List Bytes)
    (ascending : (earlier.map StoredDb.dbId ++ (head :: heads).map DbHead.dbId).Pairwise (· < ·)) :
    ((earlier ++ [head.db blocks]).map StoredDb.dbId ++ heads.map DbHead.dbId).Pairwise (· < ·) := by
  rw [List.map_append, List.append_assoc]
  exact ascending

theorem ordered_of_ascending {rest : List Nat}
    (ascending : (earlier.map StoredDb.dbId ++ rest).Pairwise (· < ·)) :
    earlier.Pairwise fun first second => first.dbId < second.dbId :=
  List.pairwise_map.mp (List.pairwise_append.mp ascending).1

theorem dbsRead_ok (laid : HeadsLaid a nName cursor heads stop)
    (ascending : (earlier.map StoredDb.dbId ++ heads.map DbHead.dbId).Pairwise (· < ·))
    (fits : AllFit nName core heads) :
    ∃ dbs, List.Forall₂ (ReadFrom []) heads dbs ∧
      dbsRead a nName core earlier heads = .ok (earlier ++ dbs) := by
  induction heads generalizing cursor earlier with
  | nil => exact ⟨[], .nil, by rw [dbsRead, List.append_nil]⟩
  | cons head heads ih =>
    obtain ⟨place, inside, entries, later⟩ := laid
    have ordered := ordered_of_ascending ascending
    obtain ⟨blocks, length, read⟩ := (blocksRead_iff place ordered inside entries).1 fits.1
    obtain ⟨dbs, matched, rest⟩ := ih later (ordered_snoc blocks ascending) fits.2
    refine ⟨head.db blocks :: dbs, .cons ⟨rfl, length, fun sized => absurd rfl sized⟩ matched, ?_⟩
    rw [dbsRead, read]
    rw [List.append_assoc, List.singleton_append] at rest
    exact rest

theorem dbsRead_fits (laid : HeadsLaid a nName cursor heads stop)
    (ascending : (earlier.map StoredDb.dbId ++ heads.map DbHead.dbId).Pairwise (· < ·))
    (read : dbsRead a nName core earlier heads = .ok dbs) : AllFit nName core heads := by
  induction heads generalizing cursor earlier with
  | nil => trivial
  | cons head heads ih =>
    obtain ⟨place, inside, entries, later⟩ := laid
    rw [dbsRead, bind_eq_ok] at read
    obtain ⟨blocks, here, rest⟩ := read
    have ordered := ordered_of_ascending ascending
    exact ⟨(blocksRead_iff place ordered inside entries).2 blocks here,
      ih later (ordered_snoc blocks ascending) rest⟩

theorem setSize_ok {szBlk : Nat} {done : List Nat} {entry : Nat × Nat}
    (matched : List.Forall₂ (ReadFrom done) heads dbs) (fresh : entry.1 ∉ done)
    (valid : ∃ head ∈ heads.find? (fun head : DbHead => head.dbId == entry.1), entry.2 ≠ 0 ∧
      entry.2 < 2 ^ 63 ∧ entry.2 ≤ head.count * szBlk) :
    ∃ after, List.Forall₂ (ReadFrom (done ++ [entry.1])) heads after ∧
      setSize szBlk entry dbs = .ok after := by
  have weaken : ∀ head db, ReadFrom done head db → ReadFrom (done ++ [entry.1]) head db :=
    fun head db read => ⟨read.dbId, read.blocks, fun sized => List.mem_append_left _ (read.unsized sized)⟩
  induction matched with
  | nil =>
    obtain ⟨head, found, _⟩ := valid
    cases found
  | @cons head db heads dbs here later ih =>
    obtain ⟨other, found, given, small, extent⟩ := valid
    rw [Option.mem_def, List.find?_cons] at found
    by_cases same : head.dbId = entry.1
    · rw [beq_iff_eq.mpr same, Option.some.injEq] at found
      subst found
      have unset : db.fileSize = 0 := by
        by_contra sized
        apply fresh
        rw [← same]
        exact here.unsized sized
      refine ⟨{ db with fileSize := entry.2 } :: dbs, .cons ⟨here.dbId, here.blocks, fun _ => ?_⟩
        (later.imp weaken), ?_⟩
      · rw [same]
        exact List.mem_append_right _ List.mem_cons_self
      · rw [setSize, if_pos (here.dbId.trans same), unit_bind_eq_ok, check_eq_ok, here.blocks]
        exact ⟨⟨unset, given, small, extent⟩, rfl⟩
    · rw [beq_false_of_ne same] at found
      obtain ⟨after, kept, set⟩ := ih ⟨other, found, given, small, extent⟩
      refine ⟨db :: after, .cons (weaken head db here) kept, ?_⟩
      rw [setSize, if_neg (by rw [here.dbId]; exact same), set]
      rfl

theorem setSizes_ok {szBlk : Nat} {done : List Nat} {entries : List (Nat × Nat)}
    (matched : List.Forall₂ (ReadFrom done) heads dbs)
    (valid : validSizes szBlk heads done entries = .ok ()) :
    ∃ after, setSizes szBlk entries dbs = .ok after := by
  induction entries generalizing done dbs with
  | nil => exact ⟨dbs, rfl⟩
  | cons entry entries ih =>
    rw [validSizes] at valid
    simp only [unit_bind_eq_ok, check_eq_ok] at valid
    obtain ⟨fresh, found, rest⟩ := valid
    obtain ⟨after, kept, set⟩ := setSize_ok matched fresh found
    obtain ⟨last, read⟩ := ih kept rest
    exact ⟨last, by rw [setSizes, set]; exact read⟩

end laid

/-- Bytes behind the block lists that are not the sizes. -/
def Opaque (a : Bytes) (stop : Nat) : Prop :=
  stop < a.length ∧ ¬ (12 ≤ a.length - stop ∧ slice a stop 8 = sizeMagic)

instance (a : Bytes) (stop : Nat) : Decidable (Opaque a stop) := inferInstanceAs (Decidable (_ ∧ _))

structure TrailerFound (a : Bytes) (stop : Nat) (located : Nat × Option Nat) : Prop where
  core : located.1 = if Opaque a stop then a.length else stop
  sizes : ∀ count, located.2 = some count → located.1 = stop ∧ stop + 12 + count * 12 = a.length ∧
    count ≤ getU32 a 8 ∧
    validSizes (getU32 a 4) (readHeads a) [] (readRows (readSize a) 12 (stop + 12) count) = .ok ()

theorem validTrailer_found (valid : validTrailer a stop = .ok ()) :
    ∃ located, trailerRead a stop = .ok located ∧ TrailerFound a stop located := by
  rw [trailerRead_eq]
  by_cases whole : a.length ≤ stop
  · have clear : ¬ Opaque a stop := fun behind => absurd behind.1 (Nat.not_lt.mpr whole)
    refine ⟨(stop, none), if_pos whole, by rw [if_neg clear], fun count absent => ?_⟩
    cases absent
  rw [if_neg whole]
  by_cases sized : 12 ≤ a.length - stop ∧ slice a stop 8 = sizeMagic
  · rw [validTrailer, if_pos sized] at valid
    simp only [unit_bind_eq_ok, check_eq_ok] at valid
    obtain ⟨⟨few, length⟩, entries⟩ := valid
    have known : ¬ (a.length - stop < 12 ∨ slice a stop 8 ≠ sizeMagic) := by
      rintro (short | other)
      · omega
      · exact other sized.2
    have clear : ¬ Opaque a stop := fun behind => behind.2 sized
    rw [if_neg known, if_pos length]
    refine ⟨(stop, some (getU32 a (stop + 8))), rfl, by rw [if_neg clear], fun count same => ?_⟩
    cases same
    exact ⟨rfl, by omega, few, entries⟩
  · have unknown : a.length - stop < 12 ∨ slice a stop 8 ≠ sizeMagic := by
      by_contra neither
      rw [not_or, Nat.not_lt, not_not] at neither
      exact sized neither
    rw [if_pos unknown]
    refine ⟨(a.length, none), rfl, by rw [if_pos ⟨Nat.lt_of_not_le whole, sized⟩], fun count absent => ?_⟩
    cases absent

/-- What the parser asks of bytes that the validator accepts: the array of a database with a parent can
be allocated, and a last database with a parent has nothing behind it that is not the sizes. -/
structure Parseable (a : Bytes) : Prop where
  array : ∀ head ∈ readHeads a, head.parentId ≠ 0 → head.count * getU32 a 16 ≤ maxAllocation
  ends : ∀ last ∈ (readHeads a).getLast?, last.parentId ≠ 0 → last.count ≠ 0 →
    ¬ Opaque a (last.offset + last.listBytes (getU32 a 16))

theorem allFit_iff {nName : Nat} {heads : List DbHead} : AllFit nName core heads ↔
      (∀ head ∈ heads, head.parentId ≠ 0 → head.count * nName ≤ maxAllocation) ∧
      ∀ last ∈ heads.getLast?, last.parentId ≠ 0 → last.count ≠ 0 →
        core = last.offset + last.listBytes nName := by
  induction heads with
  | nil => simp [AllFit]
  | cons head heads ih =>
    rw [AllFit, ih, List.forall_mem_cons]
    cases heads with
    | nil =>
      constructor
      · rintro ⟨fits, rest, _⟩
        refine ⟨⟨fits.array, rest⟩, fun last ends => ?_⟩
        cases ends
        exact fits.ends rfl
      · rintro ⟨⟨array, rest⟩, ends⟩
        exact ⟨⟨array, fun _ => ends head rfl⟩, rest, by simp⟩
    | cons next heads =>
      constructor
      · rintro ⟨fits, rest, ends⟩
        exact ⟨⟨fits.array, rest⟩, ends⟩
      · rintro ⟨⟨array, rest⟩, ends⟩
        exact ⟨⟨array, fun last => by cases last⟩, rest, ends⟩

theorem allFit_parseable {cursor : Nat} (laid : HeadsLaid a (getU32 a 16) cursor (readHeads a) stop)
    (located : core = if Opaque a stop then a.length else stop) :
    AllFit (getU32 a 16) core (readHeads a) ↔ Parseable a := by
  have clear : (core = stop) ↔ ¬ Opaque a stop := by
    rw [located]
    by_cases behind : Opaque a stop
    · rw [if_pos behind]
      have below := behind.1
      exact ⟨fun same => by omega, fun clear => absurd behind clear⟩
    · rw [if_neg behind]
      exact ⟨fun _ => behind, fun _ => rfl⟩
  rw [allFit_iff]
  constructor
  · rintro ⟨array, ends⟩
    refine ⟨array, fun last final child filled => ?_⟩
    rw [← laid.getLast final, ← clear, laid.getLast final]
    exact ends last final child filled
  · rintro ⟨array, ends⟩
    refine ⟨array, fun last final child filled => ?_⟩
    rw [← laid.getLast final, clear, laid.getLast final]
    exact ends last final child filled

theorem sizeTrailer_ok (found : TrailerFound a stop located)
    (matched : List.Forall₂ (ReadFrom []) (readHeads a) dbs) :
    ∃ after, sizeTrailer a (getU32 a 4) located dbs = .ok after := by
  unfold sizeTrailer
  cases sized : located.2 with
  | none => exact ⟨dbs, rfl⟩
  | some count =>
    obtain ⟨place, length, few, entries⟩ := found.sizes count sized
    have all : dbs.length = getU32 a 8 := by
      rw [← matched.length_eq]
      exact length_readRows _ _ _ _
    obtain ⟨after, read⟩ := setSizes_ok matched entries
    have enough : count ≤ dbs.length := by omega
    refine ⟨after, ?_⟩
    simp only
    rw [refuse_check enough, place]
    change sizesRead a (getU32 a 4) count (stop + 12) dbs = _
    rw [sizesRead_eq dbs (by omega), read]
    rfl

theorem manifestParse_iff_parseable (small : a.length ≤ 0x7fffffff) (valid : manifestValid a = .ok ()) :
    (∃ man, manifestParse a = .ok man) ↔ Parseable a := by
  simp only [manifestValid, unit_bind_eq_ok, check_eq_ok] at valid
  obtain ⟨long, version, _, ⟨least, most⟩, few, headers, deletes, valid⟩ := valid
  rw [bind_eq_ok] at valid
  obtain ⟨stop, dbs, valid⟩ := valid
  simp only [unit_bind_eq_ok, check_eq_ok] at valid
  obtain ⟨_, _, trailer⟩ := valid
  have laid := validDbs_laid dbs
  have ascending : (([] : List StoredDb).map StoredDb.dbId ++ (readHeads a).map DbHead.dbId).Pairwise
      (· < ·) := (validDbs_ascending .nil dbs).pairwise
  obtain ⟨located, placed, found⟩ := validTrailer_found trailer
  have width : getU32 a 16 ≠ 0 ∧ getU32 a 16 ≤ 32 := by
    unfold minNameBytes at least
    unfold maxNameBytes at most
    omega
  have core : manifestHeaderSize + getU32 a 8 * dbHeaderSize + getU32 a 12 * (getU32 a 16 + 8) ≤
      a.length := by
    have inside := Nat.mul_le_of_le_div _ _ _ headers
    have list := Nat.mul_le_of_le_div _ _ _ deletes
    omega
  have memory : structBytes (getU32 a 8) ≤ maxAllocation := by
    have bound : gcMaxDatabases = 4096 := rfl
    unfold structBytes maxAllocation
    omega
  have start := locateRead_eq small long width headers core (coreEnd_laid laid small) placed
  rw [← allFit_parseable laid found.core, manifestParse_eq long version memory start]
  constructor
  · rintro ⟨man, read⟩
    rw [bind_eq_ok] at read
    obtain ⟨dbs, read, _⟩ := read
    exact dbsRead_fits laid ascending read
  · intro fits
    obtain ⟨dbs, matched, read⟩ := dbsRead_ok laid ascending fits
    obtain ⟨after, sizes⟩ := sizeTrailer_ok found matched
    rw [read, List.nil_append]
    simp only [bind, Except.bind]
    rw [sizes]
    exact ⟨_, rfl⟩

end RusqDoltlite.Codec
