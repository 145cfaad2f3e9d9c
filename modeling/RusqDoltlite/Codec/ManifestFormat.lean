import RusqDoltlite.Codec.Uuid
import RusqDoltlite.Wire.BigEndian

/-! The byte form of manifests, and `bcvManifestCompose`, which writes it. Behind a header and the
headers of the databases stand the delete list, the block lists at the offsets the headers name, and
a trailer with the exact sizes. -/

namespace RusqDoltlite.Codec

open Wire Session

structure StoredDb where
  dbId : Nat
  parentId : Nat
  version : Nat
  name : Bytes
  fileSize : Nat
  blkOrig : List Bytes
  blkLocal : List Bytes
deriving DecidableEq

structure StoredManifest where
  szBlk : Nat
  nameBytes : Nat
  maxDbId : Nat
  dbs : List StoredDb
  delBlk : List (Bytes × Nat)
deriving DecidableEq

def manifestVersion : Nat := 4

def manifestHeaderSize : Nat := 24

def dbHeaderSize : Nat := 152

def dbNameSize : Nat := 128

def sizeMagic : Bytes := ascii "BCVSZ001"

/-- How C code on a manifest can end without a result: besides an error code there is a read outside
the bytes, an overflow of a signed size, and a failed assertion. -/
inductive Fault where
  | refused (error : Err)
  | outside
  | overflow
  | aborted
deriving DecidableEq

abbrev Checked := Except Fault

def refuse {α : Type} : Except Err α → Checked α
  | .ok value => .ok value
  | .error error => .error (.refused error)

/-- The most that `sqlite3_malloc64` gives. Up to it memory is taken not to run out. -/
def maxAllocation : Nat := 2147483391

def searchDb (dbs : List StoredDb) (dbId : Nat) : Option StoredDb :=
  bisect StoredDb.dbId dbs dbId 0 dbs.length

/-- `bcvManifestDbidToDb`. -/
def dbidToDb (dbs : List StoredDb) (dbId : Nat) : Checked (Option StoredDb) :=
  match searchDb dbs dbId with
  | some db => .ok (some db)
  | none =>
    -- assert( p->aDb[ii].iDbId!=iDbId ), for every ii
    if ∃ db ∈ dbs, db.dbId = dbId then .error .aborted else .ok none

/-- The header of a database. The highest bit of the block count marks a deleted one. -/
structure DbHead where
  dbId : Nat
  parentId : Nat
  version : Nat
  offset : Nat
  count : Nat
  deleted : Bool
  nEntry : Nat
  name : Bytes
deriving DecidableEq

def DbHead.fields (head : DbHead) : List Bytes :=
  [putBe 4 head.dbId, putBe 4 head.parentId, putBe 4 head.version, putBe 4 head.offset,
    putBe 4 (head.count + if head.deleted then 2 ^ 31 else 0), putBe 4 head.nEntry,
    head.name ++ List.replicate (dbNameSize - head.name.length) 0]

def DbHead.write (head : DbHead) : Bytes := head.fields.flatten

def deltaEntries : Nat → List Bytes → List Bytes → List (Nat × Bytes)
  | _, _, [] => []
  | i, [], block :: blocks => (i, block) :: deltaEntries (i + 1) [] blocks
  | i, old :: parent, block :: blocks =>
    if block = old then deltaEntries (i + 1) parent blocks
    else (i, block) :: deltaEntries (i + 1) parent blocks

def writeEntry (entry : Nat × Bytes) : Bytes := putBe 4 entry.1 ++ entry.2

def writeDelete (entry : Bytes × Nat) : Bytes := entry.1 ++ putBe 8 entry.2

def writeSize (entry : Nat × Nat) : Bytes := putBe 4 entry.1 ++ putBe 8 entry.2

namespace StoredManifest

def parentOf (man : StoredManifest) (db : StoredDb) : Option StoredDb :=
  if db.parentId = 0 then none else searchDb man.dbs db.parentId

def entriesOf (man : StoredManifest) (db : StoredDb) : List (Nat × Bytes) :=
  match man.parentOf db with
  | some parent => deltaEntries 0 parent.blkOrig db.blkOrig
  | none => []

def blockList (man : StoredManifest) (db : StoredDb) : Bytes :=
  match man.parentOf db with
  | some _ => (man.entriesOf db).flatMap writeEntry
  | none => db.blkOrig.flatten

def headOf (man : StoredManifest) (db : StoredDb) (offset : Nat) : DbHead where
  dbId := db.dbId
  parentId := if (man.parentOf db).isSome then db.parentId else 0
  version := db.version
  offset := offset
  count := db.blkOrig.length
  deleted := db.blkLocal.isEmpty
  nEntry := (man.entriesOf db).length
  name := db.name

def heads (man : StoredManifest) : Nat → List StoredDb → List DbHead
  | _, [] => []
  | offset, db :: dbs => man.headOf db offset :: man.heads (offset + (man.blockList db).length) dbs

def headerFields (man : StoredManifest) : List Bytes :=
  [putBe 4 manifestVersion, putBe 4 man.szBlk, putBe 4 man.dbs.length, putBe 4 man.delBlk.length,
    putBe 4 man.nameBytes, putBe 4 man.maxDbId]

def listsOffset (man : StoredManifest) : Nat :=
  manifestHeaderSize + man.dbs.length * dbHeaderSize + man.delBlk.length * (man.nameBytes + 8)

def core (man : StoredManifest) : Bytes :=
  man.headerFields.flatten ++ ((man.heads man.listsOffset man.dbs).flatMap DbHead.write ++
    (man.delBlk.flatMap writeDelete ++ man.dbs.flatMap man.blockList))

def sizes (man : StoredManifest) : List (Nat × Nat) :=
  (man.dbs.filter fun db => 0 < db.fileSize).map fun db => (db.dbId, db.fileSize)

def trailer (man : StoredManifest) : Bytes :=
  if man.sizes = [] then []
  else sizeMagic ++ (putBe 4 man.sizes.length ++ man.sizes.flatMap writeSize)

/-- The room that is asked for before the block list of a database is written. -/
def nMax (man : StoredManifest) (nOut : Nat) (db : StoredDb) : Nat :=
  nOut + db.blkOrig.length * (man.nameBytes + if (man.parentOf db).isSome then 4 else 0)

end StoredManifest

/-- `while( nMax>nAlloc ) nAlloc = nAlloc*2`. Both are `int`s, and 0 doubles for ever. -/
def growAlloc (nMax nAlloc : Nat) : Checked Nat :=
  if nMax ≤ nAlloc then .ok nAlloc
  else if nAlloc = 0 ∨ 2 ^ 31 ≤ nAlloc * 2 then .error .overflow
  else growAlloc nMax (nAlloc * 2)
termination_by 2 ^ 31 - nAlloc

/-- The loop over the databases, as far as it can fail: the size of the buffer behind it. -/
def StoredManifest.allocDbs (man : StoredManifest) : Nat → Nat → List StoredDb → Checked Nat
  | _, nAlloc, [] => .ok nAlloc
  | nOut, nAlloc, db :: dbs => do
      if db.parentId ≠ 0 then
        let _ ← dbidToDb man.dbs db.parentId
      let nAlloc ← growAlloc (man.nMax nOut db) nAlloc
      man.allocDbs (nOut + (man.blockList db).length) nAlloc dbs

def manifestCompose (man : StoredManifest) : Checked Bytes := do
  let nAlloc ← growAlloc man.listsOffset (2 ^ 20)
  let nAlloc ← man.allocDbs man.listsOffset nAlloc man.dbs
  let nRequired := man.core.length + man.trailer.length
  if man.sizes ≠ [] then
    refuse (check (nRequired ≤ 0x7fffffff) .tooBig "")
    refuse (check (nRequired ≤ nAlloc ∨ nRequired ≤ maxAllocation) .nomem "")
  .ok (man.core ++ man.trailer)

/-- From a power of two the buffer grows to 2 ^ 30 and not further. -/
theorem growAlloc_pow {nMax k left : Nat} (sum : k + left = 30) :
    (nMax ≤ 2 ^ 30 ∧ ∃ j left, j + left = 30 ∧ growAlloc nMax (2 ^ k) = .ok (2 ^ j)) ∨
      (2 ^ 30 < nMax ∧ growAlloc nMax (2 ^ k) = .error .overflow) := by
  have below : 2 ^ k ≤ 2 ^ 30 := Nat.pow_le_pow_right (by decide) (by omega)
  have positive : 2 ^ k ≠ 0 := Nat.pos_iff_ne_zero.mp (Nat.two_pow_pos k)
  induction left generalizing k with
  | zero =>
    obtain rfl : k = 30 := sum
    rw [growAlloc]
    by_cases room : nMax ≤ 2 ^ 30
    · exact .inl ⟨room, 30, 0, rfl, if_pos room⟩
    · rw [if_neg room]
      exact .inr ⟨by omega, if_pos (.inr (by decide))⟩
  | succ left ih =>
    rw [growAlloc]
    by_cases room : nMax ≤ 2 ^ k
    · exact .inl ⟨by omega, k, left + 1, sum, if_pos room⟩
    · have doubled : 2 ^ (k + 1) ≤ 2 ^ 30 := Nat.pow_le_pow_right (by decide) (by omega)
      have small : ¬ (2 ^ k = 0 ∨ 2 ^ 31 ≤ 2 ^ k * 2) := by
        rw [← Nat.pow_succ]
        omega
      rw [if_neg room, if_neg small, ← Nat.pow_succ]
      exact ih (by omega) doubled (Nat.pos_iff_ne_zero.mp (Nat.two_pow_pos _))

theorem manifestCompose_eq_ok {man : StoredManifest} {bytes : Bytes}
    (composed : manifestCompose man = .ok bytes) : bytes = man.core ++ man.trailer := by
  rw [manifestCompose, bind_eq_ok] at composed
  obtain ⟨_, _, composed⟩ := composed
  rw [bind_eq_ok] at composed
  obtain ⟨_, _, composed⟩ := composed
  split at composed
  · rw [unit_bind_eq_ok, unit_bind_eq_ok] at composed
    exact (Except.ok.inj composed.2.2).symm
  · exact (Except.ok.inj composed).symm

theorem dbidToDb_eq {dbs : List StoredDb} (dbId : Nat)
    (ordered : dbs.Pairwise fun first second => first.dbId < second.dbId) :
    dbidToDb dbs dbId = .ok (searchDb dbs dbId) := by
  unfold dbidToDb
  cases found : searchDb dbs dbId with
  | some db => rfl
  | none =>
    have missing : ¬ ∃ db ∈ dbs, db.dbId = dbId := by
      rintro ⟨db, listed, same⟩
      have found' : searchDb dbs dbId = some db := (bisect_eq_some_iff ordered).mpr ⟨listed, same⟩
      rw [found] at found'
      cases found'
    exact if_neg missing

end RusqDoltlite.Codec
