import RusqDoltlite.Codec.ManifestFormat

/-! `bcvManifestParse`, with every way it can end. It locates the end of the mapping before it parses
the databases, and takes the sizes from the trailer last. Inside the bytes its reads are those of the
fields, and its loops write the rows they stand for. -/

namespace RusqDoltlite.Codec

open Wire Session

def getU32 (bytes : Bytes) (offset : Nat) : Nat := getBe (slice bytes offset 4)

def getU64 (bytes : Bytes) (offset : Nat) : Nat := getBe (slice bytes offset 8)

def readHead (bytes : Bytes) (offset : Nat) : DbHead where
  dbId := getU32 bytes offset
  parentId := getU32 bytes (offset + 4)
  version := getU32 bytes (offset + 8)
  offset := getU32 bytes (offset + 12)
  count := getU32 bytes (offset + 16) % 2 ^ 31
  deleted := 2 ^ 31 ≤ getU32 bytes (offset + 16)
  nEntry := getU32 bytes (offset + 20)
  name := (slice bytes (offset + 24) dbNameSize).takeWhile (· != 0)

def readEntry (nName : Nat) (bytes : Bytes) (offset : Nat) : Nat × Bytes :=
  (getU32 bytes offset, slice bytes (offset + 4) nName)

def readDelete (nName : Nat) (bytes : Bytes) (offset : Nat) : Bytes × Nat :=
  (slice bytes offset nName, getU64 bytes (offset + nName))

def readSize (bytes : Bytes) (offset : Nat) : Nat × Nat :=
  (getU32 bytes offset, getU64 bytes (offset + 4))

def DbHead.listBytes (head : DbHead) (nName : Nat) : Nat :=
  if head.parentId ≠ 0 then head.nEntry * (4 + nName) else head.count * nName

def corrupt : Err := ⟨.corrupt, ""⟩

def coreEnd (length nName : Nat) : Nat → List DbHead → Except Err Nat
  | last, [] => .ok last
  | last, head :: heads => do
      let stop := head.offset + head.listBytes nName
      check (stop ≤ length ∧ stop ≤ 0x7fffffff) .corrupt ""
      coreEnd length nName (max last stop) heads

def readHeads (bytes : Bytes) : List DbHead :=
  readRows (readHead bytes) dbHeaderSize manifestHeaderSize (getU32 bytes 8)

/-- The size goes to the first database with the id, which has none yet. -/
def setSize (szBlk : Nat) (entry : Nat × Nat) : List StoredDb → Except Err (List StoredDb)
  | [] => .error corrupt
  | db :: dbs =>
    if db.dbId = entry.1 then do
      check (db.fileSize = 0 ∧ entry.2 ≠ 0 ∧ entry.2 < 2 ^ 63 ∧
        entry.2 ≤ db.blkOrig.length * szBlk) .corrupt ""
      .ok ({ db with fileSize := entry.2 } :: dbs)
    else do
      let dbs ← setSize szBlk entry dbs
      .ok (db :: dbs)

def setSizes (szBlk : Nat) : List (Nat × Nat) → List StoredDb → Except Err (List StoredDb)
  | [], dbs => .ok dbs
  | entry :: entries, dbs => do
      let dbs ← setSize szBlk entry dbs
      setSizes szBlk entries dbs

def structBytes (nDb : Nat) : Nat := 64 + (nDb + 1) * 192

def readAt (a : Bytes) (offset count : Nat) : Checked Bytes :=
  if offset + count ≤ a.length then .ok (slice a offset count) else .error .outside

def readU32 (a : Bytes) (offset : Nat) : Checked Nat := do
  let bytes ← readAt a offset 4
  .ok (getBe bytes)

def readU64 (a : Bytes) (offset : Nat) : Checked Nat := do
  let bytes ← readAt a offset 8
  .ok (getBe bytes)

def headAt (a : Bytes) (offset : Nat) : Checked DbHead := do
  let iDbId ← readU32 a offset
  let iParentId ← readU32 a (offset + 4)
  let iVersion ← readU32 a (offset + 8)
  let iOff ← readU32 a (offset + 12)
  let nBlk ← readU32 a (offset + 16)
  let nEntry ← readU32 a (offset + 20)
  let zDName ← readAt a (offset + 24) dbNameSize
  .ok
    { dbId := iDbId
      parentId := iParentId
      version := iVersion
      offset := iOff
      count := nBlk % 2 ^ 31
      deleted := 2 ^ 31 ≤ nBlk
      nEntry := nEntry
      name := zDName.takeWhile (· != 0) }

def headsAt (a : Bytes) : Nat → Nat → Checked (List DbHead)
  | _, 0 => .ok []
  | offset, count + 1 => do
      let head ← headAt a offset
      let heads ← headsAt a (offset + dbHeaderSize) count
      .ok (head :: heads)

def trailerRead (a : Bytes) (last : Nat) : Checked (Nat × Option Nat) :=
  if a.length ≤ last then .ok (last, none)
  else if a.length - last < 12 then .ok (a.length, none)
  else do
    let magic ← readAt a last 8
    if magic ≠ sizeMagic then .ok (a.length, none)
    else do
      let nSize ← readU32 a (last + 8)
      if 12 + nSize * 12 = a.length - last then .ok (last, some nSize)
      else .error (.refused corrupt)

def locateRead (a : Bytes) : Checked (List DbHead × Nat × Option Nat) := do
  let nDb ← readU32 a 8
  let nDelete ← readU32 a 12
  let nName ← readU32 a 16
  refuse (check (nDb ≤ (a.length - manifestHeaderSize) / dbHeaderSize ∧ nName ≠ 0 ∧ nName ≤ 32)
    .corrupt "")
  let nCore := manifestHeaderSize + nDb * dbHeaderSize + nDelete * (nName + 8)
  refuse (check (nCore ≤ a.length ∧ nCore ≤ 0x7fffffff) .corrupt "")
  let heads ← headsAt a manifestHeaderSize nDb
  let last ← refuse (coreEnd a.length nName nCore heads)
  let located ← trailerRead a last
  .ok (heads, located)

/-- The entries of a delta, written over `blocks`; the answer has the offset the loop stops at. -/
def entriesRead (a : Bytes) (nName : Nat) :
    Nat → Nat → List Bytes → Checked (Except Err (List Bytes) × Nat)
  | 0, offset, blocks => .ok (.ok blocks, offset)
  | count + 1, offset, blocks => do
      let iBlk ← readU32 a offset
      if iBlk < blocks.length then do
        let block ← readAt a (offset + 4) nName
        entriesRead a nName count (offset + (4 + nName)) (blocks.set iBlk block)
      else .ok (.error corrupt, offset)

/-- The array of a database with a parent, before its entries are written: a copy of what the parent
has, and zeros behind it. -/
def inherited (nName : Nat) (parent : Option StoredDb) (head : DbHead) : List Bytes :=
  let blocks := (parent.map StoredDb.blkOrig).getD []
  blocks.take head.count ++ List.replicate (head.count - blocks.length) (List.replicate nName 0)

/-- The block list of a database with a parent. Its array is allocated for all of its blocks, however
few of them are entries; the product of the two sizes is an `int`. -/
def childRead (a : Bytes) (nName : Nat) (earlier : List StoredDb) (core : Nat) (last : Bool)
    (head : DbHead) : Checked (List Bytes) :=
  if 2 ^ 31 ≤ head.count * nName then .error .overflow
  else if maxAllocation < head.count * nName then
    -- without an array no entry is read
    if last = true ∧ head.offset ≠ core then .error .aborted else .error (.refused ⟨.nomem, ""⟩)
  else do
    let parent ← dbidToDb earlier head.parentId
    let result ← entriesRead a nName head.nEntry head.offset (inherited nName parent head)
    -- assert( iDb!=nDb-1 || iOff==nManifestCore )
    if last = true ∧ result.2 ≠ core then .error .aborted else refuse result.1

def blocksRead (a : Bytes) (nName : Nat) (earlier : List StoredDb) (core : Nat) (last : Bool)
    (head : DbHead) : Checked (List Bytes) :=
  if head.count = 0 then .ok []
  else if head.parentId = 0 then
    -- the array points into the bytes
    .ok (readRows (fun offset => slice a offset nName) nName head.offset head.count)
  else childRead a nName earlier core last head

def DbHead.db (head : DbHead) (blocks : List Bytes) : StoredDb where
  dbId := head.dbId
  parentId := head.parentId
  version := head.version
  name := head.name
  fileSize := 0
  blkOrig := blocks
  blkLocal := if head.deleted then [] else blocks

def dbsRead (a : Bytes) (nName core : Nat) : List StoredDb → List DbHead → Checked (List StoredDb)
  | earlier, [] => .ok earlier
  | earlier, head :: heads => do
      let blocks ← blocksRead a nName earlier core heads.isEmpty head
      dbsRead a nName core (earlier ++ [head.db blocks]) heads

def sizesRead (a : Bytes) (szBlk : Nat) : Nat → Nat → List StoredDb → Checked (List StoredDb)
  | 0, _, dbs => .ok dbs
  | count + 1, offset, dbs => do
      let iDbId ← readU32 a offset
      let iFileSize ← readU64 a (offset + 4)
      let dbs ← refuse (setSize szBlk (iDbId, iFileSize) dbs)
      sizesRead a szBlk count (offset + 12) dbs

def sizeTrailer (a : Bytes) (szBlk : Nat) (located : Nat × Option Nat) (dbs : List StoredDb) :
    Checked (List StoredDb) :=
  match located.2 with
  | none => .ok dbs
  | some count => do
      refuse (check (count ≤ dbs.length) .corrupt "")
      sizesRead a szBlk count (located.1 + 12) dbs

/-- `bcvManifestParse`. A wrong version is reported before anything else that is wrong. -/
def manifestParse (a : Bytes) : Checked StoredManifest := do
  refuse (check (manifestHeaderSize ≤ a.length) .corrupt "truncated manifest header")
  let iVersion ← readU32 a 0
  refuse (check (iVersion = manifestVersion) .error
    ("bad manifest version - expected 4, found " ++ toString iVersion ++ "."))
  let szBlk ← readU32 a 4
  let nName ← readU32 a 16
  let iMaxDbId ← readU32 a 20
  let located ← locateRead a
  refuse (check (structBytes located.1.length ≤ 0x7fffffff) .tooBig "")
  refuse (check (structBytes located.1.length ≤ maxAllocation) .nomem "")
  let dbs ← dbsRead a nName located.2.1 [] located.1
  let dbs ← sizeTrailer a szBlk located.2 dbs
  .ok
    { szBlk := szBlk
      nameBytes := nName
      maxDbId := iMaxDbId
      dbs := dbs
      delBlk := readRows (readDelete nName a) (nName + 8)
        (manifestHeaderSize + located.1.length * dbHeaderSize) (getU32 a 12) }

theorem refuse_check {condition : Prop} [Decidable condition] {code : Code} {message : String}
    (holds : condition) : refuse (check condition code message) = .ok () := by
  rw [check, if_pos holds]
  rfl

theorem refuse_check_eq_ok {condition : Prop} [Decidable condition] {code : Code} {message : String} :
    refuse (check condition code message) = .ok () ↔ condition := by
  by_cases holds : condition <;> simp [check, holds, refuse]

section reads
variable {a : Bytes} {offset count : Nat}

theorem readAt_ok (inside : offset + count ≤ a.length) : readAt a offset count = .ok (slice a offset count) :=
  if_pos inside

theorem readU32_ok (inside : offset + 4 ≤ a.length) : readU32 a offset = .ok (getU32 a offset) := by
  rw [readU32, readAt_ok inside]
  rfl

theorem readU64_ok (inside : offset + 8 ≤ a.length) : readU64 a offset = .ok (getU64 a offset) := by
  rw [readU64, readAt_ok inside]
  rfl

theorem headAt_ok (inside : offset + dbHeaderSize ≤ a.length) :
    headAt a offset = .ok (readHead a offset) := by
  have size : dbHeaderSize = 24 + dbNameSize := rfl
  rw [size] at inside
  rw [headAt, readU32_ok (by omega), readU32_ok (by omega), readU32_ok (by omega),
    readU32_ok (by omega), readU32_ok (by omega), readU32_ok (by omega), readAt_ok (by omega)]
  rfl

theorem headsAt_ok (inside : offset + count * dbHeaderSize ≤ a.length) :
    headsAt a offset count = .ok (readRows (readHead a) dbHeaderSize offset count) := by
  induction count generalizing offset with
  | zero => rfl
  | succ count ih =>
    rw [Nat.succ_mul] at inside
    rw [headsAt, headAt_ok (by omega), ih (by omega)]
    rfl

theorem trailerRead_eq (a : Bytes) (last : Nat) :
    trailerRead a last =
      if a.length ≤ last then .ok (last, none)
      else if a.length - last < 12 ∨ slice a last 8 ≠ sizeMagic then .ok (a.length, none)
      else if 12 + getU32 a (last + 8) * 12 = a.length - last then .ok (last, some (getU32 a (last + 8)))
      else .error (.refused corrupt) := by
  unfold trailerRead
  by_cases whole : a.length ≤ last
  · rw [if_pos whole, if_pos whole]
  · rw [if_neg whole, if_neg whole]
    by_cases short : a.length - last < 12
    · rw [if_pos short, if_pos (.inl short)]
    · rw [if_neg short, readAt_ok (by omega)]
      by_cases magic : slice a last 8 ≠ sizeMagic
      · rw [if_pos (.inr magic)]
        exact if_pos magic
      · have neither : ¬ (a.length - last < 12 ∨ slice a last 8 ≠ sizeMagic) := by
          rintro (less | other)
          · exact short less
          · exact magic other
        rw [if_neg neither]
        change (if slice a last 8 ≠ sizeMagic then _ else _) = _
        rw [if_neg magic, readU32_ok (by omega)]
        rfl

/-- What the loop over the entries of a delta does to the array. -/
def applyEntries (blocks : List Bytes) (entries : List (Nat × Bytes)) : List Bytes :=
  entries.foldl (fun blocks entry => blocks.set entry.1 entry.2) blocks

theorem length_applyEntries (blocks : List Bytes) (entries : List (Nat × Bytes)) :
    (applyEntries blocks entries).length = blocks.length := by
  induction entries generalizing blocks with
  | nil => rfl
  | cons entry entries ih => exact (ih _).trans List.length_set

theorem entriesRead_eq {nName : Nat} (blocks : List Bytes)
    (inside : offset + count * (4 + nName) ≤ a.length)
    (entries : ∀ entry ∈ readRows (readEntry nName a) (4 + nName) offset count,
      entry.1 < blocks.length) :
    entriesRead a nName count offset blocks =
      .ok (.ok (applyEntries blocks (readRows (readEntry nName a) (4 + nName) offset count)),
        offset + count * (4 + nName)) := by
  induction count generalizing offset blocks with
  | zero =>
    rw [entriesRead, Nat.zero_mul, Nat.add_zero]
    rfl
  | succ count ih =>
    rw [Nat.succ_mul] at inside
    rw [readRows, List.forall_mem_cons] at entries
    have here : getU32 a offset < blocks.length := entries.1
    have later := ih (blocks.set (getU32 a offset) (slice a (offset + 4) nName))
      (show offset + (4 + nName) + count * (4 + nName) ≤ a.length by omega)
      (by rw [List.length_set]; exact entries.2)
    have shape : offset + (count + 1) * (4 + nName) =
        offset + (4 + nName) + count * (4 + nName) := by
      rw [Nat.succ_mul]
      omega
    rw [entriesRead, readU32_ok (by omega), shape]
    change (if getU32 a offset < blocks.length then _ else _) = _
    rw [if_pos here, readAt_ok (by omega)]
    exact later

theorem length_inherited (nName : Nat) (parent : Option StoredDb) (head : DbHead) :
    (inherited nName parent head).length = head.count := by
  rw [inherited, List.length_append, List.length_take, List.length_replicate]
  omega

theorem childRead_eq {nName core : Nat} {earlier : List StoredDb} {last : Bool} {head : DbHead}
    (ordered : earlier.Pairwise fun first second => first.dbId < second.dbId)
    (array : head.count * nName ≤ maxAllocation) (inside : head.offset + head.nEntry * (4 + nName) ≤ a.length)
    (entries : ∀ entry ∈ readRows (readEntry nName a) (4 + nName) head.offset head.nEntry,
      entry.1 < head.count) :
    childRead a nName earlier core last head =
      if last = true ∧ head.offset + head.nEntry * (4 + nName) ≠ core then .error .aborted
      else .ok (applyEntries (inherited nName (searchDb earlier head.parentId) head)
        (readRows (readEntry nName a) (4 + nName) head.offset head.nEntry)) := by
  have most : maxAllocation < 2 ^ 31 := by decide
  have read := entriesRead_eq (inherited nName (searchDb earlier head.parentId) head) inside
    (by rw [length_inherited]; exact entries)
  rw [childRead, if_neg (by omega), if_neg (by omega), dbidToDb_eq _ ordered]
  simp only [bind, Except.bind]
  rw [read]
  rfl

theorem sizesRead_eq {szBlk : Nat} (dbs : List StoredDb) (inside : offset + count * 12 ≤ a.length) :
    sizesRead a szBlk count offset dbs =
      refuse (setSizes szBlk (readRows (readSize a) 12 offset count) dbs) := by
  induction count generalizing offset dbs with
  | zero => rfl
  | succ count ih =>
    rw [Nat.succ_mul] at inside
    rw [sizesRead, readU32_ok (by omega), readU64_ok (by omega), readRows, setSizes]
    change (refuse (setSize szBlk (readSize a offset) dbs) >>= _) = _
    cases setSize szBlk (readSize a offset) dbs with
    | error error => rfl
    | ok after => exact ih after (by omega)

end reads

section whole
variable {a : Bytes} {stop : Nat} {located : Nat × Option Nat}

theorem locateRead_eq (small : a.length ≤ 0x7fffffff) (long : manifestHeaderSize ≤ a.length)
    (width : getU32 a 16 ≠ 0 ∧ getU32 a 16 ≤ 32)
    (headers : getU32 a 8 ≤ (a.length - manifestHeaderSize) / dbHeaderSize)
    (deletes : manifestHeaderSize + getU32 a 8 * dbHeaderSize + getU32 a 12 * (getU32 a 16 + 8) ≤ a.length)
    (ends : coreEnd a.length (getU32 a 16)
      (manifestHeaderSize + getU32 a 8 * dbHeaderSize + getU32 a 12 * (getU32 a 16 + 8)) (readHeads a) =
        .ok stop)
    (trailer : trailerRead a stop = .ok located) : locateRead a = .ok (readHeads a, located) := by
  have header : manifestHeaderSize = 24 := rfl
  rw [locateRead, readU32_ok (by omega), readU32_ok (by omega), readU32_ok (by omega)]
  simp only [bind, Except.bind]
  rw [refuse_check ⟨headers, width⟩]
  simp only
  rw [refuse_check ⟨deletes, deletes.trans small⟩]
  simp only
  rw [headsAt_ok (by omega), show readRows (readHead a) dbHeaderSize manifestHeaderSize (getU32 a 8) =
    readHeads a from rfl]
  simp only
  rw [ends]
  simp only [refuse]
  rw [trailer]

/-- Once the end of the mapping is located, the rest is the databases and their sizes. -/
theorem manifestParse_eq (long : manifestHeaderSize ≤ a.length) (version : getU32 a 0 = manifestVersion)
    (memory : structBytes (getU32 a 8) ≤ maxAllocation)
    (found : locateRead a = .ok (readHeads a, located)) :
    manifestParse a = (do
      let dbs ← dbsRead a (getU32 a 16) located.1 [] (readHeads a)
      let dbs ← sizeTrailer a (getU32 a 4) located dbs
      .ok
        { szBlk := getU32 a 4
          nameBytes := getU32 a 16
          maxDbId := getU32 a 20
          dbs := dbs
          delBlk := readRows (readDelete (getU32 a 16) a) (getU32 a 16 + 8)
            (manifestHeaderSize + getU32 a 8 * dbHeaderSize) (getU32 a 12) }) := by
  have header : manifestHeaderSize = 24 := rfl
  have count : (readHeads a).length = getU32 a 8 := length_readRows _ _ _ _
  have most : maxAllocation ≤ 0x7fffffff := by decide
  rw [← count] at memory
  rw [manifestParse, refuse_check long, readU32_ok (by omega)]
  simp only [bind, Except.bind]
  rw [refuse_check version, readU32_ok (by omega), readU32_ok (by omega), readU32_ok (by omega), found]
  simp only
  rw [refuse_check (memory.trans most), refuse_check memory, count]

end whole

end RusqDoltlite.Codec
