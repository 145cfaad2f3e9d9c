import RusqDoltlite.Codec.ManifestParse

/-! Parsing what was composed gives the manifest back, and the end of the mapping is located where
the trailer was written; composing ends exactly when no buffer above 2 ^ 30 bytes is asked for. -/

namespace RusqDoltlite.Codec

open Wire Session

structure DbHead.Fits (head : DbHead) : Prop where
  dbId : head.dbId < 256 ^ 4
  parentId : head.parentId < 256 ^ 4
  version : head.version < 256 ^ 4
  offset : head.offset < 256 ^ 4
  count : head.count < 2 ^ 31
  nEntry : head.nEntry < 256 ^ 4
  length : head.name.length < dbNameSize
  terminated : 0 ∉ head.name

theorem takeWhile_padded {name : Bytes} (terminated : 0 ∉ name) {count : Nat} (positive : 0 < count) :
    (name ++ List.replicate count 0).takeWhile (· != 0) = name := by
  obtain ⟨more, rfl⟩ : ∃ more, count = more + 1 := ⟨count - 1, by omega⟩
  rw [List.replicate_succ]
  exact takeWhile_ne_append terminated _

theorem DbHead.widths {head : DbHead} (short : head.name.length ≤ dbNameSize) :
    head.fields.map List.length = [4, 4, 4, 4, 4, 4, dbNameSize] := by
  have named : head.name.length + (dbNameSize - head.name.length) = dbNameSize := by omega
  simp only [DbHead.fields, List.map_cons, List.map_nil, length_putBe, List.length_append,
    List.length_replicate, named]

theorem DbHead.length_write {head : DbHead} (short : head.name.length ≤ dbNameSize) :
    head.write.length = dbHeaderSize := by
  rw [DbHead.write, length_flatten_eq_span, DbHead.widths short]
  rfl

theorem readHead_write {head : DbHead} (fits : head.Fits) (front rest : Bytes) :
    readHead (front ++ (head.write ++ rest)) front.length = head := by
  have short := Nat.le_of_lt fits.length
  have field : ∀ offset count, offset + count ≤ dbHeaderSize →
      slice (front ++ (head.write ++ rest)) (front.length + offset) count =
        slice head.write offset count := by
    intro offset count inside
    exact slice_inner front rest (by rw [DbHead.length_write short]; exact inside)
  have word : ∀ offset value, offset + 4 ≤ dbHeaderSize → slice head.write offset 4 = putBe 4 value →
      value < 256 ^ 4 → getU32 (front ++ (head.write ++ rest)) (front.length + offset) = value := by
    intro offset value inside written small
    rw [getU32, field offset 4 inside, written, getBe_putBe_of_lt small]
  have fields : slices head.write 0 [4, 4, 4, 4, 4, 4, dbNameSize] = head.fields := by
    have all := slices_flatten [] head.fields
    rw [DbHead.widths short] at all
    exact all
  simp only [slices, DbHead.fields, List.cons.injEq, Nat.zero_add, Nat.reduceAdd] at fields
  obtain ⟨dbId, parentId, version, offset, count, nEntry, name, _⟩ := fields
  have flagged : head.count + (if head.deleted then 2 ^ 31 else 0) < 256 ^ 4 := by
    have small := fits.count
    split <;> omega
  have masked : (head.count + if head.deleted then 2 ^ 31 else 0) % 2 ^ 31 = head.count := by
    have small := fits.count
    split <;> omega
  have marked : decide (2 ^ 31 ≤ head.count + if head.deleted then 2 ^ 31 else 0) = head.deleted := by
    have small := fits.count
    cases head.deleted
    · simp only [Bool.false_eq_true, if_false, Nat.add_zero, decide_eq_false_iff_not]
      omega
    · simp
  have first := word 0 _ (by decide) dbId fits.dbId
  rw [Nat.add_zero] at first
  simp only [readHead, first, word 4 _ (by decide) parentId fits.parentId,
    word 8 _ (by decide) version fits.version, word 12 _ (by decide) offset fits.offset,
    word 16 _ (by decide) count flagged, word 20 _ (by decide) nEntry fits.nEntry, masked, marked,
    field 24 dbNameSize (by decide), name,
    takeWhile_padded fits.terminated (Nat.sub_pos_of_lt fits.length)]

theorem readEntry_write {nName : Nat} {entry : Nat × Bytes} (small : entry.1 < 256 ^ 4)
    (width : entry.2.length = nName) (front rest : Bytes) :
    readEntry nName (front ++ (writeEntry entry ++ rest)) front.length = entry := by
  have index : slice (front ++ (writeEntry entry ++ rest)) front.length 4 = putBe 4 entry.1 := by
    have part := slice_part front (putBe 4 entry.1) (entry.2 ++ rest)
    rw [length_putBe] at part
    rw [writeEntry, List.append_assoc, part]
  have block : slice (front ++ (writeEntry entry ++ rest)) (front.length + 4) nName = entry.2 := by
    have part := slice_part (front ++ putBe 4 entry.1) entry.2 rest
    rw [width, List.length_append, length_putBe, List.append_assoc] at part
    rw [writeEntry, List.append_assoc, part]
  rw [readEntry, getU32, index, block, getBe_putBe_of_lt small]

theorem readDelete_write {nName : Nat} {entry : Bytes × Nat} (width : entry.1.length = nName)
    (small : entry.2 < 256 ^ 8) (front rest : Bytes) :
    readDelete nName (front ++ (writeDelete entry ++ rest)) front.length = entry := by
  have block : slice (front ++ (writeDelete entry ++ rest)) front.length nName = entry.1 := by
    have part := slice_part front entry.1 (putBe 8 entry.2 ++ rest)
    rw [width] at part
    rw [writeDelete, List.append_assoc, part]
  have time : slice (front ++ (writeDelete entry ++ rest)) (front.length + nName) 8 =
      putBe 8 entry.2 := by
    have part := slice_part (front ++ entry.1) (putBe 8 entry.2) rest
    rw [length_putBe, List.length_append, width, List.append_assoc] at part
    rw [writeDelete, List.append_assoc, part]
  rw [readDelete, getU64, block, time, getBe_putBe_of_lt small]

theorem readSize_write {entry : Nat × Nat} (small : entry.1 < 256 ^ 4) (fits : entry.2 < 256 ^ 8)
    (front rest : Bytes) :
    readSize (front ++ (writeSize entry ++ rest)) front.length = entry := by
  have index : slice (front ++ (writeSize entry ++ rest)) front.length 4 = putBe 4 entry.1 := by
    have part := slice_part front (putBe 4 entry.1) (putBe 8 entry.2 ++ rest)
    rw [length_putBe] at part
    rw [writeSize, List.append_assoc, part]
  have size : slice (front ++ (writeSize entry ++ rest)) (front.length + 4) 8 = putBe 8 entry.2 := by
    have part := slice_part (front ++ putBe 4 entry.1) (putBe 8 entry.2) rest
    rw [length_putBe, List.length_append, length_putBe, List.append_assoc] at part
    rw [writeSize, List.append_assoc, part]
  rw [readSize, getU32, getU64, index, size, getBe_putBe_of_lt small, getBe_putBe_of_lt fits]

theorem applyEntries_delta (fill : Bytes) (front parent blocks : List Bytes) :
    applyEntries (front ++ (parent.take blocks.length ++
        List.replicate (blocks.length - parent.length) fill))
      (deltaEntries front.length parent blocks) = front ++ blocks := by
  have set : ∀ (block old : Bytes) (later : List Bytes),
      (front ++ old :: later).set front.length block = front ++ [block] ++ later := by
    intro block old later
    simp
  induction blocks generalizing front parent with
  | nil => simp [deltaEntries, applyEntries]
  | cons block blocks ih =>
    have next : front.length + 1 = (front ++ [block]).length := by simp
    have step := fun parent : List Bytes => ih (front ++ [block]) parent (by simp)
    cases parent with
    | nil =>
      have base : [].take (block :: blocks).length ++
          List.replicate ((block :: blocks).length - ([] : List Bytes).length) fill =
          fill :: ([].take blocks.length ++
            List.replicate (blocks.length - ([] : List Bytes).length) fill) := by
        simp [List.replicate_succ]
      rw [base, deltaEntries, applyEntries, List.foldl_cons, set, next]
      exact (step []).trans (by rw [List.append_assoc, List.singleton_append])
    | cons old parent =>
      have base : (old :: parent).take (block :: blocks).length ++
          List.replicate ((block :: blocks).length - (old :: parent).length) fill =
          old :: (parent.take blocks.length ++
            List.replicate (blocks.length - parent.length) fill) := by
        simp
      rw [base, deltaEntries]
      split
      · rename_i same
        have whole := step parent
        rw [← same, next, ← List.singleton_append, ← List.append_assoc, whole, List.append_assoc,
          List.singleton_append]
      · rw [applyEntries, List.foldl_cons, set, next]
        exact (step parent).trans (by rw [List.append_assoc, List.singleton_append])

theorem mem_deltaEntries {i : Nat} {parent blocks : List Bytes} {entry : Nat × Bytes}
    (member : entry ∈ deltaEntries i parent blocks) :
    entry.1 < i + blocks.length ∧ entry.2 ∈ blocks := by
  induction blocks generalizing i parent with
  | nil => cases parent <;> cases member
  | cons block blocks ih =>
    have later : ∀ parent, entry ∈ deltaEntries (i + 1) parent blocks →
        entry.1 < i + (block :: blocks).length ∧ entry.2 ∈ block :: blocks := by
      intro parent member
      obtain ⟨below, inside⟩ := ih member
      rw [List.length_cons]
      exact ⟨by omega, List.mem_cons_of_mem block inside⟩
    have here : entry = (i, block) →
        entry.1 < i + (block :: blocks).length ∧ entry.2 ∈ block :: blocks := by
      rintro rfl
      exact ⟨by simp, List.mem_cons_self⟩
    cases parent with
    | nil =>
      rw [deltaEntries] at member
      rcases List.mem_cons.mp member with same | member
      · exact here same
      · exact later [] member
    | cons old parent =>
      rw [deltaEntries] at member
      split at member
      · exact later parent member
      · rcases List.mem_cons.mp member with same | member
        · exact here same
        · exact later parent member

/-- What a manifest in memory is taken to be: ids in ascending order with every parent in front,
block ids of one width, numbers and sizes in the range of their types, and exact sizes within the
extent of their database. A parent that is no longer listed is allowed. -/
structure StoredManifest.Consistent (man : StoredManifest) : Prop where
  szBlk : man.szBlk < 256 ^ 4
  maxDbId : man.maxDbId < 256 ^ 4
  width : 0 < man.nameBytes ∧ man.nameBytes ≤ 32
  ordered : man.dbs.Pairwise fun first second => first.dbId < second.dbId
  dbId : ∀ db ∈ man.dbs, db.dbId < 256 ^ 4
  version : ∀ db ∈ man.dbs, db.version < 256 ^ 4
  named : ∀ db ∈ man.dbs, db.name.length < dbNameSize ∧ 0 ∉ db.name
  blocks : ∀ db ∈ man.dbs, db.blkOrig.length < 2 ^ 31 ∧
    ∀ block ∈ db.blkOrig, block.length = man.nameBytes
  extent : ∀ db ∈ man.dbs, db.fileSize ≤ db.blkOrig.length * man.szBlk
  parents : ∀ db ∈ man.dbs, ∀ parent, man.parentOf db = some parent → parent.dbId < db.dbId
  deletes : ∀ entry ∈ man.delBlk, entry.1.length = man.nameBytes ∧ entry.2 < 256 ^ 8

/-- The part of it that is about ranges and widths: such a manifest reads back field by field. -/
structure StoredManifest.Ranged (man : StoredManifest) : Prop where
  szBlk : man.szBlk < 256 ^ 4
  maxDbId : man.maxDbId < 256 ^ 4
  width : 0 < man.nameBytes ∧ man.nameBytes ≤ 32
  dbId : ∀ db ∈ man.dbs, db.dbId < 256 ^ 4
  version : ∀ db ∈ man.dbs, db.version < 256 ^ 4
  named : ∀ db ∈ man.dbs, db.name.length < dbNameSize ∧ 0 ∉ db.name
  blocks : ∀ db ∈ man.dbs, db.blkOrig.length < 2 ^ 31 ∧
    ∀ block ∈ db.blkOrig, block.length = man.nameBytes
  parents : ∀ db ∈ man.dbs, ∀ parent, man.parentOf db = some parent → db.parentId < 256 ^ 4
  deletes : ∀ entry ∈ man.delBlk, entry.1.length = man.nameBytes ∧ entry.2 < 256 ^ 8
  length : (man.core ++ man.trailer).length ≤ 0x7fffffff

/-- The sizes of the buffer that the loop over the databases asks for. -/
def StoredManifest.demands (man : StoredManifest) : Nat → List StoredDb → List Nat
  | _, [] => []
  | nOut, db :: dbs => man.nMax nOut db :: man.demands (nOut + (man.blockList db).length) dbs

/-- Nothing that is asked for is above the largest power of two in an `int`. -/
def StoredManifest.Room (man : StoredManifest) : Prop :=
  man.listsOffset ≤ 2 ^ 30 ∧ ∀ size ∈ man.demands man.listsOffset man.dbs, size ≤ 2 ^ 30

instance (man : StoredManifest) : Decidable man.Room := inferInstanceAs (Decidable (_ ∧ _))

section
variable {man : StoredManifest}

theorem length_headerFields (man : StoredManifest) :
    man.headerFields.flatten.length = manifestHeaderSize := by
  rw [length_flatten_eq_span]
  simp only [StoredManifest.headerFields, List.map_cons, List.map_nil, length_putBe]
  rfl

theorem length_heads (man : StoredManifest) (offset : Nat) (dbs : List StoredDb) :
    (man.heads offset dbs).length = dbs.length := by
  induction dbs generalizing offset with
  | nil => rfl
  | cons db dbs ih => rw [StoredManifest.heads, List.length_cons, ih, List.length_cons]

variable {offset : Nat} {db parent : StoredDb} {done rest : List StoredDb}

theorem mem_heads {dbs : List StoredDb} {head : DbHead} (member : head ∈ man.heads offset dbs) :
    ∃ db ∈ dbs, ∃ start, start ≤ offset + (dbs.flatMap man.blockList).length ∧
      head = man.headOf db start := by
  induction dbs generalizing offset with
  | nil => cases member
  | cons db dbs ih =>
    rw [StoredManifest.heads] at member
    rw [List.flatMap_cons, List.length_append]
    rcases List.mem_cons.mp member with same | member
    · exact ⟨db, List.mem_cons_self, offset, by omega, same⟩
    · obtain ⟨other, inside, start, below, same⟩ := ih member
      exact ⟨other, List.mem_cons_of_mem db inside, start, by omega, same⟩

theorem parentOf_eq_some (consistent : man.Consistent) (found : man.parentOf db = some parent) :
    parent ∈ man.dbs ∧ parent.dbId = db.parentId ∧ db.parentId ≠ 0 := by
  rw [StoredManifest.parentOf] at found
  split at found
  · cases found
  · rename_i given
    obtain ⟨member, same⟩ := (bisect_eq_some_iff consistent.ordered).mp found
    exact ⟨member, same, given⟩

theorem parentId_of_parentOf (found : man.parentOf db = some parent) : db.parentId ≠ 0 := by
  rw [StoredManifest.parentOf] at found
  split at found
  · cases found
  · assumption

theorem entriesOf_valid (widths : ∀ block ∈ db.blkOrig, block.length = man.nameBytes) :
    ∀ entry ∈ man.entriesOf db, entry.1 < db.blkOrig.length ∧ entry.2.length = man.nameBytes := by
  intro entry inside
  rw [StoredManifest.entriesOf] at inside
  split at inside
  · obtain ⟨below, block⟩ := mem_deltaEntries inside
    exact ⟨by omega, widths _ block⟩
  · cases inside

theorem length_writeEntry {entry : Nat × Bytes} {nName : Nat} (width : entry.2.length = nName) :
    (writeEntry entry).length = 4 + nName := by
  rw [writeEntry, List.length_append, length_putBe, width]

theorem length_entries (widths : ∀ block ∈ db.blkOrig, block.length = man.nameBytes) :
    ((man.entriesOf db).flatMap writeEntry).length =
      (man.entriesOf db).length * (4 + man.nameBytes) :=
  length_flatMap_rows fun entry inside => length_writeEntry (entriesOf_valid widths entry inside).2

theorem length_flat (widths : ∀ block ∈ db.blkOrig, block.length = man.nameBytes) :
    db.blkOrig.flatten.length = db.blkOrig.length * man.nameBytes := by
  rw [← List.flatMap_id]
  exact length_flatMap_rows widths

theorem length_entriesOf_le (man : StoredManifest) (db : StoredDb) :
    (man.entriesOf db).length ≤ db.blkOrig.length := by
  have bound : ∀ i (parent blocks : List Bytes),
      (deltaEntries i parent blocks).length ≤ blocks.length := by
    intro i parent blocks
    induction blocks generalizing i parent with
    | nil => cases parent <;> exact Nat.le_refl 0
    | cons block blocks ih =>
      cases parent with
      | nil => exact Nat.succ_le_succ (ih (i + 1) [])
      | cons old parent =>
        rw [deltaEntries]
        split
        · exact Nat.le_succ_of_le (ih (i + 1) parent)
        · exact Nat.succ_le_succ (ih (i + 1) parent)
  rw [StoredManifest.entriesOf]
  split
  · exact bound 0 _ _
  · exact Nat.zero_le _

theorem listBytes_headOf (ranged : man.Ranged) (member : db ∈ man.dbs) (offset : Nat) :
    (man.headOf db offset).listBytes man.nameBytes = (man.blockList db).length := by
  have widths := (ranged.blocks db member).2
  rw [DbHead.listBytes, StoredManifest.blockList]
  cases found : man.parentOf db with
  | none => simp only [StoredManifest.headOf, found, Option.isSome_none, Bool.false_eq_true, if_false,
      ne_eq, not_true_eq_false, length_flat widths]
  | some parent =>
    have given := parentId_of_parentOf found
    simp only [StoredManifest.headOf, found, Option.isSome_some, if_true, ne_eq, given,
      not_false_eq_true, length_entries widths]

def StoredManifest.bytes (man : StoredManifest) : Bytes := man.core ++ man.trailer

theorem bytes_eq (man : StoredManifest) :
    man.bytes = man.headerFields.flatten ++ ((man.heads man.listsOffset man.dbs).flatMap DbHead.write ++
      (man.delBlk.flatMap writeDelete ++ (man.dbs.flatMap man.blockList ++ man.trailer))) := by
  simp only [StoredManifest.bytes, StoredManifest.core, List.append_assoc]

theorem length_writeDelete {entry : Bytes × Nat} {nName : Nat} (width : entry.1.length = nName) :
    (writeDelete entry).length = nName + 8 := by
  rw [writeDelete, List.length_append, length_putBe, width]

theorem headOf_named (named : ∀ db ∈ man.dbs, db.name.length < dbNameSize ∧ 0 ∉ db.name) :
    ∀ head ∈ man.heads offset man.dbs, head.write.length = dbHeaderSize := by
  intro head member
  obtain ⟨db, inside, start, _, rfl⟩ := mem_heads member
  exact DbHead.length_write (Nat.le_of_lt (named db inside).1)

theorem length_core_eq (named : ∀ db ∈ man.dbs, db.name.length < dbNameSize ∧ 0 ∉ db.name)
    (widths : ∀ entry ∈ man.delBlk, entry.1.length = man.nameBytes ∧ entry.2 < 256 ^ 8) :
    man.core.length = man.listsOffset + (man.dbs.flatMap man.blockList).length := by
  have heads := length_flatMap_rows (@headOf_named man man.listsOffset named)
  have deletes : (man.delBlk.flatMap writeDelete).length = man.delBlk.length * (man.nameBytes + 8) :=
    length_flatMap_rows fun entry inside => length_writeDelete (widths entry inside).1
  rw [StoredManifest.core, List.length_append, List.length_append, List.length_append,
    length_headerFields, heads, length_heads, deletes, StoredManifest.listsOffset]
  omega

theorem length_core (ranged : man.Ranged) :
    man.core.length = man.listsOffset + (man.dbs.flatMap man.blockList).length :=
  length_core_eq ranged.named ranged.deletes

theorem length_core_le (ranged : man.Ranged) : man.core.length ≤ 0x7fffffff := by
  have length := ranged.length
  rw [List.length_append] at length
  omega

theorem headOf_fits (ranged : man.Ranged) (member : db ∈ man.dbs) (inside : offset ≤ man.core.length) :
    (man.headOf db offset).Fits := by
  have few := (ranged.blocks db member).1
  have entries := length_entriesOf_le man db
  have small := length_core_le ranged
  refine ⟨ranged.dbId db member, ?_, ranged.version db member, ?_, few, ?_,
    (ranged.named db member).1, (ranged.named db member).2⟩
  · simp only [StoredManifest.headOf]
    cases found : man.parentOf db with
    | none => simp
    | some parent =>
      rw [Option.isSome_some, if_pos rfl]
      exact ranged.parents db member parent found
  · simp only [StoredManifest.headOf]
    omega
  · simp only [StoredManifest.headOf]
    omega

structure HeaderRead (man : StoredManifest) : Prop where
  version : getU32 man.bytes 0 = manifestVersion
  szBlk : getU32 man.bytes 4 = man.szBlk
  nDb : getU32 man.bytes 8 = man.dbs.length
  nDelete : getU32 man.bytes 12 = man.delBlk.length
  nName : getU32 man.bytes 16 = man.nameBytes
  maxDbId : getU32 man.bytes 20 = man.maxDbId

theorem headerRead (ranged : man.Ranged) : HeaderRead man := by
  have length := length_core ranged
  have small := length_core_le ranged
  have widths := ranged.width
  have field : ∀ offset, offset + 4 ≤ manifestHeaderSize →
      slice man.bytes offset 4 = slice man.headerFields.flatten offset 4 := by
    intro offset inside
    have part := @slice_inner [] man.headerFields.flatten
      ((man.heads man.listsOffset man.dbs).flatMap DbHead.write ++
        (man.delBlk.flatMap writeDelete ++ (man.dbs.flatMap man.blockList ++ man.trailer)))
      offset 4 (by rw [length_headerFields]; exact inside)
    rw [List.length_nil, List.nil_append, Nat.zero_add, ← bytes_eq] at part
    exact part
  have fields : slices man.headerFields.flatten 0 [4, 4, 4, 4, 4, 4] = man.headerFields := by
    have all := slices_flatten [] man.headerFields
    simpa [StoredManifest.headerFields] using all
  simp only [slices, StoredManifest.headerFields, List.cons.injEq, Nat.zero_add, Nat.reduceAdd] at fields
  obtain ⟨version, szBlk, nDb, nDelete, nName, maxDbId, _⟩ := fields
  have word : ∀ offset value, offset + 4 ≤ manifestHeaderSize →
      slice man.headerFields.flatten offset 4 = putBe 4 value → value < 256 ^ 4 →
      getU32 man.bytes offset = value := by
    intro offset value inside written fits
    rw [getU32, field offset inside, written, getBe_putBe_of_lt fits]
  have dbCount : man.dbs.length < 256 ^ 4 := by
    simp only [StoredManifest.listsOffset, dbHeaderSize] at length
    omega
  have deleteCount : man.delBlk.length < 256 ^ 4 := by
    have rows : man.delBlk.length ≤ man.delBlk.length * (man.nameBytes + 8) :=
      Nat.le_mul_of_pos_right _ (by omega)
    simp only [StoredManifest.listsOffset] at length
    omega
  exact ⟨word 0 _ (by decide) version (by decide), word 4 _ (by decide) szBlk ranged.szBlk,
    word 8 _ (by decide) nDb dbCount, word 12 _ (by decide) nDelete deleteCount,
    word 16 _ (by decide) nName (by omega), word 20 _ (by decide) maxDbId ranged.maxDbId⟩

theorem readHeads_bytes (ranged : man.Ranged) :
    readHeads man.bytes = man.heads man.listsOffset man.dbs := by
  have rows := @readRows_flatMap DbHead readHead DbHead.write dbHeaderSize
    (man.heads man.listsOffset man.dbs) man.headerFields.flatten
    (man.delBlk.flatMap writeDelete ++ (man.dbs.flatMap man.blockList ++ man.trailer))
    (headOf_named ranged.named) (by
      intro head member front rest
      obtain ⟨db, inside, start, below, rfl⟩ := mem_heads member
      rw [← length_core ranged] at below
      exact readHead_write (headOf_fits ranged inside below) front rest)
  rw [← bytes_eq, length_headerFields, length_heads] at rows
  rw [readHeads, (headerRead ranged).nDb, rows]

theorem coreEnd_heads {length : Nat} {dbs : List StoredDb} (ranged : man.Ranged)
    (listed : ∀ db ∈ dbs, db ∈ man.dbs) (inside : offset + (dbs.flatMap man.blockList).length ≤ length)
    (small : offset + (dbs.flatMap man.blockList).length ≤ 0x7fffffff) :
    coreEnd length man.nameBytes offset (man.heads offset dbs) =
      .ok (offset + (dbs.flatMap man.blockList).length) := by
  induction dbs generalizing offset with
  | nil => rfl
  | cons db dbs ih =>
    have width := listBytes_headOf ranged (listed db List.mem_cons_self) offset
    rw [List.flatMap_cons, List.length_append] at inside small ⊢
    have later := @ih (offset + (man.blockList db).length)
      (fun other member => listed other (List.mem_cons_of_mem db member)) (by omega) (by omega)
    have start : (man.headOf db offset).offset = offset := rfl
    rw [StoredManifest.heads, coreEnd]
    simp only [width, start, check_bind_eq_ok]
    rw [Nat.max_eq_right (Nat.le_add_right _ _), later, Nat.add_assoc]
    exact ⟨by omega, rfl⟩

theorem length_trailer (man : StoredManifest) (sized : man.sizes ≠ []) :
    man.trailer.length = 12 + man.sizes.length * 12 := by
  have rows : (man.sizes.flatMap writeSize).length = man.sizes.length * 12 := by
    apply length_flatMap_rows
    intro entry _
    rw [writeSize, List.length_append, length_putBe, length_putBe]
  rw [StoredManifest.trailer, if_neg sized, List.length_append, List.length_append, length_putBe, rows]
  have magic : sizeMagic.length = 8 := rfl
  omega

theorem sizes_length_le (man : StoredManifest) : man.sizes.length ≤ man.dbs.length := by
  rw [StoredManifest.sizes, List.length_map]
  exact List.length_filter_le _ _

theorem trailer_read (ranged : man.Ranged) (sized : man.sizes ≠ []) :
    slice man.bytes man.core.length 8 = sizeMagic ∧
      getU32 man.bytes (man.core.length + 8) = man.sizes.length := by
  have small := length_core_le ranged
  have few := sizes_length_le man
  have core := length_core ranged
  have fits : man.sizes.length < 256 ^ 4 := by
    simp only [StoredManifest.listsOffset, dbHeaderSize] at core
    omega
  have magic := slice_part man.core sizeMagic (putBe 4 man.sizes.length ++ man.sizes.flatMap writeSize)
  have part := slice_part (man.core ++ sizeMagic) (putBe 4 man.sizes.length)
    (man.sizes.flatMap writeSize)
  have offset : (man.core ++ sizeMagic).length = man.core.length + 8 := List.length_append
  rw [offset, length_putBe, List.append_assoc] at part
  rw [getU32, StoredManifest.bytes, StoredManifest.trailer, if_neg sized, part, getBe_putBe_of_lt fits]
  exact ⟨magic, rfl⟩

theorem readSizes_bytes (ranged : man.Ranged) (sized : man.sizes ≠ [])
    (small : ∀ db ∈ man.dbs, db.fileSize < 2 ^ 63) :
    readRows (readSize man.bytes) 12 (man.core.length + 12) man.sizes.length = man.sizes := by
  have rows := @readRows_flatMap (Nat × Nat) readSize writeSize 12 man.sizes
    (man.core ++ (sizeMagic ++ putBe 4 man.sizes.length)) []
    (by
      intro entry _
      rw [writeSize, List.length_append, length_putBe, length_putBe])
    (by
      intro entry member
      obtain ⟨db, inside, rfl⟩ := List.mem_map.mp member
      have listed := List.mem_of_mem_filter inside
      have bound := small db listed
      exact readSize_write (ranged.dbId db listed) (by omega))
  have offset : (man.core ++ (sizeMagic ++ putBe 4 man.sizes.length)).length =
      man.core.length + 12 := by
    rw [List.length_append, List.length_append, length_putBe]
    rfl
  have place : man.core ++ (sizeMagic ++ putBe 4 man.sizes.length) ++
      (man.sizes.flatMap writeSize ++ []) = man.bytes := by
    rw [StoredManifest.bytes, StoredManifest.trailer, if_neg sized, List.append_nil,
      List.append_assoc, List.append_assoc]
  rw [offset, place] at rows
  exact rows

theorem trailerRead_bytes (ranged : man.Ranged) :
    trailerRead man.bytes man.core.length =
      .ok (man.core.length, if man.sizes = [] then none else some man.sizes.length) := by
  by_cases sized : man.sizes = []
  · have bare : man.bytes.length = man.core.length := by
      rw [StoredManifest.bytes, StoredManifest.trailer, if_pos sized, List.append_nil]
    rw [trailerRead_eq, if_pos (by omega), if_pos sized]
  · have length : man.bytes.length = man.core.length + man.trailer.length := List.length_append
    have trailing := length_trailer man sized
    obtain ⟨magic, count⟩ := trailer_read ranged sized
    rw [trailerRead_eq, if_neg (by omega), if_neg (by rw [magic]; simp; omega), count,
      if_pos (by omega), if_neg sized]

theorem locateRead_bytes (ranged : man.Ranged) :
    locateRead man.bytes = .ok (man.heads man.listsOffset man.dbs, man.core.length,
      if man.sizes = [] then none else some man.sizes.length) := by
  have header := headerRead ranged
  have core := length_core ranged
  have small := length_core_le ranged
  have total : man.bytes.length = man.core.length + man.trailer.length := List.length_append
  have ends := @coreEnd_heads man man.listsOffset man.bytes.length man.dbs ranged
    (fun db member => member) (by omega) (by omega)
  have start : manifestHeaderSize + man.dbs.length * dbHeaderSize +
      man.delBlk.length * (man.nameBytes + 8) = man.listsOffset := rfl
  have width := ranged.width
  have all := @locateRead_eq man.bytes (man.listsOffset + (man.dbs.flatMap man.blockList).length)
    (man.core.length, if man.sizes = [] then none else some man.sizes.length)
  simp only [header.nDb, header.nDelete, header.nName, start, readHeads_bytes ranged] at all
  refine all ranged.length (by omega) ⟨by omega, width.2⟩ ?_ (by omega) ends ?_
  · rw [Nat.le_div_iff_mul_le (by decide)]
    omega
  · rw [← core]
    exact trailerRead_bytes ranged

/-! What the buffer has room for. -/

theorem length_blockList_le (widths : ∀ block ∈ db.blkOrig, block.length = man.nameBytes) (nOut : Nat) :
    nOut + (man.blockList db).length ≤ man.nMax nOut db := by
  rw [StoredManifest.blockList, StoredManifest.nMax]
  cases man.parentOf db with
  | none =>
    rw [length_flat widths]
    simp
  | some parent =>
    have entries := Nat.mul_le_mul_right (4 + man.nameBytes) (length_entriesOf_le man db)
    rw [length_entries widths, Option.isSome_some, if_pos rfl, Nat.add_comm man.nameBytes 4]
    omega

theorem lists_le_of_room {dbs : List StoredDb} {nOut : Nat} (start : nOut ≤ 2 ^ 30)
    (widths : ∀ db ∈ dbs, ∀ block ∈ db.blkOrig, block.length = man.nameBytes)
    (room : ∀ size ∈ man.demands nOut dbs, size ≤ 2 ^ 30) :
    nOut + (dbs.flatMap man.blockList).length ≤ 2 ^ 30 := by
  induction dbs generalizing nOut with
  | nil => exact start
  | cons db dbs ih =>
    obtain ⟨here, later⟩ := List.forall_mem_cons.mp room
    have list := length_blockList_le (widths db List.mem_cons_self) nOut
    have rest := ih (by omega) (fun other member => widths other (List.mem_cons_of_mem db member)) later
    rw [List.flatMap_cons, List.length_append]
    omega

theorem array_le_of_room {dbs : List StoredDb} {nOut : Nat} (member : db ∈ dbs)
    (room : ∀ size ∈ man.demands nOut dbs, size ≤ 2 ^ 30) :
    db.blkOrig.length * man.nameBytes ≤ 2 ^ 30 := by
  induction dbs generalizing nOut with
  | nil => cases member
  | cons other dbs ih =>
    obtain ⟨here, later⟩ := List.forall_mem_cons.mp room
    rcases List.mem_cons.mp member with rfl | member
    · rw [StoredManifest.nMax, Nat.mul_add] at here
      omega
    · exact ih member later

/-- The loop over the databases ends well exactly if it has room. -/
theorem allocDbs_eq {dbs : List StoredDb} {nOut k left : Nat} (sum : k + left = 30)
    (ordered : man.dbs.Pairwise fun first second => first.dbId < second.dbId) :
    ((∀ size ∈ man.demands nOut dbs, size ≤ 2 ^ 30) ∧ ∃ nAlloc, man.allocDbs nOut (2 ^ k) dbs = .ok nAlloc) ∨
      ((∃ size ∈ man.demands nOut dbs, 2 ^ 30 < size) ∧
        man.allocDbs nOut (2 ^ k) dbs = .error .overflow) := by
  induction dbs generalizing nOut k left with
  | nil => exact .inl ⟨fun size member => absurd member List.not_mem_nil, 2 ^ k, rfl⟩
  | cons db dbs ih =>
    have step : man.allocDbs nOut (2 ^ k) (db :: dbs) = (do
        let nAlloc ← growAlloc (man.nMax nOut db) (2 ^ k)
        man.allocDbs (nOut + (man.blockList db).length) nAlloc dbs) := by
      rw [StoredManifest.allocDbs, dbidToDb_eq _ ordered]
      split <;> rfl
    rw [step]
    rcases @growAlloc_pow (man.nMax nOut db) k left sum with ⟨here, j, left, sum, grown⟩ | ⟨wide, failed⟩
    · rw [grown]
      rcases @ih (nOut + (man.blockList db).length) j left sum with ⟨later, done⟩ | ⟨wide, failed⟩
      · exact .inl ⟨List.forall_mem_cons.mpr ⟨here, later⟩, done⟩
      · obtain ⟨size, member, above⟩ := wide
        exact .inr ⟨⟨size, List.mem_cons_of_mem _ member, above⟩, failed⟩
    · rw [failed]
      exact .inr ⟨⟨_, List.mem_cons_self, wide⟩, rfl⟩

theorem manifestCompose_overflow
    (ordered : man.dbs.Pairwise fun first second => first.dbId < second.dbId) (tight : ¬ man.Room) :
    manifestCompose man = .error .overflow := by
  rw [manifestCompose]
  rcases @growAlloc_pow man.listsOffset 20 10 rfl with ⟨start, j, left, sum, grown⟩ | ⟨wide, failed⟩
  · rw [grown]
    rcases @allocDbs_eq man man.dbs man.listsOffset j left sum ordered with ⟨room, _⟩ | ⟨_, failed⟩
    · exact absurd ⟨start, room⟩ tight
    · simp only [bind, Except.bind]
      rw [failed]
  · rw [failed]
    rfl

theorem length_bytes_le (consistent : man.Consistent) (room : man.Room) :
    man.core.length + man.trailer.length ≤ maxAllocation := by
  have core := length_core_eq consistent.named consistent.deletes
  have lists := lists_le_of_room room.1 (fun db member => (consistent.blocks db member).2) room.2
  have start := room.1
  have few := sizes_length_le man
  have most : maxAllocation = 2147483391 := rfl
  rw [StoredManifest.listsOffset, dbHeaderSize] at start
  by_cases sized : man.sizes = []
  · rw [StoredManifest.trailer, if_pos sized, List.length_nil]
    omega
  · rw [length_trailer man sized]
    omega

theorem manifestCompose_eq (consistent : man.Consistent) (room : man.Room) :
    manifestCompose man = .ok man.bytes := by
  have length := length_bytes_le consistent room
  have most : maxAllocation ≤ 0x7fffffff := by decide
  rw [manifestCompose]
  rcases @growAlloc_pow man.listsOffset 20 10 rfl with ⟨_, j, left, sum, grown⟩ | ⟨wide, _⟩
  · rw [grown]
    rcases @allocDbs_eq man man.dbs man.listsOffset j left sum consistent.ordered with
      ⟨_, nAlloc, alloc⟩ | ⟨⟨size, member, wide⟩, _⟩
    · simp only [bind, Except.bind]
      rw [alloc]
      simp only
      rw [refuse_check (length.trans most), refuse_check (.inr length)]
      split <;> rfl
    · exact absurd (room.2 size member) (Nat.not_le.mpr wide)
  · exact absurd room.1 (Nat.not_le.mpr wide)

theorem StoredManifest.Consistent.ranged (consistent : man.Consistent) (room : man.Room) : man.Ranged where
  szBlk := consistent.szBlk
  maxDbId := consistent.maxDbId
  width := consistent.width
  dbId := consistent.dbId
  version := consistent.version
  named := consistent.named
  blocks := consistent.blocks
  parents db _ parent found := by
    obtain ⟨listed, same, _⟩ := parentOf_eq_some consistent found
    rw [← same]
    exact consistent.dbId parent listed
  deletes := consistent.deletes
  length := by
    have total := length_bytes_le consistent room
    have most : maxAllocation ≤ 0x7fffffff := by decide
    rw [List.length_append]
    omega

/-- A database as it is read back: a parent that is not listed is dropped, and the local mapping is
the original one, or none for a deleted database. -/
def StoredManifest.image (man : StoredManifest) (db : StoredDb) : StoredDb :=
  { db with
    parentId := if (man.parentOf db).isSome then db.parentId else 0
    blkLocal := if db.blkLocal.isEmpty then [] else db.blkOrig }

def StoredDb.unsized (db : StoredDb) : StoredDb := { db with fileSize := 0 }

theorem ordered_earlier (consistent : man.Consistent) (split : man.dbs = done ++ rest) :
    (done.map fun db => (man.image db).unsized).Pairwise fun first second => first.dbId < second.dbId := by
  have ordered := consistent.ordered
  rw [split, List.pairwise_append] at ordered
  rw [List.pairwise_map]
  exact ordered.1

theorem searchDb_earlier (consistent : man.Consistent) (split : man.dbs = done ++ db :: rest)
    (found : man.parentOf db = some parent) :
    searchDb (done.map fun db => (man.image db).unsized) db.parentId =
      some (man.image parent).unsized := by
  obtain ⟨listed, same, _⟩ := parentOf_eq_some consistent found
  have member : db ∈ man.dbs := by simp [split]
  have less := consistent.parents db member parent found
  have ordered := consistent.ordered
  rw [split, List.pairwise_append] at ordered
  have earlier : parent ∈ done := by
    rw [split] at listed
    rcases List.mem_append.mp listed with inside | inside
    · exact inside
    · rcases List.mem_cons.mp inside with rfl | behind
      · omega
      · have more := (List.pairwise_cons.mp ordered.2.1).1 parent behind
        omega
  rw [searchDb, bisect_eq_some_iff (ordered_earlier consistent split)]
  exact ⟨List.mem_map.mpr ⟨parent, earlier, rfl⟩, same⟩

/-- The list of a database is read back; behind the last one the mapping ends. -/
theorem blocksRead_headOf {front tail : Bytes} {last : Bool} (consistent : man.Consistent) (room : man.Room)
    (split : man.dbs = done ++ db :: rest) (place : man.bytes = front ++ (man.blockList db ++ tail))
    (ends : last = true → man.core.length = front.length + (man.blockList db).length) :
    blocksRead man.bytes man.nameBytes (done.map fun db => (man.image db).unsized) man.core.length last
      (man.headOf db front.length) = .ok db.blkOrig := by
  have member : db ∈ man.dbs := by simp [split]
  have widths := (consistent.blocks db member).2
  rw [blocksRead]
  by_cases empty : db.blkOrig.length = 0
  · have count : (man.headOf db front.length).count = 0 := empty
    rw [if_pos count, List.length_eq_zero_iff.mp empty]
  · have count : (man.headOf db front.length).count = db.blkOrig.length := rfl
    have offset : (man.headOf db front.length).offset = front.length := rfl
    have nEntry : (man.headOf db front.length).nEntry = (man.entriesOf db).length := rfl
    rw [count, offset, if_neg empty]
    cases found : man.parentOf db with
    | none =>
      have parentId : (man.headOf db front.length).parentId = 0 := by
        simp [StoredManifest.headOf, found]
      have list : man.blockList db = db.blkOrig.flatMap id := by
        rw [StoredManifest.blockList, found, List.flatMap_id]
      rw [list] at place
      have rows := @readRows_flatMap Bytes (fun bytes offset => slice bytes offset man.nameBytes) id
        man.nameBytes db.blkOrig front tail widths (by
          intro block inside front rest
          have part := slice_part front block rest
          rw [widths block inside] at part
          exact part)
      rw [← place] at rows
      rw [if_pos parentId, rows]
    | some parent =>
      have given := (parentOf_eq_some consistent found).2.2
      have parentId : (man.headOf db front.length).parentId = db.parentId := by
        simp [StoredManifest.headOf, found]
      have list : man.blockList db = (man.entriesOf db).flatMap writeEntry := by
        rw [StoredManifest.blockList, found]
      have length := @length_entries man db widths
      rw [list, length] at ends
      rw [list] at place
      have few := (consistent.blocks db member).1
      have rows := @readRows_flatMap (Nat × Bytes) (readEntry man.nameBytes) writeEntry
        (4 + man.nameBytes) (man.entriesOf db) front tail
        (fun entry inside => length_writeEntry (entriesOf_valid widths entry inside).2)
        (fun entry inside front rest => by
          obtain ⟨below, width⟩ := entriesOf_valid widths entry inside
          exact readEntry_write (by omega) width front rest)
      rw [← place] at rows
      have inside : front.length + (man.entriesOf db).length * (4 + man.nameBytes) ≤ man.bytes.length := by
        rw [place, List.length_append, List.length_append, length]
        omega
      have array : db.blkOrig.length * man.nameBytes ≤ maxAllocation :=
        (array_le_of_room member room.2).trans (by decide)
      have entries : man.entriesOf db = deltaEntries 0 parent.blkOrig db.blkOrig := by
        rw [StoredManifest.entriesOf, found]
      have apart : ¬ (last = true ∧
          front.length + (man.entriesOf db).length * (4 + man.nameBytes) ≠ man.core.length) := by
        rintro ⟨final, differs⟩
        exact differs (ends final).symm
      rw [if_neg (by rw [parentId]; exact given),
        childRead_eq (ordered_earlier consistent split) array inside
          (by rw [offset, nEntry, rows]; exact fun entry listed => (entriesOf_valid widths entry listed).1),
        offset, nEntry, if_neg apart, rows, parentId, searchDb_earlier consistent split found, entries]
      exact congrArg Except.ok
        (applyEntries_delta (List.replicate man.nameBytes 0) [] parent.blkOrig db.blkOrig)

theorem dbsRead_heads {front tail : Bytes} (consistent : man.Consistent) (room : man.Room)
    (split : man.dbs = done ++ rest) (place : man.bytes = front ++ (rest.flatMap man.blockList ++ tail))
    (ends : man.core.length = front.length + (rest.flatMap man.blockList).length) :
    dbsRead man.bytes man.nameBytes man.core.length (done.map fun db => (man.image db).unsized)
      (man.heads front.length rest) = .ok (man.dbs.map fun db => (man.image db).unsized) := by
  induction rest generalizing done front with
  | nil =>
    rw [split, List.append_nil]
    rfl
  | cons db rest ih =>
    rw [List.flatMap_cons, List.length_append] at ends
    rw [List.flatMap_cons, List.append_assoc] at place
    have final : (man.heads (front.length + (man.blockList db).length) rest).isEmpty = true →
        man.core.length = front.length + (man.blockList db).length := by
      intro nothing
      cases rest with
      | nil => exact ends
      | cons next rest => cases nothing
    have blocks := blocksRead_headOf consistent room split place final
    have later := @ih (done ++ [db]) (front ++ man.blockList db) (by rw [split]; simp)
      (by rw [place, List.append_assoc]) (by rw [List.length_append]; omega)
    rw [List.map_append, List.map_singleton, List.length_append] at later
    rw [StoredManifest.heads, dbsRead, blocks]
    exact later

theorem setSize_at {szBlk : Nat} (others : ∀ other ∈ done, other.dbId ≠ db.dbId) (sized : 0 < db.fileSize)
    (small : db.fileSize < 2 ^ 63) (extent : db.fileSize ≤ db.blkOrig.length * szBlk) :
    setSize szBlk (db.dbId, db.fileSize) (done ++ db.unsized :: rest) = .ok (done ++ db :: rest) := by
  induction done with
  | nil =>
    have here : db.unsized.dbId = (db.dbId, db.fileSize).1 := rfl
    rw [List.nil_append, setSize, if_pos here, check_bind_eq_ok]
    exact ⟨⟨rfl, by omega, small, extent⟩, rfl⟩
  | cons other done ih =>
    have later := ih fun one member => others one (List.mem_cons_of_mem other member)
    rw [List.cons_append, setSize, if_neg (others other List.mem_cons_self), later]
    rfl

theorem setSizes_sizes {szBlk : Nat}
    (ordered : (done ++ rest).Pairwise fun first second => first.dbId < second.dbId)
    (valid : ∀ db ∈ rest, db.fileSize < 2 ^ 63 ∧ db.fileSize ≤ db.blkOrig.length * szBlk) :
    setSizes szBlk ((rest.filter fun db => 0 < db.fileSize).map fun db => (db.dbId, db.fileSize))
      (done ++ rest.map StoredDb.unsized) = .ok (done ++ rest) := by
  induction rest generalizing done with
  | nil => rfl
  | cons db rest ih =>
    have later := @ih (done ++ [db]) (by simpa using ordered)
      (fun other member => valid other (List.mem_cons_of_mem db member))
    rw [List.append_assoc, List.singleton_append, List.append_assoc, List.singleton_append] at later
    obtain ⟨small, extent⟩ := valid db List.mem_cons_self
    by_cases sized : 0 < db.fileSize
    · have others : ∀ other ∈ done, other.dbId ≠ db.dbId := by
        intro other member
        have less := (List.pairwise_append.mp ordered).2.2 other member db List.mem_cons_self
        omega
      rw [List.filter_cons_of_pos (by simpa using sized), List.map_cons, List.map_cons, setSizes,
        setSize_at others sized small extent]
      exact later
    · have same : db.unsized = db := by
        have zero : db.fileSize = 0 := by omega
        cases db
        simp_all [StoredDb.unsized]
      rw [List.filter_cons_of_neg (by simpa using sized), List.map_cons, same]
      exact later

def StoredManifest.read (man : StoredManifest) : StoredManifest :=
  { man with dbs := man.dbs.map man.image }

theorem sizes_read (man : StoredManifest) :
    ((man.dbs.map man.image).filter fun db => 0 < db.fileSize).map (fun db => (db.dbId, db.fileSize)) =
      man.sizes := by
  rw [StoredManifest.sizes, List.filter_map, List.map_map]
  rfl

theorem extent_lt (consistent : man.Consistent) (member : db ∈ man.dbs) : db.fileSize < 2 ^ 63 := by
  have few := (consistent.blocks db member).1
  have szBlk := consistent.szBlk
  calc db.fileSize ≤ db.blkOrig.length * man.szBlk := consistent.extent db member
    _ ≤ (2 ^ 31 - 1) * (256 ^ 4 - 1) := Nat.mul_le_mul (by omega) (by omega)
    _ < 2 ^ 63 := by decide

theorem sizeTrailer_bytes (consistent : man.Consistent) (room : man.Room) :
    sizeTrailer man.bytes man.szBlk
      (man.core.length, if man.sizes = [] then none else some man.sizes.length)
      (man.dbs.map fun db => (man.image db).unsized) = .ok (man.dbs.map man.image) := by
  have ordered : ([] ++ man.dbs.map man.image).Pairwise
      fun first second : StoredDb => first.dbId < second.dbId := by
    rw [List.nil_append, List.pairwise_map]
    exact consistent.ordered
  have applied := @setSizes_sizes [] (man.dbs.map man.image) man.szBlk ordered (by
    intro db member
    obtain ⟨source, listed, rfl⟩ := List.mem_map.mp member
    have small : source.fileSize < 2 ^ 63 := extent_lt consistent listed
    exact ⟨small, consistent.extent source listed⟩)
  rw [sizes_read, List.nil_append, List.map_map] at applied
  rw [sizeTrailer]
  by_cases sized : man.sizes = []
  · rw [sized] at applied
    rw [if_pos sized]
    exact congrArg refuse applied
  · have ranged := consistent.ranged room
    have rows := readSizes_bytes ranged sized fun db listed => extent_lt consistent listed
    have total : man.bytes.length = man.core.length + man.trailer.length := List.length_append
    have trailing := length_trailer man sized
    have enough : man.sizes.length ≤ (man.dbs.map fun db => (man.image db).unsized).length := by
      rw [List.length_map]
      exact sizes_length_le man
    rw [if_neg sized]
    simp only
    rw [refuse_check enough]
    change sizesRead man.bytes man.szBlk man.sizes.length (man.core.length + 12) _ = _
    rw [sizesRead_eq _ (by omega), rows]
    exact congrArg refuse applied

theorem manifestParse_bytes (consistent : man.Consistent) (room : man.Room) :
    manifestParse man.bytes = .ok man.read := by
  have ranged := consistent.ranged room
  have header := headerRead ranged
  have located := locateRead_bytes ranged
  have core := length_core ranged
  rw [← readHeads_bytes ranged] at located
  have start : man.listsOffset = (man.headerFields.flatten ++
      ((man.heads man.listsOffset man.dbs).flatMap DbHead.write ++
        man.delBlk.flatMap writeDelete)).length := by
    rw [StoredManifest.core] at core
    simp only [List.length_append] at core ⊢
    omega
  have dbs := @dbsRead_heads man [] man.dbs (man.headerFields.flatten ++
    ((man.heads man.listsOffset man.dbs).flatMap DbHead.write ++ man.delBlk.flatMap writeDelete))
    man.trailer consistent room (List.nil_append _).symm (by rw [bytes_eq]; simp only [List.append_assoc])
    (by rw [← start]; exact core)
  rw [← start, List.map_nil] at dbs
  have deletes := @readRows_flatMap (Bytes × Nat) (readDelete man.nameBytes) writeDelete
    (man.nameBytes + 8) man.delBlk (man.headerFields.flatten ++
      (man.heads man.listsOffset man.dbs).flatMap DbHead.write)
    (man.dbs.flatMap man.blockList ++ man.trailer)
    (fun entry inside => length_writeDelete (consistent.deletes entry inside).1)
    (fun entry inside => readDelete_write (consistent.deletes entry inside).1
      (consistent.deletes entry inside).2)
  have offset : (man.headerFields.flatten ++
      (man.heads man.listsOffset man.dbs).flatMap DbHead.write).length =
      manifestHeaderSize + man.dbs.length * dbHeaderSize := by
    rw [List.length_append, length_headerFields, length_flatMap_rows (headOf_named consistent.named),
      length_heads]
  rw [offset, List.append_assoc, ← bytes_eq] at deletes
  have length : manifestHeaderSize ≤ man.bytes.length := by
    rw [bytes_eq, List.length_append, length_headerFields]
    omega
  have memory : structBytes (getU32 man.bytes 8) ≤ maxAllocation := by
    have few := room.1
    rw [StoredManifest.listsOffset, dbHeaderSize] at few
    rw [header.nDb, structBytes, maxAllocation]
    omega
  rw [manifestParse_eq length header.version memory located]
  simp only [header.nDb, header.nName, header.szBlk, header.maxDbId, header.nDelete,
    readHeads_bytes ranged, bind, Except.bind, dbs, sizeTrailer_bytes consistent room, deletes]
  rfl

/-- What was composed is parsed to the same manifest, and the mapping ends where the trailer was
written, exactly when the buffer need not grow above 2 ^ 30 bytes. -/
theorem manifestParse_manifestCompose_iff (consistent : man.Consistent) :
    (manifestCompose man = .ok (man.core ++ man.trailer) ∧
      locateRead (man.core ++ man.trailer) = .ok (man.heads man.listsOffset man.dbs, man.core.length,
        if man.sizes = [] then none else some man.sizes.length) ∧
      manifestParse (man.core ++ man.trailer) = .ok man.read) ↔ man.Room := by
  constructor
  · rintro ⟨composed, _, _⟩
    by_contra tight
    rw [manifestCompose_overflow consistent.ordered tight] at composed
    cases composed
  · intro room
    exact ⟨manifestCompose_eq consistent room, locateRead_bytes (consistent.ranged room),
      manifestParse_bytes consistent room⟩

end

def sampleManifest : StoredManifest where
  szBlk := 4
  nameBytes := 2
  maxDbId := 5
  dbs := [⟨1, 0, 1, [0x61], 0, [[1, 1], [2, 2]], [[1, 1], [2, 2]]⟩,
    ⟨3, 1, 1, [0x62], 7, [[1, 1], [3, 3]], [[1, 1], [3, 3]]⟩,
    ⟨5, 2, 1, [0x63], 0, [[4, 4]], []⟩]
  delBlk := [([9, 9], 12)]

theorem sampleManifest_consistent : sampleManifest.Consistent := by
  refine ⟨by decide, by decide, by decide, by decide, by decide, by decide, by decide, by decide,
    by decide, ?_, by decide⟩
  intro db member parent found
  have listed : ∀ db ∈ sampleManifest.dbs, ∀ parent ∈ sampleManifest.parentOf db,
      parent.dbId < db.dbId := by decide +kernel
  exact listed db member parent (Option.mem_def.mpr found)

theorem manifestParse_manifestCompose_sample :
    ∃ bytes, manifestCompose sampleManifest = .ok bytes ∧
      manifestParse bytes = .ok sampleManifest.read ∧ sampleManifest.sizes = [(3, 7)] := by
  have room : sampleManifest.Room := by decide +kernel
  obtain ⟨composed, _, parsed⟩ := (manifestParse_manifestCompose_iff sampleManifest_consistent).mpr room
  exact ⟨_, composed, parsed, by decide⟩

/-- A database of 2 ^ 26 blocks under names of 16 bytes: its list alone takes 2 ^ 30 bytes. -/
def largeDb : StoredDb where
  dbId := 1
  parentId := 0
  version := 1
  name := [0x61]
  fileSize := 0
  blkOrig := List.replicate (2 ^ 26) (List.replicate 16 7)
  blkLocal := List.replicate (2 ^ 26) (List.replicate 16 7)

def largeManifest : StoredManifest where
  szBlk := 65536
  nameBytes := 16
  maxDbId := 1
  dbs := [largeDb]
  delBlk := []

theorem length_largeDb : largeDb.blkOrig.length = 2 ^ 26 := List.length_replicate

theorem largeManifest_consistent : largeManifest.Consistent where
  szBlk := by decide
  maxDbId := by decide
  width := by decide
  ordered := List.pairwise_singleton _ _
  dbId := List.forall_mem_singleton.mpr (by decide)
  version := List.forall_mem_singleton.mpr (by decide)
  named := List.forall_mem_singleton.mpr (by decide)
  blocks := by
    refine List.forall_mem_singleton.mpr ⟨by rw [length_largeDb]; decide, fun block member => ?_⟩
    rw [List.eq_of_mem_replicate member]
    rfl
  extent := List.forall_mem_singleton.mpr (Nat.zero_le _)
  parents := by
    refine List.forall_mem_singleton.mpr fun parent found => absurd rfl (parentId_of_parentOf found)
  deletes := fun entry member => absurd member List.not_mem_nil

/-- Its buffer would have to be doubled past 2 ^ 30. -/
theorem manifestCompose_largeManifest :
    largeManifest.Consistent ∧ manifestCompose largeManifest = .error .overflow := by
  refine ⟨largeManifest_consistent, manifestCompose_overflow (List.pairwise_singleton _ _) ?_⟩
  rintro ⟨_, room⟩
  have root : largeManifest.parentOf largeDb = none := if_pos rfl
  have asked := room (largeManifest.nMax largeManifest.listsOffset largeDb) List.mem_cons_self
  rw [StoredManifest.nMax, root, length_largeDb] at asked
  exact absurd asked (by decide)

end RusqDoltlite.Codec
