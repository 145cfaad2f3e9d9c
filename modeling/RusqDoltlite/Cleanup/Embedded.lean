import Mathlib.Data.List.Chain
import RusqDoltlite.Codec.Record
import RusqDoltlite.Codec.ManifestAgree
import RusqDoltlite.Codec.ManifestRoundTrip

/-! The manifests in checkpoints: `bcvfsSessionComposeBody` embeds them, and the collector validates
and parses them. -/

namespace RusqDoltlite.Cleanup

open Wire Session Codec

def manifestOf (body : Bytes) : Bytes :=
  slice body (24 + getU32 body 20) (getU32 body 16)

/-- What the body of a checkpoint is made of. An empty ETag stands for none. -/
structure CheckpointSource where
  man : StoredManifest
  etag : Bytes
  sequence : Nat
  expectedHash : Hash
  database : Option Bytes

/-- A database with its current mapping, and without its parent. -/
def CheckpointSource.flatDb (source : CheckpointSource) (iFileSize : Nat) (db : StoredDb) : StoredDb :=
  { db with
    parentId := 0
    fileSize := if source.database = some db.name then iFileSize else db.fileSize
    blkOrig := db.blkLocal }

def CheckpointSource.flat (source : CheckpointSource) (iFileSize : Nat) : StoredManifest :=
  { source.man with dbs := source.man.dbs.map (source.flatDb iFileSize) }

abbrev StagedFind := Nat → Nat → Bytes → Except Err Unit

/-- The blocks of one database: those that differ from the published mapping are staged. -/
def verifyBlocks (staged : StagedFind) (base : Option StoredDb) (dbId : Nat) :
    Nat → List Bytes → Except Err Unit
  | _, [] => .ok ()
  | i, block :: blocks =>
    if (base.bind fun db => db.blkOrig[i]?) = some block then
      verifyBlocks staged base dbId (i + 1) blocks
    else
      match staged dbId i block with
      | .ok () => verifyBlocks staged base dbId (i + 1) blocks
      | .error error => .error
          ⟨if error.code = .other 12 then .ioerr else error.code,
            "checkpoint mapping has no verified staged object"⟩

def verifyMappings (staged : StagedFind) (man : StoredManifest) : List StoredDb → Except Err Unit
  | [] => .ok ()
  | db :: dbs => do
      verifyBlocks staged (man.dbs.find? fun base => base.dbId == db.dbId) db.dbId 0 db.blkLocal
      verifyMappings staged man dbs

def CheckpointSource.compacted (source : CheckpointSource) : Bool :=
  compactionThreshold - 1 ≤ source.sequence

def CheckpointSource.body (source : CheckpointSource) (iFileSize : Nat) (data : Bytes) : Bytes :=
  (if source.compacted then compactedCheckpointBodyMagic else checkpointBodyMagic) ++
    (putBe 8 iFileSize ++ (putBe 4 data.length ++ (putBe 4 source.etag.length ++ (source.etag ++
      (data ++ if source.compacted then source.expectedHash.1 else [])))))

def copyLocal (nameBytes : Nat) : List StoredDb → Except Err Unit
  | [] => .ok ()
  | db :: dbs => do
      check (db.blkLocal.length * nameBytes ≤ 0x7fffffff) .tooBig ""
      check (db.blkLocal.length * nameBytes ≤ maxAllocation) .nomem ""
      copyLocal nameBytes dbs

def composeBody (staged : StagedFind) (source : CheckpointSource) (iFileSize : Nat) : Checked Bytes := do
  refuse (copyLocal source.man.nameBytes source.man.dbs)
  refuse (verifyMappings staged source.man (source.flat iFileSize).dbs)
  match manifestCompose (source.flat iFileSize) with
  | .error (.refused _) => .error (.refused ⟨.nomem, ""⟩)
  | .error fault => .error fault
  | .ok data => do
      refuse (check (source.etag ≠ []) .ioerr "checkpoint requires a base manifest ETag")
      refuse (check (source.etag.length ≤ maxEtagBytes) .tooBig "base manifest ETag is too long")
      refuse (check ((source.body iFileSize data).length ≤ bodyMaxBytes) .tooBig
        "session checkpoint exceeds record limit")
      .ok (source.body iFileSize data)

variable {source : CheckpointSource} {iFileSize : Nat}

theorem composeBody_eq_ok {staged : StagedFind}
    {body : Bytes} (composed : composeBody staged source iFileSize = .ok body) :
    ∃ data, manifestCompose (source.flat iFileSize) = .ok data ∧ body = source.body iFileSize data ∧
      source.etag.length ≤ maxEtagBytes ∧ body.length ≤ bodyMaxBytes := by
  rw [composeBody, unit_bind_eq_ok, unit_bind_eq_ok] at composed
  obtain ⟨_, _, composed⟩ := composed
  split at composed
  · cases composed
  · cases composed
  · next data written =>
      simp only [unit_bind_eq_ok, refuse_check_eq_ok, Except.ok.injEq] at composed
      obtain ⟨_, etag, small, rfl⟩ := composed
      exact ⟨data, written, rfl, etag, small⟩

theorem length_checkpointMagic (source : CheckpointSource) :
    (if source.compacted then compactedCheckpointBodyMagic else checkpointBodyMagic).length = 8 := by
  split <;> rfl

theorem manifestOf_body {data : Bytes} (etag : source.etag.length ≤ maxEtagBytes)
    (small : (source.body iFileSize data).length ≤ bodyMaxBytes) :
    manifestOf (source.body iFileSize data) = data := by
  have magic := length_checkpointMagic source
  have size : (source.body iFileSize data).length = 24 + source.etag.length + data.length +
      (if source.compacted then source.expectedHash.1 else []).length := by
    simp only [CheckpointSource.body, List.length_append, length_putBe, magic]
    omega
  have limit : bodyMaxBytes = 16777016 := rfl
  have most : maxEtagBytes = 4096 := rfl
  obtain ⟨front, isFront⟩ : ∃ front,
      (if source.compacted then compactedCheckpointBodyMagic else checkpointBodyMagic) = front := ⟨_, rfl⟩
  obtain ⟨tail, isTail⟩ : ∃ tail,
      (if source.compacted then source.expectedHash.1 else []) = tail := ⟨_, rfl⟩
  rw [isFront] at magic
  have nManifest : getU32 (source.body iFileSize data) 16 = data.length := by
    have part := slice_part (front ++ putBe 8 iFileSize) (putBe 4 data.length)
      (putBe 4 source.etag.length ++ (source.etag ++ (data ++ tail)))
    rw [List.length_append, magic, length_putBe, length_putBe, List.append_assoc] at part
    rw [getU32, CheckpointSource.body, isFront, isTail, part, getBe_putBe_of_lt (by omega)]
  have nEtag : getU32 (source.body iFileSize data) 20 = source.etag.length := by
    have part := slice_part (front ++ (putBe 8 iFileSize ++ putBe 4 data.length))
      (putBe 4 source.etag.length) (source.etag ++ (data ++ tail))
    rw [List.length_append, List.length_append, magic, length_putBe, length_putBe, length_putBe,
      List.append_assoc, List.append_assoc] at part
    rw [getU32, CheckpointSource.body, isFront, isTail, part, getBe_putBe_of_lt (by omega)]
  have part := slice_part (front ++ (putBe 8 iFileSize ++ (putBe 4 data.length ++
    (putBe 4 source.etag.length ++ source.etag)))) data tail
  simp only [List.length_append, magic, length_putBe, List.append_assoc] at part
  rw [manifestOf, nManifest, nEtag, CheckpointSource.body, isFront, isTail]
  have offset : 24 + source.etag.length = 8 + (8 + (4 + (4 + source.etag.length))) := by omega
  rw [offset]
  exact part

/-- What a manifest in memory is taken to be: numbers and sizes in the range of their types, names
that fit, and block ids of one width. -/
structure Loaded (man : StoredManifest) : Prop where
  szBlk : man.szBlk < 256 ^ 4
  maxDbId : man.maxDbId < 256 ^ 4
  width : 0 < man.nameBytes ∧ man.nameBytes ≤ 32
  dbId : ∀ db ∈ man.dbs, db.dbId < 256 ^ 4
  version : ∀ db ∈ man.dbs, db.version < 256 ^ 4
  named : ∀ db ∈ man.dbs, db.name.length < dbNameSize ∧ 0 ∉ db.name
  blocks : ∀ db ∈ man.dbs, db.blkLocal.length < 2 ^ 31 ∧
    ∀ block ∈ db.blkLocal, block.length = man.nameBytes
  fileSize : ∀ db ∈ man.dbs, db.fileSize < 2 ^ 63
  deletes : ∀ entry ∈ man.delBlk, entry.1.length = man.nameBytes ∧ entry.2 < 256 ^ 8

/-- The manifests whose flat form the collector takes. -/
structure Collectable (source : CheckpointSource) (iFileSize : Nat) : Prop where
  szBlk : source.man.szBlk ≠ 0
  width : minNameBytes ≤ source.man.nameBytes
  few : source.man.dbs.length ≤ gcMaxDatabases
  given : ∀ db ∈ source.man.dbs, db.dbId ≠ 0
  ascending : (source.man.dbs.map StoredDb.dbId).IsChain (· < ·)
  highest : ∀ db ∈ source.man.dbs, db.dbId ≤ source.man.maxDbId
  sizes : ∀ db ∈ source.man.dbs,
    (if source.database = some db.name then iFileSize else db.fileSize) ≤
      db.blkLocal.length * source.man.szBlk

theorem mem_flat {db : StoredDb} (member : db ∈ (source.flat iFileSize).dbs) :
    ∃ base ∈ source.man.dbs, db = source.flatDb iFileSize base := by
  obtain ⟨base, listed, same⟩ := List.mem_map.mp member
  exact ⟨base, listed, same.symm⟩

theorem parentOf_flat {db : StoredDb} (member : db ∈ (source.flat iFileSize).dbs) :
    (source.flat iFileSize).parentOf db = none := by
  obtain ⟨base, _, rfl⟩ := mem_flat member
  rfl

theorem Loaded.flat (loaded : Loaded source.man)
    (small : (source.flat iFileSize).bytes.length ≤ 0x7fffffff) : (source.flat iFileSize).Ranged where
  szBlk := loaded.szBlk
  maxDbId := loaded.maxDbId
  width := loaded.width
  dbId := List.forall_mem_map.mpr loaded.dbId
  version := List.forall_mem_map.mpr loaded.version
  named := List.forall_mem_map.mpr loaded.named
  blocks := List.forall_mem_map.mpr loaded.blocks
  parents := by
    intro db member parent found
    rw [parentOf_flat member] at found
    cases found
  deletes := loaded.deletes
  length := small

theorem Loaded.flat_fileSize (loaded : Loaded source.man) (fits : iFileSize < 2 ^ 63) :
    ∀ db ∈ (source.flat iFileSize).dbs, db.fileSize < 2 ^ 63 := by
  intro db member
  obtain ⟨base, listed, rfl⟩ := mem_flat member
  simp only [CheckpointSource.flatDb]
  split
  · exact fits
  · exact loaded.fileSize base listed

section
variable {man : StoredManifest} {a : Bytes}

theorem validDb_root {db : StoredDb} {earlier : List Nat} {offset stop : Nat} (ranged : man.Ranged)
    (member : db ∈ man.dbs) (root : man.parentOf db = none)
    (inside : offset + (man.blockList db).length ≤ a.length) :
    validDb a man.nameBytes earlier offset (man.headOf db offset) = .ok stop ↔
      (db.dbId ≠ 0 ∧ ∀ last ∈ earlier.getLast?, last < db.dbId) ∧
        stop = offset + (man.blockList db).length := by
  have parent : (man.headOf db offset).parentId = 0 := by
    simp only [StoredManifest.headOf, root, Option.isSome_none, Bool.false_eq_true, if_false]
  have entries : (man.headOf db offset).nEntry = 0 := by
    simp only [StoredManifest.headOf, StoredManifest.entriesOf, root, List.length_nil]
  have bytes := listBytes_headOf ranged member offset
  have start : (man.headOf db offset).offset = offset := rfl
  have named : (man.headOf db offset).dbId = db.dbId := rfl
  simp only [validDb, validEntries, unit_bind_eq_ok, check_eq_ok, parent, if_true, entries, bytes,
    start, named, Except.ok.injEq, ne_eq, not_true_eq_false, false_implies, true_and, inside]
  exact and_congr_right fun _ => eq_comm

theorem validDbs_roots {dbs : List StoredDb} {earlier : List Nat} {offset stop : Nat}
    (ranged : man.Ranged) (listed : ∀ db ∈ dbs, db ∈ man.dbs)
    (roots : ∀ db ∈ dbs, man.parentOf db = none)
    (inside : offset + (dbs.flatMap man.blockList).length ≤ a.length)
    (ascending : earlier.IsChain (· < ·)) :
    validDbs a man.nameBytes earlier offset (man.heads offset dbs) = .ok stop ↔
      ((∀ db ∈ dbs, db.dbId ≠ 0) ∧ (earlier ++ dbs.map StoredDb.dbId).IsChain (· < ·)) ∧
        stop = offset + (dbs.flatMap man.blockList).length := by
  induction dbs generalizing earlier offset with
  | nil =>
    simp only [StoredManifest.heads, validDbs, Except.ok.injEq, List.map_nil, List.append_nil,
      ascending, List.flatMap_nil, List.length_nil, Nat.add_zero]
    constructor
    · intro same
      exact ⟨⟨fun db member => absurd member List.not_mem_nil, trivial⟩, same.symm⟩
    · intro all
      exact all.2.symm
  | cons db dbs ih =>
    rw [List.flatMap_cons, List.length_append] at inside ⊢
    have first := fun stop => @validDb_root man a db earlier offset stop ranged
      (listed db List.mem_cons_self) (roots db List.mem_cons_self) (by omega)
    rw [StoredManifest.heads, validDbs, bind_eq_ok]
    constructor
    · intro found
      obtain ⟨middle, here, later⟩ := found
      obtain ⟨⟨given, above⟩, rfl⟩ := (first middle).mp here
      have chain : (earlier ++ [db.dbId]).IsChain (· < ·) :=
        List.isChain_append.mpr ⟨ascending, List.isChain_singleton _, by simpa using above⟩
      obtain ⟨⟨rest, all⟩, rfl⟩ := (ih (fun other member => listed other (List.mem_cons_of_mem db member))
        (fun other member => roots other (List.mem_cons_of_mem db member)) (by omega) chain).mp later
      refine ⟨⟨List.forall_mem_cons.mpr ⟨given, rest⟩, ?_⟩, by omega⟩
      rw [List.append_assoc] at all
      exact all
    · intro all
      obtain ⟨⟨given, all⟩, rfl⟩ := all
      obtain ⟨here, rest⟩ := List.forall_mem_cons.mp given
      rw [List.map_cons] at all
      have parts := List.isChain_append.mp all
      have above : ∀ last ∈ earlier.getLast?, last < db.dbId := by
        intro last member
        exact parts.2.2 last member db.dbId rfl
      have chain : (earlier ++ [db.dbId]).IsChain (· < ·) :=
        List.isChain_append.mpr ⟨ascending, List.isChain_singleton _, by simpa using above⟩
      refine ⟨_, (first _).mpr ⟨⟨here, above⟩, rfl⟩, ?_⟩
      refine (ih (fun other member => listed other (List.mem_cons_of_mem db member))
        (fun other member => roots other (List.mem_cons_of_mem db member)) (by omega) chain).mpr ?_
      exact ⟨⟨rest, by rw [List.append_assoc]; exact all⟩, by omega⟩

theorem validSizes_iff {szBlk : Nat} {heads : List DbHead} {earlier : List Nat}
    {entries : List (Nat × Nat)} :
    validSizes szBlk heads earlier entries = .ok () ↔
      ((entries.map Prod.fst).Nodup ∧ ∀ entry ∈ entries, entry.1 ∉ earlier) ∧
        ∀ entry ∈ entries, ∃ head ∈ heads.find? (fun head : DbHead => head.dbId == entry.1),
          entry.2 ≠ 0 ∧ entry.2 < 2 ^ 63 ∧ entry.2 ≤ head.count * szBlk := by
  induction entries generalizing earlier with
  | nil => simp [validSizes]
  | cons entry entries ih =>
    simp only [validSizes, unit_bind_eq_ok, check_eq_ok, ih, List.forall_mem_cons, List.map_cons,
      List.nodup_cons, List.mem_append, List.mem_singleton, not_or]
    constructor
    · intro all
      obtain ⟨fresh, found, ⟨distinct, apart⟩, rest⟩ := all
      refine ⟨⟨⟨?_, distinct⟩, fresh, fun other member => (apart other member).1⟩, found, rest⟩
      intro again
      obtain ⟨other, member, same⟩ := List.mem_map.mp again
      exact (apart other member).2 same
    · intro all
      obtain ⟨⟨⟨new, distinct⟩, fresh, apart⟩, found, rest⟩ := all
      refine ⟨fresh, found, ⟨distinct, fun other member => ⟨apart other member, ?_⟩⟩, rest⟩
      intro same
      exact new (List.mem_map.mpr ⟨other, member, same⟩)

theorem find_heads {dbs : List StoredDb} {offset : Nat} {db : StoredDb}
    (distinct : (dbs.map StoredDb.dbId).Nodup) (member : db ∈ dbs) :
    ∃ start, (man.heads offset dbs).find? (fun head : DbHead => head.dbId == db.dbId) =
      some (man.headOf db start) := by
  induction dbs generalizing offset with
  | nil => cases member
  | cons other dbs ih =>
    rw [List.map_cons, List.nodup_cons] at distinct
    rw [StoredManifest.heads]
    rcases List.mem_cons.mp member with rfl | member
    · exact ⟨offset, List.find?_cons_of_pos (beq_iff_eq.mpr rfl)⟩
    · have apart : other.dbId ≠ db.dbId := by
        intro same
        exact distinct.1 (same ▸ List.mem_map_of_mem member)
      rw [List.find?_cons_of_neg (by simpa [StoredManifest.headOf] using apart)]
      exact ih distinct.2 member

theorem validSizes_heads {offset : Nat} (distinct : (man.dbs.map StoredDb.dbId).Nodup)
    (small : ∀ db ∈ man.dbs, db.fileSize < 2 ^ 63) :
    validSizes man.szBlk (man.heads offset man.dbs) [] man.sizes = .ok () ↔
      ∀ db ∈ man.dbs, db.fileSize ≤ db.blkOrig.length * man.szBlk := by
  have apart : (man.sizes.map Prod.fst).Nodup := by
    rw [StoredManifest.sizes, List.map_map]
    exact distinct.sublist (List.filter_sublist.map _)
  have fresh : ∀ entry ∈ man.sizes, entry.1 ∉ ([] : List Nat) :=
    fun entry _ => List.not_mem_nil
  rw [validSizes_iff, and_iff_right ⟨apart, fresh⟩]
  constructor
  · intro fit db member
    by_cases sized : 0 < db.fileSize
    · have entry : (db.dbId, db.fileSize) ∈ man.sizes :=
        List.mem_map.mpr ⟨db, List.mem_filter.mpr ⟨member, decide_eq_true sized⟩, rfl⟩
      obtain ⟨head, located, _, _, bound⟩ := fit _ entry
      obtain ⟨start, found⟩ := @find_heads man _ offset db distinct member
      rw [found] at located
      cases located
      exact bound
    · omega
  · intro fit entry member
    obtain ⟨db, inside, rfl⟩ := List.mem_map.mp member
    obtain ⟨listed, sized⟩ := List.mem_filter.mp inside
    obtain ⟨start, found⟩ := @find_heads man _ offset db distinct listed
    have positive := of_decide_eq_true sized
    exact ⟨man.headOf db start, found, by omega, small db listed, fit db listed⟩

structure RootsValid (man : StoredManifest) : Prop where
  szBlk : man.szBlk ≠ 0
  width : minNameBytes ≤ man.nameBytes
  few : man.dbs.length ≤ gcMaxDatabases
  given : ∀ db ∈ man.dbs, db.dbId ≠ 0
  ascending : (man.dbs.map StoredDb.dbId).IsChain (· < ·)
  highest : ∀ db ∈ man.dbs, db.dbId ≤ man.maxDbId
  sizes : ∀ db ∈ man.dbs, db.fileSize ≤ db.blkOrig.length * man.szBlk

theorem length_bytes (ranged : man.Ranged) :
    man.bytes.length = man.listsOffset + (man.dbs.flatMap man.blockList).length + man.trailer.length := by
  rw [StoredManifest.bytes, List.length_append, length_core ranged]

theorem getLast_heads {dbs : List StoredDb} {offset : Nat} :
    (man.heads offset dbs).getLast?.map DbHead.dbId = (dbs.map StoredDb.dbId).getLast? := by
  have ids : ∀ offset, (man.heads offset dbs).map DbHead.dbId = dbs.map StoredDb.dbId := by
    induction dbs with
    | nil => intro offset; rfl
    | cons db dbs ih =>
      intro offset
      rw [StoredManifest.heads, List.map_cons, List.map_cons, ih]
      rfl
  rw [← List.getLast?_map, ids]

theorem chain_le_iff {ids : List Nat} {most : Nat} (ascending : ids.IsChain (· < ·)) :
    (∀ last ∈ ids.getLast?, last ≤ most) ↔ ∀ id ∈ ids, id ≤ most := by
  constructor
  · intro bound id member
    rcases List.eq_nil_or_concat ids with rfl | ⟨front, last, rfl⟩
    · cases member
    · rw [List.concat_eq_append] at member ascending bound
      have top := bound last List.getLast?_concat
      rcases List.mem_append.mp member with before | same
      · have below := (List.pairwise_append.mp ascending.pairwise).2.2 id before last
          (List.mem_singleton_self last)
        omega
      · rw [List.mem_singleton.mp same]
        exact top
  · intro bound last member
    exact bound last (List.mem_of_getLast? member)

theorem validTrailer_bytes (ranged : man.Ranged) (distinct : (man.dbs.map StoredDb.dbId).Nodup)
    (small : ∀ db ∈ man.dbs, db.fileSize < 2 ^ 63) :
    validTrailer man.bytes man.core.length = .ok () ↔
      ∀ db ∈ man.dbs, db.fileSize ≤ db.blkOrig.length * man.szBlk := by
  have header := headerRead ranged
  have length : man.bytes.length = man.core.length + man.trailer.length := List.length_append
  by_cases sized : man.sizes = []
  · have bare : man.bytes.length - man.core.length = 0 := by
      rw [length, StoredManifest.trailer, if_pos sized, List.length_nil]
      omega
    rw [validTrailer, if_neg (by omega), ← @validSizes_heads man man.listsOffset distinct small, sized]
    rfl
  · have trailing := length_trailer man sized
    obtain ⟨magic, count⟩ := trailer_read ranged sized
    have few := sizes_length_le man
    rw [validTrailer, if_pos ⟨by omega, magic⟩]
    simp only [count, unit_bind_eq_ok, check_eq_ok, header.nDb, header.szBlk, readHeads_bytes ranged,
      readSizes_bytes ranged sized small]
    rw [and_iff_right ⟨few, by omega⟩, validSizes_heads distinct small]

theorem manifestValid_roots (ranged : man.Ranged) (roots : ∀ db ∈ man.dbs, man.parentOf db = none)
    (small : ∀ db ∈ man.dbs, db.fileSize < 2 ^ 63) :
    manifestValid man.bytes = .ok () ↔ RootsValid man := by
  have header := headerRead ranged
  have length := length_bytes ranged
  have core := length_core ranged
  have narrow := ranged.width.2
  have heads : man.dbs.length ≤ (man.bytes.length - manifestHeaderSize) / dbHeaderSize := by
    rw [Nat.le_div_iff_mul_le (by decide)]
    rw [StoredManifest.listsOffset] at length
    omega
  have deletes : man.delBlk.length ≤ (man.bytes.length -
      (manifestHeaderSize + man.dbs.length * dbHeaderSize)) / (man.nameBytes + 8) := by
    rw [Nat.le_div_iff_mul_le (by omega)]
    rw [StoredManifest.listsOffset] at length
    omega
  have long : manifestHeaderSize ≤ man.bytes.length := by
    rw [StoredManifest.listsOffset] at length
    omega
  have lists := fun stop => @validDbs_roots man man.bytes man.dbs [] man.listsOffset stop ranged
    (fun db member => member) roots (by omega) .nil
  rw [List.nil_append, ← core] at lists
  simp only [manifestValid, unit_bind_eq_ok, check_eq_ok, header.version, header.szBlk, header.nDb,
    header.nDelete, header.nName, header.maxDbId, readHeads_bytes ranged, long, heads, deletes, true_and]
  rw [bind_eq_ok]
  simp only [unit_bind_eq_ok, check_eq_ok]
  have highest : (man.dbs.map StoredDb.dbId).IsChain (· < ·) →
      ((∀ last ∈ (man.heads man.listsOffset man.dbs).getLast?, last.dbId ≤ man.maxDbId) ↔
        ∀ db ∈ man.dbs, db.dbId ≤ man.maxDbId) := by
    intro ascending
    have top := @chain_le_iff _ man.maxDbId ascending
    rw [← @getLast_heads man man.dbs man.listsOffset, List.forall_mem_map] at top
    simpa using top
  constructor
  · intro accepted
    obtain ⟨szBlk, width, few, stop, listed, top, _, trailer⟩ := accepted
    obtain ⟨⟨given, ascending⟩, rfl⟩ := (lists stop).mp listed
    have distinct := ascending.pairwise.imp fun below => Nat.ne_of_lt below
    exact ⟨szBlk, width.1, few, given, ascending, (highest ascending).mp top,
      (validTrailer_bytes ranged distinct small).mp trailer⟩
  · intro valid
    have distinct := valid.ascending.pairwise.imp fun below => Nat.ne_of_lt below
    exact ⟨valid.szBlk, ⟨valid.width, narrow⟩, valid.few, _,
      (lists _).mpr ⟨⟨valid.given, valid.ascending⟩, rfl⟩, (highest valid.ascending).mpr valid.highest,
      by omega, (validTrailer_bytes ranged distinct small).mpr valid.sizes⟩

theorem rootsValid_flat : RootsValid (source.flat iFileSize) ↔ Collectable source iFileSize := by
  have ids : (source.flat iFileSize).dbs.map StoredDb.dbId = source.man.dbs.map StoredDb.dbId := by
    rw [CheckpointSource.flat, List.map_map]
    rfl
  have count : (source.flat iFileSize).dbs.length = source.man.dbs.length := List.length_map _
  have each : ∀ p : StoredDb → Prop, (∀ db ∈ (source.flat iFileSize).dbs, p db) ↔
      ∀ db ∈ source.man.dbs, p (source.flatDb iFileSize db) := fun p => List.forall_mem_map
  constructor
  · intro valid
    exact ⟨valid.szBlk, valid.width, count ▸ valid.few, (each _).mp valid.given,
      ids ▸ valid.ascending, (each _).mp valid.highest, (each _).mp valid.sizes⟩
  · intro collectable
    exact ⟨collectable.szBlk, collectable.width, count ▸ collectable.few,
      (each _).mpr collectable.given, ids ▸ collectable.ascending,
      (each _).mpr collectable.highest, (each _).mpr collectable.sizes⟩

/-- The collector accepts the manifest of a composed body exactly when it is collectable. -/
theorem manifestValid_composeBody {staged : StagedFind}
    {body : Bytes} (loaded : Loaded source.man) (fits : iFileSize < 2 ^ 63)
    (composed : composeBody staged source iFileSize = .ok body) :
    manifestValid (manifestOf body) = .ok () ↔ Collectable source iFileSize := by
  obtain ⟨data, written, rfl, etag, small⟩ := composeBody_eq_ok composed
  have embedded := manifestOf_body etag small
  have same : data = (source.flat iFileSize).bytes := manifestCompose_eq_ok written
  have length : data.length ≤ (source.body iFileSize data).length := by
    simp only [CheckpointSource.body, List.length_append]
    omega
  have limit : bodyMaxBytes = 16777016 := rfl
  rw [embedded, same, ← rootsValid_flat]
  exact manifestValid_roots (loaded.flat (by rw [← same]; omega))
    (fun db member => parentOf_flat member) (loaded.flat_fileSize fits)

/-- A byte string that the validator accepts is parsed inside its bounds exactly when the arrays of its
deltas can be allocated and nothing opaque follows a last delta. The manifest of a
composed checkpoint body is accepted exactly when it is collectable. -/
theorem validated_parse_and_embedded_valid_iff (a : Bytes) (staged : StagedFind) (source : CheckpointSource)
    (iFileSize : Nat) (body : Bytes) :
    (a.length ≤ 0x7fffffff → manifestValid a = .ok () → ((∃ man, manifestParse a = .ok man) ↔ Parseable a)) ∧
    (Loaded source.man → iFileSize < 2 ^ 63 → composeBody staged source iFileSize = .ok body →
      (manifestValid (manifestOf body) = .ok () ↔ Collectable source iFileSize)) :=
  ⟨fun small valid => manifestParse_iff_parseable small valid,
    fun loaded fits composed => manifestValid_composeBody loaded fits composed⟩

/-- A manifest of an empty database and a delta over it that changes nothing. -/
def childManifest (count : Nat) (rest : Bytes) : Bytes :=
  [manifestVersion, 1, 2, 0, 12, 2].flatMap (putBe 4) ++
    ((DbHead.mk 1 0 1 328 0 false 0 [0x61]).write ++
      ((DbHead.mk 2 1 1 328 count false 0 [0x62]).write ++ rest))

/-- Two databases of one block each; the session has the first one, and the second one has an exact size
and may have been deleted. -/
def sampleSource (fileSize : Nat) (deleted : Bool) : CheckpointSource where
  man :=
    { szBlk := 4
      nameBytes := 12
      maxDbId := 2
      dbs := [⟨1, 0, 1, [0x61], 0, [List.replicate 12 7], [List.replicate 12 7]⟩,
        ⟨2, 0, 1, [0x62], fileSize, [List.replicate 12 8], if deleted then [] else [List.replicate 12 8]⟩]
      delBlk := [] }
  etag := [0x31]
  sequence := 0
  expectedHash := ⟨List.replicate 32 0, rfl⟩
  database := some [0x61]

/-- Two accepted manifests that cannot be parsed, and a composed one that is not accepted: its second
database was deleted, and its size was not. -/
theorem validated_parse_and_embedded_valid_fail :
    (manifestValid (childManifest 1 [0]) = .ok () ∧
      manifestParse (childManifest 1 [0]) = .error .aborted) ∧
    (manifestValid (childManifest 178956971 []) = .ok () ∧
      manifestParse (childManifest 178956971 []) = .error .overflow) ∧
    ∃ body, composeBody (fun _ _ _ => .error ⟨.other 12, ""⟩) (sampleSource 3 true) 4 = .ok body ∧
      manifestValid (manifestOf body) = .error ⟨.corrupt, "invalid file-size extension entry"⟩ := by
  refine ⟨⟨by decide +kernel, by decide +kernel⟩, ⟨by decide +kernel, by decide +kernel⟩, ?_⟩
  refine ⟨(sampleSource 3 true).body 4 ((sampleSource 3 true).flat 4).bytes, ?_, ?_⟩
  · decide +kernel
  · decide +kernel

theorem sampleSource_loaded : Loaded (sampleSource 3 false).man :=
  ⟨by decide, by decide, by decide, by decide, by decide, by decide, by decide, by decide, by decide⟩

theorem sampleSource_collectable : Collectable (sampleSource 3 false) 4 :=
  ⟨by decide, by decide, by decide, by decide, by decide, by decide, by decide⟩

theorem validated_parse_and_embedded_valid_sample :
    (∃ man, manifestParse (childManifest 1 []) = .ok man) ∧
      ∃ body, composeBody (fun _ _ _ => .error ⟨.other 12, ""⟩) (sampleSource 3 false) 4 = .ok body ∧
        manifestValid (manifestOf body) = .ok () := by
  have composed : composeBody (fun _ _ _ => .error ⟨.other 12, ""⟩) (sampleSource 3 false) 4 =
      .ok ((sampleSource 3 false).body 4 ((sampleSource 3 false).flat 4).bytes) := by decide +kernel
  have both := validated_parse_and_embedded_valid_iff (childManifest 1 []) (fun _ _ _ => .error ⟨.other 12, ""⟩)
    (sampleSource 3 false) 4 ((sampleSource 3 false).body 4 ((sampleSource 3 false).flat 4).bytes)
  refine ⟨(both.1 (by decide +kernel) (by decide +kernel)).mpr ⟨by decide +kernel, by decide +kernel⟩,
    _, composed, ?_⟩
  exact (both.2 sampleSource_loaded (by decide) composed).mpr sampleSource_collectable

end

end RusqDoltlite.Cleanup
