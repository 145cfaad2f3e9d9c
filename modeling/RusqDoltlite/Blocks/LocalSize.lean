import RusqDoltlite.Blocks.ReadAll
import RusqDoltlite.Effects.ByteFile

/-! Handles on database files, which stand for a database by its id, found under the name of the file
when it is opened; and the logical size of a database in an ordinary container. Its manifest keeps
the exact size as long as it is positive: zero is the mark of a manifest without an exact size, so a
file that has once been cut to nothing is measured in whole blocks from then on. -/

namespace RusqDoltlite.Blocks

open Effects Session

def cantOpen : Code := .other 14

variable {Hash : Type} [DecidableEq Hash] [Digest Hash]

/-- `bcvManifestInstall`. The manifest is serialized for the `container` row first. -/
def manifestInstall (container : String) (man : Manifest) : VfsM Hash Unit := do
  let world : World Hash ← get
  Act.require (world.vfs.szBlk = 0 → 0 < man.szBlk →
    man.szBlk ≤ world.vfs.maxCache ∧ man.szBlk ∣ world.vfs.maxCache) ⟨.misuse, ""⟩
  Act.require (world.vfs.szBlk = 0 → 0 < man.szBlk →
    world.vfs.slots ≤ world.vfs.maxCache / man.szBlk) ⟨.full, ""⟩
  record (.composed man)
  effect
  onVfs fun vfs => { vfs with
    szBlk := man.szBlk
    containers := fun name =>
      if name = container then { vfs.containers name with man := some man }
      else vfs.containers name }

def localDatabase (dbId : Nat) (name : String) : ManifestDb :=
  { dbId := dbId, parentId := 0, name := name, version := 1, fileSize := 0, blkOrig := [],
    blkLocal := [], localAlloc := false }

def createLocalDatabase (container name : String) : VfsM Hash Unit := do
  Act.require (name ≠ "" ∧ name.utf8ByteSize < 128) ⟨cantOpen, ""⟩
  let world : World Hash ← get
  match (world.vfs.containers container).man with
  | none => throw ⟨cantOpen, ""⟩
  | some man => do
      Act.require (man.findDatabase name = none) ⟨cantOpen, ""⟩
      onVfs fun vfs => { vfs with nextLocalId := vfs.nextLocalId + 1 }
      manifestInstall container
        { man with dbs := man.dbs ++ [localDatabase world.vfs.nextLocalId name] }

/-- The id a handle on the file gets. A database without blocks can be opened only by the VFS
that has created it. -/
def openDatabase (vfs : Vfs Hash) (container name : String) (create : Bool) : Except Err Nat :=
  match (vfs.containers container).man.bind (Manifest.findDatabase · name) with
  | none => .error ⟨cantOpen, ""⟩
  | some db =>
    if db.blkLocal = [] ∧ ¬ (create ∧ firstLocalId ≤ db.dbId) then .error ⟨cantOpen, ""⟩
    else .ok db.dbId

/-- `bcvfsOpen` of a main database file; `create` stands for `SQLITE_OPEN_CREATE` without
`SQLITE_OPEN_READONLY`. A session opens its own database only. -/
def xOpen (container name : String) (create : Bool) : VfsM Hash Nat := do
  let world : World Hash ← get
  let target := world.vfs.containers container
  Act.require (target.man.isSome) ⟨cantOpen, ""⟩
  Act.require (target.sessionId.isSome → ∃ context ∈ target.context, context.scope.database = name)
    ⟨.auth, ""⟩
  Act.when (create ∧ target.man.bind (Manifest.findDatabase · name) = none)
    (createLocalDatabase container name)
  let world : World Hash ← get
  match openDatabase world.vfs container name create with
  | .error error => throw error
  | .ok dbId => do
      effect
      return dbId

structure Piece where
  offset : Nat
  bytes : Bytes
  fits : offset + bytes.length ≤ maxFileSize

inductive FileCall where
  | opened (handle : Nat) (create : Bool)
  | closed (handle : Nat)
  | write (handle : Nat) (piece : Piece)
  | truncate (handle size : Nat)

structure Files (Hash : Type) [DecidableEq Hash] [Digest Hash] where
  world : World Hash
  handles : Nat → Option Nat

namespace Files

def setHandle (files : Files Hash) (handle : Nat) (id : Option Nat) : Files Hash :=
  { files with handles := fun other => if other = handle then id else files.handles other }

def after (files : Files Hash) (ran : Except Err α × World Hash) (next : α → Files Hash → Files Hash) :
    Except Err (Files Hash) :=
  ran.1.map fun value => next value { files with world := ran.2 }

def perform [BlockDigest] (container name : String) (files : Files Hash) :
    FileCall → Except Err (Files Hash)
  | .opened handle create =>
    files.after ((xOpen container name create).run.run files.world) fun id files =>
      files.setHandle handle (some id)
  | .closed handle => .ok (files.setHandle handle none)
  | .write handle piece =>
    match files.handles handle with
    | none => .error ⟨.misuse, ""⟩
    | some id =>
      files.after ((xWrite container id piece.bytes piece.offset).run.run files.world)
        fun _ files => files
  | .truncate handle size =>
    match files.handles handle with
    | none => .error ⟨.misuse, ""⟩
    | some id =>
      files.after ((xTruncate container id size).run.run files.world) fun _ files => files

end Files

def FileCall.onFile (file : ByteFile) : FileCall → ByteFile
  | .opened _ _ => file
  | .closed _ => file
  | .write _ piece => file.write piece.offset piece.bytes
  | .truncate _ size => file.truncate size

structure AttachedFile (container name : String) (files : Files Hash) (man : Manifest)
    (db : ManifestDb) : Prop where
  attached : (files.world.vfs.containers container).man = some man
  named : man.findDatabase name = some db
  identified : man.findDatabaseById db.dbId = some db
  szBlk : man.szBlk = files.world.vfs.szBlk
  ordinary : (files.world.vfs.containers container).sessionId = none
  unbound : (files.world.vfs.containers container).context = none
  handles : ∀ handle id, files.handles handle = some id → id = db.dbId

/-- What stays true of an attached file while its view changes. -/
structure Tracked (container name : String) (dbId : Nat) (files : Files Hash)
    (view : FileView Hash) : Prop where
  found : files.world.vfs.view container dbId = some view
  szBlk : view.szBlk = files.world.vfs.szBlk
  session : view.session = false
  context : view.context = none
  named : ((files.world.vfs.origins container).bind fun man => man.findDatabase name).map
    ManifestDb.dbId = some dbId
  handles : ∀ handle id, files.handles handle = some id → id = dbId

omit [DecidableEq Hash] [Digest Hash] in
theorem Vfs.named_eq (vfs : Vfs Hash) (container name : String) :
    ((vfs.origins container).bind fun man => man.findDatabase name).map ManifestDb.dbId =
      ((vfs.containers container).man.bind fun man => man.findDatabase name).map
        ManifestDb.dbId := by
  unfold origins
  cases (vfs.containers container).man with
  | none => rfl
  | some man =>
    simp only [Option.map_some, Option.bind_some, Manifest.findDatabase, List.find?_map,
      Option.map_map]
    rfl

theorem AttachedFile.tracked {container name : String} {files : Files Hash} {man : Manifest}
    {db : ManifestDb} (file : AttachedFile container name files man db) :
    Tracked container name db.dbId files
      (FileView.of (files.world.vfs.containers container) man.szBlk db) where
  found := by
    simp only [Vfs.view, Vfs.blockSize, Vfs.database, file.attached, Option.map_some,
      Option.bind_some, file.identified]
  szBlk := file.szBlk
  session := by simp [FileView.of, file.ordinary]
  context := file.unbound
  named := by
    rw [Vfs.named_eq, file.attached, Option.bind_some, file.named]
    rfl
  handles := file.handles

namespace Tracked

variable {container name : String} {dbId : Nat} {files : Files Hash} {view seen : FileView Hash}

theorem moved {world : World Hash} (file : Tracked container name dbId files view)
    (same : files.world.vfs.SameOrigins world.vfs)
    (found : world.vfs.view container dbId = some seen) (szBlk : seen.szBlk = view.szBlk)
    (session : seen.session = false) (context : seen.context = none) :
    Tracked container name dbId { files with world := world } seen where
  found := found
  szBlk := by rw [szBlk, file.szBlk, same.1]
  session := session
  context := context
  named := by
    rw [same.2]
    exact file.named
  handles := file.handles

theorem setHandle {id : Option Nat} (file : Tracked container name dbId files view)
    (own : ∀ known ∈ id, known = dbId) (handle : Nat) :
    Tracked container name dbId (files.setHandle handle id) view where
  found := file.found
  szBlk := file.szBlk
  session := file.session
  context := file.context
  named := file.named
  handles other known found := by
    simp only [Files.setHandle] at found
    split at found
    · exact own known found
    · exact file.handles other known found

end Tracked

namespace FileView

variable {view : FileView Hash} {offset amount : Nat}

omit [DecidableEq Hash] [Digest Hash] in
theorem bound_of_ordinary (session : view.session = false) : view.bound = false := by
  simp [bound, session]

omit [DecidableEq Hash] [Digest Hash] in
theorem write_of_ordinary (session : view.session = false)
    (fits : offset + amount ≤ maxFileSize) :
    view.write offset amount =
      { view.growTo offset amount with
        fileSize := if 0 < amount ∧ 0 < view.fileSize ∧ view.fileSize < offset + amount
          then offset + amount else view.fileSize } := by
  have grown : (view.growTo offset amount).session = false := by
    unfold growTo
    split <;> exact session
  have size : (view.growTo offset amount).fileSize = view.fileSize := by
    unfold growTo
    split <;> rfl
  have seeded : view.ensureSize = view := by
    unfold ensureSize
    simp [bound_of_ordinary session]
  have noted : (view.growTo offset amount).noteLocal offset amount =
      { view.growTo offset amount with
        fileSize := if 0 < amount ∧ 0 < view.fileSize ∧ view.fileSize < offset + amount
          then offset + amount else view.fileSize } := by
    unfold noteLocal
    by_cases empty : amount = 0
    · simp [empty, ← size]
    · have small : ¬ maxFileSize < offset + amount := by omega
      have positive : 0 < amount := by omega
      simp [empty, small, positive, bound_of_ordinary grown, size]
  unfold write
  rw [seeded, noted]
  unfold noteSession
  rw [bound_of_ordinary (by exact grown)]
  simp

omit [DecidableEq Hash] [Digest Hash] in
theorem truncate_of_ordinary (session : view.session = false) (size : Nat) :
    view.truncate size =
      { view with
        count := min view.count ((size + view.szBlk - 1) / view.szBlk)
        fileSize := if 0 < view.fileSize then size else view.fileSize } := by
  simp [truncate, bound_of_ordinary session]

end FileView

def FileCall.seen (view : FileView Hash) : FileCall → FileView Hash
  | .opened _ _ => view
  | .closed _ => view
  | .write _ piece => view.write piece.offset piece.bytes.length
  | .truncate _ size => view.truncate size

theorem Files.after_eq_ok {files result : Files Hash} {act : VfsM Hash α}
    {next : α → Files Hash → Files Hash} {success : α → World Hash → Prop}
    {failure : Err → World Hash → Prop} (ensured : Meets act files.world success failure)
    (ran : files.after (act.run.run files.world) next = .ok result) :
    ∃ value world, success value world ∧ result = next value { files with world := world } := by
  unfold Meets at ensured
  generalize act.run.run files.world = outcome at ensured ran
  rcases outcome with ⟨error | value, world⟩
  · cases ran
  · cases ran
    exact ⟨value, world, ensured, rfl⟩

theorem xOpen_found {container name : String} {create : Bool} {dbId : Nat} {world : World Hash}
    (named : ((world.vfs.origins container).bind fun man => man.findDatabase name).map
      ManifestDb.dbId = some dbId) :
    Meets (xOpen container name create : VfsM Hash Nat) world
      (fun id after => id = dbId ∧ Still world after) (fun _ _ => True) := by
  rw [Vfs.named_eq] at named
  obtain ⟨db, found, rfl⟩ := Option.map_eq_some_iff.mp named
  simp only [xOpen, Meets.bind, Meets.get, Meets.require, Meets.when]
  split
  · split
    · have exists_here : ¬ (create = true ∧ (world.vfs.containers container).man.bind
          (Manifest.findDatabase · name) = none) := by
        intro missing
        rw [found] at missing
        cases missing.2
      rw [if_neg exists_here]
      unfold openDatabase
      rw [found]
      dsimp only
      split
      · rename_i refused
        split at refused
        · trivial
        · cases refused
      · rename_i accepted
        split at accepted
        · cases accepted
        · cases accepted
          simp only [Meets.bind, Meets.pure]
          apply Meets.mono (effect_still world)
          · exact fun _ _ still => ⟨trivial, still⟩
          · exact fun _ _ _ => trivial
    · trivial
  · trivial

theorem Tracked.perform [BlockDigest] {container name : String} {dbId : Nat}
    {files next : Files Hash} {view : FileView Hash} {call : FileCall}
    (file : Tracked container name dbId files view)
    (ran : files.perform container name call = .ok next) :
    Tracked container name dbId next (call.seen view) := by
  cases call with
  | opened handle create =>
    unfold Files.perform at ran
    dsimp only at ran
    obtain ⟨id, world, ⟨rfl, still⟩, rfl⟩ := Files.after_eq_ok (xOpen_found file.named) ran
    have found : world.vfs.view container id = some view := by
      rw [still.view]
      exact file.found
    have opened := file.moved ⟨still.szBlk, still.origins⟩ found rfl file.session file.context
    exact opened.setHandle (by simp) handle
  | closed handle =>
    cases ran
    exact file.setHandle (by simp) handle
  | write handle piece =>
    unfold Files.perform at ran
    dsimp only at ran
    split at ran
    · cases ran
    · rename_i id held
      cases file.handles handle id held
      obtain ⟨_, world, ⟨same, found⟩, rfl⟩ :=
        Files.after_eq_ok (xWrite_view file.found file.szBlk) ran
      have seen := FileView.write_of_ordinary file.session piece.fits
      apply file.moved same found
      · rw [seen]
        unfold FileView.growTo
        split <;> rfl
      · rw [seen]
        unfold FileView.growTo
        split <;> exact file.session
      · rw [seen]
        unfold FileView.growTo
        split <;> exact file.context
  | truncate handle size =>
    unfold Files.perform at ran
    dsimp only at ran
    split at ran
    · cases ran
    · rename_i id held
      cases file.handles handle id held
      obtain ⟨_, world, ⟨same, found⟩, rfl⟩ :=
        Files.after_eq_ok (xTruncate_view file.found) ran
      have seen := FileView.truncate_of_ordinary file.session size
      apply file.moved same found
      · rw [seen]
      · rw [seen]
        exact file.session
      · rw [seen]
        exact file.context

/-- On a file of whole blocks the call leaves a file of whole blocks. -/
def FileCall.Whole (szBlk size : Nat) : FileCall → Prop
  | .opened _ _ => True
  | .closed _ => True
  | .write _ piece =>
    piece.bytes = [] ∨ piece.offset + piece.bytes.length ≤ size ∨
      szBlk ∣ piece.offset + piece.bytes.length
  | .truncate _ cut => cut ≤ size ∧ szBlk ∣ cut

theorem le_blocks_mul (szBlk size : Nat) (positive : 0 < szBlk) :
    size ≤ (size + szBlk - 1) / szBlk * szBlk := by
  have split := Nat.div_add_mod (size + szBlk - 1) szBlk
  have remainder := Nat.mod_lt (size + szBlk - 1) positive
  rw [Nat.mul_comm] at split
  omega

theorem blocks_mul_eq_iff (szBlk size : Nat) (positive : 0 < szBlk) :
    (size + szBlk - 1) / szBlk * szBlk = size ↔ szBlk ∣ size := by
  constructor
  · intro same
    rw [← same]
    exact Nat.dvd_mul_left szBlk _
  · rintro ⟨blocks, rfl⟩
    have shifted : szBlk * blocks + szBlk - 1 = (szBlk - 1) + szBlk * blocks := by omega
    rw [shifted, Nat.add_mul_div_left _ _ positive, Nat.div_eq_of_lt (by omega), Nat.zero_add,
      Nat.mul_comm]

theorem blocks_le_of_le {szBlk size count : Nat} (within : size ≤ count * szBlk) :
    (size + szBlk - 1) / szBlk ≤ count := by
  by_cases positive : 0 < szBlk
  · have below : (size + szBlk - 1) / szBlk < count + 1 := by
      rw [Nat.div_lt_iff_lt_mul positive, Nat.add_mul, Nat.one_mul]
      omega
    omega
  · have zero : szBlk = 0 := by omega
    simp [zero]

theorem grown_mul_eq_iff (szBlk count size : Nat) :
    max count ((size + szBlk - 1) / szBlk) * szBlk = max (count * szBlk) size ↔
      size ≤ count * szBlk ∨ szBlk ∣ size := by
  by_cases positive : 0 < szBlk
  · by_cases covered : size ≤ count * szBlk
    · have kept : max count ((size + szBlk - 1) / szBlk) = count :=
        Nat.max_eq_left (blocks_le_of_le covered)
      simp [kept, covered]
    · have beyond : count * szBlk < (size + szBlk - 1) / szBlk * szBlk := by
        have enough := le_blocks_mul szBlk size positive
        omega
      have longer : count ≤ (size + szBlk - 1) / szBlk :=
        Nat.le_of_lt (Nat.lt_of_mul_lt_mul_right beyond)
      rw [Nat.max_eq_right longer, Nat.max_eq_right (by omega)]
      simp [covered, blocks_mul_eq_iff szBlk size positive]
  · have zero : szBlk = 0 := by omega
    simp [zero]
    omega

theorem cut_mul_eq_iff (szBlk count size : Nat) :
    min count ((size + szBlk - 1) / szBlk) * szBlk = size ↔ size ≤ count * szBlk ∧ szBlk ∣ size := by
  by_cases positive : 0 < szBlk
  · by_cases covered : size ≤ count * szBlk
    · rw [Nat.min_eq_right (blocks_le_of_le covered), blocks_mul_eq_iff szBlk size positive]
      simp [covered]
    · have shorter : min count ((size + szBlk - 1) / szBlk) * szBlk ≤ count * szBlk :=
        Nat.mul_le_mul_right szBlk (Nat.min_le_left _ _)
      simp only [covered, false_and, iff_false]
      omega
  · have zero : szBlk = 0 := by omega
    simp [zero]
    omega

section

variable {container name : String} {dbId : Nat} {files last : Files Hash} {view : FileView Hash}
  {bytes : ByteFile} {call : FileCall} {calls : List FileCall}

theorem Tracked.size_eq (file : Tracked container name dbId files view) :
    xFileSize files.world.vfs container dbId =
      .ok (if 0 < view.fileSize then view.fileSize else view.count * view.szBlk) := by
  rw [Vfs.xFileSize_eq file.found]
  simp [FileView.size, file.context]

omit [DecidableEq Hash] [Digest Hash] in
/-- A file without an exact size stays in step with the reference through whole calls only. -/
theorem FileCall.seen_rounded (call : FileCall) (session : view.session = false) (rounded : view.fileSize = 0)
    (whole : view.count * view.szBlk = bytes.length) :
    (call.seen view).fileSize = 0 ∧ (call.seen view).szBlk = view.szBlk ∧
      ((call.seen view).count * view.szBlk = (call.onFile bytes).length ↔
        call.Whole view.szBlk bytes.length) := by
  cases call with
  | opened handle create => exact ⟨rounded, rfl, by simp [FileCall.seen, FileCall.onFile, Whole, whole]⟩
  | closed handle => exact ⟨rounded, rfl, by simp [FileCall.seen, FileCall.onFile, Whole, whole]⟩
  | write handle piece =>
    simp only [FileCall.seen, FileCall.onFile, Whole, FileView.write_of_ordinary session piece.fits,
      rounded, ByteFile.length_write]
    by_cases empty : piece.bytes = []
    · simp [empty, FileView.growTo, whole]
    · have nonempty : piece.bytes.length ≠ 0 := by simpa using empty
      simp [empty, FileView.growTo, ← whole, grown_mul_eq_iff]
  | truncate handle size =>
    simp only [FileCall.seen, FileCall.onFile, Whole, FileView.truncate_of_ordinary session,
      rounded, ByteFile.length_truncate, ← whole, cut_mul_eq_iff]
    simp

theorem foldlM_cons_eq_ok [BlockDigest]
    (succeed : (call :: calls).foldlM (Files.perform container name) files = .ok last) :
    ∃ next, files.perform container name call = .ok next ∧
      calls.foldlM (Files.perform container name) next = .ok last := by
  rw [List.foldlM_cons] at succeed
  cases ran : files.perform container name call with
  | error error =>
    rw [ran] at succeed
    cases succeed
  | ok next =>
    rw [ran] at succeed
    exact ⟨next, rfl, succeed⟩

/-- The reported size is that of the reference file after every prefix of the calls. -/
def SizesAgree [BlockDigest] (container name : String) (dbId : Nat) (files : Files Hash)
    (bytes : ByteFile) (calls : List FileCall) : Prop :=
  ∀ done, done <+: calls → ∀ now, done.foldlM (Files.perform container name) files = .ok now →
    xFileSize now.world.vfs container dbId = .ok (done.foldl FileCall.onFile bytes).length

theorem sizesAgree_nil [BlockDigest] : SizesAgree container name dbId files bytes [] ↔
      xFileSize files.world.vfs container dbId = .ok bytes.length := by
  unfold SizesAgree
  constructor
  · intro agree
    exact agree [] (List.prefix_refl _) files rfl
  · intro same done inside now ran
    cases List.prefix_nil.mp inside
    cases ran
    exact same

theorem sizesAgree_cons [BlockDigest] {next : Files Hash}
    (ran : files.perform container name call = .ok next) :
    SizesAgree container name dbId files bytes (call :: calls) ↔
      xFileSize files.world.vfs container dbId = .ok bytes.length ∧
        SizesAgree container name dbId next (call.onFile bytes) calls := by
  have start : ∀ done : List FileCall,
      (call :: done).foldlM (Files.perform container name) files =
        done.foldlM (Files.perform container name) next := by
    intro done
    rw [List.foldlM_cons, ran]
    rfl
  unfold SizesAgree
  constructor
  · intro agree
    refine ⟨agree [] List.nil_prefix files rfl, ?_⟩
    intro done inside now reached
    exact agree (call :: done) ((List.prefix_cons_inj call).mpr inside) now
      ((start done).trans reached)
  · rintro ⟨first, later⟩ done inside now reached
    rcases List.prefix_cons_iff.mp inside with rfl | ⟨rest, rfl, within⟩
    · cases reached
      exact first
    · exact later rest within now ((start rest).symm.trans reached)

theorem sizesAgree_head [BlockDigest] (agree : SizesAgree container name dbId files bytes calls) :
    xFileSize files.world.vfs container dbId = .ok bytes.length :=
  agree [] List.nil_prefix files rfl

theorem forall_step_cons {holds : List FileCall → FileCall → Prop} :
    (∀ done next, done ++ [next] <+: call :: calls → holds done next) ↔
      holds [] call ∧ ∀ done next, done ++ [next] <+: calls → holds (call :: done) next := by
  constructor
  · intro every
    refine ⟨every [] call (by simp), ?_⟩
    intro done next inside
    exact every (call :: done) next ((List.prefix_cons_inj call).mpr inside)
  · rintro ⟨first, later⟩ done next inside
    cases done with
    | nil =>
      cases (List.prefix_cons_iff.mp inside).resolve_left (by simp) with
      | intro rest split =>
        cases split.1
        exact first
    | cons head rest =>
      obtain ⟨same, within⟩ := List.cons_prefix_cons.mp inside
      cases same
      exact later rest next within

theorem rounded_sizesAgree_iff [BlockDigest] (file : Tracked container name dbId files view)
    (rounded : view.fileSize = 0) (whole : view.count * view.szBlk = bytes.length)
    (succeed : calls.foldlM (Files.perform container name) files = .ok last) :
    SizesAgree container name dbId files bytes calls ↔
      ∀ done next, done ++ [next] <+: calls →
        next.Whole view.szBlk (done.foldl FileCall.onFile bytes).length := by
  have here : xFileSize files.world.vfs container dbId = .ok bytes.length := by
    rw [file.size_eq, if_neg (by omega), whole]
  induction calls generalizing files view bytes with
  | nil => simp [sizesAgree_nil, here]
  | cons call calls ih =>
    obtain ⟨next, ran, rest⟩ := foldlM_cons_eq_ok succeed
    have moved := file.perform ran
    obtain ⟨unsized, szBlk, stays⟩ := call.seen_rounded file.session rounded whole
    rw [← szBlk] at stays
    have after : xFileSize next.world.vfs container dbId =
        .ok ((call.seen view).count * (call.seen view).szBlk) := by
      rw [moved.size_eq, if_neg (by omega)]
    rw [sizesAgree_cons ran, forall_step_cons]
    simp only [here, true_and, List.foldl_nil, List.foldl_cons]
    by_cases kept : call.Whole view.szBlk bytes.length
    · have agrees := stays.mpr (by rw [szBlk]; exact kept)
      have later := ih moved unsized agrees rest (by rw [after, agrees])
      apply Iff.trans later
      rw [szBlk]
      simp [kept]
    · -- the size is off right after this call
      simp only [kept, false_and, iff_false]
      intro agree
      have same := (sizesAgree_head agree).symm.trans after
      apply kept
      rw [← szBlk]
      exact stays.mp (Except.ok.inj same).symm

def FileCall.Empties : FileCall → Prop
  | .truncate _ size => size = 0
  | _ => False

omit [DecidableEq Hash] [Digest Hash] in
theorem FileCall.seen_exact (session : view.session = false) (recorded : 0 < view.fileSize)
    (exact : view.fileSize = bytes.length) (positive : ¬ call.Empties) :
    0 < (call.seen view).fileSize ∧ (call.seen view).szBlk = view.szBlk ∧
      (call.seen view).fileSize = (call.onFile bytes).length := by
  cases call with
  | opened handle create => exact ⟨recorded, rfl, exact⟩
  | closed handle => exact ⟨recorded, rfl, exact⟩
  | write handle piece =>
    simp only [FileCall.seen, FileCall.onFile, FileView.write_of_ordinary session piece.fits,
      ByteFile.length_write, ← exact]
    refine ⟨by split <;> omega, ?_, by split <;> split <;> omega⟩
    unfold FileView.growTo
    split <;> rfl
  | truncate handle size =>
    simp only [Empties] at positive
    simp only [FileCall.seen, FileCall.onFile, FileView.truncate_of_ordinary session,
      ByteFile.length_truncate, recorded, ↓reduceIte, and_true]
    omega

theorem exact_sizesAgree_iff [BlockDigest] (file : Tracked container name dbId files view)
    (recorded : 0 < view.fileSize) (exact : view.fileSize = bytes.length)
    (succeed : calls.foldlM (Files.perform container name) files = .ok last) :
    SizesAgree container name dbId files bytes calls ↔
      ∀ done next, done ++ [next] <+: calls → (∃ call ∈ done, call.Empties) →
        next.Whole view.szBlk (done.foldl FileCall.onFile bytes).length := by
  have here : xFileSize files.world.vfs container dbId = .ok bytes.length := by
    rw [file.size_eq, if_pos recorded, exact]
  induction calls generalizing files view bytes with
  | nil => simp [sizesAgree_nil, here]
  | cons call calls ih =>
    obtain ⟨next, ran, rest⟩ := foldlM_cons_eq_ok succeed
    have moved := file.perform ran
    rw [sizesAgree_cons ran, forall_step_cons]
    simp only [here, true_and, List.foldl_nil, List.foldl_cons, List.not_mem_nil, false_and,
      exists_false, IsEmpty.forall_iff]
    by_cases emptied : call.Empties
    · -- from here on the manifest has no exact size
      cases call with
      | truncate handle size =>
        cases emptied
        have seen := FileView.truncate_of_ordinary file.session 0
        have single : (view.szBlk - 1) / view.szBlk = 0 := by
          have below : (0 + view.szBlk - 1) / view.szBlk ≤ 0 := blocks_le_of_le (Nat.zero_le _)
          rw [Nat.zero_add] at below
          exact Nat.le_zero.mp below
        have whole : (FileCall.seen view (.truncate handle 0)).count *
            (FileCall.seen view (.truncate handle 0)).szBlk = (bytes.truncate 0).length := by
          simp [FileCall.seen, seen, single, ByteFile.length_truncate]
        have rounded := rounded_sizesAgree_iff moved
          (by simp [FileCall.seen, seen, recorded]) whole rest
        have szBlk : (FileCall.seen view (.truncate handle 0)).szBlk = view.szBlk := by
          simp [FileCall.seen, seen]
        rw [szBlk] at rounded
        simp only [FileCall.onFile, rounded, List.mem_cons, exists_eq_or_imp, FileCall.Empties,
          true_or, forall_const]
      | opened handle create => cases emptied
      | closed handle => cases emptied
      | write handle piece => cases emptied
    · obtain ⟨positive, szBlk, same⟩ := FileCall.seen_exact file.session recorded exact emptied
      have after : xFileSize next.world.vfs container dbId = .ok (call.onFile bytes).length := by
        rw [moved.size_eq, if_pos positive, same]
      have later := ih moved positive same rest after
      apply Iff.trans later
      rw [szBlk]
      simp [emptied]

end

/-- In an ordinary container the reported size agrees with the reference file after every
call exactly if every call that follows a cut to nothing leaves a file of whole blocks. -/
theorem xFileSize_local_agrees_iff [BlockDigest] {container name : String} {files last : Files Hash}
    {man : Manifest} {db : ManifestDb} {bytes : ByteFile} {calls : List FileCall}
    (file : AttachedFile container name files man db) (recorded : 0 < db.fileSize)
    (exact : db.fileSize = bytes.length)
    (succeed : calls.foldlM (Files.perform container name) files = .ok last) :
    SizesAgree container name db.dbId files bytes calls ↔
      ∀ done next, done ++ [next] <+: calls → (∃ call ∈ done, call.Empties) →
        next.Whole man.szBlk (done.foldl FileCall.onFile bytes).length :=
  exact_sizesAgree_iff file.tracked recorded exact succeed

theorem exists_eq_ok {result : Except ε α} (ok : result.isOk = true) :
    ∃ value, result = .ok value := by
  cases result with
  | error error => cases ok
  | ok value => exact ⟨value, rfl⟩

def threeBytes : Files Tree := ⟨smallWorld 4 ordinary [([9, 9], [1, 2, 3, 0])], fun _ => none⟩

theorem threeBytes_attached :
    AttachedFile "store" "main" threeBytes (smallManifest [[9, 9]] 3)
      ⟨1, 0, "main", 1, 3, [[9, 9]], [[9, 9]], false⟩ where
  attached := rfl
  named := rfl
  identified := rfl
  szBlk := rfl
  ordinary := rfl
  unbound := rfl
  handles _ _ held := by cases held

def extending : List FileCall := [.opened 0 false, .write 0 ⟨2, [5, 6, 7], by decide⟩]

theorem xFileSize_local_agrees_extending :
    SizesAgree "store" "main" 1 threeBytes [1, 2, 3] extending := by
  obtain ⟨last, succeed⟩ : ∃ last,
      extending.foldlM (Files.perform "store" "main") threeBytes = .ok last := by
    apply exists_eq_ok
    decide +kernel
  apply (xFileSize_local_agrees_iff threeBytes_attached (by decide) (by decide) succeed).mpr
  rintro done next inside ⟨call, member, emptied⟩
  have called : call ∈ extending := inside.subset (List.mem_append_left _ member)
  simp only [extending, List.mem_cons, List.not_mem_nil, or_false] at called
  rcases called with rfl | rfl
  · cases emptied
  · cases emptied

def rewriting : List FileCall :=
  [.opened 0 false, .truncate 0 0, .write 0 ⟨0, [5, 6, 7], by decide⟩]

/-- Cut to nothing and written again, a file of three bytes is reported with four. -/
theorem xFileSize_local_rounded_up :
    ∃ last, rewriting.foldlM (Files.perform "store" "main") threeBytes = .ok last ∧
      xFileSize last.world.vfs "store" 1 = .ok 4 ∧
      (rewriting.foldl FileCall.onFile [1, 2, 3]).length = 3 := by
  obtain ⟨last, succeed⟩ : ∃ last,
      rewriting.foldlM (Files.perform "store" "main") threeBytes = .ok last := by
    apply exists_eq_ok
    decide +kernel
  have size : (rewriting.foldlM (Files.perform "store" "main") threeBytes).map
      (fun files => (xFileSize files.world.vfs "store" 1).toOption) = .ok (some 4) := by
    decide +kernel
  rw [succeed] at size
  refine ⟨last, succeed, ?_, by decide⟩
  have four := Except.ok.inj size
  cases reported : xFileSize last.world.vfs "store" 1 with
  | error error => simp [reported, Except.toOption] at four
  | ok value => simpa [reported, Except.toOption] using four

end RusqDoltlite.Blocks
