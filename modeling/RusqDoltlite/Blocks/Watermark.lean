import Mathlib.Algebra.Order.Floor.Div
import RusqDoltlite.Blocks.ReadAll

/-! The staging watermark in 64-bit arithmetic, and the configuration it reads. -/

namespace RusqDoltlite.Blocks

open Session

/-- A result of signed 64-bit arithmetic on values that are not negative. -/
def i64 (value : Nat) : Option Nat := if value < 2 ^ 63 then some value else none

theorem i64_of_lt {value : Nat} (fits : value < 2 ^ 63) : i64 value = some value := if_pos fits

variable {Hash : Type}

def dirtyEntries (vfs : Vfs Hash) : Nat := vfs.hash.countP fun entry => entry.valid ∧ entry.dirty

def targetSlots (cache watermark block : Nat) : Option Nat := do
  let hundreds ← i64 (cache / 100 * watermark)
  let rest ← i64 (cache % 100 * watermark)
  let bytes ← i64 (hundreds + rest / 100)
  i64 (bytes / block + (if bytes % block ≠ 0 then 1 else 0))

/-- `bcvfsAtStageWatermark` with the arithmetic of its `i64` variables; no value where one of them
overflows. -/
def atStageWatermark64 (vfs : Vfs Hash) : Option Bool :=
  if 0 < vfs.szBlk ∧ 0 < vfs.maxCache ∧ 0 < vfs.stageWatermark then
    (targetSlots vfs.maxCache vfs.stageWatermark vfs.szBlk).map fun target =>
      target ≤ vfs.slots ∧ target ≤ dirtyEntries vfs
  else some false

inductive ConfigOp where
  | cacheSize
  | stageWatermark

def config (vfs : Vfs Hash) (value : Int) : ConfigOp → Except Err (Vfs Hash)
  | .cacheSize =>
    let size := value.toNat
    if value ≤ 0 then .error ⟨.misuse, ""⟩
    else if 0 < vfs.szBlk ∧ size < vfs.szBlk then .error ⟨.misuse, ""⟩
    else if 0 < vfs.szBlk ∧ size / vfs.szBlk * vfs.szBlk ≠ size then .error ⟨.misuse, ""⟩
    else if 0 < vfs.szBlk ∧ size / vfs.szBlk < vfs.slots then .error ⟨.full, ""⟩
    else .ok { vfs with maxCache := size }
  | .stageWatermark =>
    if value < 1 ∨ 100 < value then .error ⟨.misuse, ""⟩
    else .ok { vfs with stageWatermark := value.toNat }

/-- The limits `sqlite3_bcvfs_config` leaves; it starts from 1 GiB and 90. -/
structure Configured (vfs : Vfs Hash) : Prop where
  positive : 0 < vfs.maxCache
  signed : vfs.maxCache < 2 ^ 63
  low : 1 ≤ vfs.stageWatermark
  high : vfs.stageWatermark ≤ 100

theorem Configured.config {vfs after : Vfs Hash} (configured : Configured vfs) {value : Int}
    (signed : value < 2 ^ 63) {op : ConfigOp} (done : Blocks.config vfs value op = .ok after) :
    Configured after := by
  cases op with
  | cacheSize =>
    simp only [Blocks.config] at done
    split_ifs at done with negative small uneven full
    obtain rfl := Except.ok.inj done
    exact ⟨by dsimp only; omega, by dsimp only; omega, configured.low, configured.high⟩
  | stageWatermark =>
    simp only [Blocks.config] at done
    split_ifs at done with range
    obtain rfl := Except.ok.inj done
    exact ⟨configured.positive, configured.signed, by dsimp only; omega, by dsimp only; omega⟩

theorem split_percent (cache watermark : Nat) :
    cache / 100 * watermark + cache % 100 * watermark / 100 = cache * watermark / 100 := by
  conv_rhs => rw [← Nat.div_add_mod cache 100, Nat.add_mul, Nat.mul_assoc]
  rw [Nat.mul_add_div (by decide)]

theorem div_add_carry (bytes : Nat) {block : Nat} (positive : 0 < block) :
    bytes / block + (if bytes % block ≠ 0 then 1 else 0) = bytes ⌈/⌉ block := by
  rw [Nat.ceilDiv_eq_add_pred_div]
  have whole := Nat.div_add_mod bytes block
  have below := Nat.mod_lt bytes positive
  split_ifs with rest
  · have sum : bytes + block - 1 = bytes % block - 1 + block * (bytes / block + 1) := by
      rw [Nat.mul_add]
      omega
    rw [sum, Nat.add_mul_div_left _ _ positive, Nat.div_eq_of_lt (show bytes % block - 1 < block by omega),
      Nat.zero_add]
  · have sum : bytes + block - 1 = block - 1 + block * (bytes / block) := by omega
    rw [sum, Nat.add_mul_div_left _ _ positive, Nat.div_eq_of_lt (show block - 1 < block by omega),
      Nat.zero_add, Nat.add_zero]

theorem targetSlots_eq {cache watermark block : Nat} (signed : cache < 2 ^ 63) (high : watermark ≤ 100)
    (positive : 0 < block) :
    targetSlots cache watermark block = some ((cache * watermark / 100) ⌈/⌉ block) := by
  have scaled : cache / 100 * watermark ≤ cache / 100 * 100 := Nat.mul_le_mul_left _ high
  have part : cache % 100 * watermark ≤ cache % 100 * 100 := Nat.mul_le_mul_left _ high
  have bytes := split_percent cache watermark
  have slots : cache * watermark / 100 ⌈/⌉ block ≤ cache * watermark / 100 := by
    rw [ceilDiv_le_iff_le_smul positive]
    exact Nat.le_mul_of_pos_left _ positive
  rw [targetSlots, i64_of_lt (by omega), Option.bind_eq_bind, Option.bind_some, i64_of_lt (by omega),
    Option.bind_some, i64_of_lt (by omega), Option.bind_some, bytes, div_add_carry _ positive,
    i64_of_lt (by omega)]

/-- No operation overflows, and the result says whether the dirty entries reach the exact target. -/
theorem atStageWatermark_exact (vfs : Vfs Hash) (configured : Configured vfs) (block : 0 < vfs.szBlk)
    (allocated : dirtyEntries vfs ≤ vfs.slots) :
    atStageWatermark64 vfs = some (atStageWatermark vfs) ∧
    (atStageWatermark vfs = true ↔
      (vfs.maxCache * vfs.stageWatermark / 100) ⌈/⌉ vfs.szBlk ≤ dirtyEntries vfs) := by
  have reaches : atStageWatermark vfs = true ↔
      (vfs.maxCache * vfs.stageWatermark / 100) ⌈/⌉ vfs.szBlk ≤ dirtyEntries vfs := by
    simp only [atStageWatermark, split_percent, div_add_carry _ block, decide_eq_true_eq]
    constructor
    · intro reached
      exact reached.2.2.2.2
    · intro reached
      exact ⟨block, configured.positive, configured.low, reached.trans allocated, reached⟩
  refine ⟨?_, reaches⟩
  rw [atStageWatermark64, if_pos ⟨block, configured.positive, configured.low⟩,
    targetSlots_eq configured.signed configured.high block, Option.map_some, Option.some_inj, Bool.eq_iff_iff,
    reaches, decide_eq_true_eq, and_iff_right_of_imp (le_trans · allocated)]

theorem atStageWatermark_exact_largest :
    atStageWatermark64 { smallVfs 0 ordinary with
      maxCache := 2 ^ 63 - 1, stageWatermark := 100, szBlk := 8 } = some false :=
  (atStageWatermark_exact { smallVfs 0 ordinary with
    maxCache := 2 ^ 63 - 1, stageWatermark := 100, szBlk := 8 }
    ⟨by decide, by decide, by decide, by decide⟩ (by decide) (by decide)).1.trans (by decide)

end RusqDoltlite.Blocks
