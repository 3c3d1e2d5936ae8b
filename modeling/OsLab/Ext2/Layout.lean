import Mathlib.Tactic.Set
import Mathlib.Algebra.Order.Ring.Nat

/-!
# Layout of an ext2-lite volume

The numbers of the super block and of the group descriptors that the block functions
read, the groups they divide the volume into, and the blocks that hold metadata.
-/

namespace OsLab.Ext2

/-- What `struct super_block`, `struct ext2_sb_info` and the group descriptors hold constant. -/
structure SuperBlock where
  blocksizeBits : Nat
  blocksPerGroup : Nat
  firstDataBlock : Nat
  blocksCount : Nat
  itbPerGroup : Nat
  bgBlockBitmap : Nat → Nat
  bgInodeBitmap : Nat → Nat
  bgInodeTable : Nat → Nat

def blocksize (sb : SuperBlock) : Nat := 2 ^ sb.blocksizeBits

/-- `s_groups_count`, as `ext2_fill_super` computes it. -/
def groupsCount (sb : SuperBlock) : Nat :=
  (sb.blocksCount - sb.firstDataBlock - 1) / sb.blocksPerGroup + 1

/-- A group descriptor has 32 bytes. -/
def descPerBlock (sb : SuperBlock) : Nat := blocksize sb / 32

def gdbCount (sb : SuperBlock) : Nat := (groupsCount sb + descPerBlock sb - 1) / descPerBlock sb

/-- `s_sb_block`, in units of `BLOCK_SIZE`. -/
def sbBlock : Nat := 1

def logicSbBlock (sb : SuperBlock) : Nat := sbBlock * 1024 / blocksize sb

def ext2GroupFirstBlockNo (sb : SuperBlock) (groupNo : Nat) : Nat :=
  groupNo * sb.blocksPerGroup + sb.firstDataBlock

def ext2GroupLastBlockNo (sb : SuperBlock) (groupNo : Nat) : Nat :=
  if groupNo = groupsCount sb - 1 then sb.blocksCount - 1
  else ext2GroupFirstBlockNo sb groupNo + sb.blocksPerGroup - 1

/-- The number of blocks in a group. -/
def nblocks (sb : SuperBlock) (groupNo : Nat) : Nat :=
  ext2GroupLastBlockNo sb groupNo - ext2GroupFirstBlockNo sb groupNo + 1

def groupOf (sb : SuperBlock) (block : Nat) : Nat := (block - sb.firstDataBlock) / sb.blocksPerGroup
def bitOf (sb : SuperBlock) (block : Nat) : Nat := (block - sb.firstDataBlock) % sb.blocksPerGroup

/-- The superblock copy at the start of each group, the descriptor blocks behind it and behind the
superblock that was mounted, the bitmaps and the inode table. -/
def Metadata (sb : SuperBlock) (block : Nat) : Prop :=
  block = ext2GroupFirstBlockNo sb (groupOf sb block) ∨
    (ext2GroupFirstBlockNo sb (groupOf sb block) < block ∧
      block ≤ ext2GroupFirstBlockNo sb (groupOf sb block) + gdbCount sb) ∨
    (logicSbBlock sb < block ∧ block ≤ logicSbBlock sb + gdbCount sb) ∨
    block = sb.bgBlockBitmap (groupOf sb block) ∨
    block = sb.bgInodeBitmap (groupOf sb block) ∨
    (sb.bgInodeTable (groupOf sb block) ≤ block ∧
      block < sb.bgInodeTable (groupOf sb block) + sb.itbPerGroup)

instance (sb : SuperBlock) : DecidablePred (Metadata sb) :=
  fun _ => inferInstanceAs (Decidable (_ ∨ _ ∧ _ ∨ _ ∧ _ ∨ _ ∨ _ ∨ _ ∧ _))

/-- A block of the volume that can hold data. -/
def DataBlock (sb : SuperBlock) (block : Nat) : Prop :=
  sb.firstDataBlock ≤ block ∧ block < sb.blocksCount ∧ ¬ Metadata sb block

/-- A super block that `ext2_fill_super` mounts: the block sizes that `sb_set_blocksize` allows, groups
that one bitmap block covers, and the bitmaps and the inode table of each group inside of it. -/
structure Volume extends SuperBlock where
  sizes : 10 ≤ blocksizeBits ∧ blocksizeBits ≤ 12
  perGroup : 0 < blocksPerGroup ∧ blocksPerGroup ≤ blocksize toSuperBlock * 8
  blocks : firstDataBlock < blocksCount ∧ blocksCount < 2 ^ 32
  blockBitmap : ∀ g, g < groupsCount toSuperBlock →
    ext2GroupFirstBlockNo toSuperBlock g ≤ bgBlockBitmap g ∧ bgBlockBitmap g ≤ ext2GroupLastBlockNo toSuperBlock g
  inodeBitmap : ∀ g, g < groupsCount toSuperBlock →
    ext2GroupFirstBlockNo toSuperBlock g ≤ bgInodeBitmap g ∧ bgInodeBitmap g ≤ ext2GroupLastBlockNo toSuperBlock g
  inodeTable : ∀ g, g < groupsCount toSuperBlock →
    ext2GroupFirstBlockNo toSuperBlock g < bgInodeTable g ∧
      bgInodeTable g + itbPerGroup ≤ ext2GroupLastBlockNo toSuperBlock g + 1

theorem kibi_sizes : 10 ≤ 10 ∧ 10 ≤ 12 := by decide

/-! ### Blocks and groups -/

section
variable {v : Volume} {g b bit : Nat}

theorem groupsCount_pos : 0 < groupsCount v.toSuperBlock := Nat.succ_pos _

theorem blocksize_le : blocksize v.toSuperBlock ≤ 4096 :=
  (Nat.pow_le_pow_right (by decide) v.sizes.2).trans_eq rfl

theorem blocksize_ge : 1024 ≤ blocksize v.toSuperBlock :=
  (show 1024 = 2 ^ 10 by rfl) ▸ Nat.pow_le_pow_right (by decide) v.sizes.1

theorem gdbCount_pos : 0 < gdbCount v.toSuperBlock := by
  have some := groupsCount_pos (v := v)
  have large := blocksize_ge (v := v)
  unfold gdbCount descPerBlock
  exact Nat.div_pos (by omega) (by omega)

theorem first_lt (inside : g < groupsCount v.toSuperBlock) :
    ext2GroupFirstBlockNo v.toSuperBlock g < v.blocksCount := by
  have blocks := v.blocks
  have below : g ≤ (v.blocksCount - v.firstDataBlock - 1) / v.blocksPerGroup := Nat.lt_succ_iff.mp inside
  have product := (Nat.le_div_iff_mul_le v.perGroup.1).mp below
  unfold ext2GroupFirstBlockNo
  omega

theorem last_lt (inside : g < groupsCount v.toSuperBlock) :
    ext2GroupFirstBlockNo v.toSuperBlock g ≤ ext2GroupLastBlockNo v.toSuperBlock g ∧
      ext2GroupLastBlockNo v.toSuperBlock g < v.blocksCount ∧
      ext2GroupLastBlockNo v.toSuperBlock g < ext2GroupFirstBlockNo v.toSuperBlock g + v.blocksPerGroup := by
  have first := first_lt inside
  have some := v.perGroup.1
  unfold ext2GroupLastBlockNo
  split_ifs with last
  · subst last
    refine ⟨by omega, by omega, ?_⟩
    have rest := Nat.lt_div_mul_add some (a := v.blocksCount - v.firstDataBlock - 1)
    have blocks := v.blocks
    unfold ext2GroupFirstBlockNo groupsCount
    rw [Nat.add_sub_cancel]
    omega
  · have next := first_lt (v := v) (show g + 1 < groupsCount v.toSuperBlock by omega)
    unfold ext2GroupFirstBlockNo at *
    rw [Nat.succ_mul] at next
    omega

theorem nblocks_le (inside : g < groupsCount v.toSuperBlock) : nblocks v.toSuperBlock g ≤ v.blocksPerGroup := by
  have last := last_lt inside
  unfold nblocks
  omega

theorem block_inside (inside : g < groupsCount v.toSuperBlock) (bound : bit < nblocks v.toSuperBlock g) :
    ext2GroupFirstBlockNo v.toSuperBlock g + bit < v.blocksCount := by
  have last := last_lt inside
  unfold nblocks at bound
  omega

theorem groupOf_add (bound : bit < v.blocksPerGroup) :
    groupOf v.toSuperBlock (ext2GroupFirstBlockNo v.toSuperBlock g + bit) = g := by
  have offset : ext2GroupFirstBlockNo v.toSuperBlock g + bit - v.firstDataBlock = bit + v.blocksPerGroup * g := by
    unfold ext2GroupFirstBlockNo
    rw [Nat.mul_comm v.blocksPerGroup g]
    omega
  rw [groupOf, offset, Nat.add_mul_div_left _ _ v.perGroup.1, Nat.div_eq_of_lt bound, Nat.zero_add]

theorem bitOf_add (bound : bit < v.blocksPerGroup) :
    bitOf v.toSuperBlock (ext2GroupFirstBlockNo v.toSuperBlock g + bit) = bit := by
  have offset : ext2GroupFirstBlockNo v.toSuperBlock g + bit - v.firstDataBlock = bit + v.blocksPerGroup * g := by
    unfold ext2GroupFirstBlockNo
    rw [Nat.mul_comm v.blocksPerGroup g]
    omega
  rw [bitOf, offset, Nat.add_mul_mod_self_left, Nat.mod_eq_of_lt bound]

theorem first_add_bitOf (low : v.firstDataBlock ≤ b) :
    ext2GroupFirstBlockNo v.toSuperBlock (groupOf v.toSuperBlock b) + bitOf v.toSuperBlock b = b := by
  have split := Nat.div_add_mod (b - v.firstDataBlock) v.blocksPerGroup
  unfold ext2GroupFirstBlockNo groupOf bitOf
  rw [Nat.mul_comm] at split
  omega

theorem groupOf_lt (high : b < v.blocksCount) : groupOf v.toSuperBlock b < groupsCount v.toSuperBlock :=
  Nat.lt_succ_of_le (Nat.div_le_div_right (by omega))

theorem bitOf_lt (low : v.firstDataBlock ≤ b) (high : b < v.blocksCount) :
    bitOf v.toSuperBlock b < nblocks v.toSuperBlock (groupOf v.toSuperBlock b) := by
  have known := first_add_bitOf low
  have mod := Nat.mod_lt (b - v.firstDataBlock) v.perGroup.1
  have last := last_lt (groupOf_lt high)
  unfold nblocks ext2GroupLastBlockNo at *
  split_ifs at * with final <;> unfold bitOf at * <;> omega

theorem block_inj {g' bit' : Nat} (inside : g < groupsCount v.toSuperBlock)
    (inside' : g' < groupsCount v.toSuperBlock) (bound : bit < nblocks v.toSuperBlock g)
    (bound' : bit' < nblocks v.toSuperBlock g')
    (same : ext2GroupFirstBlockNo v.toSuperBlock g + bit = ext2GroupFirstBlockNo v.toSuperBlock g' + bit') :
    g = g' ∧ bit = bit' := by
  have small := nblocks_le inside
  have small' := nblocks_le inside'
  have group := congrArg (groupOf v.toSuperBlock) same
  have offset := congrArg (bitOf v.toSuperBlock) same
  rw [groupOf_add (by omega), groupOf_add (by omega)] at group
  rw [bitOf_add (by omega), bitOf_add (by omega)] at offset
  exact ⟨group, offset⟩

/-! ### Data blocks -/

theorem first_metadata (inside : 0 < v.blocksPerGroup) : Metadata v.toSuperBlock (ext2GroupFirstBlockNo v.toSuperBlock g) := by
  left
  have group := groupOf_add (v := v) (g := g) inside
  rw [Nat.add_zero] at group
  rw [group]

theorem DataBlock.gt_first (data : DataBlock v.toSuperBlock b) : v.firstDataBlock < b := by
  obtain ⟨low, -, free⟩ := data
  rcases Nat.lt_or_eq_of_le low with less | same
  · exact less
  · have first : ext2GroupFirstBlockNo v.toSuperBlock 0 = b := by simp [ext2GroupFirstBlockNo, same]
    exact absurd (first ▸ first_metadata v.perGroup.1) free

/-- The block that `s_sb_block` names is never a data block. -/
theorem DataBlock.ne_sbBlock (data : DataBlock v.toSuperBlock b) : b ≠ sbBlock := by
  rintro rfl
  have above := data.gt_first
  obtain ⟨-, -, free⟩ := data
  have fdb : v.firstDataBlock = 0 := by unfold sbBlock at above; omega
  apply free
  by_cases one : v.blocksPerGroup = 1
  · left
    simp [groupOf, ext2GroupFirstBlockNo, sbBlock, fdb, one]
  · right; left
    have some := v.perGroup.1
    have group : groupOf v.toSuperBlock sbBlock = 0 := by
      unfold groupOf sbBlock
      exact Nat.div_eq_of_lt (by omega)
    have gdb := gdbCount_pos (v := v)
    have one : sbBlock = 1 := rfl
    rw [group]
    simp only [ext2GroupFirstBlockNo, fdb]
    omega

/-- No group boundary lies between two consecutive data blocks. -/
theorem groupOf_succ (low : v.firstDataBlock ≤ b) (data : DataBlock v.toSuperBlock (b + 1)) :
    groupOf v.toSuperBlock (b + 1) = groupOf v.toSuperBlock b ∧
      bitOf v.toSuperBlock (b + 1) = bitOf v.toSuperBlock b + 1 := by
  have known := first_add_bitOf low
  have mod : bitOf v.toSuperBlock b < v.blocksPerGroup := Nat.mod_lt _ v.perGroup.1
  set g := groupOf v.toSuperBlock b
  set bit := bitOf v.toSuperBlock b
  rcases Nat.lt_or_eq_of_le (Nat.succ_le_of_lt mod) with less | boundary
  · rw [← known, Nat.add_assoc]
    exact ⟨groupOf_add less, bitOf_add less⟩
  · have next : ext2GroupFirstBlockNo v.toSuperBlock (g + 1) = b + 1 := by
      unfold ext2GroupFirstBlockNo at *
      rw [Nat.succ_mul]
      omega
    exact absurd (next ▸ first_metadata v.perGroup.1) data.2.2

theorem groupOf_run {n k : Nat} (data : ∀ c, b ≤ c → c < b + n → DataBlock v.toSuperBlock c) (inside : k < n) :
    groupOf v.toSuperBlock (b + k) = groupOf v.toSuperBlock b ∧
      bitOf v.toSuperBlock (b + k) = bitOf v.toSuperBlock b + k := by
  induction k with
  | zero => exact ⟨rfl, rfl⟩
  | succ k ih =>
    obtain ⟨group, bit⟩ := ih (by omega)
    have next := groupOf_succ (data (b + k) (by omega) (by omega)).1 (data (b + k + 1) (by omega) (by omega))
    exact ⟨next.1.trans group, by rw [← Nat.add_assoc, next.2, bit, Nat.add_assoc]⟩

end

/-- One group of 16 blocks of 1 KiB: superblock, descriptors, the bitmaps, one block of inodes, 11 data blocks. -/
def smallVolume : Volume where
  blocksizeBits := 10
  blocksPerGroup := 16
  firstDataBlock := 1
  blocksCount := 17
  itbPerGroup := 1
  bgBlockBitmap _ := 3
  bgInodeBitmap _ := 4
  bgInodeTable _ := 5
  sizes := kibi_sizes
  perGroup := by decide
  blocks := by decide
  blockBitmap := by decide
  inodeBitmap := by decide
  inodeTable := by decide

end OsLab.Ext2
