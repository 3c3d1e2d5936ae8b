import OsLab.Ext2.CheckDescriptors
import OsLab.Ext2.InodeReload

/-!
# Slots of inodes

Where `ext2_get_inode` finds the inodes of a volume that `ext2_fill_super` accepts. The number of
blocks of an inode table is rounded down, so the last inodes of a group can lie behind its table.
-/

namespace OsLab.Ext2
open Bytes Bytes.Field

/-! ### Records of one size in blocks -/

theorem record_in_block {perBlock size k i : Nat} (some : 0 < size) :
    k * (perBlock * size) ≤ i * size ∧ i * size + size ≤ (k + 1) * (perBlock * size) ↔
      k * perBlock ≤ i ∧ i < (k + 1) * perBlock := by
  rw [← Nat.mul_assoc, ← Nat.mul_assoc, ← Nat.succ_mul, Nat.mul_le_mul_right_iff some, Nat.mul_le_mul_right_iff some,
    Nat.succ_le_iff]

theorem record_block_iff {perBlock blocks size i : Nat} (some : 0 < size) (positive : 0 < perBlock) :
    (∃ k < blocks, k * (perBlock * size) ≤ i * size ∧ i * size + size ≤ (k + 1) * (perBlock * size)) ↔
      i < blocks * perBlock := by
  constructor
  · rintro ⟨k, before, place⟩
    obtain ⟨-, high⟩ := (record_in_block some).mp place
    exact Nat.lt_of_lt_of_le high (Nat.mul_le_mul_right perBlock before)
  · intro early
    refine ⟨i / perBlock, (Nat.div_lt_iff_lt_mul positive).mpr early, (record_in_block some).mpr ⟨?_, ?_⟩⟩
    · exact Nat.div_mul_le_self i perBlock
    · exact Nat.lt_mul_of_div_lt (Nat.lt_succ_self _) positive

theorem records_apart_iff {base size i j : Nat} (some : 0 < size) :
    base + i * size + size ≤ base + j * size ∨ base + j * size + size ≤ base + i * size ↔ i ≠ j := by
  have sides : ∀ i j : Nat, base + i * size + size ≤ base + j * size ↔ i < j := by
    intro i j
    rw [Nat.add_assoc, Nat.add_le_add_iff_left, ← Nat.succ_mul, Nat.mul_le_mul_right_iff some, Nat.succ_le_iff]
  rw [sides, sides, lt_or_lt_iff_ne]

/-! ### What an accepted volume has -/

/-- A block holds a whole number of inodes. -/
structure InodesFit (sbi : SbInfo) : Prop where
  size : 0 < sbi.inodeSize
  block : sbi.blocksize = sbi.inodesPerBlock * sbi.inodeSize
  perBlock : 0 < sbi.inodesPerBlock
  table : sbi.itbPerGroup = sbi.inodesPerGroup / sbi.inodesPerBlock

theorem isPowerOfTwo_exists {n : Nat} (power : isPowerOfTwo n = true) : ∃ k, n = 2 ^ k := by
  unfold isPowerOfTwo at power
  simp only [Bool.and_eq_true, beq_iff_eq] at power
  exact ⟨n.log2, power.2.symm⟩

theorem dvd_blocksize {blocksize inodeSize : Nat} (block : blocksize = 1024 ∨ blocksize = 2048 ∨ blocksize = 4096)
    (size : inodeSize = 128 ∨ isPowerOfTwo inodeSize = true ∧ inodeSize ≤ blocksize) : inodeSize ∣ blocksize := by
  obtain ⟨b, rfl⟩ : ∃ b, blocksize = 2 ^ b := by
    rcases block with rfl | rfl | rfl
    · exact ⟨10, rfl⟩
    · exact ⟨11, rfl⟩
    · exact ⟨12, rfl⟩
  rcases size with rfl | ⟨power, small⟩
  · rcases block with same | same | same <;> rw [same] <;> decide
  · obtain ⟨k, rfl⟩ := isPowerOfTwo_exists power
    exact Nat.pow_dvd_pow 2 ((Nat.pow_le_pow_iff_right (by decide)).mp small)

theorem readSizes_inodes {dev : Device} {blocksize es : Nat} {opt : MountOpt} {sbi : SbInfo}
    (block : blocksize = 1024 ∨ blocksize = 2048 ∨ blocksize = 4096)
    (read : readSizes dev blocksize es opt = .ok sbi) : InodesFit sbi := by
  unfold readSizes at read
  obtain ⟨checked, read⟩ := ensure_bind_ok read
  obtain ⟨nonzero, read⟩ := ensure_bind_ok read
  obtain ⟨-, read⟩ := ensure_bind_ok read
  obtain ⟨-, read⟩ := ensure_bind_ok read
  obtain ⟨-, read⟩ := ensure_bind_ok read
  obtain rfl := Except.ok.inj read
  simp only [Bool.and_eq_true, decide_eq_true_eq] at nonzero
  have divides := @dvd_blocksize blocksize (if sRevLevel.get dev.bytes es == 0 then 128 else sInodeSize.get dev.bytes es)
    block (by
      by_cases old : (sRevLevel.get dev.bytes es == 0) = true
      · exact Or.inl (if_pos old)
      · rw [if_neg old]
        simp only [old, Bool.false_or, Bool.and_eq_true, decide_eq_true_eq, Bool.false_eq_true, if_false] at checked
        exact Or.inr ⟨checked.1.2, checked.2⟩)
  exact ⟨Nat.pos_of_dvd_of_pos divides (by omega), (Nat.div_mul_cancel divides).symm, Nat.pos_of_ne_zero nonzero.1, rfl⟩

theorem Loaded.inodesFit {dev : Device} {options : List MountToken} {sbi : SbInfo} (loaded : Loaded dev options sbi) :
    InodesFit sbi := by
  obtain ⟨blocksize, es, opt, found, read⟩ := loaded
  obtain ⟨sizes, sized, descs⟩ := bind_ok read
  have fit := readSizes_inodes (findSuper_block found) sized
  obtain rfl := readDescriptors_ok descs
  exact ⟨fit.size, fit.block, fit.perBlock, fit.table⟩

/-! ### Two inodes -/

/-- The group that `ext2_get_group_desc` gets. -/
def slotGroup (inodesPerGroup ino : Nat) : Nat := (ino + 2 ^ 64 - 1) % 2 ^ 64 / inodesPerGroup % 2 ^ 32

def slotIndex (inodesPerGroup ino : Nat) : Nat := (ino + 2 ^ 64 - 1) % 2 ^ 64 % inodesPerGroup

/-- The bytes of an inode lie in one block, and this block is of the inode table of the group. -/
def InTable (sbi : SbInfo) (g raw : Nat) : Prop :=
  ∃ k < sbi.itbPerGroup, (sbi.descField g bgInodeTable + k) * sbi.blocksize ≤ raw ∧
    raw + sbi.inodeSize ≤ (sbi.descField g bgInodeTable + k + 1) * sbi.blocksize

structure SeparateSlots (sbi : SbInfo) (ino ino' raw raw' : Nat) : Prop where
  first : InTable sbi (slotGroup sbi.inodesPerGroup ino) raw
  second : InTable sbi (slotGroup sbi.inodesPerGroup ino') raw'
  apart : raw + sbi.inodeSize ≤ raw' ∨ raw' + sbi.inodeSize ≤ raw

variable {sbi : SbInfo} {readable readable' : Nat → Bool} {ino ino' raw raw' : Nat}

theorem Accepted.bits_block (accepted : Accepted sbi) : 2 ^ sbi.inodeTable.blocksizeBits = sbi.blocksize := by
  show 2 ^ sbi.blocksize.log2 = sbi.blocksize
  rcases accepted.block with size | size | size <;> rw [size] <;> decide

/-- A number that is accepted has 32 bits, and its slot is the record of its index. -/
theorem getInode_place (accepted : Accepted sbi) (found : ext2GetInode sbi.inodeTable readable ino = .ok raw) :
    ino < 2 ^ 32 ∧ slotGroup sbi.inodesPerGroup ino < sbi.groupsCount ∧
      raw = sbi.descField (slotGroup sbi.inodesPerGroup ino) bgInodeTable * sbi.blocksize +
        slotIndex sbi.inodesPerGroup ino * sbi.inodeSize := by
  obtain ⟨inside, place⟩ := ext2GetInode_slot found
  rw [accepted.bits_block] at place
  refine ⟨?_, inside, place⟩
  unfold ext2GetInode at found
  split_ifs at found with numbers
  have small : sbi.inodeTable.inodesCount < 2 ^ 32 := get_lt
  omega

theorem inTable_iff (fit : InodesFit sbi) {g i : Nat} :
    InTable sbi g (sbi.descField g bgInodeTable * sbi.blocksize + i * sbi.inodeSize) ↔
      i < sbi.inodesPerGroup / sbi.inodesPerBlock * sbi.inodesPerBlock := by
  have same := @record_block_iff sbi.inodesPerBlock sbi.itbPerGroup sbi.inodeSize i fit.size fit.perBlock
  rw [← fit.block, fit.table] at same
  rw [← same]
  unfold InTable
  simp only [fit.table, Nat.add_assoc _ _ 1, Nat.add_mul (sbi.descField g bgInodeTable), Nat.add_assoc _ (i * _),
    Nat.add_le_add_iff_left]

theorem table_before (accepted : Accepted sbi) (metadata : ∀ g < sbi.groupsCount, MetadataInGroup sbi g) {g g' k : Nat}
    (before : g < g') (inside : g' < sbi.groupsCount) (row : k < sbi.itbPerGroup) :
    sbi.descField g bgInodeTable + k + 1 ≤ sbi.descField g' bgInodeTable := by
  have last := ((metadata g (by omega)).inodeTable k row).2
  have first := ((metadata g' inside).inodeTable 0 (by omega)).1
  have next : (g + 1) * sbi.blocksPerGroup ≤ g' * sbi.blocksPerGroup := Nat.mul_le_mul_right _ before
  have some := accepted.perGroup
  unfold SbInfo.groupLastBlockNo at last
  rw [if_neg (by omega)] at last
  unfold SbInfo.groupFirstBlockNo at last first
  rw [Nat.succ_mul] at next
  omega

theorem tables_apart (accepted : Accepted sbi) (metadata : ∀ g < sbi.groupsCount, MetadataInGroup sbi g) {g g' : Nat}
    (before : g < g') (inside : g' < sbi.groupsCount) (first : InTable sbi g raw) (second : InTable sbi g' raw') :
    raw + sbi.inodeSize ≤ raw' := by
  obtain ⟨k, row, -, high⟩ := first
  obtain ⟨k', -, low, -⟩ := second
  calc raw + sbi.inodeSize ≤ (sbi.descField g bgInodeTable + k + 1) * sbi.blocksize := high
    _ ≤ (sbi.descField g' bgInodeTable + k') * sbi.blocksize :=
      Nat.mul_le_mul_right _ (Nat.le_add_right_of_le (table_before accepted metadata before inside row))
    _ ≤ raw' := low

theorem slot_ne {inodesPerGroup : Nat} (positive : 0 < ino ∧ 0 < ino') (small : ino < 2 ^ 32 ∧ ino' < 2 ^ 32)
    (distinct : ino ≠ ino') :
    slotGroup inodesPerGroup ino ≠ slotGroup inodesPerGroup ino' ∨
      slotIndex inodesPerGroup ino ≠ slotIndex inodesPerGroup ino' := by
  by_contra same
  simp only [not_or, not_not] at same
  obtain ⟨group, index⟩ := same
  unfold slotGroup at group
  unfold slotIndex at index
  rw [show (ino + 2 ^ 64 - 1) % 2 ^ 64 = ino - 1 by omega, show (ino' + 2 ^ 64 - 1) % 2 ^ 64 = ino' - 1 by omega] at group index
  rw [Nat.mod_eq_of_lt (Nat.lt_of_le_of_lt (Nat.div_le_self _ _) (by omega)),
    Nat.mod_eq_of_lt (Nat.lt_of_le_of_lt (Nat.div_le_self _ _) (by omega))] at group
  have first := Nat.div_add_mod (ino - 1) inodesPerGroup
  have second := Nat.div_add_mod (ino' - 1) inodesPerGroup
  rw [group, index] at first
  omega

/-- Two inodes have what they should have unless the slot of one lies behind the whole blocks of its
table. The number 0 is accepted where `s_first_ino` is 0, and its slot may be that of another number. -/
theorem slots_separate_iff {dev : Device} {options : List MountToken} (loaded : Loaded dev options sbi)
    (metadata : ∀ g < sbi.groupsCount, MetadataInGroup sbi g)
    (found : ext2GetInode sbi.inodeTable readable ino = .ok raw)
    (found' : ext2GetInode sbi.inodeTable readable' ino' = .ok raw') (distinct : ino ≠ ino') :
    SeparateSlots sbi ino ino' raw raw' ↔
      slotIndex sbi.inodesPerGroup ino < sbi.inodesPerGroup / sbi.inodesPerBlock * sbi.inodesPerBlock ∧
        slotIndex sbi.inodesPerGroup ino' < sbi.inodesPerGroup / sbi.inodesPerBlock * sbi.inodesPerBlock ∧
        (ino = 0 ∨ ino' = 0 → slotGroup sbi.inodesPerGroup ino ≠ slotGroup sbi.inodesPerGroup ino' ∨
          slotIndex sbi.inodesPerGroup ino ≠ slotIndex sbi.inodesPerGroup ino') := by
  have accepted := loaded.accepted
  have fit := loaded.inodesFit
  obtain ⟨small, inside, rfl⟩ := getInode_place accepted found
  obtain ⟨small', inside', rfl⟩ := getInode_place accepted found'
  constructor
  · rintro ⟨first, second, apart⟩
    refine ⟨(inTable_iff fit).mp first, (inTable_iff fit).mp second, fun _ => ?_⟩
    by_contra same
    simp only [not_or, not_not] at same
    rw [same.1, same.2] at apart
    have size := fit.size
    omega
  · rintro ⟨first, second, zero⟩
    have different : slotGroup sbi.inodesPerGroup ino ≠ slotGroup sbi.inodesPerGroup ino' ∨
        slotIndex sbi.inodesPerGroup ino ≠ slotIndex sbi.inodesPerGroup ino' := by
      by_cases none : ino = 0 ∨ ino' = 0
      · exact zero none
      · exact slot_ne (by omega) ⟨small, small'⟩ distinct
    have first := (inTable_iff (g := slotGroup sbi.inodesPerGroup ino) fit).mpr first
    have second := (inTable_iff (g := slotGroup sbi.inodesPerGroup ino') fit).mpr second
    refine ⟨first, second, ?_⟩
    rcases Nat.lt_trichotomy (slotGroup sbi.inodesPerGroup ino) (slotGroup sbi.inodesPerGroup ino') with
      before | same | behind
    · exact Or.inl (tables_apart accepted metadata before inside' first second)
    · rw [same]
      exact (records_apart_iff fit.size).mpr (different.resolve_left fun other => other same)
    · exact Or.inr (tables_apart accepted metadata behind inside second first)

/-! ### A table that is too short -/

def shortSuperWord (w : Nat) : Nat :=
  if w = 256 then 24
  else if w = 266 then 12
  else pairWord 22 w

/-- Two groups of 12 inodes, 8 of which fill a block. -/
def shortTables : Device where
  bytes k := UInt8.ofNat (shortSuperWord (k / 4) >>> (8 * (k % 4)))
  logicalBlockSize := 512
  readable _ _ := true
  allocates _ := true

theorem shortTables_mounts :
    ∃ sbi, ext2FillSuper shortTables [] (fun _ => 0) = some (.ok sbi) ∧ (∀ g < sbi.groupsCount, MetadataInGroup sbi g) ∧
      sbi.inodesPerGroup = 12 ∧ sbi.inodesPerBlock = 8 ∧
      ext2GetInode sbi.inodeTable (fun _ => true) 2 = .ok 6272 ∧
      ext2GetInode sbi.inodeTable (fun _ => true) 12 = .ok 7552 ∧
      ext2GetInode sbi.inodeTable (fun _ => true) 13 = .ok 22528 := by
  obtain ⟨sbi, mounted, checked⟩ := @of_mountsWith (fun sbi => decide (sbi.checkDescriptors = true ∧
      sbi.groupsCount = 2 ∧ sbi.itbPerGroup = 1 ∧ sbi.descField 0 bgInodeTable = 6 ∧
      sbi.descField 1 bgInodeTable = 22 ∧ sbi.inodesPerGroup = 12 ∧ sbi.inodesPerBlock = 8 ∧
      ext2GetInode sbi.inodeTable (fun _ => true) 2 = .ok 6272 ∧
      ext2GetInode sbi.inodeTable (fun _ => true) 12 = .ok 7552 ∧
      ext2GetInode sbi.inodeTable (fun _ => true) 13 = .ok 22528))
    (ext2FillSuper shortTables [] fun _ => 0) (by decide +kernel)
  obtain ⟨descriptors, groups, itb, first, second, rest⟩ := of_decide_eq_true checked
  refine ⟨sbi, mounted, fun g inside => (metadata_in_group_iff descriptors (by omega) inside).mpr ?_, rest⟩
  obtain rfl | rfl : g = 0 ∨ g = 1 := by omega
  · omega
  · omega

theorem slots_separate_iff_groups :
    ∃ sbi, ext2FillSuper shortTables [] (fun _ => 0) = some (.ok sbi) ∧
      (SeparateSlots sbi 2 13 6272 22528 ↔
        slotIndex sbi.inodesPerGroup 2 < sbi.inodesPerGroup / sbi.inodesPerBlock * sbi.inodesPerBlock ∧
          slotIndex sbi.inodesPerGroup 13 < sbi.inodesPerGroup / sbi.inodesPerBlock * sbi.inodesPerBlock ∧
          (2 = 0 ∨ 13 = 0 → slotGroup sbi.inodesPerGroup 2 ≠ slotGroup sbi.inodesPerGroup 13 ∨
            slotIndex sbi.inodesPerGroup 2 ≠ slotIndex sbi.inodesPerGroup 13)) := by
  obtain ⟨sbi, mounted, metadata, -, -, first, -, second⟩ := shortTables_mounts
  exact ⟨sbi, mounted, slots_separate_iff (fillSuper_loaded mounted) metadata first second (by decide)⟩

/-- Inode 12 lies in the block behind the table of its group. -/
theorem slot_behind_table :
    ¬ ∀ (dev : Device) (options : List MountToken) (sbi : SbInfo), Loaded dev options sbi →
      (∀ g < sbi.groupsCount, MetadataInGroup sbi g) →
      ∀ (readable : Nat → Bool) (ino ino' raw raw' : Nat), ext2GetInode sbi.inodeTable readable ino = .ok raw →
      ext2GetInode sbi.inodeTable readable ino' = .ok raw' → ino ≠ ino' → SeparateSlots sbi ino ino' raw raw' := by
  intro all
  obtain ⟨sbi, mounted, metadata, perGroup, perBlock, first, second, -⟩ := shortTables_mounts
  have inside := (all _ _ sbi (fillSuper_loaded mounted) metadata _ 2 12 _ _ first second (by decide)).second
  obtain ⟨-, -, place⟩ := getInode_place (fillSuper_accepted mounted) second
  rw [place] at inside
  have early := (inTable_iff (fillSuper_loaded mounted).inodesFit).mp inside
  rw [perGroup, perBlock] at early
  exact absurd early (by decide)

end OsLab.Ext2
