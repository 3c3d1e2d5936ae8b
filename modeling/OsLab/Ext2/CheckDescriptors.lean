import OsLab.Ext2.DescriptorTable

/-!
# The check of the descriptors

What `ext2_check_descriptors` says about the bitmaps and the inode tables of a volume that
it accepts. It computes the last block of a table in 32 bits.
-/

namespace OsLab.Ext2
open Bytes Bytes.Field

/-- A field of the descriptor of a group. -/
def SbInfo.descField (sbi : SbInfo) (g : Nat) (f : Field) : Nat :=
  ((sbi.getGroupDesc g).map (f.get sbi.dev.bytes)).getD 0

structure MetadataInGroup (sbi : SbInfo) (g : Nat) : Prop where
  blockBitmap : sbi.groupFirstBlockNo g ≤ sbi.descField g bgBlockBitmap ∧
    sbi.descField g bgBlockBitmap ≤ sbi.groupLastBlockNo g
  inodeBitmap : sbi.groupFirstBlockNo g ≤ sbi.descField g bgInodeBitmap ∧
    sbi.descField g bgInodeBitmap ≤ sbi.groupLastBlockNo g
  inodeTable : ∀ k, k < sbi.itbPerGroup → sbi.groupFirstBlockNo g ≤ sbi.descField g bgInodeTable + k ∧
    sbi.descField g bgInodeTable + k ≤ sbi.groupLastBlockNo g

variable {sbi : SbInfo} {g : Nat}

theorem checkDescriptor_true (checked : sbi.checkDescriptor g = true) :
    (sbi.groupFirstBlockNo g ≤ sbi.descField g bgBlockBitmap ∧
        sbi.descField g bgBlockBitmap ≤ sbi.groupLastBlockNo g) ∧
      (sbi.groupFirstBlockNo g ≤ sbi.descField g bgInodeBitmap ∧
        sbi.descField g bgInodeBitmap ≤ sbi.groupLastBlockNo g) ∧
      sbi.groupFirstBlockNo g ≤ sbi.descField g bgInodeTable ∧
      (sbi.descField g bgInodeTable + sbi.itbPerGroup + 2 ^ 64 - 1) % 2 ^ 32 ≤ sbi.groupLastBlockNo g := by
  unfold SbInfo.checkDescriptor at checked
  unfold SbInfo.descField
  cases found : sbi.getGroupDesc g with
  | none => simp [found] at checked
  | some gdp =>
    simp only [found, Bool.and_eq_true, decide_eq_true_eq] at checked
    obtain ⟨⟨⟨⟨⟨blockLow, blockHigh⟩, inodeLow⟩, inodeHigh⟩, low⟩, high⟩ := checked
    exact ⟨⟨blockLow, blockHigh⟩, ⟨inodeLow, inodeHigh⟩, low, high⟩

theorem checkDescriptors_true (checked : sbi.checkDescriptors = true) (inside : g < sbi.groupsCount) :
    sbi.checkDescriptor g = true :=
  List.all_eq_true.mp checked g (List.mem_range.mpr inside)

/-- The last group of an accepted volume starts below 2^32, and the others end before it. -/
theorem groupLastBlockNo_lt (checked : sbi.checkDescriptors = true) (inside : g < sbi.groupsCount) :
    sbi.groupLastBlockNo g < 2 ^ 32 := by
  unfold SbInfo.groupLastBlockNo
  split_ifs with last
  · exact Nat.mod_lt _ (by decide)
  · have final := checkDescriptor_true (checkDescriptors_true checked (show sbi.groupsCount - 1 < sbi.groupsCount by omega))
    have start : sbi.groupFirstBlockNo (sbi.groupsCount - 1) < 2 ^ 32 := by
      apply Nat.lt_of_le_of_lt (final.1.1.trans final.1.2)
      unfold SbInfo.groupLastBlockNo
      rw [if_pos rfl]
      exact Nat.mod_lt _ (by decide)
    have behind : (g + 1) * sbi.blocksPerGroup ≤ (sbi.groupsCount - 1) * sbi.blocksPerGroup :=
      Nat.mul_le_mul_right _ (by omega)
    unfold SbInfo.groupFirstBlockNo at start ⊢
    rw [Nat.succ_mul] at behind
    omega

/-- In a volume that the check accepts a table lies in its group unless its end wraps around. -/
theorem metadata_in_group_iff (checked : sbi.checkDescriptors = true) (nonempty : 1 ≤ sbi.itbPerGroup)
    (inside : g < sbi.groupsCount) :
    MetadataInGroup sbi g ↔ sbi.descField g bgInodeTable + sbi.itbPerGroup ≤ 2 ^ 32 := by
  obtain ⟨block, inode, low, high⟩ := checkDescriptor_true (checkDescriptors_true checked inside)
  have last := groupLastBlockNo_lt checked inside
  constructor
  · rintro ⟨-, -, table⟩
    have final := (table (sbi.itbPerGroup - 1) (by omega)).2
    omega
  · intro fits
    refine ⟨block, inode, fun k bound => ?_⟩
    omega

theorem checked_descriptors_iff (checked : sbi.checkDescriptors = true) (nonempty : 1 ≤ sbi.itbPerGroup) :
    (∀ g, g < sbi.groupsCount → MetadataInGroup sbi g) ↔
      ∀ g, g < sbi.groupsCount → sbi.descField g bgInodeTable + sbi.itbPerGroup ≤ 2 ^ 32 :=
  forall_congr' fun _ => imp_congr_right fun inside => metadata_in_group_iff checked nonempty inside

/-! ### A table that wraps around -/

def pairSuperWord : Nat → Nat
  | 0 => 32
  | 1 => 33
  | 5 => 1
  | 8 => 16
  | 10 => 16
  | 14 => superMagic + 2 ^ 16
  | 15 => 1
  | _ => 0

/-- Two groups of 16 blocks of 1024 bytes and of 16 inodes; `table` is the inode table of the second. -/
def pairWord (table w : Nat) : Nat :=
  if w < 256 then 0
  else if w < 512 then pairSuperWord (w - 256)
  else if w < 520 then descriptorWord 0 (w % 8)
  else if w = 522 then table
  else if w < 528 then descriptorWord 1 (w % 8)
  else if 1568 ≤ w ∧ w < 1600 then rootWord (w - 1568)
  else 0

def groupPair (table : Nat) : Device where
  bytes k := UInt8.ofNat (pairWord table (k / 4) >>> (8 * (k % 4)))
  logicalBlockSize := 512
  readable _ _ := true
  allocates _ := true

theorem groupPair_mounts (table : Nat) (either : table = 2 ^ 32 - 1 ∨ table = 22) :
    ∃ sbi, ext2FillSuper (groupPair table) [] (fun _ => 0) = some (.ok sbi) ∧ sbi.checkDescriptors = true ∧
      sbi.groupsCount = 2 ∧ sbi.itbPerGroup = 2 ∧ sbi.descField 0 bgInodeTable = 6 ∧
      sbi.descField 1 bgInodeTable = table := by
  obtain ⟨sbi, mounted, checked⟩ := @of_mountsWith (fun sbi => decide (sbi.checkDescriptors = true ∧
      sbi.groupsCount = 2 ∧ sbi.itbPerGroup = 2 ∧ sbi.descField 0 bgInodeTable = 6 ∧
      sbi.descField 1 bgInodeTable = table))
    (ext2FillSuper (groupPair table) [] fun _ => 0) (by rcases either with rfl | rfl <;> decide +kernel)
  exact ⟨sbi, mounted, of_decide_eq_true checked⟩

/-- The second table starts at the last block of all, and its end is block 0. -/
theorem wrapped_table_accepted :
    ¬ ∀ (dev : Device) (options : List MountToken) (slab : Image) (sbi : SbInfo),
      ext2FillSuper dev options slab = some (.ok sbi) → sbi.checkDescriptors = true → 1 ≤ sbi.itbPerGroup →
      ∀ g, g < sbi.groupsCount → MetadataInGroup sbi g := by
  intro all
  obtain ⟨sbi, mounted, checked, groups, itb, -, table⟩ := groupPair_mounts (2 ^ 32 - 1) (Or.inl rfl)
  have inside := all _ _ _ sbi mounted checked (by omega) 1 (by omega)
  have fits := (metadata_in_group_iff checked (by omega) (by omega)).mp inside
  omega

theorem checked_descriptors_pair :
    ∃ sbi, ext2FillSuper (groupPair 22) [] (fun _ => 0) = some (.ok sbi) ∧
      ∀ g, g < sbi.groupsCount → MetadataInGroup sbi g := by
  obtain ⟨sbi, mounted, checked, groups, itb, first, second⟩ := groupPair_mounts 22 (Or.inr rfl)
  refine ⟨sbi, mounted, (checked_descriptors_iff checked (by omega)).mpr fun g inside => ?_⟩
  obtain rfl | rfl : g = 0 ∨ g = 1 := by omega
  · omega
  · omega

end OsLab.Ext2
