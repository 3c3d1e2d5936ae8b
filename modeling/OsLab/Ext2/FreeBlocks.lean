import OsLab.Ext2.BallocCalls

/-!
# Which blocks a call frees

`ext2_free_blocks` on any run of blocks that it accepts, also one that reaches past the end of
its group, and the runs that `ext2_data_blocks_valid_bg` lets through.
-/

namespace OsLab.Ext2
open Bitmap

variable {ι : Type} {v : Volume} {bh : BhRead} {i : ι} {block count : Nat} {s : BlockState ι}

/-! ### An accepted call -/

/-- The loop of `ext2_free_blocks`, with the bits that it hands to `ext2_clear_bit_atomic`. -/
def clearLoop (bits : Bits) (bit : Nat) : Nat → Bits × Nat × List Nat
  | 0 => (bits, 0, [])
  | n + 1 =>
    let (bits, freed, accessed) := clearLoop bits bit n
    (Function.update bits (bit + n) false, if bits (bit + n) then freed + 1 else freed, accessed ++ [bit + n])

theorem clearLoop_eq (bits : Bits) (bit n : Nat) :
    clearLoop bits bit n = ((clearRun bits bit n).1, (clearRun bits bit n).2, List.range' bit n) := by
  induction n with
  | zero => rfl
  | succ n ih => simp only [clearLoop, ih, clearRun, List.range'_1_concat]

def AcceptsFree (sb : SuperBlock) (bh : BhRead) (block count : Nat) (s : BlockState ι) : Prop :=
  acceptsFree sb (groupOf sb block) block count (ext2ReadBlockBitmap sb bh s (groupOf sb block)).isSome = true

instance (sb : SuperBlock) (bh : BhRead) (block count : Nat) (s : BlockState ι) :
    Decidable (AcceptsFree sb bh block count s) :=
  inferInstanceAs (Decidable (_ = true))

theorem freeBlocks_accepted [DecidableEq ι] (accepted : AcceptsFree v.toSuperBlock bh block count s)
    (small : s.bgFreeBlocksCount (groupOf v.toSuperBlock block) < 2 ^ 16) :
    (ext2FreeBlocks v.toSuperBlock bh i block count s).bitmap =
        Function.update s.bitmap (groupOf v.toSuperBlock block)
          (fill (s.bitmap (groupOf v.toSuperBlock block)) (bitOf v.toSuperBlock block) count false) ∧
      (ext2FreeBlocks v.toSuperBlock bh i block count s).bgFreeBlocksCount =
        Function.update s.bgFreeBlocksCount (groupOf v.toSuperBlock block)
          ((s.bgFreeBlocksCount (groupOf v.toSuperBlock block) +
            runCount (s.bitmap (groupOf v.toSuperBlock block)) (bitOf v.toSuperBlock block) count) % 2 ^ 16) := by
  unfold AcceptsFree acceptsFree at accepted
  simp only [Bool.and_eq_true, Option.isSome_iff_exists] at accepted
  obtain ⟨⟨valid, bData, read⟩, validBg⟩ := accepted
  obtain ⟨rfl, inside⟩ := readBlockBitmap_some read
  have group : (block - v.firstDataBlock) / v.blocksPerGroup = groupOf v.toSuperBlock block := rfl
  have bit : (block - v.firstDataBlock) % v.blocksPerGroup = bitOf v.toSuperBlock block := rfl
  unfold ext2FreeBlocks
  simp only [group, bit, valid, if_true, read, getGroupDesc_inside inside, validBg, clearRun_eq]
  generalize runCount (s.bitmap (groupOf v.toSuperBlock block)) (bitOf v.toSuperBlock block) count = freed
  by_cases none : freed = 0
  · subst none
    simp only [groupUpdateFreeBlocks, Nat.cast_zero, if_true, ne_eq, not_true_eq_false, if_false, Nat.add_zero,
      Nat.mod_eq_of_lt small, Function.update_eq_self, and_self]
  · have some : (freed : Int) ≠ 0 := by omega
    simp only [groupUpdateFreeBlocks, some, none, if_false, ne_eq, not_false_eq_true, if_true, true_and]
    congr 1

theorem dataBlocksValid_true {sb : SuperBlock} {n : Nat} (few : n < 2 ^ 32) (blocks : sb.blocksCount < 2 ^ 32)
    (valid : ext2DataBlocksValid sb block n = true) :
    0 < n ∧ sb.firstDataBlock < block ∧ block + n ≤ sb.blocksCount := by
  simp only [ext2DataBlocksValid, Bool.if_false_left, Bool.and_true, Bool.and_eq_true, Bool.not_eq_true',
    decide_eq_false_iff_not] at valid
  obtain ⟨ordered, first, last, -⟩ := valid
  have some : 0 < n := by
    by_contra none
    obtain rfl : n = 0 := by omega
    unfold endBlk at ordered last
    omega
  have ends := @endBlk_eq block n some
  unfold endBlk at *
  omega

/-! ### The blocks of the run -/

/-- What a call frees is the run: no bit of another block, none behind the end of the group, all of the
run, and as many as the count of the group grows by. -/
structure FreesRun (sb : SuperBlock) (block count : Nat) (s t : BlockState ι) : Prop where
  cleared : ∀ g k, s.bitmap g k = true → t.bitmap g k = false →
    ∃ b, block ≤ b ∧ b < block + count ∧ groupOf sb b = g ∧ bitOf sb b = k
  inside : ∀ k, k ∈ (clearLoop (s.bitmap (groupOf sb block)) (bitOf sb block) count).2.2 →
    k < nblocks sb (groupOf sb block)
  freed : ∀ b, block ≤ b → b < block + count → s.bitmap (groupOf sb b) (bitOf sb b) = true →
    t.bitmap (groupOf sb b) (bitOf sb b) = false
  counts : ∀ g, t.bgFreeBlocksCount g = s.bgFreeBlocksCount g +
    ((Finset.range count).filter fun k => groupOf sb (block + k) = g ∧ s.bitmap g (bitOf sb (block + k)) = true ∧
      t.bitmap g (bitOf sb (block + k)) = false).card

theorem run_bit {k : Nat} (low : v.firstDataBlock ≤ block) (bound : bitOf v.toSuperBlock block + k < v.blocksPerGroup) :
    groupOf v.toSuperBlock (block + k) = groupOf v.toSuperBlock block ∧
      bitOf v.toSuperBlock (block + k) = bitOf v.toSuperBlock block + k := by
  have start : block + k =
      ext2GroupFirstBlockNo v.toSuperBlock (groupOf v.toSuperBlock block) + (bitOf v.toSuperBlock block + k) := by
    rw [← Nat.add_assoc, first_add_bitOf low]
  rw [start]
  exact ⟨groupOf_add bound, bitOf_add bound⟩

theorem freed_card {t : BlockState ι} (low : v.firstDataBlock ≤ block)
    (fits : bitOf v.toSuperBlock block + count ≤ v.blocksPerGroup)
    (bitmap : t.bitmap = Function.update s.bitmap (groupOf v.toSuperBlock block)
      (fill (s.bitmap (groupOf v.toSuperBlock block)) (bitOf v.toSuperBlock block) count false)) (g : Nat) :
    ((Finset.range count).filter fun k => groupOf v.toSuperBlock (block + k) = g ∧
        s.bitmap g (bitOf v.toSuperBlock (block + k)) = true ∧ t.bitmap g (bitOf v.toSuperBlock (block + k)) = false).card =
      if g = groupOf v.toSuperBlock block then
        runCount (s.bitmap (groupOf v.toSuperBlock block)) (bitOf v.toSuperBlock block) count
      else 0 := by
  split_ifs with here
  · subst here
    unfold runCount
    congr 1
    apply Finset.filter_congr
    intro k inside
    have bound := Finset.mem_range.mp inside
    obtain ⟨group, bit⟩ := run_bit (k := k) low (by omega)
    have clear : t.bitmap (groupOf v.toSuperBlock block) (bitOf v.toSuperBlock block + k) = false := by
      rw [bitmap, Function.update_self]
      exact fill_inside false (by omega) (by omega)
    simp only [group, bit, clear, true_and, and_true]
  · rw [Finset.card_eq_zero, Finset.filter_eq_empty_iff]
    rintro k inside ⟨group, -⟩
    have bound := Finset.mem_range.mp inside
    rw [(run_bit low (by omega)).1] at group
    exact here group.symm

/-- The run is freed, and nothing else, when it ends in the group where it starts and the 16 bits of the
count hold the sum. -/
theorem frees_run_iff [DecidableEq ι] (accepted : AcceptsFree v.toSuperBlock bh block count s)
    (small : s.bgFreeBlocksCount (groupOf v.toSuperBlock block) < 2 ^ 16) :
    FreesRun v.toSuperBlock block count s (ext2FreeBlocks v.toSuperBlock bh i block count s) ↔
      bitOf v.toSuperBlock block + count ≤ nblocks v.toSuperBlock (groupOf v.toSuperBlock block) ∧
        s.bgFreeBlocksCount (groupOf v.toSuperBlock block) +
          runCount (s.bitmap (groupOf v.toSuperBlock block)) (bitOf v.toSuperBlock block) count < 2 ^ 16 := by
  obtain ⟨bitmap, counts⟩ := freeBlocks_accepted (i := i) accepted small
  unfold AcceptsFree acceptsFree at accepted
  simp only [Bool.and_eq_true] at accepted
  obtain ⟨some, low, -⟩ := dataBlocksValid_true (Nat.mod_lt _ (by decide)) v.blocks.2 accepted.1.1
  have inside : groupOf v.toSuperBlock block < groupsCount v.toSuperBlock := by
    obtain ⟨bData, read⟩ := Option.isSome_iff_exists.mp accepted.1.2
    exact (readBlockBitmap_some read).2
  have size := nblocks_le inside
  have positive : 0 < count := Nat.pos_of_ne_zero fun zero => by simp [zero] at some
  generalize ext2FreeBlocks v.toSuperBlock bh i block count s = t at bitmap counts ⊢
  constructor
  · intro frees
    have fits : bitOf v.toSuperBlock block + count ≤ nblocks v.toSuperBlock (groupOf v.toSuperBlock block) := by
      have last := frees.inside (bitOf v.toSuperBlock block + (count - 1)) (by
        rw [clearLoop_eq, List.mem_range'_1]
        omega)
      omega
    have grown := frees.counts (groupOf v.toSuperBlock block)
    rw [freed_card (by omega) (by omega) bitmap, if_pos rfl, counts, Function.update_self] at grown
    have wraps := Nat.mod_lt (s.bgFreeBlocksCount (groupOf v.toSuperBlock block) +
      runCount (s.bitmap (groupOf v.toSuperBlock block)) (bitOf v.toSuperBlock block) count) (show 0 < 2 ^ 16 by decide)
    exact ⟨fits, by omega⟩
  · rintro ⟨fits, sum⟩
    constructor
    · intro g k set clear
      rw [bitmap] at clear
      by_cases group : g = groupOf v.toSuperBlock block
      · subst group
        rw [Function.update_self] at clear
        have run : bitOf v.toSuperBlock block ≤ k ∧ k < bitOf v.toSuperBlock block + count := by
          by_contra outside
          rw [fill_outside false (by omega), set] at clear
          cases clear
        obtain ⟨same, bit⟩ := @run_bit v block (k - bitOf v.toSuperBlock block) (by omega) (by omega)
        exact ⟨_, by omega, by omega, same, by omega⟩
      · rw [Function.update_of_ne group, set] at clear
        cases clear
    · intro k accessed
      rw [clearLoop_eq, List.mem_range'_1] at accessed
      omega
    · intro b first last set
      obtain ⟨same, bit⟩ := @run_bit v block (b - block) (by omega) (by omega)
      rw [Nat.add_sub_cancel' first] at same bit
      rw [bitmap, same, bit, Function.update_self]
      exact fill_inside false (by omega) (by omega)
    · intro g
      rw [freed_card (by omega) (by omega) bitmap, counts]
      by_cases group : g = groupOf v.toSuperBlock block
      · subst group
        rw [Function.update_self, if_pos rfl, Nat.mod_eq_of_lt sum]
      · rw [Function.update_of_ne group, if_neg group, Nat.add_zero]

def nothingFree : BlockState Unit where
  bitmap _ _ := true
  bgFreeBlocksCount _ := 0
  sFreeblocksCounter := 0
  inodes _ := ⟨.reg, 0, fun _ => 0, 0⟩

/-- The last block of the first group, and the first one of the next. -/
theorem run_over_two_groups :
    ¬ ∀ (v : Volume) (bh : BhRead) (i : Unit) (block count : Nat) (s : BlockState Unit),
      AcceptsFree v.toSuperBlock bh block count s → s.bgFreeBlocksCount (groupOf v.toSuperBlock block) < 2 ^ 16 →
      FreesRun v.toSuperBlock block count s (ext2FreeBlocks v.toSuperBlock bh i block count s) := by
  intro all
  have frees := all twoGroups .read () 16 2 nothingFree (by decide) (by decide)
  exact absurd (frees.inside 16 (by decide)) (by decide)

theorem frees_two_blocks :
    FreesRun twoGroups.toSuperBlock 10 2 nothingFree
      (ext2FreeBlocks twoGroups.toSuperBlock .read () 10 2 nothingFree) :=
  (frees_run_iff (by decide) (by decide)).mpr ⟨by decide, by decide⟩

/-! ### The blocks of the system -/

def SystemBlock (sb : SuperBlock) (desc b : Nat) : Prop :=
  b = sb.bgBlockBitmap desc ∨ b = sb.bgInodeBitmap desc ∨
    (sb.bgInodeTable desc ≤ b ∧ b < sb.bgInodeTable desc + sb.itbPerGroup)

def FreedBlock (sb : SuperBlock) (s t : BlockState ι) (b : Nat) : Prop :=
  s.bitmap (groupOf sb b) (bitOf sb b) = true ∧ t.bitmap (groupOf sb b) (bitOf sb b) = false

/-- No block of the run is one of the system, and so none of them is freed. -/
def SparesSystem (ι : Type) [DecidableEq ι] (sb : SuperBlock) (desc startBlk count : Nat) : Prop :=
  (∀ b, startBlk ≤ b → b < startBlk + count → ¬ SystemBlock sb desc b) ∧
    ∀ (bh : BhRead) (i : ι) (s : BlockState ι) (b : Nat), groupOf sb startBlk = desc → SystemBlock sb desc b →
      ¬ FreedBlock sb s (ext2FreeBlocks sb bh i startBlk count s) b

/-- A descriptor has 32-bit block numbers, and `s_itb_per_group` is an `unsigned long`. -/
structure DescriptorWords (sb : SuperBlock) (desc : Nat) : Prop where
  blockBitmap : sb.bgBlockBitmap desc < 2 ^ 32
  inodeTable : sb.bgInodeTable desc < 2 ^ 32
  table : 1 ≤ sb.itbPerGroup ∧ sb.itbPerGroup < 2 ^ 64

variable {sb : SuperBlock} {desc startBlk : Nat}

theorem dataBlocksValidBg_true (words : DescriptorWords sb desc) (range : startBlk < 2 ^ 64) (few : count < 2 ^ 32)
    (valid : ext2DataBlocksValidBg sb desc startBlk count = true) :
    0 < count ∧ startBlk + count ≤ 2 ^ 64 ∧
      ¬ (startBlk ≤ sb.bgBlockBitmap desc ∧ sb.bgBlockBitmap desc < startBlk + count) ∧
      ¬ (startBlk ≤ sb.bgInodeBitmap desc ∧ sb.bgInodeBitmap desc < startBlk + count) ∧
      ¬ (sb.bgInodeTable desc ≤ startBlk ∧ startBlk ≤ endBlk (sb.bgInodeTable desc) sb.itbPerGroup) ∧
      ¬ (sb.bgInodeTable desc ≤ startBlk + count - 1 ∧
        startBlk + count - 1 ≤ endBlk (sb.bgInodeTable desc) sb.itbPerGroup) := by
  simp only [ext2DataBlocksValidBg, inRange, Bool.if_false_left, Bool.and_true, Bool.and_eq_true, Bool.not_eq_true',
    decide_eq_false_iff_not, decide_eq_true_eq] at valid
  obtain ⟨ordered, block, inode, first, last⟩ := valid
  have bitmap := words.blockBitmap
  -- The empty run of block 0 ends at the last block of all, and so it meets the bitmap.
  have some : 0 < count := by
    unfold endBlk at ordered block
    omega
  have small : startBlk + count ≤ 2 ^ 64 := by
    unfold endBlk at ordered
    omega
  rw [endBlk_eq some small] at block inode last
  exact ⟨some, small, by omega, by omega, first, last⟩

theorem freeBlocks_bitmap [DecidableEq ι] :
    (ext2FreeBlocks sb bh i block count s).bitmap = s.bitmap ∨
      sb.firstDataBlock < block ∧
        (ext2FreeBlocks sb bh i block count s).bitmap = Function.update s.bitmap (groupOf sb block)
          (fill (s.bitmap (groupOf sb block)) (bitOf sb block) count false) := by
  have group : (block - sb.firstDataBlock) / sb.blocksPerGroup = groupOf sb block := rfl
  have bit : (block - sb.firstDataBlock) % sb.blocksPerGroup = bitOf sb block := rfl
  unfold ext2FreeBlocks
  simp only [group, bit]
  split_ifs with valid
  · cases read : ext2ReadBlockBitmap sb bh s (groupOf sb block) with
    | none => exact Or.inl rfl
    | some bData =>
      obtain ⟨rfl, inside⟩ := readBlockBitmap_some read
      simp only [getGroupDesc_inside inside, clearRun_eq]
      have first : sb.firstDataBlock < block := by
        by_contra low
        unfold ext2DataBlocksValid at valid
        simp only at valid
        split_ifs at valid
        omega
      split_ifs
      · refine Or.inr ⟨first, ?_⟩
        unfold groupUpdateFreeBlocks
        split_ifs <;> rfl
      · refine Or.inr ⟨first, ?_⟩
        unfold groupUpdateFreeBlocks
        split_ifs <;> rfl
      · exact Or.inl rfl
  · exact Or.inl rfl

theorem freed_block [DecidableEq ι] {b : Nat} (freed : FreedBlock sb s (ext2FreeBlocks sb bh i block count s) b) :
    block ≤ b ∧ b < block + count := by
  obtain ⟨set, clear⟩ := freed
  rcases @freeBlocks_bitmap ι bh i block count s sb _ with same | ⟨first, bitmap⟩
  · rw [same, set] at clear
    cases clear
  · rw [bitmap] at clear
    by_cases group : groupOf sb b = groupOf sb block
    · rw [group, Function.update_self] at clear
      rw [group] at set
      have run : bitOf sb block ≤ bitOf sb b ∧ bitOf sb b < bitOf sb block + count := by
        by_contra outside
        rw [fill_outside false (by omega), set] at clear
        cases clear
      have here := Nat.div_add_mod (block - sb.firstDataBlock) sb.blocksPerGroup
      have there := Nat.div_add_mod (b - sb.firstDataBlock) sb.blocksPerGroup
      unfold groupOf at group
      unfold bitOf at run
      rw [group] at there
      omega
    · rw [Function.update_of_ne group, set] at clear
      cases clear

/-- Only a run that holds the whole table with blocks on both sides of it passes the checks of its end points. -/
theorem spares_system_iff (ι : Type) [DecidableEq ι] (words : DescriptorWords sb desc) (range : startBlk < 2 ^ 64)
    (few : count < 2 ^ 32) (valid : ext2DataBlocksValidBg sb desc startBlk count = true) :
    SparesSystem ι sb desc startBlk count ↔
      ¬ (startBlk < sb.bgInodeTable desc ∧ sb.bgInodeTable desc + sb.itbPerGroup < startBlk + count) ∧
        (sb.bgInodeTable desc + sb.itbPerGroup ≤ 2 ^ 64 ∨ startBlk + count ≤ sb.bgInodeTable desc) := by
  obtain ⟨some, small, block, inode, first, last⟩ := dataBlocksValidBg_true words range few valid
  obtain ⟨-, table, nonempty, itb⟩ := words
  constructor
  · rintro ⟨apart, -⟩
    constructor
    · rintro ⟨before, behind⟩
      exact apart (sb.bgInodeTable desc) (by omega) (by omega) (Or.inr (Or.inr ⟨le_rfl, by omega⟩))
    · by_contra wraps
      rcases Nat.le_total startBlk (sb.bgInodeTable desc) with low | high
      · exact apart (sb.bgInodeTable desc) low (by omega) (Or.inr (Or.inr ⟨le_rfl, by omega⟩))
      · exact apart startBlk le_rfl (by omega) (Or.inr (Or.inr ⟨high, by omega⟩))
  · rintro ⟨around, wraps⟩
    have apart : ∀ b, startBlk ≤ b → b < startBlk + count → ¬ SystemBlock sb desc b := by
      rintro b low high (rfl | rfl | ⟨inTable, below⟩)
      · exact block ⟨low, high⟩
      · exact inode ⟨low, high⟩
      · rw [endBlk_eq nonempty (by omega)] at first last
        omega
    refine ⟨apart, fun bh i s b group system freed => ?_⟩
    obtain ⟨low, high⟩ := freed_block freed
    exact apart b low high system

def tableAmongData : Volume where
  blocksizeBits := 10
  blocksPerGroup := 16
  firstDataBlock := 1
  blocksCount := 17
  itbPerGroup := 1
  bgBlockBitmap _ := 3
  bgInodeBitmap _ := 4
  bgInodeTable _ := 8
  sizes := kibi_sizes
  perGroup := by decide
  blocks := smallVolume.blocks
  blockBitmap := by decide
  inodeBitmap := by decide
  inodeTable := by decide

theorem table_in_run :
    ¬ ∀ (sb : SuperBlock) (desc startBlk count : Nat), DescriptorWords sb desc → startBlk < 2 ^ 64 → count < 2 ^ 32 →
      ext2DataBlocksValidBg sb desc startBlk count = true → SparesSystem Unit sb desc startBlk count := by
  intro all
  have spares := all tableAmongData.toSuperBlock 0 7 3 ⟨by decide, by decide, by decide⟩ (by decide) (by decide) (by decide)
  exact spares.1 8 (by decide) (by decide) (Or.inr (Or.inr (by decide)))

theorem run_behind_table : SparesSystem Unit tableAmongData.toSuperBlock 0 9 3 :=
  (spares_system_iff Unit ⟨by decide, by decide, by decide⟩ (by decide) (by decide) (by decide)).mpr (by decide)

end OsLab.Ext2
