import OsLab.Ext2.FirstFit
import OsLab.Ext2.NewInode

/-!
# References to bitmap buffers

The functions of `balloc.c` with the references that they take and drop. `ext2_new_blocks` drops the
buffer of a group when it reads the next one, and none behind the last group.
-/

namespace OsLab.Ext2
open Bitmap Traced

variable {ι : Type}

namespace Sequential

variable (sb : SuperBlock)

def ext2ReadBlockBitmap (bh : BhRead) (s : BlockState ι) (blockGroup : Nat) :
    Traced (RefEvent Nat) (Option (Nat × Bits)) :=
  match ext2GetGroupDesc sb blockGroup with
  | none => pure none
  | some desc =>
    let bitmapBlk := sb.bgBlockBitmap desc
    match bh with
    | .noBuffer => pure none
    | .uptodate => do
      emit (.get bitmapBlk)
      pure (some (bitmapBlk, s.bitmap desc))
    | .readError => do
      emit (.get bitmapBlk)
      brelse (some bitmapBlk)
      pure none
    | .read => do
      emit (.get bitmapBlk)
      if ext2BlockBitmapValid sb desc blockGroup (s.bitmap desc) then pure (some (bitmapBlk, s.bitmap desc))
      else do
        brelse (some bitmapBlk)
        pure none

def ext2FreeBlocks [DecidableEq ι] (bh : BhRead) (inode : ι) (block count : Nat) (s : BlockState ι) :
    Traced (RefEvent Nat) (BlockState ι) :=
  if ext2DataBlocksValid sb block (count % 2 ^ 32) then do
    let blockGroup := (block - sb.firstDataBlock) / sb.blocksPerGroup
    let bit := (block - sb.firstDataBlock) % sb.blocksPerGroup
    match ← ext2ReadBlockBitmap sb bh s blockGroup with
    | none => pure s
    | some (bitmapBh, bData) =>
      match ext2GetGroupDesc sb blockGroup with
      | none => do
        brelse (some bitmapBh)
        pure s
      | some desc =>
        if ext2DataBlocksValidBg sb desc block (count % 2 ^ 32) then do
          let (bData, freed) := clearRun bData bit count
          let s := groupUpdateFreeBlocks desc freed { s with bitmap := Function.update s.bitmap desc bData }
          brelse (some bitmapBh)
          if freed ≠ 0 then
            pure { s with
              sFreeblocksCounter := s.sFreeblocksCounter + freed
              inodes := Function.update s.inodes inode
                { s.inodes inode with iBlocks := (s.inodes inode).iBlocks - freed * blocksize sb / 512 } }
          else pure s
        else do
          brelse (some bitmapBh)
          pure s
  else pure s

/-- `bitmap_bh` is what the rounds before have left in the local. -/
def searchGroups (bh : Nat → BhRead) (count : Nat) (s : BlockState ι) :
    Nat → Nat → Option Nat → Traced (RefEvent Nat) (Except Int (Nat × Nat) × BlockState ι)
  | 0, _, _ => pure (.error (-enospc), s)
  | left + 1, groupNo, bitmapBh =>
    match ext2GetGroupDesc sb groupNo with
    | none => pure (.error (-eio), s)
    | some gdp =>
      if s.bgFreeBlocksCount gdp = 0 then searchGroups bh count s left ((groupNo + 1) % groupsCount sb) bitmapBh
      else do
        brelse bitmapBh
        match ← ext2ReadBlockBitmap sb (bh groupNo) s groupNo with
        | none => pure (.error (-eio), s)
        | some (bitmapBh, bData) =>
          match ext2AllocateInBg sb groupNo bData count with
          | none => searchGroups bh count s left ((groupNo + 1) % groupsCount sb) (some bitmapBh)
          | some (bData, grpAllocBlk, count) => do
            let s := groupUpdateFreeBlocks gdp (-count) { s with bitmap := Function.update s.bitmap groupNo bData }
            brelse (some bitmapBh)
            pure (.ok (grpAllocBlk + ext2GroupFirstBlockNo sb groupNo, count),
              { s with sFreeblocksCounter := s.sFreeblocksCounter - count })

def ext2NewBlocks (counterRead : Nat) (bh : Nat → BhRead) (inode : ι) (count : Nat) (s : BlockState ι) :
    Traced (RefEvent Nat) (Except Int (Nat × Nat) × BlockState ι) :=
  let freeBlocks := counterRead % 2 ^ 16
  if freeBlocks = 0 then pure (.error (-enospc), s)
  else searchGroups sb bh count s (groupsCount sb) (s.inodes inode).iBlockGroup none

end Sequential

variable {sb : SuperBlock} {bh : Nat → BhRead} {count counterRead : Nat} {inode : ι} {s : BlockState ι}

/-! ### Without the references -/

theorem readBlockBitmap_value (outcome : BhRead) (s : BlockState ι) (blockGroup : Nat) :
    (Sequential.ext2ReadBlockBitmap sb outcome s blockGroup).value.map (·.2) = ext2ReadBlockBitmap sb outcome s blockGroup := by
  unfold Sequential.ext2ReadBlockBitmap ext2ReadBlockBitmap
  cases ext2GetGroupDesc sb blockGroup with
  | none => rfl
  | some desc =>
    cases outcome with
    | noBuffer => rfl
    | uptodate => rfl
    | readError => rfl
    | read =>
      simp only [value_bind, value_ite]
      split_ifs <;> rfl

theorem freeBlocks_value [DecidableEq ι] (outcome : BhRead) (inode : ι) (block count : Nat) (s : BlockState ι) :
    (Sequential.ext2FreeBlocks sb outcome inode block count s).value = ext2FreeBlocks sb outcome inode block count s := by
  have same := @readBlockBitmap_value ι sb outcome s ((block - sb.firstDataBlock) / sb.blocksPerGroup)
  unfold Sequential.ext2FreeBlocks ext2FreeBlocks
  split_ifs
  · simp only [value_bind, ← same]
    cases (Sequential.ext2ReadBlockBitmap sb outcome s ((block - sb.firstDataBlock) / sb.blocksPerGroup)).value with
    | none => rfl
    | some found =>
      simp only [Option.map_some]
      cases ext2GetGroupDesc sb ((block - sb.firstDataBlock) / sb.blocksPerGroup) with
      | none => rfl
      | some desc =>
        simp only [value_ite, value_bind]
        split_ifs <;> rfl
  · rfl

theorem searchGroups_value (left groupNo : Nat) (bitmapBh : Option Nat) :
    (Sequential.searchGroups sb bh count s left groupNo bitmapBh).value = searchGroups sb bh count s left groupNo := by
  induction left generalizing groupNo bitmapBh with
  | zero => rfl
  | succ left ih =>
    unfold Sequential.searchGroups searchGroups searchGroupsWith
    cases ext2GetGroupDesc sb groupNo with
    | none => rfl
    | some gdp =>
      simp only [value_ite, value_bind, ← readBlockBitmap_value, ih]
      split_ifs
      · rfl
      · cases (Sequential.ext2ReadBlockBitmap sb (bh groupNo) s groupNo).value with
        | none => rfl
        | some found =>
          simp only [Option.map_some]
          cases ext2AllocateInBg sb groupNo found.2 count with
          | none => exact ih _ _
          | some taken => rfl

theorem newBlocks_value (counterRead : Nat) (bh : Nat → BhRead) (inode : ι) (count : Nat) (s : BlockState ι) :
    (Sequential.ext2NewBlocks sb counterRead bh inode count s).value = ext2NewBlocks sb counterRead bh inode count s := by
  unfold Sequential.ext2NewBlocks
  rw [newBlocks_search, value_ite, searchGroups_value]
  rfl

/-! ### With them -/

theorem readBlockBitmap_holds (outcome : BhRead) (s : BlockState ι) (blockGroup : Nat) :
    HoldsRefs 0 (Sequential.ext2ReadBlockBitmap sb outcome s blockGroup) fun found => Sequential.held (found.map (·.1)) := by
  unfold Sequential.ext2ReadBlockBitmap
  cases ext2GetGroupDesc sb blockGroup with
  | none => exact HoldsRefs.pure rfl
  | some desc =>
    cases outcome with
    | noBuffer => exact HoldsRefs.pure rfl
    | uptodate => exact HoldsRefs.get (HoldsRefs.pure rfl)
    | readError =>
      apply HoldsRefs.get
      exact Sequential.brelse_holds (some _) (HoldsRefs.pure rfl)
    | read =>
      apply HoldsRefs.get
      split_ifs
      · exact HoldsRefs.pure rfl
      · exact Sequential.brelse_holds (some _) (HoldsRefs.pure rfl)

theorem freeBlocks_balanced [DecidableEq ι] (outcome : BhRead) (inode : ι) (block count : Nat) (s : BlockState ι) :
    HoldsRefs 0 (Sequential.ext2FreeBlocks sb outcome inode block count s) fun _ => 0 := by
  unfold Sequential.ext2FreeBlocks
  split_ifs
  · apply HoldsRefs.bind (readBlockBitmap_holds outcome s _)
    rintro (_ | ⟨bitmapBh, bData⟩)
    · exact HoldsRefs.pure rfl
    · cases ext2GetGroupDesc sb ((block - sb.firstDataBlock) / sb.blocksPerGroup) with
      | none => exact Sequential.brelse_holds (some bitmapBh) (HoldsRefs.pure rfl)
      | some desc =>
        simp only
        split_ifs <;> exact Sequential.brelse_holds (some bitmapBh) (HoldsRefs.pure rfl)
  · exact HoldsRefs.pure rfl

/-- The search leaves the group for the next one: it has no blocks, or none that the search can take. -/
def Passed (sb : SuperBlock) (bh : Nat → BhRead) (count : Nat) (s : BlockState ι) (g : Nat) : Prop :=
  s.bgFreeBlocksCount g ≠ 0 → (ext2ReadBlockBitmap sb (bh g) s g).isSome ∧ ext2AllocateInBg sb g (s.bitmap g) count = none

theorem readBlockBitmap_found {outcome : BhRead} {blockGroup : Nat} {found : Nat × Bits}
    (same : (Sequential.ext2ReadBlockBitmap sb outcome s blockGroup).value = some found) :
    ext2ReadBlockBitmap sb outcome s blockGroup = some (s.bitmap blockGroup) ∧ found.2 = s.bitmap blockGroup := by
  have value := @readBlockBitmap_value ι sb outcome s blockGroup
  rw [same] at value
  obtain ⟨bits, -⟩ := readBlockBitmap_some value.symm
  simp only at bits
  exact ⟨by rw [← value, Option.map_some, bits], bits⟩

/-- A search that passes all its groups keeps the last buffer that it has read. -/
theorem searchGroups_passed {left groupNo : Nat} {bitmapBh : Option Nat} (inside : groupNo < groupsCount sb)
    (passed : ∀ r < left, Passed sb bh count s ((groupNo + r) % groupsCount sb)) :
    ∃ last, HoldsRefs (Sequential.held bitmapBh) (Sequential.searchGroups sb bh count s left groupNo bitmapBh)
        (fun _ => Sequential.held last) ∧
      (last = none ↔ bitmapBh = none ∧ ∀ r < left, s.bgFreeBlocksCount ((groupNo + r) % groupsCount sb) = 0) := by
  induction left generalizing groupNo bitmapBh with
  | zero => exact ⟨bitmapBh, HoldsRefs.pure rfl, by simp⟩
  | succ left ih =>
    have next : (groupNo + 1) % groupsCount sb < groupsCount sb := Nat.mod_lt _ (groups_pos sb)
    have here := passed 0 (Nat.succ_pos left)
    rw [Nat.add_zero, Nat.mod_eq_of_lt inside] at here
    have later : ∀ r < left, Passed sb bh count s (((groupNo + 1) % groupsCount sb + r) % groupsCount sb) := by
      intro r early
      rw [next_turn]
      exact passed (r + 1) (by omega)
    unfold Sequential.searchGroups
    simp only [getGroupDesc_inside inside]
    by_cases empty : s.bgFreeBlocksCount groupNo = 0
    · rw [if_pos empty]
      obtain ⟨last, holds, none⟩ := @ih _ bitmapBh next later
      refine ⟨last, holds, none.trans (and_congr_right fun _ => ?_)⟩
      constructor
      · intro rest r early
        cases r with
        | zero => rwa [Nat.add_zero, Nat.mod_eq_of_lt inside]
        | succ r =>
          rw [← next_turn]
          exact rest r (by omega)
      · intro all r early
        rw [next_turn]
        exact all (r + 1) (by omega)
    · rw [if_neg empty]
      obtain ⟨reads, full⟩ := here empty
      obtain ⟨found, same⟩ : ∃ found, (Sequential.ext2ReadBlockBitmap sb (bh groupNo) s groupNo).value = some found := by
        rw [← readBlockBitmap_value, Option.isSome_map] at reads
        exact Option.isSome_iff_exists.mp reads
      obtain ⟨-, bits⟩ := readBlockBitmap_found same
      obtain ⟨last, holds, none⟩ := @ih _ (some found.1) next later
      refine ⟨last, ?_, ?_⟩
      · apply Sequential.brelse_holds
        apply HoldsRefs.bind_value (readBlockBitmap_holds (bh groupNo) s groupNo)
        simp only [same, bits, full]
        exact holds
      · constructor
        · intro gone
          cases (none.mp gone).1
        · intro all
          have zero := all.2 0 (Nat.succ_pos left)
          rw [Nat.add_zero, Nat.mod_eq_of_lt inside] at zero
          exact absurd zero empty

theorem searchGroups_left {left groupNo : Nat} {bitmapBh : Option Nat} (inside : groupNo < groupsCount sb)
    (stopped : ¬ ∀ r < left, Passed sb bh count s ((groupNo + r) % groupsCount sb)) :
    HoldsRefs (Sequential.held bitmapBh) (Sequential.searchGroups sb bh count s left groupNo bitmapBh) fun _ => 0 := by
  induction left generalizing groupNo bitmapBh with
  | zero => exact absurd (fun r early => absurd early (Nat.not_lt_zero r)) stopped
  | succ left ih =>
    have next : (groupNo + 1) % groupsCount sb < groupsCount sb := Nat.mod_lt _ (groups_pos sb)
    have later : Passed sb bh count s groupNo →
        ¬ ∀ r < left, Passed sb bh count s (((groupNo + 1) % groupsCount sb + r) % groupsCount sb) := by
      intro here rest
      apply stopped
      intro r early
      cases r with
      | zero => rwa [Nat.add_zero, Nat.mod_eq_of_lt inside]
      | succ r =>
        have passed := rest r (by omega)
        rwa [next_turn] at passed
    unfold Sequential.searchGroups
    simp only [getGroupDesc_inside inside]
    by_cases empty : s.bgFreeBlocksCount groupNo = 0
    · rw [if_pos empty]
      exact ih next (later fun nonempty => absurd empty nonempty)
    · rw [if_neg empty]
      apply Sequential.brelse_holds
      apply HoldsRefs.bind_value (readBlockBitmap_holds (bh groupNo) s groupNo)
      cases same : (Sequential.ext2ReadBlockBitmap sb (bh groupNo) s groupNo).value with
      | none => exact HoldsRefs.pure rfl
      | some found =>
        obtain ⟨reads, bits⟩ := readBlockBitmap_found same
        simp only
        cases taken : ext2AllocateInBg sb groupNo found.2 count with
        | none =>
          rw [bits] at taken
          exact @ih _ (some found.1) next (later fun _ => ⟨by rw [reads]; rfl, taken⟩)
        | some run => exact Sequential.brelse_holds (some found.1) (HoldsRefs.pure rfl)

theorem allocateInBg_none_iff {g : Nat} {bData : Bits} :
    ext2AllocateInBg sb g bData count = none ↔
      count = 0 ∨ ∀ k, ext2GroupFirstBlockNo sb g ≤ k → k < nblocks sb g → bData k = true := by
  unfold ext2AllocateInBg
  simp only
  generalize scan : findNextZero bData (nblocks sb g) (ext2GroupFirstBlockNo sb g) = first
  by_cases none : nblocks sb g ≤ first
  · rw [if_pos none]
    refine ⟨fun _ => Or.inr fun k low high => ?_, fun _ => rfl⟩
    exact findNextZero_before low (scan ▸ Nat.lt_of_lt_of_le high none)
  · rw [if_neg none]
    have clear : bData first = false := scan ▸ findNextZero_clear (by omega)
    obtain ⟨n, exact, result⟩ := @allocateLoop_exact count (nblocks sb g) (nblocks sb g - first) 0 first bData
      (Or.inr clear) le_rfl
    have some := clearLength_clear (Nat.not_le.mp none) clear
    simp only [result, Nat.zero_add]
    constructor
    · intro failed
      split_ifs at failed with zero
      exact Or.inl (by omega)
    · rintro (rfl | full)
      · rw [if_pos (by omega)]
      · rw [findNextZero_full full] at scan
        omega

/-- The search reads a bitmap, can read all it wants to, and takes nothing in any group. -/
structure Exhausted (sb : SuperBlock) (counterRead : Nat) (bh : Nat → BhRead) (inode : ι) (count : Nat)
    (s : BlockState ι) : Prop where
  counted : counterRead % 2 ^ 16 ≠ 0
  start : (s.inodes inode).iBlockGroup < groupsCount sb
  some : ∃ g < groupsCount sb, s.bgFreeBlocksCount g ≠ 0
  reads : ∀ g < groupsCount sb, s.bgFreeBlocksCount g ≠ 0 → (ext2ReadBlockBitmap sb (bh g) s g).isSome
  full : count = 0 ∨ ∀ g < groupsCount sb, s.bgFreeBlocksCount g ≠ 0 →
    ∀ k, ext2GroupFirstBlockNo sb g ≤ k → k < nblocks sb g → s.bitmap g k = true

theorem exhausted_iff (counted : counterRead % 2 ^ 16 ≠ 0) (inside : (s.inodes inode).iBlockGroup < groupsCount sb) :
    Exhausted sb counterRead bh inode count s ↔
      (∃ g < groupsCount sb, s.bgFreeBlocksCount g ≠ 0) ∧ ∀ g < groupsCount sb, Passed sb bh count s g := by
  constructor
  · rintro ⟨-, -, some, reads, full⟩
    refine ⟨some, fun g before nonempty => ⟨reads g before nonempty, allocateInBg_none_iff.mpr ?_⟩⟩
    exact full.imp id fun full => full g before nonempty
  · rintro ⟨some, passed⟩
    refine ⟨counted, inside, some, fun g before nonempty => (passed g before nonempty).1, ?_⟩
    by_cases zero : count = 0
    · exact Or.inl zero
    · refine Or.inr fun g before nonempty => ?_
      exact (allocateInBg_none_iff.mp (passed g before nonempty).2).resolve_left zero

theorem held_eq_zero {bitmapBh : Option Nat} (empty : Sequential.held bitmapBh = 0) : bitmapBh = none := by
  cases bitmapBh with
  | none => rfl
  | some bh => exact absurd empty (Multiset.singleton_ne_zero bh)

theorem newBlocks_balanced_iff :
    BalancedRefs (Sequential.ext2NewBlocks sb counterRead bh inode count s).events ↔
      ¬ Exhausted sb counterRead bh inode count s := by
  unfold Sequential.ext2NewBlocks
  by_cases counted : counterRead % 2 ^ 16 = 0
  · rw [if_pos counted]
    exact iff_of_true (Custody.nil 0) fun exhausted => exhausted.counted counted
  simp only [if_neg counted]
  by_cases inside : (s.inodes inode).iBlockGroup < groupsCount sb
  · rw [exhausted_iff counted inside, ← forall_turns inside]
    by_cases passed : ∀ r < groupsCount sb, Passed sb bh count s (((s.inodes inode).iBlockGroup + r) % groupsCount sb)
    · obtain ⟨last, holds, none⟩ := @searchGroups_passed ι sb bh count s (groupsCount sb) _ Option.none inside passed
      rw [forall_turns (P := fun g => s.bgFreeBlocksCount g = 0) inside] at none
      constructor
      · rintro balanced ⟨⟨g, before, nonempty⟩, -⟩
        have dropped := held_eq_zero (Custody.unique holds balanced)
        exact nonempty ((none.mp dropped).2 g before)
      · intro other
        have empty : last = Option.none := by
          refine none.mpr ⟨rfl, fun g before => ?_⟩
          by_contra nonempty
          exact other ⟨⟨g, before, nonempty⟩, passed⟩
        subst empty
        exact holds
    · exact iff_of_true (@searchGroups_left ι sb bh count s (groupsCount sb) _ none inside passed) fun both => passed both.2
  · -- The first descriptor is not found, before any buffer is read.
    have beyond : ext2GetGroupDesc sb (s.inodes inode).iBlockGroup = none := if_pos (Nat.not_lt.mp inside)
    refine iff_of_true ?_ fun exhausted => inside exhausted.start
    rw [show groupsCount sb = (groupsCount sb - 1) + 1 from rfl]
    unfold Sequential.searchGroups
    rw [beyond]
    exact Custody.nil 0

/-- Only `ext2_new_blocks` keeps a buffer, when it has searched all groups and read the bitmap of one. -/
theorem bitmap_buffers_balanced_iff [DecidableEq ι] (sb : SuperBlock) (counterRead : Nat) (bh : Nat → BhRead)
    (inode : ι) (count : Nat) (s : BlockState ι) (g : InodeGeometry) (k : Kernel) (records : InodeRecords) :
    (BalancedRefs (Sequential.ext2NewBlocks sb counterRead bh inode count s).events ↔
        ¬ Exhausted sb counterRead bh inode count s) ∧
      (∀ outcome block, BalancedRefs (Sequential.ext2FreeBlocks sb outcome inode block count s).events) ∧
      (∀ isDir parentGroup parentIno,
        BalancedRefs (Sequential.ext2NewInode g k isDir parentGroup parentIno records).events) ∧
      ∀ ino isDir, BalancedRefs (Sequential.ext2FreeInode g k ino isDir records).events := by
  refine ⟨newBlocks_balanced_iff, ?_, ?_, ?_⟩
  · exact fun outcome block => freeBlocks_balanced outcome inode block count s
  · exact fun isDir parentGroup parentIno => Sequential.newInode_balanced isDir parentGroup parentIno records
  · exact fun ino isDir => Sequential.freeInode_balanced ino isDir records

/-- The inode's group has no blocks left, and in the other one the search begins past the end. -/
def secondGroupOnly : BlockState Unit where
  bitmap _ := metadataOnly
  bgFreeBlocksCount g := if g = 0 then 0 else 11
  sFreeblocksCounter := 11
  inodes _ := { kind := .reg, iBlockGroup := 0, iData := fun _ => 0, iBlocks := 0 }

theorem second_bitmap_kept :
    (Sequential.ext2NewBlocks twoGroups.toSuperBlock 11 (fun _ => .uptodate) () 1 secondGroupOnly).value.1 =
        .error (-enospc) ∧
      ¬ BalancedRefs (Sequential.ext2NewBlocks twoGroups.toSuperBlock 11 (fun _ => .uptodate) () 1 secondGroupOnly).events := by
  refine ⟨by decide +kernel, fun balanced => ?_⟩
  have counts := BalancedRefs.count balanced 19
  revert counts
  decide +kernel

end OsLab.Ext2
