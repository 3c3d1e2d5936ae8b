import Mathlib.Algebra.BigOperators.Group.Finset.Basic
import OsLab.Foundation.Bitmap
import OsLab.Ext2.Layout

/-!
# Block allocation

`balloc.c`: the block bitmaps, the free block counts and the functions that allocate and
free runs of blocks.
-/

namespace OsLab.Ext2
open Bitmap

def eio : Int := 5
def enomem : Int := 12
def einval : Int := 22
def enospc : Int := 28

inductive FileKind where
  | reg | dir | lnk | other
  deriving DecidableEq, Repr

/-- What the block functions use of a `struct inode` and its `struct ext2_inode_info`. -/
structure BlockInode where
  kind : FileKind
  iBlockGroup : Nat
  iData : Nat → Nat
  iBlocks : Nat

/-- The bitmaps and counts of the groups, the percpu counter and the inodes, which `ι` names. -/
structure BlockState (ι : Type) where
  bitmap : Nat → Bits
  bgFreeBlocksCount : Nat → Nat
  sFreeblocksCounter : Int
  inodes : ι → BlockInode

/-- How `sb_getblk`, `bh_uptodate_or_lock` and `bh_submit_read` go for a bitmap block. -/
inductive BhRead where
  | noBuffer | uptodate | readError | read
  deriving DecidableEq, Repr

def BhRead.Succeeds (bh : BhRead) : Prop := bh = .uptodate ∨ bh = .read

variable {ι : Type}

/-- The group whose descriptor is returned. -/
def ext2GetGroupDesc (sb : SuperBlock) (blockGroup : Nat) : Option Nat :=
  if groupsCount sb ≤ blockGroup then none else some blockGroup

def ext2BlockBitmapValid (sb : SuperBlock) (desc blockGroup : Nat) (bData : Bits) : Bool :=
  let groupFirstBlock := ext2GroupFirstBlockNo sb blockGroup
  let offset := sb.bgInodeTable desc - groupFirstBlock
  bData (sb.bgBlockBitmap desc - groupFirstBlock) && bData (sb.bgInodeBitmap desc - groupFirstBlock) &&
    !(findNextZero bData (offset + sb.itbPerGroup) offset < offset + sb.itbPerGroup)

/-- A buffer that is up to date is returned unchecked. -/
def ext2ReadBlockBitmap (sb : SuperBlock) (bh : BhRead) (s : BlockState ι) (blockGroup : Nat) : Option Bits :=
  match ext2GetGroupDesc sb blockGroup with
  | none => none
  | some desc =>
    match bh with
    | .noBuffer => none
    | .uptodate => some (s.bitmap desc)
    | .readError => none
    | .read => if ext2BlockBitmapValid sb desc blockGroup (s.bitmap desc) then some (s.bitmap desc) else none

/-- The count is a `__le16`. -/
def groupUpdateFreeBlocks (desc : Nat) (count : Int) (s : BlockState ι) : BlockState ι :=
  if count = 0 then s
  else
    { s with
      bgFreeBlocksCount :=
        Function.update s.bgFreeBlocksCount desc ((s.bgFreeBlocksCount desc + count) % 2 ^ 16).toNat }

/-- The last block of a range, in 64 bits. -/
def endBlk (startBlk count : Nat) : Nat := (startBlk + count + 2 ^ 64 - 1) % 2 ^ 64

def ext2DataBlocksValid (sb : SuperBlock) (startBlk count : Nat) : Bool :=
  let endBlk := endBlk startBlk count
  if endBlk < startBlk then false
  else if startBlk ≤ sb.firstDataBlock then false
  else if sb.blocksCount ≤ endBlk then false
  else if startBlk ≤ sbBlock ∧ sbBlock ≤ endBlk then false
  else true

def inRange (b first len : Nat) : Bool := first ≤ b && b ≤ endBlk first len

def ext2DataBlocksValidBg (sb : SuperBlock) (desc startBlk count : Nat) : Bool :=
  let endBlk := endBlk startBlk count
  if endBlk < startBlk then false
  else if inRange (sb.bgBlockBitmap desc) startBlk count then false
  else if inRange (sb.bgInodeBitmap desc) startBlk count then false
  else if inRange startBlk (sb.bgInodeTable desc) sb.itbPerGroup then false
  else if inRange endBlk (sb.bgInodeTable desc) sb.itbPerGroup then false
  else true

/-- The checks get `count` as an `unsigned int`. -/
def ext2FreeBlocks [DecidableEq ι] (sb : SuperBlock) (bh : BhRead) (inode : ι) (block count : Nat) (s : BlockState ι) :
    BlockState ι :=
  if ext2DataBlocksValid sb block (count % 2 ^ 32) then
    let blockGroup := (block - sb.firstDataBlock) / sb.blocksPerGroup
    let bit := (block - sb.firstDataBlock) % sb.blocksPerGroup
    match ext2ReadBlockBitmap sb bh s blockGroup, ext2GetGroupDesc sb blockGroup with
    | some bData, some desc =>
      if ext2DataBlocksValidBg sb desc block (count % 2 ^ 32) then
        let (bData, freed) := clearRun bData bit count
        let s := groupUpdateFreeBlocks desc freed { s with bitmap := Function.update s.bitmap desc bData }
        if freed ≠ 0 then
          { s with
            sFreeblocksCounter := s.sFreeblocksCounter + freed
            inodes := Function.update s.inodes inode
              { s.inodes inode with iBlocks := (s.inodes inode).iBlocks - freed * blocksize sb / 512 } }
        else s
      else s
    | _, _ => s
  else s

/-- The `for` loop of `ext2_allocate_in_bg`, at most `fuel` rounds of it: the bitmap, `num` and
`first_free_bit`. -/
def allocateLoop (count nblocks : Nat) : Nat → Bits → Nat → Nat → Bits × Nat × Nat
  | 0, bData, num, firstFreeBit => (bData, num, firstFreeBit)
  | fuel + 1, bData, num, firstFreeBit =>
    if num < count ∧ firstFreeBit < nblocks then
      if bData firstFreeBit then
        if num = 0 then allocateLoop count nblocks fuel bData num (firstFreeBit + 1)
        else (bData, num, firstFreeBit)
      else
        allocateLoop count nblocks fuel (Function.update bData firstFreeBit true) (num + 1) (firstFreeBit + 1)
    else (bData, num, firstFreeBit)

/-- The bitmap, the returned bit and `*count`; `none` stands for -1. The local `num` starts at 0. -/
def ext2AllocateInBg (sb : SuperBlock) (group : Nat) (bData : Bits) (count : Nat) : Option (Bits × Nat × Nat) :=
  let firstFreeBit := findNextZero bData (nblocks sb group) (ext2GroupFirstBlockNo sb group)
  if nblocks sb group ≤ firstFreeBit then none
  else
    match allocateLoop count (nblocks sb group) (nblocks sb group - firstFreeBit) bData 0 firstFreeBit with
    | (bData, num, firstFreeBit) => if num = 0 then none else some (bData, firstFreeBit - num, num)

/-- The rounds of the loop of `ext2_new_blocks` that are left, the next one in `groupNo`, with `alloc` for
`ext2_allocate_in_bg`. -/
def searchGroupsWith (alloc : Nat → Bits → Nat → Option (Bits × Nat × Nat)) (sb : SuperBlock) (bh : Nat → BhRead)
    (count : Nat) (s : BlockState ι) : Nat → Nat → Except Int (Nat × Nat) × BlockState ι
  | 0, _ => (.error (-enospc), s)
  | left + 1, groupNo =>
    match ext2GetGroupDesc sb groupNo with
    | none => (.error (-eio), s)
    | some gdp =>
      if s.bgFreeBlocksCount gdp = 0 then searchGroupsWith alloc sb bh count s left ((groupNo + 1) % groupsCount sb)
      else
        match ext2ReadBlockBitmap sb (bh groupNo) s groupNo with
        | none => (.error (-eio), s)
        | some bData =>
          match alloc groupNo bData count with
          | none => searchGroupsWith alloc sb bh count s left ((groupNo + 1) % groupsCount sb)
          | some (bData, grpAllocBlk, count) =>
            let s := groupUpdateFreeBlocks gdp (-count) { s with bitmap := Function.update s.bitmap groupNo bData }
            (.ok (grpAllocBlk + ext2GroupFirstBlockNo sb groupNo, count),
              { s with sFreeblocksCounter := s.sFreeblocksCounter - count })

def searchGroups (sb : SuperBlock) : (Nat → BhRead) → Nat → BlockState ι → Nat → Nat → Except Int (Nat × Nat) × BlockState ι :=
  searchGroupsWith (ext2AllocateInBg sb) sb

/-- `counterRead` is what `percpu_counter_read_positive` returns, `bh` how the bitmap of each group
is read. The result is the first block and the number of blocks, or `*errp`. -/
def newBlocksWith (alloc : Nat → Bits → Nat → Option (Bits × Nat × Nat)) (sb : SuperBlock) (counterRead : Nat)
    (bh : Nat → BhRead) (inode : ι) (count : Nat) (s : BlockState ι) : Except Int (Nat × Nat) × BlockState ι :=
  let freeBlocks := counterRead % 2 ^ 16
  if freeBlocks = 0 then (.error (-enospc), s)
  else searchGroupsWith alloc sb bh count s (groupsCount sb) (s.inodes inode).iBlockGroup

def ext2NewBlocks (sb : SuperBlock) (counterRead : Nat) (bh : Nat → BhRead) (inode : ι) (count : Nat)
    (s : BlockState ι) : Except Int (Nat × Nat) × BlockState ι :=
  newBlocksWith (ext2AllocateInBg sb) sb counterRead bh inode count s

theorem newBlocks_search (sb : SuperBlock) (counterRead : Nat) (bh : Nat → BhRead) (inode : ι) (count : Nat) (s : BlockState ι) :
    ext2NewBlocks sb counterRead bh inode count s = if counterRead % 2 ^ 16 = 0 then (.error (-enospc), s)
      else searchGroups sb bh count s (groupsCount sb) (s.inodes inode).iBlockGroup := rfl

/-! ### What the functions do to the bitmap -/

theorem endBlk_pos {startBlk count : Nat} (some : 0 < startBlk + count) (small : startBlk + count ≤ 2 ^ 64) :
    endBlk startBlk count = startBlk + count - 1 := by
  unfold endBlk
  omega

theorem endBlk_eq {startBlk count : Nat} (some : 0 < count) (small : startBlk + count ≤ 2 ^ 64) :
    endBlk startBlk count = startBlk + count - 1 :=
  endBlk_pos (by omega) small

theorem getGroupDesc_some {sb : SuperBlock} {g desc : Nat} (found : ext2GetGroupDesc sb g = some desc) :
    desc = g ∧ g < groupsCount sb := by
  unfold ext2GetGroupDesc at found
  split_ifs at found with beyond
  exact ⟨(Option.some.inj found).symm, by omega⟩

theorem getGroupDesc_inside {sb : SuperBlock} {g : Nat} (inside : g < groupsCount sb) :
    ext2GetGroupDesc sb g = some g :=
  if_neg (by omega)

theorem readBlockBitmap_some {sb : SuperBlock} {bh : BhRead} {s : BlockState ι} {g : Nat} {bData : Bits}
    (read : ext2ReadBlockBitmap sb bh s g = some bData) : bData = s.bitmap g ∧ g < groupsCount sb := by
  unfold ext2ReadBlockBitmap at read
  cases found : ext2GetGroupDesc sb g with
  | none => simp [found] at read
  | some desc =>
    obtain ⟨rfl, inside⟩ := getGroupDesc_some found
    rw [found] at read
    refine ⟨?_, inside⟩
    cases bh with
    | noBuffer => cases read
    | uptodate => exact (Option.some.inj read).symm
    | readError => cases read
    | read =>
      simp only at read
      split_ifs at read
      exact (Option.some.inj read).symm

/-- The loop sets a run of clear bits that starts at its `first_free_bit`. -/
theorem allocateLoop_run {count nblocks fuel num bit : Nat} {bData : Bits} (started : 0 < num ∨ bData bit = false)
    (inside : bit ≤ nblocks) :
    ∃ n, allocateLoop count nblocks fuel bData num bit = (fill bData bit n true, num + n, bit + n) ∧
      bit + n ≤ nblocks ∧ (∀ k, bit ≤ k → k < bit + n → bData k = false) ∧ (num ≤ count → num + n ≤ count) := by
  induction fuel generalizing num bit bData with
  | zero => exact ⟨0, by simp [allocateLoop], by omega, by omega, by omega⟩
  | succ fuel ih =>
    have stop : ∃ n, (bData, num, bit) = (fill bData bit n true, num + n, bit + n) ∧ bit + n ≤ nblocks ∧
        (∀ k, bit ≤ k → k < bit + n → bData k = false) ∧ (num ≤ count → num + n ≤ count) :=
      ⟨0, by simp, by omega, by omega, by omega⟩
    unfold allocateLoop
    split_ifs with more set first
    · rcases started with some | clear
      · omega
      · rw [clear] at set
        cases set
    · exact stop
    · obtain ⟨n, result, fits, clear, bound⟩ := @ih (num + 1) (bit + 1)
        (Function.update bData bit true) (Or.inl (by omega)) (by omega)
      have here : bData bit = false := by simpa using set
      refine ⟨n + 1, ?_, by omega, fun k low high => ?_, fun _ => by have := bound (by omega); omega⟩
      · rw [result, fill_update, Nat.add_assoc num 1 n, Nat.add_assoc bit 1 n, Nat.add_comm 1 n]
      · by_cases same : k = bit
        · rw [same]; exact here
        · have clear := clear k (by omega) (by omega)
          rwa [Function.update_of_ne same] at clear
    · exact stop

/-- A successful allocation sets a run of at most `count` clear bits of the group. -/
theorem allocateInBg_some {sb : SuperBlock} {g count bit n : Nat} {bData bData' : Bits}
    (done : ext2AllocateInBg sb g bData count = some (bData', bit, n)) :
    0 < n ∧ n ≤ count ∧ bit + n ≤ nblocks sb g ∧ (∀ k, bit ≤ k → k < bit + n → bData k = false) ∧
      bData' = fill bData bit n true := by
  unfold ext2AllocateInBg at done
  simp only at done
  generalize scan : findNextZero bData (nblocks sb g) (ext2GroupFirstBlockNo sb g) = first at done
  split_ifs at done with full none
  have clear : bData first = false := scan ▸ findNextZero_clear (by omega)
  obtain ⟨m, result, fits, run, bound⟩ := @allocateLoop_run count (nblocks sb g)
    (nblocks sb g - first) 0 first bData (Or.inr clear) (Nat.le_of_not_le full)
  rw [result] at done none
  simp only [Nat.zero_add, Nat.add_sub_cancel, Option.some.injEq, Prod.mk.injEq] at done none bound
  obtain ⟨rfl, rfl, rfl⟩ := done
  exact ⟨Nat.pos_of_ne_zero none, bound (Nat.zero_le _), fits, run, rfl⟩

/-- A successful search takes a run of clear bits out of one group. -/
theorem searchGroups_ok {sb : SuperBlock} {bh : Nat → BhRead} {count left g block n : Nat} {s t : BlockState ι}
    (done : searchGroups sb bh count s left g = (.ok (block, n), t)) :
    ∃ g bit, g < groupsCount sb ∧ 0 < n ∧ n ≤ count ∧ bit + n ≤ nblocks sb g ∧
      (∀ k, bit ≤ k → k < bit + n → s.bitmap g k = false) ∧ block = bit + ext2GroupFirstBlockNo sb g ∧
      t = { s with
        bitmap := Function.update s.bitmap g (fill (s.bitmap g) bit n true)
        bgFreeBlocksCount :=
          Function.update s.bgFreeBlocksCount g ((s.bgFreeBlocksCount g + (-n : Int)) % 2 ^ 16).toNat
        sFreeblocksCounter := s.sFreeblocksCounter - n } := by
  induction left generalizing g with
  | zero => simp [searchGroups, searchGroupsWith] at done
  | succ left ih =>
    unfold searchGroups searchGroupsWith at done
    cases found : ext2GetGroupDesc sb g with
    | none => simp [found] at done
    | some gdp =>
      obtain ⟨rfl, inside⟩ := getGroupDesc_some found
      simp only [found] at done
      split_ifs at done with none
      · exact ih done
      · cases read : ext2ReadBlockBitmap sb (bh gdp) s gdp with
        | none => simp [read] at done
        | some bData =>
          obtain ⟨rfl, -⟩ := readBlockBitmap_some read
          simp only [read] at done
          cases alloc : ext2AllocateInBg sb gdp (s.bitmap gdp) count with
          | none => exact ih (by simpa only [alloc, searchGroups] using done)
          | some result =>
            obtain ⟨bData, bit, m⟩ := result
            obtain ⟨some, bound, fits, clear, rfl⟩ := allocateInBg_some alloc
            simp only [alloc, Prod.mk.injEq, Except.ok.injEq] at done
            obtain ⟨⟨rfl, rfl⟩, rfl⟩ := done
            refine ⟨gdp, bit, inside, some, bound, fits, clear, rfl, ?_⟩
            have nonzero : -(m : Int) ≠ 0 := by omega
            simp only [groupUpdateFreeBlocks, nonzero, if_false]

theorem searchGroups_error {sb : SuperBlock} {bh : Nat → BhRead} {count left g : Nat} {e : Int} {s t : BlockState ι}
    (failed : searchGroups sb bh count s left g = (.error e, t)) : e < 0 ∧ t = s := by
  induction left generalizing g with
  | zero =>
    obtain ⟨same, rfl⟩ := Prod.mk.inj failed
    obtain rfl := Except.error.inj same
    exact ⟨by decide, rfl⟩
  | succ left ih =>
    unfold searchGroups searchGroupsWith at failed
    cases found : ext2GetGroupDesc sb g with
    | none =>
      simp only [found, Prod.mk.injEq, Except.error.injEq] at failed
      obtain ⟨rfl, rfl⟩ := failed
      exact ⟨by decide, rfl⟩
    | some gdp =>
      simp only [found] at failed
      split_ifs at failed with none
      · exact ih failed
      · cases read : ext2ReadBlockBitmap sb (bh g) s g with
        | none =>
          simp only [read, Prod.mk.injEq, Except.error.injEq] at failed
          obtain ⟨rfl, rfl⟩ := failed
          exact ⟨by decide, rfl⟩
        | some bData =>
          simp only [read] at failed
          cases alloc : ext2AllocateInBg sb g bData count with
          | none => exact ih (by simpa only [alloc, searchGroups] using failed)
          | some result => simp [alloc] at failed

end OsLab.Ext2
