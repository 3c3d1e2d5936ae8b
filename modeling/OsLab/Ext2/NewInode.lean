import OsLab.Foundation.Custody
import OsLab.Ext2.FindGroup

/-!
# Inode allocation by one call

`ext2_new_inode` and `ext2_free_inode` when no other call runs, with all their failures and with the
references to bitmap buffers that they take and drop. A buffer is named by its block.
-/

namespace OsLab.Ext2
open Bitmap Traced

/-- The numbers of the super block that inode allocation reads. -/
structure InodeGeometry where
  sb : SuperBlock
  inodesPerGroup : Nat
  firstIno : Nat
  inodesCount : Nat

/-- The bitmaps, the counts of the descriptors and the percpu counters. -/
structure InodeRecords where
  inodeBitmap : Nat → Bits
  bgFreeInodesCount : Nat → Nat
  bgFreeBlocksCount : Nat → Nat
  bgUsedDirsCount : Nat → Nat
  sFreeinodesCounter : Int
  sDirsCounter : Int

def InodeRecords.desc (s : InodeRecords) (group : Nat) : DescCounts := ⟨s.bgFreeInodesCount group, s.bgFreeBlocksCount group⟩

/-- What the functions of the kernel return: `new_inode`, `sb_bread` of a block and `insert_inode_locked` of a
number. -/
structure Kernel where
  newInode : Bool
  sbBread : Nat → Bool
  insertInodeLocked : Nat → Bool

/-- `want_delete` of `ext2_evict_inode`. -/
def wantDelete (iNlink : Nat) (isBadInode : Bool) : Bool := iNlink = 0 && !isBadInode

namespace Sequential

def brelse : Option Nat → Traced (RefEvent Nat) PUnit
  | none => pure ⟨⟩
  | some bh => emit (.put bh)

variable (g : InodeGeometry) (k : Kernel)

/-- The buffer and what it holds. -/
def readInodeBitmap (s : InodeRecords) (blockGroup : Nat) : Traced (RefEvent Nat) (Option (Nat × Bits)) :=
  match ext2GetGroupDesc g.sb blockGroup with
  | none => pure none
  | some desc =>
    if k.sbBread (g.sb.bgInodeBitmap desc) then do
      emit (.get (g.sb.bgInodeBitmap desc))
      pure (some (g.sb.bgInodeBitmap desc, s.inodeBitmap desc))
    else pure none

def ext2ReleaseInode (group : Nat) (dir : Bool) (s : InodeRecords) : InodeRecords :=
  match ext2GetGroupDesc g.sb group with
  | none => s
  | some desc =>
    { s with
      bgFreeInodesCount := Function.update s.bgFreeInodesCount desc (le16AddCpu (s.bgFreeInodesCount desc) 1)
      bgUsedDirsCount :=
        if dir then Function.update s.bgUsedDirsCount desc (le16AddCpu (s.bgUsedDirsCount desc) (-1))
        else s.bgUsedDirsCount
      sFreeinodesCounter := s.sFreeinodesCounter + 1
      sDirsCounter := if dir then s.sDirsCounter - 1 else s.sDirsCounter }

def ext2FreeInode (ino : Nat) (isDir : Bool) (s : InodeRecords) : Traced (RefEvent Nat) InodeRecords :=
  if ino < g.firstIno ∨ g.inodesCount < ino then pure s
  else do
    let blockGroup := (ino - 1) / g.inodesPerGroup
    let bit := (ino - 1) % g.inodesPerGroup
    match ← readInodeBitmap g k s blockGroup with
    | none => pure s
    | some (bitmapBh, bData) => do
      let s :=
        if bData bit then
          ext2ReleaseInode g blockGroup isDir
            { s with inodeBitmap := Function.update s.inodeBitmap blockGroup (Function.update bData bit false) }
        else s
      brelse (some bitmapBh)
      pure s

/-- The bit that is set at `got`, in at most `fuel` rounds from `ino` on. -/
def repeatInThisGroup (inodesPg : Nat) (bData : Bits) : Nat → Nat → Option Nat
  | 0, _ => none
  | fuel + 1, ino =>
    let ino := findNextZero bData inodesPg ino
    if inodesPg ≤ ino then none
    else if bData ino then
      if inodesPg ≤ ino + 1 then none else repeatInThisGroup inodesPg bData fuel (ino + 1)
    else some ino

/-- The rounds of the loop of `ext2_new_inode` that are left; the result is the group and the bit at `got`. -/
def searchBitmaps (s : InodeRecords) : Nat → Nat → Option Nat → Traced (RefEvent Nat) (Except Int (Nat × Nat))
  | 0, _, bitmapBh => do
    brelse bitmapBh
    pure (.error (-enospc))
  | left + 1, group, bitmapBh =>
    match ext2GetGroupDesc g.sb group with
    | none => searchBitmaps s left ((group + 1) % groupsCount g.sb) bitmapBh
    | some gdp => do
      brelse bitmapBh
      match ← readInodeBitmap g k s gdp with
      | none => pure (.error (-eio))
      | some (bitmapBh, bData) =>
        match repeatInThisGroup g.inodesPerGroup bData g.inodesPerGroup 0 with
        | none => searchBitmaps s left ((gdp + 1) % groupsCount g.sb) (some bitmapBh)
        | some ino => do
          brelse (some bitmapBh)
          pure (.ok (gdp, ino))

def numberOf (group bit : Nat) : Nat := bit + (group * g.inodesPerGroup + 1)

/-- The bit is set at `got`. -/
def setBit (group bit : Nat) (s : InodeRecords) : InodeRecords :=
  { s with inodeBitmap := Function.update s.inodeBitmap group (Function.update (s.inodeBitmap group) bit true) }

/-- The counts that change behind the check of the number. -/
def countInode (group : Nat) (isDir : Bool) (s : InodeRecords) : InodeRecords :=
  { s with
    sFreeinodesCounter := s.sFreeinodesCounter - 1
    sDirsCounter := if isDir then s.sDirsCounter + 1 else s.sDirsCounter
    bgFreeInodesCount := Function.update s.bgFreeInodesCount group (le16AddCpu (s.bgFreeInodesCount group) (-1))
    bgUsedDirsCount :=
      if isDir then Function.update s.bgUsedDirsCount group (le16AddCpu (s.bgUsedDirsCount group) 1)
      else s.bgUsedDirsCount }

/-- `make_bad_inode` and the last `iput`; `new_inode` has set the link count to 1. -/
def fail (err : Int) (ino : Nat) (isDir : Bool) (s : InodeRecords) :
    Traced (RefEvent Nat) (Except Int Nat × InodeRecords) := do
  let s ← if wantDelete 1 true then ext2FreeInode g k ino isDir s else pure s
  pure (.error err, s)

def ext2NewInode (isDir : Bool) (parentGroup parentIno : Nat) (s : InodeRecords) :
    Traced (RefEvent Nat) (Except Int Nat × InodeRecords) :=
  if k.newInode then
    match (findGroup g.sb s.desc parentGroup parentIno).value with
    | none => fail g k (-enospc) 0 isDir s
    | some group => do
      match ← searchBitmaps g k s (groupsCount g.sb) group none with
      | .error err => fail g k err 0 isDir s
      | .ok (group, bit) =>
        let ino := numberOf g group bit
        let s := setBit group bit s
        if ino < g.firstIno ∨ g.inodesCount < ino then fail g k (-eio) 0 isDir s
        else
          let s := countInode group isDir s
          if k.insertInodeLocked ino then pure (.ok ino, s) else fail g k (-eio) ino isDir s
  else pure (.error (-enomem), s)

end Sequential

variable {g : InodeGeometry} {k : Kernel} {s : InodeRecords}

/-! ### Buffers -/

namespace Sequential

/-- The references of whoever may hold a buffer. -/
def held (bitmapBh : Option Nat) : Multiset Nat := bitmapBh.elim 0 fun bh => {bh}

theorem brelse_holds (bitmapBh : Option Nat) {α : Type} {f : PUnit → Traced (RefEvent Nat) α} {post : α → Multiset Nat}
    (rest : HoldsRefs 0 (f ⟨⟩) post) : HoldsRefs (held bitmapBh) (brelse bitmapBh >>= f) post := by
  cases bitmapBh with
  | none => exact rest
  | some bh => exact HoldsRefs.put rest

theorem readInodeBitmap_holds (blockGroup : Nat) :
    HoldsRefs 0 (readInodeBitmap g k s blockGroup) fun read => held (read.map (·.1)) := by
  unfold readInodeBitmap
  cases ext2GetGroupDesc g.sb blockGroup with
  | none => exact HoldsRefs.pure rfl
  | some desc =>
    simp only
    split_ifs
    · exact HoldsRefs.get (HoldsRefs.pure rfl)
    · exact HoldsRefs.pure rfl

theorem freeInode_balanced (ino : Nat) (isDir : Bool) (s : InodeRecords) :
    HoldsRefs 0 (ext2FreeInode g k ino isDir s) fun _ => 0 := by
  unfold ext2FreeInode
  split_ifs
  · exact HoldsRefs.pure rfl
  · apply HoldsRefs.bind (readInodeBitmap_holds _)
    rintro (_ | ⟨bitmapBh, bData⟩)
    · exact HoldsRefs.pure rfl
    · exact brelse_holds (some bitmapBh) (HoldsRefs.pure rfl)

/-- Each round drops the buffer of the round before, and each way out the last one. -/
theorem searchBitmaps_balanced (left group : Nat) (bitmapBh : Option Nat) :
    HoldsRefs (held bitmapBh) (searchBitmaps g k s left group bitmapBh) fun _ => 0 := by
  induction left generalizing group bitmapBh with
  | zero => exact brelse_holds bitmapBh (HoldsRefs.pure rfl)
  | succ left ih =>
    unfold searchBitmaps
    cases ext2GetGroupDesc g.sb group with
    | none => exact ih _ _
    | some gdp =>
      apply brelse_holds
      apply HoldsRefs.bind (readInodeBitmap_holds _)
      rintro (_ | ⟨bitmapBh, bData⟩)
      · exact HoldsRefs.pure rfl
      · simp only
        cases repeatInThisGroup g.inodesPerGroup bData g.inodesPerGroup 0 with
        | none => exact ih _ (some bitmapBh)
        | some ino => exact brelse_holds (some bitmapBh) (HoldsRefs.pure rfl)

theorem newInode_balanced (isDir : Bool) (parentGroup parentIno : Nat) (s : InodeRecords) :
    HoldsRefs 0 (ext2NewInode g k isDir parentGroup parentIno s) fun _ => 0 := by
  unfold ext2NewInode
  split_ifs
  · cases (findGroup g.sb s.desc parentGroup parentIno).value with
    | none => exact HoldsRefs.pure rfl
    | some group =>
      apply HoldsRefs.bind (searchBitmaps_balanced (groupsCount g.sb) group none)
      rintro (err | ⟨group, bit⟩)
      · exact HoldsRefs.pure rfl
      · simp only
        split_ifs
        · exact HoldsRefs.pure rfl
        · exact HoldsRefs.pure rfl
        · exact HoldsRefs.pure rfl
  · exact HoldsRefs.pure rfl

end Sequential

end OsLab.Ext2
