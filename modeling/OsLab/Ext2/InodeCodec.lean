import OsLab.Foundation.Fields
import OsLab.Ext2.Balloc
import OsLab.Ext2.Kdev

/-!
# Inodes on disk

`ext2_get_inode`, `ext2_iget` and `ext2_do_write_inode` of `inode.c` over the bytes of the
device. The undeclared `inode_pg` and `Eio` of `ext2_get_inode` are its `inodes_pg` and `eio`.
-/

namespace OsLab.Ext2
open Bytes Bytes.Field

/-! ### `struct ext2_inode` -/

def rawMode : Field := ⟨0, 2⟩
def rawUid : Field := ⟨2, 2⟩
def rawSize : Field := ⟨4, 4⟩
def rawAtime : Field := ⟨8, 4⟩
def rawCtime : Field := ⟨12, 4⟩
def rawMtime : Field := ⟨16, 4⟩
def rawDtime : Field := ⟨20, 4⟩
def rawGid : Field := ⟨24, 2⟩
def rawLinksCount : Field := ⟨26, 2⟩
def rawBlocks : Field := ⟨28, 4⟩
def rawFlags : Field := ⟨32, 4⟩
def rawBlock (n : Nat) : Field := ⟨40 + 4 * n, 4⟩

def nBlocks : Nat := 15

/-! ### Inodes in memory -/

def fileType (mode : UInt16) : UInt16 := mode &&& 0xF000

def sIsReg (mode : UInt16) : Bool := fileType mode == 0x8000
def sIsDir (mode : UInt16) : Bool := fileType mode == 0x4000
def sIsLnk (mode : UInt16) : Bool := fileType mode == 0xA000
def sIsChr (mode : UInt16) : Bool := fileType mode == 0x2000
def sIsBlk (mode : UInt16) : Bool := fileType mode == 0x6000

/-- `struct inode` with its `ext2_inode_info`. `iData` are the 60 bytes of `i_data`, and `iLink`
tells that `i_link` points at them. -/
structure VfsInode where
  iIno : Nat
  iMode : UInt16
  iUid : Nat
  iGid : Nat
  iNlink : Nat
  iSize : Int
  iAtime : Int
  iCtime : Int
  iMtime : Int
  iBlocks : Nat
  iRdev : Nat
  iLink : Bool
  iDtime : Nat
  iFlags : Nat
  isNew : Bool
  iBlockGroup : Nat
  iData : Image

def VfsInode.isFastSymlink (inode : VfsInode) : Bool := sIsLnk inode.iMode && inode.iBlocks == 0

/-- What the mount knows of the inode tables. -/
structure InodeTable where
  blocksizeBits : Nat
  groupsCount : Nat
  inodesPerGroup : Nat
  inodeSize : Nat
  firstIno : Nat
  inodesCount : Nat
  bgInodeTable : Nat → Nat

/-- A mount checks the sizes of a block and of an inode. -/
structure MountedTable extends InodeTable where
  block : 10 ≤ blocksizeBits
  sized : 128 ≤ inodeSize

def rootIno : Nat := 2
def euclean : Int := 117

/-- The place of the inode on the device. -/
def ext2GetInode (v : InodeTable) (readable : Nat → Bool) (ino : Nat) : Except Int Nat :=
  if (ino ≠ rootIno ∧ ino < v.firstIno) ∨ v.inodesCount < ino then .error (-einval)
  else
    let index := (ino + 2 ^ 64 - 1) % 2 ^ 64
    -- `ext2_get_group_desc` takes the group as an `unsigned int`.
    let blockGroup := index / v.inodesPerGroup % 2 ^ 32
    if v.groupsCount ≤ blockGroup then .error (-eio)
    else
      let offset := index % v.inodesPerGroup * v.inodeSize
      let block := v.bgInodeTable blockGroup + offset >>> v.blocksizeBits
      if readable block then .ok (block * 2 ^ v.blocksizeBits + (offset &&& (2 ^ v.blocksizeBits - 1)))
      else .error (-eio)

/-- `(signed)` of a 32-bit number. -/
def signed (x : Nat) : Int := if x < 2 ^ 31 then x else x - 2 ^ 32

/-- `cpu_to_le32` of a wider number. -/
def low32 (n : Int) : Nat := (n % 2 ^ 32).toNat

/-- `fs_high2lowuid`, with 65534 as `fs_overflowuid`. -/
def fsHigh2lowuid (uid : Nat) : Nat := if uid &&& complement 0xFFFF ≠ 0 then 65534 else uid

/-- The kernel's `init_special_inode`. -/
def initSpecialInode (inode : VfsInode) (rdev : Nat) : VfsInode :=
  if sIsChr inode.iMode || sIsBlk inode.iMode then { inode with iRdev := rdev } else inode

/-- `nd_terminate_link` -/
def ndTerminateLink (name : Image) (len maxlen : Nat) : Image := Bytes.write name (min len maxlen) [0]

/-! ### Loading -/

/-- What `ext2_iget` of an inode that is not cached comes to; `undefined` when it uses `ei` before it
is assigned. -/
inductive Iget where
  | failed (err : Int)
  | undefined
  | loaded (inode : VfsInode)

/-- The inode that `iget_locked` returns has its fields of the disk filled in. `slab` is what the memory
of its `i_data` holds. -/
def fillInode (img slab : Image) (raw ino : Nat) : VfsInode where
  iIno := ino
  iMode := UInt16.ofNat (rawMode.get img raw)
  iUid := rawUid.get img raw
  iGid := rawGid.get img raw
  iNlink := rawLinksCount.get img raw
  iSize := rawSize.get img raw
  iAtime := signed (rawAtime.get img raw)
  iCtime := signed (rawCtime.get img raw)
  iMtime := signed (rawMtime.get img raw)
  iBlocks := rawBlocks.get img raw
  iRdev := 0
  iLink := false
  iDtime := 0
  iFlags := 0
  isNew := false
  iBlockGroup := 0
  iData := slab

/-- The branches on the type. `ei` is the local variable; `none` when it is used without a value. -/
def setOperations (img : Image) (raw : Nat) (ei : Option Image) (inode : VfsInode) : Option VfsInode :=
  if sIsReg inode.iMode then some inode
  else if sIsDir inode.iMode then some inode
  else if sIsLnk inode.iMode then
    if inode.isFastSymlink then
      ei.map fun iData =>
        { inode with iLink := true, iData := ndTerminateLink iData inode.iSize.toNat (4 * nBlocks - 1) }
    else some inode
  else if (rawBlock 0).get img raw ≠ 0 then
    some (initSpecialInode inode (oldDecodeDev ((rawBlock 0).get img raw)))
  else some (initSpecialInode inode (newDecodeDev ((rawBlock 1).get img raw)))

/-- The words of `i_data`. -/
def dataWord (n : Nat) : Field := ⟨4 * n, 4⟩

def ext2Iget (v : InodeTable) (readable : Nat → Bool) (slab img : Image) (ino : Nat) : Iget :=
  match ext2GetInode v readable ino with
  | .error err => .failed err
  | .ok raw =>
    let inode := fillInode img slab raw ino
    if inode.iSize < 0 then .failed (-euclean)
    else
      -- `struct ext2_inode_info *ei;` gets its value only below.
      match setOperations img raw none inode with
      | none => .undefined
      | some inode =>
        .loaded { inode with
          iFlags := rawFlags.get img raw
          iDtime := 0
          isNew := false
          iBlockGroup := (ino - 1) / v.inodesPerGroup
          iData := puts inode.iData 0
            ((List.range nBlocks).map fun n => (dataWord n, (rawBlock n).get img raw)) }

/-! ### Writing -/

/-- The assignments to the fields of `raw_inode`, in their order. -/
def rawFields (inode : VfsInode) : List (Field × Nat) :=
  [(rawMode, inode.iMode.toNat), (rawUid, fsHigh2lowuid inode.iUid), (rawGid, fsHigh2lowuid inode.iGid),
    (rawLinksCount, inode.iNlink), (rawSize, low32 inode.iSize), (rawAtime, low32 inode.iAtime),
    (rawCtime, low32 inode.iCtime), (rawMtime, low32 inode.iMtime), (rawBlocks, inode.iBlocks),
    (rawDtime, inode.iDtime), (rawFlags, inode.iFlags)]

def rawBlockFields (inode : VfsInode) : List (Field × Nat) :=
  if sIsChr inode.iMode || sIsBlk inode.iMode then
    if oldValidDev inode.iRdev then [(rawBlock 0, oldEncodeDev inode.iRdev), (rawBlock 1, 0)]
    else [(rawBlock 0, 0), (rawBlock 1, newEncodeDev inode.iRdev), (rawBlock 2, 0)]
  else (List.range nBlocks).map fun n => (rawBlock n, (dataWord n).get inode.iData 0)

/-- The return value, the device and the inode. `syncFails` tells that the buffer was to be written at
once and could not. -/
def ext2DoWriteInode (v : InodeTable) (readable : Nat → Bool) (syncFails : Bool) (img : Image)
    (inode : VfsInode) : Int × Image × VfsInode :=
  match ext2GetInode v readable inode.iIno with
  | .error _ => (-eio, img, inode)
  | .ok raw =>
    let img := if inode.isNew then Bytes.write img raw (List.replicate v.inodeSize 0) else img
    (if syncFails then -eio else 0, puts img raw (rawFields inode ++ rawBlockFields inode),
      { inode with isNew := false })

end OsLab.Ext2
