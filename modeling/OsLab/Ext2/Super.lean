import OsLab.Ext2.InodeCodec
import OsLab.Ext2.MountState

/-!
# Mounting

`ext2_fill_super` of `super.c` over the bytes of a device, up to the root inode. The lines
behind it are `finishMount`.
-/

namespace OsLab.Ext2
open Bytes Bytes.Field

/-! ### `struct ext2_super_block` and `struct ext2_group_desc` -/

def sInodesCount : Field := ⟨0, 4⟩
def sBlocksCount : Field := ⟨4, 4⟩
def sFirstDataBlock : Field := ⟨20, 4⟩
def sLogBlockSize : Field := ⟨24, 4⟩
def sBlocksPerGroup : Field := ⟨32, 4⟩
def sInodesPerGroup : Field := ⟨40, 4⟩
def sMntCount : Field := ⟨52, 2⟩
def sMagic : Field := ⟨56, 2⟩
def sState : Field := ⟨58, 2⟩
def sErrors : Field := ⟨60, 2⟩
def sRevLevel : Field := ⟨76, 4⟩
def sFirstIno : Field := ⟨84, 4⟩
def sInodeSize : Field := ⟨88, 2⟩
def sFeatureCompat : Field := ⟨92, 4⟩
def sFeatureIncompat : Field := ⟨96, 4⟩
def sFeatureRoCompat : Field := ⟨100, 4⟩
def sFirstMetaBg : Field := ⟨236, 4⟩

def bgBlockBitmap : Field := ⟨0, 4⟩
def bgInodeBitmap : Field := ⟨4, 4⟩
def bgInodeTable : Field := ⟨8, 4⟩
def bgFreeBlocksCount : Field := ⟨12, 2⟩
def bgFreeInodesCount : Field := ⟨14, 2⟩
def bgUsedDirsCount : Field := ⟨16, 2⟩

def groupDescSize : Nat := 32

def diskSuper (img : Image) (es : Nat) : DiskSuper where
  sState := UInt16.ofNat (sState.get img es)
  sMntCount := UInt16.ofNat (sMntCount.get img es)
  sRevLevel := UInt32.ofNat (sRevLevel.get img es)
  sErrors := UInt16.ofNat (sErrors.get img es)

/-! ### The device and the kernel -/

inductive Allocation where
  | sbInfo
  | blockgroupLock
  | groupDesc (count : Nat)
  | counters
  | root

/-- A block device and what the kernel has to give. `readable` takes the block size that is set. -/
structure Device where
  bytes : Image
  logicalBlockSize : Nat
  readable : Nat → Nat → Bool
  allocates : Allocation → Bool

def blockSize : Nat := 1024
def pageLimit : Nat := 4096
def superMagic : Nat := 0xEF53

def isPowerOfTwo (n : Nat) : Bool := n ≠ 0 && 2 ^ n.log2 == n

/-- The kernel's `sb_set_blocksize`. -/
def sbSetBlocksize (dev : Device) (size : Nat) : Bool :=
  512 ≤ size && size ≤ pageLimit && isPowerOfTwo size && dev.logicalBlockSize ≤ size

/-- The kernel's `sb_min_blocksize`; 0 when it cannot set a size. -/
def sbMinBlocksize (dev : Device) (size : Nat) : Nat :=
  if sbSetBlocksize dev (max size dev.logicalBlockSize) then max size dev.logicalBlockSize else 0

/-- `int` of a 32-bit number, as 64-bit code compares it with an `unsigned long`. -/
def intWord (x : Nat) : Nat := if x < 2 ^ 31 then x else x + (2 ^ 64 - 2 ^ 32)

def ensure (condition : Bool) (err : Int) : Except Int Unit := if condition then .ok () else .error err

/-! ### `struct ext2_sb_info` -/

/-- `es` is the place of the super block, `groupDesc` are the blocks of the descriptor buffers. -/
structure SbInfo where
  dev : Device
  blocksize : Nat
  logicSbBlock : Nat
  es : Nat
  mountOpt : MountOpt
  inodeSize : Nat
  firstIno : Nat
  blocksPerGroup : Nat
  inodesPerGroup : Nat
  inodesPerBlock : Nat
  itbPerGroup : Nat
  descPerBlock : Nat
  descPerBlockBits : Nat
  mountState : UInt16
  groupsCount : Nat
  gdbCount : Nat
  groupDesc : List Nat

namespace SbInfo

/-- A field of the super block. -/
def field (sbi : SbInfo) (f : Field) : Nat := f.get sbi.dev.bytes sbi.es

def groupFirstBlockNo (sbi : SbInfo) (groupNo : Nat) : Nat :=
  groupNo * sbi.blocksPerGroup + sbi.field sFirstDataBlock

def groupLastBlockNo (sbi : SbInfo) (groupNo : Nat) : Nat :=
  if groupNo = sbi.groupsCount - 1 then (sbi.field sBlocksCount + 2 ^ 32 - 1) % 2 ^ 32
  else sbi.groupFirstBlockNo groupNo + sbi.blocksPerGroup - 1

/-- Every group has a copy of the super block. -/
def bgHasSuper (_ : SbInfo) (_ : Nat) : Nat := 1

def descriptorLoc (sbi : SbInfo) (logicSbBlock nr : Nat) : Nat :=
  let firstMetaBg := sbi.field sFirstMetaBg
  if nr < firstMetaBg then logicSbBlock + nr + 1
  else
    let bg := sbi.descPerBlock * nr
    sbi.groupFirstBlockNo bg + sbi.bgHasSuper bg

/-- `ext2_get_group_desc`: the place of the descriptor on the device. -/
def getGroupDesc (sbi : SbInfo) (blockGroup : Nat) : Option Nat :=
  if sbi.groupsCount ≤ blockGroup then none
  else
    let groupDesc := blockGroup >>> sbi.descPerBlockBits
    let offset := blockGroup &&& (sbi.descPerBlock - 1)
    match sbi.groupDesc[groupDesc]? with
    | none => none
    | some block => some (block * sbi.blocksize + groupDescSize * offset)

/-- A round of `ext2_check_descriptors`. -/
def checkDescriptor (sbi : SbInfo) (i : Nat) : Bool :=
  match sbi.getGroupDesc i with
  | none => false
  | some gdp =>
    let firstBlock := sbi.groupFirstBlockNo i
    let lastBlock := sbi.groupLastBlockNo i
    let blockBitmap := bgBlockBitmap.get sbi.dev.bytes gdp
    let inodeBitmap := bgInodeBitmap.get sbi.dev.bytes gdp
    let inodeTable := bgInodeTable.get sbi.dev.bytes gdp
    let inodeTableLast := (inodeTable + sbi.itbPerGroup + 2 ^ 64 - 1) % 2 ^ 32
    firstBlock ≤ blockBitmap && blockBitmap ≤ lastBlock && firstBlock ≤ inodeBitmap && inodeBitmap ≤ lastBlock &&
      firstBlock ≤ inodeTable && inodeTableLast ≤ lastBlock

def checkDescriptors (sbi : SbInfo) : Bool := (List.range sbi.groupsCount).all sbi.checkDescriptor

def inodeTable (sbi : SbInfo) : InodeTable where
  blocksizeBits := sbi.blocksize.log2
  groupsCount := sbi.groupsCount
  inodesPerGroup := sbi.inodesPerGroup
  inodeSize := sbi.inodeSize
  firstIno := sbi.firstIno
  inodesCount := sbi.field sInodesCount
  bgInodeTable g := ((sbi.getGroupDesc g).map (bgInodeTable.get sbi.dev.bytes)).getD 0

/-- `ext2_count_free_blocks`, `ext2_count_free_inodes` and `ext2_count_dirs`. -/
def count (sbi : SbInfo) (f : Field) : Nat :=
  ((List.range sbi.groupsCount).map fun i => ((sbi.getGroupDesc i).map (f.get sbi.dev.bytes)).getD 0).sum

end SbInfo

/-! ### `ext2_fill_super` -/

/-- Sets the block size of the super block at `es` and reads it again where another one was set. Returns
the block size and the place of the super block. -/
def rereadSuper (dev : Device) (blocksize es : Nat) : Except Int (Nat × Nat) :=
  -- `BLOCK_SIZE << s_log_block_size` as an `int`, with the shift count of an x86.
  let wanted := blockSize <<< (sLogBlockSize.get dev.bytes es % 32) % 2 ^ 32
  if blocksize = wanted then .ok (blocksize, es)
  else do
    ensure (sbSetBlocksize dev wanted) (-einval)
    let logicSbBlock := sbBlock * blockSize / wanted
    let es := logicSbBlock * wanted + sbBlock * blockSize % wanted
    ensure (dev.readable wanted logicSbBlock) (-einval)
    ensure (sMagic.get dev.bytes es == superMagic) (-einval)
    .ok (wanted, es)

/-- `parse_options` over the defaults of the super block. -/
def readOptions (dev : Device) (es : Nat) (options : List MountToken) : Except Int MountOpt :=
  match mountOptions (diskSuper dev.bytes es) options with
  | none => .error (-einval)
  | some opt => .ok opt

def findSuper (dev : Device) (options : List MountToken) : Except Int ((Nat × Nat) × MountOpt) := do
  ensure (dev.allocates .sbInfo) (-enomem)
  ensure (dev.allocates .blockgroupLock) (-enomem)
  let blocksize := sbMinBlocksize dev blockSize
  ensure (blocksize ≠ 0) (-einval)
  let logicSbBlock := sbBlock * blockSize / blocksize
  let es := logicSbBlock * blocksize + sbBlock * blockSize % blocksize
  ensure (dev.readable blocksize logicSbBlock) (-einval)
  ensure (sMagic.get dev.bytes es == superMagic) (-einval)
  let opt ← readOptions dev es options
  ensure (sFeatureRoCompat.get dev.bytes es == 0 && sFeatureCompat.get dev.bytes es == 0 &&
    sFeatureIncompat.get dev.bytes es == 0) (-einval)
  let found ← rereadSuper dev blocksize es
  .ok (found, opt)

/-- The numbers of `ext2_sb_info`, without the descriptors. -/
def readSizes (dev : Device) (blocksize es : Nat) (opt : MountOpt) : Except Int SbInfo := do
  let old := sRevLevel.get dev.bytes es == 0
  let inodeSize := if old then 128 else sInodeSize.get dev.bytes es
  let firstIno := if old then 11 else intWord (sFirstIno.get dev.bytes es)
  ensure (old || (128 ≤ inodeSize && isPowerOfTwo inodeSize && inodeSize ≤ blocksize)) (-einval)
  let blocksPerGroup := sBlocksPerGroup.get dev.bytes es
  let inodesPerGroup := sInodesPerGroup.get dev.bytes es
  let inodesPerBlock := blocksize / inodeSize
  ensure (inodesPerBlock ≠ 0 && inodesPerGroup ≠ 0) (-einval)
  let descPerBlock := blocksize / groupDescSize
  ensure (blocksPerGroup ≤ blocksize * 8) (-einval)
  ensure (inodesPerGroup ≤ blocksize * 8) (-einval)
  ensure (blocksPerGroup ≠ 0) (-einval)
  let blocks := (sBlocksCount.get dev.bytes es + 2 ^ 32 - sFirstDataBlock.get dev.bytes es + 2 ^ 32 - 1) % 2 ^ 32
  let groupsCount := blocks / blocksPerGroup + 1
  .ok {
    dev := dev
    blocksize := blocksize
    logicSbBlock := sbBlock * blockSize / blocksize
    es := es
    mountOpt := opt
    inodeSize := inodeSize
    firstIno := firstIno
    blocksPerGroup := blocksPerGroup
    inodesPerGroup := inodesPerGroup
    inodesPerBlock := inodesPerBlock
    itbPerGroup := inodesPerGroup / inodesPerBlock
    descPerBlock := descPerBlock
    descPerBlockBits := descPerBlock.log2
    mountState := (diskSuper dev.bytes es).sState
    groupsCount := groupsCount
    gdbCount := (groupsCount + descPerBlock - 1) / descPerBlock
    groupDesc := [] }

/-- The loop that reads the descriptor blocks, and their check. -/
def readDescriptors (sbi : SbInfo) : Except Int SbInfo := do
  ensure (sbi.dev.allocates (.groupDesc sbi.gdbCount)) (-enomem)
  let blocks := (List.range sbi.gdbCount).map (sbi.descriptorLoc sbi.logicSbBlock)
  ensure (blocks.all (sbi.dev.readable sbi.blocksize)) (-einval)
  let sbi := { sbi with groupDesc := blocks }
  ensure sbi.checkDescriptors (-einval)
  ensure (sbi.dev.allocates .counters) (-enomem)
  .ok sbi

/-- `none` where the load of the root inode is undefined. -/
def readRoot (slab : Image) (sbi : SbInfo) : Option (Except Int SbInfo) :=
  match ext2Iget sbi.inodeTable (sbi.dev.readable sbi.blocksize) slab sbi.dev.bytes rootIno with
  | .failed err => some (.error err)
  | .undefined => none
  | .loaded root =>
    if !sIsDir root.iMode || root.iBlocks = 0 || root.iSize = 0 then some (.error (-einval))
    else some (do
      ensure (sbi.dev.allocates .root) (-enomem)
      .ok sbi)

def ext2FillSuper (dev : Device) (options : List MountToken) (slab : Image) : Option (Except Int SbInfo) :=
  match findSuper dev options with
  | .error err => some (.error err)
  | .ok ((blocksize, es), opt) =>
    match readSizes dev blocksize es opt >>= readDescriptors with
    | .error err => some (.error err)
    | .ok sbi => readRoot slab sbi

end OsLab.Ext2
