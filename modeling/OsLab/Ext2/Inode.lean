import OsLab.Ext2.Balloc

/-!
# The blocks of an inode

`inode.c`: the direct block slots of an inode, filled by `ext2_get_blocks` and emptied by
`ext2_truncate_blocks`, which frees contiguous blocks together.
-/

namespace OsLab.Ext2

def ndirBlocks : Nat := 12

variable {ι : Type} [DecidableEq ι]

def ext2InodeIsFastSymlink (inode : BlockInode) : Bool := inode.kind = .lnk && inode.iBlocks = 0

/-- `i_data[slot] = block` -/
def setSlot (inode : ι) (slot block : Nat) (s : BlockState ι) : BlockState ι :=
  { s with
    inodes := Function.update s.inodes inode
      { s.inodes inode with iData := Function.update (s.inodes inode).iData slot block } }

structure GotBlocks (ι : Type) where
  ret : Int
  bno : Option Nat
  new : Bool
  state : BlockState ι

def ext2GetBlocks (sb : SuperBlock) (counterRead : Nat) (bh : Nat → BhRead) (inode : ι) (iblock : Nat)
    (create : Bool) (s : BlockState ι) : GotBlocks ι :=
  if ndirBlocks ≤ iblock then ⟨-eio, none, false, s⟩
  else
    let blockNo := (s.inodes inode).iData iblock
    if 0 < blockNo then ⟨1, some blockNo, false, s⟩
    else if !create then ⟨0, some 0, false, s⟩
    else
      match ext2NewBlocks sb counterRead bh inode 1 s with
      | (.error errp, s) => ⟨errp, none, false, s⟩
      | (.ok (resb, count), s) =>
        let s := setSlot inode iblock resb s
        ⟨count, some resb, true,
          { s with
            inodes := Function.update s.inodes inode
              { s.inodes inode with iBlocks := (s.inodes inode).iBlocks + count * blocksize sb / 512 } }⟩

/-- The loop of `ext2_free_data` with `left` slots to go and the call behind it. `bh p` tells how the
bitmap is read when the loop frees at the slot `p`. -/
def freeDataLoop (sb : SuperBlock) (bh : Nat → BhRead) (inode : ι) :
    Nat → Nat → Nat → Nat → BlockState ι → BlockState ι
  | 0, p, blockToFree, count, s => if 0 < count then ext2FreeBlocks sb (bh p) inode blockToFree count s else s
  | left + 1, p, blockToFree, count, s =>
    let nr := (s.inodes inode).iData p
    if nr ≠ 0 then
      let s := setSlot inode p 0 s
      if count = 0 then freeDataLoop sb bh inode left (p + 1) nr 1 s
      else if blockToFree = nr - count then freeDataLoop sb bh inode left (p + 1) blockToFree (count + 1) s
      else freeDataLoop sb bh inode left (p + 1) nr 1 (ext2FreeBlocks sb (bh p) inode blockToFree count s)
    else freeDataLoop sb bh inode left (p + 1) blockToFree count s

/-- The slots from `p` up to `i_data[EXT2_NDIR_BLOCKS]`. -/
def ext2FreeData (sb : SuperBlock) (bh : Nat → BhRead) (inode : ι) (p : Nat) (s : BlockState ι) : BlockState ι :=
  freeDataLoop sb bh inode (ndirBlocks - p) p 0 0 s

def ext2TruncateBlocks (sb : SuperBlock) (bh : Nat → BhRead) (inode : ι) (offset : Nat) (s : BlockState ι) :
    BlockState ι :=
  let kind := (s.inodes inode).kind
  if ¬ (kind = .reg ∨ kind = .dir ∨ kind = .lnk) then s
  else if ext2InodeIsFastSymlink (s.inodes inode) then s
  else
    let iblock := (offset + blocksize sb - 1) >>> sb.blocksizeBits
    ext2FreeData sb bh inode iblock s

end OsLab.Ext2
