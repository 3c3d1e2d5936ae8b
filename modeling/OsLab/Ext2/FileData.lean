import OsLab.Ext2.Inode

/-!
# The data of files

What `write`, `truncate` and the last `iput` of an inode do to the bytes of the volume, through
`ext2_get_block`. The bytes are those that the page cache shows: `block_write_begin` and
`block_truncate_page` change them at once.
-/

namespace OsLab.Ext2

variable {ι : Type}

/-- The sizes of the inodes, and the bytes of the blocks. -/
structure FileState (ι : Type) where
  blocks : BlockState ι
  size : ι → Nat
  disk : Nat → Nat → UInt8

structure BufferHead where
  mapped : Option Nat
  size : Nat
  new : Bool

/-- How the bitmaps are read, what `percpu_counter_read_positive` returns, whether there is memory for a
page, and whether blocks that are written or cut in part cannot be read. -/
structure FileIo where
  counterRead : Nat → Nat
  bitmaps : Nat → Nat → BhRead
  truncation : Nat → BhRead
  noPage : Bool
  readFails : Bool

variable [DecidableEq ι]

def ext2GetBlock (sb : SuperBlock) (counterRead : Nat) (bh : Nat → BhRead) (inode : ι) (iblock : Nat)
    (bhResult : BufferHead) (create : Bool) (s : BlockState ι) : Int × BufferHead × BlockState ι :=
  let got := ext2GetBlocks sb counterRead bh inode iblock create s
  if got.ret ≤ 0 then (got.ret, bhResult, got.state)
  else (0, ⟨got.bno, got.ret.toNat <<< sb.blocksizeBits, bhResult.new || got.new⟩, got.state)

def unmapped (sb : SuperBlock) : BufferHead := ⟨none, blocksize sb, false⟩

/-! ### Writing -/

/-- A new block is zero where the data do not go, and all of it when they go nowhere. -/
def zeroNew (bh : BufferHead) (s : FileState ι) : FileState ι :=
  match bh.mapped with
  | some b => if bh.new then { s with disk := Function.update s.disk b fun _ => 0 } else s
  | none => s

/-- `__block_write_begin` with `left` blocks to go, from `iblock` on. -/
def writeBeginLoop (sb : SuperBlock) (io : FileIo) (inode : ι) : Nat → Nat → FileState ι → Int × FileState ι
  | 0, _, s => (if io.readFails then -eio else 0, s)
  | left + 1, iblock, s =>
    let (ret, bh, blocks) :=
      ext2GetBlock sb (io.counterRead iblock) (io.bitmaps iblock) inode iblock (unmapped sb) true s.blocks
    if ret ≠ 0 then (ret, { s with blocks })
    else writeBeginLoop sb io inode left (iblock + 1) (zeroNew bh { s with blocks })

def blockWriteBegin (sb : SuperBlock) (io : FileIo) (inode : ι) (pos len : Nat) (s : FileState ι) : Int × FileState ι :=
  let first := pos / blocksize sb
  let last := (pos + len - 1) / blocksize sb
  if io.noPage then (-enomem, s) else writeBeginLoop sb io inode (last + 1 - first) first s

def ext2WriteFailed (sb : SuperBlock) (io : FileIo) (inode : ι) (upTo : Nat) (s : FileState ι) : FileState ι :=
  if s.size inode < upTo then
    { s with blocks := ext2TruncateBlocks sb io.truncation inode (s.size inode) s.blocks }
  else s

def ext2WriteBegin (sb : SuperBlock) (io : FileIo) (inode : ι) (pos len : Nat) (s : FileState ι) : Int × FileState ι :=
  let (ret, s) := blockWriteBegin sb io inode pos len s
  if ret < 0 then (ret, ext2WriteFailed sb io inode (pos + len) s) else (ret, s)

def copyBytes (sb : SuperBlock) (inode : ι) : List UInt8 → Nat → FileState ι → FileState ι
  | [], _, s => s
  | c :: data, pos, s =>
    let b := (s.blocks.inodes inode).iData (pos / blocksize sb)
    copyBytes sb inode data (pos + 1)
      { s with disk := Function.update s.disk b (Function.update (s.disk b) (pos % blocksize sb) c) }

/-- `copied` are the bytes of the `len` that have come from user space. -/
def ext2WriteEnd (sb : SuperBlock) (io : FileIo) (inode : ι) (pos len : Nat) (copied : List UInt8) (s : FileState ι) :
    Int × FileState ι :=
  let s := copyBytes sb inode copied pos s
  let s := { s with size := Function.update s.size inode (max (s.size inode) (pos + copied.length)) }
  if copied.length < len then (copied.length, ext2WriteFailed sb io inode (pos + len) s) else (copied.length, s)

/-- What `generic_perform_write` does for one page. -/
def writePage (sb : SuperBlock) (io : FileIo) (inode : ι) (pos len : Nat) (copied : List UInt8) (s : FileState ι) :
    Int × FileState ι :=
  let (ret, s) := ext2WriteBegin sb io inode pos len s
  if ret < 0 then (ret, s) else ext2WriteEnd sb io inode pos len copied s

/-! ### Truncation -/

/-- The bytes from `newsize` to the end of its block become zero. -/
def blockTruncatePage (sb : SuperBlock) (io : FileIo) (inode : ι) (newsize : Nat) (s : FileState ι) : Int × FileState ι :=
  if newsize % blocksize sb = 0 then (0, s)
  else if io.noPage then (-enomem, s)
  else
    let (ret, bh, _) := ext2GetBlock sb 0 io.truncation inode (newsize / blocksize sb) (unmapped sb) false s.blocks
    if ret ≠ 0 then (ret, s)
    else
      match bh.mapped with
      | none => (0, s)
      | some b =>
        if io.readFails then (-eio, s)
        else
          (0, { s with
            disk := Function.update s.disk b fun off => if off < newsize % blocksize sb then s.disk b off else 0 })

def ext2Setsize (sb : SuperBlock) (io : FileIo) (inode : ι) (newsize : Nat) (s : FileState ι) : Int × FileState ι :=
  let kind := (s.blocks.inodes inode).kind
  if ¬ (kind = .reg ∨ kind = .dir ∨ kind = .lnk) then (-einval, s)
  else if ext2InodeIsFastSymlink (s.blocks.inodes inode) then (-einval, s)
  else
    let (error, s) := blockTruncatePage sb io inode newsize s
    if error ≠ 0 then (error, s)
    else
      (0, { s with
        size := Function.update s.size inode newsize
        blocks := ext2TruncateBlocks sb io.truncation inode newsize s.blocks })

/-- `ext2_evict_inode` of an inode without links, up to `ext2_free_inode`. -/
def evictData (sb : SuperBlock) (io : FileIo) (inode : ι) (s : FileState ι) : FileState ι :=
  let s := { s with size := Function.update s.size inode 0 }
  if (s.blocks.inodes inode).iBlocks ≠ 0 then
    { s with blocks := ext2TruncateBlocks sb io.truncation inode 0 s.blocks }
  else s

/-! ### Reading -/

/-- A block that is not mapped reads as zeros. -/
def readByte (sb : SuperBlock) (inode : ι) (p : Nat) (s : FileState ι) : Except Int UInt8 :=
  let (ret, bh, _) :=
    ext2GetBlock sb 0 (fun _ => .uptodate) inode (p / blocksize sb) (unmapped sb) false s.blocks
  if ret ≠ 0 then .error ret
  else
    match bh.mapped with
    | some b => .ok (s.disk b (p % blocksize sb))
    | none => .ok 0

/-- At most `n` bytes from `pos` on, from blocks that can be read. -/
def readFile (sb : SuperBlock) (inode : ι) (pos n : Nat) (s : FileState ι) : Except Int (List UInt8) :=
  (List.range (min n (s.size inode - pos))).mapM fun k => readByte sb inode (pos + k) s

end OsLab.Ext2
