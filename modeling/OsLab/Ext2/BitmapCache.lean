import OsLab.Foundation.Runs
import OsLab.Ext2.FirstFit

/-!
# Bitmaps in the buffer cache

Calls of `ext2_read_block_bitmap` on one group, with the buffer that they leave in the cache:
it is up to date from the first successful read on, whatever the check of its bits said.
-/

namespace OsLab.Ext2
open Bitmap Runs

/-- What the block layer does for a call: no buffer, a failed read, or the content of the disk. -/
inductive BufferIo where
  | noBuffer | readError | read
  deriving DecidableEq, Repr

/-- The buffer of a bitmap, and what the calls so far have returned. -/
structure BitmapBuffer where
  uptodate : Bool
  returned : List Bits

def fresh : BitmapBuffer := ⟨false, []⟩

/-- The buffer is asked for first, and read only when it is not up to date. -/
def BitmapBuffer.bh (buffer : BitmapBuffer) : BufferIo → BhRead
  | .noBuffer => .noBuffer
  | .readError => if buffer.uptodate then .uptodate else .readError
  | .read => if buffer.uptodate then .uptodate else .read

variable {ι : Type} {sb : SuperBlock} {s : BlockState ι} {group : Nat} {buffer : BitmapBuffer}

/-- One call; a buffer that was read stays up to date. -/
def readCall (sb : SuperBlock) (s : BlockState ι) (group : Nat) (buffer : BitmapBuffer) (io : BufferIo) : BitmapBuffer where
  uptodate :=
    match ext2GetGroupDesc sb group with
    | none => buffer.uptodate
    | some _ => buffer.uptodate || buffer.bh io = .read
  returned := (ext2ReadBlockBitmap sb (buffer.bh io) s group).toList ++ buffer.returned

/-- The bitmap of the group passes the check. -/
def ValidContent (sb : SuperBlock) (s : BlockState ι) (group : Nat) : Prop :=
  ext2BlockBitmapValid sb group group (s.bitmap group) = true

def OnlyValid (sb : SuperBlock) (group : Nat) (buffer : BitmapBuffer) : Prop :=
  ∀ bData, bData ∈ buffer.returned → ext2BlockBitmapValid sb group group bData = true

theorem readCall_valid (content : group < groupsCount sb → ValidContent sb s group) (valid : OnlyValid sb group buffer)
    (io : BufferIo) : OnlyValid sb group (readCall sb s group buffer io) := by
  intro bData member
  rcases List.mem_append.mp member with now | before
  · obtain ⟨rfl, inside⟩ := readBlockBitmap_some (Option.mem_toList.mp now)
    exact content inside
  · exact valid bData before

/-- The second call finds the buffer that the first one has read and refused. -/
theorem read_twice (inside : group < groupsCount sb) :
    s.bitmap group ∈ ([.read, .read].foldl (readCall sb s group) fresh).returned := by
  simp [readCall, BitmapBuffer.bh, fresh, ext2ReadBlockBitmap, getGroupDesc_inside inside]

/-- Whatever the calls and the device do, only valid bitmaps are returned when the bitmap on the disk is valid,
and only then. -/
theorem cached_reads_iff (sb : SuperBlock) (s : BlockState ι) (group : Nat) :
    (∀ ios : List BufferIo, OnlyValid sb group (ios.foldl (readCall sb s group) fresh)) ↔
      (group < groupsCount sb → ext2BlockBitmapValid sb group group (s.bitmap group) = true) := by
  constructor
  · intro valid inside
    exact valid [.read, .read] _ (read_twice inside)
  · intro content ios
    apply foldl_invariant (I := OnlyValid sb group) fun buffer io valid => readCall_valid content valid io
    intro bData none
    cases none

/-- All bits are clear, also those of the bitmaps and of the inode table. -/
def nothingMarked : BlockState Unit where
  bitmap _ _ := false
  bgFreeBlocksCount _ := 16
  sFreeblocksCounter := 32
  inodes _ := ⟨.reg, 0, fun _ => 0, 0⟩

theorem refused_bitmap_returned :
    ¬ ∀ (sb : SuperBlock) (s : BlockState Unit) (group : Nat) (ios : List BufferIo),
      OnlyValid sb group (ios.foldl (readCall sb s group) fresh) := by
  intro all
  have valid := all twoGroups.toSuperBlock nothingMarked 0 [.read, .read] _ (read_twice (by decide))
  exact absurd valid (by decide)

end OsLab.Ext2
