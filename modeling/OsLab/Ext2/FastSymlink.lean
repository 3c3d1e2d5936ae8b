import OsLab.Ext2.InodeReload

/-!
# Fast symlinks

The targets that `ext2_symlink` keeps in the block pointers of the inode, and the load that
uses `ei` before it has a value.
-/

namespace OsLab.Ext2
open Bytes Bytes.Field

def enametoolong : Int := 36
def sIfLnkMode : UInt16 := 0xA1FF

def newSymlink (ino uid gid flags group : Nat) (now : Int) : VfsInode where
  iIno := ino
  iMode := sIfLnkMode
  iUid := uid
  iGid := gid
  iNlink := 1
  iSize := 0
  iAtime := now
  iCtime := now
  iMtime := now
  iBlocks := 0
  iRdev := 0
  iLink := false
  iDtime := 0
  iFlags := flags
  isNew := true
  iBlockGroup := group
  iData := fun _ => 0

inductive Symlink where
  | failed (err : Int)
  /-- The target goes to a page of the inode. -/
  | slow (inode : VfsInode)
  | fast (inode : VfsInode)

def keepInline (inode : VfsInode) (symname : List UInt8) : VfsInode :=
  { inode with iLink := true, iData := Bytes.write inode.iData 0 (symname ++ [0]), iSize := symname.length }

/-- `symname` are the bytes before the NUL. -/
def ext2Symlink (blocksize : Nat) (inode : VfsInode) (symname : List UInt8) : Symlink :=
  let l := symname.length + 1
  if blocksize < l then .failed (-enametoolong)
  else if 4 * nBlocks < l then .slow inode
  else .fast (keepInline inode symname)

def linkText (inode : VfsInode) : List UInt8 := (Bytes.read inode.iData 0 (4 * nBlocks)).takeWhile (· ≠ 0)

/-- Created, written and loaded again, the inode is a fast symlink with its target. -/
def Survives (v : MountedTable) (readable : Nat → Bool) (syncFails : Bool) (img slab : Image) (new : VfsInode)
    (symname : List UInt8) : Prop :=
  ∃ created loaded, ext2Symlink (2 ^ v.blocksizeBits) new symname = .fast created ∧
    ext2Iget v.toInodeTable readable slab (ext2DoWriteInode v.toInodeTable readable syncFails img created).2.1
      created.iIno = .loaded loaded ∧
    loaded.isFastSymlink ∧ loaded.iLink ∧ linkText loaded = symname

theorem fast_created {v : MountedTable} {symname : List UInt8} (short : symname.length < 4 * nBlocks)
    (inode : VfsInode) : ext2Symlink (2 ^ v.blocksizeBits) inode symname = .fast (keepInline inode symname) := by
  have large : 2 ^ 10 ≤ 2 ^ v.blocksizeBits := Nat.pow_le_pow_right (by decide) v.block
  have fits : ¬ 2 ^ v.blocksizeBits < symname.length + 1 := by
    unfold nBlocks at short
    omega
  have inline : ¬ 4 * nBlocks < symname.length + 1 := by omega
  unfold ext2Symlink
  simp only [if_neg fits, if_neg inline]

theorem created_text {symname : List UInt8} (short : symname.length < 4 * nBlocks) (clean : 0 ∉ symname)
    (inode : VfsInode) : linkText (keepInline inode symname) = symname := by
  obtain ⟨rest, split⟩ := Nat.exists_eq_add_of_le (show (symname ++ [0]).length ≤ 4 * nBlocks by
    rw [List.length_append]
    exact short)
  have nonzero : ∀ b ∈ symname, decide (b ≠ 0) = true := by
    intro b member
    rw [decide_eq_true_iff]
    rintro rfl
    exact clean member
  rw [linkText, keepInline, split, read_append, read_write_self, List.append_assoc, List.takeWhile_append_of_pos nonzero]
  simp

/-- The load of any inode that is stored as a fast symlink uses `ei` before it is assigned. -/
theorem ext2Iget_fast {v : InodeTable} {readable : Nat → Bool} {raw ino : Nat} {inode : VfsInode} (slab old : Image)
    (found : ext2GetInode v readable ino = .ok raw) (link : sIsLnk inode.iMode = true) (empty : inode.iBlocks = 0) :
    ext2Iget v readable slab (written old raw inode) ino = .undefined := by
  have mode := @fillInode_mode old slab raw inode ino
  have blocks := @fillInode_blocks old slab raw inode (by omega) ino
  have type : fileType inode.iMode = 0xA000 := by simpa [sIsLnk] using link
  have reg : sIsReg inode.iMode = false := by
    rw [sIsReg, type]
    decide
  have dir : sIsDir inode.iMode = false := by
    rw [sIsDir, type]
    decide
  have nonneg : ¬ (fillInode (written old raw inode) slab raw ino).iSize < 0 := by
    simp [fillInode]
  have undefined : setOperations (written old raw inode) raw none
      (fillInode (written old raw inode) slab raw ino) = none := by
    unfold setOperations VfsInode.isFastSymlink
    rw [mode, blocks, reg, dir, link, empty]
    rfl
  unfold ext2Iget
  simp only [found, if_neg nonneg, undefined]

/-- No target of a fast symlink survives: where the slot of the inode can be read back, the load
uses `ei` before it is assigned. -/
theorem fast_symlinks_lost (v : MountedTable) (readable : Nat → Bool) (syncFails : Bool) (img slab : Image)
    (ino uid gid flags group : Nat) (now : Int) (symname : List UInt8) (short : symname.length ≤ 59) :
    ∃ created, ext2Symlink (2 ^ v.blocksizeBits) (newSymlink ino uid gid flags group now) symname = .fast created ∧
      (∀ raw, ext2GetInode v.toInodeTable readable created.iIno = .ok raw →
        ext2Iget v.toInodeTable readable slab (ext2DoWriteInode v.toInodeTable readable syncFails img created).2.1
          created.iIno = .undefined) ∧
      ¬ Survives v readable syncFails img slab (newSymlink ino uid gid flags group now) symname := by
  have made := @fast_created v symname (Nat.lt_succ_of_le short) (newSymlink ino uid gid flags group now)
  have load (raw : Nat) (found : ext2GetInode v.toInodeTable readable
      (keepInline (newSymlink ino uid gid flags group now) symname).iIno = .ok raw) :
      ext2Iget v.toInodeTable readable slab (ext2DoWriteInode v.toInodeTable readable syncFails img
        (keepInline (newSymlink ino uid gid flags group now) symname)).2.1
        (keepInline (newSymlink ino uid gid flags group now) symname).iIno = .undefined := by
    obtain ⟨old, same, -⟩ := ext2DoWriteInode_eq found syncFails img
    rw [same]
    exact ext2Iget_fast slab old found (show sIsLnk sIfLnkMode = true by decide) rfl
  refine ⟨_, made, load, ?_⟩
  rintro ⟨created, loaded, again, reloaded, -⟩
  obtain rfl := Symlink.fast.inj (made.symm.trans again)
  cases found : ext2GetInode v.toInodeTable readable
      (keepInline (newSymlink ino uid gid flags group now) symname).iIno with
  | ok raw =>
    rw [load raw found] at reloaded
    cases reloaded
  | error err =>
    unfold ext2Iget at reloaded
    rw [found] at reloaded
    cases reloaded

theorem fast_symlinks_lost_letter :
    ∃ created, ext2Symlink (2 ^ 10) (newSymlink 16 0 0 0 0 0) [0x61] = .fast created ∧
      (∀ raw, ext2GetInode sampleTable.toInodeTable (fun _ => true) created.iIno = .ok raw →
        ext2Iget sampleTable.toInodeTable (fun _ => true) (fun _ => 0)
          (ext2DoWriteInode sampleTable.toInodeTable (fun _ => true) false (fun _ => 0) created).2.1
          created.iIno = .undefined) ∧
      ¬ Survives sampleTable (fun _ => true) false (fun _ => 0) (fun _ => 0) (newSymlink 16 0 0 0 0 0) [0x61] :=
  fast_symlinks_lost sampleTable (fun _ => true) false (fun _ => 0) (fun _ => 0) 16 0 0 0 0 0 [0x61] (by decide)

theorem letter_target_lost :
    ¬ ∀ (v : MountedTable) (readable : Nat → Bool) (img slab : Image) (ino : Nat) (symname : List UInt8),
      (∃ raw, ext2GetInode v.toInodeTable readable ino = .ok raw) → 1 ≤ symname.length → symname.length ≤ 59 →
      0 ∉ symname → Survives v readable false img slab (newSymlink ino 0 0 0 0 0) symname := by
  intro survive
  obtain ⟨created, loaded, made, reloaded, -⟩ := survive sampleTable (fun _ => true) (fun _ => 0) (fun _ => 0) 16
    [0x61] ⟨_, rfl⟩ (by decide) (by decide) (by decide)
  obtain rfl := Symlink.fast.inj made
  have found : ext2GetInode sampleTable.toInodeTable (fun _ => true)
      (keepInline (newSymlink 16 0 0 0 0 0) [0x61]).iIno = .ok 7040 := rfl
  obtain ⟨old, same, -⟩ := ext2DoWriteInode_eq found false (fun _ => 0)
  rw [same, ext2Iget_fast _ old found (by decide) rfl] at reloaded
  cases reloaded

end OsLab.Ext2
