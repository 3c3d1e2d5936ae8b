import OsLab.Ext2.DirMap

/-!
# Names and inodes

`namei.c`: the operations that create, link, move and remove names, over the directories and
the link counts of all inodes. `io k` is what the page cache and the block layer answer during
the `k`-th call on a directory that an operation makes.
-/

namespace OsLab.Ext2.Namei

def enotempty : Int := 39
def enametoolong : Int := 36

/-- The `i_data` of an inode has 15 words. -/
def iDataSize : Nat := 60

/-- The inodes in memory, by their numbers. -/
structure State where
  dirs : Nat → Dir
  nlink : Nat → Nat
  isDir : Nat → Bool
  inUse : Nat → Bool

namespace State

def setDir (s : State) (d : Nat) (dir : Dir) : State := { s with dirs := Function.update s.dirs d dir }

def incLinkCount (s : State) (i : Nat) : State := { s with nlink := Function.update s.nlink i (s.nlink i + 1) }

/-- `drop_nlink`, of a count that is not 0. -/
def decLinkCount (s : State) (i : Nat) : State := { s with nlink := Function.update s.nlink i (s.nlink i - 1) }

/-- What `ext2_new_inode` has returned; `new_inode` sets the count to 1. -/
def newInode (s : State) (inode : Dir) (isDir : Bool) : State where
  dirs := Function.update s.dirs inode.iNo inode
  nlink := Function.update s.nlink inode.iNo 1
  isDir := Function.update s.isDir inode.iNo isDir
  inUse := Function.update s.inUse inode.iNo true

/-- Without links and users the inode is freed. -/
def discardNewInode (s : State) (i : Nat) : State := { s with inUse := Function.update s.inUse i false }

variable (s : State) (d i : Nat) (dir : Dir) (b : Bool)

@[simp] theorem setDir_dirs : (s.setDir d dir).dirs = Function.update s.dirs d dir := rfl
@[simp] theorem setDir_nlink : (s.setDir d dir).nlink = s.nlink := rfl
@[simp] theorem setDir_isDir : (s.setDir d dir).isDir = s.isDir := rfl
@[simp] theorem setDir_inUse : (s.setDir d dir).inUse = s.inUse := rfl

@[simp] theorem incLinkCount_dirs : (s.incLinkCount i).dirs = s.dirs := rfl
@[simp] theorem incLinkCount_nlink : (s.incLinkCount i).nlink = Function.update s.nlink i (s.nlink i + 1) := rfl
@[simp] theorem incLinkCount_isDir : (s.incLinkCount i).isDir = s.isDir := rfl
@[simp] theorem incLinkCount_inUse : (s.incLinkCount i).inUse = s.inUse := rfl

@[simp] theorem decLinkCount_dirs : (s.decLinkCount i).dirs = s.dirs := rfl
@[simp] theorem decLinkCount_nlink : (s.decLinkCount i).nlink = Function.update s.nlink i (s.nlink i - 1) := rfl
@[simp] theorem decLinkCount_isDir : (s.decLinkCount i).isDir = s.isDir := rfl
@[simp] theorem decLinkCount_inUse : (s.decLinkCount i).inUse = s.inUse := rfl

@[simp] theorem newInode_dirs : (s.newInode dir b).dirs = Function.update s.dirs dir.iNo dir := rfl
@[simp] theorem newInode_nlink : (s.newInode dir b).nlink = Function.update s.nlink dir.iNo 1 := rfl
@[simp] theorem newInode_isDir : (s.newInode dir b).isDir = Function.update s.isDir dir.iNo b := rfl
@[simp] theorem newInode_inUse : (s.newInode dir b).inUse = Function.update s.inUse dir.iNo true := rfl

@[simp] theorem discardNewInode_dirs : (s.discardNewInode i).dirs = s.dirs := rfl
@[simp] theorem discardNewInode_nlink : (s.discardNewInode i).nlink = s.nlink := rfl
@[simp] theorem discardNewInode_isDir : (s.discardNewInode i).isDir = s.isDir := rfl
@[simp] theorem discardNewInode_inUse : (s.discardNewInode i).inUse = Function.update s.inUse i false := rfl

end State

/-! ### Calls on a directory: `none` stands for `BUG()` -/

def addLink (v : DirVolume) (cache : PageCache) (d : Nat) (name : List UInt8) (iNo : Nat) (s : State) : Option (Int × State) :=
  (ext2AddLink v cache (s.dirs d) name iNo).map fun (err, dir) => (err, s.setDir d dir)

def deleteEntry (v : DirVolume) (cache : PageCache) (d de : Nat) (s : State) : Option (Int × State) :=
  (ext2DeleteEntry v cache (s.dirs d) de).map fun (err, dir) => (err, s.setDir d dir)

def setLink (v : DirVolume) (cache : PageCache) (d de iNo : Nat) (s : State) : Option State :=
  (ext2SetLink v cache (s.dirs d) de iNo).map fun dir => s.setDir d dir

def makeEmpty (v : DirVolume) (cache : PageCache) (d parent : Nat) (s : State) : Int × State :=
  match ext2MakeEmpty v cache (s.dirs d) parent with
  | (err, dir) => (err, s.setDir d dir)

/-! ### `create`, `mknod` and `symlink` -/

def ext2AddNondir (v : DirVolume) (cache : PageCache) (dir : Nat) (name : List UInt8) (inode : Nat) (s : State) :
    Option (Int × State) :=
  (addLink v cache dir name inode s).map fun (err, s) =>
    if err ≠ 0 then (err, (s.decLinkCount inode).discardNewInode inode) else (0, s)

def createNondir (v : DirVolume) (io : Nat → PageCache) (dir : Nat) (name : List UInt8) (new : Except Int Dir) (s : State) :
    Option (Int × State) :=
  match new with
  | .error err => some (err, s)
  | .ok inode => ext2AddNondir v (io 0) dir name inode.iNo (s.newInode inode false)

/-- `new` is what `ext2_new_inode` returns. -/
def ext2Create (v : DirVolume) (io : Nat → PageCache) (dir : Nat) (name : List UInt8) (new : Except Int Dir) (s : State) :
    Option (Int × State) :=
  createNondir v io dir name new s

def ext2Mknod (v : DirVolume) (io : Nat → PageCache) (dir : Nat) (name : List UInt8) (new : Except Int Dir) (s : State) :
    Option (Int × State) :=
  createNondir v io dir name new s

/-- `l` is the length of the target with its NUL, `pageSymlink` what the kernel's function returns. -/
def ext2Symlink (v : DirVolume) (io : Nat → PageCache) (dir : Nat) (name : List UInt8) (l : Nat) (new : Except Int Dir)
    (pageSymlink : Int) (s : State) : Option (Int × State) :=
  if ext2ChunkSize v < l then some (-enametoolong, s)
  else
    match new with
    | .error err => some (err, s)
    | .ok inode =>
      let s := s.newInode inode false
      if iDataSize < l ∧ pageSymlink ≠ 0 then
        some (pageSymlink, (s.decLinkCount inode.iNo).discardNewInode inode.iNo)
      else ext2AddNondir v (io 0) dir name inode.iNo s

/-! ### `link` and `unlink` -/

def ext2Link (v : DirVolume) (io : Nat → PageCache) (inode dir : Nat) (name : List UInt8) (s : State) : Option (Int × State) :=
  (addLink v (io 0) dir name inode (s.incLinkCount inode)).map fun (err, s) =>
    if err ≠ 0 then (err, s.decLinkCount inode) else (0, s)

def ext2Unlink (v : DirVolume) (io : Nat → PageCache) (dir : Nat) (name : List UInt8) (inode : Nat) (s : State) :
    Option (Int × State) :=
  match ext2FindEntry v (io 0) (s.dirs dir) name with
  | .error err => some (err, s)
  | .ok de =>
    (deleteEntry v (io 1) dir de s).map fun (err, s) => if err ≠ 0 then (err, s) else (0, s.decLinkCount inode)

/-! ### `mkdir` and `rmdir` -/

def ext2Mkdir (v : DirVolume) (io : Nat → PageCache) (dir : Nat) (name : List UInt8) (new : Except Int Dir) (s : State) :
    Option (Int × State) :=
  let s := s.incLinkCount dir
  match new with
  | .error err => some (err, s.decLinkCount dir)
  | .ok inode =>
    let outFail := fun (s : State) =>
      (((s.decLinkCount inode.iNo).decLinkCount inode.iNo).discardNewInode inode.iNo).decLinkCount dir
    match makeEmpty v (io 0) inode.iNo dir ((s.newInode inode true).incLinkCount inode.iNo) with
    | (err, s) =>
      if err ≠ 0 then some (err, outFail s)
      else (addLink v (io 1) dir name inode.iNo s).map fun (err, s) => if err ≠ 0 then (err, outFail s) else (0, s)

def ext2Rmdir (v : DirVolume) (io : Nat → PageCache) (dir : Nat) (name : List UInt8) (inode : Nat) (s : State) :
    Option (Int × State) :=
  if !ext2EmptyDir v (io 0) (s.dirs inode) then some (-enotempty, s)
  else
    (ext2Unlink v (fun k => io (k + 1)) dir name inode s).map fun (err, s) =>
      if err ≠ 0 then (err, s)
      else (0, ((s.setDir inode { s.dirs inode with iSize := 0 }).decLinkCount inode).decLinkCount dir)

/-! ### `rename` -/

/-- The new name: its entry is replaced, or one is added. `isDir` is whether the inode that moves is a directory. -/
def renameTarget (v : DirVolume) (io : Nat → PageCache) (isDir : Bool) (oldInode newDir : Nat) (newName : List UInt8)
    (newInode : Option Nat) (s : State) : Option (Int × State) :=
  match newInode with
  | some new =>
    if isDir ∧ ext2EmptyDir v (io 2) (s.dirs new) = false then some (-enotempty, s)
    else
      match ext2FindEntry v (io 3) (s.dirs newDir) newName with
      | .error err => some (err, s)
      | .ok newDe =>
        (setLink v (io 4) newDir newDe oldInode s).map fun s =>
          (0, (if isDir then s.decLinkCount new else s).decLinkCount new)
  | none =>
    (addLink v (io 4) newDir newName oldInode s).map fun (err, s) =>
      if err ≠ 0 then (err, s) else (0, if isDir then s.incLinkCount newDir else s)

/-- The old name, and the `..` at `dirDe` of a directory that moves. The error of `ext2_delete_entry` is dropped. -/
def renameFinish (v : DirVolume) (io : Nat → PageCache) (dirDe : Option Nat) (oldDir oldDe oldInode newDir : Nat) (s : State) :
    Option State :=
  (deleteEntry v (io 5) oldDir oldDe s).bind fun (_, s) =>
    match dirDe with
    | none => some s
    | some de =>
      (if oldDir ≠ newDir then setLink v (io 6) oldInode de newDir s else some s).map fun s => s.decLinkCount oldDir

/-- The place of `..` in the inode that moves, if it is a directory. -/
def renameDotdot (v : DirVolume) (cache : PageCache) (oldInode : Nat) (s : State) : Except Int (Option Nat) :=
  if s.isDir oldInode then
    match ext2Dotdot v cache (s.dirs oldInode) with
    | none => .error (-eio)
    | some de => .ok (some de)
  else .ok none

/-- Only `RENAME_NOREPLACE`, which is 1, is a known flag. -/
def ext2Rename (v : DirVolume) (io : Nat → PageCache) (flags : Nat) (oldDir : Nat) (oldName : List UInt8) (oldInode newDir : Nat)
    (newName : List UInt8) (newInode : Option Nat) (s : State) : Option (Int × State) :=
  if flags &&& (2 ^ 32 - 2) ≠ 0 then some (-einval, s)
  else
    match ext2FindEntry v (io 0) (s.dirs oldDir) oldName with
    | .error err => some (err, s)
    | .ok oldDe =>
      match renameDotdot v (io 1) oldInode s with
      | .error err => some (err, s)
      | .ok dirDe =>
        (renameTarget v io dirDe.isSome oldInode newDir newName newInode s).bind fun (err, s) =>
          if err ≠ 0 then some (err, s)
          else (renameFinish v io dirDe oldDir oldDe oldInode newDir s).map fun s => (0, s)

end OsLab.Ext2.Namei
