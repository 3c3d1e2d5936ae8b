import OsLab.Foundation.Bitmap
import OsLab.Ext2.Balloc

/-!
# Inode allocation

`ialloc.c` as concurrent calls: every read or write of the inode bitmaps, the group
descriptors and the percpu counters is one step of the call it belongs to.
-/

namespace OsLab.Ext2
open Bitmap

/-- A volume with its inode numbers. The pointers to the descriptors of more groups do not fit
in one `kmalloc`. -/
structure InodeVolume extends Volume where
  inodesPerGroup : Nat
  firstIno : Nat
  inodesCount : Nat
  groups : groupsCount toSuperBlock < 2 ^ 30
  inodes : 0 < inodesPerGroup ∧ inodesPerGroup ≤ blocksize toSuperBlock * 8
  total : inodesCount = groupsCount toSuperBlock * inodesPerGroup

/-! ### `find_group` -/

/-- What a look at a group descriptor finds. -/
structure DescCounts where
  bgFreeInodesCount : Nat
  bgFreeBlocksCount : Nat

/-- The looks of `find_group`, each made at another time: at the parent's group, in the rounds of
the quadratic search and in those of the linear one. -/
structure Looks where
  parent : DescCounts
  quadratic : Nat → DescCounts
  linear : Nat → DescCounts

def hasRoom (sb : SuperBlock) (group : Nat) (desc : DescCounts) : Bool :=
  (ext2GetGroupDesc sb group).isSome && desc.bgFreeInodesCount ≠ 0 && desc.bgFreeBlocksCount ≠ 0

def quadraticSearch (sb : SuperBlock) (look : Nat → DescCounts) : Nat → Nat → Nat → Option Nat
  | 0, _, _ => none
  | left + 1, i, group =>
    if i < groupsCount sb then
      let group := if groupsCount sb ≤ group + i then group + i - groupsCount sb else group + i
      if hasRoom sb group (look i) then some group else quadraticSearch sb look left (2 * i) group
    else none

def linearSearch (sb : SuperBlock) (look : Nat → DescCounts) : Nat → Nat → Option Nat
  | 0, _ => none
  | left + 1, group =>
    let group := (group + 1) % groupsCount sb
    if (ext2GetGroupDesc sb group).isSome ∧ (look (groupsCount sb - (left + 1))).bgFreeInodesCount ≠ 0 then some group
    else linearSearch sb look left group

/-- `none` stands for -1. Below `2 ^ 30` groups 30 rounds end the quadratic search. The start of the
quadratic search is computed as an `unsigned long`. -/
def findGroup (sb : SuperBlock) (parentGroup parentIno : Nat) (looks : Looks) : Option Nat :=
  if hasRoom sb parentGroup looks.parent then some parentGroup
  else
    match quadraticSearch sb looks.quadratic 30 1 ((parentGroup + parentIno) % 2 ^ 64 % groupsCount sb) with
    | some group => some group
    | none => linearSearch sb looks.linear (groupsCount sb) parentGroup

/-! ### Calls -/

structure LiveInode where
  iNo : Nat
  isDir : Bool
  deriving DecidableEq, Repr

/-- Where a call of `ext2_new_inode` or `ext2_free_inode` stands. -/
inductive Pc where
  | idle
  | nextGroup (isDir : Bool) (i group : Nat)
  | repeatInThisGroup (isDir : Bool) (i group ino : Nat)
  | setBit (isDir : Bool) (i group ino : Nat)
  | got (isDir : Bool) (group ino : Nat)
  | decFreeinodes (isDir : Bool) (group ino : Nat)
  | incDirs (group ino : Nat)
  | updateDesc (isDir : Bool) (group ino : Nat)
  | clearBit (inode : LiveInode)
  | releaseDesc (isDir : Bool) (group : Nat)
  | incFreeinodes (isDir : Bool)
  | decDirs
  deriving DecidableEq, Repr

/-- The shared records, the calls in progress (one for each of `τ`) and the inodes that have been
handed out and not yet passed to `ext2_free_inode`. `isDir` is the mode of the inodes on disk. -/
structure InodeState (τ : Type) where
  inodeBitmap : Nat → Bits
  bgFreeInodesCount : Nat → Nat
  bgUsedDirsCount : Nat → Nat
  sFreeinodesCounter : Int
  sDirsCounter : Int
  isDir : Nat → Bits
  pc : τ → Pc
  live : List LiveInode

variable {τ : Type} [DecidableEq τ]

def le16AddCpu (x : Nat) (val : Int) : Nat := ((x + val) % 2 ^ 16).toNat

def goto (t : τ) (p : Pc) (s : InodeState τ) : InodeState τ := { s with pc := Function.update s.pc t p }

/-- `group = (group+1) % s_groups_count; continue` -/
def continueSearch (v : InodeVolume) (t : τ) (isDir : Bool) (i group : Nat) (s : InodeState τ) : InodeState τ :=
  goto t (.nextGroup isDir (i + 1) ((group + 1) % groupsCount v.toSuperBlock)) s

/-- The number of the inode of a bit. -/
def inodeNumber (v : InodeVolume) (group bit : Nat) : Nat := bit + (group * v.inodesPerGroup + 1)

/-- The next step of a call. -/
def advance (v : InodeVolume) (t : τ) (s : InodeState τ) : InodeState τ :=
  match s.pc t with
  | .idle => s
  | .nextGroup isDir i group =>
    if i < groupsCount v.toSuperBlock then
      match ext2GetGroupDesc v.toSuperBlock group with
      | none => continueSearch v t isDir i group s
      | some group => goto t (.repeatInThisGroup isDir i group 0) s
    else goto t .idle s
  | .repeatInThisGroup isDir i group ino =>
    let ino := findNextZero (s.inodeBitmap group) v.inodesPerGroup ino
    if v.inodesPerGroup ≤ ino then continueSearch v t isDir i group s else goto t (.setBit isDir i group ino) s
  | .setBit isDir i group ino =>
    if s.inodeBitmap group ino then
      if v.inodesPerGroup ≤ ino + 1 then continueSearch v t isDir i group s
      else goto t (.repeatInThisGroup isDir i group (ino + 1)) s
    else
      goto t (.got isDir group ino)
        { s with
          inodeBitmap := Function.update s.inodeBitmap group (Function.update (s.inodeBitmap group) ino true)
          isDir := Function.update s.isDir group (Function.update (s.isDir group) ino isDir) }
  | .got isDir group ino =>
    if inodeNumber v group ino < v.firstIno ∨ v.inodesCount < inodeNumber v group ino then goto t .idle s
    else goto t (.decFreeinodes isDir group ino) s
  | .decFreeinodes isDir group ino =>
    goto t (if isDir then .incDirs group ino else .updateDesc isDir group ino)
      { s with sFreeinodesCounter := s.sFreeinodesCounter - 1 }
  | .incDirs group ino => goto t (.updateDesc true group ino) { s with sDirsCounter := s.sDirsCounter + 1 }
  | .updateDesc isDir group ino =>
    goto t .idle
      { s with
        bgFreeInodesCount := Function.update s.bgFreeInodesCount group (le16AddCpu (s.bgFreeInodesCount group) (-1))
        bgUsedDirsCount :=
          if isDir then Function.update s.bgUsedDirsCount group (le16AddCpu (s.bgUsedDirsCount group) 1)
          else s.bgUsedDirsCount
        live := ⟨inodeNumber v group ino, isDir⟩ :: s.live }
  | .clearBit inode =>
    if inode.iNo < v.firstIno ∨ v.inodesCount < inode.iNo then goto t .idle s
    else
      let blockGroup := (inode.iNo - 1) / v.inodesPerGroup
      let bit := (inode.iNo - 1) % v.inodesPerGroup
      if s.inodeBitmap blockGroup bit then
        goto t (.releaseDesc inode.isDir blockGroup)
          { s with
            inodeBitmap := Function.update s.inodeBitmap blockGroup (Function.update (s.inodeBitmap blockGroup) bit false) }
      else goto t .idle s
  | .releaseDesc isDir group =>
    goto t (.incFreeinodes isDir)
      { s with
        bgFreeInodesCount := Function.update s.bgFreeInodesCount group (le16AddCpu (s.bgFreeInodesCount group) 1)
        bgUsedDirsCount :=
          if isDir then Function.update s.bgUsedDirsCount group (le16AddCpu (s.bgUsedDirsCount group) (-1))
          else s.bgUsedDirsCount }
  | .incFreeinodes isDir =>
    goto t (if isDir then .decDirs else .idle) { s with sFreeinodesCounter := s.sFreeinodesCounter + 1 }
  | .decDirs => goto t .idle { s with sDirsCounter := s.sDirsCounter - 1 }

inductive InodeEvent (τ : Type) where
  | newInode (t : τ) (isDir : Bool) (parentGroup parentIno : Nat) (looks : Looks)
  | freeInode (t : τ) (inode : LiveInode)
  | advance (t : τ)

/-- One step of some call. The owner of a live inode frees it once. -/
inductive InodeStep (v : InodeVolume) : InodeState τ → InodeEvent τ → InodeState τ → Prop
  | newInode (s : InodeState τ) (t : τ) (isDir : Bool) (parentGroup parentIno : Nat) (looks : Looks)
      (ready : s.pc t = .idle) :
      InodeStep v s (.newInode t isDir parentGroup parentIno looks)
        (goto t
          (match findGroup v.toSuperBlock parentGroup parentIno looks with
            | none => .idle
            | some group => .nextGroup isDir 0 group) s)
  | freeInode (s : InodeState τ) (t : τ) (inode : LiveInode) (ready : s.pc t = .idle) (owned : inode ∈ s.live) :
      InodeStep v s (.freeInode t inode) (goto t (.clearBit inode) { s with live := s.live.erase inode })
  | advance (s : InodeState τ) (t : τ) : InodeStep v s (.advance t) (advance v t s)

end OsLab.Ext2
