import OsLab.Foundation.Custody
import OsLab.Ext2.Super

/-!
# What a mount holds

`ext2_fill_super`, `ext2_put_super`, `init_ext2_fs` and `exit_ext2_fs` with the memory, the buffers,
the counters and the root inode that they take and give back. The labels of `ext2_fill_super` are
functions here; its values are those of the function without the resources.
-/

namespace OsLab.Ext2
open Bytes Traced

/-- A buffer is named by the block size with which it was read. The counters are those of the free
blocks, the free inodes and the directories. -/
inductive MountResource where
  | inodeCache
  | fileSystemType
  | sbInfo
  | blockgroupLock
  | groupDesc
  | buffer (blocksize block : Nat)
  | counter (n : Nat)
  | root
  deriving DecidableEq, Repr

abbrev Mounting (α : Type) := OptionT (Traced (RefEvent MountResource)) α

namespace Mounting

variable {α : Type}

def take (r : MountResource) : Mounting PUnit := OptionT.lift (emit (.get r))

def drop (r : MountResource) : Mounting PUnit := OptionT.lift (emit (.put r))

def dropAll : List MountResource → Mounting PUnit
  | [] => pure ⟨⟩
  | r :: rest => do
    drop r
    dropAll rest

/-! ### The labels -/

def failedSbi (ret : Int) : Mounting (Except Int α) := do
  drop .blockgroupLock
  drop .sbInfo
  pure (.error ret)

def failedMount (bh : MountResource) (ret : Int) : Mounting (Except Int α) := do
  drop bh
  failedSbi ret

def failedMountGroupDesc (bh : MountResource) (ret : Int) : Mounting (Except Int α) := do
  drop .groupDesc
  failedMount bh ret

def failedMount2 (bh : MountResource) (groupDesc : List MountResource) (ret : Int) : Mounting (Except Int α) := do
  dropAll groupDesc
  failedMountGroupDesc bh ret

/-- `percpu_counter_destroy` passes over a counter that was not initialized. -/
def failedMount3 (bh : MountResource) (groupDesc counters : List MountResource) (ret : Int) : Mounting (Except Int α) := do
  dropAll counters
  failedMount2 bh groupDesc ret

/-! ### `ext2_fill_super` -/

/-- Returns the block size, the place of the super block and its buffer. -/
def rereadSuper (dev : Device) (blocksize es : Nat) (bh : MountResource) :
    Mounting (Except Int ((Nat × Nat) × MountResource)) :=
  let wanted := blockSize <<< (sLogBlockSize.get dev.bytes es % 32) % 2 ^ 32
  if blocksize = wanted then pure (.ok ((blocksize, es), bh))
  else do
    drop bh
    if !sbSetBlocksize dev wanted then failedSbi (-einval)
    else
      let logicSbBlock := sbBlock * blockSize / wanted
      let es := logicSbBlock * wanted + sbBlock * blockSize % wanted
      if !dev.readable wanted logicSbBlock then failedSbi (-einval)
      else do
        let bh := MountResource.buffer wanted logicSbBlock
        take bh
        if !(sMagic.get dev.bytes es == superMagic) then failedMount bh (-einval)
        else pure (.ok ((wanted, es), bh))

def checkSuper (dev : Device) (options : List MountToken) (blocksize es : Nat) (bh : MountResource) :
    Mounting (Except Int (((Nat × Nat) × MountResource) × MountOpt)) :=
  if !(sMagic.get dev.bytes es == superMagic) then failedMount bh (-einval)
  else
    match readOptions dev es options with
    | .error err => failedMount bh err
    | .ok opt =>
      if !(sFeatureRoCompat.get dev.bytes es == 0 && sFeatureCompat.get dev.bytes es == 0 &&
        sFeatureIncompat.get dev.bytes es == 0) then failedMount bh (-einval)
      else do
        match ← rereadSuper dev blocksize es bh with
        | .error err => pure (.error err)
        | .ok found => pure (.ok (found, opt))

def findSuper (dev : Device) (options : List MountToken) : Mounting (Except Int (((Nat × Nat) × MountResource) × MountOpt)) :=
  if !dev.allocates .sbInfo then pure (.error (-enomem))
  else do
    take .sbInfo
    if !dev.allocates .blockgroupLock then do
      drop .sbInfo
      pure (.error (-enomem))
    else do
      take .blockgroupLock
      let blocksize := sbMinBlocksize dev blockSize
      if blocksize = 0 then failedSbi (-einval)
      else
        let logicSbBlock := sbBlock * blockSize / blocksize
        let es := logicSbBlock * blocksize + sbBlock * blockSize % blocksize
        if !dev.readable blocksize logicSbBlock then failedSbi (-einval)
        else do
          take (.buffer blocksize logicSbBlock)
          checkSuper dev options blocksize es (.buffer blocksize logicSbBlock)

/-- The loop over the descriptor blocks; `done` are the buffers of the rounds before. -/
def readBlocks (dev : Device) (blocksize : Nat) (bh : MountResource) : List Nat → List MountResource →
    Mounting (Except Int (List MountResource))
  | [], done => pure (.ok done)
  | block :: rest, done =>
    if !dev.readable blocksize block then do
      dropAll done
      failedMountGroupDesc bh (-einval)
    else do
      take (.buffer blocksize block)
      readBlocks dev blocksize bh rest (done ++ [.buffer blocksize block])

/-- The calls of `percpu_counter_init` behind the counters `done`. -/
def initCounters (counterInit : Nat → Bool) (bh : MountResource) (groupDesc : List MountResource) :
    Nat → List MountResource → Mounting (Except Int (List MountResource))
  | 0, done => pure (.ok done)
  | left + 1, done =>
    if !counterInit done.length then failedMount3 bh groupDesc done (-enomem)
    else do
      take (.counter done.length)
      initCounters counterInit bh groupDesc left (done ++ [.counter done.length])

/-- The buffers of the descriptors and the counters, next to the numbers. -/
def readDescriptors (counterInit : Nat → Bool) (sbi : SbInfo) (bh : MountResource) :
    Mounting (Except Int (SbInfo × List MountResource × List MountResource)) :=
  if !sbi.dev.allocates (.groupDesc sbi.gdbCount) then failedMount bh (-enomem)
  else do
    take .groupDesc
    let blocks := (List.range sbi.gdbCount).map (sbi.descriptorLoc sbi.logicSbBlock)
    match ← readBlocks sbi.dev sbi.blocksize bh blocks [] with
    | .error err => pure (.error err)
    | .ok groupDesc => do
      let sbi := { sbi with groupDesc := blocks }
      if !sbi.checkDescriptors then failedMount2 bh groupDesc (-einval)
      else do
        match ← initCounters counterInit bh groupDesc 3 [] with
        | .error err => pure (.error err)
        | .ok counters => pure (.ok (sbi, groupDesc, counters))

/-- `d_make_root` gives the inode back where it fails. -/
def readRoot (slab : Image) (sbi : SbInfo) (bh : MountResource) (groupDesc counters : List MountResource) :
    Mounting (Except Int SbInfo) :=
  match ext2Iget sbi.inodeTable (sbi.dev.readable sbi.blocksize) slab sbi.dev.bytes rootIno with
  | .failed err => failedMount3 bh groupDesc counters err
  | .undefined => OptionT.fail
  | .loaded root => do
    take .root
    if !sIsDir root.iMode || root.iBlocks = 0 || root.iSize = 0 then do
      drop .root
      failedMount3 bh groupDesc counters (-einval)
    else if !sbi.dev.allocates .root then do
      drop .root
      failedMount3 bh groupDesc counters (-enomem)
    else pure (.ok sbi)

def ext2FillSuper (counterInit : Nat → Bool) (dev : Device) (options : List MountToken) (slab : Image) :
    Mounting (Except Int SbInfo) := do
  match ← findSuper dev options with
  | .error err => pure (.error err)
  | .ok (((blocksize, es), bh), opt) =>
    match readSizes dev blocksize es opt with
    | .error err => failedMount bh err
    | .ok sbi => do
      match ← readDescriptors counterInit sbi bh with
      | .error err => pure (.error err)
      | .ok (sbi, groupDesc, counters) => readRoot slab sbi bh groupDesc counters

/-! ### Unmounting -/

def sbh (sbi : SbInfo) : MountResource := .buffer sbi.blocksize sbi.logicSbBlock

def groupDesc (sbi : SbInfo) : List MountResource := sbi.groupDesc.map (.buffer sbi.blocksize)

def ext2PutSuper (sbi : SbInfo) : Mounting PUnit := do
  dropAll (groupDesc sbi)
  drop .groupDesc
  drop (.counter 0)
  drop (.counter 1)
  drop (.counter 2)
  drop (sbh sbi)
  drop .blockgroupLock
  drop .sbInfo

/-- The kernel's `generic_shutdown_super`: the root inode goes before `ext2_put_super`. -/
def killBlockSuper (sbi : SbInfo) : Mounting PUnit := do
  drop .root
  ext2PutSuper sbi

/-! ### The module -/

def initInodecache (cache : Bool) : Mounting Int := do
  if cache then do
    take .inodeCache
    pure 0
  else pure (-enomem)

def destroyInodecache : Mounting PUnit := drop .inodeCache

/-- `register` is what `register_filesystem` returns. -/
def initExt2Fs (cache : Bool) (register : Int) : Mounting Int := do
  let err ← initInodecache cache
  if err ≠ 0 then pure err
  else if register ≠ 0 then do
    destroyInodecache
    pure register
  else do
    take .fileSystemType
    pure 0

def exitExt2Fs : Mounting PUnit := do
  drop .fileSystemType
  destroyInodecache

end Mounting

end OsLab.Ext2
