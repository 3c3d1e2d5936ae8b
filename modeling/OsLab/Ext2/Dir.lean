import OsLab.Foundation.Bytes
import OsLab.Foundation.Records
import OsLab.Ext2.Inode

/-!
# Directories

`dir.c` over the bytes of a directory. A pointer to an entry is its offset in the directory,
and what the page cache and the block layer answer during a call is an argument of the call.
-/

namespace OsLab.Ext2
open Bytes Records

def enoent : Int := 2
def eexist : Int := 17

def pageShift : Nat := 12
def pageSize : Nat := 1 <<< pageShift

/-- What directories depend on of a mounted volume: a block size that `sb_set_blocksize` allows, and `s_inodes_count`. -/
structure DirVolume where
  blocksizeBits : Nat
  inodesCount : Nat
  sizes : 10 ≤ blocksizeBits ∧ blocksizeBits ≤ 12
  word : inodesCount < 2 ^ 32

/-- `EXT2_DIR_REC_LEN` -/
def ext2DirRecLen (nameLen : Nat) : Nat := (nameLen + 8 + 3) &&& complement 3

/-- A directory inode and its page cache, the bytes behind `i_size` included. -/
structure Dir where
  iNo : Nat
  iSize : Nat
  iVersion : Nat
  isDirsync : Bool
  data : Image

/-- The answers of the page cache and the block layer. Numbers other than 0 are errors. -/
structure PageCache where
  readPage : Nat → Int
  pageChecked : Nat → Bool
  pageError : Nat → Bool
  grabCachePage : Bool
  getBlocks : Nat → Nat → Int
  writeOnePage : Int
  syncInodeMetadata : Int

/-! ### Entries -/

def deInode (data : Image) (de : Nat) : Nat := load data de 4
def deRecLen (data : Image) (de : Nat) : Nat := load data (de + 4) 2
def deNameLen (data : Image) (de : Nat) : Nat := load data (de + 6) 1
def deName (data : Image) (de len : Nat) : List UInt8 := read data (de + 8) len

def ext2NextEntry (data : Image) (p : Nat) : Nat := p + deRecLen data p

def ext2Match (name : List UInt8) (data : Image) (de : Nat) : Bool :=
  name.length = deNameLen data de && deInode data de ≠ 0 && deName data de name.length = name

/-! ### Pages -/

def ext2ChunkSize (v : DirVolume) : Nat := 2 ^ v.blocksizeBits

def dirPages (dir : Dir) : Nat := (dir.iSize + pageSize - 1) >>> pageShift

def ext2LastByte (dir : Dir) (pageNr : Nat) : Nat :=
  let lastByte := (((dir.iSize : Int) - (pageNr <<< pageShift : Nat)) % 2 ^ 32).toNat
  if pageSize < lastByte then pageSize else lastByte

/-- The labels `ext2_check_page` jumps to. -/
inductive BadPage where
  | ebadsize | eshort | ealign | enamelen | espan | einumber | eend
  deriving DecidableEq, Repr

def checkEntry (v : DirVolume) (data : Image) (kaddr : Nat) (u : Unit) (offs : Nat) : Loop BadPage Unit :=
  let recLen := deRecLen data (kaddr + offs)
  if recLen < ext2DirRecLen 1 then .exit .eshort
  else if recLen &&& 3 ≠ 0 then .exit .ealign
  else if recLen < ext2DirRecLen (deNameLen data (kaddr + offs)) then .exit .enamelen
  else if ((offs + recLen - 1) ^^^ offs) &&& complement (ext2ChunkSize v - 1) ≠ 0 then .exit .espan
  else if v.inodesCount < deInode data (kaddr + offs) then .exit .einumber
  else .next u

def ext2CheckPage (v : DirVolume) (dir : Dir) (index : Nat) : Except BadPage Unit :=
  let kaddr := index <<< pageShift
  let last := dir.iSize >>> pageShift = index
  let limit := if last then dir.iSize &&& (pageSize - 1) else pageSize
  if last ∧ limit &&& (ext2ChunkSize v - 1) ≠ 0 then .error .ebadsize
  else if last ∧ limit = 0 then .ok ()
  else
    match walk (fun offs => offs ≤ limit - ext2DirRecLen 1) (checkEntry v dir.data kaddr)
        (fun offs => offs + deRecLen dir.data (kaddr + offs)) (pageSize + 1) () 0 with
    | .exit bad => .error bad
    | .next (_, offs) => if offs ≠ limit then .error .eend else .ok ()

def ext2GetPage (v : DirVolume) (cache : PageCache) (dir : Dir) (n : Nat) : Except Int Unit :=
  if cache.readPage n ≠ 0 then .error (cache.readPage n)
  else if cache.pageChecked n then .ok ()
  else if cache.pageError n then .error (-eio)
  else
    match ext2CheckPage v dir n with
    | .error _ => .error (-eio)
    | .ok () => .ok ()

/-- `__block_write_begin` asks `ext2_get_blocks` for each block, which only knows the direct ones. -/
def ext2PrepareChunk (v : DirVolume) (cache : PageCache) (pos len : Nat) : Int :=
  if ndirBlocks * ext2ChunkSize v < pos + len then -eio else cache.getBlocks pos len

def ext2CommitChunk (cache : PageCache) (pos len : Nat) (dir : Dir) : Int × Dir :=
  let dir := { dir with iVersion := dir.iVersion + 1 }
  let dir := if dir.iSize < pos + len then { dir with iSize := pos + len } else dir
  let err :=
    if dir.isDirsync then (if cache.writeOnePage = 0 then cache.syncInodeMetadata else cache.writeOnePage) else 0
  (err, dir)

/-! ### Lookup -/

def findEntry (data : Image) (child : List UInt8) (u : Unit) (de : Nat) : Loop (Except Int Nat) Unit :=
  if deRecLen data de = 0 then .exit (.error (-enoent))
  else if ext2Match child data de then .exit (.ok de)
  else .next u

def findInPage (v : DirVolume) (cache : PageCache) (dir : Dir) (child : List UInt8) (i : Nat) (u : Unit) :
    Loop (Except Int Nat) Unit :=
  match ext2GetPage v cache dir i with
  | .error err => .exit (.error err)
  | .ok () =>
    let kaddr := i <<< pageShift
    (walk (fun de => de + ext2DirRecLen child.length ≤ kaddr + ext2LastByte dir i) (findEntry dir.data child)
      (ext2NextEntry dir.data) (pageSize + 1) u kaddr).forget

def ext2FindEntry (v : DirVolume) (cache : PageCache) (dir : Dir) (child : List UInt8) : Except Int Nat :=
  if dirPages dir = 0 then .error (-enoent)
  else
    match rounds (findInPage v cache dir child) (dirPages dir) 0 () with
    | .exit found => found
    | .next () => .error (-enoent)

def ext2InodeByName (v : DirVolume) (cache : PageCache) (dir : Dir) (child : List UInt8) : Except Int Nat :=
  (ext2FindEntry v cache dir child).map (deInode dir.data)

/-- `none` stands for a null pointer. -/
def ext2Dotdot (v : DirVolume) (cache : PageCache) (dir : Dir) : Option Nat :=
  match ext2GetPage v cache dir 0 with
  | .error _ => none
  | .ok () => some (ext2NextEntry dir.data 0)

/-! ### Changes: `none` stands for `BUG()` -/

def ext2SetLink (v : DirVolume) (cache : PageCache) (dir : Dir) (de iNo : Nat) : Option Dir :=
  let len := deRecLen dir.data de
  if ext2PrepareChunk v cache de len ≠ 0 then none
  else some (ext2CommitChunk cache de len { dir with data := store (store dir.data de 4 iNo) (de + 7) 1 0 }).2

/-- The locals of `ext2_add_link` at its label `got_it`. -/
structure GotIt where
  data : Image
  de : Nat
  nameLen : Nat
  recLen : Nat

def addEntry (v : DirVolume) (dir : Dir) (name : List UInt8) (dirEnd : Nat) (u : Unit) (de : Nat) :
    Loop (Except Int GotIt) Unit :=
  if de = dirEnd then
    .exit (.ok ⟨store (store dir.data (de + 4) 2 (ext2ChunkSize v)) de 4 0, de, 0, ext2ChunkSize v⟩)
  else if deRecLen dir.data de = 0 then .exit (.error (-eio))
  else if ext2Match name dir.data de then .exit (.error (-eexist))
  else
    let reclen := ext2DirRecLen name.length
    let nameLen := ext2DirRecLen (deNameLen dir.data de)
    let recLen := deRecLen dir.data de
    if deInode dir.data de = 0 ∧ reclen ≤ recLen then .exit (.ok ⟨dir.data, de, nameLen, recLen⟩)
    else if nameLen + reclen ≤ recLen then .exit (.ok ⟨dir.data, de, nameLen, recLen⟩)
    else .next u

def addInPage (v : DirVolume) (cache : PageCache) (dir : Dir) (name : List UInt8) (n : Nat) (u : Unit) :
    Loop (Except Int GotIt) Unit :=
  match ext2GetPage v cache dir n with
  | .error err => .exit (.error err)
  | .ok () =>
    let kaddr := n <<< pageShift
    (walk (fun de => de + ext2DirRecLen name.length ≤ kaddr + pageSize)
      (addEntry v dir name (kaddr + ext2LastByte dir n)) (fun de => de + deRecLen dir.data de) (pageSize + 1) u kaddr).forget

def addGotIt (v : DirVolume) (cache : PageCache) (dir : Dir) (name : List UInt8) (iNo : Nat) (got : GotIt) : Int × Dir :=
  let dir := { dir with data := got.data }
  let err := ext2PrepareChunk v cache got.de got.recLen
  if err ≠ 0 then (err, dir)
  else
    let (data, de) :=
      if deInode dir.data got.de ≠ 0 then
        let de1 := got.de + got.nameLen
        (store (store dir.data (de1 + 4) 2 (got.recLen - got.nameLen)) (got.de + 4) 2 got.nameLen, de1)
      else (dir.data, got.de)
    let data := store data (de + 6) 1 name.length
    let data := write data (de + 8) name
    let data := store data de 4 iNo
    let data := store data (de + 7) 1 0
    ext2CommitChunk cache got.de got.recLen { dir with data := data }

def ext2AddLink (v : DirVolume) (cache : PageCache) (dir : Dir) (name : List UInt8) (iNo : Nat) : Option (Int × Dir) :=
  match rounds (addInPage v cache dir name) (dirPages dir + 1) 0 () with
  | .exit (.error err) => some (err, dir)
  | .exit (.ok got) => some (addGotIt v cache dir name iNo got)
  | .next () => none

def ext2DeleteEntry (v : DirVolume) (cache : PageCache) (inode : Dir) (dir : Nat) : Option (Int × Dir) :=
  let kaddr := (dir >>> pageShift) <<< pageShift
  let start := (dir - kaddr) &&& complement (ext2ChunkSize v - 1)
  let stop := dir - kaddr + deRecLen inode.data dir
  let toEntry : Loop Int (Option Nat × Nat) :=
    walk (fun de => de < dir) (fun _ de => if deRecLen inode.data de = 0 then .exit (-eio) else .next (some de))
      (ext2NextEntry inode.data) (pageSize + 1) none (kaddr + start)
  match toEntry with
  | .exit err => some (err, inode)
  | .next (pde, _) =>
    let start := match pde with
      | some pde => pde - kaddr
      | none => start
    let pos := kaddr + start
    if ext2PrepareChunk v cache pos (stop - start) ≠ 0 then none
    else
      let data := match pde with
        | some pde => store inode.data (pde + 4) 2 (stop - start)
        | none => inode.data
      some (ext2CommitChunk cache pos (stop - start) { inode with data := store data dir 4 0 })

/-! ### Empty directories -/

def ext2MakeEmpty (v : DirVolume) (cache : PageCache) (inode : Dir) (parent : Nat) : Int × Dir :=
  let chunkSize := ext2ChunkSize v
  if !cache.grabCachePage then (-enomem, inode)
  else
    let err := ext2PrepareChunk v cache 0 chunkSize
    if err ≠ 0 then (err, inode)
    else
      let data := write inode.data 0 (List.replicate chunkSize 0)
      let data := store data 6 1 1
      let data := store data 4 2 (ext2DirRecLen 1)
      let data := write data 8 [46, 0, 0, 0]
      let data := store data 0 4 inode.iNo
      let data := store data 7 1 0
      let de := ext2DirRecLen 1
      let data := store data (de + 6) 1 2
      let data := store data (de + 4) 2 (chunkSize - ext2DirRecLen 1)
      let data := store data de 4 parent
      let data := write data (de + 8) [46, 46, 0, 0]
      let data := store data (de + 7) 1 0
      ext2CommitChunk cache 0 chunkSize { inode with data := data }

/-- What a round of `ext2_empty_dir` makes of an entry; it leaves with `not_empty`. -/
def emptyEntry (inode : Dir) (u : Unit) (de : Nat) : Loop Unit Unit :=
  if deRecLen inode.data de = 0 then .exit ()
  else if deInode inode.data de ≠ 0 then
    if inode.data (de + 8) ≠ 46 then .exit ()
    else if 2 < deNameLen inode.data de then .exit ()
    else if deNameLen inode.data de < 2 then
      if deInode inode.data de ≠ inode.iNo then .exit () else .next u
    else if inode.data (de + 9) ≠ 46 then .exit ()
    else .next u
  else .next u

def emptyPage (v : DirVolume) (cache : PageCache) (inode : Dir) (i : Nat) (u : Unit) : Loop Unit Unit :=
  match ext2GetPage v cache inode i with
  | .error _ => .next u
  | .ok () =>
    let kaddr := i <<< pageShift
    (walk (fun de => de + ext2DirRecLen 1 ≤ kaddr + ext2LastByte inode i) (emptyEntry inode)
      (ext2NextEntry inode.data) (pageSize + 1) u kaddr).forget

def ext2EmptyDir (v : DirVolume) (cache : PageCache) (inode : Dir) : Bool :=
  match rounds (emptyPage v cache inode) (dirPages inode) 0 () with
  | .exit () => false
  | .next () => true

end OsLab.Ext2
