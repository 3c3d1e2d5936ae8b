import OsLab.Ext2.DirMap

/-!
# Reading a directory

`ext2_readdir` of an open directory. A call begins where the last one was stopped, after it has
looked for an entry there when the directory has changed.
-/

namespace OsLab.Ext2
open Bytes Records

structure OpenDir where
  pos : Nat
  fVersion : Nat
  deriving DecidableEq, Repr

/-- `struct dir_context`: `dir_emit` accepts `budget` more entries, with their positions. -/
structure DirContext where
  pos : Nat
  budget : Nat
  emitted : List Link
  deriving DecidableEq, Repr

/-- The locals of `ext2_readdir`, with `f_version` of the file. -/
structure Readdir where
  offset : Nat
  needRevalidate : Bool
  fVersion : Nat
  ctx : DirContext
  deriving DecidableEq, Repr

def ext2ValidateEntry (data : Image) (base offset mask : Nat) : Nat :=
  match walk (fun p => p < base + offset) (fun (u : Unit) p => if deRecLen data p = 0 then .exit p else .next u)
      (ext2NextEntry data) (pageSize + 1) () (base + (offset &&& mask)) with
  | .exit p => p - base
  | .next (_, p) => p - base

/-- A round over the entries of a page; it leaves with the value to return. -/
def emitEntry (data : Image) (ctx : DirContext) (de : Nat) : Loop (Int × DirContext) DirContext :=
  if deRecLen data de = 0 then .exit (-eio, ctx)
  else if deInode data de ≠ 0 then
    if ctx.budget = 0 then .exit (0, ctx)
    else
      let entry : Link := ⟨ctx.pos, deInode data de, deName data de (deNameLen data de)⟩
      .next ⟨ctx.pos + deRecLen data de, ctx.budget - 1, ctx.emitted ++ [entry]⟩
  else .next { ctx with pos := ctx.pos + deRecLen data de }

/-- The branch on `need_revalidate`. -/
def revalidate (v : DirVolume) (dir : Dir) (n : Nat) (st : Readdir) : Readdir :=
  if st.needRevalidate then
    let kaddr := n <<< pageShift
    let offset :=
      if st.offset ≠ 0 then ext2ValidateEntry dir.data kaddr st.offset (complement (ext2ChunkSize v - 1)) else st.offset
    let pos := if st.offset ≠ 0 then kaddr + offset else st.ctx.pos
    ⟨offset, false, dir.iVersion, { st.ctx with pos := pos }⟩
  else st

def readdirPage (v : DirVolume) (cache : PageCache) (dir : Dir) (n : Nat) (st : Readdir) :
    Loop (Int × Readdir) Readdir :=
  match ext2GetPage v cache dir n with
  | .error err => .exit (err, { st with ctx := { st.ctx with pos := st.ctx.pos + (pageSize - st.offset) } })
  | .ok () =>
    let st := revalidate v dir n st
    let kaddr := n <<< pageShift
    match (walk (fun de => de + ext2DirRecLen 1 ≤ kaddr + ext2LastByte dir n) (emitEntry dir.data) (ext2NextEntry dir.data)
        (pageSize + 1) st.ctx (kaddr + st.offset)).forget with
    | .exit (ret, ctx) => .exit (ret, { st with ctx := ctx })
    | .next ctx => .next { st with offset := 0, ctx := ctx }

/-- What a call returns: its value, what was emitted and the file. -/
def readdirResult : Loop (Int × Readdir) Readdir → Int × List Link × OpenDir
  | .exit (ret, st) => (ret, st.ctx.emitted, ⟨st.ctx.pos, st.fVersion⟩)
  | .next st => (0, st.ctx.emitted, ⟨st.ctx.pos, st.fVersion⟩)

/-- The locals before the loop. -/
def readdirStart (dir : Dir) (file : OpenDir) (budget : Nat) : Readdir :=
  ⟨file.pos &&& (pageSize - 1), dir.iVersion ≠ file.fVersion, file.fVersion, ⟨file.pos, budget, []⟩⟩

def ext2Readdir (v : DirVolume) (cache : PageCache) (dir : Dir) (file : OpenDir) (budget : Nat) : Int × List Link × OpenDir :=
  if dir.iSize < file.pos + ext2DirRecLen 1 then (0, [], file)
  else
    let n := file.pos >>> pageShift
    readdirResult (rounds (readdirPage v cache dir) (dirPages dir - n) n (readdirStart dir file budget))

end OsLab.Ext2
