import OsLab.Ext2.HeldPages
import OsLab.Ext2.Namei

/-!
# Pages held across functions

`namei.c` with the pages of `dir.c`. `ext2_find_entry` and `ext2_dotdot` return a page held, the
functions that change an entry release its page, and `ext2_rename` holds two pages while it adds the new
name or looks for it.
-/

namespace OsLab.Ext2.Namei
open Traced

def ext2NameLen : Nat := 255
def estale : Int := 116

namespace Paged

variable (v : DirVolume)

def addLink (cache : PageCache) (d : Nat) (name : List UInt8) (iNo : Nat) (s : State) : Paging (Int × State) := do
  let (err, dir) ← Ext2.Paged.ext2AddLink v cache d (s.dirs d) name iNo
  pure (err, s.setDir d dir)

def deleteEntry (cache : PageCache) (d de : Nat) (page : Page) (s : State) : Paging (Int × State) := do
  let (err, dir) ← Ext2.Paged.ext2DeleteEntry v cache (s.dirs d) de page
  pure (err, s.setDir d dir)

def setLink (cache : PageCache) (d de iNo : Nat) (page : Page) (s : State) : Paging State := do
  let dir ← Ext2.Paged.ext2SetLink v cache (s.dirs d) de iNo page
  pure (s.setDir d dir)

def makeEmpty (cache : PageCache) (d parent : Nat) (s : State) : Paging (Int × State) := do
  let (err, dir) ← Ext2.Paged.ext2MakeEmpty v cache d (s.dirs d) parent
  pure (err, s.setDir d dir)

/-- `iget` is what `ext2_iget` returns; `d_splice_alias` gets the result, where `none` is a null pointer. -/
def ext2Lookup (cache : PageCache) (dir : Nat) (name : List UInt8) (iget : Nat → Except Int Nat) (s : State) :
    Paging (Except Int (Option Nat)) :=
  if ext2NameLen < name.length then pure (.error (-enametoolong))
  else do
    match ← Ext2.Paged.ext2InodeByName v cache dir (s.dirs dir) name with
    | .error err => if err ≠ -enoent then pure (.error err) else pure (.ok none)
    | .ok ino =>
      match iget ino with
      | .error err => if err = -estale then pure (.error (-eio)) else pure (.error err)
      | .ok inode => pure (.ok (some inode))

def ext2Link (io : Nat → PageCache) (inode dir : Nat) (name : List UInt8) (s : State) : Paging (Int × State) := do
  let (err, s) ← addLink v (io 0) dir name inode (s.incLinkCount inode)
  if err ≠ 0 then pure (err, s.decLinkCount inode) else pure (0, s)

def ext2Unlink (io : Nat → PageCache) (dir : Nat) (name : List UInt8) (inode : Nat) (s : State) : Paging (Int × State) := do
  match ← Ext2.Paged.ext2FindEntry v (io 0) dir (s.dirs dir) name with
  | .error err => pure (err, s)
  | .ok (de, page) => do
    let (err, s) ← deleteEntry v (io 1) dir de page s
    if err ≠ 0 then pure (err, s) else pure (0, s.decLinkCount inode)

def ext2Mkdir (io : Nat → PageCache) (dir : Nat) (name : List UInt8) (new : Except Int Dir) (s : State) :
    Paging (Int × State) :=
  let s := s.incLinkCount dir
  match new with
  | .error err => pure (err, s.decLinkCount dir)
  | .ok inode => do
    let outFail := fun (s : State) =>
      (((s.decLinkCount inode.iNo).decLinkCount inode.iNo).discardNewInode inode.iNo).decLinkCount dir
    let (err, s) ← makeEmpty v (io 0) inode.iNo dir ((s.newInode inode true).incLinkCount inode.iNo)
    if err ≠ 0 then pure (err, outFail s)
    else do
      let (err, s) ← addLink v (io 1) dir name inode.iNo s
      if err ≠ 0 then pure (err, outFail s) else pure (0, s)

def ext2Rmdir (io : Nat → PageCache) (dir : Nat) (name : List UInt8) (inode : Nat) (s : State) : Paging (Int × State) := do
  let empty ← Ext2.Paged.ext2EmptyDir v (io 0) inode (s.dirs inode)
  if !empty then pure (-enotempty, s)
  else do
    let (err, s) ← ext2Unlink v (fun k => io (k + 1)) dir name inode s
    if err ≠ 0 then pure (err, s)
    else pure (0, ((s.setDir inode { s.dirs inode with iSize := 0 }).decLinkCount inode).decLinkCount dir)

/-! ### `rename` -/

/-- Only a directory that moves needs the inode it replaces to be empty. -/
def replaceable (cache : PageCache) (isDir : Bool) (new : Nat) (s : State) : Paging Bool :=
  if isDir then Ext2.Paged.ext2EmptyDir v cache new (s.dirs new) else pure true

def renameTarget (io : Nat → PageCache) (isDir : Bool) (oldInode newDir : Nat) (newName : List UInt8) (newInode : Option Nat)
    (s : State) : Paging (Int × State) :=
  match newInode with
  | some new => do
    let empty ← replaceable v (io 2) isDir new s
    if !empty then pure (-enotempty, s)
    else
      match ← Ext2.Paged.ext2FindEntry v (io 3) newDir (s.dirs newDir) newName with
      | .error err => pure (err, s)
      | .ok (newDe, newPage) => do
        let s ← setLink v (io 4) newDir newDe oldInode newPage s
        pure (0, (if isDir then s.decLinkCount new else s).decLinkCount new)
  | none => do
    let (err, s) ← addLink v (io 4) newDir newName oldInode s
    if err ≠ 0 then pure (err, s) else pure (0, if isDir then s.incLinkCount newDir else s)

def renameFinish (io : Nat → PageCache) (dirDe : Option (Nat × Page)) (oldDir oldDe : Nat) (oldPage : Page)
    (oldInode newDir : Nat) (s : State) : Paging State := do
  let (_, s) ← deleteEntry v (io 5) oldDir oldDe oldPage s
  match dirDe with
  | none => pure s
  | some (de, dirPage) =>
    if oldDir ≠ newDir then do
      let s ← setLink v (io 6) oldInode de newDir dirPage s
      pure (s.decLinkCount oldDir)
    else do
      Ext2.Paged.ext2PutPage dirPage
      pure (s.decLinkCount oldDir)

def renameDotdot (cache : PageCache) (oldInode : Nat) (s : State) : Paging (Except Int (Option (Nat × Page))) :=
  if s.isDir oldInode then do
    match ← Ext2.Paged.ext2Dotdot v cache oldInode (s.dirs oldInode) with
    | none => pure (.error (-eio))
    | some found => pure (.ok (some found))
  else pure (.ok none)

/-- The labels `out_dir` and `out_old`. -/
def renameOut (dirDe : Option (Nat × Page)) (oldPage : Page) (result : Int × State) : Paging (Int × State) :=
  match dirDe with
  | some (_, dirPage) => do
    Ext2.Paged.ext2PutPage dirPage
    Ext2.Paged.ext2PutPage oldPage
    pure result
  | none => do
    Ext2.Paged.ext2PutPage oldPage
    pure result

def ext2Rename (io : Nat → PageCache) (flags : Nat) (oldDir : Nat) (oldName : List UInt8) (oldInode newDir : Nat)
    (newName : List UInt8) (newInode : Option Nat) (s : State) : Paging (Int × State) :=
  if flags &&& (2 ^ 32 - 2) ≠ 0 then pure (-einval, s)
  else do
    match ← Ext2.Paged.ext2FindEntry v (io 0) oldDir (s.dirs oldDir) oldName with
    | .error err => pure (err, s)
    | .ok (oldDe, oldPage) => do
      match ← renameDotdot v (io 1) oldInode s with
      | .error err => renameOut none oldPage (err, s)
      | .ok dirDe => do
        let (err, s) ← renameTarget v io dirDe.isSome oldInode newDir newName newInode s
        if err ≠ 0 then renameOut dirDe oldPage (err, s)
        else do
          let s ← renameFinish v io dirDe oldDir oldDe oldPage oldInode newDir s
          pure (0, s)

end Paged

variable {v : DirVolume} {cache : PageCache} {io : Nat → PageCache} {s : State}

/-! ### Without the pages -/

theorem value_map {α β : Type} {x : Paging α} {base : Option α} {f : α → Paging β} {g : α → β}
    (first : x.run.value = base) (rest : ∀ a, (f a).run.value = some (g a)) : (x >>= f).run.value = base.map g := by
  rw [value_optionT_bind, first, Option.map_eq_bind]
  congr 1
  exact funext rest

theorem checked_value {α : Type} {err : Int} (x y : α) :
    (if err ≠ 0 then pure x else pure y : Paging α).run.value = some (if err ≠ 0 then x else y) := by
  split_ifs <;> rfl

theorem addLink_value (d : Nat) (name : List UInt8) (iNo : Nat) (s : State) :
    (Paged.addLink v cache d name iNo s).run.value = addLink v cache d name iNo s :=
  value_map (Ext2.addLink_value name iNo) fun _ => rfl

theorem deleteEntry_value (d de : Nat) (s : State) :
    (Paged.deleteEntry v cache d de ⟨d, de >>> pageShift⟩ s).run.value = deleteEntry v cache d de s :=
  value_map (Ext2.deleteEntry_value de) fun _ => rfl

theorem setLink_value (d de iNo : Nat) (page : Page) (s : State) :
    (Paged.setLink v cache d de iNo page s).run.value = setLink v cache d de iNo s :=
  value_map (Ext2.setLink_value de iNo page) fun _ => rfl

theorem makeEmpty_value (d parent : Nat) (s : State) :
    (Paged.makeEmpty v cache d parent s).run.value = some (makeEmpty v cache d parent s) := by
  unfold Paged.makeEmpty
  rw [value_optionT_bind, Ext2.makeEmpty_value]
  rfl

theorem link_value (inode dir : Nat) (name : List UInt8) (s : State) :
    (Paged.ext2Link v io inode dir name s).run.value = ext2Link v io inode dir name s :=
  value_map (addLink_value dir name inode _) fun _ => checked_value _ _

theorem unlink_value {name : List UInt8} (short : name.length ≤ 255) (dir inode : Nat) (s : State) :
    (Paged.ext2Unlink v io dir name inode s).run.value = ext2Unlink v io dir name inode s := by
  unfold Paged.ext2Unlink ext2Unlink
  rw [value_optionT_bind, findEntry_value short, Option.bind_some]
  cases ext2FindEntry v (io 0) (s.dirs dir) name with
  | error err => rfl
  | ok de => exact value_map (deleteEntry_value dir de s) fun _ => checked_value _ _

theorem mkdir_value (dir : Nat) (name : List UInt8) (new : Except Int Dir) (s : State) :
    (Paged.ext2Mkdir v io dir name new s).run.value = ext2Mkdir v io dir name new s := by
  unfold Paged.ext2Mkdir ext2Mkdir
  cases new with
  | error err => rfl
  | ok inode =>
    simp only
    rw [value_optionT_bind, makeEmpty_value, Option.bind_some]
    obtain ⟨err, s⟩ := makeEmpty v (io 0) inode.iNo dir (((s.incLinkCount dir).newInode inode true).incLinkCount inode.iNo)
    simp only
    rw [value_optionT_ite]
    split_ifs
    · rfl
    · exact value_map (addLink_value dir name inode.iNo _) fun _ => checked_value _ _

theorem rmdir_value {name : List UInt8} (short : name.length ≤ 255) (dir inode : Nat) (s : State) :
    (Paged.ext2Rmdir v io dir name inode s).run.value = ext2Rmdir v io dir name inode s := by
  unfold Paged.ext2Rmdir ext2Rmdir
  rw [value_optionT_bind, emptyDir_value, Option.bind_some, value_optionT_ite]
  split_ifs
  · rfl
  · exact value_map (unlink_value short dir inode s) fun _ => checked_value _ _

theorem replaceable_value (isDir : Bool) (new : Nat) (s : State) :
    (Paged.replaceable v cache isDir new s).run.value = some (!isDir || ext2EmptyDir v cache (s.dirs new)) := by
  unfold Paged.replaceable
  cases isDir with
  | false => rfl
  | true => exact emptyDir_value

theorem renameTarget_value {newName : List UInt8} (short : newName.length ≤ 255) (isDir : Bool) (oldInode newDir : Nat)
    (newInode : Option Nat) (s : State) :
    (Paged.renameTarget v io isDir oldInode newDir newName newInode s).run.value =
      renameTarget v io isDir oldInode newDir newName newInode s := by
  unfold Paged.renameTarget renameTarget
  cases newInode with
  | none => exact value_map (addLink_value newDir newName oldInode s) fun _ => checked_value _ _
  | some new =>
    simp only
    rw [value_optionT_bind, replaceable_value, Option.bind_some, value_optionT_ite]
    by_cases full : isDir = true ∧ ext2EmptyDir v (io 2) (s.dirs new) = false
    · rw [if_pos full, full.1, full.2]
      rfl
    · have empty : (!isDir || ext2EmptyDir v (io 2) (s.dirs new)) = true := by
        simpa [imp_iff_not_or] using full
      rw [if_neg full, empty]
      show (Ext2.Paged.ext2FindEntry v (io 3) newDir (s.dirs newDir) newName >>= _).run.value = _
      rw [value_optionT_bind, findEntry_value short, Option.bind_some]
      cases ext2FindEntry v (io 3) (s.dirs newDir) newName with
      | error err => rfl
      | ok newDe => exact value_map (setLink_value newDir newDe oldInode _ s) fun _ => rfl

theorem renameFinish_value (dirDe : Option (Nat × Page)) (oldDir oldDe oldInode newDir : Nat) (s : State) :
    (Paged.renameFinish v io dirDe oldDir oldDe ⟨oldDir, oldDe >>> pageShift⟩ oldInode newDir s).run.value =
      renameFinish v io (dirDe.map (·.1)) oldDir oldDe oldInode newDir s := by
  unfold Paged.renameFinish renameFinish
  rw [value_optionT_bind, deleteEntry_value]
  congr 1
  funext ⟨err, s⟩
  cases dirDe with
  | none => rfl
  | some found =>
    simp only [Option.map_some]
    rw [value_optionT_ite]
    split_ifs
    · exact value_map (setLink_value oldInode found.1 newDir found.2 s) fun _ => rfl
    · rfl

theorem renameDotdot_value (oldInode : Nat) (s : State) :
    (Paged.renameDotdot v cache oldInode s).run.value =
      some ((renameDotdot v cache oldInode s).map fun dirDe => dirDe.map fun de => (de, ⟨oldInode, 0⟩)) := by
  unfold Paged.renameDotdot renameDotdot
  rw [value_optionT_ite]
  split_ifs
  · rw [value_optionT_bind, dotdot_value, Option.bind_some]
    cases ext2Dotdot v cache (s.dirs oldInode) <;> rfl
  · rfl

theorem renameOut_value (dirDe : Option (Nat × Page)) (oldPage : Page) (result : Int × State) :
    (Paged.renameOut dirDe oldPage result).run.value = some result := by
  cases dirDe <;> rfl

theorem rename_value {oldName newName : List UInt8} (oldShort : oldName.length ≤ 255) (newShort : newName.length ≤ 255)
    (flags oldDir oldInode newDir : Nat) (newInode : Option Nat) (s : State) :
    (Paged.ext2Rename v io flags oldDir oldName oldInode newDir newName newInode s).run.value =
      ext2Rename v io flags oldDir oldName oldInode newDir newName newInode s := by
  unfold Paged.ext2Rename ext2Rename
  rw [value_optionT_ite]
  split_ifs
  · rfl
  rw [value_optionT_bind, findEntry_value oldShort, Option.bind_some]
  cases ext2FindEntry v (io 0) (s.dirs oldDir) oldName with
  | error err => rfl
  | ok oldDe =>
    simp only [Except.map]
    rw [value_optionT_bind, renameDotdot_value, Option.bind_some]
    cases renameDotdot v (io 1) oldInode s with
    | error err => rfl
    | ok dirDe =>
      simp only [Except.map, Option.isSome_map]
      rw [value_optionT_bind, renameTarget_value newShort]
      congr 1
      funext ⟨err, s⟩
      simp only
      rw [value_optionT_ite, renameOut_value]
      split_ifs
      · rfl
      · refine (value_map (renameFinish_value _ oldDir oldDe oldInode newDir s) fun _ => rfl).trans ?_
        rw [Option.map_map]
        congr 2
        cases dirDe <;> rfl

/-! ### What each operation holds at its end -/

/-- A call that returns has dropped every page that it took once, and has left none locked. -/
def Released {α : Type} (x : Paging α) : Prop := ∀ a, x.run.value = some a → BalancedRefs x.run.events

theorem addLink_leaves (d : Nat) (name : List UInt8) (iNo : Nat) (s : State) :
    Leaves 0 (Paged.addLink v cache d name iNo s) fun _ => 0 :=
  Leaves.bind (Ext2.addLink_leaves name iNo) fun _ => Leaves.pure rfl

theorem deleteEntry_leaves (d de : Nat) (page : Page) (s : State) :
    Leaves (owned (some page)) (Paged.deleteEntry v cache d de page s) fun _ => 0 :=
  Leaves.bind (Ext2.deleteEntry_leaves de page) fun _ => Leaves.pure rfl

theorem setLink_leaves (d de iNo : Nat) (page : Page) (s : State) :
    Leaves (owned (some page)) (Paged.setLink v cache d de iNo page s) fun _ => 0 :=
  Leaves.bind (Ext2.setLink_leaves de iNo page) fun _ => Leaves.pure rfl

theorem makeEmpty_leaves (d parent : Nat) (s : State) : Leaves 0 (Paged.makeEmpty v cache d parent s) fun _ => 0 :=
  Leaves.bind (Ext2.makeEmpty_leaves parent) fun _ => Leaves.pure rfl

theorem lookup_leaves (dir : Nat) (name : List UInt8) (iget : Nat → Except Int Nat) (s : State) :
    Leaves 0 (Paged.ext2Lookup v cache dir name iget s) fun _ => 0 := by
  unfold Paged.ext2Lookup
  split_ifs
  · exact Leaves.pure rfl
  apply Leaves.bind (inodeByName_leaves name)
  rintro (err | ino)
  · simp only
    split_ifs <;> exact Leaves.pure rfl
  · simp only
    cases iget ino with
    | error err =>
      simp only
      split_ifs <;> exact Leaves.pure rfl
    | ok inode => exact Leaves.pure rfl

theorem link_leaves (inode dir : Nat) (name : List UInt8) (s : State) :
    Leaves 0 (Paged.ext2Link v io inode dir name s) fun _ => 0 := by
  unfold Paged.ext2Link
  apply Leaves.bind (addLink_leaves dir name inode _)
  rintro ⟨err, s⟩
  simp only
  split_ifs <;> exact Leaves.pure rfl

theorem unlink_leaves (dir : Nat) (name : List UInt8) (inode : Nat) (s : State) :
    Leaves 0 (Paged.ext2Unlink v io dir name inode s) fun _ => 0 := by
  unfold Paged.ext2Unlink
  apply Leaves.bind (findEntry_leaves name)
  rintro (err | ⟨de, page⟩)
  · exact Leaves.pure rfl
  · apply Leaves.bind (deleteEntry_leaves dir de page s)
    rintro ⟨err, s⟩
    simp only
    split_ifs <;> exact Leaves.pure rfl

theorem mkdir_leaves (dir : Nat) (name : List UInt8) (new : Except Int Dir) (s : State) :
    Leaves 0 (Paged.ext2Mkdir v io dir name new s) fun _ => 0 := by
  unfold Paged.ext2Mkdir
  cases new with
  | error err => exact Leaves.pure rfl
  | ok inode =>
    apply Leaves.bind (makeEmpty_leaves inode.iNo dir _)
    rintro ⟨err, s⟩
    simp only
    split_ifs
    · exact Leaves.pure rfl
    · apply Leaves.bind (addLink_leaves dir name inode.iNo s)
      rintro ⟨err, s⟩
      simp only
      split_ifs <;> exact Leaves.pure rfl

theorem rmdir_leaves (dir : Nat) (name : List UInt8) (inode : Nat) (s : State) :
    Leaves 0 (Paged.ext2Rmdir v io dir name inode s) fun _ => 0 := by
  unfold Paged.ext2Rmdir
  apply Leaves.bind (emptyPages_leaves _ 0)
  intro empty
  split_ifs
  · exact Leaves.pure rfl
  · apply Leaves.bind (unlink_leaves dir name inode s)
    rintro ⟨err, s⟩
    simp only
    split_ifs <;> exact Leaves.pure rfl

/-! ### `rename` -/

theorem replaceable_leaves (isDir : Bool) (new : Nat) (s : State) :
    Leaves 0 (Paged.replaceable v cache isDir new s) fun _ => 0 := by
  unfold Paged.replaceable
  split_ifs
  · exact emptyPages_leaves _ 0
  · exact Leaves.pure rfl

theorem renameTarget_leaves (isDir : Bool) (oldInode newDir : Nat) (newName : List UInt8) (newInode : Option Nat)
    (s : State) : Leaves 0 (Paged.renameTarget v io isDir oldInode newDir newName newInode s) fun _ => 0 := by
  unfold Paged.renameTarget
  cases newInode with
  | none =>
    apply Leaves.bind (addLink_leaves newDir newName oldInode s)
    rintro ⟨err, s⟩
    simp only
    split_ifs <;> exact Leaves.pure rfl
  | some new =>
    apply Leaves.bind (replaceable_leaves isDir new s)
    intro empty
    by_cases full : (!empty) = true
    · rw [if_pos full]
      exact Leaves.pure rfl
    · rw [if_neg full]
      apply Leaves.bind (findEntry_leaves newName)
      rintro (err | ⟨newDe, newPage⟩)
      · exact Leaves.pure rfl
      · exact Leaves.bind (setLink_leaves newDir newDe oldInode newPage s) fun _ => Leaves.pure rfl

/-- Both pages are released, in whatever way the second one is. -/
theorem renameFinish_leaves (dirDe : Option (Nat × Page)) (oldDir oldDe : Nat) (oldPage : Page) (oldInode newDir : Nat)
    (s : State) :
    Leaves (owned (some oldPage) + owned (dirDe.map (·.2)))
      (Paged.renameFinish v io dirDe oldDir oldDe oldPage oldInode newDir s) fun _ => 0 := by
  unfold Paged.renameFinish
  apply Leaves.bind ((deleteEntry_leaves oldDir oldDe oldPage s).frame _)
  rintro ⟨err, s⟩
  rw [zero_add]
  cases dirDe with
  | none => exact Leaves.pure rfl
  | some found =>
    simp only
    split_ifs
    · exact Leaves.bind (setLink_leaves oldInode found.1 newDir found.2 s) fun _ => Leaves.pure rfl
    · exact put_bind (Leaves.pure rfl) rfl

theorem renameDotdot_leaves (oldInode : Nat) (s : State) :
    Leaves 0 (Paged.renameDotdot v cache oldInode s) fun dirDe => owned (dirDe.toOption.bind fun found => found.map (·.2)) := by
  unfold Paged.renameDotdot
  split_ifs
  · apply Leaves.bind dotdot_leaves
    rintro (none | found)
    · exact Leaves.pure rfl
    · exact Leaves.pure rfl
  · exact Leaves.pure rfl

theorem renameOut_leaves (dirDe : Option (Nat × Page)) (oldPage : Page) (result : Int × State) :
    Leaves (owned (some oldPage) + owned (dirDe.map (·.2))) (Paged.renameOut dirDe oldPage result) fun _ => 0 := by
  cases dirDe with
  | none => exact put_bind (Leaves.pure rfl) rfl
  | some found => exact put_bind (put_bind (Leaves.pure rfl) rfl) (Multiset.pair_comm _ _)

theorem rename_leaves (flags oldDir : Nat) (oldName : List UInt8) (oldInode newDir : Nat) (newName : List UInt8)
    (newInode : Option Nat) (s : State) :
    Leaves 0 (Paged.ext2Rename v io flags oldDir oldName oldInode newDir newName newInode s) fun _ => 0 := by
  unfold Paged.ext2Rename
  split_ifs
  · exact Leaves.pure rfl
  apply Leaves.bind (findEntry_leaves oldName)
  rintro (err | ⟨oldDe, oldPage⟩)
  · exact Leaves.pure rfl
  show Leaves (owned (some oldPage)) _ _
  rw [← zero_add (owned (some oldPage))]
  apply Leaves.bind ((renameDotdot_leaves oldInode s).frame _)
  rintro (err | dirDe)
  · exact put_bind (Leaves.pure rfl) rfl
  show Leaves (owned (dirDe.map (·.2)) + owned (some oldPage)) _ _
  rw [add_comm, ← zero_add (owned (some oldPage) + owned (dirDe.map (·.2)))]
  apply Leaves.bind ((renameTarget_leaves dirDe.isSome oldInode newDir newName newInode s).frame _)
  rintro ⟨err, s⟩
  rw [zero_add]
  simp only
  split_ifs
  · exact renameOut_leaves dirDe oldPage (err, s)
  · exact Leaves.bind (renameFinish_leaves dirDe oldDir oldDe oldPage oldInode newDir s) fun _ => Leaves.pure rfl

/-- Every operation releases the pages that it takes, whatever the directories hold and however the page
cache and the block layer answer. -/
theorem pages_released (v : DirVolume) (io : Nat → PageCache) (s : State) :
    (∀ dir name iget, Released (Paged.ext2Lookup v (io 0) dir name iget s)) ∧
      (∀ inode dir name, Released (Paged.ext2Link v io inode dir name s)) ∧
      (∀ dir name inode, Released (Paged.ext2Unlink v io dir name inode s)) ∧
      (∀ dir name new, Released (Paged.ext2Mkdir v io dir name new s)) ∧
      (∀ dir name inode, Released (Paged.ext2Rmdir v io dir name inode s)) ∧
      (∀ flags oldDir oldName oldInode newDir newName newInode,
        Released (Paged.ext2Rename v io flags oldDir oldName oldInode newDir newName newInode s)) ∧
      ∀ dir file budget, Released (Ext2.Paged.ext2Readdir v (io 0) dir (s.dirs dir) file budget) := by
  refine ⟨?_, ?_, ?_, ?_, ?_, ?_, ?_⟩
  · exact fun dir name iget => lookup_leaves dir name iget s
  · exact fun inode dir name => link_leaves inode dir name s
  · exact fun dir name inode => unlink_leaves dir name inode s
  · exact fun dir name new => mkdir_leaves dir name new s
  · exact fun dir name inode => rmdir_leaves dir name inode s
  · exact fun flags oldDir oldName oldInode newDir newName newInode =>
      rename_leaves flags oldDir oldName oldInode newDir newName newInode s
  · exact fun dir file budget => readdir_leaves file budget

end OsLab.Ext2.Namei
