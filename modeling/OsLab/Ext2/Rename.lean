import OsLab.Ext2.NameiCalls
import OsLab.Ext2.Rmdir

/-!
# Moving names

`ext2_rename` holds on to the entry of the old name and to the `..` of a directory while it
replaces or adds the entry of the new name. Neither of them moves, wherever the new entry goes.
-/

namespace OsLab.Ext2.Namei
open Bytes Records

/-- The second entry is `..` and names the parent. -/
def Dotted (parent : Nat) (dir : Dir) : Prop :=
  ∃ dot dotdot rest, entries dir = dot :: dotdot :: rest ∧ dotdot.name = [46, 46] ∧ dotdot.inode = parent

/-- Well-formed directories, page reads that succeed, and blocks that are there: only a new chunk may find no block. -/
structure Moves (v : DirVolume) (io : Nat → PageCache) (s : State) (oldDir : Nat) (oldName : List UInt8) (oldInode newDir : Nat)
    (newName : List UInt8) (newInode : Option Nat) : Prop where
  reads : ∀ k, (io k).Reads
  maps : ∀ k, k ≠ 4 → ∀ dir, (io k).Maps dir
  grows : (io 4).Maps (s.dirs newDir)
  dirs : ∀ d, d = oldDir ∨ d = newDir ∨ d = oldInode → s.isDir d = true → Directory v (s.dirs d) ∧ d ≠ 0 ∧ d ≤ v.inodesCount
  source : s.isDir oldDir = true
  target : s.isDir newDir = true
  bound : s.names oldDir oldName = some oldInode
  passed : s.names newDir newName = newInode
  oldShort : oldName.length ≤ 255
  newShort : newName.length ≤ 255
  newLong : newName ≠ []
  dotted : s.isDir oldInode = true → Dotted oldDir (s.dirs oldInode)

/-- The same without the blocks: a call then fails or comes to `BUG()`. -/
structure Movable (v : DirVolume) (io : Nat → PageCache) (s : State) (oldDir : Nat) (oldName : List UInt8) (oldInode newDir : Nat)
    (newName : List UInt8) (newInode : Option Nat) : Prop where
  reads : ∀ k, (io k).Reads
  dirs : ∀ d, d = oldDir ∨ d = newDir ∨ d = oldInode → s.isDir d = true → Directory v (s.dirs d) ∧ d ≠ 0 ∧ d ≤ v.inodesCount
  source : s.isDir oldDir = true
  target : s.isDir newDir = true
  bound : s.names oldDir oldName = some oldInode
  passed : s.names newDir newName = newInode
  oldShort : oldName.length ≤ 255
  newShort : newName.length ≤ 255
  newLong : newName ≠ []
  dotted : s.isDir oldInode = true → Dotted oldDir (s.dirs oldInode)

theorem Moves.movable {v : DirVolume} {io : Nat → PageCache} {s : State} {oldDir oldInode newDir : Nat} {oldName newName : List UInt8}
    {newInode : Option Nat} (moves : Moves v io s oldDir oldName oldInode newDir newName newInode) :
    Movable v io s oldDir oldName oldInode newDir newName newInode :=
  ⟨moves.reads, moves.dirs, moves.source, moves.target, moves.bound, moves.passed, moves.oldShort, moves.newShort, moves.newLong,
    moves.dotted⟩

/-- The names after a move, as lookups give them. -/
structure Moved (v : DirVolume) (s s' : State) (oldDir : Nat) (oldName : List UInt8) (oldInode newDir : Nat)
    (newName : List UInt8) : Prop where
  found : ∀ cache : PageCache, cache.Reads → ext2InodeByName v cache (s'.dirs newDir) newName = .ok oldInode
  gone : (oldDir, oldName) ≠ (newDir, newName) → ∀ cache : PageCache, cache.Reads →
    ext2InodeByName v cache (s'.dirs oldDir) oldName = .error (-enoent)
  others : ∀ d name, s.isDir d = true → name.length ≤ 255 → (d, name) ≠ (oldDir, oldName) → (d, name) ≠ (newDir, newName) →
    (d, name) ≠ (oldInode, [46, 46]) → ∀ cache : PageCache, cache.Reads →
      ext2InodeByName v cache (s'.dirs d) name = ext2InodeByName v cache (s.dirs d) name
  old : Directory v (s'.dirs oldDir)
  new : Directory v (s'.dirs newDir)
  dotted : s.isDir oldInode = true → Dotted newDir (s'.dirs oldInode)

/-- The counts that change with the entry of the new name. -/
def countTarget (isDir : Bool) (newDir : Nat) (newInode : Option Nat) (s : State) : State :=
  match newInode with
  | some new => (if isDir then s.decLinkCount new else s).decLinkCount new
  | none => if isDir then s.incLinkCount newDir else s

/-- How a call can end. The commit error of a new entry is returned, with the entry left behind. -/
inductive RenameResult (v : DirVolume) (io : Nat → PageCache) (s : State) (oldDir : Nat) (oldName : List UInt8)
    (oldInode newDir : Nat) (newName : List UInt8) (newInode : Option Nat) : Int → State → Prop
  | refused {err : Int} : err ≠ 0 → RenameResult v io s oldDir oldName oldInode newDir newName newInode err s
  | untouched {err : Int} {dir : Dir} : newInode = none → Untouched v (s.dirs newDir) dir → err ≠ 0 →
      RenameResult v io s oldDir oldName oldInode newDir newName newInode err (s.setDir newDir dir)
  | uncommitted {dir : Dir} : newInode = none → Binds v (s.dirs newDir) newName (some oldInode) dir →
      commitErr (io 4) (s.dirs newDir) ≠ 0 →
      RenameResult v io s oldDir oldName oldInode newDir newName newInode (commitErr (io 4) (s.dirs newDir)) (s.setDir newDir dir)
  | file {target source : Dir} : s.isDir oldInode = false → Binds v (s.dirs newDir) newName (some oldInode) target →
      Binds v ((s.setDir newDir target).dirs oldDir) oldName none source →
      RenameResult v io s oldDir oldName oldInode newDir newName newInode 0
        ((countTarget false newDir newInode (s.setDir newDir target)).setDir oldDir source)
  | sameDir {target source : Dir} : s.isDir oldInode = true → oldInode ≠ oldDir ∧ oldInode ≠ newDir → oldDir = newDir →
      (∀ new, newInode = some new → ext2EmptyDir v (io 2) (s.dirs new) = true) →
      Binds v (s.dirs newDir) newName (some oldInode) target →
      Binds v ((s.setDir newDir target).dirs oldDir) oldName none source →
      RenameResult v io s oldDir oldName oldInode newDir newName newInode 0
        (((countTarget true newDir newInode (s.setDir newDir target)).setDir oldDir source).decLinkCount oldDir)
  | otherDir {target source moved : Dir} {de : Nat} : s.isDir oldInode = true → oldInode ≠ oldDir ∧ oldInode ≠ newDir →
      oldDir ≠ newDir →
      (∀ new, newInode = some new → ext2EmptyDir v (io 2) (s.dirs new) = true) →
      Binds v (s.dirs newDir) newName (some oldInode) target →
      Binds v ((s.setDir newDir target).dirs oldDir) oldName none source →
      ⟨de, oldDir, [46, 46]⟩ ∈ links (entries (s.dirs oldInode)) →
      Binds v (s.dirs oldInode) [46, 46] (some newDir) moved → ⟨de, newDir, [46, 46]⟩ ∈ links (entries moved) →
      Dotted newDir moved →
      RenameResult v io s oldDir oldName oldInode newDir newName newInode 0
        ((((countTarget true newDir newInode (s.setDir newDir target)).setDir oldDir source).setDir oldInode moved).decLinkCount
          oldDir)

variable {v : DirVolume} {cache : PageCache} {io : Nat → PageCache} {s : State} {dir : Dir}
variable {oldDir oldInode newDir new d de i parent : Nat} {oldName newName : List UInt8} {isDir : Bool}

section countTarget

variable (newInode : Option Nat) (s : State)

@[simp] theorem countTarget_dirs : (countTarget isDir newDir newInode s).dirs = s.dirs := by
  cases newInode <;> cases isDir <;> rfl

@[simp] theorem countTarget_isDir : (countTarget isDir newDir newInode s).isDir = s.isDir := by
  cases newInode <;> cases isDir <;> rfl

@[simp] theorem countTarget_names : (countTarget isDir newDir newInode s).names = s.names := by
  unfold State.names
  rw [countTarget_dirs]

@[simp] theorem countTarget_inUse : (countTarget isDir newDir newInode s).inUse = s.inUse := by
  cases newInode <;> cases isDir <;> rfl

end countTarget

/-! ### The new name -/

theorem renameTarget_replace (inv : Directory v (s.dirs newDir)) (reads : (io 3).Reads) (maps : (io 4).Maps (s.dirs newDir))
    (bound : bindings (s.dirs newDir) newName = some new) (short : newName.length ≤ 255) (nonzero : oldInode ≠ 0)
    (inumber : oldInode ≤ v.inodesCount) :
    renameTarget v io isDir oldInode newDir newName (some new) s = some (-enotempty, s) ∨
      (isDir = true → ext2EmptyDir v (io 2) (s.dirs new) = true) ∧
        ∃ dir', Binds v (s.dirs newDir) newName (some oldInode) dir' ∧
          renameTarget v io isDir oldInode newDir newName (some new) s =
            some (0, countTarget isDir newDir (some new) (s.setDir newDir dir')) := by
  obtain ⟨de, located, member⟩ := findEntry_bound inv reads short bound
  obtain ⟨dir', called, binds, -⟩ := setLink_binds inv maps member nonzero inumber
  unfold renameTarget
  by_cases full : isDir = true ∧ ext2EmptyDir v (io 2) (s.dirs new) = false
  · exact Or.inl (if_pos full)
  · refine Or.inr ⟨fun here => ?_, dir', binds, ?_⟩
    · rw [← Bool.not_eq_false]
      exact fun empty => full ⟨here, empty⟩
    · simp only [full, if_false, located, called, Option.map_some, countTarget]

theorem renameTarget_add (inv : Directory v (s.dirs newDir)) (reads : (io 4).Reads) (fresh : bindings (s.dirs newDir) newName = none)
    (long : newName ≠ []) (short : newName.length ≤ 255) (nonzero : oldInode ≠ 0) (inumber : oldInode ≤ v.inodesCount) :
    ∃ err dir', renameTarget v io isDir oldInode newDir newName none s =
        some (err, if err = 0 then countTarget isDir newDir none (s.setDir newDir dir') else s.setDir newDir dir') ∧
      (Binds v (s.dirs newDir) newName (some oldInode) dir' ∧ err = commitErr (io 4) (s.dirs newDir) ∨
        Untouched v (s.dirs newDir) dir' ∧ err ≠ 0) := by
  obtain ⟨err, dir', called, added⟩ := addLink_binds inv reads long short fresh nonzero inumber
  refine ⟨err, dir', ?_, added⟩
  unfold renameTarget
  by_cases failed : err = 0
  · subst failed
    simp [called, countTarget]
  · simp [called, failed]

/-! ### The old name and `..` -/

theorem dotdot_link (inv : Directory v dir) (live : parent ≠ 0) (reads : cache.Reads) (dotted : Dotted parent dir) :
    ∃ de, ext2Dotdot v cache dir = some de ∧ ⟨de, parent, [46, 46]⟩ ∈ links (entries dir) := by
  obtain ⟨dot, dotdot, rest, split, name, rfl⟩ := dotted
  have tiled := inv.wf.tiled
  rw [split] at tiled
  obtain ⟨-, -, next, -, -⟩ := tiled
  refine ⟨dot.recLen, dotdot_eq inv.wf reads split, mem_links.mpr ⟨dotdot, split ▸ by simp, live, ?_⟩⟩
  rw [Slot.link, name, next, Nat.zero_add]

theorem dotdot_moves {before : PageCache} (inv : Directory v (s.dirs d)) (maps : cache.Maps (s.dirs d)) (live : parent ≠ 0)
    (reads : before.Reads) (dotted : Dotted parent (s.dirs d)) (found : ext2Dotdot v before (s.dirs d) = some de)
    (nonzero : i ≠ 0) (inumber : i ≤ v.inodesCount) :
    ∃ moved, setLink v cache d de i s = some (s.setDir d moved) ∧ Binds v (s.dirs d) [46, 46] (some i) moved ∧
      ⟨de, i, [46, 46]⟩ ∈ links (entries moved) ∧ Dotted i moved := by
  obtain ⟨de', found', member⟩ := dotdot_link inv live reads dotted
  obtain rfl : de = de' := Option.some.inj (found.symm.trans found')
  obtain ⟨moved, called, binds, member'⟩ := setLink_binds inv maps member nonzero inumber
  refine ⟨moved, called, binds, member', ?_⟩
  obtain ⟨dot, dotdot, rest, split, name, rfl⟩ := dotted
  obtain ⟨moved', called', -, -, -, edited⟩ := @setLink_entries v (s.dirs d) cache dotdot [dot] rest i inv.wf maps split inumber
  have off : dotdot.off = de := by
    have tiled := inv.wf.tiled
    rw [split] at tiled
    obtain ⟨-, -, next, -, -⟩ := tiled
    rw [dotdot_eq inv.wf reads split] at found
    rw [next, Nat.zero_add]
    exact Option.some.inj found
  have same : moved = moved' := by
    rw [off] at called'
    rw [setLink, called', Option.map_some, Option.some.injEq] at called
    have dirs := congrFun (congrArg State.dirs called) d
    simpa using dirs.symm
  exact ⟨dot, { dotdot with inode := i }, rest, same ▸ edited, name, rfl⟩

theorem renameFinish_eq (inv : Directory v (s.dirs oldDir)) (maps : (io 5).Maps (s.dirs oldDir))
    (member : ⟨de, i, oldName⟩ ∈ links (entries (s.dirs oldDir))) (dirDe : Option Nat) :
    ∃ source, Binds v (s.dirs oldDir) oldName none source ∧
      renameFinish v io dirDe oldDir de oldInode newDir s = match dirDe with
        | none => some (s.setDir oldDir source)
        | some dotdot =>
          (if oldDir ≠ newDir then setLink v (io 6) oldInode dotdot newDir (s.setDir oldDir source)
            else some (s.setDir oldDir source)).map fun s => s.decLinkCount oldDir := by
  obtain ⟨source, called, binds⟩ := deleteEntry_binds inv maps member
  refine ⟨source, binds, ?_⟩
  unfold renameFinish
  rw [called]
  rfl

/-! ### `ext2_rename` -/

variable {newInode : Option Nat} {flags : Nat}

/-- What the target step did, with the old entry still in its place. -/
theorem renameTarget_result (moves : Movable v io s oldDir oldName oldInode newDir newName newInode)
    (grows : ∀ new, newInode = some new → (io 4).Maps (s.dirs newDir)) :
    ∃ err s', renameTarget v io (s.isDir oldInode) oldInode newDir newName newInode s = some (err, s') ∧
      (err ≠ 0 → RenameResult v io s oldDir oldName oldInode newDir newName newInode err s') ∧
      (err = 0 → (s.isDir oldInode = true → ∀ new, newInode = some new → ext2EmptyDir v (io 2) (s.dirs new) = true) ∧
        ∃ target, Binds v (s.dirs newDir) newName (some oldInode) target ∧
          s' = countTarget (s.isDir oldInode) newDir newInode (s.setDir newDir target)) := by
  have inv := (moves.dirs newDir (by simp) moves.target).1
  obtain ⟨live, inumber, -⟩ := bindings_live (moves.dirs oldDir (by simp) moves.source).1 moves.bound
  cases newInode with
  | some new =>
    have maps := grows new rfl
    rcases @renameTarget_replace v io s oldInode newDir new newName (s.isDir oldInode) inv (moves.reads 3) maps moves.passed
      moves.newShort live inumber with full | ⟨empty, target, binds, called⟩
    · exact ⟨_, _, full, fun failed => .refused failed, fun zero => absurd zero (by decide)⟩
    · refine ⟨_, _, called, fun failed => absurd rfl failed, fun _ => ⟨fun here n same => ?_, target, binds, rfl⟩⟩
      obtain rfl := Option.some.inj same
      exact empty here
  | none =>
    obtain ⟨err, target, called, added⟩ := @renameTarget_add v io s oldInode newDir newName (s.isDir oldInode) inv (moves.reads 4)
      moves.passed moves.newLong moves.newShort live inumber
    refine ⟨err, _, called, fun failed => ?_, fun zero => ⟨fun _ _ same => absurd same (by simp), target, ?_⟩⟩
    · rw [if_neg failed]
      rcases added with ⟨binds, rfl⟩ | ⟨same, -⟩
      · exact .uncommitted rfl binds failed
      · exact .untouched rfl same failed
    · rw [if_pos zero]
      rcases added with ⟨binds, -⟩ | ⟨-, failed⟩
      · exact ⟨binds, rfl⟩
      · exact absurd zero failed

theorem moved_kept {target source : Dir} (apart : oldInode ≠ oldDir ∧ oldInode ≠ newDir) :
    ((countTarget true newDir newInode (s.setDir newDir target)).setDir oldDir source).dirs oldInode = s.dirs oldInode := by
  rw [State.setDir_dirs, Function.update_of_ne apart.1, countTarget_dirs, State.setDir_dirs, Function.update_of_ne apart.2]

theorem old_member (member : ⟨de, i, oldName⟩ ∈ links (entries (s.dirs oldDir))) {target : Dir}
    (binds : Binds v (s.dirs newDir) newName (some oldInode) target) (differ : (oldDir, oldName) ≠ (newDir, newName)) :
    ⟨de, i, oldName⟩ ∈ links (entries ((s.setDir newDir target).dirs oldDir)) := by
  rw [State.setDir_dirs]
  by_cases same : oldDir = newDir
  · subst same
    rw [Function.update_self]
    apply binds.kept _ member
    rintro rfl
    exact differ rfl
  · rwa [Function.update_of_ne same]

theorem rename_result (moves : Movable v io s oldDir oldName oldInode newDir newName newInode)
    (grows : ∀ new, newInode = some new → (io 4).Maps (s.dirs newDir)) (maps : ∀ k, k ≠ 4 → ∀ dir, (io k).Maps dir)
    (differ : (oldDir, oldName) ≠ (newDir, newName))
    (apart : s.isDir oldInode = true → oldInode ≠ oldDir ∧ oldInode ≠ newDir) :
    ∃ err s', ext2Rename v io flags oldDir oldName oldInode newDir newName newInode s = some (err, s') ∧
      RenameResult v io s oldDir oldName oldInode newDir newName newInode err s' := by
  have inv := (moves.dirs oldDir (by simp) moves.source).1
  obtain ⟨de, located, member⟩ := findEntry_bound inv (moves.reads 0) moves.oldShort moves.bound
  obtain ⟨dirDe, held, isDir, place⟩ : ∃ dirDe, renameDotdot v (io 1) oldInode s = .ok dirDe ∧ dirDe.isSome = s.isDir oldInode ∧
      ∀ de, dirDe = some de → ext2Dotdot v (io 1) (s.dirs oldInode) = some de ∧
        ⟨de, oldDir, [46, 46]⟩ ∈ links (entries (s.dirs oldInode)) := by
    unfold renameDotdot
    cases isDir : s.isDir oldInode with
    | false => exact ⟨none, rfl, rfl, fun _ same => absurd same (by simp)⟩
    | true =>
      obtain ⟨dotdot, found, member⟩ := dotdot_link (moves.dirs oldInode (by simp) isDir).1 (moves.dirs oldDir (by simp) moves.source).2.1
        (moves.reads 1) (moves.dotted isDir)
      refine ⟨some dotdot, ?_, rfl, fun de same => ⟨found.trans same, Option.some.inj same ▸ member⟩⟩
      rw [if_pos rfl, found]
  obtain ⟨err, s₁, targeted, failed, done⟩ := renameTarget_result moves grows
  unfold ext2Rename
  by_cases known : flags &&& (2 ^ 32 - 2) ≠ 0
  · exact ⟨_, _, if_pos known, .refused (by decide)⟩
  simp only [known, if_false, located, held, isDir, targeted, Option.bind_some]
  by_cases zero : err = 0
  · obtain ⟨empty, target, binds, rfl⟩ := done zero
    subst zero
    obtain ⟨source, unbinds, finished⟩ := @renameFinish_eq v io (countTarget (s.isDir oldInode) newDir newInode
        (s.setDir newDir target)) oldDir oldInode newDir de oldInode oldName
      (by rw [countTarget_dirs]; exact @directories_setDir v _ s newDir (fun d => d = oldDir)
            (fun d here => here ▸ inv) binds.inv oldDir rfl)
      (maps 5 (by decide) _) (by rw [countTarget_dirs]; exact old_member member binds differ) dirDe
    rw [countTarget_dirs] at unbinds
    rw [if_neg (not_not.mpr rfl), finished]
    cases dirDe with
    | none =>
      have file : s.isDir oldInode = false := isDir.symm
      rw [file]
      exact ⟨0, _, rfl, .file file binds unbinds⟩
    | some dotdot =>
      have directory : s.isDir oldInode = true := isDir.symm
      rw [directory]
      by_cases same : oldDir = newDir
      · simp only [same, ne_eq, not_true_eq_false, if_false, Option.map_some]
        subst same
        exact ⟨0, _, rfl, .sameDir directory (apart directory) rfl (empty directory) binds unbinds⟩
      · have kept := @moved_kept s oldDir oldInode newDir newInode target source (apart directory)
        obtain ⟨-, nonzero, inumber⟩ := moves.dirs newDir (by simp) moves.target
        have live := (moves.dirs oldDir (by simp) moves.source).2.1
        obtain ⟨found, member⟩ := place dotdot rfl
        obtain ⟨moved, called, renamed, member', dotted⟩ := @dotdot_moves v (io 6)
          ((countTarget true newDir newInode (s.setDir newDir target)).setDir oldDir source) oldInode dotdot newDir oldDir (io 1)
          (kept ▸ (moves.dirs oldInode (by simp) directory).1) (maps 6 (by decide) _) live (moves.reads 1)
          (kept ▸ moves.dotted directory) (kept ▸ found) nonzero inumber
        rw [kept] at renamed
        simp only [same, ne_eq, not_false_eq_true, if_true, called, Option.map_some]
        exact ⟨0, _, rfl, .otherDir directory (apart directory) same (empty directory) binds unbinds member renamed member' dotted⟩
  · rw [if_pos zero]
    exact ⟨err, s₁, rfl, failed zero⟩

/-! ### What a move leaves behind -/

variable {err : Int} {s' : State}

/-- The names after a success, but for the `..` of the inode that moved. -/
theorem RenameResult.names (result : RenameResult v io s oldDir oldName oldInode newDir newName newInode err s') (zero : err = 0)
    (d : Nat) (name : List UInt8) (other : s.isDir oldInode = true → ¬ (d = oldInode ∧ name = [46, 46])) :
    s'.names d name = if d = oldDir ∧ name = oldName then none
      else if d = newDir ∧ name = newName then some oldInode else s.names d name := by
  have both : ∀ {isDir : Bool} {target source : Dir}, Binds v (s.dirs newDir) newName (some oldInode) target →
      Binds v ((s.setDir newDir target).dirs oldDir) oldName none source →
      ((countTarget isDir newDir newInode (s.setDir newDir target)).setDir oldDir source).names d name =
        if d = oldDir ∧ name = oldName then none
        else if d = newDir ∧ name = newName then some oldInode else s.names d name := by
    intro isDir target source binds unbinds
    rw [← @countTarget_dirs newDir isDir newInode] at unbinds
    rw [names_setDir unbinds, countTarget_names, names_setDir binds]
  cases result with
  | refused failed => exact absurd zero failed
  | untouched _ _ failed => exact absurd zero failed
  | uncommitted _ _ failed => exact absurd zero failed
  | file _ binds unbinds => exact both binds unbinds
  | sameDir _ _ _ _ binds unbinds => exact both binds unbinds
  | @otherDir target source moved de directory apart differ _ binds unbinds _ renamed _ _ =>
    have kept := @moved_kept s oldDir oldInode newDir newInode target source apart
    rw [← kept] at renamed
    refine (names_setDir renamed d name).trans ?_
    rw [if_neg (other directory)]
    exact both binds unbinds

theorem RenameResult.directories {P : Nat → Prop} (all : ∀ d, P d → Directory v (s.dirs d))
    (result : RenameResult v io s oldDir oldName oldInode newDir newName newInode err s') (d : Nat) (isDir : P d) :
    Directory v (s'.dirs d) := by
  have both : ∀ {isDir : Bool} {target source : Dir}, Binds v (s.dirs newDir) newName (some oldInode) target →
      Binds v ((s.setDir newDir target).dirs oldDir) oldName none source → ∀ d, P d →
        Directory v (((countTarget isDir newDir newInode (s.setDir newDir target)).setDir oldDir source).dirs d) := by
    intro isDir target source binds unbinds
    apply directories_setDir _ unbinds.inv
    rw [countTarget_dirs]
    exact directories_setDir all binds.inv
  cases result with
  | refused _ => exact all d isDir
  | untouched _ same _ => exact directories_setDir all same.inv d isDir
  | uncommitted _ binds _ => exact directories_setDir all binds.inv d isDir
  | file _ binds unbinds => exact both binds unbinds d isDir
  | sameDir _ _ _ _ binds unbinds => exact both binds unbinds d isDir
  | otherDir _ _ _ _ binds unbinds _ renamed _ _ => exact directories_setDir (both binds unbinds) renamed.inv d isDir

theorem RenameResult.elsewhere (result : RenameResult v io s oldDir oldName oldInode newDir newName newInode err s')
    (notOld : d ≠ oldDir) (notNew : d ≠ newDir) (notMoved : d ≠ oldInode) : s'.dirs d = s.dirs d := by
  cases result <;> simp [notOld, notNew, notMoved]

theorem RenameResult.dotted (result : RenameResult v io s oldDir oldName oldInode newDir newName newInode err s') (zero : err = 0)
    (before : Dotted oldDir (s.dirs oldInode)) (directory : s.isDir oldInode = true) : Dotted newDir (s'.dirs oldInode) := by
  cases result with
  | refused failed => exact absurd zero failed
  | untouched _ _ failed => exact absurd zero failed
  | uncommitted _ _ failed => exact absurd zero failed
  | file file => exact absurd (directory.symm.trans file) (by simp)
  | sameDir _ apart same =>
    rw [State.decLinkCount_dirs, moved_kept apart, ← same]
    exact before
  | otherDir _ _ _ _ _ _ _ _ _ dotted =>
    rw [State.decLinkCount_dirs, State.setDir_dirs, Function.update_self]
    exact dotted

/-- A move of one binding to another, of no directory into itself. -/
theorem rename_moves (moves : Moves v io s oldDir oldName oldInode newDir newName newInode)
    (differ : (oldDir, oldName) ≠ (newDir, newName))
    (apart : s.isDir oldInode = true → oldInode ≠ oldDir ∧ oldInode ≠ newDir) :
    ∃ err s', ext2Rename v io flags oldDir oldName oldInode newDir newName newInode s = some (err, s') ∧
      (err = 0 → Moved v s s' oldDir oldName oldInode newDir newName) := by
  obtain ⟨err, s', called, result⟩ := @rename_result _ _ _ _ _ _ _ _ _ flags moves.movable (fun _ _ => moves.grows)
    moves.maps differ apart
  refine ⟨err, s', called, fun zero => ?_⟩
  have all := @RenameResult.directories v io s oldDir oldInode newDir oldName newName newInode err s'
    (fun d => (d = oldDir ∨ d = newDir ∨ d = oldInode) ∧ s.isDir d = true) (fun d here => (moves.dirs d here.1 here.2).1) result
  have names := result.names zero
  refine ⟨fun cache reads => ?_, fun _ cache reads => ?_, fun d name isDir short old new dotdot cache reads => ?_,
    all oldDir ⟨by simp, moves.source⟩, all newDir ⟨by simp, moves.target⟩, fun isDir => result.dotted zero (moves.dotted isDir) isDir⟩
  · have found := names newDir newName fun isDir both => (apart isDir).2 both.1.symm
    rw [if_neg fun both => differ (Prod.ext both.1.symm both.2.symm), if_pos ⟨rfl, rfl⟩] at found
    rw [inodeByName_bindings (all newDir ⟨by simp, moves.target⟩) reads moves.newShort, ← State.names, found]
  · have gone := names oldDir oldName fun isDir both => (apart isDir).1 both.1.symm
    rw [if_pos ⟨rfl, rfl⟩] at gone
    rw [inodeByName_bindings (all oldDir ⟨by simp, moves.source⟩) reads moves.oldShort, ← State.names, gone]
  · have kept := names d name fun _ both => dotdot (Prod.ext both.1 both.2)
    rw [if_neg fun both => old (Prod.ext both.1 both.2), if_neg fun both => new (Prod.ext both.1 both.2)] at kept
    by_cases here : d = oldDir ∨ d = newDir ∨ d = oldInode
    · rw [inodeByName_bindings (all d ⟨here, isDir⟩) reads short, inodeByName_bindings (moves.dirs d here isDir).1 reads short]
      unfold State.names at kept
      rw [kept]
    · rw [not_or, not_or] at here
      rw [result.elsewhere here.1 here.2.1 here.2.2]

/-- The file 12 under the name `d` in the root directory. -/
def oneFile : State := { fullState with dirs := fun _ => fullParent, isDir := fun d => d = 2 }

theorem fullParent_directory : Directory kibiVolume fullParent := by
  refine ⟨fullParent_wellFormed, ?_, ?_⟩
  · rw [fullParent_entries]
    decide
  · rw [fullParent_entries]
    decide

theorem oneFile_moves {newName : List UInt8} {newInode : Option Nat} (long : newName ≠ []) (short : newName.length ≤ 255)
    (passed : bindings fullParent newName = newInode) :
    Moves kibiVolume (fun _ => calmCache) oneFile 2 [100] 12 2 newName newInode where
  reads _ := calmCache_reads
  maps _ _ _ _ _ _ := rfl
  grows _ _ _ := rfl
  dirs d _ isDir := by
    obtain rfl : d = 2 := of_decide_eq_true isDir
    exact ⟨fullParent_directory, by decide, by decide⟩
  source := rfl
  target := rfl
  bound := by
    show bindings fullParent [100] = some 12
    rw [bindings, fullParent_entries]
    decide
  passed := passed
  oldShort := by decide
  newShort := short
  newLong := long
  dotted isDir := absurd isDir (by decide)

theorem rename_moves_file :
    ∃ s', ext2Rename kibiVolume (fun _ => calmCache) 0 2 [100] 12 2 [101] none oneFile = some (0, s') ∧
      Moved kibiVolume oneFile s' 2 [100] 12 2 [101] := by
  have fresh : bindings fullParent [101] = none := by
    rw [bindings, fullParent_entries]
    decide
  obtain ⟨err, s', called, moved⟩ := @rename_moves kibiVolume _ oneFile 2 12 2 [100] [101] none 0
    (oneFile_moves (by decide) (by decide) fresh) (by decide) (fun isDir => absurd isDir (by decide))
  have zero : (ext2Rename kibiVolume (fun _ => calmCache) 0 2 [100] 12 2 [101] none oneFile).map Prod.fst = some 0 := by
    decide +kernel
  rw [called] at zero
  obtain rfl := Option.some.inj zero
  exact ⟨s', called, moved rfl⟩

/-- A binding moved to itself is replaced by itself and then deleted. -/
theorem same_binding_lost :
    ¬ ∀ (v : DirVolume) (io : Nat → PageCache) (flags : Nat) (s s' : State) (oldDir : Nat) (oldName : List UInt8)
        (oldInode newDir : Nat) (newName : List UInt8) (newInode : Option Nat),
      Moves v io s oldDir oldName oldInode newDir newName newInode →
      ext2Rename v io flags oldDir oldName oldInode newDir newName newInode s = some (0, s') →
      Moved v s s' oldDir oldName oldInode newDir newName := by
  intro moved
  have bound : bindings fullParent [100] = some 12 := by
    rw [bindings, fullParent_entries]
    decide
  have lost : (ext2Rename kibiVolume (fun _ => calmCache) 0 2 [100] 12 2 [100] (some 12) oneFile).map
      (fun p => (p.1, (ext2InodeByName kibiVolume calmCache (p.2.dirs 2) [100]).toOption)) = some (0, none) := by
    decide +kernel
  obtain ⟨⟨err, s'⟩, called, answer⟩ := Option.map_eq_some_iff.mp lost
  obtain ⟨rfl, none⟩ := Prod.mk.inj answer
  have found := (moved _ _ 0 oneFile s' 2 [100] 12 2 [100] (some 12) (oneFile_moves (by decide) (by decide) bound) called).found
    calmCache calmCache_reads
  rw [found] at none
  cases none

/-- Every directory holds its `.` and its `..` only. -/
def bareState : State := { fullState with dirs := fun _ => dotEntries }

theorem bareState_moves : Moves kibiVolume (fun _ => calmCache) bareState 2 [46, 46] 2 12 [101] none where
  reads _ := calmCache_reads
  maps _ _ _ _ _ _ := rfl
  grows _ _ _ := rfl
  dirs d here _ := by
    refine ⟨dotEntries_directory, ?_⟩
    rcases here with rfl | rfl | rfl <;> exact ⟨by decide, by decide⟩
  source := rfl
  target := rfl
  bound := by
    show bindings dotEntries [46, 46] = some 2
    rw [bindings, dotEntries_entries]
    decide
  passed := by
    show bindings dotEntries [101] = none
    rw [bindings, dotEntries_entries]
    decide
  oldShort := by decide
  newShort := by decide
  newLong := by decide
  dotted _ := ⟨⟨0, 12, 2, [46]⟩, ⟨12, 1012, 2, [46, 46]⟩, [], dotEntries_entries, rfl, rfl⟩

/-- The `..` of the root moved out of it leaves the root without one. -/
theorem own_dotdot_lost :
    ¬ ∀ (v : DirVolume) (io : Nat → PageCache) (flags : Nat) (s s' : State) (oldDir : Nat) (oldName : List UInt8)
        (oldInode newDir : Nat) (newName : List UInt8) (newInode : Option Nat),
      Moves v io s oldDir oldName oldInode newDir newName newInode → (oldDir, oldName) ≠ (newDir, newName) →
      (s.isDir oldInode = true → oldInode ≠ newDir) →
      ext2Rename v io flags oldDir oldName oldInode newDir newName newInode s = some (0, s') →
      Moved v s s' oldDir oldName oldInode newDir newName := by
  intro moved
  have lost : (ext2Rename kibiVolume (fun _ => calmCache) 0 2 [46, 46] 2 12 [101] none bareState).map
      (fun p => (p.1, entries (p.2.dirs 2))) = some (0, [⟨0, 1024, 2, [46]⟩]) := by
    decide +kernel
  obtain ⟨⟨err, s'⟩, called, answer⟩ := Option.map_eq_some_iff.mp lost
  obtain ⟨rfl, one⟩ := Prod.mk.inj answer
  obtain ⟨dot, dotdot, rest, two, -⟩ := (moved _ _ 0 bareState s' 2 [46, 46] 2 12 [101] none bareState_moves (by decide)
    (fun _ => by decide) called).dotted rfl
  rw [one] at two
  cases two

/-- The entry of `.` has room for another one. -/
def slackChild : Dir := oneChunk ([12, 0, 0, 0, 24, 0, 1, 0, 46, 0, 0, 0] ++ List.replicate 12 0 ++
  [2, 0, 0, 0, 0xE8, 3, 2, 0, 46, 46])

theorem slackChild_entries : entries slackChild = [⟨0, 24, 12, [46]⟩, ⟨24, 1000, 2, [46, 46]⟩] := by decide +kernel

theorem slackChild_directory : Directory kibiVolume slackChild := by
  refine ⟨oneChunk_wellFormed slackChild_entries ⟨rfl, by decide, rfl, by decide, rfl⟩ ?_, ?_, ?_⟩
  · intro s member
    simp only [List.mem_cons, List.not_mem_nil, or_false] at member
    rcases member with rfl | rfl <;> exact ⟨by decide, by decide, by decide, by decide, by decide⟩
  · rw [slackChild_entries]
    decide
  · rw [slackChild_entries]
    decide

/-- The directory 12 under the name `d` in the root directory. -/
def slackState : State := { fullState with dirs := fun i => if i = 12 then slackChild else fullParent }

theorem slackState_moves : Moves kibiVolume (fun _ => calmCache) slackState 2 [100] 12 12 [101] none where
  reads _ := calmCache_reads
  maps _ _ _ _ _ _ := rfl
  grows _ _ _ := rfl
  dirs d here _ := by
    rcases here with rfl | rfl | rfl
    · exact ⟨fullParent_directory, by decide, by decide⟩
    all_goals exact ⟨slackChild_directory, by decide, by decide⟩
  source := rfl
  target := rfl
  bound := by
    show bindings fullParent [100] = some 12
    rw [bindings, fullParent_entries]
    decide
  passed := by
    show bindings slackChild [101] = none
    rw [bindings, slackChild_entries]
    decide
  oldShort := by decide
  newShort := by decide
  newLong := by decide
  dotted _ := ⟨⟨0, 24, 12, [46]⟩, ⟨24, 1000, 2, [46, 46]⟩, [], slackChild_entries, rfl, rfl⟩

/-- A directory moved into itself gets its own entry in front of its `..`. -/
theorem own_entry_first :
    ¬ ∀ (v : DirVolume) (io : Nat → PageCache) (flags : Nat) (s s' : State) (oldDir : Nat) (oldName : List UInt8)
        (oldInode newDir : Nat) (newName : List UInt8) (newInode : Option Nat),
      Moves v io s oldDir oldName oldInode newDir newName newInode → (oldDir, oldName) ≠ (newDir, newName) →
      (s.isDir oldInode = true → oldInode ≠ oldDir) →
      ext2Rename v io flags oldDir oldName oldInode newDir newName newInode s = some (0, s') →
      Moved v s s' oldDir oldName oldInode newDir newName := by
  intro moved
  have inserted : (ext2Rename kibiVolume (fun _ => calmCache) 0 2 [100] 12 12 [101] none slackState).map
      (fun p => (p.1, entries (p.2.dirs 12))) =
        some (0, [⟨0, 12, 12, [46]⟩, ⟨12, 12, 12, [101]⟩, ⟨24, 1000, 12, [46, 46]⟩]) := by
    decide +kernel
  obtain ⟨⟨err, s'⟩, called, answer⟩ := Option.map_eq_some_iff.mp inserted
  obtain ⟨rfl, three⟩ := Prod.mk.inj answer
  obtain ⟨dot, dotdot, rest, same, named, -⟩ := (moved _ _ 0 slackState s' 2 [100] 12 12 [101] none slackState_moves (by decide)
    (fun _ => by decide) called).dotted rfl
  rw [three] at same
  cases same
  cases named

end OsLab.Ext2.Namei
