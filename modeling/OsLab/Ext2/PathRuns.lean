import OsLab.Ext2.PathNames

/-!
# Runs over path names

Whatever sequence of operations is made, the paths change as the calls that succeed say, one path
or one subtree at a time, and calls that fail or inodes that are let go of change none.
-/

namespace OsLab.Ext2.Namei
open Bytes Records Hierarchies Runs

/-- What a step does to the paths. A call that has no inode to name changes none, whatever it returns. -/
def Follows (paths : PathMap) : Event → PathMap → Prop
  | .call _ c err, paths' =>
    (∀ e, c.edit = some e → err = 0 → e.Applies paths paths') ∧ (c.edit = none ∨ err ≠ 0 → paths' = paths)
  | .evict _, paths' => paths' = paths

variable {v : DirVolume} {io : Nat → PageCache} {cache : PageCache} {s s' : State} {dir inode d i de : Nat} {name : List UInt8}
variable {call : Call} {result : Int × State} {err : Int} {new : Except Int Dir}
variable {oldDir oldInode newDir flags : Nat} {oldName newName : List UInt8} {newInode : Option Nat}

/-! ### No call makes a directory of a file -/

theorem addLink_isDir (called : addLink v cache d name i s = some result) : result.2.isDir = s.isDir := by
  obtain ⟨added, -, rfl⟩ := Option.map_eq_some_iff.mp called
  rfl

theorem deleteEntry_isDir (called : deleteEntry v cache d de s = some result) : result.2.isDir = s.isDir := by
  obtain ⟨deleted, -, rfl⟩ := Option.map_eq_some_iff.mp called
  rfl

theorem setLink_isDir (called : setLink v cache d de i s = some s') : s'.isDir = s.isDir := by
  obtain ⟨linked, -, rfl⟩ := Option.map_eq_some_iff.mp called
  rfl

theorem addNondir_isDir (called : ext2AddNondir v cache d name i s = some result) : result.2.isDir = s.isDir := by
  obtain ⟨added, once, rfl⟩ := Option.map_eq_some_iff.mp called
  have kept := addLink_isDir once
  simp only
  split_ifs
  · exact kept
  · exact kept

theorem unlink_isDir (called : ext2Unlink v io dir name inode s = some result) : result.2.isDir = s.isDir := by
  unfold ext2Unlink at called
  cases located : ext2FindEntry v (io 0) (s.dirs dir) name with
  | error err =>
    rw [located] at called
    obtain rfl := Option.some.inj called
    rfl
  | ok de =>
    simp only [located] at called
    obtain ⟨deleted, once, rfl⟩ := Option.map_eq_some_iff.mp called
    have kept := deleteEntry_isDir once
    split_ifs
    · exact kept
    · exact kept

theorem renameTarget_isDir {isDir : Bool} (called : renameTarget v io isDir oldInode newDir newName newInode s = some result) :
    result.2.isDir = s.isDir := by
  cases newInode with
  | none =>
    obtain ⟨added, once, rfl⟩ := Option.map_eq_some_iff.mp called
    have kept := addLink_isDir once
    simp only
    split_ifs
    · exact kept
    · exact kept
    · exact kept
  | some new =>
    unfold renameTarget at called
    simp only at called
    by_cases full : isDir = true ∧ ext2EmptyDir v (io 2) (s.dirs new) = false
    · rw [if_pos full] at called
      obtain rfl := Option.some.inj called
      rfl
    · rw [if_neg full] at called
      cases located : ext2FindEntry v (io 3) (s.dirs newDir) newName with
      | error err =>
        rw [located] at called
        obtain rfl := Option.some.inj called
        rfl
      | ok de =>
        rw [located] at called
        obtain ⟨linked, once, rfl⟩ := Option.map_eq_some_iff.mp called
        have kept := setLink_isDir once
        simp only
        split_ifs
        · exact kept
        · exact kept

theorem renameFinish_isDir {dirDe : Option Nat} {oldDe : Nat}
    (called : renameFinish v io dirDe oldDir oldDe oldInode newDir s = some s') : s'.isDir = s.isDir := by
  obtain ⟨deleted, once, rest⟩ := Option.bind_eq_some_iff.mp called
  have first := deleteEntry_isDir once
  cases dirDe with
  | none =>
    obtain rfl := Option.some.inj rest
    exact first
  | some de =>
    obtain ⟨t, twice, rfl⟩ := Option.map_eq_some_iff.mp rest
    split_ifs at twice with other
    · exact (setLink_isDir twice).trans first
    · obtain rfl := Option.some.inj twice
      exact first

theorem rename_isDir (called : ext2Rename v io flags oldDir oldName oldInode newDir newName newInode s = some result) :
    result.2.isDir = s.isDir := by
  unfold ext2Rename at called
  split_ifs at called with unknown
  · obtain rfl := Option.some.inj called
    rfl
  · cases located : ext2FindEntry v (io 0) (s.dirs oldDir) oldName with
    | error err =>
      rw [located] at called
      obtain rfl := Option.some.inj called
      rfl
    | ok oldDe =>
      cases held : renameDotdot v (io 1) oldInode s with
      | error err =>
        rw [located, held] at called
        obtain rfl := Option.some.inj called
        rfl
      | ok dirDe =>
        simp only [located, held] at called
        obtain ⟨target, once, rest⟩ := Option.bind_eq_some_iff.mp called
        have first := renameTarget_isDir once
        split_ifs at rest with failed
        · obtain rfl := Option.some.inj rest
          exact first
        · obtain ⟨finished, twice, rfl⟩ := Option.map_eq_some_iff.mp rest
          exact (renameFinish_isDir twice).trans first

theorem mkdir_isDir {inode : Dir} (called : ext2Mkdir v io dir name (.ok inode) s = some result) :
    result.2.isDir = Function.update s.isDir inode.iNo true := by
  unfold ext2Mkdir at called
  cases made : makeEmpty v (io 0) inode.iNo dir (((s.incLinkCount dir).newInode inode true).incLinkCount inode.iNo) with
  | mk err t =>
    have kept : t.isDir = Function.update s.isDir inode.iNo true := by
      have same := congrArg (fun r => r.2.isDir) made
      exact same.symm
    simp only [made] at called
    split_ifs at called with failed
    · obtain rfl := Option.some.inj called
      exact kept
    · obtain ⟨added, once, rfl⟩ := Option.map_eq_some_iff.mp called
      have last := (addLink_isDir once).trans kept
      split_ifs
      · exact last
      · exact last

theorem createNondir_isDir (called : createNondir v io dir name new s = some result)
    (other : ∀ inode, new = .ok inode → i ≠ inode.iNo) : result.2.isDir i = s.isDir i := by
  cases new with
  | error err =>
    obtain rfl := Option.some.inj called
    rfl
  | ok inode =>
    rw [addNondir_isDir called]
    exact Function.update_of_ne (other inode rfl) _ _

theorem Fresh.other (fresh : Fresh v s new) (used : s.inUse i = true) (inode : Dir) (made : new = .ok inode) : i ≠ inode.iNo := by
  rintro rfl
  rw [(fresh inode made).1] at used
  cases used

theorem Call.run_isDir (called : call.run v io s = some result) (allowed : call.Allowed v s) (used : s.inUse i = true) :
    result.2.isDir i = s.isDir i := by
  cases call with
  | create => exact createNondir_isDir called (allowed.2.2.other used)
  | mknod => exact createNondir_isDir called (allowed.2.2.other used)
  | symlink dir name l new pageSymlink =>
    have other := allowed.2.2.other used
    have called : ext2Symlink v io dir name l new pageSymlink s = some result := called
    unfold ext2Symlink at called
    cases new with
    | error err =>
      simp only at called
      split_ifs at called <;> obtain rfl := Option.some.inj called <;> rfl
    | ok inode =>
      simp only at called
      split_ifs at called
      · obtain rfl := Option.some.inj called
        rfl
      · obtain rfl := Option.some.inj called
        exact Function.update_of_ne (other inode rfl) _ _
      · rw [addNondir_isDir called]
        exact Function.update_of_ne (other inode rfl) _ _
  | link inode dir name =>
    have called : ext2Link v io inode dir name s = some result := called
    obtain ⟨added, once, rfl⟩ := Option.map_eq_some_iff.mp called
    have kept := addLink_isDir once
    simp only
    split_ifs
    · exact congrFun kept i
    · exact congrFun kept i
  | unlink => exact congrFun (unlink_isDir called) i
  | mkdir dir name new =>
    cases new with
    | error err =>
      obtain rfl := Option.some.inj called
      rfl
    | ok inode =>
      rw [mkdir_isDir called]
      exact Function.update_of_ne (allowed.2.2.other used inode rfl) _ _
  | rmdir dir name inode =>
    have called : ext2Rmdir v io dir name inode s = some result := called
    unfold ext2Rmdir at called
    split_ifs at called with full
    · obtain rfl := Option.some.inj called
      rfl
    · obtain ⟨unlinked, once, rfl⟩ := Option.map_eq_some_iff.mp called
      have kept := unlink_isDir once
      simp only
      split_ifs
      · exact congrFun kept i
      · exact congrFun kept i
  | rename => exact congrFun (rename_isDir called) i

/-! ### Runs -/

/-- A call that succeeds changes the paths as it says. -/
theorem Consistent.applies (c : Consistent v s) (reads : ∀ k, (io k).Reads) (allowed : call.Allowed v s) (maps : call.Maps io s)
    {e : Edit} (edit : call.edit = some e) (called : call.run v io s = some (0, s')) : e.Applies s.paths s'.paths := by
  cases call with
  | create dir name new | mknod dir name new =>
    obtain ⟨inode, made, rfl⟩ := Option.map_eq_some_iff.mp edit
    cases new with
    | error err => cases made
    | ok made' =>
      obtain rfl := Option.some.inj made
      obtain ⟨free, nonzero, inumber, -⟩ := allowed.2.2 made' rfl
      exact addNondir_applies c (reads 0) allowed.1 allowed.2.1 free nonzero inumber called
  | symlink dir name l new pageSymlink =>
    obtain ⟨inode, made, rfl⟩ := Option.map_eq_some_iff.mp edit
    cases new with
    | error err => cases made
    | ok made' =>
      obtain rfl := Option.some.inj made
      exact symlink_applies c (reads 0) allowed.1 allowed.2.1 allowed.2.2 called
  | mkdir dir name new =>
    obtain ⟨inode, made, rfl⟩ := Option.map_eq_some_iff.mp edit
    cases new with
    | error err => cases made
    | ok made' =>
      obtain rfl := Option.some.inj made
      exact mkdir_applies c (reads 1) allowed.1 allowed.2.1 allowed.2.2 called
  | link inode dir name =>
    obtain rfl := Option.some.inj edit
    exact link_applies c (reads 0) allowed.1 allowed.2.1 allowed.2.2.1 allowed.2.2.2 called
  | unlink dir name inode =>
    obtain rfl := Option.some.inj edit
    exact unlink_applies c (reads 0) allowed.1 allowed.2.1 allowed.2.2 maps called
  | rmdir dir name inode =>
    obtain rfl := Option.some.inj edit
    exact rmdir_applies c reads allowed.1 allowed.2.1 allowed.2.2 maps called
  | rename =>
    obtain rfl := Option.some.inj edit
    exact rename_applies c reads allowed maps called

theorem unedited_dirs (none : call.edit = none) (called : call.run v io s = some result) :
    result.2.dirs = s.dirs ∧ result.2.isDir = s.isDir := by
  cases call with
  | create dir name new | mknod dir name new =>
    cases new with
    | ok made => cases none
    | error err =>
      obtain rfl := Option.some.inj called
      exact ⟨rfl, rfl⟩
  | symlink dir name l new pageSymlink =>
    cases new with
    | ok made => cases none
    | error err =>
      have called : ext2Symlink v io dir name l (.error err) pageSymlink s = some result := called
      unfold ext2Symlink at called
      simp only at called
      split_ifs at called <;> obtain rfl := Option.some.inj called <;> exact ⟨rfl, rfl⟩
  | mkdir dir name new =>
    cases new with
    | ok made => cases none
    | error err =>
      obtain rfl := Option.some.inj called
      exact ⟨rfl, rfl⟩
  | link | unlink | rmdir | rename => cases none

theorem Shape.call_same (shape : Shape v s) (allowed : call.Allowed v s) (called : call.run v io s = some (err, s'))
    (names : ∀ d, s.inUse d = true → s'.names d = s.names d) : s'.paths = s.paths :=
  shape.paths_same (fun _ used => call.run_isDir called allowed used) names

theorem step_follows {event : Event} (c : Consistent v s) (step : Step v s event s') : Follows s.paths event s'.paths := by
  cases step with
  | @call _ io call err reads allowed commits called =>
    refine ⟨fun e edit zero => ?_, fun unchanged => ?_⟩
    · subst zero
      exact c.applies (Call.blocks_reads reads) allowed Call.blocks_maps edit (Call.run_blocks called)
    · refine c.toShape.call_same allowed called fun d used => ?_
      rcases unchanged with edit | failed
      · exact congrArg (fun dirs => bindings (dirs d)) (unedited_dirs edit called).1
      · exact ((c.after reads allowed commits called).2 failed).names d used
  | evict => rfl

/-- The files and directories of a consistent volume, as their paths show them. -/
structure ShownByPaths (v : DirVolume) (s : State) : Prop where
  files : ∀ i, s.inUse i = true → s.isDir i = false → s.nlink i = {p | s.paths p = some i}.ncard
  unique : ∀ p q d, s.paths p = some d → s.paths q = some d → s.isDir d = true → p = q
  directories : ∀ p d, s.paths p = some d → s.isDir d = true →
    s.nlink d = {c | s.isDir c = true ∧ ∃ name, s.paths (p ++ [name]) = some c}.ncard + 2
  lookups : ∀ p d name (cache : PageCache), s.paths p = some d → s.isDir d = true → dots.Inner name → name.length ≤ 255 →
    cache.Reads → ext2InodeByName v cache (s.dirs d) name = (s.paths (p ++ [name])).elim (.error (-enoent)) .ok

theorem Consistent.shown (c : Consistent v s) : ShownByPaths v s where
  files i used file := by
    have notDir : ¬ (graph s).isDir i := fun isDir => by
      have directory : s.isDir i = true := isDir
      rw [file] at directory
      cases directory
    exact (c.count used).trans (c.tree.card_paths (child_traverses s) notDir).symm
  unique p q d found found' isDir := c.toShape.path_unique isDir found' found
  directories p d found isDir := by
    have linked := paths_linked found isDir
    rw [c.count (State.Linked.inUse c.toShape linked), c.tree.count_dir linked]
    congr 2
    ext child
    constructor
    · rintro ⟨name, inner, named, directory⟩
      exact ⟨directory, name, (paths_named found isDir inner).trans named⟩
    · rintro ⟨directory, name, reached⟩
      obtain ⟨x, above, last⟩ := Paths.snoc_found reached
      obtain rfl := Option.some.inj (above.symm.trans found)
      obtain ⟨-, inner, named⟩ := (child_traverses s x name child).mp last
      exact ⟨name, inner, named, directory⟩
  lookups p d name cache found isDir inner short reads := by
    have ok := c.dirs d (paths_linked found isDir)
    rw [inodeByName_bindings ok.inv reads short, paths_named found isDir inner]
    unfold State.names
    cases bindings (s.dirs d) name <;> rfl

/-- However the operations follow one another, fail, or are mixed with inodes that are let go of: each one that succeeds changes
the paths by the one name or the one subtree that it was called for, and nothing else changes them. Every link count is then the
number of paths to a file, or two more than the number of subdirectories, and looking up one name after another finds the paths. -/
theorem paths_run {events : List Event} (start : Consistent v s) (run : Steps (Step v) s events s') :
    Steps Follows s.paths events s'.paths ∧ ShownByPaths v s' := by
  obtain ⟨paths, followed, rfl, after⟩ := run.simulates (R := fun t paths => t.paths = paths ∧ Consistent v t)
    (fun s e t paths related step => ⟨t.paths, related.1 ▸ step_follows related.2 step, rfl, step_consistent related.2 step⟩)
    ⟨rfl, start⟩
  exact ⟨followed, after.shown⟩

theorem paths_run_created :
    ∃ s', Steps (Step kibiVolume) (rootOnly dotEntries) [.call (fun _ => calmCache) (.create rootIno [97] (.ok newInode12)) 0] s' ∧
      Steps Follows (rootOnly dotEntries).paths [.call (fun _ => calmCache) (.create rootIno [97] (.ok newInode12)) 0] s'.paths ∧
        ShownByPaths kibiVolume s' := by
  have start : Consistent kibiVolume (rootOnly dotEntries) := rootOnly_consistent (dotEntries_madeEmpty false) (by decide)
  have zero : (ext2Create kibiVolume (fun _ => calmCache) rootIno [97] (.ok newInode12) (rootOnly dotEntries)).map Prod.fst = some 0 := by
    decide +kernel
  obtain ⟨⟨err, s'⟩, called, rfl⟩ := Option.map_eq_some_iff.mp zero
  have run : Steps (Step kibiVolume) (rootOnly dotEntries)
      [.call (fun _ => calmCache) (.create rootIno [97] (.ok newInode12)) 0] s' :=
    .cons (.call (fun _ => calmCache_reads) (newInode12_allowed false) rfl called) (.nil s')
  exact ⟨s', run, paths_run start run⟩

end OsLab.Ext2.Namei
