import OsLab.Ext2.NamespaceSteps
import OsLab.Foundation.Runs

/-!
# Runs of the namespace

Whatever sequence of operations is made, and whichever inodes are let go of in between, the
link counts are the numbers of entries. An operation that fails is undone.
-/

namespace OsLab.Ext2.Namei
open Bytes Records Hierarchies Runs

inductive Event where
  | call (io : Nat → PageCache) (c : Call) (err : Int)
  | evict (i : Nat)

/-- A call, or the last user of an inode without links lets go of it. -/
inductive Step (v : DirVolume) : State → Event → State → Prop
  | call {s s' : State} {io : Nat → PageCache} {c : Call} {err : Int} : (∀ k, (io k).Reads) → c.Allowed v s →
      c.Commits io s → c.run v io s = some (err, s') → Step v s (.call io c err) s'
  | evict {s : State} (i : Nat) : s.nlink i = 0 → Step v s (.evict i) (s.discardNewInode i)

variable {v : DirVolume} {io : Nat → PageCache} {s s' : State} {dir inode : Nat} {name : List UInt8}
variable {oldDir oldInode newDir : Nat} {oldName newName : List UInt8} {newInode : Option Nat}
variable {call : Call} {result : Int × State}

/-! ### Calls that come back -/

theorem unlink_withBlocks (called : ext2Unlink v io dir name inode s = some result) :
    ext2Unlink v (fun k => withBlocks (io k)) dir name inode s = some result := by
  unfold ext2Unlink at called ⊢
  have find : ext2FindEntry v (withBlocks (io 0)) (s.dirs dir) name = ext2FindEntry v (io 0) (s.dirs dir) name := rfl
  rw [find]
  cases located : ext2FindEntry v (io 0) (s.dirs dir) name with
  | error err =>
    rw [located] at called
    exact called
  | ok de =>
    rw [located] at called
    obtain ⟨deleted, once, rfl⟩ := Option.map_eq_some_iff.mp called
    simp only [deleteEntry_withBlocks once, Option.map_some]

theorem rmdir_withBlocks (called : ext2Rmdir v io dir name inode s = some result) :
    ext2Rmdir v (fun k => withBlocks (io k)) dir name inode s = some result := by
  unfold ext2Rmdir at called ⊢
  have test : ext2EmptyDir v (withBlocks (io 0)) (s.dirs inode) = ext2EmptyDir v (io 0) (s.dirs inode) := rfl
  rw [test]
  split_ifs at called ⊢ with empty
  · exact called
  · obtain ⟨unlinked, once, rfl⟩ := Option.map_eq_some_iff.mp called
    rw [unlink_withBlocks once, Option.map_some]

/-- Only the new entry of a `rename` may still find no block. -/
def renameBlocks (io : Nat → PageCache) (newInode : Option Nat) (k : Nat) : PageCache :=
  if k = 4 ∧ newInode = none then io k else withBlocks (io k)

theorem renameTarget_withBlocks {isDir : Bool} (called : renameTarget v io isDir oldInode newDir newName newInode s = some result) :
    renameTarget v (renameBlocks io newInode) isDir oldInode newDir newName newInode s = some result := by
  cases newInode with
  | none => exact called
  | some new =>
    unfold renameTarget at called ⊢
    have test : ext2EmptyDir v (withBlocks (io 2)) (s.dirs new) = ext2EmptyDir v (io 2) (s.dirs new) := rfl
    have find : ext2FindEntry v (withBlocks (io 3)) (s.dirs newDir) newName = ext2FindEntry v (io 3) (s.dirs newDir) newName := rfl
    simp only [renameBlocks, reduceCtorEq, and_false, if_false, test, find] at called ⊢
    by_cases full : isDir = true ∧ ext2EmptyDir v (io 2) (s.dirs new) = false
    · rw [if_pos full] at called ⊢
      exact called
    · rw [if_neg full] at called ⊢
      cases located : ext2FindEntry v (io 3) (s.dirs newDir) newName with
      | error err =>
        rw [located] at called
        exact called
      | ok de =>
        rw [located] at called
        obtain ⟨linked, once, rfl⟩ := Option.map_eq_some_iff.mp called
        simp only [setLink_withBlocks once, Option.map_some]

theorem renameFinish_withBlocks {dirDe : Option Nat} {oldDe : Nat}
    (called : renameFinish v io dirDe oldDir oldDe oldInode newDir s = some s') :
    renameFinish v (renameBlocks io newInode) dirDe oldDir oldDe oldInode newDir s = some s' := by
  unfold renameFinish at called ⊢
  obtain ⟨deleted, once, rest⟩ := Option.bind_eq_some_iff.mp called
  have five : renameBlocks io newInode 5 = withBlocks (io 5) := rfl
  have six : renameBlocks io newInode 6 = withBlocks (io 6) := rfl
  rw [five, six, deleteEntry_withBlocks once, Option.bind_some]
  cases dirDe with
  | none => exact rest
  | some de =>
    simp only at rest ⊢
    split_ifs at rest ⊢ with same
    · obtain ⟨linked, once, rfl⟩ := Option.map_eq_some_iff.mp rest
      rw [setLink_withBlocks once, Option.map_some]
    · exact rest

theorem rename_withBlocks {flags : Nat} (called : ext2Rename v io flags oldDir oldName oldInode newDir newName newInode s = some result) :
    ext2Rename v (renameBlocks io newInode) flags oldDir oldName oldInode newDir newName newInode s = some result := by
  unfold ext2Rename at called ⊢
  have find : ext2FindEntry v (renameBlocks io newInode 0) (s.dirs oldDir) oldName = ext2FindEntry v (io 0) (s.dirs oldDir) oldName := rfl
  have dotdot : renameDotdot v (renameBlocks io newInode 1) oldInode s = renameDotdot v (io 1) oldInode s := rfl
  rw [find, dotdot]
  split_ifs at called ⊢ with unknown
  · exact called
  · cases located : ext2FindEntry v (io 0) (s.dirs oldDir) oldName with
    | error err =>
      rw [located] at called
      exact called
    | ok oldDe =>
      cases held : renameDotdot v (io 1) oldInode s with
      | error err =>
        rw [located, held] at called
        exact called
      | ok dirDe =>
        simp only [located, held] at called ⊢
        obtain ⟨target, once, rest⟩ := Option.bind_eq_some_iff.mp called
        rw [renameTarget_withBlocks once, Option.bind_some]
        split_ifs at rest ⊢ with failed
        · exact rest
        · obtain ⟨finished, twice, rfl⟩ := Option.map_eq_some_iff.mp rest
          rw [renameFinish_withBlocks twice, Option.map_some]

def Call.blocks (io : Nat → PageCache) : Call → Nat → PageCache
  | .rename _ _ _ _ _ _ newInode => renameBlocks io newInode
  | .unlink _ _ _ | .rmdir _ _ _ => fun k => withBlocks (io k)
  | _ => io

theorem Call.run_blocks (called : call.run v io s = some result) : call.run v (call.blocks io) s = some result := by
  cases call with
  | unlink => exact unlink_withBlocks called
  | rmdir => exact rmdir_withBlocks called
  | rename => exact rename_withBlocks called
  | create | mknod | symlink | link | mkdir => exact called

theorem Call.blocks_maps : call.Maps (call.blocks io) s := by
  cases call with
  | unlink => exact withBlocks_maps _
  | rmdir => exact withBlocks_maps _
  | rename flags oldDir oldName oldInode newDir newName newInode =>
    refine ⟨fun new here => ?_, fun k other dir => ?_⟩
    · subst here
      exact withBlocks_maps _
    · have mapped : renameBlocks io newInode k = withBlocks (io k) := if_neg fun here => other here.1
      show (renameBlocks io newInode k).Maps dir
      rw [mapped]
      exact withBlocks_maps dir
  | create | mknod | symlink | link | mkdir => trivial

theorem Call.blocks_same (k : Nat) : call.blocks io k = io k ∨ call.blocks io k = withBlocks (io k) := by
  cases call with
  | unlink => exact Or.inr rfl
  | rmdir => exact Or.inr rfl
  | rename flags oldDir oldName oldInode newDir newName newInode =>
    by_cases here : k = 4 ∧ newInode = none
    · exact Or.inl (if_pos here)
    · exact Or.inr (if_neg here)
  | create | mknod | symlink | link | mkdir => exact Or.inl rfl

theorem Call.blocks_reads (reads : ∀ k, (io k).Reads) (k : Nat) : (call.blocks io k).Reads := by
  rcases @Call.blocks_same io call k with same | same <;> rw [same]
  · exact reads k
  · exact ⟨(reads k).readPage, (reads k).pageError⟩

theorem Call.blocks_commitErr (k : Nat) (d : Dir) : commitErr (call.blocks io k) d = commitErr (io k) d := by
  rcases @Call.blocks_same io call k with same | same <;> rw [same]
  rfl

theorem Call.blocks_commits (commits : call.Commits io s) : call.Commits (call.blocks io) s := by
  cases call <;> simpa only [Call.Commits, Call.blocks_commitErr] using commits

/-- What every call that comes back does to a consistent state. -/
theorem Consistent.after {err : Int} (c : Consistent v s) (reads : ∀ k, (io k).Reads) (allowed : call.Allowed v s)
    (commits : call.Commits io s) (called : call.run v io s = some (err, s')) :
    Consistent v s' ∧ (err ≠ 0 → Undone s s') := by
  obtain ⟨err', t, calm, kept, undone⟩ := c.keeps (Call.blocks_reads reads) allowed (Call.blocks_commits commits) Call.blocks_maps
  obtain ⟨rfl, rfl⟩ := Prod.mk.inj (Option.some.inj (calm.symm.trans (Call.run_blocks called)))
  exact ⟨kept, undone⟩

/-! ### Runs -/

theorem unnamed_of_count (shape : Shape v s) {n : Nat} (zero : count dots (graph s) n = 0) {d : Nat} (linked : s.Linked d) :
    s.names d name ≠ some n := by
  intro named
  have finite : (naming (Hierarchies.Linked dots (graph s)) (graph s).edge n).Finite :=
    shape.tree.finite.subset fun q member => ⟨member.1, by rw [member.2]; rfl⟩
  have empty := (Set.ncard_eq_zero finite).mp zero
  have member : (d, name) ∈ naming (Hierarchies.Linked dots (graph s)) (graph s).edge n := ⟨linked, named⟩
  rw [empty] at member
  exact member

theorem Consistent.evicted (c : Consistent v s) {i : Nat} (zero : s.nlink i = 0) : Consistent v (s.discardNewInode i) := by
  have none : ∀ d name, s.Linked d → s.names d name ≠ some i := by
    intro d name linked
    cases used : s.inUse i with
    | false => exact unnamed c.toShape used linked
    | true => exact unnamed_of_count c.toShape ((c.count used).symm.trans zero) linked
  apply (c.toShape.discard none).consistent
  intro j used
  by_cases here : j = i
  · rw [here, State.discardNewInode_inUse, Function.update_self] at used
    cases used
  · rw [State.discardNewInode_inUse, Function.update_of_ne here] at used
    exact c.count used

theorem step_consistent {event : Event} (c : Consistent v s) (step : Step v s event s') : Consistent v s' := by
  cases step with
  | call reads allowed commits called => exact (c.after reads allowed commits called).1
  | evict i zero => exact c.evicted zero

theorem run_consistent {events : List Event} (start : Consistent v s) (run : Steps (Step v) s events s') : Consistent v s' :=
  run.invariant (fun _ _ _ => step_consistent) start

/-- After every call the counts are right; and no call comes to `BUG()` as long as the blocks are there. -/
theorem link_counts_run {events : List Event} (start : Consistent v s) (run : Steps (Step v) s events s') :
    (∀ i, s'.inUse i = true → s'.nlink i = entryCount s' i) ∧
      ∀ (io : Nat → PageCache) (call : Call), (∀ k, (io k).Reads) → call.Allowed v s' → call.Commits io s' → call.Maps io s' →
        ∃ err t, call.run v io s' = some (err, t) := by
  have after := run_consistent start run
  refine ⟨after.counts, fun io call reads allowed commits maps => ?_⟩
  obtain ⟨err, t, called, -⟩ := after.keeps reads allowed commits maps
  exact ⟨err, t, called⟩

theorem failed_undone {events : List Event} {t : State} {err : Int} (start : Consistent v s) (run : Steps (Step v) s events s')
    (reads : ∀ k, (io k).Reads) (allowed : call.Allowed v s') (commits : call.Commits io s')
    (called : call.run v io s' = some (err, t)) (failed : err ≠ 0) : Undone s' t :=
  ((run_consistent start run).after reads allowed commits called).2 failed

/-! ### A volume with a root directory -/

def rootOnly (dir : Dir) : State where
  dirs _ := dir
  nlink i := if i = rootIno then 2 else 0
  isDir i := i = rootIno
  inUse i := i = rootIno

theorem rootOnly_consistent {root : Dir} (made : MadeEmpty v rootIno rootIno root) (inumber : rootIno ≤ v.inodesCount) :
    Consistent v (rootOnly root) := by
  obtain ⟨self, up, none⟩ := made.names
  obtain ⟨tree, only, two⟩ := @Hierarchy.single _ _ dots (graph (rootOnly root)) (by simp [graph, rootOnly, dots]) self up none
  have linked : ∀ d, (rootOnly root).Linked d → d = rootIno := fun d => (only d).mp
  have shape : Shape v (rootOnly root) := by
    refine ⟨tree, fun d here => ?_, fun d name i here named => ?_, fun i used => ?_⟩
    · obtain rfl := linked d here
      refine ⟨made.inv, made.self, 12, rootIno, by decide, by decide, ?_⟩
      show _ ∈ links (entries root)
      rw [made.written]
      simp
    · have named : bindings root name = some i := named
      by_cases own : name = [46]
      · rw [own, self] at named
        obtain rfl := Option.some.inj named
        rfl
      · by_cases last : name = [46, 46]
        · rw [last, up] at named
          obtain rfl := Option.some.inj named
          rfl
        · rw [none name ⟨own, last⟩] at named
          cases named
    · obtain rfl := of_decide_eq_true used
      exact ⟨by decide, inumber⟩
  apply shape.consistent
  intro i used
  obtain rfl := of_decide_eq_true used
  exact two.symm

theorem dotEntries_madeEmpty (dirsync : Bool) : MadeEmpty kibiVolume rootIno rootIno { dotEntries with isDirsync := dirsync } := by
  have same : entries { dotEntries with isDirsync := dirsync } = entries dotEntries := rfl
  obtain ⟨⟨size, blocks, tiled, slots⟩, distinct, named⟩ := dotEntries_directory
  refine ⟨⟨⟨size, blocks, tiled, slots⟩, distinct, named⟩, rfl, ?_⟩
  rw [same, dotEntries_entries]
  decide

def newInode12 : Dir := ⟨12, 0, 1, false, fun _ => 0⟩

theorem newInode12_allowed (dirsync : Bool) :
    (Call.create rootIno [97] (.ok newInode12)).Allowed kibiVolume (rootOnly { dotEntries with isDirsync := dirsync }) := by
  have inner : dots.Inner [97] := ⟨by decide, by decide⟩
  refine ⟨⟨.root, inner, by decide, by decide⟩, ?_, ?_⟩
  · exact (dotEntries_madeEmpty dirsync).names.2.2 [97] inner
  · intro inode same
    obtain rfl := Except.ok.inj same
    exact ⟨rfl, by decide, by decide, rfl⟩

theorem link_counts_run_create :
    ∃ err s', Steps (Step kibiVolume) (rootOnly dotEntries) [.call (fun _ => calmCache) (.create rootIno [97] (.ok newInode12)) err] s' ∧
      (∀ i, s'.inUse i = true → s'.nlink i = entryCount s' i) ∧
        ∀ (io : Nat → PageCache) (call : Call), (∀ k, (io k).Reads) → call.Allowed kibiVolume s' → call.Commits io s' →
          call.Maps io s' → ∃ err t, call.run kibiVolume io s' = some (err, t) := by
  have start : Consistent kibiVolume (rootOnly dotEntries) := rootOnly_consistent (dotEntries_madeEmpty false) (by decide)
  have reads : ∀ _ : Nat, calmCache.Reads := fun _ => calmCache_reads
  obtain ⟨err, s', called, -⟩ := @Consistent.keeps kibiVolume (fun _ => calmCache) _ _ start reads (newInode12_allowed false) rfl trivial
  have run : Steps (Step kibiVolume) (rootOnly dotEntries) [.call (fun _ => calmCache) (.create rootIno [97] (.ok newInode12)) err] s' :=
    .cons (.call reads (newInode12_allowed false) rfl called) (.nil s')
  exact ⟨err, s', run, link_counts_run start run⟩

/-- No block is there for the new directory. -/
def fullDisk (_ : Nat) : PageCache := { calmCache with getBlocks := fun _ _ => -enospc }

theorem failed_undone_mkdir :
    ∃ err t, ext2Mkdir kibiVolume fullDisk rootIno [97] (.ok newInode12) (rootOnly dotEntries) = some (err, t) ∧
      Undone (rootOnly dotEntries) t := by
  have start : Consistent kibiVolume (rootOnly dotEntries) := rootOnly_consistent (dotEntries_madeEmpty false) (by decide)
  have failed : (ext2Mkdir kibiVolume fullDisk rootIno [97] (.ok newInode12) (rootOnly dotEntries)).map Prod.fst = some (-enospc) := by
    decide +kernel
  obtain ⟨⟨err, t⟩, called, rfl⟩ := Option.map_eq_some_iff.mp failed
  exact ⟨_, t, called, @failed_undone kibiVolume fullDisk _ _ (.mkdir rootIno [97] (.ok newInode12)) [] _ _ start (.nil _)
    (fun _ => ⟨fun _ => rfl, fun _ => rfl⟩) (newInode12_allowed false) rfl called (by decide)⟩

/-- Writing the page of the root directory fails. -/
def failedWrite (_ : Nat) : PageCache := { calmCache with writeOnePage := -eio }

/-- The entry stays when `ext2_create` reports the error and discards the inode. -/
theorem uncommitted_entry_stays :
    ¬ ∀ (v : DirVolume) (io : Nat → PageCache) (call : Call) (s s' : State) (err : Int), Consistent v s → (∀ k, (io k).Reads) →
      call.Allowed v s → call.run v io s = some (err, s') → err ≠ 0 → Undone s s' := by
  intro undone
  have start := rootOnly_consistent (dotEntries_madeEmpty true) (by decide)
  have stays : (ext2Create kibiVolume failedWrite rootIno [97] (.ok newInode12) (rootOnly { dotEntries with isDirsync := true })).map
      (fun p => (p.1, p.2.names rootIno [97], p.2.inUse 12)) = some (-eio, some 12, false) := by decide +kernel
  obtain ⟨⟨err, s'⟩, called, result⟩ := Option.map_eq_some_iff.mp stays
  obtain ⟨rfl, rest⟩ := Prod.mk.inj result
  obtain ⟨named, free⟩ := Prod.mk.inj rest
  have discarded := (undone _ _ _ _ _ _ start (fun _ => ⟨fun _ => rfl, fun _ => rfl⟩) (newInode12_allowed true) called (by decide)).discarded
  have used := discarded rootIno [97] 12 .root named
  rw [free] at used
  cases used

end OsLab.Ext2.Namei
