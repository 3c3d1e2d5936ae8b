import OsLab.Ext2.LinkCounts

/-!
# Moves in the tree

A move of a directory takes the empty directory out of the tree that it replaces, if there is
one, and then passes one name on to another.
-/

namespace OsLab.Ext2.Namei
open Bytes Records Hierarchies

variable {v : DirVolume} {io : Nat → PageCache} {s s' : State} {d i : Nat} {err : Int} {newInode : Option Nat}
variable {oldDir oldInode newDir new parent : Nat} {oldName newName name : List UInt8}

/-! ### `..` -/

theorem DirOk.dotted (ok : DirOk v s d) (bound : s.names d [46, 46] = some parent) : Dotted parent (s.dirs d) := by
  obtain ⟨o, p, low, high, member⟩ := ok.up
  have same : p = parent := Option.some.inj (((bindings_iff ok.inv).mpr ⟨o, member⟩).symm.trans bound)
  subst same
  obtain ⟨r, here, live, off, name⟩ := slot_of_link member
  have inode : r.inode = p := by
    obtain ⟨r', here', -, same⟩ := mem_links.mp member
    have one := ok.inv.wf.tiled.inj here here' (off.trans (congrArg Link.off same).symm)
    rw [one]
    exact congrArg Link.inode same
  have tiled := ok.inv.wf.tiled
  cases split : entries (s.dirs d) with
  | nil => rw [split] at here; cases here
  | cons dot rest =>
    have first := (ok.inv.wf.slots dot (split ▸ List.mem_cons_self)).pos
    rw [split] at here tiled
    obtain ⟨start, -, tiled⟩ := tiled
    rcases List.mem_cons.mp here with rfl | here
    · omega
    · cases rest with
      | nil => cases here
      | cons dotdot rest =>
        have second := (ok.inv.wf.slots dotdot (split ▸ by simp)).pos
        obtain ⟨next, -, tiled⟩ := tiled
        rcases List.mem_cons.mp here with rfl | later
        · exact ⟨dot, r, rest, split, name, inode⟩
        · have beyond := (tiled.mem later).1
          omega

theorem Dotted.names (inv : Directory v (s.dirs d)) (live : parent ≠ 0) (dotted : Dotted parent (s.dirs d)) :
    s.names d [46, 46] = some parent := by
  obtain ⟨de, -, member⟩ := @dotdot_link v calmCache (s.dirs d) parent inv live calmCache_reads dotted
  exact (bindings_iff inv).mpr ⟨de, member⟩

/-! ### What a move keeps -/

theorem Shape.counted (shape : Shape v s) (isDir : Bool) (newDir : Nat) (newInode : Option Nat) :
    Shape v (countTarget isDir newDir newInode s) := by
  cases newInode <;> cases isDir <;> exact shape.nlink _

theorem RenameResult.isDir (result : RenameResult v io s oldDir oldName oldInode newDir newName newInode err s') :
    s'.isDir = s.isDir := by
  cases result <;> simp

theorem RenameResult.inUse (result : RenameResult v io s oldDir oldName oldInode newDir newName newInode err s') :
    s'.inUse = s.inUse := by
  cases result <;> simp

theorem RenameResult.dirOk (result : RenameResult v io s oldDir oldName oldInode newDir newName newInode err s')
    (zero : err = 0) (inner : dots.Inner oldName) (inner' : dots.Inner newName) (ok : DirOk v s d) : DirOk v s' d := by
  have both : ∀ (isDir : Bool) {target source : Dir}, Binds v (s.dirs newDir) newName (some oldInode) target →
      Binds v ((s.setDir newDir target).dirs oldDir) oldName none source →
      DirOk v ((countTarget isDir newDir newInode (s.setDir newDir target)).setDir oldDir source) d := by
    intro isDir target source binds unbinds
    have first := ok.binds binds inner'.2
    have counted : DirOk v (countTarget isDir newDir newInode (s.setDir newDir target)) d :=
      first.congr (by rw [countTarget_dirs])
    rw [← @countTarget_dirs newDir isDir newInode] at unbinds
    exact counted.binds unbinds inner.2
  cases result with
  | refused failed => exact absurd zero failed
  | untouched _ _ failed => exact absurd zero failed
  | uncommitted _ _ failed => exact absurd zero failed
  | file _ binds unbinds => exact both false binds unbinds
  | sameDir _ _ _ _ binds unbinds => exact (both true binds unbinds).congr rfl
  | @otherDir target source moved de _ apart _ _ binds unbinds member renamed member' _ =>
    by_cases here : d = oldInode
    · subst here
      -- `..` changes in its place.
      obtain ⟨o, p, low, high, up⟩ := ok.up
      have place : de = o := congrArg Link.off (ok.inv.distinct.inj member up rfl)
      subst place
      have dirs : ((((countTarget true newDir newInode (s.setDir newDir target)).setDir oldDir source).setDir d
          moved).decLinkCount oldDir).dirs d = moved := by simp
      refine ⟨?_, ?_, de, newDir, low, high, ?_⟩ <;> rw [dirs]
      · exact renamed.inv
      · exact renamed.iNo.trans ok.iNo
      · exact member'
    · exact (both true binds unbinds).congr (by simp [here])

theorem RenameResult.graph (result : RenameResult v io s oldDir oldName oldInode newDir newName newInode err s') (zero : err = 0)
    (up : s'.names oldInode [46, 46] = some newDir) :
    graph s' = (((graph s).set newDir newName none).move dots oldDir oldName newDir newName oldInode) := by
  have names : s'.names = (((Namei.graph s).set newDir newName none).move dots oldDir oldName newDir newName oldInode).edge := by
    funext d name
    unfold Graph.move Graph.set
    show s'.names d name = if d = oldInode ∧ name = [46, 46] then some newDir else if d = oldDir ∧ name = oldName then none
      else if d = newDir ∧ name = newName then some oldInode else if d = newDir ∧ name = newName then none else s.names d name
    by_cases dotdot : d = oldInode ∧ name = [46, 46]
    · rw [if_pos dotdot, dotdot.1, dotdot.2, up]
    · rw [if_neg dotdot, result.names zero d name fun _ => dotdot]
      split_ifs <;> rfl
  unfold Namei.graph
  rw [names, result.isDir]
  rfl

/-- The tree without the empty directory that a move replaces. -/
theorem Shape.vacated (shape : Shape v s) (linked : s.Linked newDir) (inner : dots.Inner newName)
    (passed : s.names newDir newName = newInode)
    (empty : ∀ new, newInode = some new → s.isDir new = true ∧ ∀ name, dots.Inner name → s.names new name = none) :
    Hierarchy dots ((graph s).set newDir newName none) ∧
      (∀ x, Hierarchies.Linked dots ((graph s).set newDir newName none) x ↔ s.Linked x ∧ newInode ≠ some x) ∧
      ∀ j, count dots ((graph s).set newDir newName none) j + (if newInode = some j then 2 else 0) +
        (if newInode.isSome ∧ newDir = j then 1 else 0) = count dots (graph s) j := by
  cases newInode with
  | none =>
    have same : (graph s).set newDir newName none = graph s := set_same passed
    rw [same]
    exact ⟨shape.tree, fun x => (and_iff_left (by simp)).symm, fun j => by simp⟩
  | some new =>
    obtain ⟨isDir, none⟩ := empty new rfl
    obtain ⟨tree, left, counts⟩ := shape.tree.removeDir linked inner passed isDir none
    refine ⟨tree, fun x => (left x).trans (and_congr_right fun _ => ?_), fun j => ?_⟩
    · rw [ne_eq, ne_eq, Option.some.injEq, eq_comm]
    · have counted := counts j
      simp only [Option.some.injEq, Option.isSome_some, true_and]
      split_ifs at counted ⊢ <;> omega

theorem RenameResult.moveDir (result : RenameResult v io s oldDir oldName oldInode newDir newName newInode err s') (zero : err = 0)
    (shape : Shape v s) (linked : s.Linked oldDir) (linked' : s.Linked newDir) (inner : dots.Inner oldName)
    (inner' : dots.Inner newName) (bound : s.names oldDir oldName = some oldInode) (passed : s.names newDir newName = newInode)
    (differ : (oldDir, oldName) ≠ (newDir, newName)) (isDir : s.isDir oldInode = true)
    (empty : ∀ new, newInode = some new → s.isDir new = true ∧ ∀ name, dots.Inner name → s.names new name = none)
    (notBelow : ¬ Below dots (Namei.graph s) oldInode newDir) :
    Shape v s' ∧ ∀ j, count dots (Namei.graph s') j + (if oldDir = j then 1 else 0) + (if newInode = some j then 2 else 0) =
      count dots (Namei.graph s) j + (if newInode = none ∧ newDir = j then 1 else 0) := by
  obtain ⟨tree, left, vacated⟩ := shape.vacated linked' inner' passed empty
  obtain ⟨g, without⟩ : ∃ g, (Namei.graph s).set newDir newName none = g := ⟨_, rfl⟩
  have old : ((Namei.graph s).set newDir newName none).edge oldDir oldName = some oldInode :=
    (set_other fun here => differ (Prod.ext here.1 here.2)).trans bound
  have free : ((Namei.graph s).set newDir newName none).edge newDir newName = none := set_here _ _ _ _
  have below : ∀ {x y}, Below dots ((Namei.graph s).set newDir newName none) x y → Below dots (Namei.graph s) x y := by
    intro x y path
    refine Relation.ReflTransGen.mono (fun p d child => ?_) x y path
    obtain ⟨k, label, found, directory⟩ := child
    refine ⟨k, label, ?_, directory⟩
    by_cases here : p = newDir ∧ k = newName
    · rw [here.1, here.2, free] at found
      cases found
    · rwa [set_other here] at found
  have stays : s.Linked oldDir ∧ newInode ≠ some oldDir := ⟨linked, fun same => by
    rw [(empty oldDir same).2 oldName inner] at bound
    cases bound⟩
  have stays' : s.Linked newDir ∧ newInode ≠ some newDir := ⟨linked', fun same => by
    rw [(empty newDir same).2 newName inner', same] at passed
    cases passed⟩
  have child : s.Linked oldInode := Linked.child linked inner bound isDir
  have up : s.names oldInode [46, 46] = some oldDir := shape.tree.up oldDir oldName oldInode linked inner bound isDir
  have dirs := fun d (here : s.Linked d) => result.dirOk zero inner inner' (shape.dirs d here)
  have live := (shape.used newDir (State.Linked.inUse shape linked')).1
  have up' : s'.names oldInode [46, 46] = some newDir :=
    (result.dotted zero ((shape.dirs oldInode child).dotted up) isDir).names (dirs oldInode child).inv live
  have equal := result.graph zero up'
  rw [without] at tree left vacated old free below equal
  have apart : ¬ Below dots g oldInode newDir := fun path => notBelow (below path)
  have directory : g.isDir oldInode := without ▸ isDir
  have transfers : Transfers dots g oldDir oldName newDir newName oldInode :=
    ⟨tree, (left oldDir).mpr stays, (left newDir).mpr stays', inner, inner', old, directory, free, apart⟩
  have moved := transfers.hierarchy
  have same := transfers.linked_iff
  have counts := transfers.count
  rw [← equal] at moved same counts
  have linkedBefore : ∀ {x}, s'.Linked x → s.Linked x := fun here => ((left _).mp ((same _).mp here)).1
  refine ⟨⟨moved, fun d here => dirs d (linkedBefore here), fun d name i here found => ?_, ?_⟩, fun j => ?_⟩
  · rw [result.inUse]
    by_cases dotdot : d = oldInode ∧ name = [46, 46]
    · rw [dotdot.1, dotdot.2, up'] at found
      exact Option.some.inj found ▸ State.Linked.inUse shape linked'
    · rw [result.names zero d name fun _ => dotdot] at found
      split_ifs at found with first second
      · exact Option.some.inj found ▸ State.Linked.inUse shape child
      · exact shape.named d name i (linkedBefore here) found
  · rw [result.inUse]
    exact shape.used
  · have counted := counts j
    have before := vacated j
    cases newInode with
    | none =>
      simp only [reduceCtorEq, if_false, Option.isSome_none, Bool.false_eq_true, false_and, Nat.add_zero, true_and] at before ⊢
      omega
    | some new =>
      simp only [reduceCtorEq, Option.isSome_some, true_and, false_and, if_false, Nat.add_zero] at before ⊢
      omega

theorem RenameResult.emptied (result : RenameResult v io s oldDir oldName oldInode newDir newName newInode err s') (zero : err = 0)
    (isDir : s.isDir oldInode = true) : ∀ new, newInode = some new → ext2EmptyDir v (io 2) (s.dirs new) = true := by
  cases result with
  | refused failed => exact absurd zero failed
  | untouched _ _ failed => exact absurd zero failed
  | uncommitted _ _ failed => exact absurd zero failed
  | file file =>
    rw [file] at isDir
    cases isDir
  | sameDir _ _ _ empty => exact empty
  | otherDir _ _ _ empty => exact empty

theorem countTarget_nlink {isDir : Bool} {target : Dir} :
    (countTarget isDir newDir newInode (s.setDir d target)).nlink = (countTarget isDir newDir newInode s).nlink := by
  cases newInode <;> cases isDir <;> rfl

theorem RenameResult.nlink (result : RenameResult v io s oldDir oldName oldInode newDir newName newInode err s') (zero : err = 0)
    (isDir : s.isDir oldInode = true) : s'.nlink = ((countTarget true newDir newInode s).decLinkCount oldDir).nlink := by
  cases result with
  | refused failed => exact absurd zero failed
  | untouched _ _ failed => exact absurd zero failed
  | uncommitted _ _ failed => exact absurd zero failed
  | file file =>
    rw [file] at isDir
    cases isDir
  | sameDir => simp [countTarget_nlink]
  | otherDir => simp [countTarget_nlink]

/-- A file moves as a name that is bound and another that gets free. -/
theorem Shape.moveFile (shape : Shape v s) (linked : s.Linked oldDir) (linked' : s.Linked newDir) (inner : dots.Inner oldName)
    (inner' : dots.Inner newName) (bound : s.names oldDir oldName = some oldInode) (passed : s.names newDir newName = newInode)
    (differ : (oldDir, oldName) ≠ (newDir, newName)) (file : s.isDir oldInode = false)
    (files : ∀ new, newInode = some new → s.isDir new = false) {target source : Dir}
    (binds : Binds v (s.dirs newDir) newName (some oldInode) target)
    (unbinds : Binds v ((s.setDir newDir target).dirs oldDir) oldName none source) :
    Shape v ((countTarget false newDir newInode (s.setDir newDir target)).setDir oldDir source) ∧ ∀ j,
      count dots (graph ((countTarget false newDir newInode (s.setDir newDir target)).setDir oldDir source)) j +
        (if newInode = some j then 1 else 0) = count dots (graph s) j := by
  have used := shape.named oldDir oldName oldInode linked bound
  obtain ⟨first, same, counts⟩ := shape.leaf linked' inner' binds (fun i here => files i (passed.symm.trans here))
    (fun i here => Option.some.inj here ▸ ⟨file, used⟩)
  have counted : Shape v (countTarget false newDir newInode (s.setDir newDir target)) := first.counted _ _ _
  have equal : graph (countTarget false newDir newInode (s.setDir newDir target)) = graph (s.setDir newDir target) := by
    unfold graph
    rw [countTarget_names, countTarget_isDir]
  have still : (countTarget false newDir newInode (s.setDir newDir target)).names oldDir oldName = some oldInode := by
    rw [countTarget_names, names_setDir binds, if_neg fun here => differ (Prod.ext here.1 here.2), bound]
  have linked'' : (countTarget false newDir newInode (s.setDir newDir target)).Linked oldDir := by
    unfold State.Linked at same ⊢
    rw [equal, same]
    exact linked
  rw [← @countTarget_dirs newDir false newInode] at unbinds
  obtain ⟨second, -, counts'⟩ := counted.leaf linked'' inner unbinds
    (fun i here => by
      have same := Option.some.inj (still.symm.trans here)
      rw [countTarget_isDir, ← same]
      exact file)
    (fun i here => by cases here)
  refine ⟨second, fun j => ?_⟩
  have before := counts j
  have after := counts' j
  rw [equal, still] at after
  rw [passed] at before
  simp only [reduceCtorEq, if_false, Nat.add_zero] at after
  omega

end OsLab.Ext2.Namei
