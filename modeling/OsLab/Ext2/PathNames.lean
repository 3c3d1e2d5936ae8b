import OsLab.Ext2.NamespaceRuns
import OsLab.Foundation.Paths

/-!
# Path names

The inode that a path of names leads to from the root, one directory after another. An operation
that succeeds binds one path, takes one away, or moves one with all that is behind it; every
other path leads to what it led to before.
-/

namespace OsLab.Ext2.Namei
open Bytes Records Hierarchies

/-- What is found for a component of a path. The VFS takes the dots itself. -/
def State.child (s : State) (d : Nat) (name : List UInt8) : Option Nat :=
  if s.isDir d = true ∧ name ≠ [46] ∧ name ≠ [46, 46] then s.names d name else none

abbrev PathMap := List (List UInt8) → Option Nat

def State.paths (s : State) : PathMap := Paths.follow s.child rootIno

/-- What an operation makes of the names, if it succeeds. -/
inductive Edit where
  | bind (dir : Nat) (name : List UInt8) (inode : Nat)
  | unbind (dir : Nat) (name : List UInt8)
  | move (oldDir : Nat) (oldName : List UInt8) (newDir : Nat) (newName : List UInt8)

def Call.edit : Call → Option Edit
  | .create dir name new | .mknod dir name new | .symlink dir name _ new _ | .mkdir dir name new =>
    new.toOption.map fun inode => .bind dir name inode.iNo
  | .link inode dir name => some (.bind dir name inode)
  | .unlink dir name _ | .rmdir dir name _ => some (.unbind dir name)
  | .rename _ oldDir oldName _ newDir newName _ => some (.move oldDir oldName newDir newName)

inductive Edit.Applies : Edit → PathMap → PathMap → Prop
  | bind {paths : PathMap} {p : List (List UInt8)} {dir inode : Nat} {name : List UInt8} : paths p = some dir →
      paths (p ++ [name]) = none →
      Applies (.bind dir name inode) paths (Function.update paths (p ++ [name]) (some inode))
  | unbind {paths : PathMap} {p : List (List UInt8)} {dir : Nat} {name : List UInt8} : paths p = some dir →
      (paths (p ++ [name])).isSome → Applies (.unbind dir name) paths (Function.update paths (p ++ [name]) none)
  | move {paths : PathMap} {p p' : List (List UInt8)} {oldDir newDir : Nat} {oldName newName : List UInt8} :
      paths p = some oldDir → paths p' = some newDir → (paths (p ++ [oldName])).isSome → ¬ p ++ [oldName] <+: p' →
      Applies (.move oldDir oldName newDir newName) paths (Paths.moved paths (p ++ [oldName]) (p' ++ [newName]))

variable {v : DirVolume} {io : Nat → PageCache} {s s' : State} {dir inode d i : Nat} {name : List UInt8} {new : Except Int Dir}
variable {p : List (List UInt8)}

/-! ### Paths of a tree -/

theorem child_traverses (s : State) : Traverses dots (graph s) s.child := by
  intro x name y
  show (if s.isDir x = true ∧ name ≠ [46] ∧ name ≠ [46, 46] then s.names x name else none) = some y ↔
    s.isDir x = true ∧ (name ≠ [46] ∧ name ≠ [46, 46]) ∧ s.names x name = some y
  split_ifs with known
  · exact ⟨fun found => ⟨known.1, known.2, found⟩, fun found => found.2.2⟩
  · exact iff_of_false nofun fun found => known ⟨found.1, found.2.1⟩

theorem child_file (file : s.isDir i = false) (name : List UInt8) : s.child i name = none := by
  rw [State.child, if_neg]
  exact fun known => by
    rw [file] at known
    cases known.1

theorem child_empty (empty : ∀ name, dots.Inner name → s.names i name = none) (name : List UInt8) : s.child i name = none := by
  unfold State.child
  split_ifs with known
  · exact empty name known.2
  · rfl

theorem child_named (isDir : s.isDir d = true) (inner : dots.Inner name) : s.child d name = s.names d name := if_pos ⟨isDir, inner⟩

theorem Shape.isDir (shape : Shape v s) (linked : s.Linked d) : s.isDir d = true := shape.tree.isDir linked

theorem Shape.path (shape : Shape v s) (linked : s.Linked d) : ∃ p, s.paths p = some d := shape.tree.path (child_traverses s) linked

theorem Shape.path_unique (shape : Shape v s) (isDir : s.isDir d = true) {q : List (List UInt8)} (found : s.paths p = some d)
    (found' : s.paths q = some d) : q = p := shape.tree.path_unique (child_traverses s) isDir found' found

theorem paths_linked (found : s.paths p = some d) (isDir : s.isDir d = true) : s.Linked d :=
  (child_traverses s).linked found isDir

theorem paths_named (found : s.paths p = some d) (isDir : s.isDir d = true) (inner : dots.Inner name) :
    s.paths (p ++ [name]) = s.names d name := (Paths.follow_named found).trans (child_named isDir inner)

theorem Shape.reached (shape : Shape v s) (found : s.paths p = some i) : s.inUse i = true := by
  cases p using List.reverseRecOn with
  | nil =>
    obtain rfl := Option.some.inj found
    exact State.Linked.inUse shape .root
  | append_singleton p name =>
    obtain ⟨d, above, last⟩ := Paths.snoc_found found
    obtain ⟨isDir, -, named⟩ := (child_traverses s d name i).mp last
    exact shape.named d name i (paths_linked above isDir) named

/-- The paths stay if the names do. -/
theorem Shape.paths_same (shape : Shape v s) (isDir : ∀ i, s.inUse i = true → s'.isDir i = s.isDir i)
    (names : ∀ d, s.inUse d = true → s'.names d = s.names d) : s'.paths = s.paths := by
  apply Paths.follow_congr
  intro q x name found
  have used := shape.reached found
  unfold State.child
  rw [isDir x used, names x used]

/-- One name changes, from a leaf or nothing to a leaf or nothing. -/
theorem Shape.paths_bind (shape : Shape v s) (linked : s.Linked dir) (inner : dots.Inner name) {o : Option Nat}
    (isDir : ∀ i, s.inUse i = true → s'.isDir i = s.isDir i)
    (names : ∀ d name', s.Linked d → s.names dir name ≠ some d →
      s'.names d name' = if d = dir ∧ name' = name then o else s.names d name')
    (old : ∀ i, s.names dir name = some i → ∀ l, s.child i l = none) (new : ∀ i, o = some i → ∀ l, s'.child i l = none) :
    ∃ p, s.paths p = some dir ∧ s.paths (p ++ [name]) = s.names dir name ∧
      s'.paths = Function.update s.paths (p ++ [name]) o := by
  have directory := shape.isDir linked
  obtain ⟨p, found⟩ := shape.path linked
  have named := paths_named found directory inner
  refine ⟨p, found, named, ?_⟩
  apply Paths.follow_bind found (fun q same => shape.path_unique directory found same) _ new
  · intro q x l other reached
    have used := shape.reached reached
    cases kind : s.isDir x with
    | false =>
      rw [child_file (by rw [isDir x used, kind]), if_neg, child_file kind]
      rintro ⟨rfl, -⟩
      rw [directory] at kind
      cases kind
    | true =>
      have still : s.names dir name ≠ some x := fun same => other (shape.path_unique kind (named.trans same) reached)
      by_cases label : dots.Inner l
      · rw [child_named ((isDir x used).trans kind) label, child_named kind label,
          names x l (paths_linked reached kind) still]
      · have outer : ∀ {t : State}, t.child x l = none := if_neg fun known => label known.2
        have apart : ¬ (x = dir ∧ l = name) := fun here => label (here.2 ▸ inner)
        rw [outer, outer, if_neg apart]
  · intro x bound
    exact old x ((child_named directory inner).symm.trans bound)

theorem Shape.bind_applies (shape : Shape v s) (operand : Operand s dir name) (absent : s.names dir name = none)
    (isDir : ∀ i, s.inUse i = true → s'.isDir i = s.isDir i)
    (names : ∀ d name', s.Linked d → s'.names d name' = if d = dir ∧ name' = name then some inode else s.names d name')
    (leaf : ∀ l, s'.child inode l = none) : (Edit.bind dir name inode).Applies s.paths s'.paths := by
  obtain ⟨p, found, named, paths⟩ := shape.paths_bind operand.linked operand.inner isDir (fun d name' linked _ => names d name' linked)
    (fun i bound => by
      rw [absent] at bound
      cases bound)
    (fun i same => Option.some.inj same ▸ leaf)
  rw [paths]
  exact .bind found (named.trans absent)

theorem Shape.unbind_applies (shape : Shape v s) (operand : Operand s dir name) (bound : s.names dir name = some inode)
    (isDir : ∀ i, s.inUse i = true → s'.isDir i = s.isDir i)
    (names : ∀ d name', s.Linked d → d ≠ inode → s'.names d name' = if d = dir ∧ name' = name then none else s.names d name')
    (leaf : ∀ l, s.child inode l = none) : (Edit.unbind dir name).Applies s.paths s'.paths := by
  obtain ⟨p, found, named, paths⟩ := shape.paths_bind operand.linked operand.inner isDir
    (fun d name' linked other => names d name' linked fun same => other (same ▸ bound))
    (fun i other => by
      obtain rfl := Option.some.inj (bound.symm.trans other)
      exact leaf)
    (fun i none => by cases none)
  rw [paths]
  exact .unbind found (by rw [named, bound]; rfl)

/-! ### Names that are made -/

theorem newInode_kinds (free : s.inUse i = false) {b : Bool} (j : Nat) (used : s.inUse j = true) :
    Function.update s.isDir i b j = s.isDir j := by
  refine Function.update_of_ne ?_ _ _
  rintro rfl
  rw [free] at used
  cases used

theorem addNondir_applies (c : Consistent v s) {cache : PageCache} (reads : cache.Reads) (operand : Operand s dir name)
    (absent : s.names dir name = none) {inode : Dir} (free : s.inUse inode.iNo = false) (nonzero : inode.iNo ≠ 0)
    (inumber : inode.iNo ≤ v.inodesCount)
    (called : ext2AddNondir v cache dir name inode.iNo (s.newInode inode false) = some (0, s')) :
    (Edit.bind dir name inode.iNo).Applies s.paths s'.paths := by
  have used := State.Linked.inUse c.toShape operand.linked
  have shape := c.toShape.newInode free nonzero inumber false
  have linked : (s.newInode inode false).Linked dir := ((agree_newInode c.toShape free false).linked dir).mpr operand.linked
  have still : (s.newInode inode false).names dir name = none := by rw [newInode_names free false used, absent]
  obtain ⟨err, dir', added, result⟩ := addLink_binds (shape.dirs dir linked).inv reads operand.long operand.short still nonzero inumber
  unfold ext2AddNondir at called
  simp only [added, Option.map_some, Option.some.injEq] at called
  split_ifs at called with failed
  · exact absurd (Prod.mk.inj called).1 failed
  obtain ⟨-, rfl⟩ := Prod.mk.inj called
  rcases result with ⟨binds, -⟩ | ⟨-, refused⟩
  · refine c.toShape.bind_applies operand absent (newInode_kinds free) (fun d name' above => ?_)
      (child_file (Function.update_self _ _ _))
    rw [names_setDir binds, newInode_names free false (State.Linked.inUse c.toShape above)]
  · exact absurd (not_not.mp failed) refused

theorem symlink_applies (c : Consistent v s) (reads : (io 0).Reads) (operand : Operand s dir name)
    (absent : s.names dir name = none) {inode : Dir} (fresh : Fresh v s (.ok inode)) {l : Nat} {pageSymlink : Int}
    (called : ext2Symlink v io dir name l (.ok inode) pageSymlink s = some (0, s')) :
    (Edit.bind dir name inode.iNo).Applies s.paths s'.paths := by
  obtain ⟨free, nonzero, inumber, -⟩ := fresh inode rfl
  unfold ext2Symlink at called
  split_ifs at called with long slow
  · exact absurd (Prod.mk.inj (Option.some.inj called)).1 (by decide)
  · exact absurd (Prod.mk.inj (Option.some.inj called)).1 slow.2
  · exact addNondir_applies c reads operand absent free nonzero inumber called

theorem link_applies (c : Consistent v s) (reads : (io 0).Reads) (operand : Operand s dir name) (absent : s.names dir name = none)
    (used : s.inUse inode = true) (file : s.isDir inode = false) (called : ext2Link v io inode dir name s = some (0, s')) :
    (Edit.bind dir name inode).Applies s.paths s'.paths := by
  have still : (s.incLinkCount inode).names dir name = none := absent
  obtain ⟨nonzero, inumber⟩ := c.used inode used
  obtain ⟨err, dir', added, result⟩ := @addLink_binds v (io 0) (s.incLinkCount inode) name dir inode
    (c.dirs dir operand.linked).inv reads operand.long operand.short still nonzero inumber
  unfold ext2Link at called
  simp only [added, Option.map_some, Option.some.injEq] at called
  split_ifs at called with failed
  · exact absurd (Prod.mk.inj called).1 failed
  obtain ⟨-, rfl⟩ := Prod.mk.inj called
  rcases result with ⟨binds, -⟩ | ⟨-, refused⟩
  · exact c.toShape.bind_applies operand absent (fun _ _ => rfl) (fun d name' _ => names_setDir binds d name') (child_file file)
  · exact absurd (not_not.mp failed) refused

/-- The new directory has no names but its dots. -/
theorem mkdir_applies (c : Consistent v s) (reads : (io 1).Reads) (operand : Operand s dir name)
    (absent : s.names dir name = none) {inode : Dir} (fresh : Fresh v s (.ok inode))
    (called : ext2Mkdir v io dir name (.ok inode) s = some (0, s')) :
    (Edit.bind dir name inode.iNo).Applies s.paths s'.paths := by
  obtain ⟨free, nonzero, inumber, empty⟩ := fresh inode rfl
  have used := State.Linked.inUse c.toShape operand.linked
  have apart : ∀ {i}, s.inUse i = true → i ≠ inode.iNo := fun used same => by
    rw [same, free] at used
    cases used
  obtain ⟨live, above⟩ := c.used dir used
  obtain ⟨t, born⟩ : ∃ t, ((s.incLinkCount dir).newInode inode true).incLinkCount inode.iNo = t := ⟨_, rfl⟩
  have own : t.dirs inode.iNo = inode := by rw [← born]; simp
  obtain ⟨err, dirN, made, good⟩ := @makeEmpty_result v (io 0) inode dir empty nonzero inumber live above
  have made' : makeEmpty v (io 0) inode.iNo dir t = (err, t.setDir inode.iNo dirN) := makeEmpty_setDir (by rw [own, made])
  unfold ext2Mkdir at called
  simp only [born, made'] at called
  split_ifs at called with failed
  · exact absurd (Prod.mk.inj (Option.some.inj called)).1 failed
  obtain ⟨t', grown⟩ : ∃ t', t.setDir inode.iNo dirN = t' := ⟨_, rfl⟩
  have others : ∀ d, s.inUse d = true → t'.dirs d = s.dirs d := by
    intro d used
    rw [← grown, ← born]
    simp [apart used]
  have still : bindings (t'.dirs dir) name = none := by rw [others dir used]; exact absent
  have inv : Directory v (t'.dirs dir) := by rw [others dir used]; exact (c.dirs dir operand.linked).inv
  obtain ⟨err', dir', added, result⟩ := addLink_binds inv reads operand.long operand.short still nonzero inumber
  simp only [grown, added, Option.map_some, Option.some.injEq] at called
  split_ifs at called with failed'
  · exact absurd (Prod.mk.inj called).1 failed'
  obtain ⟨-, rfl⟩ := Prod.mk.inj called
  rcases result with ⟨binds, -⟩ | ⟨-, refused⟩
  · have isDir : ∀ i, s.inUse i = true → (t'.setDir dir dir').isDir i = s.isDir i := by
      intro i used
      rw [← grown, ← born]
      simp [apart used]
    have new : ∀ name', dots.Inner name' → (t'.setDir dir dir').names inode.iNo name' = none := by
      intro name' inner
      rw [names_setDir binds, if_neg fun here => apart used here.1.symm]
      have written : t'.dirs inode.iNo = dirN := by rw [← grown]; simp
      show bindings (t'.dirs inode.iNo) name' = none
      rw [written]
      exact (good (not_not.mp failed)).names.2.2 name' inner
    refine c.toShape.bind_applies operand absent isDir (fun d name' linked => ?_) (child_empty new)
    have same : t'.names d = s.names d := congrArg bindings (others d (State.Linked.inUse c.toShape linked))
    rw [names_setDir binds, same]
  · exact absurd (not_not.mp failed') refused

/-! ### Names that go -/

theorem unlink_applies (c : Consistent v s) (reads : (io 0).Reads) (operand : Operand s dir name)
    (bound : s.names dir name = some inode) (file : s.isDir inode = false) (maps : (io 1).Maps (s.dirs dir))
    (called : ext2Unlink v io dir name inode s = some (0, s')) : (Edit.unbind dir name).Applies s.paths s'.paths := by
  have inv := (c.dirs dir operand.linked).inv
  obtain ⟨de, located, member⟩ := findEntry_bound inv reads operand.short bound
  obtain ⟨dir', deleted, changed⟩ := deleteEntry_binds inv maps member
  unfold ext2Unlink at called
  simp only [located, deleted, Option.map_some, Option.some.injEq] at called
  split_ifs at called with failed
  · exact absurd (Prod.mk.inj called).1 failed
  obtain ⟨-, rfl⟩ := Prod.mk.inj called
  exact c.toShape.unbind_applies operand bound (fun _ _ => rfl) (fun d name' _ _ => names_setDir changed d name') (child_file file)

theorem rmdir_applies (c : Consistent v s) (reads : ∀ k, (io k).Reads) (operand : Operand s dir name)
    (bound : s.names dir name = some inode) (isDir : s.isDir inode = true) (maps : (io 2).Maps (s.dirs dir))
    (called : ext2Rmdir v io dir name inode s = some (0, s')) : (Edit.unbind dir name).Applies s.paths s'.paths := by
  have inv := (c.dirs dir operand.linked).inv
  have linked : s.Linked inode := Linked.child operand.linked operand.inner bound isDir
  unfold ext2Rmdir at called
  split_ifs at called with full
  · exact absurd (Prod.mk.inj (Option.some.inj called)).1 (by decide)
  rw [Bool.not_eq_true, Bool.not_eq_false'] at full
  have empty := fun name (inner : dots.Inner name) => emptyDir_names (c.dirs inode linked) (reads 0) full inner
  obtain ⟨de, located, member⟩ := findEntry_bound inv (reads 1) operand.short bound
  obtain ⟨dir', deleted, changed⟩ := deleteEntry_binds inv maps member
  simp only [ext2Unlink, located, deleted, Option.map_some, Option.some.injEq] at called
  split_ifs at called with failed refused
  · exact absurd (Prod.mk.inj called).1 failed
  · exact absurd rfl refused
  obtain ⟨-, rfl⟩ := Prod.mk.inj called
  refine c.toShape.unbind_applies operand bound (fun _ _ => rfl) (fun d name' _ other => ?_) (child_empty empty)
  refine Eq.trans ?_ (names_setDir changed d name')
  unfold State.names
  simp [other]

/-! ### Names that move -/

variable {oldDir oldInode newDir flags : Nat} {oldName newName : List UInt8} {newInode : Option Nat}

theorem Consistent.movable (c : Consistent v s) (reads : ∀ k, (io k).Reads)
    (allowed : (Call.rename flags oldDir oldName oldInode newDir newName newInode).Allowed v s) :
    Movable v io s oldDir oldName oldInode newDir newName newInode := by
  obtain ⟨old, new, bound, passed, -, -⟩ := allowed
  have used := fun {d} (here : s.Linked d) => c.used d (State.Linked.inUse c.toShape here)
  have child := fun (isDir : s.isDir oldInode = true) => Linked.child old.linked old.inner bound isDir
  refine ⟨reads, ?_, c.tree.isDir old.linked, c.tree.isDir new.linked, bound, passed, old.short, new.short, new.long, ?_⟩
  · intro d here isDir
    have linked : s.Linked d := by
      rcases here with rfl | rfl | rfl
      exacts [old.linked, new.linked, child isDir]
    exact ⟨(c.dirs d linked).inv, used linked⟩
  · intro isDir
    exact (c.dirs oldInode (child isDir)).dotted (c.tree.up oldDir oldName oldInode old.linked old.inner bound isDir)

/-- Nothing is named behind a file, and no directory moves below itself. -/
theorem paths_apart {q : List (List UInt8)} (found : s.paths p = some i) (found' : s.paths q = some d) (isDir : s.isDir d = true)
    (notBelow : s.isDir i = true → ¬ Below dots (graph s) i d) : ¬ p <+: q := by
  rintro ⟨rest, rfl⟩
  have onward : Paths.follow s.child i rest = some d := by
    have split : s.paths (p ++ rest) = (s.paths p).bind fun y => Paths.follow s.child y rest := Paths.follow_append
    rw [split, found] at found'
    exact found'
  cases kind : s.isDir i with
  | true => exact notBelow kind ((child_traverses s).below onward isDir)
  | false =>
    cases rest with
    | nil =>
      obtain rfl := Option.some.inj onward
      rw [isDir] at kind
      cases kind
    | cons name rest =>
      have first : (s.child i name).bind (fun y => Paths.follow s.child y rest) = some d := onward
      rw [child_file kind] at first
      cases first

theorem rename_applies (c : Consistent v s) (reads : ∀ k, (io k).Reads)
    (allowed : (Call.rename flags oldDir oldName oldInode newDir newName newInode).Allowed v s)
    (maps : (Call.rename flags oldDir oldName oldInode newDir newName newInode).Maps io s)
    (called : ext2Rename v io flags oldDir oldName oldInode newDir newName newInode s = some (0, s')) :
    (Edit.move oldDir oldName newDir newName).Applies s.paths s'.paths := by
  have moves := c.movable reads allowed
  obtain ⟨old, new, bound, passed, kinds, notBelow⟩ := allowed
  have differ : (oldDir, oldName) ≠ (newDir, newName) := by
    intro same
    obtain ⟨rfl, rfl⟩ := Prod.mk.inj same
    exact (kinds oldInode (passed.symm.trans bound)).1 rfl
  have apart : s.isDir oldInode = true → oldInode ≠ oldDir ∧ oldInode ≠ newDir := by
    intro isDir
    refine ⟨fun same => ?_, fun same => notBelow isDir (same ▸ Relation.ReflTransGen.refl)⟩
    exact c.tree.selfless old.linked old.inner (same ▸ bound)
  obtain ⟨err, t, once, result⟩ := @rename_result _ _ _ _ _ _ _ _ _ flags moves maps.1 maps.2 differ apart
  obtain ⟨rfl, rfl⟩ := Prod.mk.inj (Option.some.inj (once.symm.trans called))
  obtain ⟨p, found⟩ := c.toShape.path old.linked
  obtain ⟨p', found'⟩ := c.toShape.path new.linked
  have source := c.toShape.isDir old.linked
  have target := c.toShape.isDir new.linked
  have named : s.paths (p ++ [oldName]) = some oldInode := (paths_named found source old.inner).trans bound
  have apartPaths := paths_apart named found' target notBelow
  have differPaths : p ++ [oldName] ≠ p' ++ [newName] := by
    intro same
    obtain ⟨rfl, last⟩ := List.append_inj' same rfl
    exact differ (Prod.ext (Option.some.inj (found.symm.trans found')) (List.singleton_inj.mp last))
  have child : s.child oldDir oldName = some oldInode := (child_named source old.inner).trans bound
  have moved : t.paths = Paths.moved s.paths (p ++ [oldName]) (p' ++ [newName]) := by
    refine Paths.follow_move found (fun q same => c.toShape.path_unique source found same) found'
      (fun q same => c.toShape.path_unique target found' same) differPaths apartPaths (by rw [child]; rfl) ?_ ?_
    · intro i other
      rw [child_named target new.inner] at other
      have here : newInode = some i := passed.symm.trans other
      cases isDir : s.isDir oldInode with
      | false => exact child_file ((kinds i here).2.trans isDir)
      | true =>
        have linked : s.Linked i := Linked.child new.linked new.inner other ((kinds i here).2.trans isDir)
        exact child_empty fun name inner => emptyDir_names (c.dirs i linked) (reads 2) (result.emptied rfl isDir i here) inner
    · intro q x name reached
      rw [child]
      by_cases known : s.isDir x = true ∧ dots.Inner name
      · have known' : t.isDir x = true ∧ dots.Inner name := ⟨by rw [result.isDir]; exact known.1, known.2⟩
        rw [child_named known'.1 known.2, child_named known.1 known.2,
          result.names rfl x name fun _ here => known.2.2 here.2]
      · have known' : ¬ (t.isDir x = true ∧ dots.Inner name) := by rwa [result.isDir]
        have before : s.child x name = none := if_neg known
        have after : t.child x name = none := if_neg known'
        rw [before, after, if_neg, if_neg]
        · rintro ⟨rfl, rfl⟩
          exact known ⟨target, new.inner⟩
        · rintro ⟨rfl, rfl⟩
          exact known ⟨source, old.inner⟩
  rw [moved]
  exact .move found found' (by rw [named]; rfl) apartPaths

end OsLab.Ext2.Namei
