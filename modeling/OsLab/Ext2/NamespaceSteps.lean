import OsLab.Ext2.RenameCounts

/-!
# Steps of the namespace

Every operation that the VFS can make, with allocations that may fail, keeps the tree and the
counts; and an operation that fails leaves the names and the counts as they were, as long as
the commit of its directory does not fail.
-/

namespace OsLab.Ext2.Namei
open Bytes Records Hierarchies

inductive Call where
  | create (dir : Nat) (name : List UInt8) (new : Except Int Dir)
  | mknod (dir : Nat) (name : List UInt8) (new : Except Int Dir)
  | symlink (dir : Nat) (name : List UInt8) (l : Nat) (new : Except Int Dir) (pageSymlink : Int)
  | link (inode dir : Nat) (name : List UInt8)
  | unlink (dir : Nat) (name : List UInt8) (inode : Nat)
  | mkdir (dir : Nat) (name : List UInt8) (new : Except Int Dir)
  | rmdir (dir : Nat) (name : List UInt8) (inode : Nat)
  | rename (flags oldDir : Nat) (oldName : List UInt8) (oldInode newDir : Nat) (newName : List UInt8) (newInode : Option Nat)

def Call.run (v : DirVolume) (io : Nat → PageCache) : Call → State → Option (Int × State)
  | .create dir name new => ext2Create v io dir name new
  | .mknod dir name new => ext2Mknod v io dir name new
  | .symlink dir name l new pageSymlink => ext2Symlink v io dir name l new pageSymlink
  | .link inode dir name => ext2Link v io inode dir name
  | .unlink dir name inode => ext2Unlink v io dir name inode
  | .mkdir dir name new => ext2Mkdir v io dir name new
  | .rmdir dir name inode => ext2Rmdir v io dir name inode
  | .rename flags oldDir oldName oldInode newDir newName newInode =>
    ext2Rename v io flags oldDir oldName oldInode newDir newName newInode

/-- A name other than the dots, in a directory that the root leads to. -/
structure Operand (s : State) (dir : Nat) (name : List UInt8) : Prop where
  linked : s.Linked dir
  inner : dots.Inner name
  long : name ≠ []
  short : name.length ≤ 255

/-- `ext2_new_inode` gives an inode that is not in use, without data. -/
def Fresh (v : DirVolume) (s : State) (new : Except Int Dir) : Prop :=
  ∀ inode, new = .ok inode → s.inUse inode.iNo = false ∧ inode.iNo ≠ 0 ∧ inode.iNo ≤ v.inodesCount ∧ inode.iSize = 0

/-- What the VFS guarantees. -/
def Call.Allowed (v : DirVolume) (s : State) : Call → Prop
  | .create dir name new | .mknod dir name new | .symlink dir name _ new _ | .mkdir dir name new =>
    Operand s dir name ∧ s.names dir name = none ∧ Fresh v s new
  | .link inode dir name => Operand s dir name ∧ s.names dir name = none ∧ s.inUse inode = true ∧ s.isDir inode = false
  | .unlink dir name inode => Operand s dir name ∧ s.names dir name = some inode ∧ s.isDir inode = false
  | .rmdir dir name inode => Operand s dir name ∧ s.names dir name = some inode ∧ s.isDir inode = true
  | .rename _ oldDir oldName oldInode newDir newName newInode =>
    Operand s oldDir oldName ∧ Operand s newDir newName ∧ s.names oldDir oldName = some oldInode ∧
      s.names newDir newName = newInode ∧ (∀ new, newInode = some new → new ≠ oldInode ∧ s.isDir new = s.isDir oldInode) ∧
      (s.isDir oldInode = true → ¬ Below dots (graph s) oldInode newDir)

/-- The directory whose entry comes or goes is committed, where a call returns the error of that. -/
def Call.Commits (io : Nat → PageCache) (s : State) : Call → Prop
  | .create dir _ _ | .mknod dir _ _ | .symlink dir _ _ _ _ | .link _ dir _ => commitErr (io 0) (s.dirs dir) = 0
  | .mkdir dir _ _ | .unlink dir _ _ => commitErr (io 1) (s.dirs dir) = 0
  | .rmdir dir _ _ => commitErr (io 2) (s.dirs dir) = 0
  | .rename _ _ _ _ newDir _ newInode => newInode = none → commitErr (io 4) (s.dirs newDir) = 0

/-- The blocks are there of the entries that change in their places. -/
def Call.Maps (io : Nat → PageCache) (s : State) : Call → Prop
  | .unlink dir _ _ => (io 1).Maps (s.dirs dir)
  | .rmdir dir _ _ => (io 2).Maps (s.dirs dir)
  | .rename _ _ _ _ newDir _ newInode =>
    (∀ new, newInode = some new → (io 4).Maps (s.dirs newDir)) ∧ ∀ k, k ≠ 4 → ∀ dir, (io k).Maps dir
  | _ => True

/-- An operation that failed left everything as it was. -/
structure Undone (s s' : State) : Prop where
  names : ∀ d, s.inUse d = true → s'.names d = s.names d
  nlink : ∀ i, s.inUse i = true → s'.nlink i = s.nlink i
  discarded : ∀ d name i, s'.Linked d → s'.names d name = some i → s'.inUse i = true

/-- What every call does to a consistent state. -/
def Keeps (v : DirVolume) (s : State) (result : Option (Int × State)) : Prop :=
  ∃ err s', result = some (err, s') ∧ Consistent v s' ∧ (err ≠ 0 → Undone s s')

variable {v : DirVolume} {io : Nat → PageCache} {s s' : State} {dir inode : Nat} {name : List UInt8} {new : Except Int Dir}

theorem Shape.consistent (shape : Shape v s)
    (counts : ∀ i, s.inUse i = true → s.nlink i = count dots (graph s) i) : Consistent v s :=
  ⟨shape, fun i used => (counts i used).trans (entryCount_eq shape i).symm⟩

theorem Consistent.count (c : Consistent v s) {i : Nat} (used : s.inUse i = true) : s.nlink i = count dots (graph s) i :=
  (c.counts i used).trans (entryCount_eq c.toShape i)

theorem Consistent.unused (c : Consistent v s) {i : Nat} (free : s.inUse i = false) : Hierarchies.count dots (graph s) i = 0 :=
  count_unnamed fun _ _ linked => unnamed c.toShape free linked

theorem Consistent.refused (c : Consistent v s) {err : Int} : Keeps v s (some (err, s)) :=
  ⟨err, s, rfl, c, fun _ => ⟨fun _ _ => rfl, fun _ _ => rfl, c.named⟩⟩

theorem Shape.keeps (shape : Shape v s') (counts : ∀ i, s'.inUse i = true → s'.nlink i = count dots (graph s') i) :
    Keeps v s (some (0, s')) :=
  ⟨0, s', rfl, shape.consistent counts, fun failed => absurd rfl failed⟩

theorem Consistent.same (c : Consistent v s) {t : State} (shape : Shape v t) (equal : graph t = graph s) (inUse : t.inUse = s.inUse)
    (nlink : t.nlink = s.nlink) {err : Int} : Keeps v s (some (err, t)) := by
  refine ⟨err, t, rfl, shape.consistent fun i used => ?_, fun _ => ⟨fun d _ => ?_, fun i _ => by rw [nlink], shape.named⟩⟩
  · rw [nlink, equal]
    exact c.count (inUse ▸ used)
  · exact congrFun (congrArg Graph.edge equal) d

theorem Consistent.discarded (c : Consistent v s) {n : Nat} (free : s.inUse n = false) {t : State} (shape : Shape v t)
    (agree : Agree dots (graph s) (graph t)) (names : ∀ d, s.inUse d = true → t.names d = s.names d)
    (inUse : ∀ i, i ≠ n → t.inUse i = s.inUse i) (nlink : ∀ i, i ≠ n → t.nlink i = s.nlink i) {err : Int} :
    Keeps v s (some (err, t.discardNewInode n)) := by
  have none : ∀ d name, t.Linked d → t.names d name ≠ some n := by
    intro d name linked
    have linked := (agree.linked d).mp linked
    have edge : t.names d = s.names d := agree.edge d linked
    rw [edge]
    exact unnamed c.toShape free linked
  have discarded := shape.discard none
  have other : ∀ {i}, s.inUse i = true → i ≠ n := fun used same => by
    rw [same, free] at used
    cases used
  refine ⟨err, _, rfl, discarded.consistent fun i used => ?_, fun _ => ⟨names, fun i used => nlink i (other used), discarded.named⟩⟩
  have here : i ≠ n := by
    rintro rfl
    rw [State.discardNewInode_inUse, Function.update_self] at used
    cases used
  rw [State.discardNewInode_inUse, Function.update_of_ne here, inUse i here] at used
  exact (nlink i here).trans ((c.count used).trans (agree.count i).symm)

theorem newInode_names {inode : Dir} (free : s.inUse inode.iNo = false) (isDir : Bool) {d : Nat} (used : s.inUse d = true) :
    (s.newInode inode isDir).names d = s.names d := by
  have other : d ≠ inode.iNo := fun same => by
    rw [same, free] at used
    cases used
  unfold State.names
  rw [State.newInode_dirs, Function.update_of_ne other]

/-! ### `create`, `mknod` and `symlink` -/

theorem keeps_addNondir (c : Consistent v s) {cache : PageCache} (reads : cache.Reads) (operand : Operand s dir name)
    (absent : s.names dir name = none) {inode : Dir} (free : s.inUse inode.iNo = false) (nonzero : inode.iNo ≠ 0)
    (inumber : inode.iNo ≤ v.inodesCount) (commits : commitErr cache (s.dirs dir) = 0) :
    Keeps v s (ext2AddNondir v cache dir name inode.iNo (s.newInode inode false)) := by
  have used := State.Linked.inUse c.toShape operand.linked
  have shape := c.toShape.newInode free nonzero inumber false
  have agree := agree_newInode c.toShape free false
  have linked : (s.newInode inode false).Linked dir := (agree.linked dir).mpr operand.linked
  have other : dir ≠ inode.iNo := fun same => by
    rw [same, free] at used
    cases used
  have same : (s.newInode inode false).dirs dir = s.dirs dir := Function.update_of_ne other _ _
  have still : (s.newInode inode false).names dir name = none := by rw [newInode_names free false used, absent]
  obtain ⟨err, dir', called, added⟩ := addLink_binds (shape.dirs dir linked).inv reads operand.long
    operand.short still nonzero inumber
  unfold ext2AddNondir
  rw [called, Option.map_some]
  rcases added with ⟨changed, rfl⟩ | ⟨untouched, failed⟩
  · have zero : commitErr cache ((s.newInode inode false).dirs dir) = 0 := by rw [same, commits]
    simp only [zero, ne_eq, not_true_eq_false, if_false]
    obtain ⟨linkedShape, -, counts⟩ := shape.leaf linked operand.inner changed
      (fun i bound => by rw [still] at bound; cases bound)
      (fun i bound => by
        obtain rfl := Option.some.inj bound
        exact ⟨Function.update_self _ _ _, Function.update_self _ _ _⟩)
    apply linkedShape.keeps
    intro i used
    have counted := counts i
    rw [agree.count, still] at counted
    simp only [Option.some.injEq, reduceCtorEq, if_false, Nat.add_zero] at counted
    rw [counted, State.setDir_nlink, State.newInode_nlink]
    by_cases here : i = inode.iNo
    · rw [here, Function.update_self, if_pos rfl, c.unused free]
    · rw [State.setDir_inUse, State.newInode_inUse, Function.update_of_ne here] at used
      rw [Function.update_of_ne here, if_neg fun same => here same.symm, c.count used, Nat.add_zero]
  · simp only [failed, ne_eq, not_false_eq_true, if_true]
    obtain ⟨kept, equal⟩ := shape.untouched linked untouched
    have names := untouched.names
    apply c.discarded free (kept.decLinkCount inode.iNo)
    · show Agree dots (graph s) (graph ((s.newInode inode false).setDir dir dir'))
      rw [equal]
      exact agree
    · intro d used
      show ((s.newInode inode false).setDir dir dir').names d = s.names d
      rw [names, newInode_names free false used]
    · intro i here
      exact Function.update_of_ne here _ _
    · intro i here
      simp [here]

theorem keeps_createNondir (c : Consistent v s) (reads : (io 0).Reads) (operand : Operand s dir name)
    (absent : s.names dir name = none) (fresh : Fresh v s new) (commits : commitErr (io 0) (s.dirs dir) = 0) :
    Keeps v s (createNondir v io dir name new s) := by
  cases new with
  | error err => exact c.refused
  | ok inode =>
    obtain ⟨free, nonzero, inumber, -⟩ := fresh inode rfl
    exact keeps_addNondir c reads operand absent free nonzero inumber commits

theorem keeps_symlink (c : Consistent v s) (reads : (io 0).Reads) (operand : Operand s dir name)
    (absent : s.names dir name = none) (fresh : Fresh v s new) (commits : commitErr (io 0) (s.dirs dir) = 0) (l : Nat)
    (pageSymlink : Int) : Keeps v s (ext2Symlink v io dir name l new pageSymlink s) := by
  unfold ext2Symlink
  by_cases long : ext2ChunkSize v < l
  · rw [if_pos long]
    exact c.refused
  rw [if_neg long]
  cases new with
  | error err => exact c.refused
  | ok inode =>
    obtain ⟨free, nonzero, inumber, -⟩ := fresh inode rfl
    simp only
    by_cases slow : iDataSize < l ∧ pageSymlink ≠ 0
    · rw [if_pos slow]
      apply c.discarded free ((c.toShape.newInode free nonzero inumber false).decLinkCount inode.iNo)
      · exact agree_newInode c.toShape free false
      · intro d used
        exact newInode_names free false used
      · intro i here
        exact Function.update_of_ne here _ _
      · intro i here
        simp [here]
    · rw [if_neg slow]
      exact keeps_addNondir c reads operand absent free nonzero inumber commits

/-! ### `link` and `unlink` -/

theorem keeps_link (c : Consistent v s) (reads : (io 0).Reads) (operand : Operand s dir name) (absent : s.names dir name = none)
    (used : s.inUse inode = true) (file : s.isDir inode = false) (commits : commitErr (io 0) (s.dirs dir) = 0) :
    Keeps v s (ext2Link v io inode dir name s) := by
  have shape := c.toShape.incLinkCount inode
  have still : (s.incLinkCount inode).names dir name = none := absent
  obtain ⟨nonzero, inumber⟩ := c.used inode used
  obtain ⟨err, dir', called, added⟩ := @addLink_binds v (io 0) (s.incLinkCount inode) name dir inode
    (c.dirs dir operand.linked).inv reads operand.long operand.short absent nonzero inumber
  unfold ext2Link
  rw [called, Option.map_some]
  rcases added with ⟨changed, rfl⟩ | ⟨untouched, failed⟩
  · have zero : commitErr (io 0) ((s.incLinkCount inode).dirs dir) = 0 := commits
    simp only [zero, ne_eq, not_true_eq_false, if_false]
    obtain ⟨linked, -, counts⟩ := Shape.leaf shape operand.linked operand.inner changed
      (fun i bound => by cases still.symm.trans bound)
      (fun i bound => by
        obtain rfl := Option.some.inj bound
        exact ⟨file, used⟩)
    apply linked.keeps
    intro i used
    have counted := counts i
    have equal : graph (s.incLinkCount inode) = graph s := rfl
    have before := c.count used
    rw [still, equal] at counted
    simp only [Option.some.injEq, reduceCtorEq, if_false, Nat.add_zero] at counted
    rw [counted, State.setDir_nlink, State.incLinkCount_nlink, ← before]
    by_cases here : i = inode
    · rw [here, Function.update_self, if_pos rfl]
    · rw [Function.update_of_ne here, if_neg fun same => here same.symm, Nat.add_zero]
  · simp only [failed, ne_eq, not_false_eq_true, if_true]
    obtain ⟨kept, equal⟩ := shape.untouched operand.linked untouched
    apply c.same (kept.decLinkCount inode) equal rfl
    funext i
    by_cases here : i = inode
    · subst here
      simp
    · simp [here]

theorem keeps_unlink (c : Consistent v s) (reads : (io 0).Reads) (operand : Operand s dir name)
    (bound : s.names dir name = some inode) (file : s.isDir inode = false) (maps : (io 1).Maps (s.dirs dir))
    (commits : commitErr (io 1) (s.dirs dir) = 0) :
    Keeps v s (ext2Unlink v io dir name inode s) := by
  have inv := (c.dirs dir operand.linked).inv
  obtain ⟨de, located, member⟩ := findEntry_bound inv reads operand.short bound
  obtain ⟨dir', called, changed⟩ := deleteEntry_binds inv maps member
  unfold ext2Unlink
  simp only [located, called, commits, Option.map_some, ne_eq, not_true_eq_false, if_false]
  obtain ⟨shape, -, counts⟩ := c.toShape.leaf operand.linked operand.inner changed
    (fun i other => by
      obtain rfl := Option.some.inj (bound.symm.trans other)
      exact file)
    (fun i none => by cases none)
  apply (shape.decLinkCount inode).keeps
  intro i used
  have counted := counts i
  have before := c.count used
  rw [bound] at counted
  simp only [Option.some.injEq, reduceCtorEq, if_false, Nat.add_zero] at counted
  show Function.update s.nlink inode (s.nlink inode - 1) i = count dots (graph (s.setDir dir dir')) i
  by_cases here : i = inode
  · subst here
    rw [Function.update_self, before]
    rw [if_pos rfl] at counted
    omega
  · rw [if_neg fun same => here same.symm] at counted
    rw [Function.update_of_ne here, before]
    omega

/-! ### `mkdir` and `rmdir` -/

/-- The counts go down again on the way out of a `mkdir` that failed. -/
theorem keeps_outFail (c : Consistent v s) {n : Nat} (free : s.inUse n = false) {t : State} (shape : Shape v t)
    (agree : Agree dots (graph s) (graph t)) (names : ∀ d, s.inUse d = true → t.names d = s.names d)
    (inUse : ∀ i, i ≠ n → t.inUse i = s.inUse i)
    (nlink : ∀ i, i ≠ n → t.nlink i = Function.update s.nlink dir (s.nlink dir + 1) i) {err : Int} :
    Keeps v s (some (err, (((t.decLinkCount n).decLinkCount n).discardNewInode n).decLinkCount dir)) := by
  refine c.discarded free (((shape.decLinkCount n).decLinkCount n).decLinkCount dir) agree names inUse fun i other => ?_
  by_cases here : i = dir
  · subst here
    simp [other, nlink]
  · simp [other, here, nlink]

theorem keeps_mkdir (c : Consistent v s) (reads : (io 1).Reads) (operand : Operand s dir name)
    (absent : s.names dir name = none) (fresh : Fresh v s new) (commits : commitErr (io 1) (s.dirs dir) = 0) :
    Keeps v s (ext2Mkdir v io dir name new s) := by
  unfold ext2Mkdir
  cases new with
  | error err =>
    apply c.same ((c.toShape.incLinkCount dir).decLinkCount dir) rfl rfl
    funext i
    by_cases here : i = dir
    · subst here
      simp
    · simp [here]
  | ok inode =>
    obtain ⟨free, nonzero, inumber, empty⟩ := fresh inode rfl
    have used := State.Linked.inUse c.toShape operand.linked
    have apart : ∀ {i}, s.inUse i = true → i ≠ inode.iNo := fun used same => by
      rw [same, free] at used
      cases used
    have notLinked : ¬ s.Linked inode.iNo := fun linked => apart (State.Linked.inUse c.toShape linked) rfl
    obtain ⟨live, above⟩ := c.used dir used
    obtain ⟨t, born⟩ : ∃ t, ((s.incLinkCount dir).newInode inode true).incLinkCount inode.iNo = t := ⟨_, rfl⟩
    have shape : Shape v t := born ▸ ((c.toShape.incLinkCount dir).newInode free nonzero inumber true).incLinkCount inode.iNo
    have agree : Agree dots (graph s) (graph t) := born ▸ agree_newInode (c.toShape.incLinkCount dir) free true
    have own : t.dirs inode.iNo = inode := by rw [← born]; simp
    obtain ⟨err, dirN, made, good⟩ := @makeEmpty_result v (io 0) inode dir empty nonzero inumber live above
    have unlinked : ¬ t.Linked inode.iNo := fun linked => notLinked ((agree.linked _).mp linked)
    have shape' := shape.unlinked unlinked dirN
    have agree' : Agree dots (graph s) (graph (t.setDir inode.iNo dirN)) := agree.trans (agree_unlinked unlinked dirN)
    have names' : ∀ d, s.inUse d = true → (t.setDir inode.iNo dirN).names d = s.names d := by
      intro d used
      rw [← born]
      simp [State.names, apart used]
    have made' : ext2MakeEmpty v (io 0) (t.dirs inode.iNo) dir = (err, dirN) := by rw [own, made]
    simp only [born, makeEmpty_setDir made']
    have inUse' : ∀ i, i ≠ inode.iNo → (t.setDir inode.iNo dirN).inUse i = s.inUse i := by
      intro i other
      rw [← born]
      simp [other]
    have nlink' : ∀ i, i ≠ inode.iNo → (t.setDir inode.iNo dirN).nlink i = Function.update s.nlink dir (s.nlink dir + 1) i := by
      intro i other
      rw [← born]
      simp [other]
    by_cases failed : err = 0
    · subst failed
      obtain ⟨self, up, none⟩ := (good rfl).names
      obtain ⟨t', grown⟩ : ∃ t', t.setDir inode.iNo dirN = t' := ⟨_, rfl⟩
      rw [grown] at shape' agree' names' inUse' nlink' ⊢
      have linked : t'.Linked dir := (agree'.linked dir).mpr operand.linked
      have same : t'.dirs dir = s.dirs dir := by
        rw [← grown, ← born]
        simp [apart used]
      have still : t'.names dir name = Option.none := by rw [names' dir used, absent]
      obtain ⟨err, dir', called, added⟩ := addLink_binds (shape'.dirs dir linked).inv reads operand.long
        operand.short still nonzero inumber
      simp only [called, Option.map_some, ne_eq, not_true_eq_false, if_false]
      rcases added with ⟨changed, rfl⟩ | ⟨untouched, failed⟩
      · have zero : commitErr (io 1) (t'.dirs dir) = 0 := by rw [same, commits]
        simp only [zero, not_true_eq_false, if_false]
        have here : t'.dirs inode.iNo = dirN := by rw [← grown]; simp
        have isDir : t'.isDir inode.iNo = true := by rw [← grown, ← born]; simp
        have inUse : t'.inUse inode.iNo = true := by rw [← grown, ← born]; simp
        have two : t'.nlink inode.iNo = 2 := by rw [← grown, ← born]; simp
        have names : t'.names inode.iNo = bindings dirN := by unfold State.names; rw [here]
        have new : ∀ p name, t'.Linked p → t'.names p name ≠ some inode.iNo := by
          intro p name linked
          have linked := (agree'.linked p).mp linked
          have edge : t'.names p = s.names p := agree'.edge p linked
          rw [edge]
          exact unnamed c.toShape free linked
        have ok : DirOk v t' inode.iNo := by
          refine ⟨?_, ?_, 12, dir, by decide, by decide, ?_⟩ <;> rw [here]
          · exact (good rfl).inv
          · exact (good rfl).self
          · rw [(good rfl).written]
            simp
        obtain ⟨linkedShape, counts⟩ := shape'.addDir linked operand.inner changed still new ok isDir inUse (by rw [names, self])
          (by rw [names, up]) fun name inner => by rw [names, none name inner]
        apply linkedShape.keeps
        intro i used
        rw [counts, agree'.count, State.setDir_nlink]
        by_cases own : i = inode.iNo
        · have apart' : dir ≠ inode.iNo := apart ‹s.inUse dir = true›
          rw [own, two, c.unused free]
          simp [apart']
        · rw [State.setDir_inUse, inUse' i own] at used
          rw [nlink' i own, ← c.count used]
          by_cases parent : i = dir
          · subst parent
            simp [Ne.symm own]
          · simp [parent, Ne.symm own, Ne.symm parent]
      · simp only [failed, not_false_eq_true, if_true]
        obtain ⟨kept, equal⟩ := shape'.untouched linked untouched
        apply keeps_outFail c free kept (equal ▸ agree') (fun d used => ?_) inUse' nlink'
        rw [untouched.names, names' d used]
    · simp only [failed, ne_eq, not_false_eq_true, if_true]
      exact keeps_outFail c free shape' agree' names' inUse' nlink'

theorem keeps_rmdir (c : Consistent v s) (reads : ∀ k, (io k).Reads) (operand : Operand s dir name)
    (bound : s.names dir name = some inode) (isDir : s.isDir inode = true) (maps : (io 2).Maps (s.dirs dir))
    (commits : commitErr (io 2) (s.dirs dir) = 0) :
    Keeps v s (ext2Rmdir v io dir name inode s) := by
  have inv := (c.dirs dir operand.linked).inv
  have linked : s.Linked inode := Linked.child operand.linked operand.inner bound isDir
  unfold ext2Rmdir
  cases test : ext2EmptyDir v (io 0) (s.dirs inode) with
  | false => exact c.refused
  | true =>
    have empty := fun name (inner : dots.Inner name) => emptyDir_names (c.dirs inode linked) (reads 0) test inner
    obtain ⟨de, located, member⟩ := findEntry_bound inv (reads 1) operand.short bound
    obtain ⟨dir', called, changed⟩ := deleteEntry_binds inv maps member
    simp only [ext2Unlink, located, called, commits, Option.map_some, ne_eq, not_true_eq_false, if_false, Bool.not_true,
      Bool.false_eq_true]
    obtain ⟨shape, gone, counts⟩ := c.toShape.removeDir operand.linked operand.inner changed bound isDir empty
    have unlinked : ¬ ((s.setDir dir dir').decLinkCount inode).Linked inode := gone
    obtain ⟨cleared, same⟩ : ∃ cleared, { ((s.setDir dir dir').decLinkCount inode).dirs inode with iSize := 0 } = cleared := ⟨_, rfl⟩
    rw [same]
    apply ((((shape.decLinkCount inode).unlinked unlinked cleared).decLinkCount inode).decLinkCount dir).keeps
    intro i used
    have counted := counts i
    have before := c.count used
    have agree := (agree_unlinked unlinked cleared).count i
    show _ = count dots (graph (((s.setDir dir dir').decLinkCount inode).setDir inode cleared)) i
    have equal : graph ((s.setDir dir dir').decLinkCount inode) = graph (s.setDir dir dir') := rfl
    rw [agree, equal]
    have apart : dir ≠ inode := fun here => by
      have none := empty name operand.inner
      rw [← here, bound] at none
      cases none
    by_cases own : i = inode
    · subst own
      simp only [if_true, apart, if_false] at counted
      simp [Ne.symm apart]
      omega
    · by_cases parent : i = dir
      · subst parent
        simp only [Ne.symm own, if_false, if_true] at counted
        simp [own]
        omega
      · simp only [Ne.symm own, Ne.symm parent, if_false] at counted
        simp [own, parent]
        omega

/-! ### `rename` -/

variable {oldDir oldInode newDir : Nat} {oldName newName : List UInt8} {newInode : Option Nat}

theorem countTarget_file {i n : Nat} (counted : n + (if newInode = some i then 1 else 0) = s.nlink i) :
    (countTarget false newDir newInode s).nlink i = n := by
  cases newInode with
  | none => simpa [countTarget] using counted.symm
  | some new =>
    by_cases here : i = new
    · subst here
      simp only [if_true] at counted
      simp [countTarget, ← counted]
    · simp only [Option.some.injEq, Ne.symm here, if_false, Nat.add_zero] at counted
      simp [countTarget, here, counted]

theorem countTarget_move {i n : Nat}
    (counted : n + (if oldDir = i then 1 else 0) + (if newInode = some i then 2 else 0) =
      s.nlink i + (if newInode = none ∧ newDir = i then 1 else 0))
    (apart : ∀ new, newInode = some new → new ≠ oldDir ∧ new ≠ newDir) :
    ((countTarget true newDir newInode s).decLinkCount oldDir).nlink i = n := by
  cases newInode with
  | none =>
    simp only [reduceCtorEq, if_false, true_and, Nat.add_zero] at counted
    simp only [countTarget, if_true, State.decLinkCount_nlink, State.incLinkCount_nlink, Function.update_apply]
    grind
  | some new =>
    obtain ⟨old, target⟩ := apart new rfl
    simp only [Option.some.injEq, reduceCtorEq, false_and, if_false, Nat.add_zero] at counted
    simp only [countTarget, if_true, State.decLinkCount_nlink, Function.update_apply]
    grind

theorem keeps_rename (c : Consistent v s) (reads : ∀ k, (io k).Reads) {flags : Nat}
    (allowed : (Call.rename flags oldDir oldName oldInode newDir newName newInode).Allowed v s)
    (maps : (Call.rename flags oldDir oldName oldInode newDir newName newInode).Maps io s)
    (commits : newInode = none → commitErr (io 4) (s.dirs newDir) = 0) :
    Keeps v s (ext2Rename v io flags oldDir oldName oldInode newDir newName newInode s) := by
  obtain ⟨old, new, bound, passed, kinds, notBelow⟩ := allowed
  have differ : (oldDir, oldName) ≠ (newDir, newName) := by
    intro same
    obtain ⟨rfl, rfl⟩ := Prod.mk.inj same
    exact (kinds oldInode (passed.symm.trans bound)).1 rfl
  have apart : s.isDir oldInode = true → oldInode ≠ oldDir ∧ oldInode ≠ newDir := by
    intro isDir
    refine ⟨fun same => ?_, fun same => notBelow isDir (same ▸ Relation.ReflTransGen.refl)⟩
    exact c.tree.selfless old.linked old.inner (same ▸ bound)
  have used := fun {d} (here : s.Linked d) => c.used d (State.Linked.inUse c.toShape here)
  have moves : Movable v io s oldDir oldName oldInode newDir newName newInode := by
    refine ⟨reads, ?_, c.tree.isDir old.linked, c.tree.isDir new.linked, bound, passed, old.short, new.short, new.long, ?_⟩
    · rintro d (rfl | rfl | rfl) isDir
      · exact ⟨(c.dirs _ old.linked).inv, used old.linked⟩
      · exact ⟨(c.dirs _ new.linked).inv, used new.linked⟩
      · have child : s.Linked d := Linked.child old.linked old.inner bound isDir
        exact ⟨(c.dirs d child).inv, used child⟩
    · intro isDir
      have child : s.Linked oldInode := Linked.child old.linked old.inner bound isDir
      exact (c.dirs oldInode child).dotted (c.tree.up oldDir oldName oldInode old.linked old.inner bound isDir)
  obtain ⟨err, s', called, result⟩ := @rename_result _ _ _ _ _ _ _ _ _ flags moves maps.1 maps.2 differ apart
  rw [called]
  by_cases directory : err = 0 ∧ s.isDir oldInode = true
  · obtain ⟨zero, isDir⟩ := directory
    have empty : ∀ new, newInode = some new → s.isDir new = true ∧ ∀ name, dots.Inner name → s.names new name = none := by
      intro n here
      have kind : s.isDir n = true := (kinds n here).2.trans isDir
      have child : s.Linked n := Linked.child new.linked new.inner (passed.trans here) kind
      exact ⟨kind, fun name inner => emptyDir_names (c.dirs n child) (reads 2) (result.emptied zero isDir n here) inner⟩
    obtain ⟨shape, counts⟩ := result.moveDir zero c.toShape old.linked new.linked old.inner new.inner bound passed differ isDir empty
      (notBelow isDir)
    rw [zero]
    apply shape.keeps
    intro i here
    have counted := counts i
    have before := c.count (result.inUse ▸ here)
    rw [result.nlink zero isDir]
    have nlink := countTarget_move (before.symm ▸ counted) fun n here => ⟨?_, ?_⟩
    · exact nlink
    · rintro rfl
      have none := (empty n here).2 oldName old.inner
      rw [none] at bound
      cases bound
    · rintro rfl
      have none := (empty n here).2 newName new.inner
      rw [none, here] at passed
      cases passed
  · cases result with
    | refused => exact c.refused
    | untouched _ same _ =>
      obtain ⟨kept, equal⟩ := c.toShape.untouched new.linked same
      exact c.same kept equal rfl rfl
    | uncommitted none _ failed => exact absurd (commits none) failed
    | file file binds unbinds =>
      obtain ⟨shape, counts⟩ := c.toShape.moveFile old.linked new.linked old.inner new.inner bound passed differ file
        (fun n here => (kinds n here).2.trans file) binds unbinds
      apply shape.keeps
      intro i here
      have counted := counts i
      rw [State.setDir_inUse, countTarget_inUse, State.setDir_inUse] at here
      have before := c.count here
      rw [State.setDir_nlink, countTarget_nlink]
      exact countTarget_file (before.symm ▸ counted)
    | sameDir isDir => exact absurd ⟨rfl, isDir⟩ directory
    | otherDir isDir => exact absurd ⟨rfl, isDir⟩ directory

/-! ### Every call -/

variable {call : Call}

theorem Consistent.keeps (c : Consistent v s) (reads : ∀ k, (io k).Reads) (allowed : call.Allowed v s)
    (commits : call.Commits io s) (maps : call.Maps io s) : Keeps v s (call.run v io s) := by
  cases call with
  | create => exact keeps_createNondir c (reads 0) allowed.1 allowed.2.1 allowed.2.2 commits
  | mknod => exact keeps_createNondir c (reads 0) allowed.1 allowed.2.1 allowed.2.2 commits
  | symlink => exact keeps_symlink c (reads 0) allowed.1 allowed.2.1 allowed.2.2 commits _ _
  | link => exact keeps_link c (reads 0) allowed.1 allowed.2.1 allowed.2.2.1 allowed.2.2.2 commits
  | unlink => exact keeps_unlink c (reads 0) allowed.1 allowed.2.1 allowed.2.2 maps commits
  | mkdir => exact keeps_mkdir c (reads 1) allowed.1 allowed.2.1 allowed.2.2 commits
  | rmdir => exact keeps_rmdir c reads allowed.1 allowed.2.1 allowed.2.2 maps commits
  | rename => exact keeps_rename c reads allowed maps commits

end OsLab.Ext2.Namei
