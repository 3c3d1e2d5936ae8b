import OsLab.Foundation.Hierarchy
import OsLab.Ext2.InodeCodec
import OsLab.Ext2.Rename

/-!
# Link counts

The directories that the root leads to make a tree, and `i_nlink` is the number of entries in
them that name an inode. Each operation changes the tree and the counts together.
-/

namespace OsLab.Ext2.Namei
open Bytes Records Hierarchies

def dots : Frame Nat (List UInt8) := ⟨rootIno, [46], [46, 46], by decide⟩

def graph (s : State) : Hierarchies.Graph Nat (List UInt8) := ⟨s.names, fun d => s.isDir d = true⟩

/-- A directory that the root leads to by names other than the dots. -/
def State.Linked (s : State) : Nat → Prop := Hierarchies.Linked dots (graph s)

/-- The live entries in linked directories that name an inode. -/
def linkedEntries (s : State) (i : Nat) : Set (Nat × Link) :=
  {p | s.Linked p.1 ∧ p.2 ∈ links (entries (s.dirs p.1)) ∧ p.2.inode = i}

noncomputable def entryCount (s : State) (i : Nat) : Nat := (linkedEntries s i).ncard

/-- A well-formed directory with `..` as its second entry. -/
structure DirOk (v : DirVolume) (s : State) (d : Nat) : Prop where
  inv : Directory v (s.dirs d)
  iNo : (s.dirs d).iNo = d
  up : ∃ o p, 0 < o ∧ o < 24 ∧ ⟨o, p, [46, 46]⟩ ∈ links (entries (s.dirs d))

structure Shape (v : DirVolume) (s : State) : Prop where
  tree : Hierarchy dots (graph s)
  dirs : ∀ d, s.Linked d → DirOk v s d
  named : ∀ d name i, s.Linked d → s.names d name = some i → s.inUse i = true
  used : ∀ i, s.inUse i = true → i ≠ 0 ∧ i ≤ v.inodesCount

structure Consistent (v : DirVolume) (s : State) : Prop extends Shape v s where
  counts : ∀ i, s.inUse i = true → s.nlink i = entryCount s i

variable {v : DirVolume} {s s' : State} {d d' n i j : Nat} {name : List UInt8} {dir' inode : Dir} {o : Option Nat}

/-! ### Counting names -/

theorem entryCount_eq (shape : Shape v s) (i : Nat) : entryCount s i = count dots (graph s) i := by
  unfold entryCount count
  have image : (fun p : Nat × Link => (p.1, p.2.name)) '' linkedEntries s i =
      naming (Hierarchies.Linked dots (graph s)) (graph s).edge i := by
    ext ⟨d, name⟩
    constructor
    · rintro ⟨⟨d, de, i, name⟩, ⟨linked, member, rfl⟩, same⟩
      obtain ⟨rfl, rfl⟩ := Prod.mk.inj same
      exact ⟨linked, (bindings_iff (shape.dirs _ linked).inv).mpr ⟨de, member⟩⟩
    · rintro ⟨linked, bound⟩
      obtain ⟨de, member⟩ := (bindings_iff (shape.dirs d linked).inv).mp bound
      exact ⟨(d, ⟨de, i, name⟩), ⟨linked, member, rfl⟩, rfl⟩
  rw [← image]
  symm
  apply Set.InjOn.ncard_image
  rintro ⟨d, l⟩ ⟨linked, member, -⟩ ⟨d', l'⟩ ⟨-, member', -⟩ same
  obtain ⟨here, names⟩ := Prod.mk.inj same
  obtain rfl : d = d' := here
  have one : l = l' := (shape.dirs d linked).inv.distinct.inj member member' names
  rw [one]

theorem State.Linked.inUse (shape : Shape v s) (linked : s.Linked d) : s.inUse d = true :=
  shape.named d [46] d linked (shape.tree.self d linked)

theorem unnamed (shape : Shape v s) (free : s.inUse n = false) (linked : s.Linked d) : s.names d name ≠ some n := by
  intro named
  rw [shape.named d name n linked named] at free
  cases free

theorem count_unnamed (none : ∀ d name, s.Linked d → s.names d name ≠ some n) : count dots (graph s) n = 0 := by
  have empty : naming (Hierarchies.Linked dots (graph s)) (graph s).edge n = ∅ :=
    Set.eq_empty_of_forall_notMem fun q member => none q.1 q.2 member.1 member.2
  unfold count
  rw [empty, Set.ncard_empty]

/-! ### Steps of the shape -/

theorem DirOk.congr (ok : DirOk v s d) (same : s'.dirs d = s.dirs d) : DirOk v s' d := by
  refine ⟨?_, ?_, ?_⟩ <;> rw [same]
  exacts [ok.inv, ok.iNo, ok.up]

theorem DirOk.binds (ok : DirOk v s d') (changed : Binds v (s.dirs d) name o dir') (inner : name ≠ [46, 46]) :
    DirOk v (s.setDir d dir') d' := by
  by_cases here : d' = d
  · subst here
    have dirs : (s.setDir d' dir').dirs d' = dir' := Function.update_self _ _ _
    obtain ⟨place, p, low, high, member⟩ := ok.up
    refine ⟨?_, ?_, place, p, low, high, ?_⟩ <;> rw [dirs]
    · exact changed.inv
    · exact changed.iNo.trans ok.iNo
    · exact changed.kept _ member inner.symm
  · exact ok.congr (Function.update_of_ne here _ _)

theorem Shape.of_agree {g : Hierarchies.Graph Nat (List UInt8)} (tree : Hierarchy dots g) (agree : Agree dots g (graph s))
    (dirs : ∀ d, Hierarchies.Linked dots g d → DirOk v s d)
    (named : ∀ d name i, Hierarchies.Linked dots g d → g.edge d name = some i → s.inUse i = true)
    (used : ∀ i, s.inUse i = true → i ≠ 0 ∧ i ≤ v.inodesCount) : Shape v s where
  tree := agree.hierarchy tree
  dirs d linked := dirs d ((agree.linked d).mp linked)
  named d name i linked bound := by
    have linked := (agree.linked d).mp linked
    have edge : (graph s).edge d name = some i := bound
    rw [agree.edge d linked] at edge
    exact named d name i linked edge
  used := used

/-- Counts are no part of the shape. -/
theorem Shape.nlink (shape : Shape v s) (nlink : Nat → Nat) : Shape v { s with nlink := nlink } :=
  ⟨shape.tree, fun d linked => (shape.dirs d linked).congr rfl, shape.named, shape.used⟩

theorem Shape.incLinkCount (shape : Shape v s) (i : Nat) : Shape v (s.incLinkCount i) := shape.nlink _

theorem Shape.decLinkCount (shape : Shape v s) (i : Nat) : Shape v (s.decLinkCount i) := shape.nlink _

/-- A change of directories that the root does not lead to. -/
theorem agree_unlinked (free : ¬ s.Linked d) (dir : Dir) : Agree dots (graph s) (graph (s.setDir d dir)) where
  edge d' linked := by
    have other : d' ≠ d := fun same => free (same ▸ linked)
    funext name
    show bindings ((s.setDir d dir).dirs d') name = bindings (s.dirs d') name
    rw [State.setDir_dirs, Function.update_of_ne other]
  isDir _ _ _ _ _ := Iff.rfl

theorem Shape.unlinked (shape : Shape v s) (free : ¬ s.Linked d) (dir : Dir) : Shape v (s.setDir d dir) := by
  refine .of_agree shape.tree (agree_unlinked free dir) ?_ shape.named shape.used
  intro d' linked
  have other : d' ≠ d := fun same => free (same ▸ linked)
  exact (shape.dirs d' linked).congr (Function.update_of_ne other _ _)

theorem agree_newInode (shape : Shape v s) (free : s.inUse inode.iNo = false) (isDir : Bool) :
    Agree dots (graph s) (graph (s.newInode inode isDir)) where
  edge d linked := by
    have other : d ≠ inode.iNo := fun same => by
      have used := State.Linked.inUse shape linked
      rw [same, free] at used
      cases used
    funext name
    show bindings ((s.newInode inode isDir).dirs d) name = bindings (s.dirs d) name
    rw [State.newInode_dirs, Function.update_of_ne other]
  isDir d name i linked bound := by
    have other : i ≠ inode.iNo := fun same => unnamed shape free linked (same ▸ bound)
    show Function.update s.isDir inode.iNo isDir i = true ↔ s.isDir i = true
    rw [Function.update_of_ne other]

theorem Shape.newInode (shape : Shape v s) (free : s.inUse inode.iNo = false) (nonzero : inode.iNo ≠ 0)
    (inumber : inode.iNo ≤ v.inodesCount) (isDir : Bool) : Shape v (s.newInode inode isDir) := by
  have other : ∀ {i}, s.inUse i = true → i ≠ inode.iNo := fun used same => by
    rw [same, free] at used
    cases used
  refine .of_agree shape.tree (agree_newInode shape free isDir) ?_ ?_ ?_
  · intro d linked
    exact (shape.dirs d linked).congr (Function.update_of_ne (other (State.Linked.inUse shape linked)) _ _)
  · intro d name i linked bound
    have used := shape.named d name i linked bound
    exact (Function.update_of_ne (other used) _ _).trans used
  · intro i used
    by_cases here : i = inode.iNo
    · exact here ▸ ⟨nonzero, inumber⟩
    · rw [State.newInode_inUse, Function.update_of_ne here] at used
      exact shape.used i used

theorem Shape.discard (shape : Shape v s) (none : ∀ d name, s.Linked d → s.names d name ≠ some n) :
    Shape v (s.discardNewInode n) where
  tree := shape.tree
  dirs d linked := (shape.dirs d linked).congr rfl
  named d name i linked bound := by
    have other : i ≠ n := fun same => none d name linked (same ▸ bound)
    exact (Function.update_of_ne other _ _).trans (shape.named d name i linked bound)
  used i used := by
    by_cases here : i = n
    · rw [here, State.discardNewInode_inUse, Function.update_self] at used
      cases used
    · rw [State.discardNewInode_inUse, Function.update_of_ne here] at used
      exact shape.used i used

theorem graph_setDir (changed : Binds v (s.dirs d) name o dir') : graph (s.setDir d dir') = (graph s).set d name o := by
  unfold graph Graph.set
  congr
  funext d' name'
  exact names_setDir changed d' name'

/-- A name of the tree is bound to an inode that is no directory, or gets free. -/
theorem Shape.leaf (shape : Shape v s) (linked : s.Linked d) (inner : dots.Inner name)
    (changed : Binds v (s.dirs d) name o dir') (old : ∀ i, s.names d name = some i → s.isDir i = false)
    (new : ∀ i, o = some i → s.isDir i = false ∧ s.inUse i = true) :
    Shape v (s.setDir d dir') ∧ (s.setDir d dir').Linked = s.Linked ∧
      ∀ j, count dots (graph (s.setDir d dir')) j + (if s.names d name = some j then 1 else 0) =
        count dots (graph s) j + (if o = some j then 1 else 0) := by
  have noDir : ∀ i, s.isDir i = false → ¬ (graph s).isDir i := fun i file directory => by
    have isDir : s.isDir i = true := directory
    rw [file] at isDir
    cases isDir
  obtain ⟨tree, same, counts⟩ := shape.tree.leaf linked inner (fun i bound => noDir i (old i bound))
    fun i bound => noDir i (new i bound).1
  have equal := graph_setDir changed
  rw [← equal] at tree same counts
  refine ⟨⟨tree, fun d' linked' => ?_, fun d' name' i linked' bound => ?_, shape.used⟩, same, counts⟩
  · unfold State.Linked at linked'
    rw [same] at linked'
    exact (shape.dirs d' linked').binds changed inner.2
  · unfold State.Linked at linked'
    rw [same] at linked'
    rw [names_setDir changed] at bound
    split_ifs at bound with here
    · exact (new i bound).2
    · exact shape.named d' name' i linked' bound

theorem Shape.untouched (shape : Shape v s) (linked : s.Linked d) (same : Untouched v (s.dirs d) dir') :
    Shape v (s.setDir d dir') ∧ graph (s.setDir d dir') = graph s := by
  have equal : graph (s.setDir d dir') = graph s := by
    unfold graph
    rw [same.names]
    rfl
  have links : ∀ d', s.Linked d' → DirOk v (s.setDir d dir') d' := by
    intro d' linked'
    have ok := shape.dirs d' linked'
    by_cases here : d' = d
    · subst here
      have dirs : (s.setDir d' dir').dirs d' = dir' := Function.update_self _ _ _
      refine ⟨?_, ?_, ?_⟩ <;> rw [dirs]
      · exact same.inv
      · rw [same.rest]
        exact ok.iNo
      · rw [same.links]
        exact ok.up
    · exact ok.congr (Function.update_of_ne here _ _)
  have linkedEq : (s.setDir d dir').Linked = s.Linked := by
    unfold State.Linked
    rw [equal]
  refine ⟨⟨equal ▸ shape.tree, fun d' linked' => links d' (linkedEq ▸ linked'), fun d' name i linked' bound => ?_, shape.used⟩, equal⟩
  rw [same.names] at bound
  exact shape.named d' name i (linkedEq ▸ linked') bound

theorem Shape.addDir (shape : Shape v s) (linked : s.Linked d) (inner : dots.Inner name)
    (changed : Binds v (s.dirs d) name (some n) dir') (free : s.names d name = none)
    (fresh : ∀ p name, s.Linked p → s.names p name ≠ some n) (ok : DirOk v s n) (isDir : s.isDir n = true)
    (used : s.inUse n = true) (self : s.names n [46] = some n) (up : s.names n [46, 46] = some d)
    (empty : ∀ name, dots.Inner name → s.names n name = none) :
    Shape v (s.setDir d dir') ∧ ∀ j, count dots (graph (s.setDir d dir')) j =
      count dots (graph s) j + (if n = j then 1 else 0) + (if n = j then 1 else 0) + (if d = j then 1 else 0) := by
  have equal := graph_setDir changed
  have other : ∀ {name'}, ¬ (n = d ∧ name' = name) := fun here =>
    fresh n [46] (here.1 ▸ linked) self
  have edge : ∀ {name'}, ((graph s).set d name (some n)).edge n name' = s.names n name' := set_other other
  obtain ⟨tree, more, counts⟩ := @Hierarchy.addDir _ _ dots (graph s) (graph (s.setDir d dir')) d n name _ _ shape.tree linked inner
    free fresh (fun x _ => by rw [equal]) (by rw [equal]; exact edge.trans self) (by rw [equal]; exact edge.trans up)
    (fun name' inner' => by rw [equal]; exact edge.trans (empty name' inner')) isDir fun _ _ _ _ _ => Iff.rfl
  refine ⟨⟨tree, fun d' linked' => ?_, fun d' name' i linked' bound => ?_, shape.used⟩, counts⟩
  · rcases (more d').mp linked' with linked' | rfl
    · exact (shape.dirs d' linked').binds changed inner.2
    · exact ok.binds changed inner.2
  · rw [names_setDir changed] at bound
    rcases (more d').mp linked' with linked' | rfl
    · split_ifs at bound with here
      · exact Option.some.inj bound ▸ used
      · exact shape.named d' name' i linked' bound
    · rw [if_neg other] at bound
      by_cases own : name' = [46]
      · rw [own, self] at bound
        exact Option.some.inj bound ▸ used
      · by_cases parent : name' = [46, 46]
        · rw [parent, up] at bound
          have above := State.Linked.inUse shape linked
          exact Option.some.inj bound ▸ above
        · rw [empty name' ⟨own, parent⟩] at bound
          cases bound

theorem Shape.removeDir (shape : Shape v s) (linked : s.Linked d) (inner : dots.Inner name)
    (changed : Binds v (s.dirs d) name none dir') (bound : s.names d name = some n) (isDir : s.isDir n = true)
    (empty : ∀ name, dots.Inner name → s.names n name = none) :
    Shape v (s.setDir d dir') ∧ ¬ (s.setDir d dir').Linked n ∧ ∀ j, count dots (graph (s.setDir d dir')) j +
      (if n = j then 1 else 0) + (if n = j then 1 else 0) + (if d = j then 1 else 0) = count dots (graph s) j := by
  have equal := graph_setDir changed
  obtain ⟨tree, left, counts⟩ := shape.tree.removeDir linked inner bound isDir empty
  rw [← equal] at tree left counts
  refine ⟨⟨tree, fun d' linked' => ?_, fun d' name' i linked' found => ?_, shape.used⟩, fun here => ((left n).mp here).2 rfl, counts⟩
  · exact (shape.dirs d' ((left d').mp linked').1).binds changed inner.2
  · rw [names_setDir changed] at found
    split_ifs at found with here
    exact shape.named d' name' i ((left d').mp linked').1 found

/-- A directory that passes the emptiness test has no names but its dots. -/
theorem emptyDir_names {cache : PageCache} (ok : DirOk v s d) (reads : cache.Reads)
    (empty : ext2EmptyDir v cache (s.dirs d) = true) (inner : dots.Inner name) : s.names d name = none := by
  have none := (emptyDir_iff ok.inv.wf reads fun r member live => ok.inv.slots_named member live).mp empty
  apply fresh_iff.mpr
  intro r member
  have free := none r member
  rw [← Bool.not_eq_true, names_iff]
  rintro ⟨live, rfl⟩
  unfold Slot.occupies at free
  simp [live, show r.name ≠ [46] from inner.1, show r.name ≠ [46, 46] from inner.2] at free

/-- What `ext2_make_empty` writes, if it succeeds. -/
structure MadeEmpty (v : DirVolume) (iNo parent : Nat) (dir : Dir) : Prop where
  inv : Directory v dir
  self : dir.iNo = iNo
  written : links (entries dir) = [⟨0, iNo, [46]⟩, ⟨12, parent, [46, 46]⟩]

theorem makeEmpty_result {cache : PageCache} {dir : Dir} {parent : Nat} (empty : dir.iSize = 0) (nonzero : dir.iNo ≠ 0)
    (inumber : dir.iNo ≤ v.inodesCount) (live : parent ≠ 0) (above : parent ≤ v.inodesCount) :
    ∃ err dir', ext2MakeEmpty v cache dir parent = (err, dir') ∧ (err = 0 → MadeEmpty v dir.iNo parent dir') := by
  by_cases page : cache.grabCachePage = true
  · by_cases block : cache.getBlocks 0 (ext2ChunkSize v) = 0
    · obtain ⟨dir', made, wf, committed, -, written⟩ := makeEmpty_links empty page block inumber above
      have both : links (entries dir') = [⟨0, dir.iNo, [46]⟩, ⟨12, parent, [46, 46]⟩] := by
        rw [written]
        simp [links, nonzero, live, Slot.link]
      refine ⟨_, dir', made, fun _ => ⟨⟨wf, ?_, ?_⟩, committed.iNo, both⟩⟩
      · rw [both]
        simp [Keyed.Distinct]
      · rw [both]
        simp
    · have refused : ext2PrepareChunk v cache 0 (ext2ChunkSize v) ≠ 0 := by
        unfold ext2PrepareChunk
        split_ifs
        · decide
        · exact block
      refine ⟨ext2PrepareChunk v cache 0 (ext2ChunkSize v), dir, ?_, fun zero => absurd zero refused⟩
      simp only [ext2MakeEmpty, page, refused, Bool.not_true, Bool.false_eq_true, if_false, ne_eq, not_false_eq_true, if_true]
  · rw [Bool.not_eq_true] at page
    refine ⟨-enomem, dir, ?_, fun zero => absurd zero (by decide)⟩
    simp only [ext2MakeEmpty, page, Bool.not_false, if_true]

theorem MadeEmpty.names {dir : Dir} {iNo parent : Nat} (made : MadeEmpty v iNo parent dir) :
    bindings dir [46] = some iNo ∧ bindings dir [46, 46] = some parent ∧ ∀ name, dots.Inner name → bindings dir name = none := by
  unfold bindings
  rw [made.written]
  refine ⟨rfl, rfl, fun name inner => ?_⟩
  have dot : [46] ≠ name := fun same => inner.1 same.symm
  have dotdot : [46, 46] ≠ name := fun same => inner.2 same.symm
  simp [Keyed.find, dot, dotdot]

theorem makeEmpty_setDir {cache : PageCache} {dir : Dir} {err : Int} {parent : Nat}
    (made : ext2MakeEmpty v cache (s.dirs d) parent = (err, dir)) : makeEmpty v cache d parent s = (err, s.setDir d dir) := by
  unfold makeEmpty
  rw [made]

end OsLab.Ext2.Namei
