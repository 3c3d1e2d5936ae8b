import OsLab.Ext2.Namei

/-!
# Calls on a directory

What the operations on names make of one directory: a call binds a name, or takes its binding
away, and leaves every other entry in its place.
-/

namespace OsLab.Ext2.Namei
open Bytes Records

/-- The directory changes at one name. -/
structure Binds (v : DirVolume) (dir : Dir) (name : List UInt8) (inode : Option Nat) (dir' : Dir) : Prop where
  inv : Directory v dir'
  bound : bindings dir' = Function.update (bindings dir) name inode
  kept : ∀ l, l ∈ links (entries dir) → l.name ≠ name → l ∈ links (entries dir')
  iNo : dir'.iNo = dir.iNo
  isDirsync : dir'.isDirsync = dir.isDirsync

/-- A call that failed early. -/
structure Untouched (v : DirVolume) (dir dir' : Dir) : Prop where
  inv : Directory v dir'
  links : links (entries dir') = links (entries dir)
  rest : dir' = { dir with data := dir'.data }

variable {v : DirVolume} {cache : PageCache} {dir dir' : Dir} {s : State} {name : List UInt8} {d de i old : Nat}
variable {inode : Option Nat}

theorem Untouched.bindings (same : Untouched v dir dir') : bindings dir' = bindings dir := by
  unfold Ext2.bindings
  rw [same.links]

/-! ### Live entries and their names -/

theorem bindings_iff (inv : Directory v dir) : bindings dir name = some i ↔ ∃ de, ⟨de, i, name⟩ ∈ links (entries dir) := by
  unfold bindings
  rw [Option.map_eq_some_iff]
  constructor
  · rintro ⟨l, found, rfl⟩
    obtain ⟨member, rfl⟩ := Keyed.mem_of_find found
    exact ⟨l.off, member⟩
  · rintro ⟨de, member⟩
    exact ⟨_, (Keyed.find_iff inv.distinct).mpr ⟨member, rfl⟩, rfl⟩

theorem links_live_inode {l : Link} (member : l ∈ links (entries dir)) : l.inode ≠ 0 := by
  obtain ⟨s, -, live, rfl⟩ := mem_links.mp member
  exact live

theorem links_inumber (inv : Directory v dir) {l : Link} (member : l ∈ links (entries dir)) : l.inode ≤ v.inodesCount := by
  obtain ⟨s, here, -, rfl⟩ := mem_links.mp member
  exact (inv.wf.slots s here).inumber

theorem bindings_live (inv : Directory v dir) (bound : bindings dir name = some i) :
    i ≠ 0 ∧ i ≤ v.inodesCount ∧ name ≠ [] := by
  obtain ⟨de, member⟩ := (bindings_iff inv).mp bound
  exact ⟨links_live_inode member, links_inumber inv member, inv.named _ member⟩

theorem findEntry_bound (inv : Directory v dir) (reads : cache.Reads) (short : name.length ≤ 255)
    (bound : bindings dir name = some i) :
    ∃ de, ext2FindEntry v cache dir name = .ok de ∧ ⟨de, i, name⟩ ∈ links (entries dir) := by
  rw [bindings_eq] at bound
  obtain ⟨s, found, rfl⟩ := Option.map_eq_some_iff.mp bound
  obtain ⟨live, rfl⟩ := names_iff.mp (List.find?_some found)
  refine ⟨s.off, ?_, mem_links.mpr ⟨s, List.mem_of_find?_eq_some found, live, rfl⟩⟩
  rw [findEntry_eq inv.wf reads short, found]

/-! ### The calls -/

theorem addLink_binds (inv : Directory v (s.dirs d)) (reads : cache.Reads) (long : name ≠ []) (short : name.length ≤ 255)
    (fresh : bindings (s.dirs d) name = none) (nonzero : i ≠ 0) (inumber : i ≤ v.inodesCount) :
    ∃ err dir', addLink v cache d name i s = some (err, s.setDir d dir') ∧
      (Binds v (s.dirs d) name (some i) dir' ∧ err = commitErr cache (s.dirs d) ∨
        Untouched v (s.dirs d) dir' ∧ err ≠ 0) := by
  obtain ⟨err, dir', called, added⟩ := addLink_result inv.wf reads (fun r member live => inv.slots_named member live)
    (fresh_iff.mp fresh) (List.length_pos_iff.mpr long) short nonzero inumber
  refine ⟨err, dir', by rw [addLink, called]; rfl, ?_⟩
  rcases added with added | ⟨-, -, -, failed, rfl⟩
  · cases added with
    | linked off wf committed size last perm =>
      obtain ⟨inv', bound⟩ := @Directory.added _ _ _ ⟨off, i, name⟩ inv wf long fresh perm
      exact Or.inl ⟨⟨inv', bound, fun l member _ => perm.mem_iff.mpr (List.mem_cons_of_mem _ member), committed.iNo,
        committed.isDirsync⟩, rfl⟩
    | refused none failed wf same kept =>
      have links : links (entries dir') = links (entries (s.dirs d)) := congrArg links kept
      exact Or.inr ⟨⟨⟨wf, links ▸ inv.distinct, links ▸ inv.named⟩, links, same⟩, failed⟩
  · exact Or.inr ⟨⟨inv, rfl, rfl⟩, failed⟩

theorem deleteEntry_binds (inv : Directory v (s.dirs d)) (maps : cache.Maps (s.dirs d))
    (member : ⟨de, i, name⟩ ∈ links (entries (s.dirs d))) :
    ∃ dir', deleteEntry v cache d de s = some (commitErr cache (s.dirs d), s.setDir d dir') ∧
      Binds v (s.dirs d) name none dir' := by
  obtain ⟨r, here, live, rfl, rfl⟩ := slot_of_link member
  obtain ⟨dir', called, wf, committed, -, perm⟩ := deleteEntry_links inv.wf maps here live
  obtain ⟨inv', bound⟩ := inv.deleted wf perm
  refine ⟨dir', by rw [deleteEntry, called]; rfl, inv', bound, fun l old other => ?_, committed.iNo, committed.isDirsync⟩
  rcases List.mem_cons.mp (perm.mem_iff.mp old) with rfl | kept
  · exact absurd rfl other
  · exact kept

theorem setLink_binds (inv : Directory v (s.dirs d)) (maps : cache.Maps (s.dirs d))
    (member : ⟨de, old, name⟩ ∈ links (entries (s.dirs d))) (nonzero : i ≠ 0) (inumber : i ≤ v.inodesCount) :
    ∃ dir', setLink v cache d de i s = some (s.setDir d dir') ∧ Binds v (s.dirs d) name (some i) dir' ∧
      ⟨de, i, name⟩ ∈ links (entries dir') := by
  obtain ⟨r, here, live, rfl, rfl⟩ := slot_of_link member
  obtain ⟨dir', called, wf, committed, -, rest, perm, perm'⟩ := setLink_links inv.wf maps here live nonzero inumber
  have same : (⟨r.off, i, r.name⟩ : Link).name = r.link.name := rfl
  obtain ⟨inv', bound⟩ := inv.rebound wf same perm perm'
  refine ⟨dir', by rw [setLink, called]; rfl, ⟨inv', bound, fun l kept other => ?_, committed.iNo, committed.isDirsync⟩,
    perm'.mem_iff.mpr List.mem_cons_self⟩
  rcases List.mem_cons.mp (perm.mem_iff.mp kept) with rfl | rest
  · exact absurd rfl other
  · exact perm'.mem_iff.mpr (List.mem_cons_of_mem _ rest)

/-! ### Blocks that are there

A call that comes back would have done the same with all blocks there. -/

def withBlocks (cache : PageCache) : PageCache := { cache with getBlocks := fun _ _ => 0 }

theorem withBlocks_maps (dir : Dir) : (withBlocks cache).Maps dir := fun _ _ _ => rfl

theorem prepareChunk_withBlocks {pos len : Nat} (prepared : ext2PrepareChunk v cache pos len = 0) :
    ext2PrepareChunk v (withBlocks cache) pos len = 0 := by
  unfold ext2PrepareChunk at prepared ⊢
  split_ifs at prepared ⊢ with beyond
  · cases prepared
  · rfl

theorem deleteEntry_withBlocks {result : Int × State} (called : deleteEntry v cache d de s = some result) :
    deleteEntry v (withBlocks cache) d de s = some result := by
  have same : ∀ {inode : Dir} {deleted : Int × Dir}, ext2DeleteEntry v cache inode de = some deleted →
      ext2DeleteEntry v (withBlocks cache) inode de = some deleted := by
    intro inode deleted called
    unfold ext2DeleteEntry at called ⊢
    simp only at called ⊢
    split
    · rename_i found
      simp only [found] at called
      exact called
    · rename_i found
      simp only [found] at called
      split_ifs at called with prepared
      rw [if_neg (not_not.mpr (prepareChunk_withBlocks (not_not.mp prepared)))]
      exact called
  unfold deleteEntry at called ⊢
  obtain ⟨deleted, once, rfl⟩ := Option.map_eq_some_iff.mp called
  rw [same once, Option.map_some]

theorem setLink_withBlocks {s' : State} (called : setLink v cache d de i s = some s') :
    setLink v (withBlocks cache) d de i s = some s' := by
  unfold setLink ext2SetLink at called ⊢
  simp only at called ⊢
  by_cases prepared : ext2PrepareChunk v cache de (deRecLen (s.dirs d).data de) = 0
  · simp only [prepared, prepareChunk_withBlocks prepared, ne_eq, not_true_eq_false, if_false] at called ⊢
    exact called
  · rw [if_pos prepared] at called
    cases called

/-! ### The names of all directories -/

def State.names (s : State) (d : Nat) : Names := bindings (s.dirs d)

theorem names_setDir (binds : Binds v (s.dirs d) name inode dir') (d' : Nat) (name' : List UInt8) :
    (s.setDir d dir').names d' name' = if d' = d ∧ name' = name then inode else s.names d' name' := by
  unfold State.names
  rw [State.setDir_dirs]
  by_cases here : d' = d
  · subst here
    rw [Function.update_self, binds.bound]
    by_cases same : name' = name
    · rw [same, Function.update_self, if_pos ⟨rfl, rfl⟩]
    · rw [Function.update_of_ne same, if_neg fun both => same both.2]
  · rw [Function.update_of_ne here, if_neg fun both => here both.1]

theorem Untouched.names (same : Untouched v (s.dirs d) dir') : (s.setDir d dir').names = s.names := by
  unfold State.names
  funext d'
  rw [State.setDir_dirs]
  by_cases here : d' = d
  · subst here
    rw [Function.update_self, same.bindings]
  · rw [Function.update_of_ne here]

theorem directories_setDir {P : Nat → Prop} (all : ∀ d, P d → Directory v (s.dirs d)) (inv : Directory v dir') (d' : Nat)
    (isDir : P d') : Directory v ((s.setDir d dir').dirs d') := by
  rw [State.setDir_dirs]
  by_cases here : d' = d
  · subst here
    rwa [Function.update_self]
  · rw [Function.update_of_ne here]
    exact all d' isDir

end OsLab.Ext2.Namei
