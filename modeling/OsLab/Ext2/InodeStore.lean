import OsLab.Ext2.InodeReload
import OsLab.Ext2.InodeSlots
import OsLab.Foundation.WriteBack

/-!
# Inodes in memory and on disk

Inodes are loaded, changed, written back and let go of in any order. On a volume whose inode
tables are whole, each inode that comes back is the one that was set last, and the writes touch
the inode tables only.
-/

namespace OsLab.Ext2
open Bytes Field Runs WriteBack

/-- The slots of the inode tables, as `ext2_iget` and `ext2_write_inode` use them. -/
def inodeDisk (v : InodeTable) : WriteBack.Disk Image Nat VfsInode where
  loads img ino inode := ∃ readable slab, ext2Iget v readable slab img ino = .loaded inode
  saves img _ inode img' inode' := ∃ readable, ext2DoWriteInode v readable false img inode = (0, img', inode')
  refuses img _ inode img' inode' := ∃ readable, ext2DoWriteInode v readable false img inode = (-eio, img', inode')
  usable ino inode := inode.iIno = ino ∧ 0 < ino ∧ inode.isFastSymlink = false ∧ Fits inode

/-- Wherever the slot can be read, a load gives the inode. -/
def ShowsInode (v : InodeTable) (img : Image) (ino : Nat) (inode : VfsInode) : Prop :=
  ∀ readable slab raw, ext2GetInode v readable ino = .ok raw →
    ∃ inode', ext2Iget v readable slab img ino = .loaded inode' ∧ Reloaded inode inode'

variable {sbi : SbInfo} {v : InodeTable} {readable readable' : Nat → Bool} {img img' slab : Image} {ino ino' raw raw' : Nat}
variable {inode inode' : VfsInode}

theorem Reloaded.refl (inode : VfsInode) : Reloaded inode inode :=
  ⟨⟨rfl, rfl, rfl, rfl, rfl, rfl, rfl, rfl, rfl⟩, rfl, fun _ _ _ => rfl, fun _ => rfl⟩

/-! ### One slot -/

theorem get_congr {f : Field} (inside : f.off + f.width ≤ 128) (same : ∀ k, raw ≤ k → k < raw + 128 → img k = img' k) :
    f.get img raw = f.get img' raw := by
  unfold Field.get
  exact load_congr fun k low high => same k (by omega) (by omega)

/-- Only the bytes of the slot matter. -/
theorem ext2Iget_congr (found : ext2GetInode v readable ino = .ok raw) (same : ∀ k, raw ≤ k → k < raw + 128 → img k = img' k) :
    ext2Iget v readable slab img ino = ext2Iget v readable slab img' ino := by
  have block : ∀ n ∈ List.range nBlocks, (rawBlock n).get img raw = (rawBlock n).get img' raw := by
    intro n member
    have less : n < 15 := List.mem_range.mp member
    exact get_congr (show 40 + 4 * n + 4 ≤ 128 by omega) same
  have filled : fillInode img slab raw ino = fillInode img' slab raw ino := by
    unfold fillInode
    rw [get_congr (f := rawMode) (by decide) same, get_congr (f := rawUid) (by decide) same,
      get_congr (f := rawGid) (by decide) same, get_congr (f := rawLinksCount) (by decide) same,
      get_congr (f := rawSize) (by decide) same, get_congr (f := rawAtime) (by decide) same,
      get_congr (f := rawCtime) (by decide) same, get_congr (f := rawMtime) (by decide) same,
      get_congr (f := rawBlocks) (by decide) same]
  have operations : ∀ inode, setOperations img raw none inode = setOperations img' raw none inode := by
    intro inode
    unfold setOperations
    rw [block 0 (by decide), block 1 (by decide)]
  have words : ((List.range nBlocks).map fun n => (dataWord n, (rawBlock n).get img raw)) =
      (List.range nBlocks).map fun n => (dataWord n, (rawBlock n).get img' raw) :=
    List.map_congr_left fun n member => by rw [block n member]
  unfold ext2Iget
  rw [found]
  simp only [filled, operations, words, get_congr (f := rawFlags) (by decide) same]

/-- A write that returns 0 has written the slot and nothing else. -/
theorem written_found (sized : 128 ≤ v.inodeSize) (wrote : ext2DoWriteInode v readable false img inode = (0, img', inode')) :
    ∃ raw old, ext2GetInode v readable inode.iIno = .ok raw ∧ inode' = { inode with isNew := false } ∧
      img' = written old raw inode ∧ ∀ k, k < raw ∨ raw + v.inodeSize ≤ k → img' k = img k := by
  cases found : ext2GetInode v readable inode.iIno with
  | error err =>
    simp only [ext2DoWriteInode, found] at wrote
    exact absurd (Prod.mk.inj wrote).1 (by decide)
  | ok raw =>
    obtain ⟨old, same, outside⟩ := ext2DoWriteInode_eq found false img
    rw [wrote] at same
    have image : img' = written old raw inode := same
    simp only [ext2DoWriteInode, found] at wrote
    refine ⟨raw, old, rfl, (Prod.mk.inj (Prod.mk.inj wrote).2).2.symm, image, fun k apart => ?_⟩
    have kept : written old raw inode k = old k := puts_outside (assigned_inside inode) (by omega)
    rw [image, kept, outside k apart]

theorem found_writes (img : Image) (found : ext2GetInode v readable inode.iIno = .ok raw) :
    ∃ img' inode', ext2DoWriteInode v readable false img inode = (0, img', inode') := by
  unfold ext2DoWriteInode
  rw [found]
  exact ⟨_, _, rfl⟩

theorem refused_unchanged (refused : ext2DoWriteInode v readable false img inode = (-eio, img', inode')) :
    img' = img ∧ inode' = inode := by
  unfold ext2DoWriteInode at refused
  cases found : ext2GetInode v readable inode.iIno with
  | error err =>
    rw [found] at refused
    obtain ⟨-, rest⟩ := Prod.mk.inj refused
    exact ⟨(Prod.mk.inj rest).1.symm, (Prod.mk.inj rest).2.symm⟩
  | ok raw =>
    rw [found] at refused
    exact absurd (Prod.mk.inj refused).1 (by decide)

theorem Reloaded.written (inode : VfsInode) : Reloaded inode { inode with isNew := false } :=
  ⟨⟨rfl, rfl, rfl, rfl, rfl, rfl, rfl, rfl, rfl⟩, rfl, fun _ _ _ => rfl, fun _ => rfl⟩

theorem loaded_found (loads : ext2Iget v readable slab img ino = .loaded inode) : ∃ raw, ext2GetInode v readable ino = .ok raw := by
  unfold ext2Iget at loads
  cases found : ext2GetInode v readable ino with
  | error err =>
    rw [found] at loads
    cases loads
  | ok raw => exact ⟨raw, rfl⟩

/-! ### All slots -/

/-- The tables have a slot for every inode of their groups. -/
structure WholeTables (sbi : SbInfo) : Prop where
  metadata : ∀ g < sbi.groupsCount, MetadataInGroup sbi g
  whole : sbi.inodesPerBlock ∣ sbi.inodesPerGroup

theorem readSizes_sized {dev : Device} {blocksize es : Nat} {opt : MountOpt} (read : readSizes dev blocksize es opt = .ok sbi) :
    128 ≤ sbi.inodeSize ∧ 0 < sbi.inodesPerGroup := by
  unfold readSizes at read
  obtain ⟨checked, read⟩ := ensure_bind_ok read
  obtain ⟨nonzero, read⟩ := ensure_bind_ok read
  obtain ⟨-, read⟩ := ensure_bind_ok read
  obtain ⟨-, read⟩ := ensure_bind_ok read
  obtain ⟨-, read⟩ := ensure_bind_ok read
  obtain rfl := Except.ok.inj read
  simp only [Bool.and_eq_true, decide_eq_true_eq] at nonzero
  refine ⟨?_, Nat.pos_of_ne_zero nonzero.2⟩
  show 128 ≤ if sRevLevel.get dev.bytes es == 0 then 128 else sInodeSize.get dev.bytes es
  split_ifs with old
  · exact Nat.le_refl 128
  · simp only [old, Bool.false_or, Bool.and_eq_true, decide_eq_true_eq, Bool.false_eq_true, if_false] at checked
    exact checked.1.1

theorem Loaded.sized {dev : Device} {options : List MountToken} (loaded : Loaded dev options sbi) :
    128 ≤ sbi.inodeSize ∧ 0 < sbi.inodesPerGroup := by
  obtain ⟨blocksize, es, opt, -, read⟩ := loaded
  obtain ⟨sizes, sized, descs⟩ := bind_ok read
  have both := readSizes_sized sized
  obtain rfl := readDescriptors_ok descs
  exact both

theorem WholeTables.index {dev : Device} {options : List MountToken} (tables : WholeTables sbi) (loaded : Loaded dev options sbi)
    (ino : Nat) : slotIndex sbi.inodesPerGroup ino < sbi.inodesPerGroup / sbi.inodesPerBlock * sbi.inodesPerBlock := by
  rw [Nat.div_mul_cancel tables.whole]
  exact Nat.mod_lt _ loaded.sized.2

theorem WholeTables.separate {dev : Device} {options : List MountToken} (tables : WholeTables sbi) (loaded : Loaded dev options sbi)
    (found : ext2GetInode sbi.inodeTable readable ino = .ok raw) (found' : ext2GetInode sbi.inodeTable readable' ino' = .ok raw')
    (distinct : ino ≠ ino') (positive : 0 < ino ∧ 0 < ino') : SeparateSlots sbi ino ino' raw raw' :=
  (slots_separate_iff loaded tables.metadata found found' distinct).mpr ⟨tables.index loaded ino, tables.index loaded ino', by omega⟩

theorem getInode_same (found : ext2GetInode v readable ino = .ok raw) (found' : ext2GetInode v readable' ino = .ok raw') :
    raw' = raw :=
  (ext2GetInode_slot found').2.trans (ext2GetInode_slot found).2.symm

theorem inodes_faithful {dev : Device} {options : List MountToken} (loaded : Loaded dev options sbi) (tables : WholeTables sbi) :
    Faithful (inodeDisk sbi.inodeTable) (ShowsInode sbi.inodeTable) Reloaded where
  refl := Reloaded.refl
  loaded shows loads := by
    obtain ⟨readable, slab, loads⟩ := loads
    obtain ⟨raw, found⟩ := loaded_found loads
    obtain ⟨inode', again, reloaded⟩ := shows readable slab raw found
    obtain rfl := Iget.loaded.inj (again.symm.trans loads)
    exact reloaded
  saved usable saves := by
    obtain ⟨rfl, -, slow, fits⟩ := usable
    obtain ⟨readable, wrote⟩ := saves
    obtain ⟨raw, old, found, rfl, rfl, -⟩ := written_found loaded.sized.1 wrote
    refine ⟨Reloaded.written _, fun readable' slab raw' found' => ?_⟩
    obtain rfl := getInode_same found found'
    exact ext2Iget_written found' fits slow old slab
  kept usable saves usable' other shows := by
    obtain ⟨rfl, positive, -, -⟩ := usable
    obtain ⟨-, positive', -, -⟩ := usable'
    obtain ⟨readable, wrote⟩ := saves
    obtain ⟨raw, old, found, -, -, outside⟩ := written_found loaded.sized.1 wrote
    intro readable' slab raw' found'
    have apart := (tables.separate loaded found' found other ⟨positive', positive⟩).apart
    have same : sbi.inodeTable.inodeSize = sbi.inodeSize := rfl
    have sized := loaded.sized.1
    rw [ext2Iget_congr found' fun k low high => outside k (by omega)]
    exact shows readable' slab raw' found'
  refused refuses := by
    obtain ⟨readable, refused⟩ := refuses
    exact refused_unchanged refused

/-- A byte of the device that is in no inode table. -/
def OutsideTables (sbi : SbInfo) (k : Nat) : Prop :=
  ∀ g < sbi.groupsCount, k < sbi.descField g bgInodeTable * sbi.blocksize ∨
    (sbi.descField g bgInodeTable + sbi.itbPerGroup) * sbi.blocksize ≤ k

theorem OutsideTables.slot {dev : Device} {options : List MountToken} (loaded : Loaded dev options sbi) (tables : WholeTables sbi)
    {k : Nat} (outside : OutsideTables sbi k) (found : ext2GetInode sbi.inodeTable readable ino = .ok raw) :
    k < raw ∨ raw + sbi.inodeSize ≤ k := by
  obtain ⟨-, inside, place⟩ := getInode_place loaded.accepted found
  have table := (inTable_iff (g := slotGroup sbi.inodesPerGroup ino) loaded.inodesFit).mpr (tables.index loaded ino)
  rw [← place] at table
  obtain ⟨row, within, low, high⟩ := table
  rcases outside _ inside with before | behind
  · have start := Nat.mul_le_mul_right sbi.blocksize (Nat.le_add_right (sbi.descField (slotGroup sbi.inodesPerGroup ino) bgInodeTable) row)
    omega
  · have stop : (sbi.descField (slotGroup sbi.inodesPerGroup ino) bgInodeTable + row + 1) * sbi.blocksize ≤
        (sbi.descField (slotGroup sbi.inodesPerGroup ino) bgInodeTable + sbi.itbPerGroup) * sbi.blocksize :=
      Nat.mul_le_mul_right _ (by omega)
    omega

theorem step_outside {dev : Device} {options : List MountToken} (loaded : Loaded dev options sbi) (tables : WholeTables sbi) {k : Nat}
    (outside : OutsideTables sbi k) {s t : Cache Image Nat VfsInode} {e : WriteBack.Event Nat VfsInode}
    (step : WriteBack.Step (inodeDisk sbi.inodeTable) s e t) : t.disk k = s.disk k := by
  cases step with
  | save held dirty saves =>
    obtain ⟨readable, wrote⟩ := saves
    obtain ⟨raw, old, found, -, -, kept⟩ := written_found loaded.sized.1 wrote
    exact kept k (outside.slot loaded tables found)
  | refuse held refuses =>
    obtain ⟨readable, refused⟩ := refuses
    rw [(refused_unchanged refused).1]
  | load | set | drop => rfl

/-- Whatever is loaded, set, written back, refused by an unreadable table and let go of: an inode in memory is the one that was
set last, or that one as it came back from the disk; once it has been written, every load that can read its slot gives it back;
and no byte outside of the inode tables changes. -/
theorem inode_table_run {dev : Device} {options : List MountToken} (loaded : Loaded dev options sbi) (tables : WholeTables sbi)
    {events : List (WriteBack.Event Nat VfsInode)} {s t : Cache Image Nat VfsInode} (clean : ∀ ino, s.dirty ino = false)
    (run : Steps (WriteBack.Step (inodeDisk sbi.inodeTable)) s events t) :
    (∀ ino inode, events.foldl note (fun _ => none) ino = some inode →
      (∀ held, t.held ino = some held → Reloaded inode held) ∧
        (t.dirty ino = false → ShowsInode sbi.inodeTable t.disk ino inode)) ∧
      ∀ k, OutsideTables sbi k → t.disk k = s.disk k := by
  have tracks := (tracks_start clean).run (inodes_faithful loaded tables) run
  refine ⟨fun ino inode last => ⟨fun held => tracks.held ino inode held last, tracks.clean ino inode last⟩, fun k outside => ?_⟩
  exact run.invariant (I := fun t => t.disk k = s.disk k)
    (fun _ _ _ same step => (step_outside loaded tables outside step).trans same) rfl

theorem wholePair_mounts :
    ∃ sbi, ext2FillSuper (groupPair 22) [] (fun _ => 0) = some (.ok sbi) ∧ WholeTables sbi ∧
      ext2GetInode sbi.inodeTable (fun _ => true) 12 = .ok 7552 := by
  obtain ⟨sbi, mounted, checked⟩ := @of_mountsWith (fun sbi => decide (sbi.checkDescriptors = true ∧
      sbi.groupsCount = 2 ∧ sbi.itbPerGroup = 2 ∧ sbi.descField 0 bgInodeTable = 6 ∧
      sbi.descField 1 bgInodeTable = 22 ∧ sbi.inodesPerBlock ∣ sbi.inodesPerGroup ∧
      ext2GetInode sbi.inodeTable (fun _ => true) 12 = .ok 7552))
    (ext2FillSuper (groupPair 22) [] fun _ => 0) (by decide +kernel)
  obtain ⟨descriptors, groups, itb, first, second, whole, found⟩ := of_decide_eq_true checked
  refine ⟨sbi, mounted, ⟨fun g inside => (metadata_in_group_iff descriptors (by omega) inside).mpr ?_, whole⟩, found⟩
  obtain rfl | rfl : g = 0 ∨ g = 1 := by omega
  · omega
  · omega

def pairDevice : VfsInode :=
  { sampleDevice with iIno := 12 }

/-- Inode 12 is set, written, let go of and loaded again. -/
theorem inode_table_run_pair :
    ∃ (sbi : SbInfo) (t : Cache Image Nat VfsInode), ext2FillSuper (groupPair 22) [] (fun _ => 0) = some (.ok sbi) ∧
      t.dirty 12 = false ∧
      ShowsInode sbi.inodeTable t.disk 12 pairDevice ∧
      (∀ held, t.held 12 = some held → Reloaded pairDevice held) ∧
      ∀ k, OutsideTables sbi k → t.disk k = (groupPair 22).bytes k := by
  obtain ⟨sbi, mounted, tables, found⟩ := wholePair_mounts
  have loaded := fillSuper_loaded mounted
  have fits : Fits pairDevice :=
    ⟨by decide, by decide, by decide, by decide, by decide, by decide, by decide, by decide, by decide, by decide⟩
  obtain ⟨img', inode', saves⟩ := @found_writes _ _ _ pairDevice (groupPair 22).bytes found
  obtain ⟨raw, old, found', -, image, -⟩ := written_found loaded.sized.1 saves
  obtain ⟨inode, loads, -⟩ := ext2Iget_written found' fits rfl old (fun _ => 0)
  rw [← image] at loads
  let start : Cache Image Nat VfsInode := ⟨(groupPair 22).bytes, fun _ => none, fun _ => false⟩
  have run := Steps.cons (WriteBack.Step.set (d := inodeDisk sbi.inodeTable) (s := start) (k := 12)
      ⟨rfl, by decide, rfl, fits⟩) <|
    .cons (.save (k := 12) rfl rfl ⟨_, saves⟩) <|
    .cons (.drop (k := 12) rfl) <|
    .cons (.load (k := 12) rfl ⟨_, _, loads⟩) <| .nil _
  obtain ⟨inodes, outside⟩ := inode_table_run loaded tables (fun _ => rfl) run
  obtain ⟨held, clean⟩ := inodes 12 _ rfl
  exact ⟨sbi, _, mounted, rfl, clean rfl, held, outside⟩

end OsLab.Ext2
