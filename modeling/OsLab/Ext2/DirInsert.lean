import OsLab.Ext2.DirEdits

/-!
# New entries

`ext2_add_link` puts the new entry into a free slot, behind the name of a live one, or into a
chunk of its own at `i_size`. `ext2_make_empty` writes the first chunk of a directory.
-/

namespace OsLab.Ext2
open Bytes Records

variable {v : DirVolume} {dir dir' : Dir} {data : Image} {cache : PageCache} {s : Slot}
variable {slots as bs : List Slot} {de recLen iNo : Nat} {name : List UInt8}

/-! ### Writing an entry -/

/-- The writes of `ext2_add_link` behind `rec_len`. -/
def putEntry (data : Image) (de : Nat) (name : List UInt8) (iNo : Nat) : Image :=
  store (store (write (store data (de + 6) 1 name.length) (de + 8) name) de 4 iNo) (de + 7) 1 0

theorem putEntry_slot (recLenAt : load data (de + 4) 2 = recLen) (short : name.length < 256) (word : iNo < 2 ^ 32) :
    slotAt (putEntry data de name iNo) de = ⟨de, recLen, iNo, name⟩ := by
  unfold putEntry
  apply slotAt_mk
  · rw [load_store_disjoint (by omega), load_store_self (by omega)]
  · rw [load_store_disjoint (by omega), load_store_disjoint (by omega), load_write_disjoint (by omega),
      load_store_disjoint (by omega), recLenAt]
  · rw [load_store_disjoint (by omega), load_store_disjoint (by omega), load_write_disjoint (by omega),
      load_store_self (by omega)]
  · rw [read_store_disjoint (by omega), read_store_disjoint (by omega), read_write_self]

theorem putEntry_outside {k : Nat} (outside : k < de ∨ de + 8 + name.length ≤ k) :
    putEntry data de name iNo k = data k := by
  unfold putEntry
  rw [store_outside (by omega), store_outside (by omega), write_outside (by omega), store_outside (by omega)]

/-- A free slot that takes an entry. -/
theorem addGotIt_free {got : GotIt} (free : deInode got.data got.de = 0)
    (prepared : ext2PrepareChunk v cache got.de got.recLen = 0) :
    addGotIt v cache dir name iNo got =
      ext2CommitChunk cache got.de got.recLen { dir with data := putEntry got.data got.de name iNo } := by
  simp only [addGotIt, prepared, free, ne_eq, not_true_eq_false, if_false]
  rfl

theorem addGotIt_split {got : GotIt} (live : deInode got.data got.de ≠ 0)
    (prepared : ext2PrepareChunk v cache got.de got.recLen = 0) :
    addGotIt v cache dir name iNo got =
      ext2CommitChunk cache got.de got.recLen { dir with
        data := putEntry (store (store got.data (got.de + got.nameLen + 4) 2 (got.recLen - got.nameLen)) (got.de + 4) 2
          got.nameLen) (got.de + got.nameLen) name iNo } := by
  simp only [addGotIt, prepared, live, ne_eq, not_true_eq_false, not_false_eq_true, if_false, if_true]
  rfl

/-! ### `ext2_add_link` -/

/-- What `ext2_add_link` of a new name does. -/
inductive Added (v : DirVolume) (cache : PageCache) (dir : Dir) (name : List UInt8) (iNo : Nat) : Int → Dir → Prop
  | linked {dir' : Dir} (off : Nat) : WellFormed v dir' → Committed dir dir' →
      dir'.iSize = (if (entries dir).any (Slot.fits (ext2DirRecLen name.length)) then dir.iSize
        else dir.iSize + ext2ChunkSize v) →
      ((entries dir).any (Slot.fits (ext2DirRecLen name.length)) = false →
        off = dir.iSize ∧ ext2PrepareChunk v cache dir.iSize (ext2ChunkSize v) = 0) →
      (links (entries dir')).Perm (⟨off, iNo, name⟩ :: links (entries dir)) →
      Added v cache dir name iNo (commitErr cache dir) dir'
  | refused {dir' : Dir} : (entries dir).any (Slot.fits (ext2DirRecLen name.length)) = false →
      ext2PrepareChunk v cache dir.iSize (ext2ChunkSize v) ≠ 0 → WellFormed v dir' →
      dir' = { dir with data := dir'.data } → entries dir' = entries dir →
      Added v cache dir name iNo (ext2PrepareChunk v cache dir.iSize (ext2ChunkSize v)) dir'

theorem fits_any {reclen : Nat} (member : s ∈ entries dir) (fits : s.fits reclen = true) :
    (entries dir).any (Slot.fits reclen) = true := List.any_eq_true.mpr ⟨s, member, fits⟩

theorem added_free (wf : WellFormed v dir) (member : s ∈ entries dir) (prepared : ext2PrepareChunk v cache s.off s.recLen = 0) (free : s.inode = 0)
    (fits : s.fits (ext2DirRecLen name.length) = true) (short : name.length ≤ 255) (nonzero : iNo ≠ 0)
    (inumber : iNo ≤ v.inodesCount) :
    ∃ err dir', addGotIt v cache dir name iNo ⟨dir.data, s.off, s.used, s.recLen⟩ = (err, dir') ∧
      Added v cache dir name iNo err dir' := by
  obtain ⟨as, bs, split, before, after⟩ := wf.around member
  obtain ⟨inode, recLen, -, -⟩ := slot_loads (entries_shown dir s member)
  have ok := wf.slots s member
  have room := fits_room fits
  have need := (@ext2DirRecLen_bounds name.length (by omega)).1
  have high := (wf.tiled.mem member).2
  have word := v.word
  have unused : deInode dir.data s.off = 0 := inode.trans free
  have shown : slotAt (putEntry dir.data s.off name iNo) s.off = ⟨s.off, s.recLen, iNo, name⟩ :=
    putEntry_slot recLen (by omega) (by omega)
  have edited := @WellFormed.replace v dir
    { dir with iVersion := dir.iVersion + 1, data := putEntry dir.data s.off name iNo } as
    [⟨s.off, s.recLen, iNo, name⟩] bs _ _ wf [s] split before after ⟨rfl, by show 0 < s.recLen; omega, rfl⟩ rfl
    (fun k outside => putEntry_outside (by omega)) (List.forall_mem_singleton.mpr shown)
    (List.forall_mem_singleton.mpr ⟨ok.align, ok.short, room, ok.chunk, inumber⟩)
  have committed : addGotIt v cache dir name iNo ⟨dir.data, s.off, s.used, s.recLen⟩ = (commitErr cache dir,
      { dir with iVersion := dir.iVersion + 1, data := putEntry dir.data s.off name iNo }) :=
    (addGotIt_free unused prepared).trans (commitChunk_inside high)
  refine ⟨_, _, committed, .linked s.off edited.1 ⟨rfl, rfl, rfl⟩ (if_pos (fits_any member fits)).symm
    (fun none => absurd (fits_any member fits) (by simp [none])) ?_⟩
  have gone : links [s] = [] := links_free free
  have here : links [⟨s.off, s.recLen, iNo, name⟩] = [⟨s.off, iNo, name⟩] := links_live nonzero
  rw [edited.2, split]
  simp only [links_append, gone, here, List.nil_append]
  exact List.perm_middle

/-- Both parts of an entry that is cut behind its name are entries. -/
theorem split_ok (ok : SlotOk v s) (named : s.name ≠ []) (shortS : s.name.length < 256) (long : 1 ≤ name.length)
    (short : name.length ≤ 255) (room : s.used + ext2DirRecLen name.length ≤ s.recLen) (inumber : iNo ≤ v.inodesCount) :
    SlotOk v { s with recLen := s.used } ∧ SlotOk v ⟨s.off + s.used, s.recLen - s.used, iNo, name⟩ := by
  obtain ⟨need, -, aligned⟩ := @ext2DirRecLen_bounds name.length (by omega)
  obtain ⟨needS, -, alignedS⟩ := @ext2DirRecLen_bounds s.name.length (by omega)
  have usedS : s.used = ext2DirRecLen s.name.length := rfl
  have leastS : 12 ≤ s.used := by
    have pos := List.length_pos_iff.mpr named
    omega
  have chunk := ok.chunk
  have within : ∀ x, s.off ≤ x → x ≤ s.off + s.recLen - 1 → x / ext2ChunkSize v = s.off / ext2ChunkSize v := fun x low top =>
    Nat.le_antisymm ((Nat.div_le_div_right top).trans chunk.ge) (Nat.div_le_div_right low)
  constructor
  · exact ⟨alignedS, ext2DirRecLen_one.trans_le leastS, Nat.le_refl _,
      (within (s.off + s.used - 1) (by omega) (by omega)).symm, ok.inumber⟩
  · refine ⟨?_, ?_, ?_, ?_, inumber⟩
    · have align := ok.align
      show (s.recLen - s.used) % 4 = 0
      omega
    · rw [ext2DirRecLen_one]
      show 12 ≤ s.recLen - s.used
      omega
    · show ext2DirRecLen name.length ≤ s.recLen - s.used
      omega
    · show (s.off + s.used) / ext2ChunkSize v = (s.off + s.used + (s.recLen - s.used) - 1) / ext2ChunkSize v
      rw [within (s.off + s.used) (by omega) (by omega),
        within (s.off + s.used + (s.recLen - s.used) - 1) (by omega) (by omega)]

theorem chunk_ok {x : Nat} (start : ext2ChunkSize v ∣ x) (short : name.length ≤ 255) (inumber : iNo ≤ v.inodesCount) :
    SlotOk v ⟨x, ext2ChunkSize v, iNo, name⟩ := by
  obtain ⟨-, most, -⟩ := @ext2DirRecLen_bounds name.length (by omega)
  have size := chunkSize_cases v
  obtain ⟨n, whole⟩ := start
  have pos : 0 < ext2ChunkSize v := by omega
  have fits : ext2DirRecLen name.length ≤ ext2ChunkSize v := by omega
  refine ⟨?_, ?_, fits, ?_, inumber⟩
  · show ext2ChunkSize v % 4 = 0
    omega
  · rw [ext2DirRecLen_one]
    show 12 ≤ ext2ChunkSize v
    omega
  · show x / ext2ChunkSize v = (x + ext2ChunkSize v - 1) / ext2ChunkSize v
    have last : x + ext2ChunkSize v - 1 = ext2ChunkSize v - 1 + ext2ChunkSize v * n := by omega
    rw [last, whole, Nat.add_mul_div_left _ _ pos, Nat.mul_div_cancel_left n pos, Nat.div_eq_of_lt (by omega)]
    omega

theorem added_split (wf : WellFormed v dir) (member : s ∈ entries dir)
    (prepared : ext2PrepareChunk v cache s.off s.recLen = 0) (live : s.inode ≠ 0)
    (fits : s.fits (ext2DirRecLen name.length) = true) (long : 1 ≤ name.length) (short : name.length ≤ 255)
    (named : s.name ≠ []) (nonzero : iNo ≠ 0) (inumber : iNo ≤ v.inodesCount) :
    ∃ err dir', addGotIt v cache dir name iNo ⟨dir.data, s.off, s.used, s.recLen⟩ = (err, dir') ∧
      Added v cache dir name iNo err dir' := by
  obtain ⟨as, bs, split, before, after⟩ := wf.around member
  obtain ⟨inode, recLen, nameLen, nameAt⟩ := slot_loads (entries_shown dir s member)
  have ok := wf.slots s member
  have lengthS := name_short (entries_shown dir s member)
  have room : s.used + ext2DirRecLen name.length ≤ s.recLen := by
    unfold Slot.fits at fits
    simpa [live] using fits
  obtain ⟨need, -, aligned⟩ := @ext2DirRecLen_bounds name.length (by omega)
  obtain ⟨needS, -, alignedS⟩ := @ext2DirRecLen_bounds s.name.length (by omega)
  have usedS : s.used = ext2DirRecLen s.name.length := rfl
  have leastS : 12 ≤ s.used := by
    have pos := List.length_pos_iff.mpr named
    omega
  have least : 12 ≤ ext2DirRecLen name.length := by omega
  have high := (wf.tiled.mem member).2
  have word := v.word
  have wide : s.recLen < 2 ^ 16 := recLen ▸ load_lt
  have used : deInode dir.data s.off ≠ 0 := fun zero => live (inode.symm.trans zero)
  obtain ⟨data, cut⟩ : ∃ data, store (store dir.data (s.off + s.used + 4) 2 (s.recLen - s.used)) (s.off + 4) 2 s.used = data :=
    ⟨_, rfl⟩
  have cutAt : load data (s.off + s.used + 4) 2 = s.recLen - s.used := by
    rw [← cut, load_store_disjoint (by omega), load_store_self (by omega)]
  have front : slotAt (putEntry data (s.off + s.used) name iNo) s.off = { s with recLen := s.used } := by
    have kept : slotAt data s.off = { s with recLen := s.used } := by
      subst cut
      apply slotAt_mk
      · rw [load_store_disjoint (by omega), load_store_disjoint (by omega), inode]
      · exact load_store_self (by omega)
      · rw [load_store_disjoint (by omega), load_store_disjoint (by omega), nameLen]
      · rw [read_store_disjoint (by omega), read_store_disjoint (by omega), nameAt]
    have length : deNameLen data s.off = s.name.length := by rw [← slotAt_name_length, kept]
    rw [← kept]
    exact slotAt_congr fun k _ inside => (putEntry_outside (by omega)).symm
  have back : slotAt (putEntry data (s.off + s.used) name iNo) (s.off + s.used) =
      ⟨s.off + s.used, s.recLen - s.used, iNo, name⟩ := putEntry_slot cutAt (by omega) (by omega)
  obtain ⟨okFront, okBack⟩ := split_ok ok named lengthS long short room inumber
  have edited := @WellFormed.replace v dir
    { dir with iVersion := dir.iVersion + 1, data := putEntry data (s.off + s.used) name iNo } as
    [{ s with recLen := s.used }, ⟨s.off + s.used, s.recLen - s.used, iNo, name⟩] bs _ _ wf [s] split before after
    ⟨rfl, by show 0 < s.used; omega, rfl, by show 0 < s.recLen - s.used; omega,
      by show s.off + s.used + (s.recLen - s.used) = s.off + s.recLen; omega⟩ rfl
    (fun k outside => by
      show putEntry data (s.off + s.used) name iNo k = dir.data k
      rw [putEntry_outside (by omega), ← cut, store_outside (by omega), store_outside (by omega)])
    (by
      intro r memberR
      rcases List.mem_cons.mp memberR with rfl | last
      · exact front
      · rw [List.mem_singleton.mp last]
        exact back)
    (by
      intro r memberR
      rcases List.mem_cons.mp memberR with rfl | last
      · exact okFront
      · rw [List.mem_singleton.mp last]
        exact okBack)
  have committed : addGotIt v cache dir name iNo ⟨dir.data, s.off, s.used, s.recLen⟩ = (commitErr cache dir,
      { dir with iVersion := dir.iVersion + 1, data := putEntry data (s.off + s.used) name iNo }) := by
    rw [← cut]
    exact (addGotIt_split used prepared).trans (commitChunk_inside high)
  refine ⟨_, _, committed, .linked (s.off + s.used) edited.1 ⟨rfl, rfl, rfl⟩ (if_pos (fits_any member fits)).symm
    (fun none => absurd (fits_any member fits) (by simp [none])) ?_⟩
  have both : links [{ s with recLen := s.used }, ⟨s.off + s.used, s.recLen - s.used, iNo, name⟩] =
      [s.link, ⟨s.off + s.used, iNo, name⟩] := by simp [links, live, nonzero, Slot.link]
  have here : links [s] = [s.link] := links_live live
  rw [edited.2, split]
  simp only [links_append, both, here]
  have middle := @List.perm_middle _ ⟨s.off + s.used, iNo, name⟩ (links as ++ [s.link]) (links bs)
  simpa using middle

theorem gotSize_outside {k : Nat} (outside : k < dir.iSize) : (gotSize v dir).data k = dir.data k :=
  (store_outside (by omega)).trans (store_outside (by omega))

theorem WellFormed.inside (wf : WellFormed v dir) (data : Image) (frame : ∀ k, k < dir.iSize → data k = dir.data k) :
    WellFormed v { dir with data := data } ∧ entries { dir with data := data } = entries dir := by
  refine wellFormed_of_tiled wf.size wf.blocks wf.tiled ?_ wf.slots
  exact shown_frame (entries_shown dir) wf.slots fun s member k _ high => frame k (by have stop := (wf.tiled.mem member).2; omega)

theorem added_grown (wf : WellFormed v dir) (none : (entries dir).any (Slot.fits (ext2DirRecLen name.length)) = false)
    (long : 1 ≤ name.length) (short : name.length ≤ 255) (nonzero : iNo ≠ 0) (inumber : iNo ≤ v.inodesCount) :
    ∃ err dir', addGotIt v cache dir name iNo (gotSize v dir) = (err, dir') ∧ Added v cache dir name iNo err dir' := by
  by_cases prepared : ext2PrepareChunk v cache dir.iSize (ext2ChunkSize v) = 0
  · obtain ⟨need, most, aligned⟩ := @ext2DirRecLen_bounds name.length (by omega)
    have word := v.word
    have size := chunkSize_cases v
    have blocks : dir.iSize + ext2ChunkSize v ≤ ndirBlocks * ext2ChunkSize v := by
      by_contra beyond
      rw [ext2PrepareChunk, if_pos (by omega)] at prepared
      cases prepared
    have recLenAt : load (gotSize v dir).data (dir.iSize + 4) 2 = ext2ChunkSize v := by
      unfold gotSize
      rw [load_store_disjoint (by omega), load_store_self (by omega)]
    have unused : deInode (gotSize v dir).data dir.iSize = 0 := load_store_self (by decide)
    have shown : slotAt (putEntry (gotSize v dir).data dir.iSize name iNo) dir.iSize =
        ⟨dir.iSize, ext2ChunkSize v, iNo, name⟩ := putEntry_slot recLenAt (by omega) (by omega)
    have committed : addGotIt v cache dir name iNo (gotSize v dir) = (commitErr cache dir,
        { dir with
          iSize := dir.iSize + ext2ChunkSize v
          iVersion := dir.iVersion + 1
          data := putEntry (gotSize v dir).data dir.iSize name iNo }) := by
      refine (addGotIt_free unused prepared).trans ?_
      have grows : dir.iSize < dir.iSize + ext2ChunkSize v := by omega
      simp only [ext2CommitChunk, commitErr, gotSize, grows, if_true]
    have last : Tiled dir.iSize [⟨dir.iSize, ext2ChunkSize v, iNo, name⟩] (dir.iSize + ext2ChunkSize v) :=
      ⟨rfl, by show 0 < ext2ChunkSize v; omega, rfl⟩
    have tiled : Tiled 0 (entries dir ++ [⟨dir.iSize, ext2ChunkSize v, iNo, name⟩]) (dir.iSize + ext2ChunkSize v) :=
      laid_append.mpr ⟨dir.iSize, wf.tiled, last⟩
    have edited := @wellFormed_of_tiled v { dir with
        iSize := dir.iSize + ext2ChunkSize v
        iVersion := dir.iVersion + 1
        data := putEntry (gotSize v dir).data dir.iSize name iNo }
      (entries dir ++ [⟨dir.iSize, ext2ChunkSize v, iNo, name⟩]) (Nat.dvd_add_self_right.mpr wf.size) blocks
      tiled
      (by
        intro r member
        rcases List.mem_append.mp member with old | new
        · refine shown_frame (entries_shown dir) wf.slots (fun r memberR k _ high => ?_) r old
          have stop := (wf.tiled.mem memberR).2
          exact (putEntry_outside (by omega)).trans (gotSize_outside (by omega))
        · rw [List.mem_singleton.mp new]
          exact shown)
      (by
        intro r member
        rcases List.mem_append.mp member with old | new
        · exact wf.slots r old
        · rw [List.mem_singleton.mp new]
          exact chunk_ok wf.size short inumber)
    refine ⟨_, _, committed, .linked dir.iSize edited.1 ⟨rfl, rfl, rfl⟩ ?_ (fun _ => ⟨rfl, prepared⟩) ?_⟩
    · rw [none]
      rfl
    · have here : links [⟨dir.iSize, ext2ChunkSize v, iNo, name⟩] = [⟨dir.iSize, iNo, name⟩] := links_live nonzero
      rw [edited.2, links_append, here]
      exact List.perm_append_singleton _ _
  · obtain ⟨kept, same⟩ := wf.inside (gotSize v dir).data fun k inside => gotSize_outside inside
    have refused : addGotIt v cache dir name iNo (gotSize v dir) =
        (ext2PrepareChunk v cache dir.iSize (ext2ChunkSize v), { dir with data := (gotSize v dir).data }) := by
      have failed : ext2PrepareChunk v cache (gotSize v dir).de (gotSize v dir).recLen ≠ 0 := prepared
      simp only [addGotIt, failed, ne_eq, not_false_eq_true, if_true]
      rfl
    exact ⟨_, _, refused, .refused none prepared kept rfl same⟩

theorem addGotIt_refused (failed : ext2PrepareChunk v cache de recLen ≠ 0) (nameLen : Nat) :
    addGotIt v cache dir name iNo ⟨dir.data, de, nameLen, recLen⟩ = (ext2PrepareChunk v cache de recLen, dir) := by
  simp only [addGotIt, failed, ne_eq, not_false_eq_true, if_true]

/-- `ext2_add_link` of a new name never comes to `BUG()`. -/
theorem addLink_result (wf : WellFormed v dir) (reads : cache.Reads)
    (named : ∀ s, s ∈ entries dir → s.inode ≠ 0 → s.name ≠ []) (fresh : ∀ s, s ∈ entries dir → s.names name = false)
    (long : 1 ≤ name.length) (short : name.length ≤ 255) (nonzero : iNo ≠ 0) (inumber : iNo ≤ v.inodesCount) :
    ∃ err dir', ext2AddLink v cache dir name iNo = some (err, dir') ∧ (Added v cache dir name iNo err dir' ∨
      ∃ s, s ∈ entries dir ∧ ext2PrepareChunk v cache s.off s.recLen = err ∧ err ≠ 0 ∧ dir' = dir) := by
  rw [addLink_eq wf reads short]
  cases found : (entries dir).find? fun s => s.names name || s.fits (ext2DirRecLen name.length) with
  | none =>
    have none : (entries dir).any (Slot.fits (ext2DirRecLen name.length)) = false := by
      apply List.any_eq_false.mpr
      intro s member fits
      have neither := List.find?_eq_none.mp found s member
      simp [fits] at neither
    obtain ⟨err, dir', added, result⟩ := @added_grown v dir cache iNo name wf none long short nonzero inumber
    exact ⟨err, dir', congrArg some added, Or.inl result⟩
  | some s =>
    have member := List.mem_of_find?_eq_some found
    have other := fresh s member
    have fits : s.fits (ext2DirRecLen name.length) = true := by
      have either := List.find?_some found
      simpa [other] using either
    simp only [other, Bool.false_eq_true, if_false]
    by_cases prepared : ext2PrepareChunk v cache s.off s.recLen = 0
    · by_cases free : s.inode = 0
      · obtain ⟨err, dir', added, result⟩ := added_free wf member prepared free fits short nonzero inumber
        exact ⟨err, dir', congrArg some added, Or.inl result⟩
      · obtain ⟨err, dir', added, result⟩ :=
          added_split wf member prepared free fits long short (named s member free) nonzero inumber
        exact ⟨err, dir', congrArg some added, Or.inl result⟩
    · exact ⟨_, _, congrArg some (addGotIt_refused prepared s.used), Or.inr ⟨s, member, rfl, prepared, rfl⟩⟩

theorem addLink_links (wf : WellFormed v dir) (reads : cache.Reads) (maps : cache.Maps dir)
    (named : ∀ s, s ∈ entries dir → s.inode ≠ 0 → s.name ≠ []) (fresh : ∀ s, s ∈ entries dir → s.names name = false)
    (long : 1 ≤ name.length) (short : name.length ≤ 255) (nonzero : iNo ≠ 0) (inumber : iNo ≤ v.inodesCount) :
    ∃ err dir', ext2AddLink v cache dir name iNo = some (err, dir') ∧ Added v cache dir name iNo err dir' := by
  obtain ⟨err, dir', called, added | ⟨s, member, prepared, failed, -⟩⟩ :=
    addLink_result wf reads named fresh long short nonzero inumber
  · exact ⟨err, dir', called, added⟩
  · rw [← prepared] at failed
    exact absurd (prepareChunk_inside wf maps (wf.tiled.mem member).2) failed

/-! ### `ext2_make_empty` -/

theorem makeEmpty_links {parent : Nat} (empty : dir.iSize = 0) (page : cache.grabCachePage = true)
    (block : cache.getBlocks 0 (ext2ChunkSize v) = 0) (self : dir.iNo ≤ v.inodesCount) (above : parent ≤ v.inodesCount) :
    ∃ dir', ext2MakeEmpty v cache dir parent = (commitErr cache dir, dir') ∧ WellFormed v dir' ∧ Committed dir dir' ∧
      dir'.iSize = ext2ChunkSize v ∧
      entries dir' = [⟨0, 12, dir.iNo, [46]⟩, ⟨12, ext2ChunkSize v - 12, parent, [46, 46]⟩] := by
  have word := v.word
  have size := chunkSize_cases v
  have prepared : ext2PrepareChunk v cache 0 (ext2ChunkSize v) = 0 := by
    have blocks : ¬ ndirBlocks * ext2ChunkSize v < 0 + ext2ChunkSize v := by
      unfold ndirBlocks
      omega
    rw [ext2PrepareChunk, if_neg blocks, block]
  obtain ⟨zeros, cleared⟩ : ∃ zeros, Bytes.write dir.data 0 (List.replicate (ext2ChunkSize v) 0) = zeros := ⟨_, rfl⟩
  obtain ⟨dot, first⟩ : ∃ dot, store (store (write (store (store zeros 6 1 1) 4 2 12) 8 [46, 0, 0, 0]) 0 4 dir.iNo) 7 1 0 = dot :=
    ⟨_, rfl⟩
  obtain ⟨data, second⟩ : ∃ data, store (write (store (store (store dot (12 + 6) 1 2) (12 + 4) 2 (ext2ChunkSize v - 12)) 12 4
      parent) (12 + 8) [46, 46, 0, 0]) (12 + 7) 1 0 = data := ⟨_, rfl⟩
  have dotAt : slotAt dot 0 = ⟨0, 12, dir.iNo, [46]⟩ := by
    subst first
    apply slotAt_mk
    · rw [load_store_disjoint (by decide), load_store_self (by omega)]
    · rw [load_store_disjoint (by decide), load_store_disjoint (by decide), load_write_disjoint (by decide),
        load_store_self (by decide)]
    · rw [load_store_disjoint (by decide), load_store_disjoint (by decide), load_write_disjoint (by decide),
        load_store_disjoint (by decide), load_store_self (by decide)]
      rfl
    · rw [read_store_disjoint (by decide), read_store_disjoint (by decide), read_write_take (by decide)]
      rfl
  have dotdotAt : slotAt data 12 = ⟨12, ext2ChunkSize v - 12, parent, [46, 46]⟩ := by
    subst second
    apply slotAt_mk
    · rw [load_store_disjoint (by decide), load_write_disjoint (by decide), load_store_self (by omega)]
    · rw [load_store_disjoint (by decide), load_write_disjoint (by decide), load_store_disjoint (by decide),
        load_store_self (by omega)]
    · rw [load_store_disjoint (by decide), load_write_disjoint (by decide), load_store_disjoint (by decide),
        load_store_disjoint (by decide), load_store_self (by decide)]
      rfl
    · rw [read_store_disjoint (by decide), read_write_take (by decide)]
      rfl
  have kept : slotAt data 0 = ⟨0, 12, dir.iNo, [46]⟩ := by
    have length : deNameLen dot 0 = 1 := by rw [← slotAt_name_length, dotAt]; rfl
    rw [← dotAt]
    refine slotAt_congr fun k _ inside => ?_
    rw [length] at inside
    rw [← second, store_outside (by omega), write_outside (by omega), store_outside (by omega), store_outside (by omega),
      store_outside (by omega)]
  have made : ext2MakeEmpty v cache dir parent =
      (commitErr cache dir, { dir with iSize := ext2ChunkSize v, iVersion := dir.iVersion + 1, data := data }) := by
    have grows : 0 < ext2ChunkSize v := by omega
    subst second first cleared
    simp only [ext2MakeEmpty, page, prepared, ext2DirRecLen_one, ext2CommitChunk, commitErr, empty, Nat.zero_add, grows,
      Bool.not_true, Bool.false_eq_true, ne_eq, not_true_eq_false, if_false, if_true]
  have tiled : Tiled 0 [⟨0, 12, dir.iNo, [46]⟩, ⟨12, ext2ChunkSize v - 12, parent, [46, 46]⟩] (ext2ChunkSize v) :=
    ⟨rfl, by show 0 < 12; omega, rfl, by show 0 < ext2ChunkSize v - 12; omega,
      by show 12 + (ext2ChunkSize v - 12) = ext2ChunkSize v; omega⟩
  have whole := @wellFormed_of_tiled v { dir with iSize := ext2ChunkSize v, iVersion := dir.iVersion + 1, data := data }
    [⟨0, 12, dir.iNo, [46]⟩, ⟨12, ext2ChunkSize v - 12, parent, [46, 46]⟩] (Nat.dvd_refl _)
    (by show ext2ChunkSize v ≤ ndirBlocks * ext2ChunkSize v; unfold ndirBlocks; omega) tiled
    (by
      intro s member
      rcases List.mem_cons.mp member with rfl | last
      · exact kept
      · rw [List.mem_singleton.mp last]
        exact dotdotAt)
    (by
      have below : ∀ x, x < ext2ChunkSize v → x / ext2ChunkSize v = 0 := fun x small => Nat.div_eq_of_lt small
      have two : ext2DirRecLen 2 = 12 := ext2DirRecLen_eq (by decide)
      intro s member
      rcases List.mem_cons.mp member with rfl | last
      · refine ⟨(show 12 % 4 = 0 by decide), ext2DirRecLen_one.le, ext2DirRecLen_one.le, ?_, self⟩
        show 0 / ext2ChunkSize v = (0 + 12 - 1) / ext2ChunkSize v
        rw [below 0 (by omega), below (0 + 12 - 1) (by omega)]
      · rw [List.mem_singleton.mp last]
        refine ⟨?_, ?_, ?_, ?_, above⟩
        · show (ext2ChunkSize v - 12) % 4 = 0
          omega
        · rw [ext2DirRecLen_one]
          show 12 ≤ ext2ChunkSize v - 12
          omega
        · refine two.trans_le ?_
          show 12 ≤ ext2ChunkSize v - 12
          omega
        · show 12 / ext2ChunkSize v = (12 + (ext2ChunkSize v - 12) - 1) / ext2ChunkSize v
          rw [below 12 (by omega), below (12 + (ext2ChunkSize v - 12) - 1) (by omega)])
  exact ⟨_, made, whole.1, ⟨rfl, rfl, rfl⟩, rfl, whole.2⟩

end OsLab.Ext2
