import OsLab.Ext2.DirLookup

/-!
# Changes to a directory

What `ext2_set_link`, `ext2_delete_entry`, `ext2_add_link` and `ext2_make_empty` do to a
well-formed directory: it stays well formed, and its live entries change by the one the call
is about. An entry never moves.
-/

namespace OsLab.Ext2
open Bytes Records

/-- A live entry, without the length of its slot. -/
structure Link where
  off : Nat
  inode : Nat
  name : List UInt8
  deriving DecidableEq, Repr

def Slot.link (s : Slot) : Link := ⟨s.off, s.inode, s.name⟩

def links (slots : List Slot) : List Link := (slots.filter fun s => s.inode ≠ 0).map Slot.link

variable {v : DirVolume} {dir dir' : Dir} {data data' : Image} {cache : PageCache} {s p : Slot}
variable {slots as mid bs : List Slot} {x y iNo : Nat} {name : List UInt8}

@[simp] theorem links_append : links (as ++ bs) = links as ++ links bs := by simp [links]

theorem links_live (live : s.inode ≠ 0) : links (s :: slots) = s.link :: links slots := by simp [links, live]

theorem links_free (free : s.inode = 0) : links (s :: slots) = links slots := by simp [links, free]

theorem links_recLen (s : Slot) (n : Nat) : links [{ s with recLen := n }] = links [s] := by
  by_cases free : s.inode = 0 <;> simp [links, free, Slot.link]

theorem mem_links {l : Link} : l ∈ links slots ↔ ∃ s, s ∈ slots ∧ s.inode ≠ 0 ∧ s.link = l := by
  simp [links, and_assoc]

/-! ### Replacing entries in place -/

theorem slotAt_mk {de recLen inode : Nat} (inodeAt : load data de 4 = inode) (recLenAt : load data (de + 4) 2 = recLen)
    (lengthAt : load data (de + 6) 1 = name.length) (nameAt : Bytes.read data (de + 8) name.length = name) :
    slotAt data de = ⟨de, recLen, inode, name⟩ := by
  rw [slotAt, deRecLen, deInode, deNameLen, deName, inodeAt, recLenAt, lengthAt, nameAt]

theorem slot_loads (shown : slotAt data s.off = s) :
    load data s.off 4 = s.inode ∧ load data (s.off + 4) 2 = s.recLen ∧ load data (s.off + 6) 1 = s.name.length ∧
      Bytes.read data (s.off + 8) s.name.length = s.name := by
  have length : deNameLen data s.off = s.name.length := by rw [← slotAt_name_length, shown]
  refine ⟨congrArg Slot.inode shown, congrArg Slot.recLen shown, length, ?_⟩
  rw [← length]
  exact congrArg Slot.name shown

/-- The bytes of an entry's header and name lie inside of its slot. -/
theorem SlotOk.inside (ok : SlotOk v s) (short : s.name.length < 256) : s.off + 8 + s.name.length ≤ s.off + s.recLen := by
  have bounds := (@ext2DirRecLen_bounds s.name.length (by omega)).1
  have room := ok.room
  omega

theorem name_short (shown : slotAt data s.off = s) : s.name.length < 256 := by
  rw [← shown, slotAt_name_length]
  exact deNameLen_lt _ _

theorem shown_frame (shown : Shown data slots) (ok : ∀ s, s ∈ slots → SlotOk v s)
    (frame : ∀ s, s ∈ slots → ∀ k, s.off ≤ k → k < s.off + s.recLen → data' k = data k) : Shown data' slots := by
  intro s member
  have here := shown s member
  refine Eq.trans (slotAt_congr fun k low high => ?_) here
  have inside := (ok s member).inside (name_short here)
  have length : deNameLen data s.off = s.name.length := by rw [← slotAt_name_length, here]
  exact (frame s member k low (by omega)).symm

theorem WellFormed.replace (wf : WellFormed v dir) {old : List Slot} (split : entries dir = as ++ (old ++ bs))
    (before : Tiled 0 as x) (after : Tiled y bs dir.iSize) (tiled : Tiled x mid y) (size : dir'.iSize = dir.iSize)
    (frame : ∀ k, k < x ∨ y ≤ k → dir'.data k = dir.data k) (shown : Shown dir'.data mid)
    (ok : ∀ s, s ∈ mid → SlotOk v s) : WellFormed v dir' ∧ entries dir' = as ++ (mid ++ bs) := by
  have front : ∀ s, s ∈ as → s ∈ entries dir := fun s member => split ▸ List.mem_append_left _ member
  have back : ∀ s, s ∈ bs → s ∈ entries dir := fun s member =>
    split ▸ List.mem_append_right _ (List.mem_append_right _ member)
  apply wellFormed_of_tiled
  · rw [size]
    exact wf.size
  · rw [size]
    exact wf.blocks
  · rw [size]
    exact laid_append.mpr ⟨x, before, laid_append.mpr ⟨y, tiled, after⟩⟩
  · intro s member
    rcases List.mem_append.mp member with first | rest
    · exact shown_frame (fun s member => entries_shown dir s (front s member)) (fun s member => wf.slots s (front s member))
        (fun s member k _ high => frame k (Or.inl (by have stop := (before.mem member).2; omega))) s first
    · rcases List.mem_append.mp rest with middle | last
      · exact shown s middle
      · exact shown_frame (fun s member => entries_shown dir s (back s member)) (fun s member => wf.slots s (back s member))
          (fun s member k low _ => frame k (Or.inr (by have start := (after.mem member).1; omega))) s last
  · intro s member
    rcases List.mem_append.mp member with first | rest
    · exact wf.slots s (front s first)
    · rcases List.mem_append.mp rest with middle | last
      · exact ok s middle
      · exact wf.slots s (back s last)

/-- An entry with what lies before and behind it. -/
theorem WellFormed.around (wf : WellFormed v dir) (member : s ∈ entries dir) :
    ∃ as bs, entries dir = as ++ ([s] ++ bs) ∧ Tiled 0 as s.off ∧ Tiled (s.off + s.recLen) bs dir.iSize := by
  obtain ⟨as, bs, split⟩ := List.append_of_mem member
  have tiled := wf.tiled
  rw [split] at tiled
  obtain ⟨m, before, here, -, after⟩ := laid_append.mp tiled
  exact ⟨as, bs, split, here ▸ before, here ▸ after⟩

/-! ### Committing -/

/-- What `ext2_commit_chunk` returns. -/
def commitErr (cache : PageCache) (dir : Dir) : Int :=
  if dir.isDirsync then (if cache.writeOnePage = 0 then cache.syncInodeMetadata else cache.writeOnePage) else 0

/-- The blocks up to `i_size` are there. -/
def PageCache.Maps (cache : PageCache) (dir : Dir) : Prop :=
  ∀ pos len, pos + len ≤ dir.iSize → cache.getBlocks pos len = 0

/-- What every commit to a directory does besides its bytes. -/
structure Committed (dir dir' : Dir) : Prop where
  iNo : dir'.iNo = dir.iNo
  isDirsync : dir'.isDirsync = dir.isDirsync
  iVersion : dir'.iVersion = dir.iVersion + 1

theorem prepareChunk_inside (wf : WellFormed v dir) (maps : cache.Maps dir) {pos len : Nat} (inside : pos + len ≤ dir.iSize) :
    ext2PrepareChunk v cache pos len = 0 := by
  have blocks := wf.blocks
  rw [ext2PrepareChunk, if_neg (by omega), maps pos len inside]

theorem commitChunk_inside {pos len : Nat} (inside : pos + len ≤ dir.iSize) :
    ext2CommitChunk cache pos len dir = (commitErr cache dir, { dir with iVersion := dir.iVersion + 1 }) := by
  have still : ¬ dir.iSize < pos + len := by omega
  simp only [ext2CommitChunk, commitErr, still, if_false]

/-! ### `ext2_set_link` -/

/-- The entry changes in its place. -/
theorem setLink_entries (wf : WellFormed v dir) (maps : cache.Maps dir) (split : entries dir = as ++ ([s] ++ bs))
    (inumber : iNo ≤ v.inodesCount) :
    ∃ dir', ext2SetLink v cache dir s.off iNo = some dir' ∧ WellFormed v dir' ∧ Committed dir dir' ∧ dir'.iSize = dir.iSize ∧
      entries dir' = as ++ ([{ s with inode := iNo }] ++ bs) := by
  have member : s ∈ entries dir := split ▸ List.mem_append_right as List.mem_cons_self
  have tiled := wf.tiled
  rw [split] at tiled
  obtain ⟨m, before, here, -, after⟩ := laid_append.mp tiled
  subst here
  obtain ⟨-, recLen, nameLen, name⟩ := slot_loads (entries_shown dir s member)
  have ok := wf.slots s member
  have inside := ok.inside (name_short (entries_shown dir s member))
  have high := (wf.tiled.mem member).2
  have word := v.word
  have pos := ok.pos
  have len : deRecLen dir.data s.off = s.recLen := recLen
  have prepared := prepareChunk_inside wf maps high
  obtain ⟨data, stored⟩ : ∃ data, store (store dir.data s.off 4 iNo) (s.off + 7) 1 0 = data := ⟨_, rfl⟩
  have committed := @commitChunk_inside { dir with data := data } cache _ _ high
  have shown : slotAt data s.off = { s with inode := iNo } := by
    subst stored
    apply slotAt_mk
    · rw [load_store_disjoint (by omega), load_store_self (by omega)]
    · rw [load_store_disjoint (by omega), load_store_disjoint (by omega), recLen]
    · rw [load_store_disjoint (by omega), load_store_disjoint (by omega), nameLen]
    · rw [read_store_disjoint (by omega), read_store_disjoint (by omega), name]
  have edited := @WellFormed.replace v dir { dir with iVersion := dir.iVersion + 1, data := data } as
    [{ s with inode := iNo }] bs _ _ wf [s] split before after ⟨rfl, by show 0 < s.recLen; omega, rfl⟩ rfl
    (fun k outside => by
      show data k = dir.data k
      rw [← stored, store_outside (by omega), store_outside (by omega)])
    (List.forall_mem_singleton.mpr shown)
    (List.forall_mem_singleton.mpr ⟨ok.align, ok.short, ok.room, ok.chunk, inumber⟩)
  refine ⟨_, ?_, edited.1, ⟨rfl, rfl, rfl⟩, rfl, edited.2⟩
  simp only [ext2SetLink, len, prepared, stored, committed, ne_eq, not_true_eq_false, if_false]

theorem setLink_links (wf : WellFormed v dir) (maps : cache.Maps dir) (member : s ∈ entries dir) (live : s.inode ≠ 0)
    (nonzero : iNo ≠ 0) (inumber : iNo ≤ v.inodesCount) :
    ∃ dir', ext2SetLink v cache dir s.off iNo = some dir' ∧ WellFormed v dir' ∧ Committed dir dir' ∧ dir'.iSize = dir.iSize ∧
      ∃ rest, (links (entries dir)).Perm (s.link :: rest) ∧ (links (entries dir')).Perm (⟨s.off, iNo, s.name⟩ :: rest) := by
  obtain ⟨as, bs, split, -, -⟩ := wf.around member
  obtain ⟨dir', called, wf', committed, size, edited⟩ := setLink_entries wf maps split inumber
  refine ⟨dir', called, wf', committed, size, links as ++ links bs, ?_, ?_⟩
  · rw [split, links_append, links_append, links_live live]
    exact List.perm_middle
  · rw [edited, links_append, links_append, links_live nonzero]
    exact List.perm_middle

/-! ### `ext2_delete_entry` -/

theorem chunk_start (v : DirVolume) {x : Nat} (small : x < 2 ^ 31) :
    (x >>> pageShift) <<< pageShift ≤ x / ext2ChunkSize v * ext2ChunkSize v ∧
      (x - (x >>> pageShift) <<< pageShift) &&& complement (ext2ChunkSize v - 1) =
        x / ext2ChunkSize v * ext2ChunkSize v - (x >>> pageShift) <<< pageShift := by
  have size : 0 < ext2ChunkSize v := Nat.two_pow_pos _
  have bits : v.blocksizeBits ≤ 32 := v.sizes.2.trans (by decide)
  obtain ⟨k, page⟩ := chunkSize_dvd_page v (x >>> pageShift)
  have low : (x >>> pageShift) <<< pageShift ≤ x := by
    rw [page_shiftRight, page_shiftLeft]
    exact Nat.div_mul_le_self _ _
  rw [page] at low ⊢
  refine ⟨?_, ?_⟩
  · rw [Nat.mul_comm]
    exact Nat.mul_le_mul_right _ ((Nat.le_div_iff_mul_le size).mpr (Nat.mul_comm k _ ▸ low))
  · rw [ext2ChunkSize, and_complement bits (by omega), ← ext2ChunkSize, Nat.sub_mul_div, Nat.sub_mul, Nat.mul_comm k]

/-- The walk of `ext2_delete_entry` ends at the entry and remembers the one before it in the chunk. -/
theorem toEntry_eq (wf : WellFormed v dir) (front : Tiled 0 as s.off)
    (sub : ∀ r, r ∈ as → r ∈ entries dir) :
    ∃ far near, as = far ++ near ∧ Tiled 0 far (s.off / ext2ChunkSize v * ext2ChunkSize v) ∧
      Tiled (s.off / ext2ChunkSize v * ext2ChunkSize v) near s.off ∧
      walk (fun de => de < s.off)
          (fun _ de => if deRecLen dir.data de = 0 then (.exit (-eio) : Loop Int (Option Nat)) else .next (some de))
          (ext2NextEntry dir.data) (pageSize + 1) none (s.off / ext2ChunkSize v * ext2ChunkSize v) =
        .next (near.getLast?.map Slot.off, s.off) := by
  have size : 0 < ext2ChunkSize v := Nat.two_pow_pos _
  obtain ⟨far, near, rfl, first, last⟩ := front.split (Nat.zero_le _) (Nat.div_mul_le_self s.off (ext2ChunkSize v))
    fun r member => (wf.slots r (sub r member)).apart (Dvd.intro_left _ rfl)
  have shown : ∀ r, r ∈ near → slotAt dir.data r.off = r := fun r member =>
    entries_shown dir r (sub r (List.mem_append_right _ member))
  have recLen : ∀ r, r ∈ near → deRecLen dir.data r.off = r.recLen := fun r member => congrArg Slot.recLen (shown r member)
  have length : near.length ≤ pageSize := by
    have bound := last.length
    have below := Nat.lt_div_mul_add size (a := s.off)
    have most := Nat.le_of_dvd (by decide) (chunkSize_dvd_pageSize v)
    omega
  obtain ⟨left, fuel⟩ : ∃ left, pageSize + 1 = near.length + (left + 1) := ⟨pageSize - near.length, by omega⟩
  refine ⟨far, near, rfl, first, last, ?_⟩
  rw [fuel, walk_within last (f := fun _ r => .next (some r.off))]
  · rw [fold_last, Loop.bind_next, walk, if_neg (by simp)]
    simp
  · intro r member
    rw [ext2NextEntry, recLen r member]
  · intro r member
    have bound := (last.mem member).2
    have pos := (wf.slots r (sub r (List.mem_append_right _ member))).pos
    simp only [decide_eq_true_eq]
    omega
  · intro r member before
    have pos := (wf.slots r (sub r (List.mem_append_right _ member))).pos
    rw [recLen r member, if_neg (by omega)]

/-- An entry and the one behind it in the chunk make one entry. -/
theorem merged_ok (ok : SlotOk v s) (ok' : SlotOk v p) (low : s.off / ext2ChunkSize v * ext2ChunkSize v ≤ p.off)
    (next : p.off + p.recLen = s.off) :
    SlotOk v { p with recLen := p.recLen + s.recLen } ∧ p.recLen + s.recLen < 2 ^ 16 := by
  have size : 0 < ext2ChunkSize v := Nat.two_pow_pos _
  have chunk := ok.chunk
  have pos := ok.pos
  have here : p.off / ext2ChunkSize v = s.off / ext2ChunkSize v :=
    Nat.le_antisymm (Nat.div_le_div_right (by omega)) ((Nat.le_div_iff_mul_le size).mpr low)
  have last : p.off + (p.recLen + s.recLen) - 1 = s.off + s.recLen - 1 := by omega
  have most := Nat.lt_div_mul_add size (a := s.off + s.recLen - 1)
  have page := Nat.le_of_dvd (by decide) (chunkSize_dvd_pageSize v)
  rw [← chunk] at most
  rw [pageSize_eq] at page
  refine ⟨⟨?_, ?_, ?_, ?_, ok'.inumber⟩, by omega⟩
  · have align := ok.align
    have align' := ok'.align
    show (p.recLen + s.recLen) % 4 = 0
    omega
  · exact ok'.short.trans (Nat.le_add_right _ _)
  · exact ok'.room.trans (Nat.le_add_right _ _)
  · show p.off / ext2ChunkSize v = (p.off + (p.recLen + s.recLen) - 1) / ext2ChunkSize v
    rw [last, ← chunk, here]

theorem deleteEntry_links (wf : WellFormed v dir) (maps : cache.Maps dir) (member : s ∈ entries dir) (live : s.inode ≠ 0) :
    ∃ dir', ext2DeleteEntry v cache dir s.off = some (commitErr cache dir, dir') ∧ WellFormed v dir' ∧ Committed dir dir' ∧
      dir'.iSize = dir.iSize ∧ (links (entries dir)).Perm (s.link :: links (entries dir')) := by
  obtain ⟨as, bs, split, before, after⟩ := wf.around member
  have sub : ∀ r, r ∈ as → r ∈ entries dir := fun r member => split ▸ List.mem_append_left _ member
  have ok := wf.slots s member
  have pos := ok.pos
  have high := (wf.tiled.mem member).2
  have small := wf.small
  obtain ⟨inode, recLen, nameLen, name⟩ := slot_loads (entries_shown dir s member)
  have inside := ok.inside (name_short (entries_shown dir s member))
  have len : deRecLen dir.data s.off = s.recLen := recLen
  obtain ⟨chunkLow, chunkStart⟩ := @chunk_start v s.off (by omega)
  have below : (s.off >>> pageShift) <<< pageShift ≤ s.off := chunkLow.trans (Nat.div_mul_le_self _ _)
  obtain ⟨far, near, rfl, first, last, walked⟩ := toEntry_eq wf before sub
  rcases List.eq_nil_or_concat near with rfl | ⟨init, p, rfl⟩
  · -- The entry starts its chunk, so it stays as a free one.
    have start : s.off / ext2ChunkSize v * ext2ChunkSize v = s.off := last
    rw [start] at chunkStart walked
    have prepared := prepareChunk_inside wf maps high
    obtain ⟨data, stored⟩ : ∃ data, store dir.data s.off 4 0 = data := ⟨_, rfl⟩
    have committed := @commitChunk_inside { dir with data := data } cache _ _ high
    have shown : slotAt data s.off = { s with inode := 0 } := by
      subst stored
      apply slotAt_mk
      · exact load_store_self (by decide)
      · rw [load_store_disjoint (by omega), recLen]
      · rw [load_store_disjoint (by omega), nameLen]
      · rw [read_store_disjoint (by omega), name]
    have edited := @WellFormed.replace v dir { dir with iVersion := dir.iVersion + 1, data := data } (far ++ [])
      [{ s with inode := 0 }] bs _ _ wf [s] split before after ⟨rfl, by show 0 < s.recLen; omega, rfl⟩ rfl
      (fun k outside => by
        show data k = dir.data k
        rw [← stored, store_outside (by omega)])
      (List.forall_mem_singleton.mpr shown)
      (List.forall_mem_singleton.mpr ⟨ok.align, ok.short, ok.room, ok.chunk, Nat.zero_le _⟩)
    have whole : (s.off >>> pageShift) <<< pageShift + (s.off - (s.off >>> pageShift) <<< pageShift) = s.off :=
      Nat.add_sub_cancel' below
    refine ⟨_, ?_, edited.1, ⟨rfl, rfl, rfl⟩, rfl, ?_⟩
    · simp only [ext2DeleteEntry, chunkStart, whole, walked, List.getLast?_nil, Option.map_none, len, Nat.add_sub_cancel_left,
        prepared, ne_eq, not_true_eq_false, if_false, stored, committed]
      rfl
    · have gone : links [{ s with inode := 0 }] = [] := links_free rfl
      have here : links [s] = [s.link] := links_live live
      rw [split, edited.2]
      simp only [List.append_nil, links_append, gone, here, List.nil_append]
      exact List.perm_middle
  · -- The entry before it takes its room.
    rw [List.concat_eq_append] at *
    obtain ⟨m, initial, start, gap, next⟩ := laid_append.mp last
    subst start
    have front : Tiled 0 (far ++ init) p.off := laid_append.mpr ⟨_, first, initial⟩
    have okP := wf.slots p (sub p (by simp))
    have posP := okP.pos
    have shownP := entries_shown dir p (sub p (by simp))
    obtain ⟨inodeP, -, nameLenP, nameP⟩ := slot_loads shownP
    have insideP := okP.inside (name_short shownP)
    have adjacent : p.off + p.recLen = s.off := next
    obtain ⟨okM, wide⟩ := merged_ok ok okP initial.le adjacent
    have length : s.off - (s.off >>> pageShift) <<< pageShift + s.recLen - (p.off - (s.off >>> pageShift) <<< pageShift) =
        p.recLen + s.recLen := by
      have low := initial.le
      omega
    have start : (s.off >>> pageShift) <<< pageShift + (p.off - (s.off >>> pageShift) <<< pageShift) = p.off :=
      Nat.add_sub_cancel' (chunkLow.trans initial.le)
    have whole : p.off + (p.recLen + s.recLen) ≤ dir.iSize := by omega
    have prepared := prepareChunk_inside wf maps whole
    obtain ⟨data, stored⟩ : ∃ data, store (store dir.data (p.off + 4) 2 (p.recLen + s.recLen)) s.off 4 0 = data := ⟨_, rfl⟩
    have committed := @commitChunk_inside { dir with data := data } cache _ _ whole
    have shown : slotAt data p.off = { p with recLen := p.recLen + s.recLen } := by
      subst stored
      apply slotAt_mk
      · rw [load_store_disjoint (by omega), load_store_disjoint (by omega), inodeP]
      · rw [load_store_disjoint (by omega), load_store_self (by omega)]
      · rw [load_store_disjoint (by omega), load_store_disjoint (by omega), nameLenP]
      · rw [read_store_disjoint (by omega), read_store_disjoint (by omega), nameP]
    have edited := @WellFormed.replace v dir { dir with iVersion := dir.iVersion + 1, data := data } (far ++ init)
      [{ p with recLen := p.recLen + s.recLen }] bs _ (s.off + s.recLen) wf ([p] ++ [s])
      (by rw [split]; simp) front after
      ⟨rfl, by show 0 < p.recLen + s.recLen; omega, by show p.off + (p.recLen + s.recLen) = s.off + s.recLen; omega⟩ rfl
      (fun k outside => by
        show data k = dir.data k
        rw [← stored, store_outside (by omega), store_outside (by omega)])
      (List.forall_mem_singleton.mpr shown) (List.forall_mem_singleton.mpr okM)
    have lastNear : (init ++ [p]).getLast? = some p := by simp
    have chunk : (s.off >>> pageShift) <<< pageShift +
        (s.off / ext2ChunkSize v * ext2ChunkSize v - (s.off >>> pageShift) <<< pageShift) =
        s.off / ext2ChunkSize v * ext2ChunkSize v := Nat.add_sub_cancel' chunkLow
    refine ⟨_, ?_, edited.1, ⟨rfl, rfl, rfl⟩, rfl, ?_⟩
    · simp only [ext2DeleteEntry, chunkStart, chunk, walked, lastNear, Option.map_some, len, length, start,
        prepared, ne_eq, not_true_eq_false, if_false, stored, committed]
      rfl
    · have here : links [s] = [s.link] := links_live live
      rw [split, edited.2]
      simp only [links_append]
      rw [here, links_recLen p (p.recLen + s.recLen), ← List.append_assoc (links far), ← List.append_assoc _ (links [p])]
      exact List.perm_middle

end OsLab.Ext2
