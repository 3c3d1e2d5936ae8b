import OsLab.Ext2.DirPages

/-!
# What `ext2_check_page` accepts

The function over any bytes: it accepts a page if and only if the bytes inside `i_size` are
tiled by good entries, and then a walk over a chunk stays in it.
-/

namespace OsLab.Ext2
open Bytes Records

variable {v : DirVolume} {dir : Dir} {data : Image} {j offs : Nat} {slots : List Slot} {s : Slot}

/-- Good entries fill the `limit` bytes from `kaddr` on. -/
structure PageTiles (v : DirVolume) (data : Image) (kaddr limit : Nat) (slots : List Slot) : Prop where
  tiled : Tiled kaddr slots (kaddr + limit)
  shown : Shown data slots
  ok : ∀ s, s ∈ slots → SlotOk v s

/-! ### Soundness -/

theorem slotOk_of_check {u : Unit} (inside : offs < 4096)
    (checked : checkEntry v data (j * 4096) () offs = .next u) : SlotOk v (slotAt data (j * 4096 + offs)) := by
  have word := @load_lt data (j * 4096 + offs + 4) 2
  have bits : v.blocksizeBits ≤ 32 := v.sizes.2.trans (by decide)
  have align := Nat.and_two_pow_sub_one_eq_mod (deRecLen data (j * 4096 + offs)) 2
  unfold checkEntry at checked
  simp only at checked
  split_ifs at checked with short unaligned room span inumber
  have twelve := ext2DirRecLen_one
  rw [not_not, chunkSize_eq, xor_and_complement bits (by unfold deRecLen at *; omega) (by omega)] at span
  refine ⟨?_, Nat.not_lt.mp short, ?_, ?_, Nat.not_lt.mp inumber⟩
  · exact align.symm.trans (not_not.mp unaligned)
  · rw [slotAt_name_length]
    exact Nat.not_lt.mp room
  · -- The page starts at a chunk boundary, so its offsets have the same chunks.
    obtain ⟨k, page⟩ := chunkSize_dvd_page v j
    rw [page_shiftLeft] at page
    have size : 0 < ext2ChunkSize v := by rcases chunkSize_cases v with size | size | size <;> omega
    rw [← chunkSize_eq] at span
    have last : j * 4096 + offs + deRecLen data (j * 4096 + offs) - 1 =
        offs + deRecLen data (j * 4096 + offs) - 1 + ext2ChunkSize v * k := by omega
    have first : j * 4096 + offs = offs + ext2ChunkSize v * k := by rw [page, Nat.add_comm]
    simp only [slotAt]
    rw [last, Nat.add_mul_div_left _ _ size, span, first, Nat.add_mul_div_left _ _ size]

theorem checkPage_tiles (start : j * 4096 ≤ dir.iSize) (checked : ext2CheckPage v dir j = .ok ()) :
    ext2ChunkSize v ∣ pageStop dir j - j * 4096 ∧
      ∃ slots, PageTiles v dir.data (j * 4096) (pageStop dir j - j * 4096) slots := by
  have stop := pageStop_bounds start
  rw [checkPage_eq v start] at checked
  split_ifs at checked with size empty
  · refine ⟨Nat.dvd_of_mod_eq_zero (not_not.mp size), [], ?_⟩
    rw [empty]
    exact ⟨(Nat.add_zero _).symm, by simp [Shown], by simp⟩
  · refine ⟨Nat.dvd_of_mod_eq_zero (not_not.mp size), ?_⟩
    have steps : ∀ offs (s t : Unit), decide (offs ≤ pageStop dir j - j * 4096 - 12) = true →
        checkEntry v dir.data (j * 4096) s offs = .next t →
        0 < (slotAt dir.data (j * 4096 + offs)).recLen ∧
          offs + deRecLen dir.data (j * 4096 + offs) = offs + (slotAt dir.data (j * 4096 + offs)).recLen := by
      intro offs s t inside visited
      rw [decide_eq_true_eq] at inside
      have ok := slotOk_of_check (by omega) visited
      exact ⟨Nat.lt_of_lt_of_le (by decide) ok.pos, rfl⟩
    generalize walked : walk _ (checkEntry v dir.data (j * 4096)) _ (pageSize + 1) () 0 = result at checked
    rcases result with bad | ⟨u, offs⟩
    · cases checked
    · simp only at checked
      split_ifs at checked with short
      obtain rfl := not_not.mp short
      obtain ⟨slots, laid, seen⟩ := @walk_laid _ _ _ (fun s : Slot => s.off - j * 4096) Slot.recLen _ _ _ _ _
        (fun x => slotAt dir.data (j * 4096 + x)) (fun x => by rw [slotAt_off, Nat.add_sub_cancel_left]) steps _ _ _ walked
      have above : ∀ s, s ∈ slots → s.off = j * 4096 + (s.off - j * 4096) := fun s member =>
        (congrArg Slot.off (seen s member).1).trans (slotAt_off _ _)
      have lifted := laid.lift above
      rw [Nat.add_zero] at lifted
      refine ⟨slots, lifted, fun s member => ?_, fun s member => ?_⟩
      · have same := (seen s member).1
        rw [← above s member] at same
        exact same.symm
      · obtain ⟨same, inside, _, _, visited⟩ := seen s member
        rw [same]
        rw [decide_eq_true_eq] at inside
        exact slotOk_of_check (by omega) visited

/-! ### Walks over a chunk -/

/-- The walk by `ext2_next_entry` from the start of the chunk at `m`: it stays inside, comes to every entry
and ends where the chunk does. -/
def WalksChunk (v : DirVolume) (data : Image) (slots : List Slot) (m : Nat) : Prop :=
  ∃ n, (ext2NextEntry data)^[n] m = m + ext2ChunkSize v ∧
    (∀ i, i < n → m ≤ (ext2NextEntry data)^[i] m ∧
      (ext2NextEntry data)^[i] m + deRecLen data ((ext2NextEntry data)^[i] m) ≤ m + ext2ChunkSize v) ∧
    ∀ s, s ∈ slots → m ≤ s.off → s.off < m + ext2ChunkSize v → ∃ i, i < n ∧ (ext2NextEntry data)^[i] m = s.off

/-- Of two multiples the smaller one has room for one more step. -/
theorem multiple_step {c m n : Nat} (low : c ∣ m) (high : c ∣ n) (less : m < n) : m + c ≤ n := by
  have gap := Nat.le_of_dvd (Nat.sub_pos_of_lt less) (Nat.dvd_sub high low)
  omega

variable {kaddr limit m : Nat}

theorem PageTiles.walksChunk (tiles : PageTiles v data kaddr limit slots) (page : ext2ChunkSize v ∣ kaddr)
    (size : ext2ChunkSize v ∣ limit) (start : ext2ChunkSize v ∣ m) (low : kaddr ≤ m) (high : m < kaddr + limit) :
    WalksChunk v data slots m := by
  have stop := multiple_step start (Nat.dvd_add page size) high
  obtain ⟨before, rest, rfl, first, last⟩ := tiles.tiled.split low (by omega) fun s member => (tiles.ok s member).apart start
  obtain ⟨chunk, behind, rfl, here, after⟩ := last.split (Nat.le_add_right m (ext2ChunkSize v)) stop fun s member =>
    (tiles.ok s (List.mem_append_right _ member)).apart (Nat.dvd_add start (Nat.dvd_refl _))
  have member : ∀ s, s ∈ chunk → s ∈ before ++ (chunk ++ behind) := fun s inside =>
    List.mem_append_right _ (List.mem_append_left _ inside)
  have recLen : ∀ s, s ∈ chunk → deRecLen data s.off = s.recLen := fun s inside =>
    congrArg Slot.recLen (tiles.shown s (member s inside))
  obtain ⟨ends, visits⟩ := @Laid.iterate _ Slot.off Slot.recLen _ _ _ (ext2NextEntry data) here fun s inside => by
    rw [ext2NextEntry, recLen s inside]
  refine ⟨chunk.length, ends, fun i inside => ?_, fun s listed above below => ?_⟩
  · have bounds := here.mem (List.getElem_mem inside)
    rw [visits i inside, recLen _ (List.getElem_mem inside)]
    exact bounds
  · -- An entry of the page that starts in the chunk is one of the chunk.
    have mine : s ∈ chunk := by
      rcases List.mem_append.mp listed with early | later
      · have finish := (first.mem early).2
        have pos := (tiles.ok s listed).pos
        omega
      · rcases List.mem_append.mp later with inside | late
        · exact inside
        · have start := (after.mem late).1
          omega
    obtain ⟨i, inside, rfl⟩ := List.getElem_of_mem mine
    exact ⟨i, inside, visits i inside⟩

/-- The number of bytes of a page inside `i_size`. -/
def bytesInside (dir : Dir) (index : Nat) : Nat := min pageSize (dir.iSize - index * pageSize)

theorem bytesInside_eq (dir : Dir) (j : Nat) : bytesInside dir j = pageStop dir j - j * 4096 := by
  unfold bytesInside pageStop
  rw [pageSize_eq]
  omega

theorem page_checked_iff {index : Nat} (page : index ≤ dir.iSize >>> pageShift) :
    (ext2CheckPage v dir index = .ok () ↔ ext2ChunkSize v ∣ bytesInside dir index ∧
      ∃ slots, PageTiles v dir.data (index * pageSize) (bytesInside dir index) slots) ∧
    (ext2CheckPage v dir index = .ok () →
      ∀ slots, PageTiles v dir.data (index * pageSize) (bytesInside dir index) slots →
        ∀ m, ext2ChunkSize v ∣ m → index * pageSize ≤ m → m < index * pageSize + bytesInside dir index →
          WalksChunk v dir.data slots m) := by
  have start : index * 4096 ≤ dir.iSize := by
    rw [page_shiftRight] at page
    omega
  have stop := pageStop_bounds start
  have back : index * 4096 + (pageStop dir index - index * 4096) = pageStop dir index := Nat.add_sub_cancel' stop.1
  have boundary : ext2ChunkSize v ∣ index * 4096 := page_shiftLeft index ▸ chunkSize_dvd_page v index
  rw [bytesInside_eq, pageSize_eq]
  refine ⟨⟨checkPage_tiles start, ?_⟩, fun checked slots tiles m => ?_⟩
  · rintro ⟨size, slots, tiles⟩
    exact checkPage_tiled start size (back ▸ tiles.tiled) tiles.shown tiles.ok
  · exact tiles.walksChunk boundary (checkPage_tiles start checked).1

/-- A new directory of 1 KiB: `.` and an entry `..` up to the end of the chunk. -/
def dotsOnly : Dir where
  iNo := 12
  iSize := 1024
  iVersion := 0
  isDirsync := false
  data k := [12, 0, 0, 0, 12, 0, 1, 0, 46, 0, 0, 0, 2, 0, 0, 0, 244, 3, 2, 0, 46, 46].getD k 0

theorem page_checked_dots :
    ∃ slots, PageTiles ⟨10, 16, by decide, by decide⟩ dotsOnly.data (0 * pageSize) (bytesInside dotsOnly 0) slots :=
  ((page_checked_iff (Nat.zero_le _)).1.mp (by decide +kernel)).2

end OsLab.Ext2
