import OsLab.Ext2.Slots

/-!
# Pages of a directory

The pages of a well-formed directory pass `ext2_check_page`, and a loop over the pages that
walks the entries of each is a fold over the entries of the directory.
-/

namespace OsLab.Ext2
open Bytes Records

variable {v : DirVolume} {dir : Dir} {cache : PageCache} {s : Slot} {slots page : List Slot} {i j n : Nat}
variable {α σ : Type}

theorem pageSize_eq : pageSize = 4096 := rfl

theorem page_shiftLeft (n : Nat) : n <<< pageShift = n * 4096 := Nat.shiftLeft_eq n 12

theorem page_shiftRight (n : Nat) : n >>> pageShift = n / 4096 := Nat.shiftRight_eq_div_pow n 12

/-- Where the entries of a page end. -/
def pageStop (dir : Dir) (j : Nat) : Nat := min ((j + 1) * 4096) dir.iSize

theorem dirPages_eq (dir : Dir) : dirPages dir = (dir.iSize + 4095) / 4096 := page_shiftRight _

theorem lastByte_eq (wf : WellFormed v dir) (inside : j * 4096 ≤ dir.iSize) :
    j * 4096 + ext2LastByte dir j = pageStop dir j := by
  have small := wf.small
  have difference : (((dir.iSize : Int) - (j * 4096 : Nat)) % 2 ^ 32).toNat = dir.iSize - j * 4096 := by omega
  unfold ext2LastByte pageStop
  simp only [page_shiftLeft, difference, pageSize_eq]
  split_ifs <;> omega

theorem pageStop_bounds (start : j * 4096 ≤ dir.iSize) : j * 4096 ≤ pageStop dir j ∧ pageStop dir j ≤ j * 4096 + 4096 := by
  unfold pageStop
  omega

theorem pageStop_boundary (wf : WellFormed v dir) (j : Nat) : ext2ChunkSize v ∣ pageStop dir j := by
  unfold pageStop
  rcases Nat.le_total ((j + 1) * 4096) dir.iSize with low | high
  · rw [Nat.min_eq_left low, ← page_shiftLeft]
    exact chunkSize_dvd_page v _
  · rw [Nat.min_eq_right high]
    exact wf.size

/-- The entries of a page. -/
structure PageOf (dir : Dir) (j : Nat) (page : List Slot) : Prop where
  start : j * 4096 ≤ dir.iSize
  tiled : Tiled (j * 4096) page (pageStop dir j)
  sub : ∀ s, s ∈ page → s ∈ entries dir

theorem PageOf.shown (of : PageOf dir j page) (member : s ∈ page) : slotAt dir.data s.off = s :=
  entries_shown dir s (of.sub s member)

theorem PageOf.recLen (of : PageOf dir j page) (member : s ∈ page) : deRecLen dir.data s.off = s.recLen :=
  congrArg Slot.recLen (of.shown member)

theorem PageOf.next (of : PageOf dir j page) (member : s ∈ page) :
    ext2NextEntry dir.data s.off = s.off + s.recLen := by
  rw [ext2NextEntry, of.recLen member]

theorem PageOf.stop_le (of : PageOf dir j page) : j * 4096 ≤ pageStop dir j ∧ pageStop dir j ≤ j * 4096 + 4096 := by
  exact pageStop_bounds of.start

theorem PageOf.length (of : PageOf dir j page) : page.length < pageSize + 1 := by
  have bound := of.tiled.length
  have stop := of.stop_le
  rw [pageSize_eq]
  omega

/-! ### `ext2_check_page` -/

theorem checkEntry_ok (ok : SlotOk v s) (shown : slotAt dir.data s.off = s) (low : j * 4096 ≤ s.off)
    (high : s.off + s.recLen ≤ j * 4096 + 4096) (u : Unit) :
    checkEntry v dir.data (j * 4096) u (s.off - j * 4096) = .next u := by
  have here : j * 4096 + (s.off - j * 4096) = s.off := Nat.add_sub_cancel' low
  have recLen : deRecLen dir.data s.off = s.recLen := congrArg Slot.recLen shown
  have inode : deInode dir.data s.off = s.inode := congrArg Slot.inode shown
  have nameLen : deNameLen dir.data s.off = s.name.length := by rw [← slotAt_name_length, shown]
  have align : s.recLen &&& 3 = 0 := (Nat.and_two_pow_sub_one_eq_mod s.recLen 2).trans ok.align
  have pos := ok.pos
  have span : ((s.off - j * 4096 + s.recLen - 1) ^^^ (s.off - j * 4096)) &&& complement (ext2ChunkSize v - 1) = 0 := by
    have bits : v.blocksizeBits ≤ 32 := v.sizes.2.trans (by decide)
    rw [chunkSize_eq, xor_and_complement bits (by omega) (by omega)]
    obtain ⟨k, page⟩ := chunkSize_dvd_page v j
    rw [page_shiftLeft] at page
    have chunk := ok.chunk
    have size : 0 < ext2ChunkSize v := by rcases chunkSize_cases v with size | size | size <;> omega
    have split : ∀ x, j * 4096 ≤ x → x / ext2ChunkSize v = k + (x - j * 4096) / ext2ChunkSize v := by
      intro x above
      have back : x = x - j * 4096 + ext2ChunkSize v * k := by omega
      conv_lhs => rw [back]
      rw [Nat.add_mul_div_left _ _ size, Nat.add_comm]
    rw [split s.off low, split (s.off + s.recLen - 1) (by omega)] at chunk
    rw [← chunkSize_eq]
    have same : s.off - j * 4096 + s.recLen - 1 = s.off + s.recLen - 1 - j * 4096 := by omega
    rw [same]
    omega
  unfold checkEntry
  simp only [here, recLen, inode, nameLen, align, span]
  rw [if_neg (by have short := ok.short; omega), if_neg (by simp), if_neg (by have room := ok.room; omega), if_neg (by simp),
    if_neg (by have inumber := ok.inumber; omega)]

/-- The function in terms of where the entries of the page end. -/
theorem checkPage_eq (v : DirVolume) (start : j * 4096 ≤ dir.iSize) :
    ext2CheckPage v dir j =
      if (pageStop dir j - j * 4096) % ext2ChunkSize v ≠ 0 then .error .ebadsize
      else if pageStop dir j - j * 4096 = 0 then .ok ()
      else
        match walk (fun offs => offs ≤ pageStop dir j - j * 4096 - 12) (checkEntry v dir.data (j * 4096))
            (fun offs => offs + deRecLen dir.data (j * 4096 + offs)) (pageSize + 1) () 0 with
        | .exit bad => .error bad
        | .next (_, offs) => if offs ≠ pageStop dir j - j * 4096 then .error .eend else .ok () := by
  have low : dir.iSize &&& (pageSize - 1) = dir.iSize % 4096 := Nat.and_two_pow_sub_one_eq_mod dir.iSize 12
  have limit : (if dir.iSize >>> pageShift = j then dir.iSize &&& (pageSize - 1) else pageSize) =
      pageStop dir j - j * 4096 := by
    rw [low, page_shiftRight, pageSize_eq]
    unfold pageStop
    split_ifs <;> omega
  have mask : (pageStop dir j - j * 4096) &&& (ext2ChunkSize v - 1) = (pageStop dir j - j * 4096) % ext2ChunkSize v := by
    rw [chunkSize_eq, Nat.and_two_pow_sub_one_eq_mod]
  unfold ext2CheckPage
  simp only [limit, mask, page_shiftLeft, ext2DirRecLen_one]
  by_cases last : dir.iSize >>> pageShift = j
  · exact if_congr (and_iff_right last) rfl (if_congr (and_iff_right last) rfl rfl)
  · -- A page that is not the last one is full.
    have full : pageStop dir j - j * 4096 = 4096 := by
      rw [page_shiftRight] at last
      unfold pageStop
      omega
    have whole : 4096 % ext2ChunkSize v = 0 := Nat.mod_eq_zero_of_dvd (pageSize_eq ▸ chunkSize_dvd_pageSize v)
    rw [full, whole]
    simp only [last, false_and, if_false, ne_eq, not_true_eq_false]
    rfl

theorem checkPage_tiled (start : j * 4096 ≤ dir.iSize) (boundary : ext2ChunkSize v ∣ pageStop dir j - j * 4096)
    (tiled : Tiled (j * 4096) page (pageStop dir j)) (shown : Shown dir.data page)
    (ok : ∀ s, s ∈ page → SlotOk v s) : ext2CheckPage v dir j = .ok () := by
  have stop := pageStop_bounds start
  rw [checkPage_eq v start, if_neg (by simp [Nat.mod_eq_zero_of_dvd boundary])]
  by_cases empty : pageStop dir j - j * 4096 = 0
  · rw [if_pos empty]
  · rw [if_neg empty]
    have large : 12 ≤ pageStop dir j - j * 4096 := by
      have least := Nat.le_of_dvd (Nat.pos_of_ne_zero empty) boundary
      rcases chunkSize_cases v with chunk | chunk | chunk <;> omega
    have shifted := tiled.shift (Nat.le_refl (j * 4096))
    rw [Nat.sub_self] at shifted
    have length := tiled.length
    have size := pageSize_eq
    obtain ⟨left, fuel⟩ : ∃ left, pageSize + 1 = page.length + (left + 1) := ⟨pageSize - page.length, by omega⟩
    have bounds : ∀ s, s ∈ page → j * 4096 ≤ s.off ∧ s.off + s.recLen ≤ pageStop dir j ∧ 12 ≤ s.recLen := fun s member =>
      ⟨(tiled.mem member).1, (tiled.mem member).2, (ok s member).pos⟩
    rw [fuel, walk_within shifted (f := fun u _ => .next u)]
    · rw [fold_silent fun _ _ _ => rfl, Loop.bind_next, walk, if_neg (by simp only [decide_eq_true_eq]; omega)]
      simp
    · intro s member
      obtain ⟨low, -, -⟩ := bounds s member
      rw [Nat.add_sub_cancel' low]
      exact congrArg (s.off - j * 4096 + Slot.recLen ·) (shown s member)
    · intro s member
      obtain ⟨low, high, pos⟩ := bounds s member
      simp only [decide_eq_true_eq]
      omega
    · intro s member u
      obtain ⟨low, high, -⟩ := bounds s member
      exact checkEntry_ok (ok s member) (shown s member) low (by omega) u

theorem checkPage_ok (wf : WellFormed v dir) (of : PageOf dir j page) : ext2CheckPage v dir j = .ok () := by
  apply checkPage_tiled of.start ?_ of.tiled (fun s member => of.shown member) fun s member => wf.slots s (of.sub s member)
  exact Nat.dvd_sub (pageStop_boundary wf j) (page_shiftLeft j ▸ chunkSize_dvd_page v j)

/-- No page read fails, and no page was found bad before. -/
structure PageCache.Reads (cache : PageCache) : Prop where
  readPage : ∀ n, cache.readPage n = 0
  pageError : ∀ n, cache.pageError n = false

theorem getPage_ok (wf : WellFormed v dir) (reads : cache.Reads) (of : PageOf dir j page) :
    ext2GetPage v cache dir j = .ok () := by
  unfold ext2GetPage
  rw [if_neg (by simp [reads.readPage])]
  by_cases checked : cache.pageChecked j = true
  · rw [if_pos checked]
  · rw [if_neg checked, if_neg (by simp [reads.pageError]), checkPage_ok wf of]

/-! ### Loops over the pages -/

theorem dirPages_le (inside : j < dirPages dir) : j * 4096 < dir.iSize := by
  rw [dirPages_eq] at inside
  omega

/-- Rounds that fold over the entries of a page are a fold over the entries of all of them. -/
theorem rounds_pages (wf : WellFormed v dir) {body : Nat → σ → Loop α σ} {f : σ → Slot → Loop α σ}
    (pages : ∀ j page, j < i + n → PageOf dir j page → ∀ s, body j s = fold f s page)
    (inside : i + n ≤ dirPages dir) (sub : ∀ s, s ∈ slots → s ∈ entries dir)
    (tiled : Tiled (min (i * 4096) dir.iSize) slots (min ((i + n) * 4096) dir.iSize)) (s : σ) :
    rounds body n i s = fold f s slots := by
  induction n generalizing i slots s with
  | zero =>
    have length := tiled.length
    rw [Nat.add_zero] at length
    have none : slots = [] := List.eq_nil_of_length_eq_zero (by omega)
    rw [none]
    rfl
  | succ n ih =>
    have start := @dirPages_le dir i (by omega)
    have low : min (i * 4096) dir.iSize = i * 4096 := by omega
    rw [low] at tiled
    obtain ⟨page, rest, rfl, here, later⟩ := @Laid.split _ _ _ _ _ (pageStop dir i) _ tiled
      (by unfold pageStop; omega) (by unfold pageStop; omega)
      fun r member => (wf.slots r (sub r member)).apart (pageStop_boundary wf i)
    have of : PageOf dir i page := ⟨start.le, here, fun r member => sub r (List.mem_append_left _ member)⟩
    rw [rounds, pages i page (by omega) of, fold_append]
    cases fold f s page with
    | exit a => rfl
    | next s =>
      rw [Loop.bind_next, Loop.bind_next]
      refine ih (fun j page high => pages j page (by omega)) (by omega)
        (fun r member => sub r (List.mem_append_right _ member)) ?_ s
      rw [Nat.add_right_comm]
      exact later

theorem rounds_entries (wf : WellFormed v dir) {body : Nat → σ → Loop α σ} {f : σ → Slot → Loop α σ}
    (pages : ∀ j page, PageOf dir j page → ∀ s, body j s = fold f s page) (s : σ) :
    rounds body (dirPages dir) 0 s = fold f s (entries dir) := by
  refine rounds_pages wf (fun j page _ => pages j page) (by omega) (fun _ member => member) ?_ s
  have whole : min ((0 + dirPages dir) * 4096) dir.iSize = dir.iSize := by
    rw [dirPages_eq]
    omega
  rw [whole, Nat.zero_mul, Nat.zero_min]
  exact wf.tiled

/-- A search of a page that stops where no entry it looks for fits any more. -/
theorem walkPage_eq (of : PageOf dir j page) {visit : Unit → Nat → Loop α Unit} {p : Slot → Bool} {a : Slot → α}
    {reclen : Nat} (pos : 0 < reclen) (visits : ∀ s, s ∈ page → ∀ u, visit u s.off = search p a u s)
    (fits : ∀ s, s ∈ page → p s = true → reclen ≤ s.recLen) (u : Unit) :
    (walk (fun de => de + reclen ≤ pageStop dir j) visit (ext2NextEntry dir.data) (pageSize + 1) u (j * 4096)).forget =
      fold (search p a) u page := by
  refine walk_forget of.tiled (fun _ member => of.next member) ?_ ?_ ?_ ?_ of.length u
  · intro x y le inside
    simp only [decide_eq_true_eq] at inside ⊢
    omega
  · simp only [decide_eq_false_iff_not]
    omega
  · exact fun s member _ => visits s member
  · intro s member beyond u
    simp only [decide_eq_false_iff_not] at beyond
    have high := (of.tiled.mem member).2
    have blind : ¬ p s = true := fun found => by
      have room := fits s member found
      omega
    exact if_neg blind

end OsLab.Ext2
