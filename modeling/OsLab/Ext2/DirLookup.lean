import OsLab.Ext2.DirPages

/-!
# Searches in a directory

What `ext2_find_entry`, `ext2_add_link` and `ext2_empty_dir` find in a well-formed directory,
as searches in the list of its entries.
-/

namespace OsLab.Ext2
open Bytes Records

variable {v : DirVolume} {dir : Dir} {cache : PageCache} {s : Slot} {page : List Slot} {j : Nat}

/-! ### Lookup -/

def Slot.names (child : List UInt8) (s : Slot) : Bool := s.inode ≠ 0 && s.name = child

theorem match_eq (child : List UInt8) (shown : slotAt dir.data s.off = s) :
    ext2Match child dir.data s.off = s.names child := by
  have inode : deInode dir.data s.off = s.inode := congrArg Slot.inode shown
  have nameLen : deNameLen dir.data s.off = s.name.length := by rw [← slotAt_name_length, shown]
  have name : deName dir.data s.off s.name.length = s.name := by rw [← nameLen]; exact congrArg Slot.name shown
  unfold ext2Match Slot.names
  rw [inode, nameLen]
  by_cases length : child.length = s.name.length
  · rw [length, name]
    simp
  · have other : s.name ≠ child := fun same => length (same ▸ rfl)
    simp [length, other]

theorem names_iff {child : List UInt8} : s.names child = true ↔ s.inode ≠ 0 ∧ s.name = child := by
  simp [Slot.names]

theorem reclen_pos {n : Nat} (short : n ≤ 255) : 0 < ext2DirRecLen n := by
  have bounds := @ext2DirRecLen_bounds n (by omega)
  omega

theorem recLen_ne_zero (wf : WellFormed v dir) (of : PageOf dir j page) (member : s ∈ page) :
    deRecLen dir.data s.off ≠ 0 := by
  have pos := (wf.slots s (of.sub s member)).pos
  rw [of.recLen member]
  omega

theorem findInPage_eq (wf : WellFormed v dir) (reads : cache.Reads) {child : List UInt8} (short : child.length ≤ 255)
    (of : PageOf dir j page) (u : Unit) :
    findInPage v cache dir child j u = fold (search (Slot.names child) fun s => .ok s.off) u page := by
  unfold findInPage
  rw [getPage_ok wf reads of]
  simp only [page_shiftLeft, lastByte_eq wf of.start]
  apply walkPage_eq of (reclen_pos short)
  · intro s member u
    unfold findEntry search
    rw [if_neg (recLen_ne_zero wf of member), match_eq child (of.shown member)]
  · intro s member found
    rw [← (names_iff.mp found).2]
    exact (wf.slots s (of.sub s member)).room

theorem findEntry_eq (wf : WellFormed v dir) (reads : cache.Reads) {child : List UInt8} (short : child.length ≤ 255) :
    ext2FindEntry v cache dir child = match (entries dir).find? (Slot.names child) with
      | some s => .ok s.off
      | none => .error (-enoent) := by
  unfold ext2FindEntry
  rw [rounds_entries wf (fun j page of u => findInPage_eq wf reads short of u), fold_search]
  split_ifs with empty
  · have none : entries dir = [] := by
      have length := wf.tiled.length
      rw [dirPages_eq] at empty
      exact List.eq_nil_of_length_eq_zero (by omega)
    rw [none]
    rfl
  · cases (entries dir).find? (Slot.names child) <;> rfl

theorem inodeByName_eq (wf : WellFormed v dir) (reads : cache.Reads) {child : List UInt8} (short : child.length ≤ 255) :
    ext2InodeByName v cache dir child = match (entries dir).find? (Slot.names child) with
      | some s => .ok s.inode
      | none => .error (-enoent) := by
  unfold ext2InodeByName
  rw [findEntry_eq wf reads short]
  cases found : (entries dir).find? (Slot.names child) with
  | none => rfl
  | some s => exact congrArg Except.ok (congrArg Slot.inode (entries_shown dir s (List.mem_of_find?_eq_some found)))

/-! ### Lookup when pages cannot be read -/

theorem getPage_error {err : Int} (failed : ext2GetPage v cache dir j = .error err) : err ≠ 0 := by
  unfold ext2GetPage at failed
  split_ifs at failed with unread checked bad
  · cases failed
    exact unread
  · cases failed
    decide
  · split at failed
    · cases failed
      decide
    · cases failed

theorem findInPage_error {child : List UInt8} {err : Int} (failed : findInPage v cache dir child j () = .exit (.error err)) : err ≠ 0 := by
  unfold findInPage at failed
  cases got : ext2GetPage v cache dir j with
  | error bad =>
    rw [got] at failed
    cases failed
    exact getPage_error got
  | ok u =>
    rw [got] at failed
    obtain ⟨u, de, stops⟩ := walk_exit (forget_exit failed)
    unfold findEntry at stops
    split_ifs at stops
    · cases stops
      decide
    · cases stops

theorem findEntry_error {child : List UInt8} {err : Int} (failed : ext2FindEntry v cache dir child = .error err) : err ≠ 0 := by
  unfold ext2FindEntry at failed
  split_ifs at failed
  · cases failed
    decide
  · cases left : rounds (findInPage v cache dir child) (dirPages dir) 0 () with
    | exit found =>
      simp only [left] at failed
      subst failed
      obtain ⟨j, -, -, stops, -⟩ := (rounds_exit_iff _ _).mp left
      exact findInPage_error stops
    | next u =>
      simp only [left] at failed
      cases failed
      decide

/-- A cache that holds every page. -/
def PageCache.held (cache : PageCache) : PageCache :=
  { cache with readPage := fun _ => 0, pageChecked := fun _ => true, pageError := fun _ => false }

theorem findInPage_held (child : List UInt8) (j : Nat) (u : Unit) :
    (∃ err, findInPage v cache dir child j u = .exit (.error err)) ∨
      findInPage v cache dir child j u = findInPage v cache.held dir child j u := by
  have held : ext2GetPage v cache.held dir j = .ok () := rfl
  unfold findInPage
  cases got : ext2GetPage v cache dir j with
  | error err => exact Or.inl ⟨err, rfl⟩
  | ok u => exact Or.inr (by rw [held])

/-- What is found in a well-formed directory is an entry, whatever pages could not be read. -/
theorem findEntry_located (wf : WellFormed v dir) {child : List UInt8} {de : Nat} (short : child.length ≤ 255)
    (found : ext2FindEntry v cache dir child = .ok de) :
    ∃ s, s ∈ entries dir ∧ s.inode ≠ 0 ∧ s.name = child ∧ s.off = de := by
  have same : ext2FindEntry v cache.held dir child = .ok de := by
    unfold ext2FindEntry at found ⊢
    split_ifs at found ⊢
    cases left : rounds (findInPage v cache dir child) (dirPages dir) 0 () with
    | next u => simp [left] at found
    | exit answer =>
      simp only [left] at found
      subst found
      obtain ⟨j, low, high, stops, before⟩ := (rounds_exit_iff _ _).mp left
      have held : rounds (findInPage v cache.held dir child) (dirPages dir) 0 () = .exit (.ok de) := by
        refine (rounds_exit_iff _ _).mpr ⟨j, low, high, ?_, fun k low below => ?_⟩
        · rcases @findInPage_held v dir cache child j () with ⟨err, failed⟩ | same
          · rw [failed] at stops
            cases stops
          · exact same.symm.trans stops
        · rcases @findInPage_held v dir cache child k () with ⟨err, failed⟩ | same
          · have silent := before k low below
            rw [failed] at silent
            cases silent
          · exact same.symm.trans (before k low below)
      simp only [held]
  rw [findEntry_eq wf ⟨fun _ => rfl, fun _ => rfl⟩ short] at same
  cases located : (entries dir).find? (Slot.names child) with
  | none => simp [located] at same
  | some s =>
    simp only [located, Except.ok.injEq] at same
    obtain ⟨live, named⟩ := names_iff.mp (List.find?_some located)
    exact ⟨s, List.mem_of_find?_eq_some located, live, named, same⟩

/-! ### The slot of a new entry -/

/-- The bytes an entry needs. -/
def Slot.used (s : Slot) : Nat := ext2DirRecLen s.name.length

/-- The entry is free and large enough, or leaves enough room behind its name. -/
def Slot.fits (reclen : Nat) (s : Slot) : Bool := (s.inode = 0 && reclen ≤ s.recLen) || s.used + reclen ≤ s.recLen

/-- The locals at `got_it` for an entry that takes the new one, or has its name already. -/
def gotSlot (dir : Dir) (name : List UInt8) (s : Slot) : Except Int GotIt :=
  if s.names name then .error (-eexist) else .ok ⟨dir.data, s.off, s.used, s.recLen⟩

/-- The locals at `got_it` when `i_size` is hit. -/
def gotSize (v : DirVolume) (dir : Dir) : GotIt :=
  ⟨store (store dir.data (dir.iSize + 4) 2 (ext2ChunkSize v)) dir.iSize 4 0, dir.iSize, 0, ext2ChunkSize v⟩

theorem fits_room {reclen : Nat} (fits : s.fits reclen = true) : reclen ≤ s.recLen := by
  unfold Slot.fits at fits
  simp only [Bool.or_eq_true, Bool.and_eq_true, decide_eq_true_eq] at fits
  omega

theorem addEntry_eq (wf : WellFormed v dir) (of : PageOf dir j page) (name : List UInt8) (member : s ∈ page) (u : Unit) :
    addEntry v dir name (pageStop dir j) u s.off =
      search (fun s => s.names name || s.fits (ext2DirRecLen name.length)) (gotSlot dir name) u s := by
  have high := (of.tiled.mem member).2
  have pos := (wf.slots s (of.sub s member)).pos
  have inode : deInode dir.data s.off = s.inode := congrArg Slot.inode (of.shown member)
  have used : ext2DirRecLen (deNameLen dir.data s.off) = s.used := by
    rw [← slotAt_name_length, of.shown member, Slot.used]
  unfold addEntry search gotSlot
  rw [if_neg (by omega), if_neg (recLen_ne_zero wf of member), match_eq name (of.shown member)]
  simp only [inode, used, of.recLen member]
  by_cases taken : s.names name = true
  · simp [taken]
  · rw [Bool.not_eq_true] at taken
    simp only [taken, Bool.false_eq_true, if_false, Bool.false_or, Slot.fits, Bool.or_eq_true, Bool.and_eq_true,
      decide_eq_true_eq]
    split_ifs <;> first | rfl | omega

/-- A page inside of `i_size` is searched for the name and for room. -/
theorem addInPage_full (wf : WellFormed v dir) (reads : cache.Reads) {name : List UInt8} (short : name.length ≤ 255)
    (of : PageOf dir j page) (full : (j + 1) * 4096 ≤ dir.iSize) (u : Unit) :
    addInPage v cache dir name j u =
      fold (search (fun s => s.names name || s.fits (ext2DirRecLen name.length)) (gotSlot dir name)) u page := by
  have stop : j * 4096 + pageSize = pageStop dir j := by
    rw [pageSize_eq]
    unfold pageStop
    omega
  unfold addInPage
  rw [getPage_ok wf reads of]
  simp only [page_shiftLeft, lastByte_eq wf of.start, stop]
  apply walkPage_eq of (reclen_pos short)
  · exact fun s member u => addEntry_eq wf of name member u
  · intro s member found
    rcases Bool.or_eq_true_iff.mp found with names | fits
    · rw [← (names_iff.mp names).2]
      exact (wf.slots s (of.sub s member)).room
    · exact fits_room fits

/-- The page in which `i_size` lies is searched first; then `i_size` is hit. -/
theorem addInPage_last (wf : WellFormed v dir) (reads : cache.Reads) {name : List UInt8} (short : name.length ≤ 255)
    (of : PageOf dir j page) (last : dir.iSize < (j + 1) * 4096) (u : Unit) :
    addInPage v cache dir name j u =
      (fold (search (fun s => s.names name || s.fits (ext2DirRecLen name.length)) (gotSlot dir name)) u page).bind
        fun _ => .exit (.ok (gotSize v dir)) := by
  have reclen := (@ext2DirRecLen_bounds name.length (by omega)).2.1
  have stop : pageStop dir j = dir.iSize := Nat.min_eq_right last.le
  have room : dir.iSize + ext2ChunkSize v ≤ j * 4096 + pageSize := by
    obtain ⟨k, size⟩ := wf.size
    obtain ⟨m, next⟩ := page_shiftLeft (j + 1) ▸ chunkSize_dvd_page v (j + 1)
    rw [size, next] at last
    have least := Nat.mul_le_mul_left (ext2ChunkSize v) (Nat.lt_of_mul_lt_mul_left last)
    rw [Nat.mul_succ, ← size, ← next] at least
    rw [pageSize_eq]
    omega
  have chunk : 1024 ≤ ext2ChunkSize v := by rcases chunkSize_cases v with size | size | size <;> omega
  have length := of.length
  obtain ⟨left, fuel⟩ : ∃ left, pageSize + 1 = page.length + (left + 1) := ⟨pageSize - page.length, by omega⟩
  unfold addInPage
  rw [getPage_ok wf reads of]
  simp only [page_shiftLeft, lastByte_eq wf of.start]
  rw [fuel]
  refine (congrArg Loop.forget (walk_within of.tiled (fun _ member => of.next member) ?_
    (fun s member u => addEntry_eq wf of name member u) (left + 1) u)).trans ?_
  · intro s member
    have high := (of.tiled.mem member).2
    simp only [decide_eq_true_eq]
    omega
  · cases fold (search (fun s => s.names name || s.fits (ext2DirRecLen name.length)) (gotSlot dir name)) u page with
    | exit got => rfl
    | next u =>
      rw [Loop.bind_next, Loop.bind_next, walk, if_pos (by simp only [decide_eq_true_eq]; omega), addEntry, if_pos rfl, stop]
      rfl

/-- `ext2_add_link` takes the first entry with the name or with room, and grows the directory when there is none. -/
theorem addLink_eq (wf : WellFormed v dir) (reads : cache.Reads) {name : List UInt8} (short : name.length ≤ 255) (iNo : Nat) :
    ext2AddLink v cache dir name iNo =
      match (entries dir).find? fun s => s.names name || s.fits (ext2DirRecLen name.length) with
      | some s =>
        if s.names name then some (-eexist, dir)
        else some (addGotIt v cache dir name iNo ⟨dir.data, s.off, s.used, s.recLen⟩)
      | none => some (addGotIt v cache dir name iNo (gotSize v dir)) := by
  have pages : dirPages dir + 1 = dir.iSize / 4096 + (1 + (dirPages dir - dir.iSize / 4096)) := by
    rw [dirPages_eq]
    omega
  obtain ⟨front, back, split, first, last⟩ := wf.tiled.split (Nat.zero_le (dir.iSize / 4096 * 4096)) (Nat.div_mul_le_self _ _)
    fun r member => (wf.slots r member).apart (page_shiftLeft (dir.iSize / 4096) ▸ chunkSize_dvd_page v _)
  have of : PageOf dir (dir.iSize / 4096) back := by
    refine ⟨Nat.div_mul_le_self _ _, ?_, fun s member => split ▸ List.mem_append_right _ member⟩
    have stop : pageStop dir (dir.iSize / 4096) = dir.iSize := by unfold pageStop; omega
    rwa [stop]
  have full : rounds (addInPage v cache dir name) (dir.iSize / 4096) 0 () =
      fold (search (fun s => s.names name || s.fits (ext2DirRecLen name.length)) (gotSlot dir name)) () front := by
    apply rounds_pages wf (fun j page inside of u => addInPage_full wf reads short of (by omega) u)
    · rw [dirPages_eq]
      omega
    · exact fun s member => split ▸ List.mem_append_left _ member
    · have low : min ((0 + dir.iSize / 4096) * 4096) dir.iSize = dir.iSize / 4096 * 4096 := by omega
      rw [low, Nat.zero_mul, Nat.zero_min]
      exact first
  have whole : rounds (addInPage v cache dir name) (dirPages dir + 1) 0 () =
      (fold (search (fun s => s.names name || s.fits (ext2DirRecLen name.length)) (gotSlot dir name)) () (entries dir)).bind
        fun _ => .exit (.ok (gotSize v dir)) := by
    rw [pages, rounds_add, full, split, fold_append]
    cases fold (search (fun s => s.names name || s.fits (ext2DirRecLen name.length)) (gotSlot dir name)) () front with
    | exit got => rfl
    | next u =>
      rw [Loop.bind_next, Loop.bind_next, Nat.zero_add, Nat.add_comm 1, rounds, addInPage_last wf reads short of (by omega)]
      cases fold (search (fun s => s.names name || s.fits (ext2DirRecLen name.length)) (gotSlot dir name)) u back <;> rfl
  unfold ext2AddLink
  rw [whole, fold_search]
  cases (entries dir).find? fun s => s.names name || s.fits (ext2DirRecLen name.length) with
  | none => rfl
  | some s =>
    simp only [Loop.bind_exit, gotSlot]
    split_ifs <;> rfl

/-! ### Empty directories -/

/-- An entry that keeps a directory from being empty. -/
def Slot.occupies (iNo : Nat) (s : Slot) : Bool :=
  s.inode ≠ 0 && !(s.name = [46] && s.inode = iNo) && s.name ≠ [46, 46]

theorem name_getElem (shown : slotAt dir.data s.off = s) {k : Nat} (inside : k < s.name.length) :
    dir.data (s.off + 8 + k) = s.name[k] := by
  have length : deNameLen dir.data s.off = s.name.length := by rw [← slotAt_name_length, shown]
  have name : deName dir.data s.off s.name.length = s.name := by rw [← length]; exact congrArg Slot.name shown
  have byte := congrArg (fun bs => bs[k]?) name
  simp only [deName, Bytes.read, List.getElem?_map, List.getElem?_range inside, Option.map_some, List.getElem?_eq_getElem inside,
    Option.some.injEq] at byte
  exact byte

theorem emptyEntry_eq (wf : WellFormed v dir) (of : PageOf dir j page) (member : s ∈ page)
    (named : s.inode ≠ 0 → s.name ≠ []) (u : Unit) :
    emptyEntry dir u s.off = search (Slot.occupies dir.iNo) (fun _ => ()) u s := by
  have shown := of.shown member
  have inode : deInode dir.data s.off = s.inode := congrArg Slot.inode shown
  have nameLen : deNameLen dir.data s.off = s.name.length := by rw [← slotAt_name_length, shown]
  unfold emptyEntry search Slot.occupies
  rw [if_neg (recLen_ne_zero wf of member), inode, nameLen]
  by_cases free : s.inode = 0
  · simp [free]
  · have byte := @name_getElem dir s shown
    cases name : s.name with
    | nil => exact absurd name (named free)
    | cons b rest =>
      have first := byte (k := 0) (by simp [name])
      simp only [name, List.getElem_cons_zero, Nat.add_zero] at first
      cases rest with
      | nil => by_cases dot : b = 46 <;> by_cases self : s.inode = dir.iNo <;> simp [free, first, dot, self]
      | cons c rest =>
        have second := byte (k := 1) (by simp [name])
        simp only [name, List.getElem_cons_succ, List.getElem_cons_zero] at second
        cases rest with
        | nil => by_cases dot : b = 46 <;> by_cases dots : c = 46 <;> simp [free, first, second, dot, dots]
        | cons d rest => simp [free]

/-- `ext2_empty_dir` finds nothing but the dot entries. -/
theorem emptyDir_iff (wf : WellFormed v dir) (reads : cache.Reads)
    (named : ∀ s, s ∈ entries dir → s.inode ≠ 0 → s.name ≠ []) :
    ext2EmptyDir v cache dir = true ↔ ∀ s, s ∈ entries dir → s.occupies dir.iNo = false := by
  have pages : ∀ j page, PageOf dir j page → ∀ u,
      emptyPage v cache dir j u = fold (search (Slot.occupies dir.iNo) fun _ => ()) u page := by
    intro j page of u
    unfold emptyPage
    rw [getPage_ok wf reads of]
    simp only [page_shiftLeft, lastByte_eq wf of.start]
    apply walkPage_eq of (reclen_pos (by decide))
    · exact fun s member u => emptyEntry_eq wf of member (named s (of.sub s member)) u
    · exact fun s member _ => (wf.slots s (of.sub s member)).short
  unfold ext2EmptyDir
  rw [rounds_entries wf pages, fold_search]
  cases found : (entries dir).find? (Slot.occupies dir.iNo) with
  | none => simpa using List.find?_eq_none.mp found
  | some s =>
    simp only [Bool.false_eq_true, false_iff, not_forall]
    exact ⟨s, List.mem_of_find?_eq_some found, by simp [List.find?_some found]⟩

theorem dotdot_eq (wf : WellFormed v dir) (reads : cache.Reads) {rest : List Slot} (dot : entries dir = s :: rest) :
    ext2Dotdot v cache dir = some s.recLen := by
  obtain ⟨front, back, split, first, -⟩ := @Laid.split _ _ _ _ _ (pageStop dir 0) _ wf.tiled (Nat.zero_le _) (Nat.min_le_right _ _)
    fun r member => (wf.slots r member).apart (pageStop_boundary wf 0)
  have of : PageOf dir 0 front :=
    ⟨by omega, by rw [Nat.zero_mul]; exact first, fun r member => split ▸ List.mem_append_left _ member⟩
  have start : s.off = 0 := by
    have tiled := wf.tiled
    rw [dot] at tiled
    exact tiled.1
  have shown := entries_shown dir s (dot ▸ List.mem_cons_self)
  unfold ext2Dotdot
  rw [getPage_ok wf reads of]
  simp only [ext2NextEntry, Nat.zero_add, Option.some.injEq]
  rw [← start]
  exact congrArg Slot.recLen shown

end OsLab.Ext2
