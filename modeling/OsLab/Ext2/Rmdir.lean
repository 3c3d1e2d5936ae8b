import OsLab.Ext2.Namei

/-!
# Removing directories

`ext2_rmdir` of a directory with any bytes. The emptiness test passes over pages that it cannot
get, and takes an entry without a name for `.` when its bytes say so.
-/

namespace OsLab.Ext2.Namei
open Bytes Records

/-- The entries that lie on a page, to the last place where one fits. -/
def pageEntries (dir : Dir) (j : Nat) : List Slot :=
  slotsFrom dir.data (pageStop dir j + 1 - ext2DirRecLen 1) (pageSize + 1) (j * 4096)

/-- No page holds a live entry other than `.` naming the directory itself and `..`. -/
def OnlyDots (dir : Dir) : Prop :=
  ∀ j, j < dirPages dir → ∀ s, s ∈ pageEntries dir j → s.occupies dir.iNo = false

/-- The page can be got, and the entry is not behind its last byte. -/
def Scanned (v : DirVolume) (cache : PageCache) (dir : Dir) (j : Nat) (s : Slot) : Prop :=
  ext2GetPage v cache dir j = .ok () ∧ s.off + ext2DirRecLen 1 ≤ j * 4096 + ext2LastByte dir j

/-- An entry with the number of the directory and a name of length 0, before a dot. -/
def Nameless (dir : Dir) (s : Slot) : Prop := s.name = [] ∧ s.inode = dir.iNo ∧ dir.data (s.off + 8) = 46

/-- What the test finds, entries of length 0 included. -/
def Found (v : DirVolume) (cache : PageCache) (dir : Dir) : Prop :=
  ∃ j s, j < dirPages dir ∧ s ∈ pageEntries dir j ∧ Scanned v cache dir j s ∧
    (s.recLen = 0 ∨ s.occupies dir.iNo = true ∧ ¬ Nameless dir s)

/-- What the test passes over. -/
def Hidden (v : DirVolume) (cache : PageCache) (dir : Dir) : Prop :=
  ∃ j s, j < dirPages dir ∧ s ∈ pageEntries dir j ∧ s.occupies dir.iNo = true ∧
    (¬ Scanned v cache dir j s ∨ Nameless dir s)

/-- The call succeeds on a directory of dots only, and otherwise fails and removes nothing. -/
def SparesFull (v : DirVolume) (io : Nat → PageCache) (dir : Nat) (name : List UInt8) (inode : Nat) (s : State) : Prop :=
  ∀ err s', ext2Rmdir v io dir name inode s = some (err, s') →
    (err = 0 → OnlyDots (s.dirs inode)) ∧
      (err ≠ 0 → ∀ d, links (entries (s'.dirs d)) = links (entries (s.dirs d)))

variable {v : DirVolume} {cache : PageCache} {dir : Dir} {name : List UInt8} {j : Nat}

/-! ### The emptiness test -/

theorem slotsFrom_low {data : Image} {stop fuel de : Nat} {s : Slot} (member : s ∈ slotsFrom data stop fuel de) :
    de ≤ s.off := by
  induction fuel generalizing de with
  | zero => cases member
  | succ fuel ih =>
    rw [slotsFrom] at member
    split_ifs at member with inside
    · rcases List.mem_cons.mp member with rfl | later
      · exact Nat.le_refl _
      · exact (Nat.le_add_right _ _).trans (ih later)
    · cases member

/-- A walk that stops before the entries do leaves at the first entry in its reach that makes it. -/
theorem walk_exit_iff {data : Image} {visit : Unit → Nat → Loop Unit Unit} {bound stop : Nat} (le : bound ≤ stop) (fuel de : Nat) :
    (walk (fun de => de + 12 ≤ bound) visit (ext2NextEntry data) fuel () de).forget = .exit () ↔
      ∃ s, s ∈ slotsFrom data (stop + 1 - 12) fuel de ∧ s.off + 12 ≤ bound ∧ visit () s.off = .exit () := by
  induction fuel generalizing de with
  | zero => simp [walk, Loop.forget, slotsFrom]
  | succ fuel ih =>
    rw [walk, slotsFrom]
    by_cases inside : de + 12 ≤ bound
    · rw [if_pos (by simpa using inside), if_pos (by omega)]
      cases visited : visit () de with
      | exit u => simp [Loop.forget, slotAt_off, inside, visited]
      | next u => simp [ih, slotAt_off, visited]
    · rw [if_neg (by simpa using inside)]
      constructor
      · intro left
        cases left
      · rintro ⟨s, member, reach, -⟩
        split_ifs at member with low
        · rcases List.mem_cons.mp member with rfl | later
          · exact absurd reach inside
          · have above := (Nat.le_add_right de (deRecLen data de)).trans (slotsFrom_low later)
            omega
        · cases member

theorem emptyEntry_exit_iff {de : Nat} :
    emptyEntry dir () de = .exit () ↔ (slotAt dir.data de).recLen = 0 ∨
      (slotAt dir.data de).occupies dir.iNo = true ∧ ¬ Nameless dir (slotAt dir.data de) := by
  obtain ⟨s, shown⟩ : ∃ s, slotAt dir.data de = s := ⟨_, rfl⟩
  have off : s.off = de := shown ▸ rfl
  have here : slotAt dir.data s.off = s := by rw [off, shown]
  have recLen : deRecLen dir.data de = s.recLen := congrArg Slot.recLen shown
  have inode : deInode dir.data de = s.inode := congrArg Slot.inode shown
  have nameLen : deNameLen dir.data de = s.name.length := by rw [← slotAt_name_length, shown]
  have byte := @name_getElem dir s here
  rw [off] at byte
  unfold emptyEntry Slot.occupies Nameless
  rw [shown, recLen, inode, nameLen, off]
  by_cases zero : s.recLen = 0
  · simp [zero]
  by_cases free : s.inode = 0
  · simp [zero, free]
  rw [if_neg zero, if_pos free]
  cases name : s.name with
  | nil =>
    by_cases self : s.inode = dir.iNo
    · have live : dir.iNo ≠ 0 := self ▸ free
      by_cases dot : dir.data (de + 8) = 46 <;> simp [zero, live, dot, self]
    · by_cases dot : dir.data (de + 8) = 46 <;> simp [zero, free, dot, self]
  | cons b rest =>
    have first := byte (k := 0) (by simp [name])
    simp only [name, List.getElem_cons_zero, Nat.add_zero] at first
    cases rest with
    | nil =>
      by_cases self : s.inode = dir.iNo
      · have live : dir.iNo ≠ 0 := self ▸ free
        by_cases dot : b = 46 <;> simp [zero, live, first, dot, self]
      · by_cases dot : b = 46 <;> simp [zero, free, first, dot, self]
    | cons c rest =>
      have second := byte (k := 1) (by simp [name])
      simp only [name, List.getElem_cons_succ, List.getElem_cons_zero] at second
      cases rest with
      | nil => by_cases dot : b = 46 <;> by_cases dots : c = 46 <;> simp [zero, free, first, second, dot, dots]
      | cons d rest => simp [zero, free]

theorem lastByte_le (start : j * 4096 ≤ dir.iSize) : j * 4096 + ext2LastByte dir j ≤ pageStop dir j := by
  obtain ⟨low, high⟩ : ext2LastByte dir j ≤ 4096 ∧ ext2LastByte dir j ≤ dir.iSize - j * 4096 := by
    have low : (((dir.iSize : Int) - (j * 4096 : Nat)) % 2 ^ 32).toNat ≤ dir.iSize - j * 4096 := by omega
    unfold ext2LastByte
    simp only [page_shiftLeft, pageSize_eq]
    split_ifs with full
    · exact ⟨Nat.le_refl _, full.le.trans low⟩
    · exact ⟨Nat.le_of_not_lt full, low⟩
  apply Nat.le_min.mpr
  rw [Nat.add_mul, Nat.one_mul]
  exact ⟨Nat.add_le_add_left low _, by rw [Nat.add_comm]; exact Nat.add_le_of_le_sub start high⟩

theorem emptyPage_exit_iff (inside : j < dirPages dir) :
    emptyPage v cache dir j () = .exit () ↔ ∃ s, s ∈ pageEntries dir j ∧ Scanned v cache dir j s ∧
      (s.recLen = 0 ∨ s.occupies dir.iNo = true ∧ ¬ Nameless dir s) := by
  unfold emptyPage Scanned
  cases got : ext2GetPage v cache dir j with
  | error err => simp
  | ok u =>
    simp only [page_shiftLeft, ext2DirRecLen_one, walk_exit_iff (lastByte_le (dirPages_le inside).le), true_and]
    apply exists_congr
    intro s
    unfold pageEntries
    rw [ext2DirRecLen_one]
    apply and_congr_right
    intro member
    rw [emptyEntry_exit_iff, slotsFrom_shown _ _ _ _ s member]

theorem emptyDir_false_iff : ext2EmptyDir v cache dir = false ↔ Found v cache dir := by
  have left : ext2EmptyDir v cache dir = false ↔ rounds (emptyPage v cache dir) (dirPages dir) 0 () = .exit () := by
    unfold ext2EmptyDir
    cases rounds (emptyPage v cache dir) (dirPages dir) 0 () <;> simp
  rw [left, rounds_exit_iff]
  constructor
  · rintro ⟨j, -, high, stops, -⟩
    rw [Nat.zero_add] at high
    obtain ⟨s, seen⟩ := (emptyPage_exit_iff high).mp stops
    exact ⟨j, s, high, seen⟩
  · rintro ⟨j, s, high, seen⟩
    -- The loop leaves at the first page that shows something.
    obtain ⟨first, stops, least⟩ : ∃ first, (first < dirPages dir ∧ emptyPage v cache dir first () = .exit ()) ∧
        ∀ k, k < first → ¬ (k < dirPages dir ∧ emptyPage v cache dir k () = .exit ()) := by
      classical
      have exists_page : ∃ k, k < dirPages dir ∧ emptyPage v cache dir k () = .exit () :=
        ⟨j, high, (emptyPage_exit_iff high).mpr ⟨s, seen⟩⟩
      exact ⟨Nat.find exists_page, Nat.find_spec exists_page, fun k below => Nat.find_min exists_page below⟩
    refine ⟨first, Nat.zero_le _, by omega, stops.2, fun k _ below => ?_⟩
    cases page : emptyPage v cache dir k () with
    | exit u => exact absurd ⟨by omega, page⟩ (least k below)
    | next u => rfl

/-- When the test finds nothing, what keeps a directory from being empty is hidden. -/
theorem onlyDots_iff (passed : ¬ Found v cache dir) : OnlyDots dir ↔ ¬ Hidden v cache dir := by
  constructor
  · rintro only ⟨j, s, inside, member, other, -⟩
    rw [only j inside s member] at other
    cases other
  · intro none j inside s member
    rw [← Bool.not_eq_true]
    intro other
    by_cases nameless : Nameless dir s
    · exact none ⟨j, s, inside, member, other, Or.inr nameless⟩
    · by_cases scanned : Scanned v cache dir j s
      · exact passed ⟨j, s, inside, member, scanned, Or.inr ⟨other, nameless⟩⟩
      · exact none ⟨j, s, inside, member, other, Or.inl scanned⟩

/-! ### `ext2_rmdir` -/

variable {io : Nat → PageCache} {d inode : Nat} {s : State}

theorem rmdir_found (found : Found v (io 0) (s.dirs inode)) : ext2Rmdir v io d name inode s = some (-enotempty, s) := by
  unfold ext2Rmdir
  rw [emptyDir_false_iff.mpr found]
  rfl

theorem rmdir_unlinks (passed : ¬ Found v (io 0) (s.dirs inode)) :
    ext2Rmdir v io d name inode s = (ext2Unlink v (fun k => io (k + 1)) d name inode s).map fun (err, s) =>
      if err ≠ 0 then (err, s)
      else (0, ((s.setDir inode { s.dirs inode with iSize := 0 }).decLinkCount inode).decLinkCount d) := by
  have empty : ext2EmptyDir v (io 0) (s.dirs inode) = true := by
    rw [← Bool.not_eq_false, emptyDir_false_iff]
    exact passed
  unfold ext2Rmdir
  rw [empty]
  rfl

/-- The call does what it should if the test finds an entry, or the parent cannot be searched, or nothing is hidden and
the commit of the parent goes well. -/
theorem spares_full_iff (short : name.length ≤ 255) (wf : WellFormed v (s.dirs d)) (maps : (io 2).Maps (s.dirs d)) :
    SparesFull v io d name inode s ↔
      Found v (io 0) (s.dirs inode) ∨ (∃ err, ext2FindEntry v (io 1) (s.dirs d) name = .error err) ∨
        (¬ Hidden v (io 0) (s.dirs inode) ∧ commitErr (io 2) (s.dirs d) = 0) := by
  unfold SparesFull
  by_cases found : Found v (io 0) (s.dirs inode)
  · simp only [found, true_or, iff_true, rmdir_found found, Option.some.injEq, Prod.mk.injEq]
    rintro err s' ⟨rfl, rfl⟩
    exact ⟨fun zero => absurd zero (by decide), fun _ _ => rfl⟩
  rw [onlyDots_iff found, rmdir_unlinks found]
  simp only [found, false_or]
  cases located : ext2FindEntry v (io 1) (s.dirs d) name with
  | error err =>
    simp only [ext2Unlink, located, Option.map_some, if_pos (findEntry_error located), Option.some.injEq, Prod.mk.injEq,
      Except.error.injEq, exists_eq', true_or, iff_true]
    rintro err' s' ⟨rfl, rfl⟩
    exact ⟨fun zero => absurd zero (findEntry_error located), fun _ _ => rfl⟩
  | ok de =>
    obtain ⟨r, member, live, -, rfl⟩ := findEntry_located wf short located
    obtain ⟨dir', deleted, -, -, -, perm⟩ := deleteEntry_links wf maps member live
    have lost : links (entries dir') ≠ links (entries (s.dirs d)) := fun same => by
      have length := perm.length_eq
      rw [same, List.length_cons] at length
      omega
    simp only [ext2Unlink, located, deleteEntry, deleted, Option.map_some, reduceCtorEq, exists_false, false_or]
    by_cases committed : commitErr (io 2) (s.dirs d) = 0
    · simp only [committed, ne_eq, not_true_eq_false, if_false, Option.some.injEq, Prod.mk.injEq, and_true]
      constructor
      · exact fun spares => (spares 0 _ ⟨rfl, rfl⟩).1 rfl
      · rintro none err s' ⟨rfl, rfl⟩
        exact ⟨fun _ => none, fun zero => absurd rfl zero⟩
    · simp only [committed, ne_eq, not_false_eq_true, if_true, Option.some.injEq, Prod.mk.injEq, and_false, iff_false]
      intro spares
      apply lost
      have kept := (spares _ _ ⟨rfl, rfl⟩).2 committed d
      rwa [State.setDir_dirs, Function.update_self] at kept

/-- A directory with `a` in it, under the name `d` in its parent. -/
def fullChild : Dir := { oneChunk [12, 0, 0, 0, 12, 0, 1, 0, 46, 0, 0, 0, 2, 0, 0, 0, 12, 0, 2, 0, 46, 46, 0, 0, 13, 0, 0, 0, 0xE8,
  3, 1, 0, 97] with iNo := 12 }

def fullParent : Dir := oneChunk [2, 0, 0, 0, 12, 0, 1, 0, 46, 0, 0, 0, 2, 0, 0, 0, 12, 0, 2, 0, 46, 46, 0, 0, 12, 0, 0, 0, 0xE8,
  3, 1, 0, 100]

def fullState : State where
  dirs i := if i = 12 then fullChild else fullParent
  nlink _ := 2
  isDir _ := true
  inUse _ := true

theorem fullParent_entries :
    entries fullParent = [⟨0, 12, 2, [46]⟩, ⟨12, 12, 2, [46, 46]⟩, ⟨24, 1000, 12, [100]⟩] := by decide +kernel

theorem fullParent_wellFormed : WellFormed kibiVolume (fullState.dirs 2) := by
  refine oneChunk_wellFormed fullParent_entries ⟨rfl, by decide, rfl, by decide, rfl, by decide, rfl⟩ ?_
  intro s member
  simp only [List.mem_cons, List.not_mem_nil, or_false] at member
  rcases member with rfl | rfl | rfl <;> exact ⟨by decide, by decide, by decide, by decide, by decide⟩

theorem spares_full_calm :
    SparesFull kibiVolume (fun _ => calmCache) 2 [100] 12 fullState ↔
      Found kibiVolume calmCache fullChild ∨ (∃ err, ext2FindEntry kibiVolume calmCache fullParent [100] = .error err) ∨
        (¬ Hidden kibiVolume calmCache fullChild ∧ commitErr calmCache fullParent = 0) :=
  @spares_full_iff kibiVolume [100] (fun _ => calmCache) 2 12 fullState (by decide) fullParent_wellFormed fun _ _ _ => rfl

/-- The page of the directory cannot be read; every other call goes well. -/
def unread (k : Nat) : PageCache := if k = 0 then { calmCache with readPage := fun _ => -eio } else calmCache

theorem unread_page_removed :
    ¬ ∀ (v : DirVolume) (io : Nat → PageCache) (d : Nat) (name : List UInt8) (inode : Nat) (s : State), name.length ≤ 255 →
      WellFormed v (s.dirs d) → (io 2).Maps (s.dirs d) → SparesFull v io d name inode s := by
  intro spares
  have full := spares kibiVolume unread 2 [100] 12 fullState (by decide) fullParent_wellFormed fun _ _ _ => rfl
  have success : (ext2Rmdir kibiVolume unread 2 [100] 12 fullState).map Prod.fst = some 0 := by decide +kernel
  obtain ⟨⟨err, s'⟩, removed, zero⟩ := Option.map_eq_some_iff.mp success
  have only := (full err s' removed).1 zero
  have page : (⟨24, 1000, 13, [97]⟩ : Slot) ∈ pageEntries fullChild 0 := by decide +kernel
  exact absurd (only 0 (by decide) _ page) (by decide)

end OsLab.Ext2.Namei
