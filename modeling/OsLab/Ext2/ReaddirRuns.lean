import OsLab.Ext2.Readdir

/-!
# Directories that change while they are read

A reader of a directory accepts every entry that stays in it exactly once, whatever is added,
deleted or rebound between its calls.
-/

namespace OsLab.Ext2
open Bytes Records Runs

variable {v : DirVolume} {dir dir' : Dir} {cache : PageCache} {file : OpenDir} {s : Slot} {front back rest slots : List Slot}
variable {n p q budget : Nat}

/-- An entry starts here, or the last one ends here. -/
def Boundary (dir : Dir) (p : Nat) : Prop :=
  ∃ front back, entries dir = front ++ back ∧ Tiled 0 front p ∧ Tiled p back dir.iSize

/-! ### Where a walk resumes -/

theorem validateEntry_eq (wf : WellFormed v dir) {offset : Nat} (low : offset < 4096) (inside : n * 4096 + offset < dir.iSize) :
    ∃ front back p, entries dir = front ++ back ∧ Tiled 0 front p ∧ Tiled p back dir.iSize ∧ n * 4096 + offset ≤ p ∧
      p ≤ pageStop dir n ∧ (∀ s, s ∈ front → s.off < n * 4096 + offset) ∧
      ext2ValidateEntry dir.data (n <<< pageShift) offset (complement (ext2ChunkSize v - 1)) = p - n * 4096 := by
  have size : 0 < ext2ChunkSize v := Nat.two_pow_pos _
  have bits : v.blocksizeBits ≤ 32 := v.sizes.2.trans (by decide)
  have start : offset &&& complement (ext2ChunkSize v - 1) = offset / ext2ChunkSize v * ext2ChunkSize v :=
    and_complement bits (by omega)
  have below := Nat.div_mul_le_self offset (ext2ChunkSize v)
  have boundary : ext2ChunkSize v ∣ n * 4096 + offset / ext2ChunkSize v * ext2ChunkSize v :=
    Nat.dvd_add (page_shiftLeft n ▸ chunkSize_dvd_page v n) (Dvd.intro_left _ rfl)
  obtain ⟨far, near, split, first, last⟩ := wf.tiled.split (Nat.zero_le _)
    (show n * 4096 + offset / ext2ChunkSize v * ext2ChunkSize v ≤ dir.iSize by omega)
    fun r member => (wf.slots r member).apart boundary
  obtain ⟨walked, back, p, rfl, before, after, high, early, least⟩ := last.first inside.le
  have sub : ∀ r, r ∈ walked ++ back → r ∈ entries dir := fun r member => split ▸ List.mem_append_right _ member
  have stop : p ≤ pageStop dir n := by
    refine least (pageStop dir n) ?_ ?_ fun r member => (wf.slots r (sub r member)).apart (pageStop_boundary wf n)
    · unfold pageStop
      omega
    · unfold pageStop
      omega
  have recLen : ∀ r, r ∈ walked → deRecLen dir.data r.off = r.recLen := fun r member =>
    congrArg Slot.recLen (entries_shown dir r (sub r (List.mem_append_left _ member)))
  have length : walked.length ≤ pageSize := by
    have bound := before.length
    unfold pageStop at stop
    rw [pageSize_eq]
    omega
  obtain ⟨left, fuel⟩ : ∃ left, pageSize + 1 = walked.length + (left + 1) := ⟨pageSize - walked.length, by omega⟩
  refine ⟨far ++ walked, back, p, by rw [split, List.append_assoc], laid_append.mpr ⟨_, first, before⟩, after, high, stop, ?_, ?_⟩
  · intro r member
    rcases List.mem_append.mp member with old | new
    · have ends := (first.mem old).2
      have pos := (wf.slots r (split ▸ List.mem_append_left _ old)).pos
      omega
    · exact early r new
  · unfold ext2ValidateEntry
    rw [start, page_shiftLeft, fuel, walk_within before (f := fun u _ => .next u)]
    · rw [fold_silent fun _ _ _ => rfl, Loop.bind_next, walk, if_neg (by simpa using high)]
    · intro r member
      rw [ext2NextEntry, recLen r member]
    · intro r member
      simpa using early r member
    · intro r member u
      have pos := (wf.slots r (sub r (List.mem_append_left _ member))).pos
      rw [recLen r member, if_neg (by omega)]

/-- Where the walk of a call begins. -/
def walkStart (v : DirVolume) (dir : Dir) (file : OpenDir) : Nat :=
  (file.pos >>> pageShift) <<< pageShift + (revalidate v dir (file.pos >>> pageShift) (readdirStart dir file 0)).offset

/-- The walk begins at the first entry behind the position. -/
theorem revalidate_eq (wf : WellFormed v dir) (unchanged : file.fVersion = dir.iVersion → Boundary dir file.pos)
    (inside : file.pos + 12 ≤ dir.iSize) (budget : Nat) :
    ∃ front back, entries dir = front ++ back ∧ Tiled 0 front (walkStart v dir file) ∧
      Tiled (walkStart v dir file) back dir.iSize ∧ file.pos ≤ walkStart v dir file ∧
      (∀ s, s ∈ front → s.off < file.pos) ∧ walkStart v dir file ≤ pageStop dir (file.pos / 4096) ∧
      revalidate v dir (file.pos >>> pageShift) (readdirStart dir file budget) =
        ⟨walkStart v dir file - file.pos / 4096 * 4096, false, dir.iVersion, ⟨walkStart v dir file, budget, []⟩⟩ := by
  have offset : file.pos &&& (pageSize - 1) = file.pos % 4096 := Nat.and_two_pow_sub_one_eq_mod file.pos 12
  have whole : file.pos / 4096 * 4096 + file.pos % 4096 = file.pos := Nat.div_add_mod' _ _
  have stop : file.pos < pageStop dir (file.pos / 4096) := by
    unfold pageStop
    omega
  have pos : ∀ r, r ∈ entries dir → 12 ≤ r.recLen := fun r member => (wf.slots r member).pos
  by_cases same : file.fVersion = dir.iVersion
  · obtain ⟨front, back, split, before, after⟩ := unchanged same
    have start : walkStart v dir file = file.pos := by
      simp only [walkStart, revalidate, readdirStart, same, offset, page_shiftLeft, page_shiftRight, ne_eq, not_true_eq_false,
        decide_false, Bool.false_eq_true, if_false]
      exact whole
    rw [start]
    refine ⟨front, back, split, before, after, Nat.le_refl _, fun r member => ?_, stop.le, ?_⟩
    · have ends := (before.mem member).2
      have least := pos r (split ▸ List.mem_append_left _ member)
      omega
    · have left : file.pos % 4096 = file.pos - file.pos / 4096 * 4096 := by omega
      simp only [revalidate, readdirStart, same, offset, left, ne_eq, not_true_eq_false, decide_false, Bool.false_eq_true, if_false]
  · have changed : ¬ dir.iVersion = file.fVersion := Ne.symm same
    by_cases aligned : file.pos % 4096 = 0
    · have page : file.pos / 4096 * 4096 = file.pos := Nat.div_mul_cancel (Nat.dvd_of_mod_eq_zero aligned)
      have start : walkStart v dir file = file.pos := by
        simp only [walkStart, revalidate, readdirStart, changed, aligned, offset, page_shiftLeft, page_shiftRight, ne_eq,
          not_false_eq_true, decide_true, not_true_eq_false, if_true, if_false]
        rw [Nat.add_zero, page]
      obtain ⟨front, back, split, before, after⟩ := wf.tiled.split (Nat.zero_le _) (show file.pos ≤ dir.iSize by omega)
        fun r member => (wf.slots r member).apart (by
          rw [← page, ← page_shiftLeft]
          exact chunkSize_dvd_page v _)
      rw [start]
      refine ⟨front, back, split, before, after, Nat.le_refl _, fun r member => ?_, stop.le, ?_⟩
      · have ends := (before.mem member).2
        have least := pos r (split ▸ List.mem_append_left _ member)
        omega
      · have left : file.pos - file.pos / 4096 * 4096 = 0 := by rw [page, Nat.sub_self]
        simp only [revalidate, readdirStart, changed, aligned, offset, left, ne_eq, not_false_eq_true, decide_true,
          not_true_eq_false, if_true, if_false]
    · obtain ⟨front, back, p, split, before, after, high, top, early, found⟩ :=
        @validateEntry_eq v dir (file.pos / 4096) wf (file.pos % 4096) (Nat.mod_lt _ (by decide)) (by omega)
      rw [whole] at high early
      have start : walkStart v dir file = p := by
        simp only [walkStart, revalidate, readdirStart, changed, aligned, offset, page_shiftRight, ne_eq, not_false_eq_true,
          decide_true, if_true, found]
        rw [page_shiftLeft]
        omega
      rw [start]
      refine ⟨front, back, split, before, after, high, early, top, ?_⟩
      have sum : file.pos / 4096 * 4096 + (p - file.pos / 4096 * 4096) = p := by omega
      simp only [revalidate, readdirStart, changed, aligned, offset, page_shiftRight, ne_eq, not_false_eq_true, decide_true,
        if_true, found]
      rw [page_shiftLeft, sum]

/-! ### Emitting entries -/

/-- What a round makes of an entry. -/
def emitSlot (ctx : DirContext) (s : Slot) : Loop (Int × DirContext) DirContext :=
  if s.inode ≠ 0 then
    if ctx.budget = 0 then .exit (0, ctx)
    else .next ⟨ctx.pos + s.recLen, ctx.budget - 1, ctx.emitted ++ [⟨ctx.pos, s.inode, s.name⟩]⟩
  else .next { ctx with pos := ctx.pos + s.recLen }

/-- The value and the context that a loop over entries ends with. -/
def emitResult : Loop (Int × DirContext) DirContext → Int × DirContext
  | .exit result => result
  | .next ctx => (0, ctx)

theorem emitEntry_eq (shown : slotAt dir.data s.off = s) (pos : 12 ≤ s.recLen) (ctx : DirContext) :
    emitEntry dir.data ctx s.off = emitSlot ctx s := by
  have inode : deInode dir.data s.off = s.inode := congrArg Slot.inode shown
  have recLen : deRecLen dir.data s.off = s.recLen := congrArg Slot.recLen shown
  have name : deName dir.data s.off (deNameLen dir.data s.off) = s.name := congrArg Slot.name shown
  unfold emitEntry emitSlot
  rw [inode, recLen, name, if_neg (by omega)]

/-- Entries are emitted in their order until one is refused. -/
theorem emit_front (tiled : Tiled p slots q) {ctx : DirContext} (here : ctx.pos = p) :
    ∃ front back ctx', slots = front ++ back ∧ emitResult (fold emitSlot ctx slots) = (0, ctx') ∧
      Tiled p front ctx'.pos ∧ Tiled ctx'.pos back q ∧ ctx'.emitted = ctx.emitted ++ links front := by
  induction slots generalizing p ctx with
  | nil => exact ⟨[], [], ctx, rfl, rfl, here.symm, here ▸ tiled, by simp [links]⟩
  | cons s slots ih =>
    obtain ⟨start, pos, rest⟩ := tiled
    by_cases live : s.inode ≠ 0
    · by_cases empty : ctx.budget = 0
      · refine ⟨[], s :: slots, ctx, rfl, ?_, here.symm, ⟨start.trans here.symm, pos, here ▸ rest⟩, by simp [links]⟩
        rw [fold, emitSlot, if_pos live, if_pos empty]
        rfl
      · obtain ⟨front, back, ctx', split, result, before, after, emitted⟩ :=
          @ih (p + s.recLen) rest ⟨ctx.pos + s.recLen, ctx.budget - 1, ctx.emitted ++ [⟨ctx.pos, s.inode, s.name⟩]⟩
            (by rw [here])
        refine ⟨s :: front, back, ctx', congrArg (s :: ·) split, ?_, ⟨start, pos, before⟩, after, ?_⟩
        · rw [fold, emitSlot, if_pos live, if_neg empty]
          exact result
        · rw [emitted, links_live live, Slot.link, start, here, List.append_assoc]
          rfl
    · obtain ⟨front, back, ctx', split, result, before, after, emitted⟩ :=
        @ih (p + s.recLen) rest { ctx with pos := ctx.pos + s.recLen } (by rw [here])
      refine ⟨s :: front, back, ctx', congrArg (s :: ·) split, ?_, ⟨start, pos, before⟩, after, ?_⟩
      · rw [fold, emitSlot, if_neg live]
        exact result
      · rw [emitted, links_free (not_not.mp live)]

/-! ### The loop over the pages -/

theorem pageOf_exists (wf : WellFormed v dir) (inside : n * 4096 ≤ dir.iSize) : ∃ page, PageOf dir n page := by
  obtain ⟨front, back, split, -, last⟩ := wf.tiled.split (Nat.zero_le _) inside
    fun r member => (wf.slots r member).apart (page_shiftLeft n ▸ chunkSize_dvd_page v n)
  have sub : ∀ r, r ∈ back → r ∈ entries dir := fun r member => split ▸ List.mem_append_right _ member
  obtain ⟨page, rest, rfl, here, -⟩ := last.split (show n * 4096 ≤ pageStop dir n by unfold pageStop; omega)
    (Nat.min_le_right _ _) fun r member => (wf.slots r (sub r member)).apart (pageStop_boundary wf n)
  exact ⟨page, inside, here, fun r member => sub r (List.mem_append_left _ member)⟩

/-- The rounds from a boundary on emit the entries behind it. -/
theorem readPages_eq (wf : WellFormed v dir) (reads : cache.Reads) {left : Nat} (pages : n + left = dirPages dir)
    (tiled : Tiled p back dir.iSize) (sub : ∀ s, s ∈ back → s ∈ entries dir) {st : Readdir} (valid : st.needRevalidate = false)
    (here : 0 < left → n * 4096 ≤ p ∧ p ≤ pageStop dir n ∧ st.offset = p - n * 4096) (done : left = 0 → p = dir.iSize) :
    readdirResult (rounds (readdirPage v cache dir) left n st) =
      ((emitResult (fold emitSlot st.ctx back)).1, (emitResult (fold emitSlot st.ctx back)).2.emitted,
        ⟨(emitResult (fold emitSlot st.ctx back)).2.pos, st.fVersion⟩) := by
  induction left generalizing n p back st with
  | zero =>
    have same := done rfl
    have length := tiled.length
    have none : back = [] := List.eq_nil_of_length_eq_zero (by omega)
    rw [none]
    rfl
  | succ left ih =>
    obtain ⟨low, high, offset⟩ := here (Nat.succ_pos left)
    have start := @dirPages_le dir n (by omega)
    obtain ⟨whole, of⟩ := pageOf_exists wf start.le
    obtain ⟨page, rest, rfl, first, later⟩ := tiled.split high (Nat.min_le_right _ _)
      fun r member => (wf.slots r (sub r member)).apart (pageStop_boundary wf n)
    have shown : ∀ r, r ∈ page → slotAt dir.data r.off = r := fun r member =>
      entries_shown dir r (sub r (List.mem_append_left _ member))
    have pos : ∀ r, r ∈ page → 12 ≤ r.recLen := fun r member => (wf.slots r (sub r (List.mem_append_left _ member))).pos
    have length : page.length < pageSize + 1 := by
      have bound := first.length
      have stop := of.stop_le
      rw [pageSize_eq]
      omega
    have walked : (walk (fun de => de + ext2DirRecLen 1 ≤ n * 4096 + ext2LastByte dir n) (emitEntry dir.data)
        (ext2NextEntry dir.data) (pageSize + 1) st.ctx (n * 4096 + st.offset)).forget = fold emitSlot st.ctx page := by
      rw [lastByte_eq wf start.le, offset, Nat.add_sub_cancel' low]
      refine walk_forget first ?_ ?_ ?_ ?_ ?_ length st.ctx
      · intro r member
        rw [ext2NextEntry]
        exact congrArg (r.off + ·) (congrArg Slot.recLen (shown r member))
      · intro x y le inside
        simp only [decide_eq_true_eq] at inside ⊢
        omega
      · rw [ext2DirRecLen_one]
        simp only [decide_eq_false_iff_not]
        omega
      · exact fun r member _ ctx => emitEntry_eq (shown r member) (pos r member) ctx
      · intro r member beyond
        have ends := (first.mem member).2
        have least := pos r member
        rw [ext2DirRecLen_one] at beyond
        simp only [decide_eq_false_iff_not] at beyond
        omega
    have kept : revalidate v dir n st = st := by
      rw [revalidate, valid]
      rfl
    rw [rounds, readdirPage, getPage_ok wf reads of]
    simp only [kept, page_shiftLeft, walked]
    rw [fold_append]
    cases fold emitSlot st.ctx page with
    | exit result => rfl
    | next ctx =>
      rw [Loop.bind_next, Loop.bind_next]
      refine ih (n := n + 1) (by omega) later (fun r member => sub r (List.mem_append_right _ member)) valid ?_ ?_
      · intro more
        have next := @dirPages_le dir (n + 1) (by omega)
        show (n + 1) * 4096 ≤ pageStop dir n ∧ pageStop dir n ≤ pageStop dir (n + 1) ∧ 0 = pageStop dir n - (n + 1) * 4096
        unfold pageStop
        omega
      · intro last
        rw [dirPages_eq] at pages
        unfold pageStop
        omega

/-- A call emits the entries between two boundaries, the first one at or behind its position. -/
theorem readdir_eq (wf : WellFormed v dir) (reads : cache.Reads)
    (unchanged : file.fVersion = dir.iVersion → Boundary dir file.pos) (inside : file.pos + 12 ≤ dir.iSize) (budget : Nat) :
    ∃ front mid back q, entries dir = front ++ (mid ++ back) ∧ Tiled 0 front (walkStart v dir file) ∧
      Tiled (walkStart v dir file) mid q ∧ Tiled q back dir.iSize ∧ file.pos ≤ walkStart v dir file ∧
      (∀ s, s ∈ front → s.off < file.pos) ∧
      ext2Readdir v cache dir file budget = (0, links mid, ⟨q, dir.iVersion⟩) := by
  obtain ⟨front, tail, split, before, after, low, early, stop, valid⟩ := revalidate_eq wf unchanged inside budget
  have sub : ∀ s, s ∈ tail → s ∈ entries dir := fun s member => split ▸ List.mem_append_right _ member
  obtain ⟨mid, back, ctx, rfl, result, emits, rests, emitted⟩ :=
    @emit_front tail (walkStart v dir file) dir.iSize after ⟨walkStart v dir file, budget, []⟩ rfl
  have pages : file.pos / 4096 + (dirPages dir - file.pos / 4096) = dirPages dir := by
    rw [dirPages_eq]
    omega
  have more : 0 < dirPages dir - file.pos / 4096 := by
    rw [dirPages_eq]
    omega
  have page := Nat.div_mul_le_self file.pos 4096
  refine ⟨front, mid, back, ctx.pos, split, before, emits, rests, low, early, ?_⟩
  obtain ⟨left, count⟩ : ∃ left, dirPages dir - file.pos / 4096 = left + 1 := ⟨dirPages dir - file.pos / 4096 - 1, by omega⟩
  have first : rounds (readdirPage v cache dir) (left + 1) (file.pos / 4096) (readdirStart dir file budget) =
      rounds (readdirPage v cache dir) (left + 1) (file.pos / 4096)
        ⟨walkStart v dir file - file.pos / 4096 * 4096, false, dir.iVersion, ⟨walkStart v dir file, budget, []⟩⟩ := by
    rw [page_shiftRight] at valid
    obtain ⟨whole, of⟩ := @pageOf_exists v dir (file.pos / 4096) wf (by omega)
    have again : revalidate v dir (file.pos / 4096)
        ⟨walkStart v dir file - file.pos / 4096 * 4096, false, dir.iVersion, ⟨walkStart v dir file, budget, []⟩⟩ =
        ⟨walkStart v dir file - file.pos / 4096 * 4096, false, dir.iVersion, ⟨walkStart v dir file, budget, []⟩⟩ := rfl
    rw [rounds, rounds, readdirPage, readdirPage, getPage_ok wf reads of]
    simp only [valid, again]
  have read := @readPages_eq v dir cache (mid ++ back) (file.pos / 4096) (walkStart v dir file) wf reads (left + 1) (by omega) after sub
    ⟨walkStart v dir file - file.pos / 4096 * 4096, false, dir.iVersion, ⟨walkStart v dir file, budget, []⟩⟩ rfl
    (fun _ => ⟨by omega, stop, rfl⟩) (fun none => absurd none (by omega))
  rw [result] at read
  unfold ext2Readdir
  rw [if_neg (by rw [ext2DirRecLen_one]; omega)]
  simp only [page_shiftRight, count, first, read, emitted, List.nil_append]

/-! ### Readers -/

/-- A reader of a directory, with all it has accepted and what the directory has been since it began. -/
structure Reader where
  dir : Dir
  file : OpenDir
  accepted : List Link
  dirs : List Dir

inductive ReaderEvent where
  | readdir (cache : PageCache) (budget : Nat)
  | change (call : DirCall) (answer : DirAnswer)

inductive ReaderStep (v : DirVolume) : Reader → ReaderEvent → Reader → Prop
  | readdir (r : Reader) (cache : PageCache) (budget : Nat) : cache.Reads →
      ReaderStep v r (.readdir cache budget) { r with
        file := (ext2Readdir v cache r.dir r.file budget).2.2
        accepted := r.accepted ++ (ext2Readdir v cache r.dir r.file budget).2.1 }
  | change (r : Reader) (call : DirCall) (answer : DirAnswer) (dir : Dir) : Calls v r.dir (call, answer) dir →
      ReaderStep v r (.change call answer) { r with dir := dir, dirs := r.dirs ++ [dir] }

/-- The entry is live, under whatever inode number. -/
def LiveIn (dir : Dir) (off : Nat) (name : List UInt8) : Prop := ∃ iNo, ⟨off, iNo, name⟩ ∈ links (entries dir)

/-- The version changes unless the entries are what they were. -/
def Versioned (dir dir' : Dir) : Prop :=
  dir'.iVersion = dir.iVersion + 1 ∨
    dir'.iVersion = dir.iVersion ∧ dir'.iSize = dir.iSize ∧ entries dir' = entries dir

/-- A well-formed directory whose live entries have names. -/
structure Readable (v : DirVolume) (dir : Dir) : Prop where
  wf : WellFormed v dir
  named : ∀ l, l ∈ links (entries dir) → l.name ≠ []

structure Reading (v : DirVolume) (r : Reader) : Prop where
  readable : Readable v r.dir
  last : r.dir ∈ r.dirs
  version : r.file.fVersion ≤ r.dir.iVersion
  unchanged : r.file.fVersion = r.dir.iVersion → Boundary r.dir r.file.pos
  inside : r.file.pos ≤ r.dir.iSize
  ordered : r.accepted.Pairwise fun l l' => l.off < l'.off
  behind : ∀ l, l ∈ r.accepted → l.off < r.file.pos
  complete : ∀ off name, (∀ d, d ∈ r.dirs → LiveIn d off name) → off < r.file.pos →
    ∃ l, l ∈ r.accepted ∧ l.off = off ∧ l.name = name

variable {r r' : Reader}

theorem links_ordered (tiled : Tiled p slots q) :
    ((links slots).Pairwise fun l l' => l.off < l'.off) ∧ ∀ l, l ∈ links slots → p ≤ l.off ∧ l.off < q := by
  induction slots generalizing p with
  | nil => exact ⟨List.Pairwise.nil, by simp [links]⟩
  | cons s slots ih =>
    obtain ⟨start, pos, rest⟩ := tiled
    obtain ⟨order, range⟩ := ih rest
    have high := rest.le
    by_cases live : s.inode = 0
    · rw [links_free live]
      exact ⟨order, fun l member => ⟨by have low := (range l member).1; omega, (range l member).2⟩⟩
    · rw [links_live live]
      refine ⟨List.Pairwise.cons (fun l member => ?_) order, fun l member => ?_⟩
      · have low := (range l member).1
        show s.off < l.off
        omega
      · rcases List.mem_cons.mp member with rfl | later
        · show p ≤ s.off ∧ s.off < q
          omega
        · have low := range l later
          omega

theorem Reading.boundary (reading : Reading v r) (more : r.file.pos + 12 ≤ r.dir.iSize) :
    Boundary r.dir (walkStart v r.dir r.file) := by
  obtain ⟨front, back, split, before, after, -⟩ :=
    revalidate_eq reading.readable.wf reading.unchanged more 0
  exact ⟨front, back, split, before, after⟩

theorem Reading.readdir (reading : Reading v r) (reads : cache.Reads) (budget : Nat) :
    Reading v { r with
      file := (ext2Readdir v cache r.dir r.file budget).2.2
      accepted := r.accepted ++ (ext2Readdir v cache r.dir r.file budget).2.1 } := by
  by_cases more : r.file.pos + 12 ≤ r.dir.iSize
  · obtain ⟨front, mid, back, q, split, before, emits, rests, low, early, result⟩ :=
      @readdir_eq v r.dir cache r.file reading.readable.wf reads reading.unchanged more budget
    obtain ⟨order, range⟩ := links_ordered emits
    have high := emits.le
    rw [result]
    refine ⟨reading.readable, reading.last, Nat.le_refl _, fun _ => ?_, rests.le, ?_, ?_, ?_⟩
    · exact ⟨front ++ mid, back, by rw [split, List.append_assoc], laid_append.mpr ⟨_, before, emits⟩, rests⟩
    · refine List.pairwise_append.mpr ⟨reading.ordered, order, fun l old l' new => ?_⟩
      have left := reading.behind l old
      have right := (range l' new).1
      omega
    · intro l member
      rcases List.mem_append.mp member with old | new
      · have left := reading.behind l old
        show l.off < q
        omega
      · exact (range l new).2
    · intro off name live below
      have below : off < q := below
      by_cases old : off < r.file.pos
      · obtain ⟨l, member, same⟩ := reading.complete off name live old
        exact ⟨l, List.mem_append_left _ member, same⟩
      · -- An entry behind the position lies behind the boundary where the walk began, and before its end.
        obtain ⟨iNo, here⟩ := live r.dir reading.last
        obtain ⟨s, member, alive, rfl, rfl⟩ := slot_of_link here
        rw [split] at member
        rcases List.mem_append.mp member with first | others
        · exact absurd (early s first) old
        · rcases List.mem_append.mp others with middle | final
          · exact ⟨s.link, List.mem_append_right _ (mem_links.mpr ⟨s, middle, alive, rfl⟩), rfl, rfl⟩
          · have start := (rests.mem final).1
            omega
  · have done : ext2Readdir v cache r.dir r.file budget = (0, [], r.file) :=
      if_pos (by rw [ext2DirRecLen_one]; omega)
    rw [done]
    simpa using reading

theorem Readable.slots_named (readable : Readable v dir) (member : s ∈ entries dir) (live : s.inode ≠ 0) : s.name ≠ [] :=
  readable.named s.link (mem_links.mpr ⟨s, member, live, rfl⟩)

/-- A change keeps a directory readable, and leaves no trace without a new version. -/
theorem Readable.change (readable : Readable v dir) {event : DirCall × DirAnswer} (step : Calls v dir event dir') :
    Readable v dir' ∧ dir.iSize ≤ dir'.iSize ∧ Versioned dir dir' := by
  obtain ⟨⟨cache, op⟩, answer⟩ := event
  obtain ⟨⟨reads, maps, passed⟩, stepped⟩ := step
  cases op with
  | addLink name iNo =>
    obtain ⟨long, short, fresh, nonzero, inumber⟩ := passed
    obtain ⟨err, dir'', called, added⟩ := addLink_links readable.wf reads maps
      (fun s member live => readable.slots_named member live) (fresh_iff.mp fresh) long short nonzero inumber
    simp only [dirStep, called, Option.map_some, Option.some_inj, Prod.mk.injEq] at stepped
    obtain ⟨-, rfl⟩ := stepped
    cases added with
    | linked off wf committed size last perm =>
      refine ⟨⟨wf, fun l member => ?_⟩, ?_, Or.inl committed.iVersion⟩
      · rcases List.mem_cons.mp (perm.mem_iff.mp member) with rfl | old
        · exact List.length_pos_iff.mp long
        · exact readable.named l old
      · rw [size]
        split_ifs
        · exact Nat.le_refl _
        · exact Nat.le_add_right _ _
    | refused none failed wf same kept =>
      have size : dir''.iSize = dir.iSize := by rw [same]
      have version : dir''.iVersion = dir.iVersion := by rw [same]
      exact ⟨⟨wf, kept ▸ readable.named⟩, Nat.le_of_eq size.symm, Or.inr ⟨version, size, kept⟩⟩
  | deleteEntry name de =>
    obtain ⟨iNo, member⟩ := passed
    obtain ⟨s, here, live, rfl, rfl⟩ := slot_of_link member
    obtain ⟨dir'', called, wf, committed, size, perm⟩ := deleteEntry_links readable.wf maps here live
    simp only [dirStep, called, Option.map_some, Option.some_inj, Prod.mk.injEq] at stepped
    obtain ⟨-, rfl⟩ := stepped
    exact ⟨⟨wf, fun l member => readable.named l (perm.mem_iff.mpr (List.mem_cons_of_mem _ member))⟩,
      Nat.le_of_eq size.symm, Or.inl committed.iVersion⟩
  | setLink name de iNo =>
    obtain ⟨⟨old, member⟩, nonzero, inumber⟩ := passed
    obtain ⟨s, here, live, rfl, rfl⟩ := slot_of_link member
    obtain ⟨dir'', called, wf, committed, size, rest, perm, perm'⟩ :=
      setLink_links readable.wf maps here live nonzero inumber
    simp only [dirStep, called, Option.map_some, Option.some_inj, Prod.mk.injEq] at stepped
    obtain ⟨-, rfl⟩ := stepped
    refine ⟨⟨wf, fun l member => ?_⟩, Nat.le_of_eq size.symm, Or.inl committed.iVersion⟩
    rcases List.mem_cons.mp (perm'.mem_iff.mp member) with rfl | other
    · exact readable.slots_named here live
    · exact readable.named l (perm.mem_iff.mpr (List.mem_cons_of_mem _ other))
  | findEntry name =>
    simp only [dirStep, Option.some_inj, Prod.mk.injEq] at stepped
    obtain ⟨-, rfl⟩ := stepped
    exact ⟨readable, Nat.le_refl _, Or.inr ⟨rfl, rfl, rfl⟩⟩
  | inodeByName name =>
    simp only [dirStep, Option.some_inj, Prod.mk.injEq] at stepped
    obtain ⟨-, rfl⟩ := stepped
    exact ⟨readable, Nat.le_refl _, Or.inr ⟨rfl, rfl, rfl⟩⟩

theorem Reading.change (reading : Reading v r) {event : DirCall × DirAnswer} (step : Calls v r.dir event dir) :
    Reading v { r with dir := dir, dirs := r.dirs ++ [dir] } := by
  obtain ⟨readable, size, versioned⟩ := reading.readable.change step
  have version := reading.version
  have inside := reading.inside
  refine ⟨readable, List.mem_append_right _ List.mem_cons_self, ?_, ?_, inside.trans size, reading.ordered, reading.behind, ?_⟩
  · show r.file.fVersion ≤ dir.iVersion
    rcases versioned with next | ⟨same, -⟩ <;> omega
  · intro current
    have current : r.file.fVersion = dir.iVersion := current
    rcases versioned with next | ⟨same, length, kept⟩
    · omega
    · obtain ⟨front, back, split, before, after⟩ := reading.unchanged (current.trans same)
      exact ⟨front, back, kept.trans split, before, length ▸ after⟩
  · exact fun off name live below =>
      reading.complete off name (fun d member => live d (List.mem_append_left _ member)) below

theorem Reading.step (reading : Reading v r) {event : ReaderEvent} (step : ReaderStep v r event r') : Reading v r' := by
  cases step with
  | readdir cache budget reads => exact reading.readdir reads budget
  | change call answer dir step => exact reading.change step

theorem reading_start (start : Readable v dir) : Reading v ⟨dir, ⟨0, 0⟩, [], [dir]⟩ where
  readable := start
  last := List.mem_cons_self
  version := Nat.zero_le _
  unchanged _ := ⟨[], entries dir, rfl, rfl, start.wf.tiled⟩
  inside := Nat.zero_le _
  ordered := List.Pairwise.nil
  behind := by simp
  complete := by simp

theorem ordered_once {ls : List Link} (order : ls.Pairwise fun l l' => l.off < l'.off) {l : Link} (member : l ∈ ls) :
    (ls.filter fun l' => l'.off = l.off) = [l] := by
  induction ls with
  | nil => cases member
  | cons first ls ih =>
    obtain ⟨above, rest⟩ := List.pairwise_cons.mp order
    rcases List.mem_cons.mp member with rfl | later
    · have others : (ls.filter fun l' => l'.off = l.off) = [] :=
        List.filter_eq_nil_iff.mpr fun l' there => by
          have below := above l' there
          simp only [decide_eq_true_eq]
          omega
      rw [List.filter_cons_of_pos (by simp), others]
    · have below := above l later
      rw [List.filter_cons_of_neg (by simp only [decide_eq_true_eq]; omega), ih rest later]

/-- An entry that has always been live was accepted once. -/
theorem Reading.once (reading : Reading v r) (ended : r.dir.iSize < r.file.pos + 12) {off : Nat} {name : List UInt8}
    (live : ∀ d, d ∈ r.dirs → LiveIn d off name) :
    (r.accepted.filter fun l => l.off = off).map Link.name = [name] := by
  have here : off < r.file.pos := by
    obtain ⟨iNo, linked⟩ := live r.dir reading.last
    obtain ⟨s, member, -, rfl, -⟩ := slot_of_link linked
    have stop := (reading.readable.wf.tiled.mem member).2
    have least := (reading.readable.wf.slots s member).pos
    omega
  obtain ⟨l, member, rfl, rfl⟩ := reading.complete off name live here
  rw [ordered_once reading.ordered member, List.map_singleton]

theorem readdir_runs (start : Readable v dir) {events : List ReaderEvent}
    (run : Steps (ReaderStep v) ⟨dir, ⟨0, 0⟩, [], [dir]⟩ events r) :
    (r.accepted.Pairwise fun l l' => l.off < l'.off) ∧
      (r.file.pos + 12 ≤ r.dir.iSize → Boundary r.dir (walkStart v r.dir r.file)) ∧
      (r.dir.iSize < r.file.pos + 12 → ∀ off name, (∀ d, d ∈ r.dirs → LiveIn d off name) →
        (r.accepted.filter fun l => l.off = off).map Link.name = [name]) := by
  have reading : Reading v r := run.invariant (fun _ _ _ reading step => reading.step step) (reading_start start)
  exact ⟨reading.ordered, reading.boundary, fun ended off name live => reading.once ended live⟩

/-- Two calls on a directory that gets a new name between them. -/
theorem readdir_runs_link :
    ∃ answer r, Steps (ReaderStep kibiVolume) ⟨dotEntries, ⟨0, 0⟩, [], [dotEntries]⟩
        [.readdir calmCache 1, .change ⟨calmCache, .addLink [97] 12⟩ answer, .readdir calmCache 5] r ∧
      r.dir.iSize < r.file.pos + 12 ∧
      (r.accepted.Pairwise fun l l' => l.off < l'.off) ∧
      (r.file.pos + 12 ≤ r.dir.iSize → Boundary r.dir (walkStart kibiVolume r.dir r.file)) ∧
      (r.dir.iSize < r.file.pos + 12 → ∀ off name, (∀ d, d ∈ r.dirs → LiveIn d off name) →
        (r.accepted.filter fun l => l.off = off).map Link.name = [name]) := by
  obtain ⟨answer, dir', called, -⟩ := dotEntries_directory.serves dotEntries_allowed
  have run : Steps (ReaderStep kibiVolume) ⟨dotEntries, ⟨0, 0⟩, [], [dotEntries]⟩
      [.readdir calmCache 1, .change ⟨calmCache, .addLink [97] 12⟩ answer, .readdir calmCache 5] _ :=
    .cons (.readdir _ calmCache 1 calmCache_reads) (.cons (.change _ _ answer dir' ⟨dotEntries_allowed, called⟩)
      (.cons (.readdir _ calmCache 5 calmCache_reads) (.nil _)))
  have ends : ((dirStep kibiVolume dotEntries ⟨calmCache, .addLink [97] 12⟩).any fun result =>
      decide (result.2.iSize < (ext2Readdir kibiVolume calmCache result.2
        (ext2Readdir kibiVolume calmCache dotEntries ⟨0, 0⟩ 1).2.2 5).2.2.pos + 12)) = true := by decide +kernel
  rw [called, Option.any_some] at ends
  exact ⟨answer, _, run, of_decide_eq_true ends, readdir_runs ⟨dotEntries_directory.wf, dotEntries_directory.named⟩ run⟩

end OsLab.Ext2
