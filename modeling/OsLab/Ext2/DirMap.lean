import OsLab.Foundation.Keyed
import OsLab.Foundation.Runs
import OsLab.Ext2.DirInsert

/-!
# A directory as a map

A directory stands for a finite map from names to inode numbers. Every run of calls on a
well-formed directory is a run of the map with the same answers. A new name is refused only where
no slot fits it and no chunk can be had.
-/

namespace OsLab.Ext2
open Bytes Records Runs

/-! ### The map -/

abbrev Names := List UInt8 → Option Nat

/-- The calls on a directory. `de` is the entry of the name that a search found. -/
inductive DirOp where
  | addLink (name : List UInt8) (iNo : Nat)
  | deleteEntry (name : List UInt8) (de : Nat)
  | setLink (name : List UInt8) (de iNo : Nat)
  | findEntry (name : List UInt8)
  | inodeByName (name : List UInt8)

structure DirCall where
  cache : PageCache
  op : DirOp

inductive DirAnswer where
  | done (err : Int)
  | found (entry : Except Int Nat)

/-- A call with its answer, the error for want of a place (0 where there is one), and what the commit of a chunk answers. -/
structure DirEvent where
  call : DirCall
  answer : DirAnswer
  refusal : Int
  commit : Int

/-- What a map makes of the calls. -/
inductive NameStep : Names → DirEvent → Names → Prop
  | added (m : Names) (cache : PageCache) (name : List UInt8) (iNo : Nat) (commit : Int) :
      NameStep m ⟨⟨cache, .addLink name iNo⟩, .done commit, 0, commit⟩ (Function.update m name (some iNo))
  | refused (m : Names) (cache : PageCache) (name : List UInt8) (iNo : Nat) (refusal commit : Int) :
      refusal ≠ 0 → NameStep m ⟨⟨cache, .addLink name iNo⟩, .done refusal, refusal, commit⟩ m
  | deleted (m : Names) (cache : PageCache) (name : List UInt8) (de : Nat) (refusal commit : Int) :
      NameStep m ⟨⟨cache, .deleteEntry name de⟩, .done commit, refusal, commit⟩ (Function.update m name none)
  | rebound (m : Names) (cache : PageCache) (name : List UInt8) (de iNo : Nat) (refusal commit : Int) :
      NameStep m ⟨⟨cache, .setLink name de iNo⟩, .done 0, refusal, commit⟩ (Function.update m name (some iNo))
  | located (m : Names) (cache : PageCache) (name : List UInt8) (de : Nat) (refusal commit : Int) :
      (m name).isSome → NameStep m ⟨⟨cache, .findEntry name⟩, .found (.ok de), refusal, commit⟩ m
  | absent (m : Names) (cache : PageCache) (name : List UInt8) (refusal commit : Int) :
      m name = none → NameStep m ⟨⟨cache, .findEntry name⟩, .found (.error (-enoent)), refusal, commit⟩ m
  | looked (m : Names) (cache : PageCache) (name : List UInt8) (refusal commit : Int) :
      NameStep m ⟨⟨cache, .inodeByName name⟩, .found (match m name with
        | some iNo => .ok iNo
        | none => .error (-enoent)), refusal, commit⟩ m

/-! ### The directory -/

/-- `none` when the call comes to `BUG()`. -/
def dirStep (v : DirVolume) (dir : Dir) (call : DirCall) : Option (DirAnswer × Dir) :=
  match call.op with
  | .addLink name iNo => (ext2AddLink v call.cache dir name iNo).map fun (err, dir) => (.done err, dir)
  | .deleteEntry _ de => (ext2DeleteEntry v call.cache dir de).map fun (err, dir) => (.done err, dir)
  | .setLink _ de iNo => (ext2SetLink v call.cache dir de iNo).map fun dir => (.done 0, dir)
  | .findEntry name => some (.found (ext2FindEntry v call.cache dir name), dir)
  | .inodeByName name => some (.found (ext2InodeByName v call.cache dir name), dir)

/-- The names of a directory with their inode numbers. -/
def bindings (dir : Dir) : Names := fun name => (Keyed.find Link.name (links (entries dir)) name).map Link.inode

structure Directory (v : DirVolume) (dir : Dir) : Prop where
  wf : WellFormed v dir
  distinct : Keyed.Distinct Link.name (links (entries dir))
  named : ∀ l, l ∈ links (entries dir) → l.name ≠ []

/-- A new name is not there, an entry that is passed is there, and the block layer gives the directory's own blocks. -/
def Allowed (v : DirVolume) (dir : Dir) (call : DirCall) : Prop :=
  call.cache.Reads ∧ call.cache.Maps dir ∧
    match call.op with
    | .addLink name iNo =>
      1 ≤ name.length ∧ name.length ≤ 255 ∧ bindings dir name = none ∧ iNo ≠ 0 ∧ iNo ≤ v.inodesCount
    | .deleteEntry name de => ∃ iNo, ⟨de, iNo, name⟩ ∈ links (entries dir)
    | .setLink name de iNo => (∃ old, ⟨de, old, name⟩ ∈ links (entries dir)) ∧ iNo ≠ 0 ∧ iNo ≤ v.inodesCount
    | .findEntry name | .inodeByName name => name.length ≤ 255

/-- A call that the VFS may make, with its answer. -/
def Calls (v : DirVolume) (dir : Dir) (event : DirCall × DirAnswer) (dir' : Dir) : Prop :=
  Allowed v dir event.1 ∧ dirStep v dir event.1 = some (event.2, dir')

/-- 0 when a slot fits the new entry or a chunk can be had behind the others, else the error of the chunk. -/
def refusal (v : DirVolume) (dir : Dir) (call : DirCall) : Int :=
  match call.op with
  | .addLink name _ =>
    if (entries dir).any (Slot.fits (ext2DirRecLen name.length)) then 0
    else ext2PrepareChunk v call.cache dir.iSize (ext2ChunkSize v)
  | _ => 0

/-- The event of a call on a directory with its answer. -/
def eventOf (v : DirVolume) (dir : Dir) (call : DirCall) (answer : DirAnswer) : DirEvent :=
  ⟨call, answer, refusal v dir call, commitErr call.cache dir⟩

def Happens (v : DirVolume) (dir : Dir) (event : DirEvent) (dir' : Dir) : Prop :=
  Calls v dir (event.call, event.answer) dir' ∧ event = eventOf v dir event.call event.answer

/-- A new entry goes into a slot that fits, else into a chunk at the old `i_size`. Without either nothing changes. An entry
that is found is one of the name. -/
def Placed (v : DirVolume) (dir : Dir) (call : DirCall) (answer : DirAnswer) (dir' : Dir) : Prop :=
  match call.op with
  | .addLink name iNo =>
    if (entries dir).any (Slot.fits (ext2DirRecLen name.length)) then
      dir'.iSize = dir.iSize ∧ ∃ off, ⟨off, iNo, name⟩ ∈ links (entries dir')
    else if ext2PrepareChunk v call.cache dir.iSize (ext2ChunkSize v) = 0 then
      dir'.iSize = dir.iSize + ext2ChunkSize v ∧ ⟨dir.iSize, iNo, name⟩ ∈ links (entries dir')
    else dir'.iSize = dir.iSize ∧ links (entries dir') = links (entries dir)
  | .findEntry name => dir' = dir ∧ ∀ de, answer = .found (.ok de) → ∃ iNo, ⟨de, iNo, name⟩ ∈ links (entries dir)
  | _ => dir'.iSize = dir.iSize

variable {v : DirVolume} {dir dir' : Dir} {cache : PageCache} {s : Slot} {l : Link} {slots : List Slot}
variable {name : List UInt8} {iNo de : Nat}

/-! ### Live entries and names -/

theorem find_links (slots : List Slot) (name : List UInt8) :
    (slots.find? (Slot.names name)).map Slot.link = Keyed.find Link.name (links slots) name := by
  induction slots with
  | nil => rfl
  | cons s slots ih =>
    by_cases live : s.inode = 0
    · rw [links_free live, ← ih, List.find?_cons_of_neg (by simp [Slot.names, live])]
    · rw [links_live live]
      by_cases same : s.name = name
      · rw [List.find?_cons_of_pos (by simp [Slot.names, live, same]), Keyed.find, List.find?_cons_of_pos (by simp [Slot.link, same])]
        rfl
      · rw [List.find?_cons_of_neg (by simp [Slot.names, same]), Keyed.find, List.find?_cons_of_neg (by simp [Slot.link, same])]
        exact ih

theorem bindings_eq (dir : Dir) (name : List UInt8) :
    bindings dir name = ((entries dir).find? (Slot.names name)).map Slot.inode := by
  rw [bindings, ← find_links, Option.map_map]
  rfl

theorem fresh_iff : bindings dir name = none ↔ ∀ s, s ∈ entries dir → s.names name = false := by
  simp [bindings_eq]

theorem Directory.slots_named (inv : Directory v dir) {s : Slot} (member : s ∈ entries dir) (live : s.inode ≠ 0) :
    s.name ≠ [] := inv.named s.link (mem_links.mpr ⟨s, member, live, rfl⟩)

/-- A live entry that is passed is an entry of the directory. -/
theorem slot_of_link (member : ⟨de, iNo, name⟩ ∈ links (entries dir)) :
    ∃ s, s ∈ entries dir ∧ s.inode ≠ 0 ∧ s.off = de ∧ s.name = name := by
  obtain ⟨s, here, live, same⟩ := mem_links.mp member
  exact ⟨s, here, live, congrArg Link.off same, congrArg Link.name same⟩

/-! ### Steps -/

theorem map_find_update {f : List UInt8 → Option Link} {o : Option Link} :
    (fun k => (Function.update f name o k).map Link.inode) =
      Function.update (fun k => (f k).map Link.inode) name (o.map Link.inode) :=
  Function.comp_update (Option.map Link.inode) f name o

theorem Directory.added (inv : Directory v dir) (wf : WellFormed v dir') (new : l.name ≠ [])
    (fresh : bindings dir l.name = none) (perm : (links (entries dir')).Perm (l :: links (entries dir))) :
    Directory v dir' ∧ bindings dir' = Function.update (bindings dir) l.name (some l.inode) := by
  have absent : Keyed.find Link.name (links (entries dir)) l.name = none := Option.map_eq_none_iff.mp fresh
  have distinct : Keyed.Distinct Link.name (l :: links (entries dir)) :=
    Keyed.distinct_cons.mpr ⟨Keyed.find_none_iff.mp absent, inv.distinct⟩
  refine ⟨⟨wf, distinct.perm perm.symm, fun l' member => ?_⟩, ?_⟩
  · rcases List.mem_cons.mp (perm.mem_iff.mp member) with rfl | old
    · exact new
    · exact inv.named l' old
  · unfold bindings
    rw [← Keyed.find_perm distinct perm.symm, Keyed.find_cons]
    exact map_find_update

theorem Directory.deleted (inv : Directory v dir) (wf : WellFormed v dir')
    (perm : (links (entries dir)).Perm (l :: links (entries dir'))) :
    Directory v dir' ∧ bindings dir' = Function.update (bindings dir) l.name none := by
  have distinct := inv.distinct.perm perm
  refine ⟨⟨wf, (Keyed.distinct_cons.mp distinct).2, fun l' member => ?_⟩, ?_⟩
  · exact inv.named l' (perm.mem_iff.mpr (List.mem_cons_of_mem _ member))
  · unfold bindings
    rw [Keyed.find_erased distinct, ← Keyed.find_perm inv.distinct perm]
    exact map_find_update

theorem Directory.rebound (inv : Directory v dir) (wf : WellFormed v dir') {l' : Link} {rest : List Link}
    (same : l'.name = l.name) (perm : (links (entries dir)).Perm (l :: rest))
    (perm' : (links (entries dir')).Perm (l' :: rest)) :
    Directory v dir' ∧ bindings dir' = Function.update (bindings dir) l.name (some l'.inode) := by
  have distinct := inv.distinct.perm perm
  obtain ⟨other, rests⟩ := Keyed.distinct_cons.mp distinct
  have distinct' : Keyed.Distinct Link.name (l' :: rest) := Keyed.distinct_cons.mpr ⟨same ▸ other, rests⟩
  have names := fun k (member : k ∈ l :: rest) => inv.named k (perm.mem_iff.mpr member)
  refine ⟨⟨wf, distinct'.perm perm'.symm, fun k member => ?_⟩, ?_⟩
  · rcases List.mem_cons.mp (perm'.mem_iff.mp member) with rfl | old
    · exact same ▸ names l List.mem_cons_self
    · exact names k (List.mem_cons_of_mem _ old)
  · unfold bindings
    rw [← Keyed.find_perm distinct' perm'.symm, Keyed.find_replaced same, ← Keyed.find_perm inv.distinct perm]
    exact map_find_update

/-! ### Calls -/

/-- What every allowed call does to a directory and its map. -/
def Serves (v : DirVolume) (dir : Dir) (call : DirCall) : Prop :=
  ∃ answer dir', dirStep v dir call = some (answer, dir') ∧ Directory v dir' ∧
    NameStep (bindings dir) (eventOf v dir call answer) (bindings dir') ∧ Placed v dir call answer dir'

theorem refusal_zero {off : Nat} (last : (entries dir).any (Slot.fits (ext2DirRecLen name.length)) = false →
    off = dir.iSize ∧ ext2PrepareChunk v cache dir.iSize (ext2ChunkSize v) = 0) :
    refusal v dir ⟨cache, .addLink name iNo⟩ = 0 := by
  unfold refusal
  simp only
  split_ifs with fits
  · rfl
  · exact (last (Bool.eq_false_iff.mpr fits)).2

theorem refusal_full (full : (entries dir).any (Slot.fits (ext2DirRecLen name.length)) = false) :
    refusal v dir ⟨cache, .addLink name iNo⟩ = ext2PrepareChunk v cache dir.iSize (ext2ChunkSize v) := by
  simp only [refusal, full, Bool.false_eq_true, if_false]

theorem Directory.serves_addLink (inv : Directory v dir) (reads : cache.Reads) (maps : cache.Maps dir) (long : 1 ≤ name.length)
    (short : name.length ≤ 255) (fresh : bindings dir name = none) (nonzero : iNo ≠ 0) (inumber : iNo ≤ v.inodesCount) :
    Serves v dir ⟨cache, .addLink name iNo⟩ := by
  obtain ⟨err, dir', called, added⟩ := addLink_links inv.wf reads maps (fun s member live => inv.slots_named member live)
    (fresh_iff.mp fresh) long short nonzero inumber
  have stepped : dirStep v dir ⟨cache, .addLink name iNo⟩ = some (.done err, dir') := by
    simp only [dirStep, called, Option.map_some]
  refine ⟨.done err, dir', stepped, ?_⟩
  unfold eventOf Placed
  cases added with
  | linked off wf committed size last perm =>
    have new : (⟨off, iNo, name⟩ : Link).name ≠ [] := List.length_pos_iff.mp long
    have here : ⟨off, iNo, name⟩ ∈ links (entries dir') := perm.mem_iff.mpr List.mem_cons_self
    obtain ⟨inv', bound⟩ := inv.added wf new fresh perm
    rw [refusal_zero last]
    refine ⟨inv', bound ▸ .added _ _ _ _ _, ?_⟩
    simp only
    split_ifs at size ⊢ with fits prepared
    · exact ⟨size, off, here⟩
    · obtain ⟨rfl, -⟩ := last (Bool.eq_false_iff.mpr fits)
      exact ⟨size, here⟩
    · exact absurd (last (Bool.eq_false_iff.mpr fits)).2 prepared
  | refused none failed wf same kept =>
    have linked : links (entries dir') = links (entries dir) := congrArg links kept
    have still : bindings dir' = bindings dir := by
      unfold bindings
      rw [linked]
    have inv' : Directory v dir' := ⟨wf, linked ▸ inv.distinct, linked ▸ inv.named⟩
    have size : dir'.iSize = dir.iSize := by rw [same]
    rw [refusal_full none, still]
    refine ⟨inv', .refused _ _ _ _ _ _ failed, ?_⟩
    simp only [none, failed, Bool.false_eq_true, if_false]
    exact ⟨size, linked⟩

theorem Directory.serves_deleteEntry (inv : Directory v dir) (maps : cache.Maps dir)
    (member : ⟨de, iNo, name⟩ ∈ links (entries dir)) : Serves v dir ⟨cache, .deleteEntry name de⟩ := by
  obtain ⟨s, here, live, rfl, rfl⟩ := slot_of_link member
  obtain ⟨dir', called, wf, -, size, perm⟩ := deleteEntry_links inv.wf maps here live
  obtain ⟨inv', bound⟩ := inv.deleted wf perm
  have stepped : dirStep v dir ⟨cache, .deleteEntry s.name s.off⟩ = some (.done (commitErr cache dir), dir') := by
    simp only [dirStep, called, Option.map_some]
  exact ⟨.done (commitErr cache dir), dir', stepped, inv', bound ▸ .deleted _ _ _ _ _ _, size⟩

theorem Directory.serves_setLink (inv : Directory v dir) (maps : cache.Maps dir) {old : Nat}
    (member : ⟨de, old, name⟩ ∈ links (entries dir)) (nonzero : iNo ≠ 0) (inumber : iNo ≤ v.inodesCount) :
    Serves v dir ⟨cache, .setLink name de iNo⟩ := by
  obtain ⟨s, here, live, rfl, rfl⟩ := slot_of_link member
  obtain ⟨dir', called, wf, -, size, rest, perm, perm'⟩ := setLink_links inv.wf maps here live nonzero inumber
  have same : (⟨s.off, iNo, s.name⟩ : Link).name = s.link.name := rfl
  obtain ⟨inv', bound⟩ := inv.rebound wf same perm perm'
  have stepped : dirStep v dir ⟨cache, .setLink s.name s.off iNo⟩ = some (.done 0, dir') := by
    simp only [dirStep, called, Option.map_some]
  exact ⟨.done 0, dir', stepped, inv', bound ▸ .rebound _ _ _ _ _ _ _, size⟩

theorem Directory.serves_findEntry (inv : Directory v dir) (reads : cache.Reads) (short : name.length ≤ 255) :
    Serves v dir ⟨cache, .findEntry name⟩ := by
  refine ⟨.found (ext2FindEntry v cache dir name), dir, rfl, inv, ?_⟩
  unfold eventOf Placed
  rw [findEntry_eq inv.wf reads short]
  cases found : (entries dir).find? (Slot.names name) with
  | none => exact ⟨.absent _ _ _ _ _ (by rw [bindings_eq, found]; rfl), rfl, fun _ same => nomatch same⟩
  | some s =>
    refine ⟨.located _ _ _ _ _ _ (by rw [bindings_eq, found]; rfl), rfl, fun de same => ?_⟩
    cases same
    obtain ⟨live, rfl⟩ := names_iff.mp (List.find?_some found)
    exact ⟨s.inode, mem_links.mpr ⟨s, List.mem_of_find?_eq_some found, live, rfl⟩⟩

theorem inodeByName_bindings (inv : Directory v dir) (reads : cache.Reads) (short : name.length ≤ 255) :
    ext2InodeByName v cache dir name = match bindings dir name with
      | some i => .ok i
      | none => .error (-enoent) := by
  rw [inodeByName_eq inv.wf reads short, bindings_eq]
  cases (entries dir).find? (Slot.names name) <;> rfl

theorem Directory.serves_inodeByName (inv : Directory v dir) (reads : cache.Reads) (short : name.length ≤ 255) :
    Serves v dir ⟨cache, .inodeByName name⟩ := by
  refine ⟨.found (ext2InodeByName v cache dir name), dir, rfl, inv, ?_, rfl⟩
  unfold eventOf
  rw [inodeByName_bindings inv reads short]
  exact .looked _ _ _ _ _

theorem Directory.serves (inv : Directory v dir) {call : DirCall} (allowed : Allowed v dir call) : Serves v dir call := by
  obtain ⟨cache, op⟩ := call
  obtain ⟨reads, maps, passed⟩ := allowed
  cases op with
  | addLink name iNo =>
    obtain ⟨long, short, fresh, nonzero, inumber⟩ := passed
    exact inv.serves_addLink reads maps long short fresh nonzero inumber
  | deleteEntry name de =>
    obtain ⟨iNo, member⟩ := passed
    exact inv.serves_deleteEntry maps member
  | setLink name de iNo =>
    obtain ⟨⟨old, member⟩, nonzero, inumber⟩ := passed
    exact inv.serves_setLink maps member nonzero inumber
  | findEntry name => exact inv.serves_findEntry reads passed
  | inodeByName name => exact inv.serves_inodeByName reads passed

theorem directory_step (inv : Directory v dir) {event : DirEvent} (step : Happens v dir event dir') :
    Directory v dir' ∧ NameStep (bindings dir) event (bindings dir') := by
  obtain ⟨call, answer, refusal, commit⟩ := event
  obtain ⟨⟨allowed, stepped⟩, labelled⟩ := step
  obtain ⟨answer', dir'', called, inv', map, -⟩ := inv.serves allowed
  rw [called] at stepped
  obtain ⟨rfl, rfl⟩ := Prod.mk.inj (Option.some.inj stepped)
  exact ⟨inv', labelled ▸ map⟩

/-- Every run of a directory is a run of its map, and no call comes to `BUG()`. -/
theorem directory_runs (start : Directory v dir) {events : List DirEvent} (run : Steps (Happens v) dir events dir') :
    Directory v dir' ∧ Steps NameStep (bindings dir) events (bindings dir') ∧
      ∀ call, Allowed v dir' call → Serves v dir' call := by
  have simulated : ∃ m, Steps NameStep (bindings dir) events m ∧ Directory v dir' ∧ m = bindings dir' := by
    refine @Steps.simulates _ _ _ (Happens v) _ _ NameStep (fun dir m => Directory v dir ∧ m = bindings dir) ?_ _ run _ ⟨start, rfl⟩
    rintro dir event dir' m ⟨inv, rfl⟩ step
    obtain ⟨inv', map⟩ := directory_step inv step
    exact ⟨bindings dir', map, inv', rfl⟩
  obtain ⟨m, steps, inv', rfl⟩ := simulated
  exact ⟨inv', steps, fun call allowed => inv'.serves allowed⟩

/-! ### A directory of one chunk -/

def kibiVolume : DirVolume := ⟨10, 100, kibi_sizes, by decide⟩

def calmCache : PageCache where
  readPage _ := 0
  pageChecked _ := false
  pageError _ := false
  grabCachePage := true
  getBlocks _ _ := 0
  writeOnePage := 0
  syncInodeMetadata := 0

def oneChunk (bytes : List UInt8) : Dir := ⟨2, 1024, 1, false, fun k => bytes.getD k 0⟩

def dotEntries : Dir := oneChunk [2, 0, 0, 0, 12, 0, 1, 0, 46, 0, 0, 0, 2, 0, 0, 0, 0xF4, 3, 2, 0, 46, 46]

theorem calmCache_reads : calmCache.Reads := ⟨fun _ => rfl, fun _ => rfl⟩

theorem dotEntries_entries : entries dotEntries = [⟨0, 12, 2, [46]⟩, ⟨12, 1012, 2, [46, 46]⟩] := by decide +kernel

theorem oneChunk_wellFormed {bytes : List UInt8} {slots : List Slot} (shown : entries (oneChunk bytes) = slots)
    (tiled : Tiled 0 slots 1024) (ok : ∀ s, s ∈ slots → SlotOk kibiVolume s) : WellFormed kibiVolume (oneChunk bytes) where
  size := (by decide : ext2ChunkSize kibiVolume ∣ 1024)
  blocks := (by decide : 1024 ≤ ndirBlocks * ext2ChunkSize kibiVolume)
  tiled := shown ▸ tiled
  slots := shown ▸ ok

theorem dotEntries_directory : Directory kibiVolume dotEntries := by
  refine ⟨oneChunk_wellFormed dotEntries_entries ⟨rfl, by decide, rfl, by decide, rfl⟩ ?_, ?_, ?_⟩
  · intro s member
    simp only [List.mem_cons, List.not_mem_nil, or_false] at member
    rcases member with rfl | rfl <;> exact ⟨by decide, by decide, by decide, by decide, by decide⟩
  · rw [dotEntries_entries]
    decide
  · rw [dotEntries_entries]
    decide

theorem dotEntries_allowed : Allowed kibiVolume dotEntries ⟨calmCache, .addLink [97] 12⟩ := by
  have fresh : bindings dotEntries [97] = none := by
    rw [bindings, dotEntries_entries]
    decide
  exact ⟨calmCache_reads, fun _ _ _ => rfl, by decide, by decide, fresh, by decide, by decide⟩

theorem directory_runs_link :
    ∃ answer dir', Steps (Happens kibiVolume) dotEntries
        [eventOf kibiVolume dotEntries ⟨calmCache, .addLink [97] 12⟩ answer] dir' ∧
      Directory kibiVolume dir' ∧
      Steps NameStep (bindings dotEntries) [eventOf kibiVolume dotEntries ⟨calmCache, .addLink [97] 12⟩ answer] (bindings dir') ∧
      ∀ call, Allowed kibiVolume dir' call → Serves kibiVolume dir' call := by
  obtain ⟨answer, dir', called, -⟩ := dotEntries_directory.serves dotEntries_allowed
  have run : Steps (Happens kibiVolume) dotEntries
      [eventOf kibiVolume dotEntries ⟨calmCache, .addLink [97] 12⟩ answer] dir' :=
    .cons ⟨⟨dotEntries_allowed, called⟩, rfl⟩ (.nil dir')
  exact ⟨answer, dir', run, directory_runs dotEntries_directory run⟩

/-- Entries that fit their names and lie in one chunk, without the other tests of `ext2_check_page`. -/
structure Chunked (v : DirVolume) (dir : Dir) : Prop where
  size : ext2ChunkSize v ∣ dir.iSize
  tiled : Tiled 0 (entries dir) dir.iSize
  slots : ∀ s, s ∈ entries dir → s.recLen % 4 = 0 ∧ ext2DirRecLen s.name.length ≤ s.recLen ∧
    s.off / ext2ChunkSize v = (s.off + s.recLen - 1) / ext2ChunkSize v

/-- A free entry of 8 bytes before the entry of `a`. -/
def shortEntry : Dir := oneChunk [0, 0, 0, 0, 8, 0, 0, 0, 12, 0, 0, 0, 0xF8, 3, 1, 0, 97]

theorem shortEntry_entries : entries shortEntry = [⟨0, 8, 0, []⟩, ⟨8, 1016, 12, [97]⟩] := by decide +kernel

theorem shortEntry_chunked : Chunked kibiVolume shortEntry := by
  refine ⟨by decide, ?_, ?_⟩
  · rw [shortEntry_entries]
    exact ⟨rfl, by decide, rfl, by decide, rfl⟩
  · rw [shortEntry_entries]
    decide

/-- `ext2_check_page` refuses entries under 12 bytes, so no lookup in this directory finds anything. -/
theorem short_entry_hides :
    ¬ ∀ (v : DirVolume) (cache : PageCache) (dir : Dir) (name : List UInt8), Chunked v dir →
      Keyed.Distinct Link.name (links (entries dir)) → cache.Reads → cache.Maps dir → 1 ≤ name.length → name.length ≤ 255 →
      ext2InodeByName v cache dir name = match bindings dir name with
        | some iNo => .ok iNo
        | none => .error (-enoent) := by
  intro maps
  have distinct : Keyed.Distinct Link.name (links (entries shortEntry)) := by
    rw [shortEntry_entries]
    decide
  have bound : bindings shortEntry [97] = some 12 := by
    rw [bindings, shortEntry_entries]
    decide
  have answer := maps kibiVolume calmCache shortEntry [97] shortEntry_chunked distinct calmCache_reads (fun _ _ _ => rfl)
    (by decide) (by decide)
  have failed : ext2InodeByName kibiVolume calmCache shortEntry [97] = .error (-eio) := by decide +kernel
  rw [bound, failed] at answer
  cases answer

end OsLab.Ext2
