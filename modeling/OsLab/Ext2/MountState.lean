import OsLab.Ext2.Balloc

/-!
# Mount state

The two copies of the state word in `super.c`: `s_state` of the superblock on the device and
`s_mount_state` of the mounted file system. `ext2_sync_super` writes the first one out with
counts and times that nothing here reads.
-/

namespace OsLab.Ext2

/-! ### Flags -/

def validFs : UInt16 := 1
def errorFs : UInt16 := 2

def hasFlag (state flag : UInt16) : Bool := state &&& flag != 0

theorem or_and (x y z : UInt16) : (x ||| y) &&& z = x &&& z ||| y &&& z := by
  apply UInt16.toBitVec_inj.mp
  ext i inside
  simp [Bool.and_or_distrib_right]

theorem hasFlag_or_self (x : UInt16) : hasFlag (x ||| errorFs) errorFs = true := by
  have absorbed : (x ||| errorFs) &&& errorFs = errorFs := by
    apply UInt16.toBitVec_inj.mp
    ext i inside
    simp [Bool.and_or_distrib_right]
  rw [hasFlag, absorbed]
  rfl

theorem hasFlag_or_other (x : UInt16) : hasFlag (x ||| errorFs) validFs = hasFlag x validFs := by
  rw [hasFlag, or_and, show errorFs &&& validFs = 0 from rfl, UInt16.or_zero, hasFlag]

theorem hasFlag_clear_self (x : UInt16) : hasFlag (x &&& ~~~validFs) validFs = false := by
  rw [hasFlag, UInt16.and_assoc, show ~~~validFs &&& validFs = 0 from rfl, UInt16.and_zero]
  rfl

theorem hasFlag_clear_other (x : UInt16) : hasFlag (x &&& ~~~validFs) errorFs = hasFlag x errorFs := by
  rw [hasFlag, UInt16.and_assoc, show ~~~validFs &&& errorFs = errorFs from rfl, hasFlag]

/-! ### Options -/

/-- What `match_token` makes of an option. -/
inductive MountToken where
  | errCont
  | errPanic
  | errRo
  | debug
  | unknown
  deriving DecidableEq, Repr

/-- The bits of `s_mount_opt`. -/
structure MountOpt where
  debug : Bool
  errorsCont : Bool
  errorsRo : Bool
  errorsPanic : Bool
  deriving DecidableEq, Repr

def parseOptions : List MountToken → MountOpt → Option MountOpt
  | [], opt => some opt
  | .errPanic :: options, opt =>
    parseOptions options { opt with errorsCont := false, errorsRo := false, errorsPanic := true }
  | .errRo :: options, opt =>
    parseOptions options { opt with errorsCont := false, errorsPanic := false, errorsRo := true }
  | .errCont :: options, opt =>
    parseOptions options { opt with errorsRo := false, errorsPanic := false, errorsCont := true }
  | .debug :: options, opt => parseOptions options { opt with debug := true }
  | .unknown :: _, _ => none

/-! ### The calls -/

/-- The superblock on the device. -/
structure DiskSuper where
  sState : UInt16
  sMntCount : UInt16
  sRevLevel : UInt32
  sErrors : UInt16
  deriving DecidableEq, Repr

/-- A file system with its `ext2_sb_info`. `rdonly` is `SB_RDONLY` of `s_flags`. -/
structure MountedFs where
  es : DiskSuper
  sMountState : UInt16
  sMountOpt : MountOpt
  rdonly : Bool
  deriving DecidableEq, Repr

def MountedFs.setState (fs : MountedFs) (sState : UInt16) : MountedFs :=
  { fs with es := { fs.es with sState := sState } }

/-- `mounting` is the part of `ext2_fill_super` that reads what else the mount needs. -/
inductive FsState where
  | unmounted (es : DiskSuper)
  | mounting (fs : MountedFs)
  | mounted (fs : MountedFs)
  deriving DecidableEq, Repr

def maxSuppRev : UInt32 := 1
def errorsContinue : UInt16 := 1
def errorsPanic : UInt16 := 3

/-- Returns whether the machine panics. -/
def ext2Error (fs : MountedFs) : Bool × MountedFs :=
  let fs :=
    if fs.rdonly then fs
    else { fs.setState (fs.es.sState ||| errorFs) with sMountState := fs.sMountState ||| errorFs }
  if fs.sMountOpt.errorsPanic then (true, fs)
  else (false, if !fs.rdonly && fs.sMountOpt.errorsRo then { fs with rdonly := true } else fs)

/-- Returns whether read-only mode is forced. -/
def ext2CheckSuper (fs : MountedFs) (readOnly : Bool) : Bool × MountedFs :=
  let res := decide (maxSuppRev < fs.es.sRevLevel)
  if readOnly then (res, fs)
  else (res, { fs with es := { fs.es with sMntCount := fs.es.sMntCount + 1 } })

def ext2SyncFs (fs : MountedFs) : MountedFs :=
  if hasFlag fs.es.sState validFs then fs.setState (fs.es.sState &&& ~~~validFs) else fs

def ext2WriteSuper (fs : MountedFs) : MountedFs := if fs.rdonly then fs else ext2SyncFs fs

/-- The kernel's `sync_filesystem`. -/
def syncFilesystem (fs : MountedFs) : MountedFs := if fs.rdonly then fs else ext2SyncFs (ext2SyncFs fs)

def ext2PutSuper (fs : MountedFs) : DiskSuper :=
  if fs.rdonly then fs.es else (fs.setState fs.sMountState).es

def ext2Remount (readOnly : Bool) (options : List MountToken) (fs : MountedFs) : Int × MountedFs :=
  let fs := syncFilesystem fs
  match parseOptions options fs.sMountOpt with
  | none => (-einval, fs)
  | some newOpt =>
    if readOnly = fs.rdonly then (0, { fs with sMountOpt := newOpt })
    else if readOnly then
      if hasFlag fs.es.sState validFs || !hasFlag fs.sMountState validFs then
        (0, { fs with sMountOpt := newOpt })
      else (0, { fs.setState fs.sMountState with sMountOpt := newOpt })
    else
      let (forced, fs) := ext2CheckSuper { fs with sMountState := fs.es.sState } false
      let fs := if forced then fs else { fs with rdonly := false }
      (0, { ext2WriteSuper fs with sMountOpt := newOpt })

/-- The kernel's remount, which takes over the flag that it asked for. -/
def remount (readOnly : Bool) (options : List MountToken) (fs : MountedFs) : MountedFs :=
  match ext2Remount readOnly options fs with
  | (ret, fs) => if ret = 0 then { fs with rdonly := readOnly } else fs

/-- The options of the superblock under those of the caller. -/
def mountOptions (es : DiskSuper) (options : List MountToken) : Option MountOpt :=
  parseOptions options
    (if es.sErrors = errorsPanic then ⟨false, false, false, true⟩
    else if es.sErrors = errorsContinue then ⟨false, true, false, false⟩
    else ⟨false, false, true, false⟩)

/-- The last lines of `ext2_fill_super`. -/
def finishMount (fs : MountedFs) : MountedFs :=
  let (forced, fs) := ext2CheckSuper fs fs.rdonly
  ext2WriteSuper (if forced then { fs with rdonly := true } else fs)

inductive FsEvent where
  | mount (readOnly : Bool) (options : List MountToken)
  /-- What the mount still has to read is there, or it fails. -/
  | readRest (fails : Bool)
  | error
  | sync
  | remount (readOnly : Bool) (options : List MountToken)
  | unmount
  deriving DecidableEq, Repr

namespace FsState

def es : FsState → DiskSuper
  | .unmounted es => es
  | .mounting fs | .mounted fs => fs.es

def writable : FsState → Bool
  | .unmounted _ => false
  | .mounting fs | .mounted fs => !fs.rdonly

def step : FsState → FsEvent → FsState
  | .unmounted es, .mount readOnly options =>
    match mountOptions es options with
    | some opt => .mounting ⟨es, es.sState, opt, readOnly⟩
    | none => .unmounted es
  | .mounting fs, .readRest fails => if fails then .unmounted fs.es else .mounted (finishMount fs)
  | .mounting fs, .error => if (ext2Error fs).1 then .unmounted (ext2Error fs).2.es else .mounting (ext2Error fs).2
  | .mounted fs, .error => if (ext2Error fs).1 then .unmounted (ext2Error fs).2.es else .mounted (ext2Error fs).2
  | .mounted fs, .sync => .mounted (ext2SyncFs fs)
  | .mounted fs, .remount readOnly options => .mounted (Ext2.remount readOnly options fs)
  | .mounted fs, .unmount => .unmounted (ext2PutSuper fs)
  | s, _ => s

def run (es : DiskSuper) (events : List FsEvent) : FsState := events.foldl step (.unmounted es)

/-- A step that also notes `EXT2_VALID_FS` where the file system becomes read-write. -/
def observe (s : FsState × Bool) (e : FsEvent) : FsState × Bool :=
  (s.1.step e, if !s.1.writable && (s.1.step e).writable then hasFlag s.1.es.sState validFs else s.2)

/-- Whether `EXT2_VALID_FS` was set when the volume last became read-write. -/
def validWhenWritable (es : DiskSuper) (events : List FsEvent) : Bool :=
  (events.foldl observe (.unmounted es, false)).2

end FsState

/-! ### What a call does -/

variable {fs : MountedFs} {valid : Bool}

theorem ext2SyncFs_eq (fs : MountedFs) : ∃ sState, ext2SyncFs fs = fs.setState sState ∧
    hasFlag sState validFs = false ∧ hasFlag sState errorFs = hasFlag fs.es.sState errorFs := by
  unfold ext2SyncFs
  split_ifs with set
  · exact ⟨_, rfl, hasFlag_clear_self _, hasFlag_clear_other _⟩
  · exact ⟨fs.es.sState, rfl, Bool.eq_false_iff.mpr set, rfl⟩

theorem syncFilesystem_eq (fs : MountedFs) : ∃ sState, syncFilesystem fs = fs.setState sState ∧
    (hasFlag sState validFs = true → hasFlag fs.es.sState validFs = true ∧ fs.rdonly = true) ∧
    hasFlag sState errorFs = hasFlag fs.es.sState errorFs := by
  unfold syncFilesystem
  split_ifs with readOnly
  · exact ⟨fs.es.sState, rfl, fun set => ⟨set, readOnly⟩, rfl⟩
  · obtain ⟨first, firstEq, -, firstError⟩ := ext2SyncFs_eq fs
    obtain ⟨second, secondEq, clear, secondError⟩ := ext2SyncFs_eq (ext2SyncFs fs)
    rw [firstEq] at secondEq secondError ⊢
    exact ⟨second, secondEq, fun set => by simp [clear] at set, secondError.trans firstError⟩

theorem ext2Error_readonly (readOnly : fs.rdonly = true) : (ext2Error fs).2 = fs := by
  unfold ext2Error
  by_cases panics : fs.sMountOpt.errorsPanic <;> simp [readOnly, panics]

theorem ext2Error_writable (readWrite : fs.rdonly = false) : ∃ rdonly, (ext2Error fs).2 =
    { fs.setState (fs.es.sState ||| errorFs) with sMountState := fs.sMountState ||| errorFs, rdonly := rdonly } := by
  unfold ext2Error
  by_cases panics : fs.sMountOpt.errorsPanic <;> by_cases remounts : fs.sMountOpt.errorsRo
  all_goals exact ⟨_, by simp [readWrite, panics, remounts, MountedFs.setState]; rfl⟩

/-- A file system of a supported revision after a remount: either only the sync and the options
changed it, or it went read-only, or it became read-write again. -/
theorem remount_cases (readOnly : Bool) (options : List MountToken)
    (supported : fs.es.sRevLevel ≤ maxSuppRev) :
    (∃ opt, remount readOnly options fs = { syncFilesystem fs with sMountOpt := opt }) ∨
    (fs.rdonly = false ∧ readOnly = true ∧ ∃ opt sState,
      remount readOnly options fs = { fs.setState sState with sMountOpt := opt, rdonly := true } ∧
      (sState = (syncFilesystem fs).es.sState ∨ sState = fs.sMountState)) ∨
    (fs.rdonly = true ∧ readOnly = false ∧ ∃ opt cnt, remount readOnly options fs =
      { ext2SyncFs ⟨{ fs.es with sMntCount := cnt }, fs.es.sState, fs.sMountOpt, false⟩ with sMountOpt := opt }) := by
  obtain ⟨synced, same, -, -⟩ := syncFilesystem_eq fs
  unfold remount ext2Remount
  rw [same]
  cases parsed : parseOptions options fs.sMountOpt with
  | none =>
    left
    exact ⟨fs.sMountOpt, by simp [MountedFs.setState, parsed, einval]⟩
  | some opt =>
    by_cases unchanged : readOnly = fs.rdonly
    · left
      exact ⟨opt, by simp [MountedFs.setState, parsed, unchanged]⟩
    · right
      cases readOnly with
      | true =>
        have readWrite : fs.rdonly = false := by simpa using unchanged
        refine Or.inl ⟨readWrite, rfl, opt, ?_⟩
        by_cases dirty : hasFlag synced validFs || !hasFlag fs.sMountState validFs
        · exact ⟨synced, by simp [MountedFs.setState, parsed, readWrite, dirty], Or.inl rfl⟩
        · exact ⟨fs.sMountState, by simp [MountedFs.setState, parsed, readWrite, dirty], Or.inr rfl⟩
      | false =>
        have readOnly : fs.rdonly = true := by simpa using unchanged
        refine Or.inr ⟨readOnly, rfl, opt, fs.es.sMntCount + 1, ?_⟩
        have unsynced : syncFilesystem fs = fs := by
          unfold syncFilesystem
          rw [if_pos readOnly]
        have allowed : ¬ maxSuppRev < fs.es.sRevLevel := UInt32.not_lt.mpr supported
        rw [← same, unsynced]
        by_cases set : hasFlag fs.es.sState validFs <;>
          simp [parsed, readOnly, ext2CheckSuper, allowed, ext2WriteSuper, ext2SyncFs, MountedFs.setState, set]

/-! ### Calls that leave a read-write volume read-write -/

/-- What holds of a read-write file system that became so with `EXT2_VALID_FS` as `valid`. -/
structure Writable (valid : Bool) (fs : MountedFs) : Prop where
  valid : hasFlag fs.sMountState validFs = valid
  error : hasFlag fs.es.sState errorFs = true → hasFlag fs.sMountState errorFs = true

/-- A call that sets no `EXT2_VALID_FS`, clears no `EXT2_ERROR_FS` and makes nothing writable. -/
structure Calm (fs fs' : MountedFs) : Prop where
  rev : fs'.es.sRevLevel = fs.es.sRevLevel
  error : hasFlag fs.es.sState errorFs = true → hasFlag fs'.es.sState errorFs = true
  valid : hasFlag fs'.es.sState validFs = true → hasFlag fs.es.sState validFs = true
  readWrite : fs'.rdonly = false → fs.rdonly = false
  writable : ∀ valid, fs'.rdonly = false → Writable valid fs → Writable valid fs'

theorem ext2Error_calm (fs : MountedFs) : Calm fs (ext2Error fs).2 := by
  cases readOnly : fs.rdonly with
  | true =>
    rw [ext2Error_readonly readOnly]
    exact ⟨rfl, id, id, id, fun _ _ => id⟩
  | false =>
    obtain ⟨rdonly, same⟩ := ext2Error_writable readOnly
    rw [same]
    refine ⟨rfl, fun _ => hasFlag_or_self _, fun set => ?_, fun _ => readOnly, fun valid _ writable => ?_⟩
    · exact (hasFlag_or_other _).symm.trans set
    · exact ⟨(hasFlag_or_other _).trans writable.valid, fun _ => hasFlag_or_self _⟩

theorem setState_calm {sState : UInt16} (valid : hasFlag sState validFs = true → hasFlag fs.es.sState validFs = true)
    (error : hasFlag sState errorFs = hasFlag fs.es.sState errorFs) : Calm fs (fs.setState sState) :=
  ⟨rfl, error.trans, valid, id, fun _ _ writable => ⟨writable.valid, fun set => writable.error (error ▸ set)⟩⟩

theorem ext2SyncFs_calm (fs : MountedFs) : Calm fs (ext2SyncFs fs) := by
  obtain ⟨sState, same, clear, error⟩ := ext2SyncFs_eq fs
  rw [same]
  exact setState_calm (fun set => by simp [clear] at set) error

theorem syncFilesystem_calm (fs : MountedFs) : Calm fs (syncFilesystem fs) := by
  obtain ⟨sState, same, valid, error⟩ := syncFilesystem_eq fs
  rw [same]
  exact setState_calm (fun set => (valid set).1) error

theorem Calm.refl (fs : MountedFs) : Calm fs fs := ⟨rfl, id, id, id, fun _ _ => id⟩

theorem Calm.trans {fs₁ fs₂ fs₃ : MountedFs} (first : Calm fs₁ fs₂) (second : Calm fs₂ fs₃) : Calm fs₁ fs₃ where
  rev := second.rev.trans first.rev
  error := second.error ∘ first.error
  valid := first.valid ∘ second.valid
  readWrite := first.readWrite ∘ second.readWrite
  writable valid readWrite writable :=
    second.writable valid readWrite (first.writable valid (second.readWrite readWrite) writable)

theorem ext2CheckSuper_calm (fs : MountedFs) (readOnly : Bool) : Calm fs (ext2CheckSuper fs readOnly).2 := by
  unfold ext2CheckSuper
  cases readOnly
  · exact ⟨rfl, id, id, id, fun _ _ writable => ⟨writable.valid, writable.error⟩⟩
  · exact .refl fs

theorem ext2WriteSuper_calm (fs : MountedFs) : Calm fs (ext2WriteSuper fs) ∧
    ((ext2WriteSuper fs).rdonly = false → hasFlag (ext2WriteSuper fs).es.sState validFs = false) := by
  unfold ext2WriteSuper
  cases readOnly : fs.rdonly with
  | true =>
    refine ⟨.refl fs, fun readWrite => ?_⟩
    simp [readOnly] at readWrite
  | false =>
    obtain ⟨sState, same, clear, -⟩ := ext2SyncFs_eq fs
    refine ⟨ext2SyncFs_calm fs, fun _ => ?_⟩
    rw [if_neg (by decide), same]
    exact clear

/-- A mount keeps the flags, and a read-write one ends without `EXT2_VALID_FS`. -/
theorem finishMount_calm (fs : MountedFs) : Calm fs (finishMount fs) ∧
    ((finishMount fs).rdonly = false → hasFlag (finishMount fs).es.sState validFs = false) := by
  have checked := ext2CheckSuper_calm fs fs.rdonly
  have forced : Calm fs (if (ext2CheckSuper fs fs.rdonly).1 then { (ext2CheckSuper fs fs.rdonly).2 with rdonly := true }
      else (ext2CheckSuper fs fs.rdonly).2) := by
    split_ifs
    · exact checked.trans ⟨rfl, id, id, nofun, nofun⟩
    · exact checked
  have written := ext2WriteSuper_calm (if (ext2CheckSuper fs fs.rdonly).1 then
    { (ext2CheckSuper fs fs.rdonly).2 with rdonly := true } else (ext2CheckSuper fs fs.rdonly).2)
  exact ⟨forced.trans written.1, written.2⟩

/-! ### Runs -/

namespace FsState

def Tracks (valid : Bool) : FsState → Prop
  | .unmounted es => es.sRevLevel ≤ maxSuppRev
  | .mounting fs => fs.es.sRevLevel ≤ maxSuppRev ∧ (fs.rdonly = false → Writable valid fs)
  | .mounted fs => fs.es.sRevLevel ≤ maxSuppRev ∧
    (fs.rdonly = false → Writable valid fs ∧ hasFlag fs.es.sState validFs = false)

/-- What one event does to the flags. -/
structure Advances (valid : Bool) (s : FsState) (e : FsEvent) : Prop where
  tracks : Tracks (observe (s, valid) e).2 (s.step e)
  error : hasFlag s.es.sState errorFs = true → hasFlag (s.step e).es.sState errorFs = true
  valid : hasFlag s.es.sState validFs = false → hasFlag (s.step e).es.sState validFs = true →
    (e = .unmount ∨ ∃ options, e = .remount true options) ∧ valid = true

theorem observe_snd {valid : Bool} {s : FsState} {e : FsEvent}
    (still : (s.step e).writable = true → s.writable = true) : (observe (s, valid) e).2 = valid := by
  unfold observe
  cases now : (s.step e).writable with
  | true => simp [still now]
  | false => simp

theorem Advances.of_calm {valid : Bool} {s : FsState} {e : FsEvent} {fs fs' : MountedFs} (calm : Calm fs fs')
    (here : s.es = fs.es) (there : (s.step e).es = fs'.es) (writable : s.writable = !fs.rdonly)
    (writable' : (s.step e).writable = true → fs'.rdonly = false) (tracks : Tracks valid (s.step e)) :
    Advances valid s e where
  tracks := by
    rw [observe_snd]
    · exact tracks
    · intro now
      rw [writable, calm.readWrite (writable' now)]
      rfl
  error := by
    rw [here, there]
    exact calm.error
  valid clear set := by
    rw [there] at set
    rw [here, calm.valid set] at clear
    cases clear

theorem Advances.stays {valid : Bool} {s : FsState} {e : FsEvent} (tracks : Tracks valid s) (same : s.step e = s) :
    Advances valid s e := by
  refine ⟨?_, by rw [same]; exact id, fun clear set => ?_⟩
  · rw [observe_snd (by rw [same]; exact id), same]
    exact tracks
  · rw [same, clear] at set
    cases set

theorem mount_advances {valid : Bool} {es : DiskSuper} (tracks : Tracks valid (.unmounted es)) (readOnly : Bool)
    (options : List MountToken) : Advances valid (.unmounted es) (.mount readOnly options) := by
  cases parsed : mountOptions es options with
  | none => exact .stays tracks (by simp [step, parsed])
  | some opt =>
    have stepped : step (.unmounted es) (.mount readOnly options) = .mounting ⟨es, es.sState, opt, readOnly⟩ := by
      simp [step, parsed]
    refine ⟨?_, ?_, ?_⟩
    · cases readOnly with
      | true =>
        rw [stepped]
        exact ⟨tracks, nofun⟩
      | false =>
        simp only [observe, stepped, writable]
        exact ⟨tracks, fun _ => ⟨rfl, id⟩⟩
    · rw [stepped]
      exact id
    · intro clear set
      rw [stepped] at set
      exact absurd set (Bool.eq_false_iff.mp clear)

theorem mounting_advances {valid : Bool} {fs : MountedFs} (tracks : Tracks valid (.mounting fs)) (e : FsEvent) :
    Advances valid (.mounting fs) e := by
  cases e with
  | readRest fails =>
    cases fails with
    | true => exact .of_calm (.refl fs) rfl rfl rfl nofun tracks.1
    | false =>
      obtain ⟨calm, clear⟩ := finishMount_calm fs
      refine .of_calm calm rfl rfl rfl (by simp [step, writable]) ⟨calm.rev ▸ tracks.1, fun readWrite => ?_⟩
      exact ⟨calm.writable valid readWrite (tracks.2 (calm.readWrite readWrite)), clear readWrite⟩
  | error =>
    have calm := ext2Error_calm fs
    have rev : (ext2Error fs).2.es.sRevLevel ≤ maxSuppRev := calm.rev ▸ tracks.1
    cases panics : (ext2Error fs).1 with
    | true =>
      exact .of_calm calm rfl (by simp [step, panics, es]) rfl (by simp [step, panics, writable])
        (by simp [step, panics, Tracks, rev])
    | false =>
      refine .of_calm calm rfl (by simp [step, panics, es]) rfl (by simp [step, panics, writable]) ?_
      simp only [step, panics]
      exact ⟨rev, fun readWrite => calm.writable valid readWrite (tracks.2 (calm.readWrite readWrite))⟩
  | _ => exact .stays tracks rfl

theorem Tracks.calm {valid : Bool} {fs fs' : MountedFs} (tracks : Tracks valid (.mounted fs)) (calm : Calm fs fs') :
    Tracks valid (.mounted fs') := by
  refine ⟨calm.rev ▸ tracks.1, fun readWrite => ?_⟩
  obtain ⟨writable, clear⟩ := tracks.2 (calm.readWrite readWrite)
  refine ⟨calm.writable valid readWrite writable, Bool.eq_false_iff.mpr fun set => ?_⟩
  rw [calm.valid set] at clear
  cases clear

theorem remount_advances {valid : Bool} {fs : MountedFs} (tracks : Tracks valid (.mounted fs)) (readOnly : Bool)
    (options : List MountToken) : Advances valid (.mounted fs) (.remount readOnly options) := by
  rcases remount_cases readOnly options tracks.1 with
    ⟨opt, same⟩ | ⟨readWrite, rfl, opt, sState, same, copied⟩ | ⟨wasReadOnly, rfl, opt, cnt, same⟩
  · have synced := syncFilesystem_calm fs
    have calm : Calm fs { syncFilesystem fs with sMountOpt := opt } :=
      synced.trans ⟨rfl, id, id, id, fun _ _ writable => ⟨writable.valid, writable.error⟩⟩
    refine .of_calm calm rfl (by simp [step, same, es]) rfl (by simp [step, same, writable]) ?_
    simp only [step, same]
    exact tracks.calm calm
  · obtain ⟨writable, clear⟩ := tracks.2 readWrite
    obtain ⟨synced, sync, syncValid, syncError⟩ := syncFilesystem_eq fs
    have error : hasFlag fs.es.sState errorFs = true → hasFlag sState errorFs = true := by
      rcases copied with rfl | rfl
      · rw [sync]
        exact syncError.trans
      · exact writable.error
    have set_valid : hasFlag sState validFs = true → valid = true := by
      rcases copied with rfl | rfl
      · intro set
        rw [sync] at set
        obtain ⟨set, -⟩ := syncValid set
        simp [clear] at set
      · exact writable.valid.symm.trans
    refine ⟨?_, ?_, fun _ set => ⟨Or.inr ⟨options, rfl⟩, set_valid ?_⟩⟩
    · simp only [step, same]
      exact ⟨tracks.1, nofun⟩
    · simpa [step, same, es, MountedFs.setState] using error
    · simpa [step, same, es, MountedFs.setState] using set
  · obtain ⟨sState, synced, clear, error⟩ :=
      ext2SyncFs_eq ⟨{ fs.es with sMntCount := cnt }, fs.es.sState, fs.sMountOpt, false⟩
    rw [synced] at same
    refine ⟨?_, ?_, fun _ set => ?_⟩
    · simp only [observe, step, same, writable, wasReadOnly]
      exact ⟨tracks.1, fun _ => ⟨⟨rfl, fun set => error ▸ set⟩, clear⟩⟩
    · simp only [step, same, es]
      exact error.trans
    · simp only [step, same, es] at set
      exact absurd set (Bool.eq_false_iff.mp clear)

theorem mounted_advances {valid : Bool} {fs : MountedFs} (tracks : Tracks valid (.mounted fs)) (e : FsEvent) :
    Advances valid (.mounted fs) e := by
  cases e with
  | error =>
    have calm := ext2Error_calm fs
    have tracked := tracks.calm calm
    cases panics : (ext2Error fs).1 with
    | true =>
      exact .of_calm calm rfl (by simp [step, panics, es]) rfl (by simp [step, panics, writable])
        (by simpa [step, panics, Tracks] using tracked.1)
    | false =>
      exact .of_calm calm rfl (by simp [step, panics, es]) rfl (by simp [step, panics, writable])
        (by simpa [step, panics] using tracked)
  | sync => exact .of_calm (ext2SyncFs_calm fs) rfl rfl rfl (by simp [step, writable]) (tracks.calm (ext2SyncFs_calm fs))
  | remount readOnly options => exact remount_advances tracks readOnly options
  | unmount =>
    cases readOnly : fs.rdonly with
    | true =>
      refine .of_calm (.refl fs) rfl ?_ rfl nofun ?_
      · simp [step, ext2PutSuper, readOnly, es]
      · simpa [step, ext2PutSuper, readOnly, Tracks] using tracks.1
    | false =>
      obtain ⟨writable, clear⟩ := tracks.2 readOnly
      refine ⟨?_, ?_, fun _ set => ⟨Or.inl rfl, writable.valid.symm.trans ?_⟩⟩
      · simpa [step, ext2PutSuper, readOnly, Tracks, MountedFs.setState] using tracks.1
      · simpa [step, ext2PutSuper, readOnly, es, MountedFs.setState] using writable.error
      · simpa [step, ext2PutSuper, readOnly, es, MountedFs.setState] using set
  | _ => exact .stays tracks rfl

theorem step_advances {valid : Bool} {s : FsState} (tracks : Tracks valid s) (e : FsEvent) : Advances valid s e := by
  cases s with
  | unmounted es =>
    cases e with
    | mount readOnly options => exact mount_advances tracks readOnly options
    | _ => exact .stays tracks rfl
  | mounting fs => exact mounting_advances tracks e
  | mounted fs => exact mounted_advances tracks e

theorem run_tracks (es : DiskSuper) (supported : es.sRevLevel ≤ maxSuppRev) (events : List FsEvent) :
    Tracks (validWhenWritable es events) (run es events) := by
  have folded (s : FsState × Bool) (tracks : Tracks s.2 s.1) :
      Tracks (events.foldl observe s).2 (events.foldl step s.1) := by
    induction events generalizing s with
    | nil => exact tracks
    | cons e events ih => exact ih (observe s e) (step_advances tracks e).tracks
  exact folded (.unmounted es, false) supported

theorem error_stays {valid : Bool} {s : FsState} (tracks : Tracks valid s)
    (set : hasFlag s.es.sState errorFs = true) (events : List FsEvent) :
    hasFlag (events.foldl step s).es.sState errorFs = true := by
  induction events generalizing s valid with
  | nil => exact set
  | cons e events ih =>
    have advances := step_advances tracks e
    exact ih advances.tracks (advances.error set)

theorem error_marks {s : FsState} (writable : s.writable = true) :
    hasFlag (s.step .error).es.sState errorFs = true := by
  have marked (fs : MountedFs) (readWrite : fs.rdonly = false) :
      hasFlag (ext2Error fs).2.es.sState errorFs = true := by
    obtain ⟨rdonly, same⟩ := ext2Error_writable readWrite
    rw [same]
    exact hasFlag_or_self _
  cases s with
  | unmounted es => cases writable
  | mounting fs | mounted fs =>
    have set := marked fs (by simpa [FsState.writable] using writable)
    cases panics : (ext2Error fs).1 <;> simpa [step, panics, es] using set

/-- Along every run: a read-write file system that is not just being mounted has no `EXT2_VALID_FS`
on its device, an error made while read-write stays marked there, and only an unmount or a remount
to read-only sets `EXT2_VALID_FS` again, where it was set when the volume became read-write. -/
theorem mount_state_runs (es : DiskSuper) (supported : es.sRevLevel ≤ maxSuppRev) (events : List FsEvent) :
    (∀ fs, run es events = .mounted fs → fs.rdonly = false → hasFlag fs.es.sState validFs = false) ∧
    ((run es events).writable = true → ∀ later,
      hasFlag (run es (events ++ .error :: later)).es.sState errorFs = true) ∧
    ∀ e, hasFlag (run es events).es.sState validFs = false →
      hasFlag (run es (events ++ [e])).es.sState validFs = true →
      (e = .unmount ∨ ∃ options, e = .remount true options) ∧ validWhenWritable es events = true := by
  have tracks := run_tracks es supported events
  refine ⟨fun fs here readWrite => ?_, fun writable later => ?_, fun e clear set => ?_⟩
  · rw [here] at tracks
    exact (tracks.2 readWrite).2
  · rw [run, List.foldl_append, List.foldl_cons]
    exact error_stays (step_advances tracks .error).tracks (error_marks writable) later
  · rw [run, List.foldl_append] at set
    exact (step_advances tracks e).valid clear set

/-- A clean volume that runs into an error. -/
def errorRun : List FsEvent := [.mount false [.errCont], .readRest false]

theorem mount_state_runs_error :
    hasFlag (run ⟨validFs, 0, 1, 2⟩ errorRun).es.sState validFs = false ∧
    hasFlag (run ⟨validFs, 0, 1, 2⟩ (errorRun ++ [.error, .remount true [], .unmount])).es.sState errorFs = true ∧
    validWhenWritable ⟨validFs, 0, 1, 2⟩ errorRun = true :=
  have runs := mount_state_runs ⟨validFs, 0, 1, 2⟩ (by decide) errorRun
  ⟨runs.1 _ rfl rfl, runs.2.1 rfl [.remount true [], .unmount], (runs.2.2 .unmount rfl rfl).2⟩

end FsState

end OsLab.Ext2
