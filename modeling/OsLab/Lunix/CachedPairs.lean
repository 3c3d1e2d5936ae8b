import Mathlib.Data.List.Induction
import OsLab.Lunix.Readers

/-!
# What readers cache

Text and stamp in a file come from one update of its sensor, however its readers interleave.
-/

namespace OsLab.Lunix.Readers

variable {τ φ : Type} {tables : LookupTables} {minor : φ → Nat}

/-! ### The steps of a thread -/

section Moves
variable [DecidableEq τ] [DecidableEq φ]

/-- The stages at which nothing is known of the file or of `raw`. -/
def plain : Stage → Bool
  | .lockAgain _ | .format _ | .bufTimestamp _ => false
  | _ => true

/-- What one step of a thread at a stage of its read does. -/
inductive Moves (tables : LookupTables) (sensor : Sensor) (s : Readers τ φ) (t : τ) (file : φ) (fPos : Nat) :
    Stage → Readers τ φ → Prop
  | stays {stage} : Moves tables sensor s t file fPos stage s
  | leave {stage} (outside : stage.holds = false) : Moves tables sensor s t file fPos stage (enter t .idle s)
  | take {stage next} (outside : stage.holds = false) (free : s.holder file = none) (quiet : plain next) :
      Moves tables sensor s t file fPos stage (enter t (.reading file fPos next) (hold file (some t) s))
  | release {stage r} (outside : r = .idle ∨ r = .reading file fPos .wait) (quiet : plain stage)
      (inside : stage.holds) : Moves tables sensor s t file fPos stage (hold file none (enter t r s))
  | look {stage next} (quiet : plain next) (same : next.holds = stage.holds)
      (written : ∀ raw, stage ≠ .bufTimestamp raw) :
      Moves tables sensor s t file fPos stage (enter t (.reading file fPos next) s)
  | refresh {raw} (fresh : (s.files file).bufTimestamp ≠ (sensor (s.files file).type).lastUpdate) :
      Moves tables sensor s t file fPos (.needsRefresh raw) (enter t (.reading file fPos (.lockAgain raw)) s)
  | read {raw} : Moves tables sensor s t file fPos (.lockAgain raw)
      (enter t (.reading file fPos (.format (sensor (s.files file).type))) s)
  | text {raw n lim data} (proper : tables.properData (s.files file).type raw.value = some n)
      (formatted : snprintf (s.files file).bufData bufSz (measurementText n) = (lim, data)) :
      Moves tables sensor s t file fPos (.format raw) (enter t (.reading file fPos (.bufTimestamp raw))
        (cache file { s.files file with bufLim := lim, bufData := data } s))
  | timestamp {raw} : Moves tables sensor s t file fPos (.bufTimestamp raw)
      (enter t (.reading file fPos .endOfFile) (cache file { s.files file with bufTimestamp := raw.lastUpdate } s))

theorem downInterruptible_moves {s : Readers τ φ} {t : τ} {file : φ} {fPos : Nat} {stage next : Stage}
    (interrupted : Bool) (sensor : Sensor) (outside : stage.holds = false) (quiet : plain next) :
    Moves tables sensor s t file fPos stage
      (downInterruptible t file interrupted (.reading file fPos next) s) := by
  unfold downInterruptible
  split_ifs with signal free
  · exact .leave outside
  · exact .take outside free quiet
  · exact .stays

theorem advance_moves {s : Readers τ φ} {t : τ} {file : φ} {fPos : Nat} {stage : Stage} (interrupted : Bool)
    (reading : s.readers t = .reading file fPos stage) :
    Moves tables (s.sensors (minor file >>> 3)) s t file fPos stage (advance tables minor t interrupted s) := by
  unfold advance
  rw [reading]
  cases stage with
  | down => exact downInterruptible_moves interrupted _ rfl (by split_ifs <;> rfl)
  | downAgain => exact downInterruptible_moves interrupted _ rfl rfl
  | rawTime | rawValue _ | lock _ => exact .look rfl rfl nofun
  | needsRefresh raw =>
    simp only
    split_ifs with fresh
    · exact .refresh (by simpa [lunixChrdevStateNeedsRefresh] using fresh)
    · exact .look rfl rfl nofun
  | lockAgain raw => exact .read
  | format raw =>
    simp only
    cases proper : tables.properData (s.files file).type raw.value with
    | some n => exact .text proper rfl
    | none => exact .look rfl rfl nofun
  | bufTimestamp raw => exact .timestamp
  | up => exact .release (Or.inr rfl) rfl rfl
  | wait =>
    simp only
    split_ifs
    · exact .leave rfl
    · exact .look rfl rfl nofun
  | waitCompare time =>
    simp only
    split_ifs <;> exact .look rfl rfl nofun
  | endOfFile => exact .release (Or.inl rfl) rfl rfl

end Moves

/-! ### Where values come from -/

/-- What an update stores for a type. -/
def page (m : Measurement) (type : Nat) : MsrData := ⟨UInt32.ofNat m.seconds, m.raw type⟩

theorem lunixSensorUpdate_page (m : Measurement) (sensor : Sensor) {type : Nat} (known : type < 3) :
    lunixSensorUpdate m.seconds m.batt m.temp m.light sensor type = page m type := by
  have types : type = BATT ∨ type = TEMP ∨ type = LIGHT := by unfold BATT TEMP LIGHT; omega
  rcases types with rfl | rfl | rfl <;> rfl

theorem properData_known {type : Nat} {raw : UInt16} {n : Int} (proper : tables.properData type raw = some n) :
    type < 3 := by
  unfold LookupTables.properData BATT TEMP LIGHT at proper
  split_ifs at proper <;> omega

/-- The file holds the text of the update. -/
def HoldsText (tables : LookupTables) (state : ChrdevState) (m : Measurement) : Prop :=
  ∃ n, tables.properData state.type (m.raw state.type) = some n ∧
    state.bufLim = (measurementText n).length ∧ state.bufData.take state.bufLim = measurementText n

def Caches (tables : LookupTables) (state : ChrdevState) (m : Measurement) : Prop :=
  HoldsText tables state m ∧ state.bufTimestamp = UInt32.ofNat m.seconds

/-- What a reader of a file knows at a stage, given the updates made of the file's sensor. -/
def Knows (tables : LookupTables) (made : Measurement → Prop) (state : ChrdevState) : Stage → Prop
  | .lockAgain _ => state.type < 3 → ∃ m, made m
  | .format raw => state.type < 3 → ∃ m, made m ∧ raw = page m state.type
  | .bufTimestamp raw => ∃ m, made m ∧ raw = page m state.type ∧ HoldsText tables state m
  | _ => True

theorem knows_plain {made : Measurement → Prop} {state : ChrdevState} {stage : Stage} (quiet : plain stage) :
    Knows tables made state stage := by
  cases stage <;> trivial

theorem Knows.more {made more : Measurement → Prop} (grows : ∀ m, made m → more m) {state : ChrdevState}
    {stage : Stage} (known : Knows tables made state stage) : Knows tables more state stage := by
  cases stage with
  | lockAgain raw =>
    intro type
    obtain ⟨m, old⟩ := known type
    exact ⟨m, grows m old⟩
  | format raw =>
    intro type
    obtain ⟨m, old, same⟩ := known type
    exact ⟨m, grows m old, same⟩
  | bufTimestamp raw =>
    obtain ⟨m, old, same⟩ := known
    exact ⟨m, grows m old, same⟩
  | _ => trivial

def Unstamped (s : Readers τ φ) (file : φ) : Prop :=
  ∃ t fPos raw, s.readers t = .reading file fPos (.bufTimestamp raw)

/-- `updates` are the updates made so far, each with its sensor. -/
structure Sound (tables : LookupTables) (minor : φ → Nat) (updates : List (Nat × Measurement))
    (s : Readers τ φ) : Prop where
  pages : ∀ sensor type, type < 3 →
    (s.sensors sensor type = ⟨0, 0⟩ ∧ ∀ m, (sensor, m) ∉ updates) ∨
      ∃ m, (sensor, m) ∈ updates ∧ s.sensors sensor type = page m type
  types : ∀ file, (s.files file).type = minor file % 8
  holds : ∀ t file fPos stage, s.readers t = .reading file fPos stage → stage.holds → s.holder file = some t
  knows : ∀ t file fPos stage, s.readers t = .reading file fPos stage →
    Knows tables (fun m => (minor file >>> 3, m) ∈ updates) (s.files file) stage
  caches : ∀ file, ((s.files file).bufLim = 0 ∧ (s.files file).bufTimestamp = 0) ∨
    (∃ m, (minor file >>> 3, m) ∈ updates ∧ Caches tables (s.files file) m) ∨ Unstamped s file

theorem sound_start : Sound tables minor [] (start minor : Readers τ φ) where
  pages _ _ _ := Or.inl ⟨rfl, fun _ => List.not_mem_nil⟩
  types _ := rfl
  holds _ _ _ _ reading := nomatch reading
  knows _ _ _ _ reading := nomatch reading
  caches _ := Or.inl ⟨rfl, rfl⟩

variable {updates : List (Nat × Measurement)} {s : Readers τ φ} {t : τ}

theorem enter_reading [DecidableEq τ] {r : Reader φ} {t' : τ} {file : φ} {fPos : Nat} {stage : Stage}
    (reading : (enter t r s).readers t' = .reading file fPos stage) :
    (t' = t ∧ r = .reading file fPos stage) ∨ (t' ≠ t ∧ s.readers t' = .reading file fPos stage) := by
  by_cases same : t' = t
  · subst same
    exact Or.inl ⟨rfl, by simpa [enter] using reading⟩
  · exact Or.inr ⟨same, by simpa [enter, same] using reading⟩

theorem Sound.enter [DecidableEq τ] (sound : Sound tables minor updates s) {r : Reader φ}
    (written : ∀ file fPos raw, s.readers t ≠ .reading file fPos (.bufTimestamp raw))
    (arrives : ∀ file fPos stage, r = .reading file fPos stage → (stage.holds → s.holder file = some t) ∧
      Knows tables (fun m => (minor file >>> 3, m) ∈ updates) (s.files file) stage) :
    Sound tables minor updates (enter t r s) where
  pages := sound.pages
  types := sound.types
  holds t' file fPos stage reading := by
    rcases enter_reading reading with ⟨rfl, here⟩ | ⟨-, there⟩
    · exact (arrives file fPos stage here).1
    · exact sound.holds t' file fPos stage there
  knows t' file fPos stage reading := by
    rcases enter_reading reading with ⟨rfl, here⟩ | ⟨-, there⟩
    · exact (arrives file fPos stage here).2
    · exact sound.knows t' file fPos stage there
  caches file := by
    rcases sound.caches file with empty | cached | ⟨t', fPos, raw, reading⟩
    · exact Or.inl empty
    · exact Or.inr (Or.inl cached)
    · have other : t' ≠ t := by
        rintro rfl
        exact written file fPos raw reading
      exact Or.inr (Or.inr ⟨t', fPos, raw, by simpa [Readers.enter, other] using reading⟩)

/-- The semaphore changes hands while no thread is between taking it and giving it back. -/
theorem Sound.hold [DecidableEq φ] (sound : Sound tables minor updates s) {file : φ}
    (free : ∀ t fPos stage, s.readers t = .reading file fPos stage → stage.holds = false) (next : Option τ) :
    Sound tables minor updates (hold file next s) where
  pages := sound.pages
  types := sound.types
  holds t' file' fPos stage reading inside := by
    by_cases same : file' = file
    · subst same
      rw [free t' fPos stage reading] at inside
      cases inside
    · simpa [Readers.hold, same] using sound.holds t' file' fPos stage reading inside
  knows := sound.knows
  caches := sound.caches

theorem Sound.alone (sound : Sound tables minor updates s) {file : φ} {fPos fPos' : Nat} {stage stage' : Stage}
    {t' : τ} (reading : s.readers t = .reading file fPos stage) (inside : stage.holds)
    (other : s.readers t' = .reading file fPos' stage') (apart : t' ≠ t) : stage'.holds = false := by
  apply Bool.eq_false_iff.mpr
  intro inside'
  have mine := sound.holds t file fPos stage reading inside
  have theirs := sound.holds t' file fPos' stage' other inside'
  exact apart (Option.some.inj (theirs.symm.trans mine))

theorem plain_of_outside {stage : Stage} (outside : stage.holds = false) : plain stage := by
  cases stage <;> trivial

/-- A stamp other than that of the page says that the sensor has been updated. -/
theorem Sound.updated_of_fresh [DecidableEq τ] (sound : Sound tables minor updates s) {file : φ} {fPos : Nat} {raw : MsrData}
    (reading : s.readers t = .reading file fPos (.needsRefresh raw))
    (fresh : (s.files file).bufTimestamp ≠ (s.sensors (minor file >>> 3) (s.files file).type).lastUpdate)
    (known : (s.files file).type < 3) : ∃ m, (minor file >>> 3, m) ∈ updates := by
  rcases sound.pages (minor file >>> 3) _ known with ⟨zero, never⟩ | ⟨m, made, -⟩
  · rcases sound.caches file with ⟨-, empty⟩ | ⟨m, made, -⟩ | ⟨t', fPos', raw', reading'⟩
    · exact absurd (by rw [zero, empty]) fresh
    · exact absurd made (never m)
    · by_cases same : t' = t
      · subst same
        rw [reading] at reading'
        cases reading'
      · have outside := sound.alone reading rfl reading' same
        cases outside
  · exact ⟨m, made⟩

variable [DecidableEq τ] [DecidableEq φ]

theorem Sound.write (sound : Sound tables minor updates s) {file : φ} {fPos : Nat} {stage next : Stage}
    {state : ChrdevState} (reading : s.readers t = .reading file fPos stage) (inside : stage.holds)
    (type : state.type = (s.files file).type) (still : next.holds)
    (known : Knows tables (fun m => (minor file >>> 3, m) ∈ updates) state next)
    (cached : (∃ m, (minor file >>> 3, m) ∈ updates ∧ Caches tables state m) ∨ ∃ raw, next = .bufTimestamp raw) :
    Sound tables minor updates (Readers.enter t (.reading file fPos next) (cache file state s)) where
  pages := sound.pages
  types file' := by
    by_cases same : file' = file
    · subst same
      simpa [Readers.enter, cache, type] using sound.types file'
    · simpa [Readers.enter, cache, same] using sound.types file'
  holds t' file' fPos' stage' reading' inside' := by
    rcases enter_reading reading' with ⟨rfl, here⟩ | ⟨-, there⟩
    · injection here with file_eq
      subst file_eq
      exact sound.holds t' file fPos stage reading inside
    · exact sound.holds t' file' fPos' stage' there inside'
  knows t' file' fPos' stage' reading' := by
    rcases enter_reading reading' with ⟨rfl, here⟩ | ⟨apart, there⟩
    · injection here with file_eq _ stage_eq
      subst file_eq stage_eq
      simpa [Readers.enter, cache] using known
    · by_cases same : file' = file
      · subst same
        exact knows_plain (plain_of_outside (sound.alone reading inside there apart))
      · simpa [Readers.enter, cache, same] using sound.knows t' file' fPos' stage' there
  caches file' := by
    by_cases same : file' = file
    · subst same
      rcases cached with cached | ⟨raw, rfl⟩
      · exact Or.inr (Or.inl (by simpa [Readers.enter, cache] using cached))
      · exact Or.inr (Or.inr ⟨t, fPos, raw, by simp [Readers.enter]⟩)
    · rcases sound.caches file' with empty | cached | ⟨t', fPos', raw, reading'⟩
      · exact Or.inl (by simpa [Readers.enter, cache, same] using empty)
      · exact Or.inr (Or.inl (by simpa [Readers.enter, cache, same] using cached))
      · have apart : t' ≠ t := by
          rintro rfl
          rw [reading] at reading'
          injection reading' with file_eq
          exact same file_eq.symm
        exact Or.inr (Or.inr ⟨t', fPos', raw, by simpa [Readers.enter, cache, apart] using reading'⟩)

theorem Sound.moves (sound : Sound tables minor updates s) {file : φ} {fPos : Nat} {stage : Stage}
    {s' : Readers τ φ} (reading : s.readers t = .reading file fPos stage)
    (moved : Moves tables (s.sensors (minor file >>> 3)) s t file fPos stage s') :
    Sound tables minor updates s' := by
  have unwritten (quiet : ∀ raw, stage ≠ .bufTimestamp raw) (file' : φ) (fPos' : Nat) (raw : MsrData) :
      s.readers t ≠ .reading file' fPos' (.bufTimestamp raw) := by
    rw [reading]
    intro same
    injection same with _ _ stage_eq
    exact quiet raw stage_eq
  have quiet_plain (quiet : plain stage) (raw : MsrData) : stage ≠ .bufTimestamp raw := by
    rintro rfl
    cases quiet
  cases moved with
  | stays => exact sound
  | leave outside => exact sound.enter (unwritten (quiet_plain (plain_of_outside outside))) nofun
  | @take _ next outside free quiet =>
    have nobody (t' : τ) (fPos' : Nat) (stage' : Stage) (reading' : s.readers t' = .reading file fPos' stage') :
        stage'.holds = false := by
      apply Bool.eq_false_iff.mpr
      intro inside
      rw [sound.holds t' file fPos' stage' reading' inside] at free
      cases free
    apply (sound.hold nobody (some t)).enter (unwritten (quiet_plain (plain_of_outside outside)))
    intro file' fPos' stage' here
    injection here with file_eq _ stage_eq
    subst file_eq stage_eq
    exact ⟨fun _ => by simp [Readers.hold], knows_plain quiet⟩
  | @release _ r outside quiet inside =>
    have quiet_r : ∀ file' fPos' stage', r = .reading file' fPos' stage' → stage'.holds = false := by
      rintro file' fPos' stage' rfl
      rcases outside with idle | wait
      · cases idle
      · injection wait with _ _ stage_eq
        rw [stage_eq]
        rfl
    apply (sound.enter (r := r) (unwritten (quiet_plain quiet)) ?_).hold
    · intro t' fPos' stage' reading'
      rcases enter_reading reading' with ⟨-, here⟩ | ⟨apart, there⟩
      · exact quiet_r file fPos' stage' here
      · exact sound.alone reading inside there apart
    · intro file' fPos' stage' here
      have gone := quiet_r file' fPos' stage' here
      exact ⟨fun inside => by simp [gone] at inside, knows_plain (plain_of_outside gone)⟩
  | @look _ next quiet same written =>
    apply sound.enter (unwritten written)
    intro file' fPos' stage' here
    injection here with file_eq _ stage_eq
    subst file_eq stage_eq
    exact ⟨fun inside => sound.holds t file fPos stage reading (same ▸ inside), knows_plain quiet⟩
  | refresh fresh =>
    apply sound.enter (unwritten nofun)
    intro file' fPos' stage' here
    injection here with file_eq _ stage_eq
    subst file_eq stage_eq
    exact ⟨fun _ => sound.holds t file fPos _ reading rfl, sound.updated_of_fresh reading fresh⟩
  | read =>
    apply sound.enter (unwritten nofun)
    intro file' fPos' stage' here
    injection here with file_eq _ stage_eq
    subst file_eq stage_eq
    refine ⟨fun _ => sound.holds t file fPos _ reading rfl, fun known => ?_⟩
    obtain ⟨m, made⟩ := sound.knows t file fPos _ reading known
    rcases sound.pages (minor file >>> 3) _ known with ⟨-, never⟩ | now
    · exact absurd made (never m)
    · exact now
  | @text raw n lim data proper formatted =>
    have known := properData_known proper
    obtain ⟨m, made, rfl⟩ := sound.knows t file fPos _ reading known
    have bounds := properData_bounds proper
    have short := measurementText_length bounds.1 bounds.2
    obtain ⟨lim_eq, taken⟩ := snprintf_text short formatted
    refine sound.write reading rfl ?_ rfl ⟨m, made, rfl, n, ?_, lim_eq, taken⟩ (Or.inr ⟨_, rfl⟩)
    · rfl
    · exact proper
  | @timestamp raw =>
    obtain ⟨m, made, rfl, held⟩ := sound.knows t file fPos _ reading
    exact sound.write reading rfl rfl rfl trivial (Or.inl ⟨m, made, held, rfl⟩)

/-- The update that an event is. -/
def update : ReaderEvent τ φ → Option (Nat × Measurement)
  | .updated sensor m => some (sensor, m)
  | _ => none

theorem Sound.updated (sound : Sound tables minor updates s) (sensor : Nat) (m : Measurement) :
    Sound tables minor (updates ++ [(sensor, m)]) (step tables minor s (.updated sensor m)) where
  pages sensor' type known := by
    by_cases same : sensor' = sensor
    · subst same
      exact Or.inr ⟨m, by simp, by simpa [step] using lunixSensorUpdate_page m _ known⟩
    · rcases sound.pages sensor' type known with ⟨zero, never⟩ | ⟨m', made, stored⟩
      · exact Or.inl ⟨by simpa [step, same] using zero, fun m' => by simp [never m', same]⟩
      · exact Or.inr ⟨m', by simp [made], by simpa [step, same] using stored⟩
  types := sound.types
  holds := sound.holds
  knows t file fPos stage reading :=
    (sound.knows t file fPos stage reading).more fun _ made => List.mem_append_left _ made
  caches file := by
    rcases sound.caches file with empty | ⟨m', made, cached⟩ | unstamped
    · exact Or.inl empty
    · exact Or.inr (Or.inl ⟨m', List.mem_append_left _ made, cached⟩)
    · exact Or.inr (Or.inr unstamped)

theorem Sound.step (sound : Sound tables minor updates s) (e : ReaderEvent τ φ) :
    Sound tables minor (updates ++ (update e).toList) (step tables minor s e) := by
  cases e with
  | updated sensor m => exact sound.updated sensor m
  | read t file fPos =>
    simp only [update, Option.toList_none, List.append_nil, Readers.step]
    split_ifs with idle
    · apply sound.enter
      · intro file' fPos' raw reading
        rw [idle] at reading
        cases reading
      · intro file' fPos' stage here
        injection here with _ _ stage_eq
        subst stage_eq
        refine ⟨fun taken => ?_, trivial⟩
        cases taken
    · exact sound
  | advance t interrupted =>
    simp only [update, Option.toList_none, List.append_nil, Readers.step]
    cases reading : s.readers t with
    | idle =>
      simp only [advance, reading]
      exact sound
    | reading file fPos stage => exact sound.moves reading (advance_moves interrupted reading)

theorem after_sound (tables : LookupTables) (minor : φ → Nat) (events : List (ReaderEvent τ φ)) :
    Sound tables minor (events.filterMap update) (after tables minor events) := by
  induction events using List.reverseRecOn with
  | nil => exact sound_start
  | append_singleton events e ih =>
    have stepped := ih.step e
    rw [after, List.foldl_append, List.filterMap_append]
    cases made : update e <;> simpa [made, after] using stepped

end OsLab.Lunix.Readers
