import OsLab.Lunix.CachedPairs

/-!
# Order of the stamps

Under a clock that never goes back, the stamps that a file caches never decrease.
-/

namespace OsLab.Lunix.Readers

variable {τ φ : Type} {tables : LookupTables} {minor : φ → Nat} {updates : List (Nat × Measurement)}
  {s : Readers τ φ} {t : τ} {bound : Nat}

/-- What a reader has read of the sensor and will write to the file. -/
def taken : Stage → Option MsrData
  | .format raw | .bufTimestamp raw => some raw
  | _ => none

/-- No stamp is later than `bound`, none of a file later than those it can be followed by. -/
structure Ordered (minor : φ → Nat) (bound : Nat) (s : Readers τ φ) : Prop where
  pages : ∀ sensor type, (s.sensors sensor type).lastUpdate.toNat ≤ bound
  stamps : ∀ file, (s.files file).bufTimestamp ≤ (s.sensors (minor file >>> 3) (s.files file).type).lastUpdate
  taken : ∀ t file fPos stage raw, s.readers t = .reading file fPos stage → taken stage = some raw →
    (s.files file).bufTimestamp ≤ raw.lastUpdate ∧
      raw.lastUpdate ≤ (s.sensors (minor file >>> 3) (s.files file).type).lastUpdate

theorem ordered_start : Ordered minor 0 (start minor : Readers τ φ) where
  pages _ _ := Nat.le_refl 0
  stamps _ := UInt32.le_refl 0
  taken _ _ _ _ _ reading := nomatch reading

theorem Ordered.enter [DecidableEq τ] (ordered : Ordered minor bound s) {r : Reader φ}
    (arrives : ∀ file fPos stage raw, r = .reading file fPos stage → Readers.taken stage = some raw →
      (s.files file).bufTimestamp ≤ raw.lastUpdate ∧
        raw.lastUpdate ≤ (s.sensors (minor file >>> 3) (s.files file).type).lastUpdate) :
    Ordered minor bound (Readers.enter t r s) where
  pages := ordered.pages
  stamps := ordered.stamps
  taken t' file fPos stage raw reading took := by
    rcases enter_reading reading with ⟨-, here⟩ | ⟨-, there⟩
    · exact arrives file fPos stage raw here took
    · exact ordered.taken t' file fPos stage raw there took

theorem Ordered.cache [DecidableEq φ] (ordered : Ordered minor bound s) {file : φ} {state : ChrdevState}
    (type : state.type = (s.files file).type) (time : state.bufTimestamp = (s.files file).bufTimestamp) :
    Ordered minor bound (Readers.cache file state s) where
  pages := ordered.pages
  stamps file' := by
    by_cases same : file' = file
    · subst same
      simpa [Readers.cache, type, time] using ordered.stamps file'
    · simpa [Readers.cache, same] using ordered.stamps file'
  taken t file' fPos stage raw reading took := by
    by_cases same : file' = file
    · subst same
      simpa [Readers.cache, type, time] using ordered.taken t file' fPos stage raw reading took
    · simpa [Readers.cache, same] using ordered.taken t file' fPos stage raw reading took

variable [DecidableEq τ] [DecidableEq φ]

/-- The step lemma of a reader: the order is kept, and no file gets an earlier stamp. -/
theorem Ordered.moves (ordered : Ordered minor bound s) (sound : Sound tables minor updates s) {file : φ}
    {fPos : Nat} {stage : Stage} {s' : Readers τ φ} (reading : s.readers t = .reading file fPos stage)
    (moved : Moves tables (s.sensors (minor file >>> 3)) s t file fPos stage s') :
    Ordered minor bound s' ∧ ∀ file', (s.files file').bufTimestamp ≤ (s'.files file').bufTimestamp := by
  have plain_taken {stage' : Stage} (quiet : plain stage') : Readers.taken stage' = none := by
    cases stage' <;> trivial
  have unread {stage' : Stage} (none_taken : Readers.taken stage' = none) :
      Ordered minor bound (Readers.enter t (.reading file fPos stage') s) := by
    apply ordered.enter
    intro file' fPos' stage'' raw here took
    injection here with _ _ stage_eq
    subst stage_eq
    rw [none_taken] at took
    cases took
  have same (file' : φ) : (s.files file').bufTimestamp ≤ (s.files file').bufTimestamp := UInt32.le_refl _
  cases moved with
  | stays => exact ⟨ordered, same⟩
  | leave => exact ⟨ordered.enter nofun, same⟩
  | take _ _ quiet =>
    have entered := unread (plain_taken quiet)
    exact ⟨⟨entered.pages, entered.stamps, entered.taken⟩, same⟩
  | release outside _ _ =>
    rcases outside with rfl | rfl
    · have entered := ordered.enter (t := t) (r := .idle) nofun
      exact ⟨⟨entered.pages, entered.stamps, entered.taken⟩, same⟩
    · have entered := @unread .wait rfl
      exact ⟨⟨entered.pages, entered.stamps, entered.taken⟩, same⟩
  | look quiet => exact ⟨unread (plain_taken quiet), same⟩
  | refresh => exact ⟨unread rfl, same⟩
  | read =>
    refine ⟨ordered.enter ?_, same⟩
    intro file' fPos' stage' raw here took
    injection here with file_eq _ stage_eq
    subst file_eq stage_eq
    obtain rfl := Option.some.inj took
    exact ⟨ordered.stamps file, UInt32.le_refl _⟩
  | @text raw n lim data =>
    have written : Ordered minor bound
        (Readers.cache file { s.files file with bufLim := lim, bufData := data } s) := ordered.cache rfl rfl
    have known := ordered.taken t file fPos _ raw reading rfl
    constructor
    · apply written.enter
      intro file' fPos' stage' raw' here took
      injection here with file_eq _ stage_eq
      subst file_eq stage_eq
      obtain rfl := Option.some.inj took
      simpa [Readers.cache] using known
    · intro file'
      by_cases here : file' = file
      · subst here
        simp [Readers.enter, Readers.cache]
      · simp [Readers.enter, Readers.cache, here]
  | @timestamp raw =>
    obtain ⟨after_old, before_page⟩ := ordered.taken t file fPos _ raw reading rfl
    refine ⟨⟨ordered.pages, fun file' => ?_, fun t' file' fPos' stage' raw' reading' took => ?_⟩, fun file' => ?_⟩
    · by_cases here : file' = file
      · subst here
        simpa [Readers.enter, Readers.cache] using before_page
      · simpa [Readers.enter, Readers.cache, here] using ordered.stamps file'
    · rcases enter_reading reading' with ⟨-, here⟩ | ⟨apart, there⟩
      · injection here with _ _ stage_eq
        subst stage_eq
        cases took
      · by_cases here : file' = file
        · subst here
          have outside := sound.alone reading rfl there apart
          rw [plain_taken (plain_of_outside outside)] at took
          cases took
        · simpa [Readers.enter, Readers.cache, here] using ordered.taken t' file' fPos' stage' raw' there took
    · by_cases here : file' = file
      · subst here
        simpa [Readers.enter, Readers.cache] using after_old
      · simp [Readers.enter, Readers.cache, here]

def clock (e : ReaderEvent τ φ) : Option Nat := (update e).map fun made => made.2.seconds

/-- From `bound` on the clock never goes back, and its seconds fit in the 32 bits of a stamp. -/
def ClockFrom (bound : Nat) (events : List (ReaderEvent τ φ)) : Prop :=
  (bound :: events.filterMap clock).Pairwise (· ≤ ·) ∧ ∀ c ∈ events.filterMap clock, c < 2 ^ 32

theorem Ordered.updated (ordered : Ordered minor bound s) (sensor : Nat) {m : Measurement}
    (later : bound ≤ m.seconds) (small : m.seconds < 2 ^ 32) :
    Ordered minor m.seconds (step tables minor s (.updated sensor m)) := by
  have stamp : (UInt32.ofNat m.seconds).toNat = m.seconds := by
    rw [UInt32.toNat_ofNat', Nat.mod_eq_of_lt small]
  have old (sensor' type : Nat) : (s.sensors sensor' type).lastUpdate.toNat ≤ m.seconds :=
    Nat.le_trans (ordered.pages sensor' type) later
  have stored (sensor' type : Nat) :
      ((step tables minor s (.updated sensor m)).sensors sensor' type).lastUpdate =
        (s.sensors sensor' type).lastUpdate ∨
      ((step tables minor s (.updated sensor m)).sensors sensor' type).lastUpdate = UInt32.ofNat m.seconds := by
    by_cases same : sensor' = sensor
    · subst same
      simp only [step, Function.update_self]
      unfold lunixSensorUpdate
      split_ifs <;> simp
    · simp [step, same]
  have grows (sensor' type : Nat) : (s.sensors sensor' type).lastUpdate ≤
      ((step tables minor s (.updated sensor m)).sensors sensor' type).lastUpdate := by
    rcases stored sensor' type with unchanged | now
    · rw [unchanged]
      exact UInt32.le_refl _
    · rw [now, UInt32.le_iff_toNat_le, stamp]
      exact old sensor' type
  refine ⟨fun sensor' type => ?_, fun file => ?_, fun t file fPos stage raw reading took => ?_⟩
  · rcases stored sensor' type with unchanged | now
    · rw [unchanged]
      exact old sensor' type
    · rw [now]
      exact Nat.le_of_eq stamp
  · exact UInt32.le_trans (ordered.stamps file) (grows _ _)
  · have known := ordered.taken t file fPos stage raw reading took
    exact ⟨known.1, UInt32.le_trans known.2 (grows _ _)⟩

theorem Ordered.step (ordered : Ordered minor bound s) (sound : Sound tables minor updates s)
    {e : ReaderEvent τ φ} {later : List (ReaderEvent τ φ)} (ascends : ClockFrom bound (e :: later)) :
    ∃ bound', Ordered minor bound' (step tables minor s e) ∧ ClockFrom bound' later ∧
      ∀ file, (s.files file).bufTimestamp ≤ ((Readers.step tables minor s e).files file).bufTimestamp := by
  have same (file : φ) : (s.files file).bufTimestamp ≤ (s.files file).bufTimestamp := UInt32.le_refl _
  cases e with
  | updated sensor m =>
    obtain ⟨inOrder, small⟩ := ascends
    obtain ⟨first, rest⟩ := List.pairwise_cons.mp inOrder
    refine ⟨m.seconds, ordered.updated sensor (first _ ?_) (small _ ?_), ⟨rest, fun c member => ?_⟩, same⟩
    · exact List.mem_cons_self
    · exact List.mem_cons_self
    · exact small c (List.mem_cons_of_mem _ member)
  | read t file fPos =>
    refine ⟨bound, ?_, ascends, ?_⟩
    all_goals
      simp only [Readers.step]
      split_ifs
    · apply ordered.enter
      intro file' fPos' stage raw here took
      injection here with _ _ stage_eq
      subst stage_eq
      cases took
    · exact ordered
    · exact same
    · exact same
  | advance t interrupted =>
    cases reading : s.readers t with
    | idle =>
      have still : Readers.step tables minor s (.advance t interrupted) = s := by
        simp only [Readers.step, advance, reading]
      rw [still]
      exact ⟨bound, ordered, ascends, same⟩
    | reading file fPos stage =>
      have moved := ordered.moves sound reading (advance_moves interrupted reading)
      exact ⟨bound, moved.1, ascends, moved.2⟩

/-- Along a run, and from any point of it on, no file gets an earlier stamp. -/
theorem stamps_ascend (events later : List (ReaderEvent τ φ)) (ordered : Ordered minor bound s)
    (sound : Sound tables minor updates s) (ascends : ClockFrom bound (events ++ later)) (file : φ) :
    ((events.foldl (step tables minor) s).files file).bufTimestamp ≤
      (((events ++ later).foldl (step tables minor) s).files file).bufTimestamp := by
  induction events generalizing s bound updates with
  | nil =>
    induction later generalizing s bound updates with
    | nil => exact UInt32.le_refl _
    | cons e later ih =>
      obtain ⟨bound', stepped, rest, first⟩ := ordered.step sound ascends
      exact UInt32.le_trans (first file) (ih stepped (sound.step e) rest)
  | cons e events ih =>
    obtain ⟨bound', stepped, rest, -⟩ := ordered.step sound ascends
    exact ih stepped (sound.step e) rest

/-- A file whose semaphore is free and that has cached something holds text and stamp of one update
of its sensor, and its stamps never decrease. -/
theorem cached_pairs (tables : LookupTables) (minor : φ → Nat) (events : List (ReaderEvent τ φ)) (file : φ) :
    let s := after tables minor events
    (s.holder file = none → 0 < (s.files file).bufLim → (s.files file).type = minor file % 8 ∧
      ∃ m, .updated (minor file >>> 3) m ∈ events ∧ Caches tables (s.files file) m) ∧
    ∀ later, ((events ++ later).filterMap clock).Pairwise (· ≤ ·) →
      (∀ c ∈ (events ++ later).filterMap clock, c < 2 ^ 32) →
      (s.files file).bufTimestamp ≤ ((after tables minor (events ++ later)).files file).bufTimestamp := by
  have sound := after_sound tables minor events
  refine ⟨fun free filled => ⟨sound.types file, ?_⟩, fun later ascends small => ?_⟩
  · rcases sound.caches file with ⟨empty, -⟩ | ⟨m, made, cached⟩ | ⟨t, fPos, raw, reading⟩
    · omega
    · obtain ⟨e, member, is_update⟩ := List.mem_filterMap.mp made
      cases e with
      | updated sensor m' =>
        obtain ⟨rfl, rfl⟩ := Prod.mk.inj (Option.some.inj is_update)
        exact ⟨m', member, cached⟩
      | read => cases is_update
      | advance => cases is_update
    · have inside := sound.holds t file fPos _ reading rfl
      rw [free] at inside
      cases inside
  · apply stamps_ascend events later ordered_start sound_start
    exact ⟨List.pairwise_cons.mpr ⟨fun c _ => Nat.zero_le c, ascends⟩, small⟩

/-- An update and the read that caches it. -/
def updateAndRead (m : Measurement) : List (ReaderEvent Unit Unit) :=
  .updated 0 m :: .read () () 0 :: List.replicate 9 (.advance () false)

theorem cached_pairs_twice :
    let s := after sampleTables (fun _ => 1) (updateAndRead ⟨1000, 0, 500, 0⟩)
    ((s.files ()).type = 1 ∧
      ∃ m, .updated 0 m ∈ updateAndRead ⟨1000, 0, 500, 0⟩ ∧ Caches sampleTables (s.files ()) m) ∧
    (s.files ()).bufTimestamp ≤ ((after sampleTables (fun _ => 1)
      (updateAndRead ⟨1000, 0, 500, 0⟩ ++ updateAndRead ⟨1001, 0, 0, 0⟩)).files ()).bufTimestamp :=
  have pairs := cached_pairs sampleTables (fun _ => 1) (updateAndRead ⟨1000, 0, 500, 0⟩) ()
  ⟨pairs.1 (by decide) (by decide), pairs.2 (updateAndRead ⟨1001, 0, 0, 0⟩) (by decide) (by decide)⟩

/-- In the second in which the 32 bits run out, the stamp of a file falls to 0. -/
theorem stamp_wraps :
    ¬ ∀ (minor : Unit → Nat) (events : List (ReaderEvent Unit Unit)) (file : Unit),
      let s := after sampleTables minor events
      (s.holder file = none → 0 < (s.files file).bufLim →
        ∃ m, .updated (minor file >>> 3) m ∈ events ∧ Caches sampleTables (s.files file) m) ∧
      ∀ later, ((events ++ later).filterMap clock).Pairwise (· ≤ ·) →
        (s.files file).bufTimestamp ≤ ((after sampleTables minor (events ++ later)).files file).bufTimestamp := by
  intro pairs
  have ascends := (pairs (fun _ => 1) (updateAndRead ⟨2 ^ 32 - 1, 0, 500, 0⟩) ()).2
    (updateAndRead ⟨2 ^ 32, 0, 500, 0⟩) (by decide)
  revert ascends
  decide

end OsLab.Lunix.Readers
