import OsLab.Lunix.Chrdev

/-!
# Partial reads

What consecutive reads of an open file copy. Each of them copies from the start of the
cached text, whatever `*f_pos` is, so the text arrives whole exactly when the first read
takes all of it.
-/

namespace OsLab.Lunix

/-- The reads from `*f_pos` on, when it is the last of them that rewinds the file: the cached
state at the end and all that was copied. -/
def readUntilRewind (tables : LookupTables) (state : ChrdevState) (fPos : Nat) :
    List ReadCall → Option (ChrdevState × List Char)
  | [] => none
  | call :: rest =>
    let result := lunixChrdevRead tables call state fPos
    if 0 < result.ret ∧ result.fPos = 0 then
      if rest.isEmpty then some (result.state, result.copied) else none
    else
      (readUntilRewind tables result.state result.fPos rest).map fun (final, copied) =>
        (final, result.copied ++ copied)

/-- The measurement cached for the first read that does not fail, and the size this read asks for. -/
def handedOut (tables : LookupTables) (state : ChrdevState) : List ReadCall → Option (ChrdevState × Nat)
  | [] => none
  | call :: rest =>
    if call.interrupted then handedOut tables state rest
    else
      match refresh tables state call.rounds with
      | (ret, cached) =>
        if ret < 0 ∨ call.faults then handedOut tables cached rest else some (cached, call.cnt)

def ChrdevState.text (s : ChrdevState) : List Char := s.bufData.take s.bufLim

/-- A measurement is cached. -/
def Cached (tables : LookupTables) (s : ChrdevState) : Prop :=
  ∃ n, -272150 ≤ n ∧ n ≤ 5000000 ∧ s.bufLim = (measurementText n).length ∧ s.text = measurementText n ∧
    ∃ raw, tables.properData s.type raw = some n

theorem refresh_cached {tables : LookupTables} {s : ChrdevState} {rounds : List Sensor} {ret : Int}
    {c : ChrdevState} (run : refresh tables s rounds = (ret, c)) :
    ret = -erestartsys ∧ c = s ∨ ret = 0 ∧ Cached tables c := by
  induction rounds generalizing s with
  | nil =>
    obtain ⟨rfl, rfl⟩ := Prod.mk.inj run
    exact Or.inl ⟨rfl, rfl⟩
  | cons sensor later ih =>
    by_cases done : (lunixChrdevStateUpdate tables sensor s).1 = 0
    · have pair : lunixChrdevStateUpdate tables sensor s = (0, (lunixChrdevStateUpdate tables sensor s).2) := by
        rw [← done]
      obtain ⟨n, read, type, lim, text, -⟩ := stateUpdate_cached pair
      rw [refresh, pair] at run
      simp only [eagain, show ¬ (0 : Int) = -11 by decide, if_false, Prod.mk.injEq] at run
      obtain ⟨rfl, rfl⟩ := run
      have bounds := properData_bounds read
      exact Or.inr ⟨rfl, n, bounds.1, bounds.2, lim, text, _, type ▸ read⟩
    · rw [refresh, stateUpdate_fails done] at run
      simp only [if_true] at run
      exact ih run

theorem Cached.room {tables : LookupTables} {s : ChrdevState} (cached : Cached tables s) :
    0 < s.bufLim ∧ s.bufLim < bufSz := by
  obtain ⟨n, low, high, lim, -⟩ := cached
  rw [lim]
  exact ⟨Nat.succ_pos _, measurementText_length low high⟩

/-! ### One read -/

theorem copyOut_first {call : ReadCall} {s : ChrdevState} (small : s.bufLim < bufSz)
    (whole : call.faults = false) :
    copyOut call s 0 = ⟨(min call.cnt s.bufLim : Nat), s,
      if min call.cnt s.bufLim = s.bufLim then 0 else min call.cnt s.bufLim,
      s.bufData.take (min call.cnt s.bufLim)⟩ := by
  have word := call.word
  unfold bufSz at small
  have size : (if s.bufLim ≤ (0 + call.cnt) % 2 ^ 64 then (s.bufLim + 2 ^ 64 - 0) % 2 ^ 64 else call.cnt) =
      min call.cnt s.bufLim := by
    split_ifs <;> omega
  have fits : ¬ taskSizeMax < min call.cnt s.bufLim := by unfold taskSizeMax; omega
  unfold copyOut copyToUser
  rw [size]
  simp only [whole, fits, Bool.false_eq_true, or_self, if_false, Nat.zero_add]

theorem copyOut_cases {s : ChrdevState} {fPos : Nat} (call : ReadCall) (small : s.bufLim < bufSz)
    (inside : fPos < s.bufLim) :
    copyOut call s fPos = ⟨-efault, s, fPos, []⟩ ∨
      ∃ n, 0 < n ∧ fPos + n ≤ s.bufLim ∧
        copyOut call s fPos = ⟨n, s, if fPos + n = s.bufLim then 0 else fPos + n, s.bufData.take n⟩ := by
  have word := call.word
  have asks := call.asks
  unfold bufSz at small
  unfold copyOut copyToUser
  generalize size : (if s.bufLim ≤ (fPos + call.cnt) % 2 ^ 64 then (s.bufLim + 2 ^ 64 - fPos) % 2 ^ 64
    else call.cnt) = n
  by_cases fails : call.faults ∨ taskSizeMax < n
  · left
    simp only [fails, if_true]
  · right
    have fits : ¬ taskSizeMax < n := fun big => fails (Or.inr big)
    unfold taskSizeMax at fits
    refine ⟨n, ?_, ?_, by simp only [fails, if_false]⟩
    · split_ifs at size <;> omega
    · split_ifs at size <;> omega

/-- Past the first bytes no read refreshes the cached state. -/
theorem read_inside {tables : LookupTables} {s : ChrdevState} {fPos : Nat} (call : ReadCall)
    (small : s.bufLim < bufSz) (started : 0 < fPos) (inside : fPos < s.bufLim) :
    (∃ ret, ret ≤ 0 ∧ lunixChrdevRead tables call s fPos = ⟨ret, s, fPos, []⟩) ∨
      ∃ n, 0 < n ∧ fPos + n ≤ s.bufLim ∧
        lunixChrdevRead tables call s fPos =
          ⟨n, s, if fPos + n = s.bufLim then 0 else fPos + n, s.bufData.take n⟩ := by
  unfold lunixChrdevRead
  by_cases stop : call.interrupted
  · exact Or.inl ⟨-erestartsys, by decide, by rw [if_pos stop]⟩
  · rw [if_neg stop, if_neg (by omega)]
    rcases copyOut_cases call small inside with fault | copied
    · exact Or.inl ⟨-efault, by decide, fault⟩
    · exact Or.inr copied

/-! ### All reads of a measurement -/

theorem reads_inside {tables : LookupTables} {s final : ChrdevState} {fPos : Nat} {reads : List ReadCall}
    {copied : List Char} (small : s.bufLim < bufSz) (started : 0 < fPos) (inside : fPos < s.bufLim)
    (rewound : readUntilRewind tables s fPos reads = some (final, copied)) :
    ∃ n more, 0 < n ∧ copied = s.bufData.take n ++ more := by
  induction reads generalizing copied with
  | nil => simp [readUntilRewind] at rewound
  | cons call rest ih =>
    rcases @read_inside tables s fPos call small started inside with
      ⟨ret, failed, result⟩ | ⟨n, some, fits, result⟩
    · simp only [readUntilRewind, result, show ¬ (0 < ret ∧ fPos = 0) by omega, if_false,
        Option.map_eq_some_iff] at rewound
      obtain ⟨⟨last, tail⟩, rewound, same⟩ := rewound
      obtain ⟨rfl, rfl⟩ := Prod.mk.inj same
      simpa using ih rewound
    · rw [readUntilRewind, result] at rewound
      by_cases last : fPos + n = s.bufLim
      · simp only [last, if_true, and_true, show (0 : Int) < n by omega] at rewound
        split_ifs at rewound
        obtain ⟨-, rfl⟩ := Prod.mk.inj (Option.some.inj rewound)
        exact ⟨n, [], some, by simp⟩
      · simp only [last, if_false, show fPos + n ≠ 0 by omega, and_false, Option.map_eq_some_iff] at rewound
        obtain ⟨⟨_, tail⟩, -, same⟩ := rewound
        obtain ⟨-, rfl⟩ := Prod.mk.inj same
        exact ⟨n, tail, some, rfl⟩

/-- The sign that a second copy starts with does not continue the text. -/
theorem text_ne_copies {tables : LookupTables} {s : ChrdevState} (cached : Cached tables s) {m n : Nat}
    {more : List Char} (first : 0 < m) (partly : m < s.bufLim) (some : 0 < n) :
    s.bufData.take m ++ (s.bufData.take n ++ more) ≠ s.text := by
  intro same
  obtain ⟨k, -, -, lim, text, -⟩ := cached
  obtain ⟨sign, tail, shape, once⟩ := measurementText_sign k
  obtain ⟨d, data⟩ : ∃ d, s.bufData = sign :: d := by
    have front := text.trans shape
    unfold ChrdevState.text at front
    cases buf : s.bufData with
    | nil => simp [buf] at front
    | cons c d =>
      obtain ⟨j, succ⟩ : ∃ j, s.bufLim = j + 1 := ⟨s.bufLim - 1, by omega⟩
      rw [buf, succ, List.take_succ_cons, List.cons.injEq] at front
      exact ⟨d, by rw [front.1]⟩
  obtain ⟨m, rfl⟩ : ∃ i, m = i + 1 := ⟨m - 1, by omega⟩
  obtain ⟨n, rfl⟩ : ∃ i, n = i + 1 := ⟨n - 1, by omega⟩
  rw [text, shape, data] at same
  simp only [List.take_succ_cons, List.cons_append, List.cons.injEq, true_and] at same
  exact once (same ▸ by simp)

/-- Reads that end with a rewind copy the cached measurement, each byte of it once, if and
only if the first of them that does not fail asks for the whole text. -/
theorem reads_copy_measurement_iff {tables : LookupTables} {s final : ChrdevState} {reads : List ReadCall}
    {copied : List Char} (rewound : readUntilRewind tables s 0 reads = some (final, copied)) :
    ∃ cached asked, handedOut tables s reads = some (cached, asked) ∧
      (copied = cached.text ↔ cached.bufLim ≤ asked) := by
  induction reads generalizing s copied with
  | nil => simp [readUntilRewind] at rewound
  | cons call rest ih =>
    -- a read that fails leaves `*f_pos` at zero, and the next one starts over
    have again : ∀ ret c, ret ≤ 0 → lunixChrdevRead tables call s 0 = ⟨ret, c, 0, []⟩ →
        readUntilRewind tables c 0 rest = some (final, copied) := by
      intro ret c failed result
      simp only [readUntilRewind, result, show ¬ 0 < ret by omega, false_and, if_false, List.nil_append,
        Option.map_eq_some_iff, Prod.mk.injEq] at rewound
      obtain ⟨⟨_, _⟩, tail, rfl, rfl⟩ := rewound
      exact tail
    by_cases stop : call.interrupted
    · rw [handedOut, if_pos stop]
      exact ih (again (-erestartsys) _ (by decide) (by rw [lunixChrdevRead, if_pos stop]))
    rw [handedOut, if_neg stop]
    obtain ⟨ret, c, run⟩ : ∃ ret c, refresh tables s call.rounds = (ret, c) := ⟨_, _, rfl⟩
    rcases refresh_cached run with ⟨rfl, rfl⟩ | ⟨rfl, cached⟩
    · simp only [run, show -erestartsys < 0 by decide, true_or, if_true]
      exact ih (again (-erestartsys) _ (by decide) (by
        rw [lunixChrdevRead, if_neg stop, if_pos rfl, run]
        rfl))
    have result : lunixChrdevRead tables call s 0 = copyOut call c 0 := by
      rw [lunixChrdevRead, if_neg stop]
      simp [run]
    have room := cached.room
    by_cases fault : call.faults
    · simp only [run, fault, or_true, if_true]
      exact ih (again (-efault) _ (by decide) (by simp [result, copyOut, copyToUser, fault]))
    simp only [run, fault, Int.lt_irrefl, Bool.false_eq_true, or_self, if_false]
    refine ⟨c, call.cnt, rfl, ?_⟩
    have asks := call.asks
    rw [readUntilRewind, result, copyOut_first room.2 (by simpa using fault)] at rewound
    by_cases whole : c.bufLim ≤ call.cnt
    · have full : min call.cnt c.bufLim = c.bufLim := by omega
      simp only [full, if_true, and_true, show (0 : Int) < (c.bufLim : Nat) by omega] at rewound
      split_ifs at rewound
      obtain ⟨-, rfl⟩ := Prod.mk.inj (Option.some.inj rewound)
      exact ⟨fun _ => whole, fun _ => rfl⟩
    · have part : min call.cnt c.bufLim = call.cnt := by omega
      simp only [part, show call.cnt ≠ c.bufLim by omega, if_false, show call.cnt ≠ 0 by omega, and_false,
        Option.map_eq_some_iff, Prod.mk.injEq] at rewound
      obtain ⟨⟨_, tail⟩, rest, -, rfl⟩ := rewound
      obtain ⟨n, more, some, rfl⟩ := reads_inside room.2 asks (by omega) rest
      exact iff_of_false (text_ne_copies cached asks (by omega) some) whole

/-- Reads of four bytes each; the sensor was updated at second 1000. -/
def fourBytes : ReadCall :=
  ⟨4, false, [lunixSensorUpdate 1000 0 0 0 lunixSensorInit], false, by decide, by decide⟩

theorem reads_copy_measurement_fourBytes :
    ∃ cached asked, handedOut sampleTables (lunixChrdevOpen 1) [fourBytes, fourBytes] = some (cached, asked) ∧
      (['-', '2', '7', '2', '-', '2', '7', '2'] = cached.text ↔ cached.bufLim ≤ asked) :=
  @reads_copy_measurement_iff sampleTables (lunixChrdevOpen 1) _ [fourBytes, fourBytes] _ rfl

/-- The text is `-272,150`. -/
theorem second_read_starts_over :
    ¬ ∀ tables s reads final copied cached asked,
      readUntilRewind tables s 0 reads = some (final, copied) →
        handedOut tables s reads = some (cached, asked) → copied = cached.text := by
  intro whole
  have copies := whole sampleTables (lunixChrdevOpen 1) [fourBytes, fourBytes] _
    ['-', '2', '7', '2', '-', '2', '7', '2'] _ _ rfl rfl
  revert copies
  decide

end OsLab.Lunix
