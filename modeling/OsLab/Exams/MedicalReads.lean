import Mathlib.Data.List.Basic
import Mathlib.Tactic.Ring
import OsLab.Foundation.Ring
import OsLab.Foundation.Runs
import OsLab.Exams.MedicalDriver

/-!
# Reads of the medical device

When a stream of reads gets the measurements in their order, whatever interrupts come between
its steps.
-/

namespace OsLab.Exams
open Runs

variable {l : Layout}

/-! ### Bytes of measurements -/

def bytesOf (measured : List (PatientData l)) : List UInt8 := (measured.map PatientData.bytes).flatten

theorem bytesOf_append (measured : List (PatientData l)) (pd : PatientData l) :
    bytesOf (measured ++ [pd]) = bytesOf measured ++ pd.bytes := by
  simp [bytesOf]

theorem bytesOf_length (measured : List (PatientData l)) : (bytesOf measured).length = l.size * measured.length := by
  induction measured with
  | nil => rfl
  | cons pd measured ih =>
    have first : bytesOf (pd :: measured) = pd.bytes ++ bytesOf measured := rfl
    rw [first, List.length_append, ih, pd.length, List.length_cons]
    ring

theorem bytesOf_getElem? {measured : List (PatientData l)} {n i : Nat} {pd : PatientData l}
    (at_n : measured[n]? = some pd) (inside : i < l.size) : (bytesOf measured)[l.size * n + i]? = pd.bytes[i]? := by
  induction measured generalizing n with
  | nil => cases at_n
  | cons first measured ih =>
    have split : bytesOf (first :: measured) = first.bytes ++ bytesOf measured := rfl
    cases n with
    | zero =>
      obtain rfl := Option.some.inj at_n
      rw [split, Nat.mul_zero, Nat.zero_add, List.getElem?_append_left (by rw [first.length]; exact inside)]
    | succ n =>
      have behind : first.bytes.length ≤ l.size * (n + 1) + i := by
        rw [first.length, Nat.mul_succ]
        omega
      have rest : l.size * (n + 1) + i - first.bytes.length = l.size * n + i := by
        rw [first.length, Nat.mul_succ]
        omega
      rw [split, List.getElem?_append_right behind, rest]
      exact ih at_n

/-- A measurement does not reach over the end of the buffer. -/
theorem place_eq {c i : Nat} (aligned : l.size ∣ c) (inside : i < l.size) :
    c % circBufSize l + i = (c + i) % circBufSize l := by
  obtain ⟨q, rfl⟩ := aligned
  have place : l.size * q % circBufSize l = l.size * (q % 1024) := by
    rw [circBufSize, Nat.mul_comm 1024, Nat.mul_mod_mul_left]
  have low : q % 1024 + 1 ≤ 1024 := Nat.mod_lt _ (by decide)
  have within : l.size * (q % 1024 + 1) ≤ l.size * 1024 := Nat.mul_le_mul_left _ low
  rw [Nat.mul_succ] at within
  have small : l.size * q % circBufSize l + i < circBufSize l := by
    rw [place, circBufSize]
    omega
  rw [← Nat.mod_add_mod, Nat.mod_eq_of_lt small]

/-! ### The buffer -/

namespace MedicalDev

/-- What a running interrupt has stored. -/
def inflight (s : MedicalDev l) : List UInt8 := s.intr.elim [] fun intr => intr.1.bytes.take intr.2

/-- `stored` are the bytes of all measurements that are counted. -/
structure Stored (s : MedicalDev l) (stored : List UInt8) : Prop where
  length : stored.length = s.cnt
  aligned : l.size ∣ s.cnt
  fits : s.cnt < 2 ^ 128
  progress : ∀ pd done, s.intr = some (pd, done) → done ≤ l.size ∧ s.cnt + l.size < 2 ^ 128
  ring : Ring.Holds s.circBuffer (circBufSize l) (stored ++ s.inflight)

theorem boot_stored : (boot l).Stored [] where
  length := rfl
  aligned := Nat.dvd_zero _
  fits := Nat.two_pow_pos 128
  progress _ _ running := nomatch running
  ring := Ring.holds_nil _ _

/-- Steps of the file operations do not touch the device. -/
theorem Stored.congr {s t : MedicalDev l} {stored : List UInt8} (ok : s.Stored stored) (cnt : t.cnt = s.cnt)
    (intr : t.intr = s.intr) (circBuffer : t.circBuffer = s.circBuffer) : t.Stored stored := by
  obtain ⟨length, aligned, fits, progress, ring⟩ := ok
  refine ⟨by rw [cnt, length], cnt ▸ aligned, cnt ▸ fits, ?_, ?_⟩
  · rwa [cnt, intr]
  · rwa [circBuffer, inflight, intr]

theorem Stored.enter {s : MedicalDev l} {stored : List UInt8} (ok : s.Stored stored) (pd : PatientData l) :
    (s.intrEnter pd).Stored stored := by
  unfold intrEnter
  split_ifs with free
  · refine ⟨ok.length, ok.aligned, ok.fits, ?_, ?_⟩
    · intro pd' done running
      obtain ⟨rfl, rfl⟩ := Prod.mk.inj (Option.some.inj running)
      exact ⟨Nat.zero_le _, free.2⟩
    · have ring := ok.ring
      rwa [inflight, Option.isNone_iff_eq_none.mp free.1] at ring
  · exact ok

theorem Stored.store {s : MedicalDev l} {stored : List UInt8} (ok : s.Stored stored) {pd : PatientData l} {done : Nat}
    (running : s.intr = some (pd, done)) (more : done < l.size) : s.intrStore.Stored stored := by
  have inside : done < pd.bytes.length := pd.length.symm ▸ more
  have bytes : s.inflight = pd.bytes.take done := by rw [inflight, running]; rfl
  have place : (stored ++ s.inflight).length % circBufSize l = s.cnt % circBufSize l + done := by
    rw [List.length_append, bytes, List.length_take_of_le (Nat.le_of_lt inside), ok.length, place_eq ok.aligned more]
  have next : (stored ++ s.inflight) ++ [pd.bytes.getD done 0] = stored ++ pd.bytes.take (done + 1) := by
    rw [bytes, List.append_assoc, List.take_add_one, List.getD_eq_getElem?_getD, List.getElem?_eq_getElem inside]
    rfl
  have pushed := ok.ring.push (pd.bytes.getD done 0)
  rw [place, next] at pushed
  unfold intrStore
  simp only [running, if_pos more]
  refine ⟨ok.length, ok.aligned, ok.fits, ?_, pushed⟩
  intro pd' done' same
  obtain ⟨rfl, rfl⟩ := Prod.mk.inj (Option.some.inj same)
  exact ⟨more, (ok.progress _ _ running).2⟩

theorem Stored.count {s : MedicalDev l} {stored : List UInt8} (ok : s.Stored stored) {pd : PatientData l} {done : Nat}
    (running : s.intr = some (pd, done)) (last : ¬ done < l.size) : s.intrStore.Stored (stored ++ pd.bytes) := by
  have bytes : s.inflight = pd.bytes := by
    rw [inflight, running]
    exact List.take_of_length_le (pd.length ▸ Nat.not_lt.mp last)
  unfold intrStore
  simp only [running, if_neg last]
  constructor
  · rw [List.length_append, ok.length, pd.length]
  · exact Nat.dvd_add ok.aligned (Nat.dvd_refl _)
  · exact (ok.progress _ _ running).2
  · exact fun _ _ same => nomatch same
  · have ring := ok.ring
    rw [bytes] at ring
    rw [inflight, Option.elim_none, List.append_nil]
    exact ring

/-- A byte of a counted measurement that no later one has replaced. -/
theorem Stored.byte {s : MedicalDev l} {stored : List UInt8} (ok : s.Stored stored) {f : Stream l} {i : Nat}
    (aligned : l.size ∣ f.state.localCnt) (inside : i < l.size) (counted : f.state.localCnt + l.size ≤ s.cnt)
    (kept : ¬ s.Overwritten f i) :
    stored[f.state.localCnt + i]? = some (s.circBuffer (f.state.localCnt % circBufSize l + i)) := by
  have before : f.state.localCnt + i < stored.length := by
    rw [ok.length]
    omega
  have written : (stored ++ s.inflight).length = s.written := by
    rw [List.length_append, ok.length, MedicalDev.written, inflight]
    cases running : s.intr with
    | none => rfl
    | some intr =>
      have progress := (ok.progress intr.1 intr.2 running).1
      rw [Option.elim_some, Option.elim_some, List.length_take_of_le (intr.1.length.symm ▸ progress)]
  have held := ok.ring (f.state.localCnt + i) (by rw [List.length_append]; omega) (by
    rw [written]
    exact Nat.not_lt.mp kept)
  rwa [List.getElem?_append_left before, ← place_eq aligned inside] at held

/-! ### The stream of an open file -/

/-- What a call knows at its next step. -/
def Knows (s : MedicalDev l) (stored : List UInt8) (f : Stream l) (late : Bool) : ReadStage → Prop
  | .down => f.state.lock = false
  | .testCnt | .wait => True
  | .testPos | .testLag => f.state.localCnt < s.cnt
  | .memcpy done =>
    f.state.localCnt < s.cnt ∧ done ≤ l.size ∧ (0 < done → late = false) ∧
      ∀ i < done, stored[f.state.localCnt + i]? = some (f.state.localBuf i)
  | .copyToUser =>
    f.state.localCnt < s.cnt ∧ late = false ∧ ∀ i < l.size, stored[f.state.localCnt + i]? = some (f.state.localBuf i)

/-- The calls so far were answered with the measurements since the open, in their order. -/
structure Serves (s : MedicalDev l) (stored : List UInt8) (f : Stream l) : Prop where
  position : ∃ before, stored = before ++ bytesOf f.measured ∧
    f.state.localCnt = before.length + l.size * f.delivered.length
  delivered : f.delivered <+: f.measured.map PatientData.bytes
  returned : ∀ r ∈ f.returned, r.late = true → r.ret = 0
  late : ∀ c, f.call = some c → c.late = true → s.Overwritten f 0
  knows : ∀ c, f.call = some c → s.Knows stored f c.late c.stage

/-- The next measurement is counted as a whole. -/
theorem Serves.counted {s : MedicalDev l} {stored : List UInt8} {f : Stream l} (serves : s.Serves stored f)
    (ok : s.Stored stored) (more : f.state.localCnt < s.cnt) :
    l.size ∣ f.state.localCnt ∧ f.state.localCnt + l.size ≤ s.cnt ∧ f.delivered.length < f.measured.length := by
  obtain ⟨before, split, position⟩ := serves.position
  have length : s.cnt = before.length + l.size * f.measured.length := by
    rw [← ok.length, split, List.length_append, bytesOf_length]
  have start : l.size ∣ before.length := by
    rw [← Nat.dvd_add_left (Nat.dvd_mul_right l.size f.measured.length), ← length]
    exact ok.aligned
  have few : f.delivered.length < f.measured.length := by
    rw [length, position] at more
    exact Nat.lt_of_mul_lt_mul_left (Nat.lt_of_add_lt_add_left more)
  refine ⟨position ▸ Nat.dvd_add start (Nat.dvd_mul_right _ _), ?_, few⟩
  have rows := Nat.mul_le_mul_left l.size (Nat.succ_le_of_lt few)
  rw [Nat.mul_succ] at rows
  omega

/-- The bytes of the next measurement are the measurement that follows the delivered ones. -/
theorem Serves.next {s : MedicalDev l} {stored : List UInt8} {f : Stream l} (serves : s.Serves stored f)
    (few : f.delivered.length < f.measured.length)
    (copied : ∀ i < l.size, stored[f.state.localCnt + i]? = some (f.state.localBuf i)) :
    f.delivered ++ [(List.range l.size).map f.state.localBuf] <+: f.measured.map PatientData.bytes := by
  obtain ⟨before, split, position⟩ := serves.position
  obtain ⟨pd, at_n⟩ : ∃ pd, f.measured[f.delivered.length]? = some pd := ⟨_, List.getElem?_eq_getElem few⟩
  have same : (List.range l.size).map f.state.localBuf = pd.bytes := by
    apply List.ext_getElem?
    intro i
    rcases Nat.lt_or_ge i l.size with inside | outside
    · have byte := copied i inside
      rw [split, position, Nat.add_assoc, List.getElem?_append_right (Nat.le_add_right _ _), Nat.add_sub_cancel_left,
        bytesOf_getElem? at_n inside] at byte
      rw [byte, List.getElem?_map, List.getElem?_range inside]
      rfl
    · rw [List.getElem?_eq_none (by simpa using outside), List.getElem?_eq_none (by rw [pd.length]; exact outside)]
  have mapped : (f.measured.map PatientData.bytes)[f.delivered.length]? = some pd.bytes := by
    rw [List.getElem?_map, at_n]
    rfl
  obtain ⟨rest, whole⟩ := serves.delivered
  rw [← whole, List.getElem?_append_right (Nat.le_refl _), Nat.sub_self] at mapped
  cases rest with
  | nil => cases mapped
  | cons first rest =>
    obtain rfl := Option.some.inj mapped
    exact ⟨rest, by rw [same, ← whole, List.append_assoc]; rfl⟩

/-! ### Steps -/

/-- A read is made, a wait ends and a byte is copied only where the code can handle it: behind no read that left the
semaphore down, without a signal, and before a later measurement replaces the byte. -/
def Admitted (s : MedicalDev l) : MedicalEvent l → Prop
  | .read => ∀ f, s.file = some f → f.call = none → f.state.lock = false
  | .signal => ∀ f late, s.file = some f → f.call = some ⟨.wait, late⟩ → f.state.localCnt < s.cnt
  | .advance => ∀ f late done, s.file = some f → f.call = some ⟨.memcpy done, late⟩ → done < l.size →
    ¬ s.Overwritten f done
  | _ => True

variable {s t : MedicalDev l} {stored : List UInt8} {f : Stream l}

theorem Serves.position_le (serves : s.Serves stored f) (ok : s.Stored stored) : f.state.localCnt ≤ s.cnt := by
  obtain ⟨before, split, position⟩ := serves.position
  have few := serves.delivered.length_le
  rw [List.length_map] at few
  have rows := Nat.mul_le_mul_left l.size few
  rw [position, ← ok.length, split, List.length_append, bytesOf_length]
  omega

/-- The call goes on, with what it has changed in the file's state. -/
theorem Serves.goto (serves : s.Serves stored f) {state : ChrdevState} {late : Bool} {stage : ReadStage}
    (same : state.localCnt = f.state.localCnt) (overwritten : late = true → s.Overwritten f 0)
    (knows : s.Knows stored { f with state := state } late stage) :
    s.Serves stored (Stream.goto stage late { f with state := state }) := by
  refine ⟨?_, serves.delivered, serves.returned, ?_, ?_⟩
  · rw [show (Stream.goto stage late { f with state := state }).state.localCnt = f.state.localCnt from same]
    exact serves.position
  · intro c called late
    obtain rfl := Option.some.inj called
    show state.localCnt + 0 + circBufSize l < s.written
    rw [same]
    exact overwritten late
  · intro c called
    obtain rfl := Option.some.inj called
    cases stage <;> exact knows

theorem Serves.finish (serves : s.Serves stored f) {state : ChrdevState} {late : Bool} {ret : Int}
    (same : state.localCnt = f.state.localCnt) (fine : late = true → ret = 0) :
    s.Serves stored (Stream.finish late ret { f with state := state }) := by
  refine ⟨?_, serves.delivered, ?_, fun _ called => (nomatch called), fun _ called => (nomatch called)⟩
  · rw [show (Stream.finish late ret { f with state := state }).state.localCnt = f.state.localCnt from same]
    exact serves.position
  · intro r member
    rcases List.mem_append.mp member with old | new
    · exact serves.returned r old
    · rw [List.mem_singleton.mp new]
      exact fine

theorem Serves.advance (serves : s.Serves stored f) (ok : s.Stored stored) {c : ReadCall} (called : f.call = some c)
    (admitted : ∀ done, c.stage = .memcpy done → done < l.size → ¬ s.Overwritten f done) :
    s.Serves stored (f.advance s.cnt s.circBuffer c.late c.stage) := by
  have overwritten := serves.late c called
  have knows := serves.knows c called
  obtain ⟨stage, late⟩ := c
  cases stage with
  | down =>
    rw [Stream.advance, if_neg (by rw [show f.state.lock = false from knows]; decide)]
    exact serves.goto rfl overwritten trivial
  | testCnt =>
    have le := serves.position_le ok
    refine serves.goto rfl overwritten ?_
    split_ifs with none
    · trivial
    · show f.state.localCnt < s.cnt
      omega
  | wait =>
    simp only [Stream.advance]
    split_ifs with more
    · exact serves.goto rfl overwritten more
    · exact serves
  | testPos =>
    refine serves.goto rfl overwritten ?_
    split_ifs
    · exact knows
    · exact ⟨knows, Nat.zero_le _, fun some => absurd some (Nat.lt_irrefl 0), fun i before => absurd before (Nat.not_lt_zero i)⟩
  | testLag =>
    simp only [Stream.advance]
    split_ifs
    · exact serves.finish rfl fun _ => rfl
    · exact serves.goto rfl overwritten
        ⟨knows, Nat.zero_le _, fun some => absurd some (Nat.lt_irrefl 0), fun i before => absurd before (Nat.not_lt_zero i)⟩
  | memcpy done =>
    obtain ⟨more, progress, early, copied⟩ := knows
    obtain ⟨aligned, counted, -⟩ := serves.counted ok more
    simp only [Stream.advance]
    split_ifs with inside
    · have kept := admitted done rfl inside
      have onTime : late = false := by
        rcases Nat.eq_zero_or_pos done with rfl | some
        · exact Bool.eq_false_iff.mpr fun late => kept (overwritten late)
        · exact early some
      refine serves.goto rfl overwritten ⟨more, inside, fun _ => onTime, fun i before => ?_⟩
      show stored[f.state.localCnt + i]? = some (Function.update f.state.localBuf done
        (s.circBuffer (f.state.localCnt % circBufSize l + done)) i)
      rcases Nat.lt_succ_iff_lt_or_eq.mp before with old | rfl
      · rw [Function.update_of_ne (Nat.ne_of_lt old), copied i old]
      · rw [Function.update_self, ok.byte aligned inside counted kept]
    · obtain rfl : done = l.size := Nat.le_antisymm progress (Nat.not_lt.mp inside)
      exact serves.goto rfl overwritten ⟨more, early l.positive, copied⟩
  | copyToUser =>
    obtain ⟨more, onTime, copied⟩ := knows
    obtain ⟨-, -, few⟩ := serves.counted ok more
    obtain ⟨before, split, position⟩ := serves.position
    refine ⟨⟨before, split, ?_⟩, serves.next few copied, ?_, fun _ called => (nomatch called), fun _ called => (nomatch called)⟩
    · show f.state.localCnt + l.size = before.length + l.size * (f.delivered ++ [_]).length
      rw [position, List.length_append, List.length_singleton, Nat.mul_succ, Nat.add_assoc]
    · intro r member
      rcases List.mem_append.mp member with old | new
      · exact serves.returned r old
      · rw [List.mem_singleton.mp new]
        exact fun late => absurd (onTime.symm.trans late) (by decide)

theorem Serves.signal (serves : s.Serves stored f) {c : ReadCall} (called : f.call = some c)
    (admitted : c.stage = .wait → f.state.localCnt < s.cnt) :
    s.Serves stored (f.signal s.cnt c.late c.stage) := by
  have knows := serves.knows c called
  obtain ⟨stage, late⟩ := c
  cases stage with
  | down =>
    rw [Stream.signal, if_neg (by rw [show f.state.lock = false from knows]; decide)]
    exact serves
  | wait =>
    rw [Stream.signal, if_pos (admitted rfl)]
    exact serves
  | _ => exact serves

theorem Serves.fault (serves : s.Serves stored f) {c : ReadCall} (called : f.call = some c) :
    s.Serves stored (f.fault c.late c.stage) := by
  have knows := serves.knows c called
  obtain ⟨stage, late⟩ := c
  cases stage with
  | copyToUser => exact serves.finish rfl fun isLate => absurd (knows.2.1.symm.trans isLate) (by decide)
  | _ => exact serves

/-- What is true of the file stays true while interrupts run. -/
theorem Knows.later {late : Bool} {stage : ReadStage} {stored' : List UInt8} (knows : s.Knows stored f late stage)
    (cnt : s.cnt ≤ t.cnt) (grown : stored <+: stored') : t.Knows stored' f late stage := by
  have found : ∀ {k : Nat} {b : UInt8}, stored[k]? = some b → stored'[k]? = some b := by
    intro k b at_k
    obtain ⟨more, rfl⟩ := grown
    rw [List.getElem?_append_left (List.getElem?_eq_some_iff.mp at_k).1, at_k]
  cases stage with
  | down => exact knows
  | testCnt => exact trivial
  | wait => exact trivial
  | testPos => exact Nat.lt_of_lt_of_le knows cnt
  | testLag => exact Nat.lt_of_lt_of_le knows cnt
  | memcpy done =>
    obtain ⟨more, progress, early, copied⟩ := knows
    exact ⟨Nat.lt_of_lt_of_le more cnt, progress, early, fun i before => found (copied i before)⟩
  | copyToUser =>
    obtain ⟨more, onTime, copied⟩ := knows
    exact ⟨Nat.lt_of_lt_of_le more cnt, onTime, fun i before => found (copied i before)⟩

/-- Interrupts write on. -/
theorem Serves.later (serves : s.Serves stored f) (cnt : s.cnt ≤ t.cnt) (written : s.written ≤ t.written) :
    t.Serves stored f := by
  refine ⟨serves.position, serves.delivered, serves.returned, ?_, ?_⟩
  · exact fun c called late => Nat.lt_of_lt_of_le (serves.late c called late) written
  · exact fun c called => (serves.knows c called).later cnt (List.prefix_refl _)

theorem Serves.count (serves : s.Serves stored f) (pd : PatientData l) (cnt : s.cnt ≤ t.cnt)
    (written : s.written ≤ t.written) : t.Serves (stored ++ pd.bytes) (measure pd f) := by
  obtain ⟨before, split, position⟩ := serves.position
  refine ⟨⟨before, ?_, position⟩, ?_, serves.returned, ?_, ?_⟩
  · show stored ++ pd.bytes = before ++ bytesOf (f.measured ++ [pd])
    rw [split, bytesOf_append, List.append_assoc]
  · show f.delivered <+: (f.measured ++ [pd]).map PatientData.bytes
    rw [List.map_append]
    exact serves.delivered.trans (List.prefix_append _ _)
  · exact fun c called late => Nat.lt_of_lt_of_le (serves.late c called late) written
  · intro c called
    have knows := (serves.knows c called).later cnt (List.prefix_append stored pd.bytes)
    obtain ⟨stage, late⟩ := c
    cases stage <;> exact knows

/-- The buffer holds what was stored last, and the file serves its calls. -/
def Consistent (s : MedicalDev l) : Prop := ∃ stored, s.Stored stored ∧ ∀ f, s.file = some f → s.Serves stored f

theorem boot_consistent : (boot l).Consistent := ⟨[], boot_stored, fun _ none => nomatch none⟩

theorem Consistent.intrEnter (ok : s.Consistent) (pd : PatientData l) : (s.intrEnter pd).Consistent := by
  obtain ⟨stored, holds, serves⟩ := ok
  refine ⟨stored, holds.enter pd, fun f opened => ?_⟩
  unfold MedicalDev.intrEnter at opened ⊢
  split_ifs at opened ⊢ with free
  · refine (serves f opened).later (Nat.le_refl _) ?_
    simp only [written, Option.isNone_iff_eq_none.mp free.1, Option.elim_none, Option.elim_some]
    exact Nat.le_refl _
  · exact serves f opened

theorem Consistent.intrStore (ok : s.Consistent) : s.intrStore.Consistent := by
  obtain ⟨stored, holds, serves⟩ := ok
  cases running : s.intr with
  | none =>
    unfold MedicalDev.intrStore
    rw [running]
    exact ⟨stored, holds, serves⟩
  | some intr =>
    obtain ⟨pd, done⟩ := intr
    by_cases more : done < l.size
    · refine ⟨stored, holds.store running more, fun f opened => ?_⟩
      unfold MedicalDev.intrStore at opened ⊢
      simp only [running, if_pos more] at opened ⊢
      refine (serves f opened).later (Nat.le_refl _) ?_
      simp only [written, running, Option.elim_some]
      omega
    · refine ⟨stored ++ pd.bytes, holds.count running more, fun f opened => ?_⟩
      have progress := (holds.progress pd done running).1
      unfold MedicalDev.intrStore at opened ⊢
      simp only [running, if_neg more, Option.map_eq_some_iff] at opened ⊢
      obtain ⟨f, old, rfl⟩ := opened
      refine (serves f old).count pd (Nat.le_add_right _ _) ?_
      simp only [written, running, Option.elim_some, Option.elim_none]
      omega

theorem Consistent.openFile (ok : s.Consistent) (nonseekableOpen : Int) (kmalloc : Bool) :
    (s.openFile nonseekableOpen kmalloc).Consistent := by
  obtain ⟨stored, holds, serves⟩ := ok
  unfold MedicalDev.openFile
  split_ifs
  · exact ⟨stored, holds, serves⟩
  cases done : medicalChrdevOpen nonseekableOpen kmalloc s.cnt with
  | error err => exact ⟨stored, holds.congr rfl rfl rfl, fun f opened => nomatch opened⟩
  | ok state =>
    refine ⟨stored, holds.congr rfl rfl rfl, fun f opened => ?_⟩
    obtain rfl := Option.some.inj opened
    have start : state.localCnt = s.cnt := by
      unfold medicalChrdevOpen at done
      split_ifs at done
      obtain rfl := Except.ok.inj done
      rfl
    refine ⟨⟨stored, (List.append_nil _).symm, ?_⟩, List.nil_prefix, ?_, fun _ called => (nomatch called),
      fun _ called => (nomatch called)⟩
    · rw [start, ← holds.length]
      rfl
    · exact fun r member => absurd member List.not_mem_nil

theorem Consistent.readEnter (ok : s.Consistent) (admitted : s.Admitted .read) : s.readEnter.Consistent := by
  obtain ⟨stored, holds, serves⟩ := ok
  unfold MedicalDev.readEnter
  cases opened : s.file with
  | none => exact ⟨stored, holds, serves⟩
  | some f =>
    by_cases calling : f.call.isSome = true
    · simp only [if_pos calling]
      exact ⟨stored, holds, serves⟩
    · simp only [if_neg calling]
      have idle : f.call = none := by simpa using calling
      refine ⟨stored, holds.congr rfl rfl rfl, fun f' same => ?_⟩
      obtain rfl := Option.some.inj same
      have entered := @Serves.goto l s stored f (serves f opened) f.state (s.Overwritten f 0) .down rfl
        of_decide_eq_true (admitted f opened idle)
      exact entered.later (Nat.le_refl _) (Nat.le_refl _)

/-- A step of the call in progress that keeps what the file is for. -/
theorem Consistent.calling (ok : s.Consistent) {step : Bool → Stream l → ReadStage → Stream l}
    (keeps : ∀ stored f c, s.Stored stored → s.Serves stored f → s.file = some f → f.call = some c →
      s.Serves stored (step c.late f c.stage)) : (s.calling step).Consistent := by
  obtain ⟨stored, holds, serves⟩ := ok
  unfold MedicalDev.calling
  cases opened : s.file with
  | none => exact ⟨stored, holds, serves⟩
  | some f =>
    simp only
    cases called : f.call with
    | none => exact ⟨stored, holds, serves⟩
    | some c =>
      refine ⟨stored, holds.congr rfl rfl rfl, fun f' same => ?_⟩
      obtain rfl := Option.some.inj same
      exact (keeps stored f c holds (serves f opened) opened called).later (Nat.le_refl _) (Nat.le_refl _)

theorem Consistent.step (ok : s.Consistent) {e : MedicalEvent l} (admitted : s.Admitted e) :
    (s.step e).Consistent := by
  cases e with
  | opened nonseekableOpen kmalloc => exact ok.openFile nonseekableOpen kmalloc
  | intr pd => exact ok.intrEnter pd
  | store => exact ok.intrStore
  | read => exact ok.readEnter admitted
  | advance =>
    refine ok.calling fun stored f c holds serves opened called => serves.advance holds called ?_
    obtain ⟨stage, late⟩ := c
    intro done at_stage
    exact admitted f late done opened (at_stage ▸ called)
  | signal =>
    refine ok.calling fun stored f c holds serves opened called => serves.signal called fun at_stage => ?_
    obtain ⟨stage, late⟩ := c
    exact admitted f late opened (at_stage ▸ called)
  | fault => exact ok.calling fun stored f c holds serves opened called => serves.fault called

/-! ### Runs -/

/-- What a reader of the open file may rely on. -/
structure InOrder (s : MedicalDev l) (f : Stream l) : Prop where
  /-- The reads that succeeded got the measurements since the open, each in its turn. -/
  delivered : f.delivered <+: f.measured.map PatientData.bytes
  returned : ∀ r ∈ f.returned, r.late = true → r.ret = 0
  /-- A call that is too late does not sleep. -/
  awake : ∀ c, f.call = some c → c.late = true →
    (c.stage = .down → f.state.lock = false) ∧ (c.stage = .wait → f.state.localCnt < s.cnt)

theorem Serves.inOrder (serves : s.Serves stored f) (ok : s.Stored stored) : s.InOrder f := by
  refine ⟨serves.delivered, serves.returned, fun c called late => ⟨fun down => ?_, fun _ => ?_⟩⟩
  · have knows := serves.knows c called
    rwa [down] at knows
  · have ahead : f.state.localCnt + 0 + circBufSize l < s.written := serves.late c called late
    have running : s.written ≤ s.cnt + l.size := by
      unfold MedicalDev.written
      cases busy : s.intr with
      | none => exact Nat.le_add_right _ _
      | some intr => exact Nat.add_le_add_left (ok.progress intr.1 intr.2 busy).1 _
    unfold circBufSize at ahead
    omega

theorem reads_in_order {events : List (MedicalEvent l)}
    (run : Steps (fun s e t => s.Admitted e ∧ t = s.step e) (boot l) events s) (opened : s.file = some f) : s.InOrder f := by
  have keeps : ∀ (s : MedicalDev l) e t, s.Consistent → (s.Admitted e ∧ t = s.step e) → t.Consistent := by
    intro s e t ok one
    obtain ⟨admitted, rfl⟩ := one
    exact ok.step admitted
  obtain ⟨stored, holds, serves⟩ := run.invariant keeps boot_consistent
  exact (serves f opened).inOrder holds

/-! ### Measurements of one byte -/

def byteLayout : Layout := ⟨1, by decide, by decide⟩

def byte (b : UInt8) : PatientData byteLayout := ⟨[b], rfl⟩

/-- An interrupt with nothing between its steps. -/
def interrupt (b : UInt8) : List (MedicalEvent byteLayout) := [.intr (byte b), .store, .store]

/-- A read that finds a measurement, with nothing between its steps. -/
def wholeRead (steps : Nat) : List (MedicalEvent byteLayout) := .read :: List.replicate steps .advance

/-- Nothing is lost as long as the buffer has not been filled. -/
theorem admitted_unfilled (few : s.written ≤ circBufSize l) : s.Admitted .advance := by
  intro f late done _ _ _ lost
  unfold Overwritten at lost
  omega

theorem reads_in_order_once : ∃ (s : MedicalDev byteLayout) (f : Stream byteLayout),
    f.delivered = [[5]] ∧ f.measured = [byte 5] ∧ s.InOrder f := by
  have quiet : Steps (fun s e t => s.Admitted e ∧ t = s.step e) (boot byteLayout)
      (.opened 0 true :: interrupt 5 ++ wholeRead 7) _ :=
    .cons ⟨trivial, rfl⟩ <| .cons ⟨trivial, rfl⟩ <| .cons ⟨trivial, rfl⟩ <| .cons ⟨trivial, rfl⟩ <|
      .cons ⟨fun f opened _ => (Option.some.inj opened) ▸ rfl, rfl⟩ <|
      .cons ⟨admitted_unfilled (by decide), rfl⟩ <| .cons ⟨admitted_unfilled (by decide), rfl⟩ <|
      .cons ⟨admitted_unfilled (by decide), rfl⟩ <| .cons ⟨admitted_unfilled (by decide), rfl⟩ <|
      .cons ⟨admitted_unfilled (by decide), rfl⟩ <| .cons ⟨admitted_unfilled (by decide), rfl⟩ <|
      .cons ⟨admitted_unfilled (by decide), rfl⟩ (.nil _)
  exact ⟨_, _, rfl, rfl, reads_in_order quiet rfl⟩

/-- Interrupts that measure nothing change only the counters. -/
theorem interrupts_zero (n : Nat) {s : MedicalDev byteLayout} {f : Stream byteLayout} (idle : s.intr = none)
    (clear : s.circBuffer = fun _ => 0) (opened : s.file = some f) (fits : s.cnt + n < 2 ^ 128) :
    (List.replicate n (interrupt 0)).flatten.foldl step s =
      ⟨s.cnt + n, fun _ => 0, none, some { f with measured := f.measured ++ List.replicate n (byte 0) }⟩ := by
  obtain ⟨cnt, circBuffer, intr, file⟩ := s
  obtain rfl : intr = none := idle
  obtain rfl : circBuffer = fun _ => 0 := clear
  obtain rfl : file = some f := opened
  induction n generalizing cnt f with
  | zero => simp
  | succ n ih =>
    have more : cnt + n + 1 < 2 ^ 128 := fits
    have enter : intrEnter (byte 0) ⟨cnt, fun _ => 0, none, some f⟩ = ⟨cnt, fun _ => 0, some (byte 0, 0), some f⟩ :=
      if_pos ⟨rfl, by show cnt + 1 < 2 ^ 128; omega⟩
    have store : intrStore ⟨cnt, fun _ => 0, some (byte 0, 0), some f⟩ =
        ⟨cnt, fun _ => 0, some (byte 0, 1), some f⟩ := by
      have zero : Function.update (fun _ => (0 : UInt8)) (cnt % circBufSize byteLayout + 0) 0 = fun _ => 0 :=
        Function.update_eq_self (β := fun _ => UInt8) _ _
      show MedicalDev.mk cnt (Function.update _ _ 0) _ _ = _
      rw [zero]
    have first : (interrupt 0).foldl step ⟨cnt, fun _ => 0, none, some f⟩ =
        ⟨cnt + 1, fun _ => 0, none, some (measure (byte 0) f)⟩ := by
      show intrStore (intrStore (intrEnter (byte 0) _)) = _
      rw [enter, store]
      rfl
    rw [List.replicate_succ, List.flatten_cons, List.foldl_append, first, ih]
    · simp only [measure, List.replicate_succ, List.append_assoc, List.singleton_append, Nat.add_assoc, Nat.add_comm 1]
    · show cnt + 1 + n < 2 ^ 128
      omega

theorem overwritten_read_succeeds : ¬ ∀ (events : List (MedicalEvent byteLayout)) (f : Stream byteLayout),
    (events.foldl step (boot byteLayout)).file = some f → (events.foldl step (boot byteLayout)).InOrder f := by
  intro always
  have ordered := always ([.opened 0 true] ++ (List.replicate 1 (interrupt 0)).flatten ++ wholeRead 7 ++
    (List.replicate 1024 (interrupt 0)).flatten ++ (interrupt 1 ++ wholeRead 6))
  have opens : [MedicalEvent.opened 0 true].foldl step (boot byteLayout) =
    ⟨0, fun _ => 0, none, some ⟨⟨false, fun _ => 0, 0⟩, 0, none, [], [], []⟩⟩ := rfl
  have first : (wholeRead 7).foldl step
      ⟨0 + 1, fun _ => 0, none, some ⟨⟨false, fun _ => 0, 0⟩, 0, none, [] ++ List.replicate 1 (byte 0), [], []⟩⟩ =
    ⟨1, fun _ => 0, none,
      some ⟨⟨false, Function.update (fun _ => 0) 0 0, 1⟩, 1, none, [byte 0], [[0]], [⟨false, 1⟩]⟩⟩ := rfl
  -- The second measurement lies where the 1026th is stored.
  have second : ((interrupt 1 ++ wholeRead 6).foldl step
      ⟨1 + 1024, fun _ => 0, none, some ⟨⟨false, Function.update (fun _ => 0) 0 0, 1⟩, 1, none,
        [byte 0] ++ List.replicate 1024 (byte 0), [[0]], [⟨false, 1⟩]⟩⟩).file.map
      (fun f => (f.delivered, f.measured)) =
    some ([[0], [1]], [byte 0] ++ List.replicate 1024 (byte 0) ++ [byte 1]) := rfl
  simp only [List.foldl_append] at ordered second
  rw [opens, interrupts_zero 1 rfl rfl rfl (by decide), first, interrupts_zero 1024 rfl rfl rfl (by decide)] at ordered
  obtain ⟨f, opened, parts⟩ := Option.map_eq_some_iff.mp second
  obtain ⟨delivered, measured⟩ := Prod.mk.inj parts
  obtain ⟨rest, whole⟩ := (ordered f opened).delivered
  rw [delivered, measured] at whole
  have second : some [1] = some [(0 : UInt8)] := congrArg (fun reads => reads[1]?) whole
  exact absurd second (by decide)

end MedicalDev

end OsLab.Exams
