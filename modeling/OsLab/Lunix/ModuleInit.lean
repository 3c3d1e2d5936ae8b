import OsLab.Foundation.Traced
import Mathlib.Data.List.Range
import Mathlib.Data.List.Count
import Mathlib.Data.Nat.Find
import Mathlib.Logic.Function.Basic
import Mathlib.Tactic.Common

/-!
# Initializing the module

`lunix_module_init` and the pages of the sensors on its ways out. The page that the `n`-th call of
`get_zeroed_page` returns is called `n`.
-/

namespace OsLab.Lunix
open Traced

def enomem : Int := 12

inductive PageEvent where
  | getPage (page : Nat)
  | freePage (page : Nat)
  | kfree
  deriving DecidableEq, Repr

/-- `msr_data` of a sensor; a page that is missing is `NULL`. -/
abbrev MsrPages := Nat → Option Nat

/-- What the calls of the kernel return. -/
structure Outcomes where
  kzalloc : Bool
  getZeroedPage : Nat → Bool
  registerLdisc : Int
  registerRegion : Int
  cdevAdd : Int

variable (outcomes : Outcomes)

/-- The second loop of `lunix_sensor_init` from index `i` on, behind `calls` calls of `get_zeroed_page`. -/
def getPages (msrData : MsrPages) (i calls : Nat) : Nat → Traced PageEvent (Int × MsrPages × Nat)
  | 0 => pure (0, msrData, calls)
  | left + 1 =>
    if outcomes.getZeroedPage calls then do
      emit (.getPage calls)
      getPages (Function.update msrData i (some calls)) (i + 1) (calls + 1) left
    else pure (-enomem, msrData, calls + 1)

namespace Module

def lunixSensorInit (calls : Nat) : Traced PageEvent (Int × MsrPages × Nat) :=
  getPages outcomes (fun _ => none) 0 calls 3

/-- The loop of `lunix_sensor_destroy` over the given indices. -/
def freePages (msrData : MsrPages) : List Nat → Traced PageEvent PUnit
  | [] => pure ⟨⟩
  | i :: rest => do
    match msrData i with
    | some page => emit (.freePage page)
    | none => pure ⟨⟩
    freePages msrData rest

def lunixSensorDestroy (msrData : MsrPages) : Traced PageEvent PUnit := freePages msrData [0, 1, 2]

/-- The loop over the sensors, with `done` for `si_done + 1`. The first number is that of a failure. -/
def initSensors (sensors : Nat → MsrPages) (done calls : Nat) :
    Nat → Traced PageEvent (Option Int × Nat × (Nat → MsrPages))
  | 0 => pure (none, done, sensors)
  | left + 1 => do
    let (ret, msrData, calls) ← lunixSensorInit outcomes calls
    let sensors := Function.update sensors done msrData
    if ret < 0 then pure (some ret, done, sensors) else initSensors sensors (done + 1) calls left

/-- The loop at `out_with_sensors`. -/
def destroySensors (sensors : Nat → MsrPages) : Nat → Traced PageEvent PUnit
  | 0 => pure ⟨⟩
  | done + 1 => do
    lunixSensorDestroy (sensors done)
    destroySensors sensors done

def outWithSensors (sensors : Nat → MsrPages) (done : Nat) (ret : Int) : Traced PageEvent Int := do
  destroySensors sensors done
  emit .kfree
  pure ret

def lunixChrdevInit : Int :=
  if outcomes.registerRegion < 0 then outcomes.registerRegion
  else if outcomes.cdevAdd < 0 then outcomes.cdevAdd
  else 0

def lunixModuleInit (lunixSensorCnt : Nat) : Traced PageEvent Int :=
  if outcomes.kzalloc then do
    let (failure, done, sensors) ← initSensors outcomes (fun _ _ => none) 0 0 lunixSensorCnt
    match failure with
    | some ret => outWithSensors sensors done ret
    | none =>
      if outcomes.registerLdisc < 0 then outWithSensors sensors done outcomes.registerLdisc
      else if lunixChrdevInit outcomes < 0 then outWithSensors sensors done (lunixChrdevInit outcomes)
      else pure 0
  else pure (-enomem)

end Module

/-- Every page that was obtained is freed exactly once, and before the sensors are. -/
def AllFreed (events : List PageEvent) : Prop :=
  ∀ page, .getPage page ∈ events → ∃ before, events = before ++ [.kfree] ∧ before.count (.freePage page) = 1

/-! ### The sensors -/

variable {outcomes}

/-- The pages of the first `done` sensors. -/
def Filled (sensors : Nat → MsrPages) (done : Nat) : Prop := ∀ j < done, ∀ i < 3, sensors j i = some (3 * j + i)

def gets (start count : Nat) : List PageEvent := (List.range' start count).map .getPage

theorem sensorInit_complete {calls : Nat} (granted : ∀ n, calls ≤ n → n < calls + 3 → outcomes.getZeroedPage n = true) :
    ∃ msrData, Module.lunixSensorInit outcomes calls = ⟨gets calls 3, 0, msrData, calls + 3⟩ ∧
      ∀ i < 3, msrData i = some (calls + i) := by
  unfold Module.lunixSensorInit
  refine ⟨Function.update (Function.update (Function.update (fun _ => none) 0 (some calls)) 1 (some (calls + 1))) 2
    (some (calls + 2)), ?_, ?_⟩
  · simp only [getPages, granted calls (by omega) (by omega), granted (calls + 1) (by omega) (by omega),
      granted (calls + 1 + 1) (by omega) (by omega), if_true]
    rfl
  · intro i small
    obtain rfl | rfl | rfl : i = 0 ∨ i = 1 ∨ i = 2 := by omega
    all_goals simp

/-- The loop stops at the first page that is missing, and leaves the pages before it. -/
theorem getPages_fails {msrData : MsrPages} {i calls k left : Nat} (inside : k < left)
    (granted : ∀ n, calls ≤ n → n < calls + k → outcomes.getZeroedPage n = true)
    (missing : outcomes.getZeroedPage (calls + k) = false) :
    ∃ msrData' calls', getPages outcomes msrData i calls left = ⟨gets calls k, -enomem, msrData', calls'⟩ := by
  induction k generalizing msrData i calls left with
  | zero =>
    obtain ⟨left, rfl⟩ := Nat.exists_eq_succ_of_ne_zero (by omega : left ≠ 0)
    refine ⟨msrData, calls + 1, ?_⟩
    rw [Nat.add_zero] at missing
    rw [getPages, missing]
    rfl
  | succ k ih =>
    obtain ⟨left, rfl⟩ := Nat.exists_eq_succ_of_ne_zero (by omega : left ≠ 0)
    obtain ⟨msrData', calls', rest⟩ := @ih (Function.update msrData i (some calls)) (i + 1) (calls + 1) left (by omega)
      (fun n low high => granted n (by omega) (by omega)) (by rw [← missing]; congr 1; omega)
    refine ⟨msrData', calls', ?_⟩
    rw [getPages, if_pos (granted calls (by omega) (by omega)), rest]
    rfl

theorem Filled.push {sensors : Nat → MsrPages} {done : Nat} (filled : Filled sensors done) {msrData : MsrPages}
    (pages : ∀ i < 3, msrData i = some (3 * done + i)) : Filled (Function.update sensors done msrData) (done + 1) := by
  intro j before i small
  by_cases last : j = done
  · rw [last, Function.update_self, pages i small]
  · rw [Function.update_of_ne last, filled j (by omega) i small]

theorem Filled.update {sensors : Nat → MsrPages} {done : Nat} (filled : Filled sensors done) (msrData : MsrPages) :
    Filled (Function.update sensors done msrData) done := by
  intro j before i small
  rw [Function.update_of_ne (by omega), filled j before i small]

theorem gets_append (start a b : Nat) : gets start a ++ gets (start + a) b = gets start (a + b) := by
  unfold gets
  rw [← List.map_append, List.range'_append_1]

theorem initSensors_complete {sensors : Nat → MsrPages} {done left : Nat} (filled : Filled sensors done)
    (granted : ∀ n, 3 * done ≤ n → n < 3 * (done + left) → outcomes.getZeroedPage n = true) :
    ∃ sensors', Module.initSensors outcomes sensors done (3 * done) left =
      ⟨gets (3 * done) (3 * left), none, done + left, sensors'⟩ ∧ Filled sensors' (done + left) := by
  induction left generalizing sensors done with
  | zero => exact ⟨sensors, rfl, filled⟩
  | succ left ih =>
    obtain ⟨msrData, first, pages⟩ :=
      @sensorInit_complete outcomes (3 * done) fun n low high => granted n low (by omega)
    obtain ⟨sensors', rest, filled'⟩ := ih (filled.push pages) fun n low high => granted n (by omega) (by omega)
    refine ⟨sensors', ?_, ?_⟩
    · have call : 3 * done + 3 = 3 * (done + 1) := by omega
      have total : 3 + 3 * left = 3 * (left + 1) := by omega
      have count : done + 1 + left = done + (left + 1) := by omega
      rw [Module.initSensors, first, call]
      change Traced.mk (_ ++ (Module.initSensors outcomes _ (done + 1) (3 * (done + 1)) left).events)
        (Module.initSensors outcomes _ (done + 1) (3 * (done + 1)) left).value = _
      rw [rest, ← call, gets_append, total, count]
    · rwa [show done + (left + 1) = done + 1 + left by omega]

/-- A page is missing: the sensors before the one it is for are counted. -/
theorem initSensors_fails {sensors : Nat → MsrPages} {done left n : Nat} (filled : Filled sensors done)
    (low : 3 * done ≤ n) (high : n < 3 * (done + left))
    (granted : ∀ k, 3 * done ≤ k → k < n → outcomes.getZeroedPage k = true) (missing : outcomes.getZeroedPage n = false) :
    ∃ sensors', Module.initSensors outcomes sensors done (3 * done) left =
      ⟨gets (3 * done) (n - 3 * done), some (-enomem), n / 3, sensors'⟩ ∧ Filled sensors' (n / 3) := by
  induction left generalizing sensors done with
  | zero => omega
  | succ left ih =>
    by_cases here : n < 3 * done + 3
    · obtain ⟨msrData, calls, first⟩ := @getPages_fails outcomes (fun _ => none) 0 (3 * done) (n - 3 * done) 3 (by omega)
        (fun k low high => granted k low (by omega)) (by rw [← missing]; congr 1; omega)
      have same : n / 3 = done := by omega
      refine ⟨Function.update sensors done msrData, ?_, ?_⟩
      · rw [Module.initSensors, Module.lunixSensorInit, first, same]
        change Traced.mk (_ ++ []) _ = _
        rw [List.append_nil]
        rfl
      · rw [same]
        exact filled.update msrData
    · obtain ⟨msrData, first, pages⟩ :=
        @sensorInit_complete outcomes (3 * done) fun k low high => granted k low (by omega)
      obtain ⟨sensors', rest, filled'⟩ := ih (filled.push pages) (by omega) (by omega)
        fun k low high => granted k (by omega) high
      refine ⟨sensors', ?_, filled'⟩
      have call : 3 * done + 3 = 3 * (done + 1) := by omega
      have total : 3 + (n - (3 * done + 3)) = n - 3 * done := by omega
      rw [Module.initSensors, first, call]
      change Traced.mk (_ ++ (Module.initSensors outcomes _ (done + 1) (3 * (done + 1)) left).events)
        (Module.initSensors outcomes _ (done + 1) (3 * (done + 1)) left).value = _
      rw [rest, ← call, gets_append, total]

/-! ### The way out -/

theorem destroySensors_events {sensors : Nat → MsrPages} {done : Nat} (filled : Filled sensors done) :
    (Module.destroySensors sensors done).events.Perm ((List.range (3 * done)).map .freePage) := by
  induction done with
  | zero => exact List.Perm.refl _
  | succ done ih =>
    have rest := ih fun j before i small => filled j (by omega) i small
    have last : (Module.lunixSensorDestroy (sensors done)).events =
        [.freePage (3 * done), .freePage (3 * done + 1), .freePage (3 * done + 2)] := by
      have page := filled done (by omega)
      simp only [Module.lunixSensorDestroy, Module.freePages, page 0 (by decide), page 1 (by decide),
        page 2 (by decide)]
      rfl
    have range : List.range (3 * (done + 1)) = List.range (3 * done) ++ [3 * done, 3 * done + 1, 3 * done + 2] := by
      rw [show 3 * (done + 1) = 3 * done + 1 + 1 + 1 by omega, List.range_succ, List.range_succ, List.range_succ]
      simp
    rw [Module.destroySensors, events_bind, last, range, List.map_append]
    exact (List.Perm.append_left _ rest).trans List.perm_append_comm

theorem destroySensors_count {sensors : Nat → MsrPages} {done : Nat} (filled : Filled sensors done) (page : Nat) :
    (Module.destroySensors sensors done).events.count (.freePage page) = if page < 3 * done then 1 else 0 := by
  rw [(destroySensors_events filled).count_eq, List.count_map_of_injective _ _ (fun a b same => PageEvent.freePage.inj same)]
  rw [List.nodup_range.count]
  simp only [List.mem_range]

theorem mem_gets {start count page : Nat} : .getPage page ∈ gets start count ↔ start ≤ page ∧ page < start + count := by
  simp [gets]

theorem gets_count_free (start count page : Nat) : (gets start count).count (.freePage page) = 0 := by
  apply List.count_eq_zero_of_not_mem
  simp [gets]

/-- Of `n` pages those of the counted sensors are freed. -/
theorem out_allFreed_iff {sensors : Nat → MsrPages} {done n : Nat} (filled : Filled sensors done) (ret : Int) :
    AllFreed (gets 0 n ++ (Module.outWithSensors sensors done ret).events) ↔ n ≤ 3 * done := by
  have events : gets 0 n ++ (Module.outWithSensors sensors done ret).events =
      (gets 0 n ++ (Module.destroySensors sensors done).events) ++ [.kfree] := by
    simp [Module.outWithSensors]
  rw [events]
  have count : ∀ page, (gets 0 n ++ (Module.destroySensors sensors done).events).count (.freePage page) =
      if page < 3 * done then 1 else 0 := fun page => by
    rw [List.count_append, gets_count_free, Nat.zero_add, destroySensors_count filled]
  have obtained : ∀ page, .getPage page ∈ (gets 0 n ++ (Module.destroySensors sensors done).events) ++ [.kfree] ↔ page < n := by
    intro page
    rw [List.mem_append, List.mem_append, mem_gets, (destroySensors_events filled).mem_iff]
    simp
  constructor
  · intro freed
    by_contra more
    obtain ⟨before, same, once⟩ := freed (3 * done) ((obtained _).mpr (by omega))
    rw [← List.append_cancel_right same, count, if_neg (by omega)] at once
    cases once
  · intro enough page member
    have small := (obtained page).mp member
    exact ⟨_, rfl, by rw [count, if_pos (by omega)]⟩

/-- Failures of later subsystems come behind all sensors, those of a page behind some of them. -/
theorem moduleInit_cases (cnt : Nat) (allocated : outcomes.kzalloc = true) :
    (∃ sensors ret, Filled sensors cnt ∧ ret < 0 ∧
      (∀ k < 3 * cnt, outcomes.getZeroedPage k = true) ∧
      (Module.lunixModuleInit outcomes cnt).value = ret ∧
      (Module.lunixModuleInit outcomes cnt).events = gets 0 (3 * cnt) ++ (Module.outWithSensors sensors cnt ret).events) ∨
    ((∀ k < 3 * cnt, outcomes.getZeroedPage k = true) ∧ (Module.lunixModuleInit outcomes cnt).value = 0) ∨
    ∃ sensors n, Filled sensors (n / 3) ∧ n < 3 * cnt ∧
      (∀ k < n, outcomes.getZeroedPage k = true) ∧ outcomes.getZeroedPage n = false ∧
      (Module.lunixModuleInit outcomes cnt).value = -enomem ∧
      (Module.lunixModuleInit outcomes cnt).events = gets 0 n ++ (Module.outWithSensors sensors (n / 3) (-enomem)).events := by
  have none : Filled (fun _ _ => none) 0 := fun j before => absurd before (Nat.not_lt_zero j)
  by_cases granted : ∀ k < 3 * cnt, outcomes.getZeroedPage k = true
  · obtain ⟨sensors, inits, filled⟩ := @initSensors_complete outcomes _ 0 cnt none fun n _ high => granted n (by omega)
    rw [Nat.zero_add] at inits filled
    unfold Module.lunixModuleInit
    rw [if_pos allocated]
    simp only [value_bind, events_bind, inits]
    by_cases ldisc : outcomes.registerLdisc < 0
    · rw [if_pos ldisc]
      exact Or.inl ⟨sensors, _, filled, ldisc, granted, rfl, rfl⟩
    rw [if_neg ldisc]
    by_cases chrdev : Module.lunixChrdevInit outcomes < 0
    · rw [if_pos chrdev]
      exact Or.inl ⟨sensors, _, filled, chrdev, granted, rfl, rfl⟩
    · rw [if_neg chrdev]
      exact Or.inr (Or.inl ⟨granted, rfl⟩)
  · have missing : ∃ n, n < 3 * cnt ∧ outcomes.getZeroedPage n = false := by
      by_contra all
      refine granted fun k before => ?_
      by_contra failed
      exact all ⟨k, before, Bool.eq_false_iff.mpr failed⟩
    obtain ⟨inside, fails⟩ := Nat.find_spec missing
    have before : ∀ k < Nat.find missing, outcomes.getZeroedPage k = true := by
      intro k small
      by_contra failed
      exact Nat.find_min missing small ⟨by omega, Bool.eq_false_iff.mpr failed⟩
    generalize Nat.find missing = n at inside fails before
    obtain ⟨sensors, inits, filled⟩ := @initSensors_fails outcomes _ 0 cnt n none (by omega) (by omega)
      (fun k _ high => before k high) fails
    refine Or.inr (Or.inr ⟨sensors, n, filled, inside, before, fails, ?_⟩)
    unfold Module.lunixModuleInit
    rw [if_pos allocated]
    simp only [value_bind, events_bind, inits]
    exact ⟨rfl, rfl⟩

/-- An initialization that fails has freed every page if and only if the first page that was missing was the
first one of its sensor. -/
theorem moduleInit_frees_iff (outcomes : Outcomes) (cnt : Nat) :
    ((Module.lunixModuleInit outcomes cnt).value < 0 → AllFreed (Module.lunixModuleInit outcomes cnt).events) ↔
      (outcomes.kzalloc = true → ∀ n < 3 * cnt, (∀ k < n, outcomes.getZeroedPage k = true) →
        outcomes.getZeroedPage n = false → n % 3 = 0) := by
  by_cases allocated : outcomes.kzalloc = true
  · rcases moduleInit_cases cnt allocated with
      ⟨sensors, ret, filled, -, granted, -, events⟩ | ⟨granted, done⟩ | ⟨sensors, n, filled, inside, before, fails, failed, events⟩
    · refine iff_of_true (fun _ => ?_) ?_
      · rw [events, out_allFreed_iff filled]
      · intro _ n small _ missing
        rw [granted n small] at missing
        cases missing
    · refine iff_of_true (fun failed => ?_) ?_
      · rw [done] at failed
        omega
      · intro _ n small _ missing
        rw [granted n small] at missing
        cases missing
    · rw [failed, events, out_allFreed_iff filled]
      constructor
      · intro enough _ m small early missing
        have same : m = n := by
          rcases Nat.lt_trichotomy m n with less | same | more
          · rw [before m less] at missing
            cases missing
          · exact same
          · rw [early n more] at fails
            cases fails
        have bound := enough (by decide)
        omega
      · intro first _
        have whole := first allocated n inside before fails
        omega
  · refine iff_of_true (fun _ page member => ?_) fun allocated' => absurd allocated' allocated
    unfold Module.lunixModuleInit at member
    rw [if_neg allocated] at member
    cases member

/-- The second page of the only sensor is missing, and the first one is lost. -/
theorem moduleInit_leaks :
    ¬ ∀ (outcomes : Outcomes) (cnt : Nat), 1 ≤ cnt → (Module.lunixModuleInit outcomes cnt).value < 0 →
      AllFreed (Module.lunixModuleInit outcomes cnt).events := by
  intro frees
  have events := frees ⟨true, fun n => n ≠ 1, 0, 0, 0⟩ 1 (by decide) (by decide) 0 (by decide)
  obtain ⟨before, same, once⟩ := events
  have trace : [PageEvent.getPage 0] ++ [.kfree] = before ++ [.kfree] := same
  rw [← List.append_cancel_right trace] at once
  revert once
  decide

end OsLab.Lunix
