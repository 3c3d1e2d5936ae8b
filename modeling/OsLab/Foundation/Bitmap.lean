import Mathlib.Algebra.BigOperators.Group.Finset.Basic
import Mathlib.Data.Finset.Card
import Mathlib.Data.Finset.Range
import Mathlib.Tactic.Ring

/-!
# Bitmaps

A bitmap as a map from bit numbers, the search for a clear bit, and how the number of
clear bits changes when bits are set and cleared.
-/

namespace Bitmap

abbrev Bits := Nat → Bool

/-! ### The next clear bit -/

/-- The first clear bit from `bit` on, at most `n` bits further. -/
def scanZero (bits : Bits) : Nat → Nat → Nat
  | 0, bit => bit
  | n + 1, bit => if bits bit then scanZero bits n (bit + 1) else bit

/-- `size` when no bit below it, from `offset` on, is clear. -/
def findNextZero (bits : Bits) (size offset : Nat) : Nat :=
  if size ≤ offset then size else scanZero bits (size - offset) offset

theorem scanZero_spec (bits : Bits) (n bit : Nat) :
    bit ≤ scanZero bits n bit ∧ scanZero bits n bit ≤ bit + n ∧
      (∀ k, bit ≤ k → k < scanZero bits n bit → bits k = true) ∧
      (scanZero bits n bit < bit + n → bits (scanZero bits n bit) = false) := by
  induction n generalizing bit with
  | zero =>
    refine ⟨le_rfl, le_rfl, ?_, ?_⟩
    · intro k low high
      simp only [scanZero] at high
      omega
    · intro inside
      simp [scanZero] at inside
  | succ n ih =>
    obtain ⟨low, high, before, found⟩ := ih (bit + 1)
    by_cases set : bits bit = true
    · simp only [scanZero, set, if_true]
      refine ⟨by omega, by omega, fun k first inside => ?_, fun inside => found (by omega)⟩
      by_cases here : k = bit
      · rw [here]; exact set
      · exact before k (by omega) inside
    · simp only [scanZero, set]
      refine ⟨le_rfl, by simp, fun k first inside => ?_, fun _ => by simpa using set⟩
      simp at inside
      omega

theorem findNextZero_le (bits : Bits) (size offset : Nat) : findNextZero bits size offset ≤ size := by
  unfold findNextZero
  split_ifs with beyond
  · exact le_rfl
  · have bound := (scanZero_spec bits (size - offset) offset).2.1
    omega

theorem findNextZero_clear {bits : Bits} {size offset : Nat} (found : findNextZero bits size offset < size) :
    bits (findNextZero bits size offset) = false := by
  unfold findNextZero at found ⊢
  split_ifs at found ⊢ with beyond
  · omega
  · exact (scanZero_spec bits (size - offset) offset).2.2.2 (by omega)

theorem findNextZero_ge (bits : Bits) {size offset : Nat} (inside : offset ≤ size) :
    offset ≤ findNextZero bits size offset := by
  unfold findNextZero
  split_ifs with beyond
  · exact inside
  · exact (scanZero_spec bits (size - offset) offset).1

theorem findNextZero_before {bits : Bits} {size offset k : Nat} (low : offset ≤ k)
    (high : k < findNextZero bits size offset) : bits k = true := by
  unfold findNextZero at high
  split_ifs at high with beyond
  · omega
  · exact (scanZero_spec bits (size - offset) offset).2.2.1 k low high

/-- The search finds the only clear bit that no clear bit precedes. -/
theorem findNextZero_eq {bits : Bits} {size offset s : Nat} (low : offset ≤ s) (inside : s < size)
    (before : ∀ k, offset ≤ k → k < s → bits k = true) (clear : bits s = false) :
    findNextZero bits size offset = s := by
  have first := findNextZero_ge bits (show offset ≤ size by omega)
  rcases Nat.lt_trichotomy (findNextZero bits size offset) s with early | same | late
  · have found := @findNextZero_clear bits size offset (by omega)
    rw [before _ first early] at found
    cases found
  · exact same
  · rw [findNextZero_before low late] at clear
    cases clear

theorem findNextZero_full {bits : Bits} {size offset : Nat}
    (full : ∀ k, offset ≤ k → k < size → bits k = true) : findNextZero bits size offset = size := by
  have bound := findNextZero_le bits size offset
  by_contra less
  have inside : findNextZero bits size offset < size := by omega
  have clear := findNextZero_clear inside
  have low : offset ≤ findNextZero bits size offset := by
    unfold findNextZero at inside ⊢
    split_ifs at inside ⊢ with beyond
    · omega
    · exact (scanZero_spec bits (size - offset) offset).1
  rw [full _ low inside] at clear
  exact Bool.noConfusion clear

/-! ### Runs of bits -/

/-- The `n` bits from `start` on become `b`. -/
def fill (bits : Bits) (start n : Nat) (b : Bool) : Bits :=
  fun k => if start ≤ k ∧ k < start + n then b else bits k

@[simp] theorem fill_zero (bits : Bits) (start : Nat) (b : Bool) : fill bits start 0 b = bits := by
  funext k
  simp only [fill, Nat.add_zero, ite_eq_right_iff, and_imp]
  omega

theorem fill_inside {bits : Bits} {start n k : Nat} (b : Bool) (low : start ≤ k) (high : k < start + n) :
    fill bits start n b k = b :=
  if_pos ⟨low, high⟩

theorem fill_outside {bits : Bits} {start n k : Nat} (b : Bool) (outside : k < start ∨ start + n ≤ k) :
    fill bits start n b k = bits k :=
  if_neg (by omega)

theorem fill_succ (bits : Bits) (start n : Nat) (b : Bool) :
    fill bits start (n + 1) b = Function.update (fill bits start n b) (start + n) b := by
  funext k
  by_cases last : k = start + n
  · subst last
    rw [Function.update_self]
    exact fill_inside b (by omega) (by omega)
  · rw [Function.update_of_ne last]
    simp only [fill]
    split_ifs <;> first | rfl | omega

theorem fill_one (bits : Bits) (start : Nat) (b : Bool) : fill bits start 1 b = Function.update bits start b := by
  rw [fill_succ, fill_zero, Nat.add_zero]

theorem fill_update (bits : Bits) (start n : Nat) (b : Bool) :
    fill (Function.update bits start b) (start + 1) n b = fill bits start (n + 1) b := by
  funext k
  by_cases first : k = start
  · subst first
    rw [fill_outside b (by omega), fill_inside b (by omega) (by omega), Function.update_self]
  · simp only [fill, Function.update_of_ne first]
    split_ifs <;> first | rfl | omega

/-- The number of clear bits from `start` on, up to the next set one or to `size`. -/
def clearLength (bits : Bits) (start size : Nat) : Nat := findNextZero (fun k => !bits k) size start - start

theorem clearLength_set {bits : Bits} {start size : Nat} (set : size ≤ start ∨ bits start = true) :
    clearLength bits start size = 0 := by
  unfold clearLength
  by_cases beyond : size ≤ start
  · have bound := findNextZero_le (fun k => !bits k) size start
    omega
  · have here : findNextZero (fun k => !bits k) size start = start :=
      findNextZero_eq le_rfl (by omega) (fun k low high => by omega) (by simp [set.resolve_left beyond])
    omega

theorem clearLength_clear {bits : Bits} {start size : Nat} (inside : start < size) (clear : bits start = false) :
    clearLength bits start size = clearLength bits (start + 1) size + 1 := by
  have low := findNextZero_ge (fun k => !bits k) (show start + 1 ≤ size by omega)
  have same : findNextZero (fun k => !bits k) size start = findNextZero (fun k => !bits k) size (start + 1) := by
    rcases Nat.lt_or_eq_of_le (findNextZero_le (fun k => !bits k) size (start + 1)) with found | full
    · refine findNextZero_eq (by omega) found (fun k first last => ?_) (findNextZero_clear found)
      by_cases here : k = start
      · simp [here, clear]
      · exact findNextZero_before (by omega) last
    · rw [full]
      refine findNextZero_full fun k first last => ?_
      by_cases here : k = start
      · simp [here, clear]
      · exact @findNextZero_before (fun k => !bits k) size (start + 1) k (by omega) (by omega)
  unfold clearLength
  rw [same]
  omega

theorem clearLength_congr {bits bits' : Bits} {start size : Nat} (same : ∀ k, start ≤ k → bits' k = bits k) :
    clearLength bits' start size = clearLength bits start size := by
  induction n : size - start generalizing start with
  | zero => rw [clearLength_set (Or.inl (by omega)), clearLength_set (Or.inl (by omega))]
  | succ n ih =>
    cases here : bits start with
    | true => rw [clearLength_set (Or.inr here), clearLength_set (Or.inr ((same start le_rfl).trans here))]
    | false =>
      rw [clearLength_clear (by omega) here, clearLength_clear (by omega) ((same start le_rfl).trans here),
        ih (fun k low => same k (by omega)) (by omega)]

/-! ### Counting clear bits -/

def clearCount (bits : Bits) (n : Nat) : Nat := ((Finset.range n).filter fun k => bits k = false).card

theorem clearCount_le (bits : Bits) (n : Nat) : clearCount bits n ≤ n := by
  have bound := Finset.card_filter_le (Finset.range n) fun k => bits k = false
  rwa [Finset.card_range] at bound

theorem clearCount_pos {bits : Bits} {n k : Nat} (inside : k < n) (clear : bits k = false) :
    0 < clearCount bits n :=
  Finset.card_pos.mpr ⟨k, Finset.mem_filter.mpr ⟨Finset.mem_range.mpr inside, clear⟩⟩

theorem clearCount_set {bits : Bits} {n k : Nat} (inside : k < n) (clear : bits k = false) :
    clearCount (Function.update bits k true) n + 1 = clearCount bits n := by
  unfold clearCount
  have erased : (Finset.range n).filter (fun j => Function.update bits k true j = false) =
      ((Finset.range n).filter fun j => bits j = false).erase k := by
    ext j
    by_cases here : j = k
    · subst here; simp
    · simp [here]
  rw [erased]
  exact Finset.card_erase_add_one (Finset.mem_filter.mpr ⟨Finset.mem_range.mpr inside, clear⟩)

theorem clearCount_clear {bits : Bits} {n k : Nat} (inside : k < n) (set : bits k = true) :
    clearCount (Function.update bits k false) n = clearCount bits n + 1 := by
  have back := @clearCount_set (Function.update bits k false) _ _ inside (Function.update_self ..)
  rw [Function.update_idem, ← set, Function.update_eq_self] at back
  exact back.symm

theorem clearCount_fill_false {bits : Bits} {size start n : Nat} (inside : start + n ≤ size)
    (set : ∀ k, start ≤ k → k < start + n → bits k = true) :
    clearCount (fill bits start n false) size = clearCount bits size + n := by
  induction n with
  | zero => simp
  | succ n ih =>
    have next : fill bits start n false (start + n) = true := by
      rw [fill_outside false (by omega)]
      exact set _ (by omega) (by omega)
    have before := ih (by omega) fun k low high => set k low (by omega)
    rw [fill_succ, clearCount_clear (show start + n < size by omega) next]
    omega

/-- How a total of counts moves with one of them. -/
theorem sum_update {count : Nat → Nat} {n k : Nat} (inside : k < n) (x : Nat) :
    ∑ j ∈ Finset.range n, (Function.update count k x j : Int) =
      ∑ j ∈ Finset.range n, (count j : Int) - count k + x := by
  have member : k ∈ Finset.range n := Finset.mem_range.mpr inside
  rw [← Finset.add_sum_erase _ _ member, ← Finset.add_sum_erase _ (fun j => (count j : Int)) member,
    Function.update_self]
  have rest : ∑ j ∈ (Finset.range n).erase k, (Function.update count k x j : Int) =
      ∑ j ∈ (Finset.range n).erase k, (count j : Int) :=
    Finset.sum_congr rfl fun j other => by rw [Function.update_of_ne (Finset.ne_of_mem_erase other)]
  rw [rest]
  ring

theorem sum_change {count count' : Nat → Nat} {n k : Nat} (inside : k < n) (others : ∀ j, j ≠ k → count' j = count j) :
    ∑ j ∈ Finset.range n, (count' j : Int) = ∑ j ∈ Finset.range n, (count j : Int) - count k + count' k := by
  have updated : count' = Function.update count k (count' k) := by
    funext j
    by_cases here : j = k
    · rw [here, Function.update_self]
    · rw [Function.update_of_ne here, others j here]
  rw [updated, sum_update inside, Function.update_self]

/-! ### Counting set bits -/

def setCount (bits : Bits) (n : Nat) : Nat := clearCount (fun k => !bits k) n

theorem setCount_le (bits : Bits) (n : Nat) : setCount bits n ≤ n := clearCount_le _ n

theorem not_update (bits : Bits) (k : Nat) (b : Bool) :
    (fun j => !Function.update bits k b j) = Function.update (fun j => !bits j) k (!b) := by
  funext j
  by_cases same : j = k
  · subst same; simp
  · simp [same]

theorem setCount_set {bits : Bits} {n k : Nat} (inside : k < n) (clear : bits k = false) :
    setCount (Function.update bits k true) n = setCount bits n + 1 := by
  unfold setCount
  rw [not_update]
  exact clearCount_clear inside (by simp [clear])

theorem setCount_clear {bits : Bits} {n k : Nat} (inside : k < n) (set : bits k = true) :
    setCount (Function.update bits k false) n + 1 = setCount bits n := by
  unfold setCount
  rw [not_update]
  exact clearCount_set inside (by simp [set])

/-! ### Counts over groups -/

theorem clearCount_congr {bits bits' : Bits} {n : Nat} (same : ∀ k, k < n → bits k = bits' k) :
    clearCount bits n = clearCount bits' n := by
  unfold clearCount
  rw [Finset.filter_congr fun k inside => by rw [same k (Finset.mem_range.mp inside)]]

theorem clearCount_succ (bits : Bits) (n : Nat) :
    clearCount bits (n + 1) = clearCount bits n + if bits n then 0 else 1 := by
  unfold clearCount
  rw [Finset.range_add_one, Finset.filter_insert]
  cases here : bits n with
  | true => simp
  | false =>
    rw [if_pos rfl, Finset.card_insert_of_notMem (by simp)]
    simp

theorem clearCount_add (bits : Bits) (m n : Nat) :
    clearCount bits (m + n) = clearCount bits m + clearCount (fun k => bits (m + k)) n := by
  induction n with
  | zero => simp [clearCount]
  | succ n ih => rw [← Nat.add_assoc, clearCount_succ, ih, clearCount_succ, Nat.add_assoc]

/-- The places of groups of one size, the last of which may be shorter. -/
theorem clearCount_groups (bits : Bits) (size groups last : Nat) :
    ∑ g ∈ Finset.range (groups + 1), clearCount (fun k => bits (g * size + k)) (if g = groups then last else size) =
      clearCount bits (groups * size + last) := by
  have full : ∀ n, n ≤ groups →
      ∑ g ∈ Finset.range n, clearCount (fun k => bits (g * size + k)) (if g = groups then last else size) =
        clearCount bits (n * size) := by
    intro n before
    induction n with
    | zero => simp [clearCount]
    | succ n ih =>
      rw [Finset.sum_range_succ, ih (by omega), if_neg (by omega), Nat.succ_mul, clearCount_add]
  rw [Finset.sum_range_succ, full groups le_rfl, if_pos rfl, clearCount_add]

theorem setCount_eq_card (bits : Bits) (n : Nat) :
    setCount bits n = ((Finset.range n).filter fun k => bits k = true).card := by
  simp [setCount, clearCount]

theorem clear_add_set (bits : Bits) (n : Nat) : clearCount bits n + setCount bits n = n := by
  have split := Finset.card_filter_add_card_filter_not (s := Finset.range n) (fun k => bits k = false)
  simpa [clearCount, setCount] using split

/-- Two maps without a common bit count what their union does. -/
theorem setCount_union {bits a b : Bits} {n : Nat} (apart : ∀ k, k < n → a k = true → b k = false)
    (union : ∀ k, k < n → bits k = (a k || b k)) : setCount bits n = setCount a n + setCount b n := by
  have disjoint : Disjoint ((Finset.range n).filter fun k => a k = true) ((Finset.range n).filter fun k => b k = true) :=
    Finset.disjoint_filter.mpr fun k inside set => by simp [apart k (Finset.mem_range.mp inside) set]
  rw [setCount_eq_card, setCount_eq_card, setCount_eq_card, ← Finset.card_union_of_disjoint disjoint, ← Finset.filter_or]
  congr 1
  refine Finset.filter_congr fun k inside => ?_
  rw [union k (Finset.mem_range.mp inside), Bool.or_eq_true]

/-! ### Clearing bit by bit -/

/-- Clears the `n` bits from `start` on and counts those that were set. -/
def clearRun (bits : Bits) (start : Nat) : Nat → Bits × Nat
  | 0 => (bits, 0)
  | n + 1 =>
    let (bits, freed) := clearRun bits start n
    (Function.update bits (start + n) false, if bits (start + n) then freed + 1 else freed)

def runCount (bits : Bits) (start n : Nat) : Nat := ((Finset.range n).filter fun k => bits (start + k) = true).card

theorem runCount_succ (bits : Bits) (start n : Nat) :
    runCount bits start (n + 1) = if bits (start + n) then runCount bits start n + 1 else runCount bits start n := by
  unfold runCount
  rw [Finset.range_add_one, Finset.filter_insert]
  split_ifs
  · apply Finset.card_insert_of_notMem
    simp
  · rfl

theorem clearRun_eq (bits : Bits) (start n : Nat) :
    clearRun bits start n = (fill bits start n false, runCount bits start n) := by
  induction n with
  | zero => simp [clearRun, runCount]
  | succ n ih =>
    have next : fill bits start n false (start + n) = bits (start + n) := fill_outside false (by omega)
    simp only [clearRun, ih, next, fill_succ, runCount_succ]

theorem clearRun_set {bits : Bits} {start n : Nat} (set : ∀ k, start ≤ k → k < start + n → bits k = true) :
    clearRun bits start n = (fill bits start n false, n) := by
  have all : runCount bits start n = n := by
    unfold runCount
    rw [Finset.filter_true_of_mem fun k inside => set _ (by omega) (by have := Finset.mem_range.mp inside; omega),
      Finset.card_range]
  rw [clearRun_eq, all]

/-! ### Searching in turn -/

theorem next_turn (start r n : Nat) : ((start + 1) % n + r) % n = (start + (r + 1)) % n := by
  rw [Nat.mod_add_mod, Nat.add_assoc, Nat.add_comm 1 r]

/-- A search of the places from any one of them on, around the end, comes to every place. -/
theorem forall_turns {n start : Nat} {P : Nat → Prop} (inside : start < n) :
    (∀ r < n, P ((start + r) % n)) ↔ ∀ g < n, P g := by
  constructor
  · intro all g before
    have turn := all (if start ≤ g then g - start else n + g - start) (by split_ifs <;> omega)
    split_ifs at turn with behind
    · rwa [Nat.add_sub_cancel' behind, Nat.mod_eq_of_lt before] at turn
    · rwa [Nat.add_sub_cancel' (by omega), Nat.add_mod_left, Nat.mod_eq_of_lt before] at turn
  · exact fun all r _ => all _ (Nat.mod_lt _ (by omega))

end Bitmap
