import OsLab.Foundation.CArray

/-!
# Deletion of a substring by the client

`removeSubstring` of the TCP client on the array that holds its string, and for which strings it
leaves the substring in what it returns.
-/

namespace OsLab.Projects
open CText CArray Substrings

/-- The loop of `removeSubstring`, for at most so many turns. -/
def removeSubstringLoop (sub : List Char) : Nat → List Char → Nat → Except Fault (List Char)
  | 0, _, _ => .error .unfinished
  | turns + 1, str, p => do
    match ← strstr sub (str.drop p) with
    | none => pure str
    | some k =>
      let n ← strlen (str.drop (p + k + sub.length))
      let str ← memmove str (p + k) (p + k + sub.length) (n + 1)
      removeSubstringLoop sub turns str (p + k)

def removeSubstring (turns : Nat) (str sub : List Char) : Except Fault (List Char) := removeSubstringLoop sub turns str 0

def invalidCode : List Char := "invalid code".toList

/-! ### Runs on terminated strings -/

/-- The loop ends, with what the pass leaves, and what was behind the terminator stays there. -/
theorem removeLoop_text {sub : List Char} (plain : nul ∉ sub) (some : sub ≠ []) {s : List Char} (text : nul ∉ s) :
    ∃ junk, (pass sub s).length + junk.length = s.length ∧
      ∀ turns > s.length, ∀ before rest, removeSubstringLoop sub turns (before ++ (s ++ nul :: rest)) before.length =
        .ok (before ++ (pass sub s ++ nul :: (junk ++ rest))) := by
  induction length : s.length using Nat.strong_induction_on generalizing s with
  | _ n ih =>
    subst length
    rcases strstr_text plain some text with ⟨absent, same⟩ | ⟨a, b, rfl, found, passed⟩
    · refine ⟨[], by rw [same]; rfl, fun turns enough before rest => ?_⟩
      obtain ⟨turns, rfl⟩ := Nat.exists_eq_add_one_of_ne_zero (Nat.ne_zero_of_lt enough)
      rw [removeSubstringLoop, List.drop_left, absent, same]
      rfl
    · have plainRest : nul ∉ b := fun member => text (List.mem_append_right a (List.mem_append_right sub member))
      have positive := List.length_pos_iff.mpr some
      have shorter : b.length < (a ++ (sub ++ b)).length := by
        simp only [List.length_append]
        omega
      obtain ⟨junk, length, runs⟩ := ih b.length shorter plainRest rfl
      refine ⟨junk ++ (sub ++ (b ++ [nul])).drop (b.length + 1), ?_, fun turns enough before rest => ?_⟩
      · rw [passed]
        simp only [List.length_append, List.length_drop, List.length_cons, List.length_nil]
        omega
      · obtain ⟨turns, rfl⟩ := Nat.exists_eq_add_one_of_ne_zero (Nat.ne_zero_of_lt enough)
        have left : b.length < turns := by omega
        have array : before ++ (a ++ (sub ++ b) ++ nul :: rest) = before ++ a ++ (sub ++ (b ++ nul :: rest)) := by
          simp only [List.append_assoc]
        have place : before.length + a.length = (before ++ a).length := (List.length_append).symm
        have skip : (before ++ a ++ (sub ++ (b ++ nul :: rest))).drop ((before ++ a).length + sub.length) =
            b ++ nul :: rest := by
          rw [← List.drop_drop, List.drop_left, List.drop_left]
        rw [removeSubstringLoop, List.drop_left, found]
        show (strlen _ >>= fun n => memmove _ _ _ (n + 1) >>= fun str => removeSubstringLoop sub turns str _) = _
        rw [array, place, skip, strlen_text plainRest]
        show (memmove _ _ _ _ >>= fun str => removeSubstringLoop sub turns str _) = _
        rw [memmove_rest]
        show removeSubstringLoop sub turns _ _ = _
        rw [runs turns left, passed]
        simp only [List.append_assoc]

/-- An array without a terminator. -/
theorem removeSubstring_unterminated {sub str : List Char} (plain : nul ∉ str) (turns : Nat) (out : List Char) :
    removeSubstring turns str sub ≠ .ok out := by
  have behind : ∀ k, nul ∉ str.drop k := fun k member => plain (List.mem_of_mem_drop member)
  cases turns with
  | zero => exact nofun
  | succ turns =>
    rw [removeSubstring, removeSubstringLoop]
    cases found : strstr sub (str.drop 0) with
    | error fault => exact nofun
    | ok place =>
      cases place with
      | none => exact absurd found (strstr_unterminated (behind 0))
      | some k =>
        show (strlen _ >>= fun n => memmove _ _ _ (n + 1) >>= fun str => removeSubstringLoop sub turns str _) ≠ _
        rw [strlen_unterminated (behind _)]
        exact nofun

/-! ### What the client gets -/

/-- The call ends for every array that holds the string, leaves what is behind the terminator and returns a string
without the substring, from which only occurrences of it have been deleted. -/
structure Removes (s r : CString) : Prop where
  runs : ∃ junk, r.chars.length + junk.length = s.chars.length ∧ ∀ turns > s.chars.length, ∀ rest,
    removeSubstring turns (s.chars ++ nul :: rest) invalidCode = .ok (r.chars ++ nul :: (junk ++ rest))
  deletes : Relation.ReflTransGen (Deletes invalidCode) s.chars r.chars
  clean : ¬ invalidCode <:+: r.chars

theorem invalidCode_unbordered : Unbordered invalidCode := by
  have borders : ∀ x ∈ invalidCode.inits, x ≠ [] → x <:+ invalidCode → x = invalidCode := by decide
  exact fun x some begins => borders x ((List.mem_inits x _).mpr begins) some

/-- The call returns what the pass leaves. -/
theorem removes_clean_iff (s : CString) : (∃ r, Removes s r) ↔ ¬ invalidCode <:+: pass invalidCode s.chars := by
  have some : invalidCode ≠ [] := by decide
  obtain ⟨junk, length, runs⟩ := removeLoop_text (by decide) some s.noNul
  have deletes := pass_deletes some s.chars
  have plainPass : nul ∉ pass invalidCode s.chars := fun member => s.noNul ((deletes_sublist deletes).subset member)
  constructor
  · intro removed
    obtain ⟨r, ⟨junk', -, runs'⟩, -, clean⟩ := removed
    have both := Except.ok.inj ((runs' _ (Nat.lt_succ_self _) []).symm.trans (runs _ (Nat.lt_succ_self _) [] []))
    have same : r.chars = pass invalidCode s.chars := by
      rw [← text_terminated r.noNul (junk' ++ []), both, List.nil_append, text_terminated plainPass]
    rwa [← same]
  · intro clean
    exact ⟨⟨pass invalidCode s.chars, plainPass⟩,
      ⟨junk, length, fun turns enough rest => runs turns enough [] rest⟩, deletes, clean⟩

theorem removes_iff (s : CString) : (∃ r, Removes s r) ↔ ¬ Nested invalidCode s.chars := by
  rw [removes_clean_iff, occurs_iff_nested invalidCode_unbordered (by decide)]

theorem nested_code_left : ¬ ∀ s : CString, ∃ r, Removes s r := by
  intro always
  have nested : Nested invalidCode "invalid invalid codecode".toList :=
    ⟨[], "invalid ".toList, "code".toList, "code".toList, by decide, by decide, by decide, by decide,
      .take _ (.take _ (.take _ (.take _ (.done []))))⟩
  have clean := (removes_clean_iff ⟨"invalid invalid codecode".toList, by decide⟩).mp (always _)
  exact clean ((occurs_iff_nested invalidCode_unbordered (by decide) _).mpr nested)

end OsLab.Projects
