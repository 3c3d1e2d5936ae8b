import Mathlib.Data.List.Nodup
import Mathlib.Logic.Function.Basic

/-!
# Records with distinct keys

A list of records under distinct keys is a finite map. Its order does not matter, and records
that come, go or are replaced update the map at one key.
-/

namespace Keyed

variable {β κ : Type*} {key : β → κ} {r r' : β} {rs rs' : List β} {k : κ}

/-- No two records have one key. -/
def Distinct (key : β → κ) (rs : List β) : Prop := (rs.map key).Nodup

theorem distinct_cons : Distinct key (r :: rs) ↔ (∀ r', r' ∈ rs → key r' ≠ key r) ∧ Distinct key rs := by
  simp [Distinct]

theorem Distinct.perm (distinct : Distinct key rs) (perm : rs.Perm rs') : Distinct key rs' :=
  (perm.map key).nodup_iff.mp distinct

theorem Distinct.inj (distinct : Distinct key rs) (member : r ∈ rs) (member' : r' ∈ rs) (same : key r = key r') : r = r' :=
  List.inj_on_of_nodup_map distinct member member' same

variable [DecidableEq κ]

instance (key : β → κ) (rs : List β) : Decidable (Distinct key rs) := inferInstanceAs (Decidable (List.Nodup _))

/-- The first record under a key. -/
def find (key : β → κ) (rs : List β) (k : κ) : Option β := rs.find? fun r => key r = k

theorem find_none_iff : find key rs k = none ↔ ∀ r, r ∈ rs → key r ≠ k := by
  simp [find]

theorem mem_of_find (found : find key rs k = some r) : r ∈ rs ∧ key r = k :=
  ⟨List.mem_of_find?_eq_some found, of_decide_eq_true (List.find?_some (p := fun r => decide (key r = k)) found)⟩

theorem find_iff (distinct : Distinct key rs) : find key rs k = some r ↔ r ∈ rs ∧ key r = k := by
  refine ⟨mem_of_find, fun here => ?_⟩
  cases found : find key rs k with
  | none => exact absurd here.2 (find_none_iff.mp found r here.1)
  | some r' =>
    obtain ⟨member, same⟩ := mem_of_find found
    rw [distinct.inj member here.1 (same.trans here.2.symm)]

theorem find_perm (distinct : Distinct key rs) (perm : rs.Perm rs') : find key rs = find key rs' := by
  funext k
  apply Option.ext
  intro r
  rw [find_iff distinct, find_iff (distinct.perm perm), perm.mem_iff]

theorem find_cons : find key (r :: rs) = Function.update (find key rs) (key r) (some r) := by
  funext k
  by_cases here : k = key r
  · subst here
    simp [find]
  · rw [Function.update_of_ne here]
    exact List.find?_cons_of_neg (by simpa using Ne.symm here)

/-- Without its first record the map has nothing under that key. -/
theorem find_erased (distinct : Distinct key (r :: rs)) :
    find key rs = Function.update (find key (r :: rs)) (key r) none := by
  have absent : find key rs (key r) = none := find_none_iff.mpr (distinct_cons.mp distinct).1
  rw [find_cons, Function.update_idem, ← absent, Function.update_eq_self]

theorem find_replaced (same : key r' = key r) :
    find key (r' :: rs) = Function.update (find key (r :: rs)) (key r) (some r') := by
  rw [find_cons, find_cons, Function.update_idem, same]

end Keyed
