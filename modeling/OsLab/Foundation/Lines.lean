import Mathlib.Data.List.Basic

/-!
# Lines that come in pieces

A reader with a buffer of `n` elements gets a line in one piece or in several, and each piece ends
where the line ends or where the buffer is full. The lines can be put together again from the
pieces without their stops.
-/

namespace Lines

variable {α : Type*} [DecidableEq α] {stop : α} {n : Nat}

/-- The lines that end, when the first one has begun. -/
def lines (stop : α) : List α → List α → List (List α)
  | _, [] => []
  | begun, x :: xs => if x = stop then begun :: lines stop [] xs else lines stop (begun ++ [x]) xs

def Piece (stop : α) (n : Nat) (read : List α) : Prop :=
  ∃ r, stop ∉ r ∧ (read = r ++ [stop] ∧ r.length < n ∨ read = r ∧ r.length = n)

/-- A piece without its stop. -/
def bare (stop : α) (read : List α) : List α := if read.getLast? = some stop then read.dropLast else read

/-- Full pieces are put in front of the next ones. -/
def glue (n : Nat) : List α → List (List α) → List (List α)
  | _, [] => []
  | begun, r :: rs => if r.length = n then glue n (begun ++ r) rs else (begun ++ r) :: glue n [] rs

theorem lines_inside {r : List α} (plain : stop ∉ r) (begun rest : List α) :
    lines stop begun (r ++ rest) = lines stop (begun ++ r) rest := by
  induction r generalizing begun with
  | nil => rw [List.append_nil, List.nil_append]
  | cons x r ih =>
    have other : x ≠ stop := fun same => plain (same ▸ List.mem_cons_self)
    rw [List.cons_append, lines, if_neg other, ih fun member => plain (List.mem_cons_of_mem x member), List.append_assoc,
      List.singleton_append]

theorem bare_stop (r : List α) : bare stop (r ++ [stop]) = r := by
  rw [bare, List.getLast?_concat, if_pos rfl, List.dropLast_concat]

theorem bare_inside {r : List α} (plain : stop ∉ r) : bare stop r = r := by
  refine if_neg fun last => plain ?_
  exact List.mem_of_getLast? last

theorem glue_bare {reads : List (List α)} (pieces : ∀ r ∈ reads, Piece stop n r) (begun : List α) :
    glue n begun (reads.map (bare stop)) = lines stop begun reads.flatten := by
  induction reads generalizing begun with
  | nil => rfl
  | cons read reads ih =>
    have others : ∀ r ∈ reads, Piece stop n r := fun r member => pieces r (List.mem_cons_of_mem read member)
    rw [List.map_cons, List.flatten_cons]
    obtain ⟨r, plain, ⟨rfl, short⟩ | ⟨rfl, full⟩⟩ := pieces read List.mem_cons_self
    · rw [bare_stop, glue, if_neg (Nat.ne_of_lt short), ih others, List.append_assoc, lines_inside plain, List.singleton_append,
        lines, if_pos rfl]
    · rw [bare_inside plain, glue, if_pos full, ih others, lines_inside plain]

end Lines
