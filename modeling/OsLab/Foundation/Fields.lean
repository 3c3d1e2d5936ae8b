import OsLab.Foundation.Bytes

/-!
# Fields of records

A record on disk is a stretch of bytes with numbers at fixed offsets. Writing a list of
fields that do not overlap makes each of them read back and leaves all other bytes alone.
-/

namespace Bytes

structure Field where
  off : Nat
  width : Nat
  deriving DecidableEq, Repr

namespace Field

def Apart (f g : Field) : Prop := f.off + f.width ≤ g.off ∨ g.off + g.width ≤ f.off

instance (f g : Field) : Decidable (Apart f g) := inferInstanceAs (Decidable (_ ∨ _))

def get (img : Image) (base : Nat) (f : Field) : Nat := load img (base + f.off) f.width

/-- Stores what of the number fits in the field. -/
def put (img : Image) (base : Nat) (f : Field) (x : Nat) : Image :=
  store img (base + f.off) f.width (x % 256 ^ f.width)

def puts (img : Image) (base : Nat) (fields : List (Field × Nat)) : Image :=
  fields.foldl (fun img f => put img base f.1 f.2) img

variable {img : Image} {base : Nat} {f g : Field} {x : Nat} {fields : List (Field × Nat)}

theorem get_lt : get img base f < 256 ^ f.width := load_lt

theorem Apart.symm (apart : Apart f g) : Apart g f := Or.symm apart

theorem get_put_self : get (put img base f x) base f = x % 256 ^ f.width :=
  load_store_self (Nat.mod_lt x (Nat.pow_pos (by decide)))

theorem get_put_apart (apart : Apart f g) : get (put img base f x) base g = get img base g := by
  unfold Apart at apart
  exact load_store_disjoint (by omega)

theorem put_outside {k : Nat} (outside : k < base + f.off ∨ base + f.off + f.width ≤ k) :
    put img base f x k = img k :=
  store_outside outside

theorem get_puts_apart (apart : ∀ field ∈ fields, Apart field.1 f) :
    get (puts img base fields) base f = get img base f := by
  induction fields generalizing img with
  | nil => rfl
  | cons field fields ih =>
    have rest := @ih (put img base field.1 field.2) fun other member => apart other (List.mem_cons_of_mem _ member)
    exact rest.trans (get_put_apart (apart field List.mem_cons_self))

/-- Every field that is written reads back. -/
theorem get_puts (apart : fields.Pairwise fun f g => Apart f.1 g.1) (member : (f, x) ∈ fields) :
    get (puts img base fields) base f = x % 256 ^ f.width := by
  induction fields generalizing img with
  | nil => cases member
  | cons field fields ih =>
    obtain ⟨first, rest⟩ := List.pairwise_cons.mp apart
    rcases List.mem_cons.mp member with rfl | later
    · have kept := @get_puts_apart (put img base f x) base f fields fun other there => (first other there).symm
      exact kept.trans get_put_self
    · exact ih rest later

theorem puts_outside {k n : Nat} (inside : ∀ field ∈ fields, field.1.off + field.1.width ≤ n)
    (outside : k < base ∨ base + n ≤ k) : puts img base fields k = img k := by
  induction fields generalizing img with
  | nil => rfl
  | cons field fields ih =>
    have rest := @ih (put img base field.1 field.2) fun other member => inside other (List.mem_cons_of_mem _ member)
    have here := inside field List.mem_cons_self
    exact rest.trans (put_outside (by omega))

end Field

end Bytes
