import Mathlib.Data.Set.Card
import Mathlib.Logic.Relation

/-!
# Hierarchies

Vertices with named edges, a tree of directories among them. Two names lead from a directory to
itself and to its parent; all other names of the directories that the root leads to make up the
tree. What changes a hierarchy changes the number of edges to a vertex by what it says.
-/

namespace Hierarchies

variable {V K : Type*}

/-- The root, and the names of the edges that are no part of the tree. -/
structure Frame (V K : Type*) where
  root : V
  self : K
  up : K
  differ : self ≠ up

structure Graph (V K : Type*) where
  edge : V → K → Option V
  isDir : V → Prop

def Frame.Inner (f : Frame V K) (k : K) : Prop := k ≠ f.self ∧ k ≠ f.up

def Child (f : Frame V K) (g : Graph V K) (p d : V) : Prop := ∃ k, f.Inner k ∧ g.edge p k = some d ∧ g.isDir d

def Below (f : Frame V K) (g : Graph V K) : V → V → Prop := Relation.ReflTransGen (Child f g)

def Linked (f : Frame V K) (g : Graph V K) : V → Prop := Below f g f.root

/-- The edges to a vertex from the vertices in `L`. -/
def naming (L : V → Prop) (edge : V → K → Option V) (j : V) : Set (V × K) := {p | L p.1 ∧ edge p.1 p.2 = some j}

noncomputable def count (f : Frame V K) (g : Graph V K) (j : V) : Nat := (naming (Linked f g) g.edge j).ncard

structure Hierarchy (f : Frame V K) (g : Graph V K) : Prop where
  root : g.isDir f.root
  self : ∀ d, Linked f g d → g.edge d f.self = some d
  top : g.edge f.root f.up = some f.root
  up : ∀ p k d, Linked f g p → f.Inner k → g.edge p k = some d → g.isDir d → g.edge d f.up = some p
  unique : ∀ p k p' k' d, Linked f g p → Linked f g p' → f.Inner k → f.Inner k' → g.edge p k = some d → g.edge p' k' = some d →
    g.isDir d → p = p' ∧ k = k'
  rootless : ∀ p k, Linked f g p → f.Inner k → g.edge p k ≠ some f.root
  finite : {p : V × K | Linked f g p.1 ∧ (g.edge p.1 p.2).isSome}.Finite

variable {f : Frame V K} {g g' : Graph V K} {L L' : V → Prop} {d n o p x : V} {k k' : K}

theorem Linked.root : Linked f g f.root := Relation.ReflTransGen.refl

theorem Linked.child (linked : Linked f g p) (inner : f.Inner k) (named : g.edge p k = some d) (isDir : g.isDir d) :
    Linked f g d := Relation.ReflTransGen.tail linked ⟨k, inner, named, isDir⟩

theorem Hierarchy.isDir (h : Hierarchy f g) (linked : Linked f g d) : g.isDir d := by
  cases linked with
  | refl => exact h.root
  | tail _ last =>
    obtain ⟨k, -, -, isDir⟩ := last
    exact isDir

theorem Hierarchy.selfless (h : Hierarchy f g) (linked : Linked f g d) (inner : f.Inner k) : g.edge d k ≠ some d := by
  intro named
  induction linked with
  | refl => exact h.rootless f.root k .root inner named
  | @tail p d above last ih =>
    obtain ⟨k', inner', found, isDir⟩ := last
    obtain ⟨rfl, rfl⟩ := h.unique p k' d k d above (Linked.child above inner' found isDir) inner' inner found named isDir
    exact ih named

/-- A root without names but its own two. -/
theorem Hierarchy.single (root : g.isDir f.root) (self : g.edge f.root f.self = some f.root) (up : g.edge f.root f.up = some f.root)
    (empty : ∀ k, f.Inner k → g.edge f.root k = none) :
    Hierarchy f g ∧ (∀ x, Linked f g x ↔ x = f.root) ∧ count f g f.root = 2 := by
  have only : ∀ x, Linked f g x ↔ x = f.root := by
    intro x
    constructor
    · intro linked
      induction linked with
      | refl => rfl
      | tail _ last ih =>
        obtain ⟨k, inner, named, -⟩ := last
        rw [ih, empty k inner] at named
        cases named
    · rintro rfl
      exact .root
  have pair : ∀ {k x}, g.edge f.root k = some x → (f.root, k) ∈ ({(f.root, f.self), (f.root, f.up)} : Set (V × K)) := by
    intro k x named
    by_cases own : k = f.self
    · exact Or.inl (by rw [own])
    · by_cases last : k = f.up
      · exact Or.inr (by rw [last]; rfl)
      · rw [empty k ⟨own, last⟩] at named
        cases named
  have tree : Hierarchy f g := by
    refine ⟨root, ?_, up, ?_, ?_, ?_, ?_⟩
    · intro d linked
      rw [(only d).mp linked, self]
    · intro p k d linked inner named
      rw [(only p).mp linked, empty k inner] at named
      cases named
    · intro p k p' k' d linked _ inner _ named
      rw [(only p).mp linked, empty k inner] at named
      cases named
    · intro p k linked inner named
      rw [(only p).mp linked, empty k inner] at named
      cases named
    · apply (Set.toFinite {(f.root, f.self), (f.root, f.up)}).subset
      rintro ⟨p, k⟩ ⟨linked, named⟩
      obtain rfl := (only p).mp linked
      obtain ⟨x, named⟩ := Option.isSome_iff_exists.mp named
      exact pair named
  refine ⟨tree, only, ?_⟩
  have both : naming (Linked f g) g.edge f.root = {(f.root, f.self), (f.root, f.up)} := by
    ext ⟨p, k⟩
    constructor
    · rintro ⟨linked, named⟩
      obtain rfl := (only p).mp linked
      exact pair named
    · rintro (same | same) <;> obtain ⟨rfl, rfl⟩ := Prod.mk.inj same
      · exact ⟨.root, self⟩
      · exact ⟨.root, up⟩
  unfold count
  rw [both, Set.ncard_pair]
  exact fun same => f.differ (congrArg Prod.snd same)

/-! ### Graphs that differ outside of the tree -/

/-- The graphs agree on the edges of the linked directories, and on which of their targets are directories. -/
structure Agree (f : Frame V K) (g g' : Graph V K) : Prop where
  edge : ∀ d, Linked f g d → g'.edge d = g.edge d
  isDir : ∀ d k i, Linked f g d → g.edge d k = some i → (g'.isDir i ↔ g.isDir i)

theorem Agree.linked (agree : Agree f g g') (d : V) : Linked f g' d ↔ Linked f g d := by
  constructor
  · intro linked
    induction linked with
    | refl => exact .root
    | tail _ last ih =>
      obtain ⟨k, inner, named, isDir⟩ := last
      rw [agree.edge _ ih] at named
      exact ih.child inner named ((agree.isDir _ k _ ih named).mp isDir)
  · intro linked
    induction linked with
    | refl => exact .root
    | tail above last ih =>
      obtain ⟨k, inner, named, isDir⟩ := last
      exact ih.child inner (by rw [agree.edge _ above]; exact named) ((agree.isDir _ k _ above named).mpr isDir)

theorem Agree.trans {g'' : Graph V K} (first : Agree f g g') (second : Agree f g' g'') : Agree f g g'' where
  edge d linked := (second.edge d ((first.linked d).mpr linked)).trans (first.edge d linked)
  isDir d k i linked named :=
    (second.isDir d k i ((first.linked d).mpr linked) (by rw [first.edge d linked]; exact named)).trans
      (first.isDir d k i linked named)

theorem Agree.naming (agree : Agree f g g') (j : V) :
    naming (Linked f g') g'.edge j = naming (Linked f g) g.edge j := by
  ext q
  unfold Hierarchies.naming
  simp only [Set.mem_ofPred_eq, agree.linked]
  exact and_congr_right fun linked => by rw [agree.edge _ linked]

theorem Agree.count (agree : Agree f g g') (j : V) : count f g' j = count f g j := by
  unfold Hierarchies.count
  rw [agree.naming]

theorem Agree.hierarchy (agree : Agree f g g') (h : Hierarchy f g) : Hierarchy f g' where
  root := (agree.isDir f.root f.self f.root .root (h.self _ .root)).mpr h.root
  self d linked := by
    rw [agree.linked] at linked
    rw [agree.edge d linked]
    exact h.self d linked
  top := by
    rw [agree.edge _ .root]
    exact h.top
  up p k d linked inner named isDir := by
    rw [agree.linked] at linked
    rw [agree.edge p linked] at named
    rw [agree.isDir p k d linked named] at isDir
    rw [agree.edge d (linked.child inner named isDir)]
    exact h.up p k d linked inner named isDir
  unique p k p' k' d linked linked' inner inner' named named' isDir := by
    rw [agree.linked] at linked linked'
    rw [agree.edge p linked] at named
    rw [agree.edge p' linked'] at named'
    rw [agree.isDir p k d linked named] at isDir
    exact h.unique p k p' k' d linked linked' inner inner' named named' isDir
  rootless p k linked inner := by
    rw [agree.linked] at linked
    rw [agree.edge p linked]
    exact h.rootless p k linked inner
  finite := by
    apply h.finite.subset
    rintro q ⟨linked, named⟩
    rw [agree.linked] at linked
    rw [agree.edge _ linked] at named
    exact ⟨linked, named⟩

/-! ### One edge -/

variable [DecidableEq V] [DecidableEq K]

def Graph.set (g : Graph V K) (d : V) (k : K) (o : Option V) : Graph V K :=
  { g with edge := fun d' k' => if d' = d ∧ k' = k then o else g.edge d' k' }

theorem set_same {o : Option V} (same : g.edge d k = o) : g.set d k o = g := by
  unfold Graph.set
  congr
  funext d' k'
  split_ifs with here
  · obtain ⟨rfl, rfl⟩ := here
    exact same.symm
  · rfl

theorem set_here (g : Graph V K) (d : V) (k : K) (o : Option V) : (g.set d k o).edge d k = o := if_pos ⟨rfl, rfl⟩

theorem set_other {o : Option V} (other : ¬ (x = d ∧ k' = k)) : (g.set d k o).edge x k' = g.edge x k' := if_neg other

/-- A changed edge of a vertex in `L` takes one from the number of its old target and adds one to that of its new. -/
theorem card_set {o : Option V} (inside : L d) (finite : {p : V × K | L p.1 ∧ (g.edge p.1 p.2).isSome}.Finite) (j : V) :
    (naming L (g.set d k o).edge j).ncard + (if g.edge d k = some j then 1 else 0) =
      (naming L g.edge j).ncard + (if o = some j then 1 else 0) := by
  obtain ⟨rest, others⟩ : ∃ rest, naming L g.edge j \ {(d, k)} = rest := ⟨_, rfl⟩
  have absent : (d, k) ∉ rest := others ▸ fun member => member.2 rfl
  have small : rest.Finite := others ▸ finite.subset fun q member => ⟨member.1.1, by rw [member.1.2]; rfl⟩
  have before : naming L g.edge j = if g.edge d k = some j then insert (d, k) rest else rest := by
    subst others
    split_ifs with here
    · have member : (d, k) ∈ naming L g.edge j := ⟨inside, here⟩
      rw [Set.insert_sdiff_singleton, Set.insert_eq_of_mem member]
    · rw [Set.sdiff_singleton_eq_self fun member => here member.2]
  have after : naming L (g.set d k o).edge j = if o = some j then insert (d, k) rest else rest := by
    subst others
    ext ⟨d', k'⟩
    by_cases same : d' = d ∧ k' = k
    · obtain ⟨rfl, rfl⟩ := same
      split_ifs with here <;> simp [naming, set_here, inside, here]
    · have other : (d', k') ≠ (d, k) := fun both => same ⟨congrArg Prod.fst both, congrArg Prod.snd both⟩
      split_ifs <;> simp [naming, set_other same, other]
  rw [before, after]
  split_ifs
  · rfl
  · rw [Set.ncard_insert_of_notMem absent small]
  · rw [Set.ncard_insert_of_notMem absent small]
  · rfl

/-! ### Leaves -/

theorem child_leaf {o : Option V} (old : ∀ i, g.edge d k = some i → ¬ g.isDir i) (new : ∀ i, o = some i → ¬ g.isDir i) :
    Child f (g.set d k o) = Child f g := by
  funext p x
  apply propext
  constructor
  · rintro ⟨k', inner, named, isDir⟩
    by_cases here : p = d ∧ k' = k
    · obtain ⟨rfl, rfl⟩ := here
      rw [set_here] at named
      exact absurd isDir (new x named)
    · rw [set_other here] at named
      exact ⟨k', inner, named, isDir⟩
  · rintro ⟨k', inner, named, isDir⟩
    by_cases here : p = d ∧ k' = k
    · obtain ⟨rfl, rfl⟩ := here
      exact absurd isDir (old x named)
    · exact ⟨k', inner, by rw [set_other here]; exact named, isDir⟩

/-- A name of the tree is bound to something that is no directory, or gets free. -/
theorem Hierarchy.leaf (h : Hierarchy f g) {o : Option V} (linked : Linked f g d) (inner : f.Inner k)
    (old : ∀ i, g.edge d k = some i → ¬ g.isDir i) (new : ∀ i, o = some i → ¬ g.isDir i) :
    Hierarchy f (g.set d k o) ∧ Linked f (g.set d k o) = Linked f g ∧
      ∀ j, count f (g.set d k o) j + (if g.edge d k = some j then 1 else 0) = count f g j + (if o = some j then 1 else 0) := by
  have same : Linked f (g.set d k o) = Linked f g := by
    unfold Linked Below
    rw [child_leaf old new]
  have isDir : (g.set d k o).isDir = g.isDir := rfl
  have named : ∀ {p k' x}, (g.set d k o).edge p k' = some x → g.isDir x → g.edge p k' = some x := by
    intro p k' x named directory
    by_cases here : p = d ∧ k' = k
    · obtain ⟨rfl, rfl⟩ := here
      rw [set_here] at named
      exact absurd directory (new x named)
    · rwa [set_other here] at named
  have dots : ∀ {x k'}, ¬ f.Inner k' → (g.set d k o).edge x k' = g.edge x k' := fun outer =>
    set_other fun here => outer (here.2 ▸ inner)
  refine ⟨?_, same, fun j => ?_⟩
  · constructor <;> try rw [same]
    · exact h.root
    · intro x linked
      rw [dots fun outer => outer.1 rfl]
      exact h.self x linked
    · rw [dots fun outer => outer.2 rfl]
      exact h.top
    · intro p k' x above inner' edge directory
      rw [dots fun outer => outer.2 rfl]
      exact h.up p k' x above inner' (named edge directory) directory
    · intro p k' p' k'' x above above' inner' inner'' edge edge' directory
      exact h.unique p k' p' k'' x above above' inner' inner'' (named edge directory) (named edge' directory) directory
    · intro p k' above inner' edge
      exact h.rootless p k' above inner' (named edge h.root)
    · apply (h.finite.insert (d, k)).subset
      rintro ⟨p, k'⟩ ⟨above, edge⟩
      by_cases here : p = d ∧ k' = k
      · obtain ⟨rfl, rfl⟩ := here
        exact Set.mem_insert _ _
      · rw [set_other here] at edge
        exact Set.mem_insert_of_mem _ ⟨above, edge⟩
  · unfold count
    rw [same]
    exact card_set linked h.finite j

/-! ### Directories that come and go -/

theorem set_finite (finite : {p : V × K | L p.1 ∧ (g.edge p.1 p.2).isSome}.Finite) (d : V) (k : K) (o : Option V) :
    {p : V × K | L p.1 ∧ ((g.set d k o).edge p.1 p.2).isSome}.Finite := by
  apply (finite.insert (d, k)).subset
  rintro ⟨p, k'⟩ ⟨above, edge⟩
  by_cases here : p = d ∧ k' = k
  · obtain ⟨rfl, rfl⟩ := here
    exact Set.mem_insert _ _
  · rw [set_other here] at edge
    exact Set.mem_insert_of_mem _ ⟨above, edge⟩

/-- A directory without entries but its dots has two edges, to itself and to its parent. -/
theorem card_drop (f : Frame V K) (inside : L n) (without : ∀ x, L' x ↔ L x ∧ x ≠ n) (self : g.edge n f.self = some n)
    (up : g.edge n f.up = some p) (empty : ∀ k, f.Inner k → g.edge n k = none)
    (finite : {p : V × K | L p.1 ∧ (g.edge p.1 p.2).isSome}.Finite) (j : V) :
    (naming L' g.edge j).ncard + (if n = j then 1 else 0) + (if p = j then 1 else 0) = (naming L g.edge j).ncard := by
  have first := @card_set _ _ g L n f.self _ _ none inside finite j
  have second := @card_set _ _ (g.set n f.self none) L n f.up _ _ none inside (set_finite finite n f.self none) j
  rw [set_other fun here => f.differ here.2.symm, up] at second
  rw [self] at first
  have rest : naming L ((g.set n f.self none).set n f.up none).edge j = naming L' g.edge j := by
    ext ⟨x, k⟩
    unfold naming
    simp only [Set.mem_ofPred_eq, without]
    by_cases here : x = n
    · subst here
      have none : ((g.set x f.self none).set x f.up none).edge x k = none := by
        by_cases last : k = f.up
        · rw [last, set_here]
        · rw [set_other fun both => last both.2]
          by_cases own : k = f.self
          · rw [own, set_here]
          · rw [set_other fun both => own both.2]
            exact empty k ⟨own, last⟩
      simp [none]
    · rw [set_other fun both => here both.1, set_other fun both => here both.1]
      simp [here]
  rw [rest] at second
  simp only [Option.some.injEq, reduceCtorEq, if_false, Nat.add_zero] at first second
  omega

theorem Hierarchy.removeDir (h : Hierarchy f g) (linked : Linked f g d) (inner : f.Inner k) (named : g.edge d k = some n)
    (isDir : g.isDir n) (empty : ∀ k', f.Inner k' → g.edge n k' = none) :
    Hierarchy f (g.set d k none) ∧ (∀ x, Linked f (g.set d k none) x ↔ Linked f g x ∧ x ≠ n) ∧
      ∀ j, count f (g.set d k none) j + (if n = j then 1 else 0) + (if n = j then 1 else 0) + (if d = j then 1 else 0) =
        count f g j := by
  have edge : ∀ {p k' x}, (g.set d k none).edge p k' = some x → g.edge p k' = some x := by
    intro p k' x found
    by_cases here : p = d ∧ k' = k
    · obtain ⟨rfl, rfl⟩ := here
      rw [set_here] at found
      cases found
    · rwa [set_other here] at found
  have dots : ∀ {x k'}, ¬ f.Inner k' → (g.set d k none).edge x k' = g.edge x k' := fun outer =>
    set_other fun here => outer (here.2 ▸ inner)
  have less : ∀ {x}, Linked f (g.set d k none) x → Linked f g x := by
    intro x above
    induction above with
    | refl => exact .root
    | tail _ last ih =>
      obtain ⟨k', inner', found, directory⟩ := last
      exact ih.child inner' (edge found) directory
  have left : ∀ x, Linked f (g.set d k none) x ↔ Linked f g x ∧ x ≠ n := by
    intro x
    constructor
    · intro above
      refine ⟨less above, ?_⟩
      rintro rfl
      cases above with
      | refl => exact h.rootless d k linked inner named
      | tail above last =>
        -- The only way to the directory was the name that is gone.
        obtain ⟨k', inner', found, -⟩ := last
        obtain ⟨rfl, rfl⟩ := h.unique _ _ _ _ _ (less above) linked inner' inner (edge found) named isDir
        rw [set_here] at found
        cases found
    · rintro ⟨above, other⟩
      induction above with
      | refl => exact .root
      | @tail p x above last ih =>
        obtain ⟨k', inner', found, directory⟩ := last
        have notEmptied : p ≠ n := fun same => by
          rw [same, empty k' inner'] at found
          cases found
        refine (ih notEmptied).child inner' ?_ directory
        rw [set_other]
        · exact found
        · rintro ⟨rfl, rfl⟩
          exact other (Option.some.inj (found.symm.trans named))
  refine ⟨⟨h.root, ?_, ?_, ?_, ?_, ?_, ?_⟩, left, fun j => ?_⟩
  · intro x above
    rw [dots fun outer => outer.1 rfl]
    exact h.self x (less above)
  · rw [dots fun outer => outer.2 rfl]
    exact h.top
  · intro p k' x above inner' found directory
    rw [dots fun outer => outer.2 rfl]
    exact h.up p k' x (less above) inner' (edge found) directory
  · intro p k' p' k'' x above above' inner' inner'' found found' directory
    exact h.unique p k' p' k'' x (less above) (less above') inner' inner'' (edge found) (edge found') directory
  · intro p k' above inner' found
    exact h.rootless p k' (less above) inner' (edge found)
  · exact h.finite.subset fun q member => ⟨less member.1, by
      obtain ⟨x, found⟩ := Option.isSome_iff_exists.mp member.2
      rw [edge found]
      rfl⟩
  · have gone := @card_set _ _ g (Linked f g) d k _ _ none linked h.finite j
    have here : Linked f g n := linked.child inner named isDir
    have dropped := @card_drop _ _ (g.set d k none) (Linked f g) (Linked f (g.set d k none)) n d _ _ f here left
      (by rw [dots fun outer => outer.1 rfl]; exact h.self n here)
      (by rw [dots fun outer => outer.2 rfl]; exact h.up d k n linked inner named isDir)
      (fun k' inner' => by
        cases found : (g.set d k none).edge n k' with
        | none => rfl
        | some x => exact absurd ((empty k' inner').symm.trans (edge found)) (by simp))
      (set_finite h.finite d k none) j
    rw [named] at gone
    simp only [Option.some.injEq, reduceCtorEq, if_false, Nat.add_zero] at gone
    unfold count
    omega

theorem Hierarchy.addDir (h : Hierarchy f g) (linked : Linked f g d) (inner : f.Inner k) (free : g.edge d k = none)
    (fresh : ∀ p k', Linked f g p → g.edge p k' ≠ some n)
    (edges : ∀ x, Linked f g x → g'.edge x = (g.set d k (some n)).edge x) (self : g'.edge n f.self = some n)
    (up : g'.edge n f.up = some d) (empty : ∀ k', f.Inner k' → g'.edge n k' = none) (isDir : g'.isDir n)
    (dirs : ∀ p k' i, Linked f g p → g.edge p k' = some i → (g'.isDir i ↔ g.isDir i)) :
    Hierarchy f g' ∧ (∀ x, Linked f g' x ↔ Linked f g x ∨ x = n) ∧
      ∀ j, count f g' j = count f g j + (if n = j then 1 else 0) + (if n = j then 1 else 0) + (if d = j then 1 else 0) := by
  have apart : ¬ Linked f g n := fun above => fresh n f.self above (h.self n above)
  have dots : ∀ {x k'}, Linked f g x → ¬ f.Inner k' → g'.edge x k' = g.edge x k' := fun above outer => by
    rw [edges _ above]
    exact set_other fun here => outer (here.2 ▸ inner)
  have old : ∀ {x k'}, Linked f g x → ¬ (x = d ∧ k' = k) → g'.edge x k' = g.edge x k' := fun above other => by
    rw [edges _ above, set_other other]
  have new : g'.edge d k = some n := by rw [edges d linked, set_here]
  have more : ∀ x, Linked f g' x ↔ Linked f g x ∨ x = n := by
    intro x
    constructor
    · intro above
      induction above with
      | refl => exact Or.inl .root
      | @tail p x above last ih =>
        obtain ⟨k', inner', found, directory⟩ := last
        rcases ih with ih | rfl
        · by_cases here : p = d ∧ k' = k
          · obtain ⟨rfl, rfl⟩ := here
            exact Or.inr (Option.some.inj (found.symm.trans new))
          · rw [old ih here] at found
            exact Or.inl (ih.child inner' found ((dirs p k' x ih found).mp directory))
        · rw [empty k' inner'] at found
          cases found
    · have kept : ∀ {x}, Linked f g x → Linked f g' x := by
        intro x above
        induction above with
        | refl => exact .root
        | @tail p x above last ih =>
          obtain ⟨k', inner', found, directory⟩ := last
          have other : ¬ (p = d ∧ k' = k) := by
            rintro ⟨rfl, rfl⟩
            rw [free] at found
            cases found
          exact ih.child inner' (by rw [old above other]; exact found) ((dirs p k' x above found).mpr directory)
      rintro (above | rfl)
      · exact kept above
      · exact (kept linked).child inner new isDir
  have inside : ∀ {p k' x}, Linked f g' p → f.Inner k' → g'.edge p k' = some x → Linked f g p := by
    intro p k' x above inner' found
    rcases (more p).mp above with above | rfl
    · exact above
    · rw [empty k' inner'] at found
      cases found
  have hierarchy : Hierarchy f g' := by
    refine ⟨(dirs f.root f.self f.root .root (h.self _ .root)).mpr h.root, ?_, ?_, ?_, ?_, ?_, ?_⟩
    · intro x above
      rcases (more x).mp above with above | rfl
      · rw [dots above fun outer => outer.1 rfl]
        exact h.self x above
      · exact self
    · rw [dots .root fun outer => outer.2 rfl]
      exact h.top
    · intro p k' x above inner' found directory
      have above := inside above inner' found
      by_cases here : p = d ∧ k' = k
      · obtain ⟨rfl, rfl⟩ := here
        rw [Option.some.inj (found.symm.trans new)]
        exact up
      · rw [old above here] at found
        rw [dirs p k' x above found] at directory
        rw [dots (above.child inner' found directory) fun outer => outer.2 rfl]
        exact h.up p k' x above inner' found directory
    · intro p k' p' k'' x above above' inner' inner'' found found' directory
      have above := inside above inner' found
      have above' := inside above' inner'' found'
      by_cases here : p = d ∧ k' = k <;> by_cases here' : p' = d ∧ k'' = k
      · exact ⟨here.1.trans here'.1.symm, here.2.trans here'.2.symm⟩
      · obtain ⟨rfl, rfl⟩ := here
        rw [old above' here', Option.some.inj (found.symm.trans new)] at found'
        exact absurd found' (fresh p' k'' above')
      · obtain ⟨rfl, rfl⟩ := here'
        rw [old above here, Option.some.inj (found'.symm.trans new)] at found
        exact absurd found (fresh p k' above)
      · rw [old above here] at found
        rw [old above' here'] at found'
        exact h.unique p k' p' k'' x above above' inner' inner'' found found' ((dirs p k' x above found).mp directory)
    · intro p k' above inner' found
      have above := inside above inner' found
      by_cases here : p = d ∧ k' = k
      · obtain ⟨rfl, rfl⟩ := here
        exact apart (Option.some.inj (found.symm.trans new) ▸ .root)
      · rw [old above here] at found
        exact h.rootless p k' above inner' found
    · apply (((h.finite.insert (d, k)).insert (n, f.self)).insert (n, f.up)).subset
      rintro ⟨p, k'⟩ ⟨above, found⟩
      rcases (more p).mp above with above | rfl
      · by_cases here : p = d ∧ k' = k
        · obtain ⟨rfl, rfl⟩ := here
          exact Set.mem_insert_of_mem _ (Set.mem_insert_of_mem _ (Set.mem_insert _ _))
        · rw [old above here] at found
          exact Set.mem_insert_of_mem _ (Set.mem_insert_of_mem _ (Set.mem_insert_of_mem _ ⟨above, found⟩))
      · by_cases own : k' = f.self
        · exact Set.mem_insert_of_mem _ (own ▸ Set.mem_insert _ _)
        · by_cases last : k' = f.up
          · exact last ▸ Set.mem_insert _ _
          · simp [empty k' ⟨own, last⟩] at found
  refine ⟨hierarchy, more, fun j => ?_⟩
  have without : ∀ x, Linked f g x ↔ Linked f g' x ∧ x ≠ n := fun x => by
    rw [more]
    constructor
    · exact fun above => ⟨Or.inl above, fun same => apart (same ▸ above)⟩
    · rintro ⟨above | same, other⟩
      · exact above
      · exact absurd same other
  have dropped := card_drop f ((more n).mpr (Or.inr rfl)) without self up empty hierarchy.finite j
  have same : naming (Linked f g) g'.edge j = naming (Linked f g) (g.set d k (some n)).edge j := by
    ext q
    unfold naming
    exact and_congr_right fun above => by rw [edges q.1 above]
  have added := @card_set _ _ g (Linked f g) d k _ _ (some n) linked h.finite j
  rw [free] at added
  simp only [Option.some.injEq, reduceCtorEq, if_false, Nat.add_zero] at added
  rw [same] at dropped
  unfold count
  omega

/-! ### Directories that move -/

/-- The name `k` of `p` passes to the name `k'` of `p'`, and `up` of the directory follows. -/
def Graph.move (f : Frame V K) (g : Graph V K) (p : V) (k : K) (p' : V) (k' : K) (o : V) : Graph V K :=
  ((g.set p' k' (some o)).set p k none).set o f.up (some p')

variable {p' y : V} {l : K}

theorem move_inner (inner : f.Inner l) : (g.move f p k p' k' o).edge x l =
    if x = p ∧ l = k then none else if x = p' ∧ l = k' then some o else g.edge x l :=
  set_other fun here => inner.2 here.2

theorem move_self (inner : f.Inner k) (inner' : f.Inner k') : (g.move f p k p' k' o).edge x f.self = g.edge x f.self := by
  unfold Graph.move
  rw [set_other fun here => f.differ here.2, set_other fun here => inner.1 here.2.symm,
    set_other fun here => inner'.1 here.2.symm]

theorem move_up (inner : f.Inner k) (inner' : f.Inner k') :
    (g.move f p k p' k' o).edge x f.up = if x = o then some p' else g.edge x f.up := by
  unfold Graph.move
  by_cases here : x = o
  · rw [here, set_here, if_pos rfl]
  · rw [set_other fun both => here both.1, set_other fun both => inner.2 both.2.symm,
      set_other fun both => inner'.2 both.2.symm, if_neg here]

/-- Every edge of the tree is an old one or the new one. -/
theorem move_cases (inner : f.Inner l) (found : (g.move f p k p' k' o).edge x l = some y) :
    (x = p' ∧ l = k' ∧ y = o) ∨ (g.edge x l = some y ∧ ¬ (x = p ∧ l = k)) := by
  rw [move_inner inner] at found
  split_ifs at found with gone new
  · exact Or.inl ⟨new.1, new.2, (Option.some.inj found).symm⟩
  · exact Or.inr ⟨found, gone⟩

/-- A directory of the tree and a free name for it in another one, not below it. -/
structure Transfers (f : Frame V K) (g : Graph V K) (p : V) (k : K) (p' : V) (k' : K) (o : V) : Prop where
  tree : Hierarchy f g
  linked : Linked f g p
  linked' : Linked f g p'
  inner : f.Inner k
  inner' : f.Inner k'
  named : g.edge p k = some o
  isDir : g.isDir o
  free : g.edge p' k' = none
  apart : ¬ Below f g o p'

omit [DecidableEq V] [DecidableEq K] in
theorem Transfers.differ (t : Transfers f g p k p' k' o) : ¬ (p' = p ∧ k' = k) := by
  rintro ⟨rfl, rfl⟩
  have named := t.named
  rw [t.free] at named
  cases named

theorem Transfers.new (t : Transfers f g p k p' k' o) : (g.move f p k p' k' o).edge p' k' = some o := by
  rw [move_inner t.inner', if_neg t.differ, if_pos ⟨rfl, rfl⟩]

theorem Transfers.still (t : Transfers f g p k p' k' o) (inner : f.Inner l) (found : g.edge x l = some y) (other : y ≠ o) :
    (g.move f p k p' k' o).edge x l = some y := by
  rw [move_inner inner, if_neg, if_neg]
  · exact found
  · rintro ⟨rfl, rfl⟩
    rw [t.free] at found
    cases found
  · rintro ⟨rfl, rfl⟩
    exact other (Option.some.inj (found.symm.trans t.named))

theorem Transfers.old_linked (t : Transfers f g p k p' k' o) (linked : Linked f (g.move f p k p' k' o) x) : Linked f g x := by
  induction linked with
  | refl => exact .root
  | tail _ last ih =>
    obtain ⟨l, inner, found, directory⟩ := last
    rcases move_cases inner found with ⟨-, -, rfl⟩ | ⟨found, -⟩
    · exact t.linked.child t.inner t.named t.isDir
    · exact ih.child inner found directory

/-- What is not below the directory keeps its path. -/
theorem Transfers.beside (t : Transfers f g p k p' k' o) (linked : Linked f g x) (beside : ¬ Below f g o x) :
    Linked f (g.move f p k p' k' o) x := by
  induction linked with
  | refl => exact .root
  | @tail y x _ last ih =>
    obtain ⟨l, inner, found, directory⟩ := last
    have other : x ≠ o := by
      rintro rfl
      exact beside Relation.ReflTransGen.refl
    have above := ih fun below => beside (below.tail ⟨l, inner, found, directory⟩)
    exact above.child inner (t.still inner found other) directory

theorem Transfers.within (t : Transfers f g p k p' k' o) (below : Below f g o x) : Linked f (g.move f p k p' k' o) x := by
  have directory : Linked f (g.move f p k p' k' o) o := (t.beside t.linked' t.apart).child t.inner' t.new t.isDir
  induction below with
  | refl => exact directory
  | @tail y x _ last ih =>
    obtain ⟨l, inner, found, isDir⟩ := last
    by_cases here : x = o
    · exact here ▸ directory
    · exact ih.child inner (t.still inner found here) isDir

theorem Transfers.linked_iff (t : Transfers f g p k p' k' o) (x : V) : Linked f (g.move f p k p' k' o) x ↔ Linked f g x := by
  refine ⟨t.old_linked, fun linked => ?_⟩
  by_cases below : Below f g o x
  · exact t.within below
  · exact t.beside linked below

theorem Transfers.hierarchy (t : Transfers f g p k p' k' o) : Hierarchy f (g.move f p k p' k' o) := by
  have ⟨h, linkedOld, _, innerOld, innerNew, named, isDir, _, _⟩ := t
  have root : f.root ≠ o := fun same => h.rootless p k linkedOld innerOld (same ▸ named)
  refine ⟨h.root, ?_, ?_, ?_, ?_, ?_, ?_⟩
  · intro x linked
    rw [move_self innerOld innerNew]
    exact h.self x (t.old_linked linked)
  · rw [move_up innerOld innerNew, if_neg root]
    exact h.top
  · intro x l y linked inner found directory
    rw [move_up innerOld innerNew]
    rcases move_cases inner found with ⟨rfl, rfl, rfl⟩ | ⟨old, other⟩
    · exact if_pos rfl
    · rw [if_neg]
      · exact h.up x l y (t.old_linked linked) inner old directory
      · rintro rfl
        exact other (h.unique x l p k y (t.old_linked linked) linkedOld inner innerOld old named directory)
  · intro x l x' l' y linked linked' label label' found found' directory
    have first := t.old_linked linked
    have second := t.old_linked linked'
    rcases move_cases label found with ⟨rfl, rfl, rfl⟩ | ⟨old, other⟩
    · rcases move_cases label' found' with ⟨rfl, rfl, -⟩ | ⟨old', other'⟩
      · exact ⟨rfl, rfl⟩
      · exact absurd (h.unique _ _ _ _ _ second linkedOld label' innerOld old' named directory) other'
    · rcases move_cases label' found' with ⟨rfl, rfl, rfl⟩ | ⟨old', -⟩
      · exact absurd (h.unique _ _ _ _ _ first linkedOld label innerOld old named directory) other
      · exact h.unique _ _ _ _ _ first second label label' old old' directory
  · intro x l linked inner found
    rcases move_cases inner found with ⟨-, -, here⟩ | ⟨found, -⟩
    · exact root here
    · exact h.rootless x l (t.old_linked linked) inner found
  · have finite := set_finite (set_finite (set_finite h.finite p' k' (some o)) p k none) o f.up (some p')
    apply finite.subset
    rintro q ⟨linked, found⟩
    exact ⟨t.old_linked linked, found⟩

theorem Transfers.count (t : Transfers f g p k p' k' o) (j : V) :
    count f (g.move f p k p' k' o) j + (if p = j then 1 else 0) = count f g j + (if p' = j then 1 else 0) := by
  have ⟨h, linked, linked', inner, inner', named, isDir, free, _⟩ := t
  have child : Linked f g o := linked.child inner named isDir
  have finite := set_finite h.finite p' k' (some o)
  have first := @card_set _ _ g (Linked f g) p' k' _ _ (some o) linked' h.finite j
  have second := @card_set _ _ (g.set p' k' (some o)) (Linked f g) p k _ _ none linked finite j
  have third := @card_set _ _ ((g.set p' k' (some o)).set p k none) (Linked f g) o f.up _ _ (some p') child
    (set_finite finite p k none) j
  rw [free] at first
  rw [set_other fun here => t.differ ⟨here.1.symm, here.2.symm⟩, named] at second
  rw [set_other fun here => inner.2 here.2.symm, set_other fun here => inner'.2 here.2.symm,
    h.up p k o linked inner named isDir] at third
  have same : Linked f (g.move f p k p' k' o) = Linked f g := funext fun x => propext (t.linked_iff x)
  simp only [Option.some.injEq, reduceCtorEq, if_false, Nat.add_zero] at first second third
  unfold Hierarchies.count
  rw [same, Graph.move]
  omega

end Hierarchies
