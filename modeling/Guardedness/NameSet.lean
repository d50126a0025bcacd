/-!
# Sets of names

A name set is a finite set of names. Adding to a set gives a new one and leaves the old one as it
was, so what one branch of a term adds never shows in another.

**Membership** decides everything: two sets are equal when they have the same members
(`NameSet.beq_iff`), in whatever order those came.
-/

namespace Guardedness

/-- A finite set of names. -/
structure NameSet where
  /-- The members, the latest first. -/
  toList : List String
  nodup : toList.Nodup

namespace NameSet

instance : EmptyCollection NameSet := ⟨⟨[], .nil⟩⟩

instance : Inhabited NameSet := ⟨∅⟩

instance : Membership String NameSet := ⟨fun s x => x ∈ s.toList⟩

theorem mem_def {s : NameSet} {x : String} : x ∈ s ↔ x ∈ s.toList := Iff.rfl

instance (s : NameSet) (x : String) : Decidable (x ∈ s) :=
  inferInstanceAs (Decidable (x ∈ s.toList))

/-- Whether a name is a member. -/
def contains (s : NameSet) (x : String) : Bool := decide (x ∈ s)

def insert (s : NameSet) (x : String) : NameSet :=
  if h : x ∈ s then s else ⟨x :: s.toList, List.nodup_cons.mpr ⟨h, s.nodup⟩⟩

/-- The set of the names in a list. -/
def ofList (xs : List String) : NameSet := xs.foldl insert ∅

def size (s : NameSet) : Nat := s.toList.length

def isEmpty (s : NameSet) : Bool := s.toList.isEmpty

/-- Whether every member of `s` is one of `t`. -/
def subset (s t : NameSet) : Bool := s.toList.all t.contains

instance : BEq NameSet := ⟨fun s t => s.subset t && t.subset s⟩

@[simp] theorem not_mem_empty (x : String) : x ∉ (∅ : NameSet) := List.not_mem_nil

@[simp] theorem contains_iff {s : NameSet} {x : String} : s.contains x = true ↔ x ∈ s :=
  decide_eq_true_iff

@[simp] theorem mem_insert {s : NameSet} {x y : String} : y ∈ s.insert x ↔ y = x ∨ y ∈ s := by
  unfold insert
  split
  · next h => exact ⟨.inr, fun hy => hy.elim (· ▸ h) id⟩
  · exact List.mem_cons

theorem mem_ofList {xs : List String} {y : String} : y ∈ ofList xs ↔ y ∈ xs := by
  have key : ∀ (xs : List String) (s : NameSet), y ∈ xs.foldl insert s ↔ y ∈ xs ∨ y ∈ s := by
    intro xs
    induction xs with
    | nil => simp
    | cons x xs ih => intro s; simp [ih, or_assoc, or_left_comm]
  simp [ofList, key]

theorem subset_iff {s t : NameSet} : s.subset t = true ↔ ∀ x, x ∈ s → x ∈ t := by
  simp [subset, mem_def, contains]

/-- Sets are equal when they have the same members. -/
theorem beq_iff {s t : NameSet} : (s == t) = true ↔ ∀ x, x ∈ s ↔ x ∈ t := by
  show (s.subset t && t.subset s) = true ↔ _
  simp only [Bool.and_eq_true, subset_iff]
  exact ⟨fun h x => ⟨h.1 x, h.2 x⟩, fun h => ⟨fun x => (h x).1, fun x => (h x).2⟩⟩

end NameSet

end Guardedness
