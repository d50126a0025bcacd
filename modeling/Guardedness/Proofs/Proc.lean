import Guardedness.Proofs.SyntaxTree

/-!
# A process is a tree without places

Lowering a syntax tree to a process forgets where its names stand. Nothing else is lost on the way,
and nothing else is in a process.

**What a node is** (`Proc.Root`). A process is seen as a kind, a name and a child on either side.
The kind says which of these are there, and that is all that is asked of them
(`Proc.exists_root_iff`). No two processes look the same (`Proc.root_inj`).

**What equal trees are** (`SyntaxTree.Same`). Trees are compared node by node. Two of them turn out
equal when they are put together in the same way from the same names, and that is when they stand
for the same process (`SyntaxTree.same_iff`).
-/

namespace Guardedness

namespace Node.Kind

/-- The number of children of a node of this kind. -/
def arity : Kind → Nat
  | nil | var => 0
  | act | fix | res | rel => 1
  | par | sum => 2

def isNamed : Kind → Bool
  | nil | par | sum => false
  | var | act | fix | res | rel => true

end Node.Kind

namespace Proc

/-- A process as it is seen from its root. -/
structure Root where
  kind : Node.Kind
  name : String
  left : Option Proc
  right : Option Proc

/-- The root of a process, and the processes below it. -/
def root (p : Proc) : Root := ⟨p.kind, p.name, p.child? .left, p.child? .right⟩

/-- The children are there that the kind asks for and no others, and so is the name. -/
structure Root.WellFormed (r : Root) : Prop where
  left : r.left.isSome = decide (0 < r.kind.arity)
  right : r.right.isSome = decide (1 < r.kind.arity)
  name : r.kind.isNamed = false → r.name = ""

variable {p q : Proc}

theorem wellFormed_root (p : Proc) : p.root.WellFormed := by
  cases p with
  | nil | par _ _ | sum _ _ => exact ⟨rfl, rfl, fun _ => rfl⟩
  | var _ | act _ _ | fix _ _ | res _ _ | rel _ _ => exact ⟨rfl, rfl, nofun⟩

/-- What has the children and the name that its kind asks for is the root of a process. -/
theorem exists_root_iff (r : Root) : (∃ p : Proc, p.root = r) ↔ r.WellFormed := by
  constructor
  · rintro ⟨p, rfl⟩
    exact wellFormed_root p
  · rintro ⟨hleft, hright, hname⟩
    obtain ⟨kind, name, left, right⟩ := r
    -- A kind is left only beside the children that it asks for.
    rcases left with _ | p <;> rcases right with _ | q <;> cases kind <;> cases hleft <;> cases hright
    all_goals try obtain rfl := hname rfl
    · exact ⟨.nil, rfl⟩
    · exact ⟨.var name, rfl⟩
    · exact ⟨.act name p, rfl⟩
    · exact ⟨.res p name, rfl⟩
    · exact ⟨.rel p name, rfl⟩
    · exact ⟨.fix name p, rfl⟩
    · exact ⟨.sum p q, rfl⟩
    · exact ⟨.par p q, rfl⟩

/-- No two processes look the same from their roots. -/
theorem root_inj : p.root = q.root ↔ p = q := by
  constructor
  · intro h
    obtain ⟨hkind, hname, hleft, hright⟩ := Root.mk.inj h
    cases p <;> cases q <;> cases hkind <;> cases hname <;> cases hleft <;> cases hright <;> rfl
  · rintro rfl
    rfl

theorem beq_iff : (p == q) = true ↔ p = q := by
  have map_id (p : Proc) : Term.map id p = p := by
    induction p <;> simp [*]
  rw [Term.beq_iff_map (f := id) fun _ _ => beq_iff_eq, map_id, map_id]

end Proc

namespace SyntaxTree

/-- Two trees are put together in the same way from the same names, wherever these stand. -/
inductive Same : SyntaxTree → SyntaxTree → Prop
  | nil : Same .nil .nil
  | var {x y : Ident} : x.name = y.name → Same (.var x) (.var y)
  | act {a b : Ident} {s t : SyntaxTree} : a.name = b.name → Same s t → Same (.act a s) (.act b t)
  | fix {x y : Ident} {s t : SyntaxTree} : x.name = y.name → Same s t → Same (.fix x s) (.fix y t)
  | par {s s' t t' : SyntaxTree} : Same s t → Same s' t' → Same (.par s s') (.par t t')
  | sum {s s' t t' : SyntaxTree} : Same s t → Same s' t' → Same (.sum s s') (.sum t t')
  | res {a b : Ident} {s t : SyntaxTree} : Same s t → a.name = b.name → Same (.res s a) (.res t b)
  | rel {f g : Ident} {s t : SyntaxTree} : Same s t → f.name = g.name → Same (.rel s f) (.rel t g)

variable {s t : SyntaxTree}

theorem Same.proc_eq (h : Same s t) : s.proc = t.proc := by
  unfold proc
  induction h with
  | nil => rfl
  | var hx => simp [hx]
  | act ha _ ih | fix ha _ ih | res _ ha ih | rel _ ha ih => simp [ha, ih]
  | par _ _ ih ih' | sum _ _ ih ih' => simp [ih, ih']

/-- Trees that stand for the same process are the same but for places. -/
theorem same_of_proc_eq (h : s.proc = t.proc) : Same s t := by
  unfold proc at h
  induction s generalizing t with
  | nil => cases t <;> simp at h; exact .nil
  | var x => cases t <;> simp at h; exact .var h
  | act a s ih => cases t <;> simp at h; exact .act h.1 (ih h.2)
  | fix x s ih => cases t <;> simp at h; exact .fix h.1 (ih h.2)
  | par s s' ih ih' => cases t <;> simp at h; exact .par (ih h.1) (ih' h.2)
  | sum s s' ih ih' => cases t <;> simp at h; exact .sum (ih h.1) (ih' h.2)
  | res s a ih => cases t <;> simp at h; exact .res (ih h.1) h.2
  | rel s f ih => cases t <;> simp at h; exact .rel (ih h.1) h.2

theorem same_iff : Same s t ↔ s.proc = t.proc := ⟨Same.proc_eq, same_of_proc_eq⟩

/-- Lowering keeps the number of nodes. -/
theorem weight_proc (t : SyntaxTree) : Term.weight t.proc = t.weight := by
  unfold proc
  induction t <;> simp_all [Term.weight]

/-- **Two trees stand for the same process just when they are equal, and they are equal when they
are put together in the same way from the same names. Every kind, with the name and the children
that it asks for, is the root of just one process, and that is the process of a tree. So there is a
tree for every process, and only one but for places. Counting nodes one by one gives the same number
on both sides.** -/
theorem proc_isomorphism :
    (∀ s t : SyntaxTree, ((s.proc == t.proc) = true ↔ (s == t) = true) ∧
      ((s == t) = true ↔ Same s t)) ∧
    (∀ p q : Proc, (p == q) = true ↔ p.root = q.root) ∧
    (∀ r : Proc.Root, (∃ t : SyntaxTree, t.proc.root = r) ↔ r.WellFormed) ∧
    (∀ p : Proc, ∃ t : SyntaxTree, t.proc = p ∧
      ∀ t' : SyntaxTree, (t'.proc == p) = true ↔ (t' == t) = true) ∧
    (∀ t : SyntaxTree, t.size = t.weight) ∧ (∀ p : Proc, p.size = p.weight) ∧
    ∀ t : SyntaxTree, t.proc.size = t.size := by
  refine ⟨fun s t => ⟨Proc.beq_iff.trans beq_iff.symm, beq_iff.trans same_iff.symm⟩, ?_, ?_, ?_,
    Term.size_eq_weight, Term.size_eq_weight, ?_⟩
  · intro p q
    rw [Proc.beq_iff, Proc.root_inj]
  · intro r
    rw [← Proc.exists_root_iff]
    constructor
    · rintro ⟨t, h⟩
      exact ⟨t.proc, h⟩
    · rintro ⟨p, h⟩
      exact ⟨Term.map Ident.ofName p, by rw [proc_map_ofName, h]⟩
  · intro p
    refine ⟨Term.map Ident.ofName p, proc_map_ofName p, fun t' => ?_⟩
    rw [Proc.beq_iff, beq_iff, proc_map_ofName]
  · intro t
    rw [Term.size_eq_weight, Term.size_eq_weight, weight_proc]

end SyntaxTree

end Guardedness
