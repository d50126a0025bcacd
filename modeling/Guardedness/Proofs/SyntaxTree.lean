import Guardedness.Proc

/-!
# Trees that differ only in where their names stand

Two terms are equal when their nodes are, and these are when they are of one kind and have equal
names (`Term.beq_iff_map`). The places of names are not compared. So equal syntax trees are those
that stand for the same process (`SyntaxTree.beq_iff`), and they have the same text
(`SyntaxTree.render_congr`).
-/

namespace Guardedness

universe u v

variable {α : Type u} {β : Type v}

def Node.map (f : α → β) : Node α → Node β
  | nil => .nil
  | var x => .var (f x)
  | act a => .act (f a)
  | fix x => .fix (f x)
  | par => .par
  | sum => .sum
  | res a => .res (f a)
  | rel g => .rel (f g)

theorem Node.arity_map (f : α → β) (n : Node α) : (n.map f).arity = n.arity := by cases n <;> rfl

theorem Node.beq_iff [BEq α] {f : α → β} (hf : ∀ x y, (x == y) = true ↔ f x = f y) {m n : Node α} :
    (m == n) = true ↔ m.map f = n.map f := by
  cases m <;> cases n <;>
    first
    | exact iff_of_true rfl rfl
    | exact iff_of_false (by rintro ⟨⟩) (by rintro ⟨⟩)
    | exact (hf _ _).trans (by simp [Node.map])

namespace Term

def names : Term α → List α
  | nil => []
  | var x => [x]
  | act a p => a :: p.names
  | fix x p => x :: p.names
  | par p q | sum p q => p.names ++ q.names
  | res p a => p.names ++ [a]
  | rel p f => p.names ++ [f]

theorem names_map (f : α → β) (t : Term α) : (t.map f).names = t.names.map f := by
  induction t with
  | nil => simp [names]
  | var x => simp [names]
  | act a p ih => simp [names, ih]
  | fix x p ih => simp [names, ih]
  | par p q ihp ihq => simp [names, ihp, ihq]
  | sum p q ihp ihq => simp [names, ihp, ihq]
  | res p a ih => simp [names, ih]
  | rel p g ih => simp [names, ih]

theorem node_map (f : α → β) (t : Term α) : (t.map f).node = t.node.map f := by
  cases t <;> simp [node, Node.map]

theorem children_map (f : α → β) (t : Term α) : (t.map f).children = t.children.map (map f) := by
  cases t <;> simp [children]

/-- A term is its root and what is below it. -/
theorem eq_iff_node_children {s t : Term α} :
    s = t ↔ s.node = t.node ∧ s.children = t.children := by
  constructor
  · rintro rfl
    exact ⟨rfl, rfl⟩
  · rintro ⟨hn, hc⟩
    cases s <;> cases t <;> simp_all [node, children]

theorem isGreedy_map (f : α → β) (t : Term α) : (t.map f).isGreedy = t.isGreedy := by
  cases t <;> simp [isGreedy]

/-- Changing names and then writing is writing with other spellings. -/
theorem render_map (y : Style β) (f : α → β) (t : Term α) :
    (t.map f).render y = t.render ⟨y.spell ∘ f, y.guardOperands⟩ := by
  have operand {p : Term α} (h : (p.map f).render y = p.render ⟨y.spell ∘ f, y.guardOperands⟩) :
      (p.map f).renderOperand y = p.renderOperand ⟨y.spell ∘ f, y.guardOperands⟩ := by
    rw [renderOperand, renderOperand, isGreedy_map, h]
  induction t with
  | nil => rw [map_nil, render_nil, render_nil]
  | var x =>
    rw [map_var, render_var, render_var]
    rfl
  | act a p ih =>
    rw [map_act, render_act, render_act, ih]
    rfl
  | fix x p ih =>
    rw [map_fix, render_fix, render_fix, ih]
    rfl
  | par p q ihp ihq => rw [map_par, render_par, render_par, operand ihp, ihq]
  | sum p q ihp ihq => rw [map_sum, render_sum, render_sum, operand ihp, ihq]
  | res p a ih =>
    rw [map_res, render_res, render_res, operand ih]
    rfl
  | rel p g ih =>
    rw [map_rel, render_rel, render_rel, operand ih]
    rfl

/-! ## Nodes, one after the other -/

/-- The nodes of several terms. -/
def nodesOf (ts : List (Term α)) : List (Node α) := (nodesOnto ts #[]).toList

theorem nodesOnto_toList (ts : List (Term α)) (acc : Array (Node α)) :
    (nodesOnto ts acc).toList = acc.toList ++ nodesOf ts := by
  have key : ∀ (ts : List (Term α)) (acc : Array (Node α)), ∃ ns, ∀ acc' : Array (Node α),
      (nodesOnto ts acc').toList = acc'.toList ++ ns := by
    intro ts acc
    fun_induction nodesOnto ts acc with
    | case1 acc => exact ⟨[], fun acc' => by simp [nodesOnto]⟩
    | case2 t pending acc ih =>
      obtain ⟨ns, h⟩ := ih
      exact ⟨t.node :: ns, fun acc' => by simp [nodesOnto, h]⟩
  obtain ⟨ns, h⟩ := key ts acc
  simp [nodesOf, h]

@[simp] theorem nodesOf_nil : nodesOf ([] : List (Term α)) = [] := by simp [nodesOf, nodesOnto]

@[simp] theorem nodesOf_cons (t : Term α) (ts : List (Term α)) :
    nodesOf (t :: ts) = t.node :: nodesOf (t.children ++ ts) := by
  rw [nodesOf, nodesOnto, nodesOnto_toList]
  simp

theorem map_eq_iff {f : α → β} {s t : Term α} : s.map f = t.map f ↔
    s.node.map f = t.node.map f ∧ s.children.map (map f) = t.children.map (map f) := by
  rw [eq_iff_node_children, node_map, node_map, children_map, children_map]

theorem children_length_eq {f : α → β} {s t : Term α} (h : s.node.map f = t.node.map f) :
    s.children.length = t.children.length := by
  rw [← Node.arity_node, ← Node.arity_node, ← Node.arity_map f s.node, h, Node.arity_map]

/-- Lists of terms have the same nodes when they are the same but for what names are not compared
by. -/
theorem nodesOf_beq_iff [BEq α] {f : α → β} (hf : ∀ x y, (x == y) = true ↔ f x = f y) (n : Nat) :
    ∀ ss ts : List (Term α), totalWeight ss = n →
      ((nodesOf ss == nodesOf ts) = true ↔ ss.map (map f) = ts.map (map f)) := by
  induction n using Nat.strongRecOn with
  | ind n ih =>
    rintro ss ts rfl
    cases ss with
    | nil => cases ts <;> simp
    | cons s ss =>
      cases ts with
      | nil => simp
      | cons t ts =>
        have hless : totalWeight (s.children ++ ss) < totalWeight (s :: ss) := by
          simp [weight_eq s]
        rw [nodesOf_cons, nodesOf_cons, List.cons_beq_cons, Bool.and_eq_true, Node.beq_iff hf,
          ih _ hless _ _ rfl, List.map_append, List.map_append, List.map_cons, List.map_cons,
          List.cons.injEq, map_eq_iff, and_assoc]
        refine and_congr_right ?_
        intro hnode
        constructor
        · intro h
          exact List.append_inj h (by simpa using children_length_eq hnode)
        · rintro ⟨hc, hs⟩
          rw [hc, hs]

theorem beq_iff_map [BEq α] {f : α → β} (hf : ∀ x y, (x == y) = true ↔ f x = f y) {s t : Term α} :
    (s == t) = true ↔ s.map f = t.map f := by
  refine Iff.trans (nodesOf_beq_iff hf _ [s] [t] rfl) ?_
  simp

end Term

namespace SyntaxTree

/-- Trees are equal when they stand for the same process. -/
theorem beq_iff {s t : SyntaxTree} : (s == t) = true ↔ s.proc = t.proc :=
  Term.beq_iff_map fun _ _ => Ident.beq_iff

/-- Trees that stand for the same process have the same text. -/
theorem render_congr {s t : SyntaxTree} (h : s.proc = t.proc) : s.render = t.render := by
  have render_proc (t : SyntaxTree) : t.render = Term.render ⟨id, true⟩ t.proc :=
    (Term.render_map ⟨id, true⟩ Ident.name t).symm
  rw [render_proc, render_proc, h]

/-- The tree whose names stand nowhere stands for the process. -/
theorem proc_map_ofName (p : Proc) : proc (Term.map Ident.ofName p) = p := by
  unfold proc
  induction p with
  | nil | var x => simp [Ident.ofName]
  | act a p ih | fix x p ih => simp [Ident.ofName, ih]
  | par p q ihp ihq | sum p q ihp ihq => simp [ihp, ihq]
  | res p a ih | rel p f ih => simp [Ident.ofName, ih]

theorem names_congr {s t : SyntaxTree} (h : s.proc = t.proc) :
    s.names.map Ident.name = t.names.map Ident.name := by
  rw [← Term.names_map, ← Term.names_map]
  exact congrArg Term.names h

end SyntaxTree

end Guardedness
