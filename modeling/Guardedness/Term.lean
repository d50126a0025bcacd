/-!
# Process terms

The terms of the calculus, over any type of names: `nil`, a variable, an action followed by a
term, a recursion that binds a variable, two terms side by side or in a choice, and a term
under a restriction or a relabelling. A term as it was written has names that remember where
they stood; a process has bare names. Both are this one type.

**Depth.** A term may be nested as deeply as its text is long, so every walk over a whole term
here keeps its own list of what is still to be done instead of recursing once per level. What
such a list still holds is measured by `weight`, the number of nodes.
-/

namespace Guardedness

universe u v

/-- The total of some numbers. -/
def total (ns : List Nat) : Nat := ns.foldr (· + ·) 0

@[simp] theorem total_nil : total [] = 0 := rfl

@[simp] theorem total_cons (n : Nat) (ns : List Nat) : total (n :: ns) = n + total ns := rfl

@[simp] theorem total_append (ms ns : List Nat) : total (ms ++ ns) = total ms + total ns := by
  induction ms with
  | nil => simp
  | cons m ms ih => simp [ih, Nat.add_assoc]

/-- Terms over names of type `ν`. -/
inductive Term (ν : Type u) where
  | nil
  | var (x : ν)
  | act (a : ν) (p : Term ν)
  | fix (x : ν) (p : Term ν)
  | par (p q : Term ν)
  | sum (p q : Term ν)
  | res (p : Term ν) (a : ν)
  | rel (p : Term ν) (f : ν)
deriving Repr, Inhabited

/-- The root of a term without what is below it. -/
inductive Node (ν : Type u) where
  | nil
  | var (x : ν)
  | act (a : ν)
  | fix (x : ν)
  | par
  | sum
  | res (a : ν)
  | rel (f : ν)
deriving BEq, Repr

namespace Term

variable {ν : Type u}

/-- The root. -/
def node : Term ν → Node ν
  | nil => .nil
  | var x => .var x
  | act a _ => .act a
  | fix x _ => .fix x
  | par _ _ => .par
  | sum _ _ => .sum
  | res _ a => .res a
  | rel _ f => .rel f

/-- The terms directly below the root, left before right. -/
def children : Term ν → List (Term ν)
  | nil | var _ => []
  | act _ p | fix _ p | res p _ | rel p _ => [p]
  | par p q | sum p q => [p, q]

/-- The number of nodes. -/
def weight : Term ν → Nat
  | nil | var _ => 1
  | act _ p | fix _ p | res p _ | rel p _ => p.weight + 1
  | par p q | sum p q => p.weight + q.weight + 1

theorem weight_pos (t : Term ν) : 0 < t.weight := by cases t <;> simp [weight]

def totalWeight (ts : List (Term ν)) : Nat := total (ts.map weight)

@[simp] theorem totalWeight_nil : totalWeight ([] : List (Term ν)) = 0 := rfl

@[simp] theorem totalWeight_cons (t : Term ν) (ts : List (Term ν)) :
    totalWeight (t :: ts) = t.weight + totalWeight ts := rfl

@[simp] theorem totalWeight_append (ss ts : List (Term ν)) :
    totalWeight (ss ++ ts) = totalWeight ss + totalWeight ts := by
  simp [totalWeight]

theorem weight_eq (t : Term ν) : t.weight = totalWeight t.children + 1 := by
  cases t <;> simp [weight, children]

/-! ## Nodes -/

/-- List the nodes of pending terms onto `acc`. -/
def nodesOnto : List (Term ν) → Array (Node ν) → Array (Node ν)
  | [], acc => acc
  | t :: pending, acc => nodesOnto (t.children ++ pending) (acc.push t.node)
termination_by pending => totalWeight pending
decreasing_by simp [weight_eq t]

/-- The nodes of a term, each before those below it and left before right. -/
def nodes (t : Term ν) : List (Node ν) := (nodesOnto [t] #[]).toList

/-- Count the nodes of pending terms onto `n`. -/
def countOnto : List (Term ν) → Nat → Nat
  | [], n => n
  | t :: pending, n => countOnto (t.children ++ pending) (n + 1)
termination_by pending => totalWeight pending
decreasing_by simp [weight_eq t]

/-- The number of nodes, counted without recursion into the term. -/
def size (t : Term ν) : Nat := countOnto [t] 0

theorem countOnto_eq (pending : List (Term ν)) (n : Nat) :
    countOnto pending n = n + totalWeight pending := by
  fun_induction countOnto with
  | case1 n => simp
  | case2 t pending n ih => simp [ih, weight_eq t]; omega

theorem size_eq_weight (t : Term ν) : t.size = t.weight := by simp [size, countOnto_eq]

/-- Two terms are equal when their nodes are, in order. -/
instance [BEq ν] : BEq (Term ν) := ⟨fun s t => s.nodes == t.nodes⟩

/-! ## Changing names -/

/-- What is around a subterm while the names of a term are changed: unfinished nodes, right
operands still to be visited and left operands already done. -/
inductive Hole (α : Type u) (β : Type v) where
  | act (a : β)
  | fix (x : β)
  | res (a : β)
  | rel (f : β)
  | parLeft (q : Term α)
  | parRight (p : Term β)
  | sumLeft (q : Term α)
  | sumRight (p : Term β)

/-- A subterm to be visited, or one that is done. -/
inductive Focus (α : Type u) (β : Type v) where
  | visit (t : Term α)
  | done (t : Term β)

variable {α : Type u} {β : Type v}

/-- The steps that are left for a hole. -/
def Hole.measure : Hole α β → Nat
  | parLeft q | sumLeft q => 2 * q.weight + 1
  | _ => 1

def Focus.measure : Focus α β → Nat
  | visit t => 2 * t.weight
  | done _ => 1

/-- Finish a term from the subterm in focus and the holes around it, the innermost first. -/
def mapWithin (f : α → β) : Focus α β → List (Hole α β) → Term β
  | .visit nil, holes => mapWithin f (.done nil) holes
  | .visit (var x), holes => mapWithin f (.done (var (f x))) holes
  | .visit (act a p), holes => mapWithin f (.visit p) (.act (f a) :: holes)
  | .visit (fix x p), holes => mapWithin f (.visit p) (.fix (f x) :: holes)
  | .visit (res p a), holes => mapWithin f (.visit p) (.res (f a) :: holes)
  | .visit (rel p g), holes => mapWithin f (.visit p) (.rel (f g) :: holes)
  | .visit (par p q), holes => mapWithin f (.visit p) (.parLeft q :: holes)
  | .visit (sum p q), holes => mapWithin f (.visit p) (.sumLeft q :: holes)
  | .done t, [] => t
  | .done t, .act a :: holes => mapWithin f (.done (act a t)) holes
  | .done t, .fix x :: holes => mapWithin f (.done (fix x t)) holes
  | .done t, .res a :: holes => mapWithin f (.done (res t a)) holes
  | .done t, .rel g :: holes => mapWithin f (.done (rel t g)) holes
  | .done t, .parLeft q :: holes => mapWithin f (.visit q) (.parRight t :: holes)
  | .done t, .sumLeft q :: holes => mapWithin f (.visit q) (.sumRight t :: holes)
  | .done t, .parRight p :: holes => mapWithin f (.done (par p t)) holes
  | .done t, .sumRight p :: holes => mapWithin f (.done (sum p t)) holes
termination_by focus holes => focus.measure + total (holes.map Hole.measure)
decreasing_by all_goals simp [Focus.measure, Hole.measure, weight] <;> omega

/-- The term with every name changed by `f`. -/
def map (f : α → β) (t : Term α) : Term β := mapWithin f (.visit t) []

/-- Visiting a subterm finishes it and goes on with the holes around it. -/
theorem mapWithin_visit (f : α → β) (t : Term α) (holes : List (Hole α β)) :
    mapWithin f (.visit t) holes = mapWithin f (.done (t.map f)) holes := by
  have key : ∀ (t : Term α), ∃ t' : Term β, ∀ holes : List (Hole α β),
      mapWithin f (.visit t) holes = mapWithin f (.done t') holes := by
    intro t
    induction t with
    | nil => exact ⟨nil, fun _ => by rw [mapWithin]⟩
    | var x => exact ⟨var (f x), fun _ => by rw [mapWithin]⟩
    | act a p ih => obtain ⟨p', h⟩ := ih; exact ⟨act (f a) p', fun _ => by simp [mapWithin, h]⟩
    | fix x p ih => obtain ⟨p', h⟩ := ih; exact ⟨fix (f x) p', fun _ => by simp [mapWithin, h]⟩
    | res p a ih => obtain ⟨p', h⟩ := ih; exact ⟨res p' (f a), fun _ => by simp [mapWithin, h]⟩
    | rel p g ih => obtain ⟨p', h⟩ := ih; exact ⟨rel p' (f g), fun _ => by simp [mapWithin, h]⟩
    | par p q ihp ihq =>
      obtain ⟨p', hp⟩ := ihp
      obtain ⟨q', hq⟩ := ihq
      exact ⟨par p' q', fun _ => by simp [mapWithin, hp, hq]⟩
    | sum p q ihp ihq =>
      obtain ⟨p', hp⟩ := ihp
      obtain ⟨q', hq⟩ := ihq
      exact ⟨sum p' q', fun _ => by simp [mapWithin, hp, hq]⟩
  obtain ⟨t', h⟩ := key t
  rw [h, map, h, mapWithin]

@[simp] theorem map_nil (f : α → β) : map f nil = nil := by simp [map, mapWithin]

@[simp] theorem map_var (f : α → β) (x : α) : map f (var x) = var (f x) := by simp [map, mapWithin]

@[simp] theorem map_act (f : α → β) (a : α) (p : Term α) :
    map f (act a p) = act (f a) (p.map f) := by
  rw [map, mapWithin, mapWithin_visit]; simp [mapWithin]

@[simp] theorem map_fix (f : α → β) (x : α) (p : Term α) :
    map f (fix x p) = fix (f x) (p.map f) := by
  rw [map, mapWithin, mapWithin_visit]; simp [mapWithin]

@[simp] theorem map_res (f : α → β) (p : Term α) (a : α) :
    map f (res p a) = res (p.map f) (f a) := by
  rw [map, mapWithin, mapWithin_visit]; simp [mapWithin]

@[simp] theorem map_rel (f : α → β) (p : Term α) (g : α) :
    map f (rel p g) = rel (p.map f) (f g) := by
  rw [map, mapWithin, mapWithin_visit]; simp [mapWithin]

@[simp] theorem map_par (f : α → β) (p q : Term α) : map f (par p q) = par (p.map f) (q.map f) := by
  rw [map, mapWithin, mapWithin_visit]; simp [mapWithin, mapWithin_visit]

@[simp] theorem map_sum (f : α → β) (p q : Term α) : map f (sum p q) = sum (p.map f) (q.map f) := by
  rw [map, mapWithin, mapWithin_visit]; simp [mapWithin, mapWithin_visit]

end Term

end Guardedness
