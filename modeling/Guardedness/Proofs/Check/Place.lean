import Guardedness.Check.Need
import Guardedness.Check.Schedule

/-!
# Ways down a process

What is exposed at a node depends on the nodes above it and on nothing else: on the recursions that
no action separates from it, and, if there is no action above it at all, on what is exposed at the
root (`ExposedAt`). Going down by one turn changes this as `exposedBelow` does (`exposedAt_cons`),
so a check, which goes down turn by turn, ends up with just these names.

The places themselves can be listed (`placesFrom`). Below a node there are those of the children
that it needs, and no others.
-/

namespace Guardedness

namespace Proc

/-- The node at a place. -/
def at? (p : Proc) : Place → Option Proc
  | [] => some p
  | side :: place => (p.at? place).bind (·.child? side)

/-- The roots of the nodes above a place, the innermost first. -/
def above (p : Proc) : Place → List (Node String)
  | [] => []
  | _ :: place => ((p.at? place).map Term.node).toList ++ p.above place

/-- The nodes above a place with no action between it and them. -/
def aboveUncovered (p : Proc) (place : Place) : List (Node String) :=
  (p.above place).takeWhile (·.kind ≠ .act)

/-- The name `x` is exposed at a place, if `exposed` are exposed at the root: a recursion binds
it that no action separates from the place, or it is exposed at the root and no action stands
above the place. -/
def ExposedAt (exposed : NameSet) (p : Proc) (place : Place) (x : String) : Prop :=
  .fix x ∈ p.aboveUncovered place ∨ (∀ n ∈ p.above place, n.kind ≠ .act) ∧ x ∈ exposed

variable {exposed below : NameSet} {p q r : Proc} {place lower : Place} {side : Side} {x : String}
  {a : Answer}

theorem at?_cons (h : p.at? place = some q) : p.at? (side :: place) = q.child? side := by
  simp [at?, h]

theorem above_cons (h : p.at? place = some q) :
    p.above (side :: place) = q.node :: p.above place := by
  simp [above, h]

theorem exposedAt_nil : ExposedAt exposed p [] x ↔ x ∈ exposed := by
  simp [ExposedAt, aboveUncovered, above]

theorem exposedAt_cons (h : p.at? place = some q)
    (hb : ∀ x, x ∈ below ↔ ExposedAt exposed p place x) :
    ExposedAt exposed p (side :: place) x ↔ x ∈ q.exposedBelow below := by
  unfold ExposedAt aboveUncovered at hb ⊢
  rw [above_cons h]
  cases q with
  | act a q => simp [Term.node, Node.kind, exposedBelow]
  | fix y q =>
    simp [Term.node, Node.kind, exposedBelow, hb, or_assoc]
  | nil | var y | par q r | sum q r | res q y | rel q y =>
    simp [Term.node, Node.kind, exposedBelow, hb]

/-! ## What the needs of a node say -/

theorem guarded_of_need_nothing {a : Answer} (h : p.need exposed = .nothing a) :
    a = .ok (p.guarded exposed) := by
  cases p <;> cases h <;> rfl

theorem guarded_of_need_only (h : p.need exposed = .only below q) :
    p.guarded exposed = q.guarded below := by
  cases p <;> cases h <;> rfl

theorem guarded_of_need_both (h : p.need exposed = .both below q r) :
    p.guarded exposed = (q.guarded below && r.guarded below) := by
  cases p <;> cases h <;> rfl

theorem below_of_need_only (h : p.need exposed = .only below q) :
    p.child? .left = some q ∧ below = p.exposedBelow exposed := by
  cases p <;> cases h <;> exact ⟨rfl, rfl⟩

theorem below_of_need_both (h : p.need exposed = .both below q r) :
    p.child? .left = some q ∧ p.child? .right = some r ∧ below = p.exposedBelow exposed := by
  cases p <;> cases h <;> exact ⟨rfl, rfl, rfl⟩

/-! ## The places of a process -/

/-- The places of the nodes of a process that stands at `place`. -/
def placesFrom (place : Place) : Proc → List Place
  | .nil | .var _ => [place]
  | .act _ p | .fix _ p | .res p _ | .rel p _ => place :: placesFrom (.left :: place) p
  | .par p q | .sum p q =>
    place :: (placesFrom (.left :: place) p ++ placesFrom (.right :: place) q)

theorem length_placesFrom (place : Place) (p : Proc) :
    (p.placesFrom place).length = p.weight := by
  induction p generalizing place with
  | nil | var => rfl
  | act _ p ih | fix _ p ih | res p _ ih | rel p _ ih => simp [placesFrom, Term.weight, ih]
  | par p q ihp ihq | sum p q ihp ihq => simp [placesFrom, Term.weight, ihp, ihq]

theorem mem_placesFrom_self (place : Place) (p : Proc) : place ∈ p.placesFrom place := by
  cases p <;> simp [placesFrom]

theorem suffix_of_mem_placesFrom (h : lower ∈ p.placesFrom place) : place <:+ lower := by
  induction p generalizing place with
  | nil | var =>
    obtain rfl : lower = place := by simpa [placesFrom] using h
    exact List.suffix_rfl
  | act _ p ih | fix _ p ih | res p _ ih | rel p _ ih =>
    rcases List.mem_cons.mp h with rfl | h
    · exact List.suffix_rfl
    · exact (List.suffix_cons _ _).trans (ih h)
  | par p q ihp ihq | sum p q ihp ihq =>
    rcases List.mem_cons.mp h with rfl | h
    · exact List.suffix_rfl
    · rcases List.mem_append.mp h with h | h
      · exact (List.suffix_cons _ _).trans (ihp h)
      · exact (List.suffix_cons _ _).trans (ihq h)

/-- Nothing below a turn stands at the place where it is taken. -/
theorem not_mem_placesFrom_turn : place ∉ p.placesFrom (side :: place) := by
  intro h
  exact absurd (suffix_of_mem_placesFrom h).length_le (Nat.not_succ_le_self _)

theorem not_mem_placesFrom_right (hp : lower ∈ p.placesFrom (.left :: place)) :
    lower ∉ q.placesFrom (.right :: place) := by
  intro hq
  have suffix := List.suffix_of_suffix_length_le (suffix_of_mem_placesFrom hp)
    (suffix_of_mem_placesFrom hq) (Nat.le_refl _)
  simpa using suffix.eq_of_length rfl

theorem nodup_placesFrom (place : Place) (p : Proc) : (p.placesFrom place).Nodup := by
  induction p generalizing place with
  | nil | var => simp [placesFrom]
  | act _ p ih | fix _ p ih | res p _ ih | rel p _ ih =>
    exact List.nodup_cons.mpr ⟨not_mem_placesFrom_turn, ih _⟩
  | par p q ihp ihq | sum p q ihp ihq =>
    refine List.nodup_cons.mpr ⟨by simp [not_mem_placesFrom_turn], ?_⟩
    refine List.nodup_append.mpr ⟨ihp _, ihq _, ?_⟩
    rintro _ hp _ hq rfl
    exact not_mem_placesFrom_right hp hq

/-- The places below a node are those it needs answers from. -/
theorem placesFrom_of_need_nothing (h : p.need exposed = .nothing a) :
    p.placesFrom place = [place] := by
  cases p <;> cases h <;> rfl

theorem placesFrom_of_need_only (h : p.need exposed = .only below q) :
    p.placesFrom place = place :: q.placesFrom (.left :: place) := by
  cases p <;> cases h <;> rfl

theorem placesFrom_of_need_both (h : p.need exposed = .both below q r) :
    p.placesFrom place =
      place :: (q.placesFrom (.left :: place) ++ r.placesFrom (.right :: place)) := by
  cases p <;> cases h <;> rfl

theorem placesFrom_child (h : p.child? side = some q) :
    q.placesFrom (side :: place) ⊆ p.placesFrom place := by
  cases p <;> cases side <;> cases h <;> simp [placesFrom]

theorem placesFrom_at (h : p.at? place = some q) : q.placesFrom place ⊆ p.placesFrom [] := by
  induction place generalizing q with
  | nil =>
    obtain rfl : p = q := by simpa [at?] using h
    exact List.Subset.refl _
  | cons side place ih =>
    obtain ⟨r, hr, hq⟩ : ∃ r, p.at? place = some r ∧ r.child? side = some q :=
      Option.bind_eq_some_iff.mp h
    exact List.Subset.trans (placesFrom_child hq) (ih hr)

end Proc

end Guardedness
