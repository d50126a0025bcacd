import Guardedness.Proofs.Check.Scope
import Mathlib.Data.Finset.Basic

/-!
# Names that no action covers

A caller may ask for a check under names that are exposed from outside. What it finds out about the
process and what it finds out about these names can be told apart.

**Uncovered names** (`uncovered`). A name is uncovered in a process if it stands there as a free
variable with no action above it (`mem_uncovered_iff`).

**The answer factors** (`guarded_iff_disjoint`). A process is guarded under a set of names when it
is guarded under none and none of them is uncovered in it. The induction is on the process, for all
sets at once. A recursion adds its own name to the set and takes the same name from what is
uncovered in its body; this comes out even also where the name was exposed before.
-/

namespace Guardedness

instance : Union NameSet := ⟨fun s t => .ofList (s.toList ++ t.toList)⟩

@[simp] theorem NameSet.mem_union {s t : NameSet} {x : String} : x ∈ s ∪ t ↔ x ∈ s ∨ x ∈ t :=
  mem_ofList.trans List.mem_append

namespace Proc

/-- The names that have a free occurrence with no action above it. -/
def uncovered : Proc → Finset String
  | .nil => ∅
  | .var x => {x}
  | .act _ _ => ∅
  | .fix x p => (uncovered p).erase x
  | .par p q | .sum p q => uncovered p ∪ uncovered q
  | .res p _ | .rel p _ => uncovered p

/-- None of the nodes `above` binds `x` or is an action. -/
def Bare (x : String) (above : List (Node String)) : Prop :=
  ∀ n ∈ above, n ≠ .fix x ∧ n.kind ≠ .act

/-- Every check of the process comes to the answer `b`, however it is done, if `exposed` are exposed
at the root. -/
def Answers (exposed : NameSet) (p : Proc) (b : Bool) : Prop :=
  ∀ settings schedule, p.checkUnder settings schedule exposed = .ok b

variable {exposed other : NameSet} {p q r : Proc} {place : Place} {side : Side} {x : String}
  {b : Bool}

/-! ## Where an uncovered name stands -/

theorem mem_uncovered_of_child (hchild : p.child? side = some q) (hx : x ∈ uncovered q)
    (hnode : p.node ≠ .fix x ∧ p.node.kind ≠ .act) : x ∈ uncovered p := by
  cases p with
  | nil | var y => cases side <;> cases hchild
  | act a p => exact absurd rfl hnode.2
  | fix y p =>
    cases side with
    | left =>
      cases hchild
      refine Finset.mem_erase.mpr ⟨?_, hx⟩
      rintro rfl
      exact hnode.1 rfl
    | right => cases hchild
  | res p a | rel p f =>
    cases side with
    | left => cases hchild; exact hx
    | right => cases hchild
  | par p q | sum p q =>
    cases side with
    | left => cases hchild; exact Finset.mem_union_left _ hx
    | right => cases hchild; exact Finset.mem_union_right _ hx

theorem mem_uncovered_of_at (hat : p.at? place = some q) (hx : x ∈ uncovered q)
    (habove : Bare x (p.above place)) : x ∈ uncovered p := by
  induction place generalizing q with
  | nil =>
    cases hat
    exact hx
  | cons side place ih =>
    obtain ⟨r, hr, hchild⟩ := Option.bind_eq_some_iff.mp hat
    rw [above_cons hr] at habove
    obtain ⟨hnode, habove⟩ := List.forall_mem_cons.mp habove
    exact ih hr (mem_uncovered_of_child hchild hx hnode) habove

/-- A name that is uncovered below a place stands somewhere below it. -/
theorem exists_at_of_mem_uncovered (hat : p.at? place = some q) (hx : x ∈ uncovered q)
    (habove : Bare x (p.above place)) :
    ∃ place, p.at? place = some (.var x) ∧ Bare x (p.above place) := by
  -- Going down by one turn adds one node to those above.
  have down {place : Place} {q r : Proc} (side : Side) (hat : p.at? place = some q)
      (hchild : q.child? side = some r) (hnode : q.node ≠ .fix x ∧ q.node.kind ≠ .act)
      (habove : Bare x (p.above place)) :
      p.at? (side :: place) = some r ∧ Bare x (p.above (side :: place)) := by
    refine ⟨(at?_cons hat).trans hchild, ?_⟩
    rw [above_cons hat]
    exact List.forall_mem_cons.mpr ⟨hnode, habove⟩
  induction q generalizing place with
  | nil | act a q => exact absurd hx (Finset.notMem_empty x)
  | var y =>
    obtain rfl := Finset.mem_singleton.mp hx
    exact ⟨place, hat, habove⟩
  | fix y q ih =>
    obtain ⟨hne, hx⟩ := Finset.mem_erase.mp hx
    have hnode : Node.fix y ≠ .fix x := by
      rintro ⟨⟩
      exact hne rfl
    obtain ⟨hat, habove⟩ := down .left hat rfl ⟨hnode, nofun⟩ habove
    exact ih hat hx habove
  | res q a ih | rel q f ih =>
    obtain ⟨hat, habove⟩ := down .left hat rfl ⟨nofun, nofun⟩ habove
    exact ih hat hx habove
  | par q r ihq ihr | sum q r ihq ihr =>
    obtain hx | hx := Finset.mem_union.mp hx
    · obtain ⟨hat, habove⟩ := down .left hat rfl ⟨nofun, nofun⟩ habove
      exact ihq hat hx habove
    · obtain ⟨hat, habove⟩ := down .right hat rfl ⟨nofun, nofun⟩ habove
      exact ihr hat hx habove

/-- A name is uncovered just when it stands somewhere with nothing above that binds or covers it. -/
theorem mem_uncovered_iff : x ∈ uncovered p ↔
    ∃ place, p.at? place = some (.var x) ∧ Bare x (p.above place) := by
  constructor
  · intro hx
    have hroot : p.at? [] = some p := rfl
    exact exists_at_of_mem_uncovered hroot hx (List.forall_mem_nil _)
  · rintro ⟨place, hat, habove⟩
    exact mem_uncovered_of_at hat (Finset.mem_singleton_self x) habove

/-! ## The answer factors -/

/-- A process is guarded under a set when it is guarded under none and no name of the set is
uncovered in it. -/
theorem guarded_iff_disjoint (exposed : NameSet) (p : Proc) :
    p.guarded exposed = true ↔ p.guarded ∅ = true ∧ ∀ x ∈ exposed, x ∉ uncovered p := by
  induction p generalizing exposed with
  | nil => simp [guarded, uncovered]
  | var y =>
    rw [guarded_var, guarded_var]
    simp only [uncovered, Finset.mem_singleton, NameSet.not_mem_empty, not_false_iff, true_and]
    exact ⟨fun hy x hx hxy => hy (hxy ▸ hx), fun h hy => h y hy rfl⟩
  | act a p ih => simp [guarded, uncovered]
  | fix y p ih =>
    -- A name that the recursion shadows is exposed in its body on both sides.
    have hshadow : (y ∉ uncovered p ∧ ∀ x ∈ exposed, x ∉ uncovered p) ↔
        y ∉ uncovered p ∧ ∀ x ∈ exposed, x ∉ (uncovered p).erase y := by
      refine and_congr_right fun hy => forall₂_congr fun x _ => not_congr ?_
      rw [Finset.mem_erase]
      refine (and_iff_right_of_imp ?_).symm
      rintro hx rfl
      exact hy hx
    rw [guarded, guarded, ih (exposed.insert y), ih (NameSet.insert ∅ y)]
    simp only [NameSet.mem_insert, NameSet.not_mem_empty, or_false, forall_eq_or_imp, forall_eq]
    rw [hshadow, and_assoc]
    rfl
  | par p q ihp ihq | sum p q ihp ihq =>
    simp only [guarded, uncovered, Bool.and_eq_true, Finset.mem_union, not_or]
    rw [ihp, ihq, and_and_and_comm, ← forall₂_and]
  | res p a ih | rel p f ih => exact ih exposed

/-- Only the uncovered names of a set matter. -/
theorem guarded_congr (h : ∀ x ∈ uncovered p, x ∈ exposed ↔ x ∈ other) :
    p.guarded exposed = p.guarded other := by
  rw [Bool.eq_iff_iff, guarded_iff_disjoint, guarded_iff_disjoint other]
  refine and_congr_right fun _ => forall_congr' fun x => ?_
  rw [← not_and, ← not_and, not_iff_not]
  exact and_congr_left fun hx => h x hx

theorem guarded_union :
    p.guarded (exposed ∪ other) = (p.guarded exposed && p.guarded other) := by
  rw [Bool.eq_iff_iff, Bool.and_eq_true, guarded_iff_disjoint, guarded_iff_disjoint exposed,
    guarded_iff_disjoint other]
  simp only [NameSet.mem_union, or_imp, forall_and]
  rw [← and_and_left]

theorem guarded_anti (h : ∀ x ∈ exposed, x ∈ other) (hp : p.guarded other = true) :
    p.guarded exposed = true := by
  obtain ⟨hempty, hdisjoint⟩ := (guarded_iff_disjoint other p).mp hp
  exact (guarded_iff_disjoint exposed p).mpr ⟨hempty, fun x hx => hdisjoint x (h x hx)⟩

/-! ## What checks find out -/

theorem answers_iff : Answers exposed p b ↔ p.guarded exposed = b := by
  simp only [Answers, checkUnder_eq, Except.ok.injEq]
  exact ⟨fun h => h default default, fun h _ _ => h⟩

/-- **What checks find out about a process under a set of names is what they find out under no
names, and whether a name of the set stands in the process as a free variable with no action above
it. So the answer can only turn from *yes* to *no* when the set grows, two sets together get the
conjunction of their answers, and names that are not uncovered make no difference.** -/
theorem answers_factor (p : Proc) :
    (∀ x, x ∈ uncovered p ↔ ∃ place, p.at? place = some (.var x) ∧ Bare x (p.above place)) ∧
      (∀ exposed, ∃ b, Answers exposed p b) ∧
      (∀ exposed, Answers exposed p true ↔
        Answers ∅ p true ∧ ∀ x ∈ exposed, x ∉ uncovered p) ∧
      (∀ exposed other, (∀ x ∈ exposed, x ∈ other) → Answers other p true →
        Answers exposed p true) ∧
      (∀ exposed other a b, Answers exposed p a → Answers other p b →
        Answers (exposed ∪ other) p (a && b)) ∧
      ∀ exposed other, (∀ x ∈ uncovered p, x ∈ exposed ↔ x ∈ other) →
        ∀ b, Answers exposed p b ↔ Answers other p b := by
  simp only [answers_iff]
  refine ⟨fun _ => mem_uncovered_iff, fun _ => ⟨_, rfl⟩,
    fun exposed => guarded_iff_disjoint exposed p, fun _ _ => guarded_anti, ?_, ?_⟩
  · rintro exposed other _ _ rfl rfl
    exact guarded_union
  · intro exposed other h b
    rw [guarded_congr h]

/-- In `y | a.x` only `y` is uncovered. -/
theorem answers_factor_of_covered :
    Answers (.ofList ["x"]) (.par (.var "y") (.act "a" (.var "x"))) true ∧
      Answers (.ofList ["x"] ∪ .ofList ["y"]) (.par (.var "y") (.act "a" (.var "x"))) false ∧
      Answers (.ofList ["y", "z"]) (.par (.var "y") (.act "a" (.var "x"))) false := by
  obtain ⟨-, -, iff, anti, union, congr⟩ :=
    answers_factor (.par (.var "y") (.act "a" (.var "x")))
  have hempty : Answers ∅ (.par (.var "y") (.act "a" (.var "x"))) true := answers_iff.mpr rfl
  have hxz : Answers (.ofList ["x", "z"]) (.par (.var "y") (.act "a" (.var "x"))) true :=
    (iff _).mpr ⟨hempty, by decide⟩
  have hx := anti (.ofList ["x"]) (.ofList ["x", "z"]) (by simp [NameSet.mem_ofList]) hxz
  have hy : Answers (.ofList ["y"]) (.par (.var "y") (.act "a" (.var "x"))) false :=
    answers_iff.mpr rfl
  refine ⟨hx, union _ _ _ _ hx hy, ?_⟩
  exact (congr (.ofList ["y"]) (.ofList ["y", "z"]) (by decide) false).mp hy

end Proc

end Guardedness
