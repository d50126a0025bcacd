import Guardedness.Proofs.Check.Agreement

/-!
# Guardedness, binder by binder

A check carries a set of exposed names down a process, and forgets the whole set at every action.
What it finds out can be said without such a set, by looking at each variable and at the nodes above
it.

**A variable is covered** (`Covered`) in one of two ways. If a recursion above it has its name, the
innermost of these binds it, and then an action has to stand between the two. If none has, it is
free, and then an action has to stand above it in case it is exposed from outside.

**The two agree** because an exposed name has a witness among the nodes above (`covered_iff`). One
walk down keeps that in step with the set of the check (`guarded_at`, `IsAt.exists_exposedAt`).
-/

namespace Guardedness

namespace Proc

/-- The variable `x`, with the nodes `above` it, the innermost first, is covered by an action, if
`exposed` are exposed at the root. -/
structure Covered (exposed : NameSet) (x : String) (above : List (Node String)) : Prop where
  bound : ∀ inner outer, above = inner ++ .fix x :: outer → .fix x ∉ inner →
    ∃ n ∈ inner, n.kind = .act
  free : .fix x ∉ above → x ∈ exposed → ∃ n ∈ above, n.kind = .act

/-- The process with its names changed, each by the function for the kind of its node. -/
def rename (f : Node.Kind → String → String) : Proc → Proc
  | .nil => .nil
  | .var x => .var (f .var x)
  | .act a p => .act (f .act a) (rename f p)
  | .fix x p => .fix (f .fix x) (rename f p)
  | .par p q => .par (rename f p) (rename f q)
  | .sum p q => .sum (rename f p) (rename f q)
  | .res p a => .res (rename f p) (f .res a)
  | .rel p g => .rel (rename f p) (f .rel g)

variable {exposed below : NameSet} {p q r : Proc} {place : Place} {x : String}

/-! ## Exposed and covered -/

/-- If no action separates some recursion of a name from a place, none separates the innermost one
from it. -/
theorem mem_aboveUncovered : .fix x ∈ p.aboveUncovered place ↔
    ∃ inner outer, p.above place = inner ++ .fix x :: outer ∧ .fix x ∉ inner ∧
      ∀ n ∈ inner, n.kind ≠ .act := by
  unfold aboveUncovered
  generalize p.above place = above
  constructor
  · intro h
    obtain ⟨inner, outer, hsplit, hinner⟩ := List.eq_append_cons_of_mem h
    refine ⟨inner, outer ++ above.dropWhile (·.kind ≠ .act), ?_, hinner, ?_⟩
    · calc above = above.takeWhile (·.kind ≠ .act) ++ above.dropWhile (·.kind ≠ .act) :=
            List.takeWhile_append_dropWhile.symm
        _ = _ := by rw [hsplit, List.append_assoc, List.cons_append]
    · intro n hn
      have hmem : n ∈ above.takeWhile (·.kind ≠ .act) := by
        rw [hsplit]
        exact List.mem_append_left _ hn
      exact of_decide_eq_true (List.all_eq_true.mp List.all_takeWhile n hmem)
  · rintro ⟨inner, outer, rfl, -, hact⟩
    rw [List.takeWhile_append_of_pos (by simpa using hact), List.takeWhile_cons_of_pos (by rfl)]
    simp

/-- A variable is covered where its name is not exposed. -/
theorem covered_iff : Covered exposed x (p.above place) ↔ ¬ExposedAt exposed p place x := by
  rw [ExposedAt, mem_aboveUncovered]
  generalize p.above place = above
  constructor
  · rintro ⟨bound, free⟩ (⟨inner, outer, hsplit, hinner, hact⟩ | ⟨hact, hx⟩)
    · obtain ⟨n, hn, hkind⟩ := bound inner outer hsplit hinner
      exact hact n hn hkind
    · by_cases hmem : .fix x ∈ above
      · obtain ⟨inner, outer, hsplit, hinner⟩ := List.eq_append_cons_of_mem hmem
        obtain ⟨n, hn, hkind⟩ := bound inner outer hsplit hinner
        exact hact n (by simp [hsplit, hn]) hkind
      · obtain ⟨n, hn, hkind⟩ := free hmem hx
        exact hact n hn hkind
  · intro h
    constructor
    · intro inner outer hsplit hinner
      apply Classical.byContradiction
      intro hact
      exact h (.inl ⟨inner, outer, hsplit, hinner, fun n hn hkind => hact ⟨n, hn, hkind⟩⟩)
    · intro _ hx
      apply Classical.byContradiction
      intro hact
      exact h (.inr ⟨fun n hn hkind => hact ⟨n, hn, hkind⟩, hx⟩)

/-! ## Down a process -/

/-- A node below, and what is exposed at it. -/
structure IsAt (exposed : NameSet) (p : Proc) (place : Place) (q : Proc) (below : NameSet) :
    Prop where
  at_eq : p.at? place = some q
  mem_iff : ∀ x, x ∈ below ↔ ExposedAt exposed p place x

theorem isAt_nil : IsAt exposed p [] p exposed := ⟨rfl, fun _ => exposedAt_nil.symm⟩

theorem IsAt.child (h : IsAt exposed p place q below) (side : Side)
    (hr : q.child? side = some r) : IsAt exposed p (side :: place) r (q.exposedBelow below) :=
  ⟨(at?_cons h.at_eq).trans hr, fun _ => (exposedAt_cons h.at_eq h.mem_iff).symm⟩

theorem guarded_var : guarded exposed (.var x) = true ↔ x ∉ exposed := by
  rw [guarded, Bool.not_eq_true', ← Bool.not_eq_true, NameSet.contains_iff]

theorem guarded_child {side : Side} (hp : p.guarded exposed = true) (hq : p.child? side = some q) :
    q.guarded (p.exposedBelow exposed) = true := by
  cases p with
  | nil | var x => cases side <;> cases hq
  | act a p | fix x p | res p a | rel p f =>
    cases side with
    | left => cases hq; exact hp
    | right => cases hq
  | par p q | sum p q =>
    obtain ⟨hleft, hright⟩ := Bool.and_eq_true_iff.mp hp
    cases side with
    | left => cases hq; exact hleft
    | right => cases hq; exact hright

/-- What is below a node of a guarded process is guarded under what is exposed there. -/
theorem guarded_at (hp : p.guarded exposed = true) (h : p.at? place = some q) :
    ∃ below, IsAt exposed p place q below ∧ q.guarded below = true := by
  induction place generalizing q with
  | nil =>
    cases h
    exact ⟨exposed, isAt_nil, hp⟩
  | cons side place ih =>
    obtain ⟨r, hr, hq⟩ := Option.bind_eq_some_iff.mp h
    obtain ⟨below, hbelow, hguarded⟩ := ih hr
    exact ⟨_, hbelow.child side hq, guarded_child hguarded hq⟩

theorem IsAt.exists_exposedAt (h : IsAt exposed p place q below) (hq : q.guarded below ≠ true) :
    ∃ place x, p.at? place = some (.var x) ∧ ExposedAt exposed p place x := by
  induction q generalizing place below with
  | nil => exact absurd rfl hq
  | var x =>
    have hx : x ∈ below := Decidable.of_not_not (mt guarded_var.mpr hq)
    exact ⟨place, x, h.at_eq, (h.mem_iff x).mp hx⟩
  | act a r ih | fix y r ih | res r a ih | rel r f ih => exact ih (h.child .left rfl) hq
  | par r s ihr ihs | sum r s ihr ihs =>
    by_cases hr : guarded below r = true
    · have hs : guarded below s ≠ true := by simpa [guarded, hr] using hq
      exact ihs (h.child .right rfl) hs
    · exact ihr (h.child .left rfl) hr

/-- A process is guarded when each of its variables is covered. -/
theorem guarded_iff_covered : p.guarded exposed = true ↔
    ∀ place x, p.at? place = some (.var x) → Covered exposed x (p.above place) := by
  constructor
  · intro hp place x h
    obtain ⟨below, hbelow, hguarded⟩ := guarded_at hp h
    rw [covered_iff, ← hbelow.mem_iff x]
    exact guarded_var.mp hguarded
  · intro h
    refine Decidable.of_not_not ?_
    intro hp
    obtain ⟨place, x, hplace, hexposed⟩ := isAt_nil.exists_exposedAt hp
    exact covered_iff.mp (h place x hplace) hexposed

theorem guarded_rename {f : Node.Kind → String → String} (hvar : ∀ x, f .var x = x)
    (hfix : ∀ x, f .fix x = x) : (p.rename f).guarded exposed = p.guarded exposed := by
  induction p generalizing exposed with
  | nil => rfl
  | var x => rw [rename, hvar]
  | fix x p ih => rw [rename, hfix, guarded, guarded, ih]
  | par p q ihp ihq | sum p q ihp ihq => rw [rename, guarded, guarded, ihp, ihq]
  | act a p ih | res p a ih | rel p g ih => rw [rename, guarded, guarded, ih]

/-- **A check answers *yes* just when every variable is covered: by an action between it and the
recursion that binds it, or, if it is free and exposed from outside, by any action above it. The
names of actions, restrictions and relabellings take no part in this.** -/
theorem checkUnder_true_iff_covered (settings : CheckSettings) (schedule : Schedule)
    (exposed : NameSet) (p : Proc) :
    (∃ b, p.checkUnder settings schedule exposed = .ok b) ∧
      (p.checkUnder settings schedule exposed = .ok true ↔
        ∀ place x, p.at? place = some (.var x) → Covered exposed x (p.above place)) ∧
      ∀ f : Node.Kind → String → String, (∀ x, f .var x = x) → (∀ x, f .fix x = x) →
        (p.rename f).checkUnder settings schedule exposed =
          p.checkUnder settings schedule exposed := by
  refine ⟨⟨_, checkUnder_eq settings schedule exposed p⟩, ?_, ?_⟩
  · rw [checkUnder_eq, Except.ok.injEq]
    exact guarded_iff_covered
  · intro f hvar hfix
    rw [checkUnder_eq, checkUnder_eq, guarded_rename hvar hfix]

/-- In `rec x. (a.x)\x` the variable is covered, and the restriction may as well be one of `c`. In
`rec x. a.rec x. x` the inner recursion binds the variable, which is not covered. -/
theorem checkUnder_true_iff_covered_of_shadowed :
    (∀ place x, at? (.fix "x" (.res (.act "a" (.var "x")) "x")) place = some (.var x) →
      Covered ∅ x (above (.fix "x" (.res (.act "a" (.var "x")) "x")) place)) ∧
      checkUnder {} default ∅ (.fix "x" (.res (.act "a" (.var "x")) "c")) =
        checkUnder {} default ∅ (.fix "x" (.res (.act "a" (.var "x")) "x")) ∧
      checkUnder {} default ∅ (.fix "x" (.act "a" (.fix "x" (.var "x")))) ≠ .ok true := by
  refine ⟨?_, ?_, ?_⟩
  · exact (checkUnder_true_iff_covered {} default ∅ _).2.1.mp (checkUnder_eq ..)
  · have h := (checkUnder_true_iff_covered {} default ∅
      (.fix "x" (.res (.act "a" (.var "x")) "x"))).2.2
      (fun kind x => if kind = .res then "c" else x) (fun _ => rfl) (fun _ => rfl)
    exact h
  · intro h
    have hcovered := (checkUnder_true_iff_covered {} default ∅ _).2.1.mp h
    obtain ⟨n, hn, -⟩ := (hcovered [.left, .left, .left] "x" rfl).bound [] _ rfl (by simp)
    cases hn

end Proc

end Guardedness
