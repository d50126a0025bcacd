import Guardedness.Proofs.Check.Exposure
import Mathlib.Data.Set.Function
import Mathlib.Logic.Equiv.Basic

/-!
# Names of different sorts

All nodes that have a name keep it in the same place, and the kind of a node says what the name is.
The same text may stand for a variable, an action, a restricted label and a relabelling in one
process.

**Sorts** (`Renaming`). A renaming changes the names of each sort by a function of its own.
Variables, the recursions that bind them and the names that a caller exposes are of one sort.

**What a renaming does to an answer.** Only the sort of variables matters. If two variables are
merged, a recursion may come to bind one that it did not bind before, so the answer can turn from
*yes* to *no*, but never the other way (`guarded_of_rename`); if none are, it stays as it is
(`guarded_rename_of_injOn`).
-/

namespace Guardedness

def NameSet.map (r : String → String) (s : NameSet) : NameSet := .ofList (s.toList.map r)

@[simp] theorem NameSet.mem_map {r : String → String} {s : NameSet} {y : String} :
    y ∈ s.map r ↔ ∃ x ∈ s, r x = y :=
  mem_ofList.trans List.mem_map

/-- A function for each sort of name. -/
structure Renaming where
  /-- For variables, and for recursions, which bind them. -/
  var : String → String
  act : String → String
  res : String → String
  rel : String → String

/-- The function for the name of a node, by the kind of the node. -/
def Renaming.ofKind (ρ : Renaming) : Node.Kind → String → String
  | .var | .fix => ρ.var
  | .act => ρ.act
  | .res => ρ.res
  | .rel => ρ.rel
  | .nil | .sum | .par => id

namespace Proc

/-- The names of the variables and of the recursions. -/
def variableNames : Proc → List String
  | .nil => []
  | .var x => [x]
  | .fix x p => x :: variableNames p
  | .act _ p | .res p _ | .rel p _ => variableNames p
  | .par p q | .sum p q => variableNames p ++ variableNames q

variable {ρ : Renaming} {exposed renamed : NameSet} {p : Proc} {x : String}

/-- If the renamed process is guarded where at least the renamed names are exposed, then so is the
process where the names are. -/
theorem guarded_of_rename (hexposed : ∀ x ∈ exposed, ρ.var x ∈ renamed)
    (h : (p.rename ρ.ofKind).guarded renamed = true) : p.guarded exposed = true := by
  induction p generalizing exposed renamed with
  | nil => rfl
  | var x => exact guarded_var.mpr fun hx => guarded_var.mp h (hexposed x hx)
  | act a p ih =>
    have hbody : guarded ∅ (rename ρ.ofKind p) = true := h
    exact ih (fun x hx => absurd hx (NameSet.not_mem_empty x)) hbody
  | fix y p ih =>
    have hbody : guarded (renamed.insert (ρ.var y)) (rename ρ.ofKind p) = true := h
    refine ih ?_ hbody
    intro x hx
    obtain rfl | hx := NameSet.mem_insert.mp hx
    · exact NameSet.mem_insert.mpr (.inl rfl)
    · exact NameSet.mem_insert.mpr (.inr (hexposed x hx))
  | par p q ihp ihq | sum p q ihp ihq =>
    obtain ⟨hp, hq⟩ := Bool.and_eq_true_iff.mp h
    exact Bool.and_eq_true_iff.mpr ⟨ihp hexposed hp, ihq hexposed hq⟩
  | res p a ih | rel p f ih => exact ih hexposed h

/-- If the process is guarded, then so is the renamed one, where no two variables are merged and no
variable is exposed only because it is renamed. -/
theorem guarded_rename_of_injOn (hinj : Set.InjOn ρ.var {x | x ∈ variableNames p})
    (hexposed : ∀ x ∈ variableNames p, ρ.var x ∈ renamed → x ∈ exposed)
    (h : p.guarded exposed = true) : (p.rename ρ.ofKind).guarded renamed = true := by
  induction p generalizing exposed renamed with
  | nil => rfl
  | var x =>
    refine guarded_var.mpr fun hx => guarded_var.mp h ?_
    exact hexposed x (List.mem_singleton_self x) hx
  | act a p ih =>
    have hbody : guarded ∅ p = true := h
    exact ih hinj (fun x _ hx => absurd hx (NameSet.not_mem_empty _)) hbody
  | fix y p ih =>
    have hbody : ∀ x ∈ variableNames p, x ∈ variableNames (.fix y p) :=
      fun x => List.mem_cons_of_mem y
    have hp : guarded (exposed.insert y) p = true := h
    refine ih (hinj.mono hbody) ?_ hp
    intro x hx hmem
    obtain hxy | hmem := NameSet.mem_insert.mp hmem
    -- If a variable becomes the one that is bound here, it was that one before.
    · exact NameSet.mem_insert.mpr (.inl (hinj (hbody x hx) List.mem_cons_self hxy))
    · exact NameSet.mem_insert.mpr (.inr (hexposed x (hbody x hx) hmem))
  | par p q ihp ihq | sum p q ihp ihq =>
    obtain ⟨hp, hq⟩ := Bool.and_eq_true_iff.mp h
    have hleft : ∀ x ∈ variableNames p, x ∈ variableNames (.par p q) :=
      fun x => List.mem_append_left _
    have hright : ∀ x ∈ variableNames q, x ∈ variableNames (.par p q) :=
      fun x => List.mem_append_right _
    exact Bool.and_eq_true_iff.mpr
      ⟨ihp (hinj.mono hleft) (fun x hx => hexposed x (hleft x hx)) hp,
        ihq (hinj.mono hright) (fun x hx => hexposed x (hright x hx)) hq⟩
  | res p a ih | rel p f ih => exact ih hinj hexposed h

/-- **A check looks at a name only for what it is at its node. The names of actions, restrictions
and relabellings may be changed in any way. Where the names of variables and recursions and the
exposed names are changed too, a process that is found guarded afterwards was so before, and if no
two of these names become the same, the answer is the same.** -/
theorem answers_rename (ρ : Renaming) (exposed : NameSet) (p : Proc) :
    ∃ b b', Answers exposed p b ∧ Answers (exposed.map ρ.var) (p.rename ρ.ofKind) b' ∧
      (b' = true → b = true) ∧
      (Set.InjOn ρ.var {x | x ∈ variableNames p ∨ x ∈ exposed} → b' = b) := by
  have himage : ∀ x ∈ exposed, ρ.var x ∈ exposed.map ρ.var :=
    fun x hx => NameSet.mem_map.mpr ⟨x, hx, rfl⟩
  refine ⟨_, _, answers_iff.mpr rfl, answers_iff.mpr rfl, guarded_of_rename himage, ?_⟩
  intro hinj
  rw [Bool.eq_iff_iff]
  refine ⟨guarded_of_rename himage, guarded_rename_of_injOn (hinj.mono fun x => .inl) ?_⟩
  intro x hx hmem
  obtain ⟨y, hy, hyx⟩ := NameSet.mem_map.mp hmem
  rw [← hinj (.inr hy) (.inl hx) hyx]
  exact hy

/-- In `rec x. ((x.x)\x | x)`, where `y` is exposed, the two variables change places and the other
names become `a` and `b`. And since `rec x. a.x` is guarded, so is `rec y. a.x`. -/
theorem answers_rename_of_swap :
    (∃ b, Answers (.ofList ["y"])
        (.fix "x" (.par (.res (.act "x" (.var "x")) "x") (.var "x"))) b ∧
      Answers (.ofList ["x"]) (.fix "y" (.par (.res (.act "a" (.var "y")) "b") (.var "y"))) b) ∧
      Answers ∅ (.fix "y" (.act "a" (.var "x"))) true := by
  constructor
  · obtain ⟨b, b', hb, hb', -, heq⟩ :=
      answers_rename ⟨Equiv.swap "x" "y", fun _ => "a", fun _ => "b", id⟩ (.ofList ["y"])
        (.fix "x" (.par (.res (.act "x" (.var "x")) "x") (.var "x")))
    obtain rfl := heq (Equiv.swap "x" "y").injective.injOn
    exact ⟨b', hb, hb'⟩
  · obtain ⟨b, b', hb, hb', hmono, -⟩ :=
      answers_rename ⟨fun _ => "x", id, id, id⟩ ∅ (.fix "y" (.act "a" (.var "x")))
    obtain rfl : true = b' := answers_iff.mp hb'
    obtain rfl := hmono rfl
    exact hb

end Proc

end Guardedness
