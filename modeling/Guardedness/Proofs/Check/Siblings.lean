import Guardedness.Proofs.Check.Exposure
import Guardedness.Proofs.Check.Progress

/-!
# Branches that know nothing of each other

A check takes the branches of a process in whatever order they come, copies the exposed names for
each of them, and passes through restrictions and relabellings. So there is much about a process
that its answer cannot depend on.

**Similar processes** (`Similar`). What makes no difference is put into laws (`Law`), which may be
applied anywhere and any number of times, since what is around a process takes equal answers to
equal ones.

**Siblings** (`guarded_fillAll`). The answer of a process with two branches somewhere in it is that
of the process with the one and that of the process with the other branch there, taken together.
-/

namespace Guardedness

namespace Term

variable {ν : Type*}

/-- The term with `t` in the hole. -/
def Hole.fill (t : Term ν) : Hole ν ν → Term ν
  | act a => .act a t
  | fix x => .fix x t
  | res a => .res t a
  | rel f => .rel t f
  | parLeft q => .par t q
  | parRight p => .par p t
  | sumLeft q => .sum t q
  | sumRight p => .sum p t

/-- The term with `t` in all the holes, the innermost first. -/
def fillAll (holes : List (Hole ν ν)) (t : Term ν) : Term ν := holes.foldl Hole.fill t

end Term

theorem Tasks.Reachable.exposed_beq {exposed : NameSet} {p p' : Proc} {hasty hasty' : Bool}
    {s s' : Tasks.State} {t t' : Tasks.Task} (h : Tasks.Reachable hasty exposed p s)
    (h' : Tasks.Reachable hasty' exposed p' s') (ht : t ∈ s.tasks) (ht' : t' ∈ s'.tasks)
    (habove : p.above t.place = p'.above t'.place) : (t.exposed == t'.exposed) = true := by
  obtain ⟨i, hi⟩ := Array.getElem?_of_mem ht
  obtain ⟨j, hj⟩ := Array.getElem?_of_mem ht'
  refine NameSet.beq_iff.mpr fun x => ?_
  rw [(h.sound.tasks i t hi).exposed x, (h'.sound.tasks j t' hj).exposed x, Proc.ExposedAt,
    Proc.ExposedAt, Proc.aboveUncovered, Proc.aboveUncovered, habove]

namespace Proc

open Term (Hole fillAll)
open Tasks (Reachable)

/-- What makes no difference to an answer. -/
inductive Law : Proc → Proc → Prop
  | comm (p q : Proc) : Law (.sum p q) (.sum q p)
  | par (p q : Proc) : Law (.sum p q) (.par p q)
  | assoc (p q r : Proc) : Law (.sum (.sum p q) r) (.sum p (.sum q r))
  | self (p : Proc) : Law (.sum p p) p
  | nil (p : Proc) : Law (.sum p .nil) p
  | res (p : Proc) (a : String) : Law (.res p a) p
  | rel (p : Proc) (f : String) : Law (.rel p f) p
  | fix (x y : String) (p : Proc) : Law (.fix x (.fix y p)) (.fix y (.fix x p))

/-- The least congruence with these laws. -/
inductive Similar : Proc → Proc → Prop
  | law {p q : Proc} : Law p q → Similar p q
  | refl (p : Proc) : Similar p p
  | symm {p q : Proc} : Similar p q → Similar q p
  | trans {p q r : Proc} : Similar p q → Similar q r → Similar p r
  | within {p q : Proc} (hole : Hole String String) : Similar p q →
    Similar (hole.fill p) (hole.fill q)

variable {exposed : NameSet} {p q r : Proc}

theorem Law.guarded_eq (h : Law p q) : p.guarded exposed = q.guarded exposed := by
  cases h with
  | comm p q => exact Bool.and_comm _ _
  | par p q => rfl
  | assoc p q r => exact Bool.and_assoc _ _ _
  | self p => exact Bool.and_self _
  | nil p => exact Bool.and_true _
  | res p a | rel p f => rfl
  | fix x y p =>
    refine guarded_congr (p := p) fun z _ => ?_
    simp only [NameSet.mem_insert, or_left_comm]

/-- What is around a process takes answers together that are taken together in it. -/
theorem guarded_fill (h : ∀ exposed, p.guarded exposed = (q.guarded exposed && r.guarded exposed))
    (hole : Hole String String) (exposed : NameSet) : guarded exposed (hole.fill p) =
      (guarded exposed (hole.fill q) && guarded exposed (hole.fill r)) := by
  cases hole with
  | act a | fix x | res a | rel f => exact h _
  | parLeft s | sumLeft s =>
    simp only [Hole.fill, guarded, h]
    cases guarded exposed s <;> simp
  | parRight s | sumRight s =>
    simp only [Hole.fill, guarded, h]
    cases guarded exposed s <;> simp

theorem guarded_fillAll
    (h : ∀ exposed, p.guarded exposed = (q.guarded exposed && r.guarded exposed))
    (holes : List (Hole String String)) (exposed : NameSet) : guarded exposed (fillAll holes p) =
      (guarded exposed (fillAll holes q) && guarded exposed (fillAll holes r)) := by
  induction holes generalizing p q r with
  | nil => exact h exposed
  | cons hole holes ih => exact ih (guarded_fill h hole)

/-- Similar processes are guarded under the same sets. -/
theorem Similar.guarded_eq (h : Similar p q) (exposed : NameSet) :
    p.guarded exposed = q.guarded exposed := by
  induction h generalizing exposed with
  | law h => exact h.guarded_eq
  | refl p => rfl
  | symm _ ih => exact (ih exposed).symm
  | trans _ _ ih ih' => exact (ih exposed).trans (ih' exposed)
  | within hole _ ih =>
    have h := guarded_fill (fun exposed => (ih exposed).trans (Bool.and_self _).symm) hole exposed
    rwa [Bool.and_self] at h

/-- **Similar processes get the same answer, in whatever way they are checked and in whatever order
the events of a check by tasks happen. And no branch sees what is bound in another one: the answer
of a process with two branches is that of the process with either of them alone, taken together, and
tasks with the same nodes above them hold the same exposed names, whatever stands beside these
nodes.** -/
theorem answers_of_similar :
    (∀ p q, Similar p q → ∀ exposed, ∃ b, Answers exposed p b ∧ Answers exposed q b ∧
      ∀ hasty s, Reachable hasty exposed p s ∨ Reachable hasty exposed q s → s.Quiet →
        s.received = some (.ok b)) ∧
    (∀ holes exposed q r a b,
      Answers exposed (fillAll holes q) a → Answers exposed (fillAll holes r) b →
        Answers exposed (fillAll holes (.par q r)) (a && b) ∧
          Answers exposed (fillAll holes (.sum q r)) (a && b)) ∧
    ∀ exposed p q hasty hasty' s s', Reachable hasty exposed p s → Reachable hasty' exposed q s' →
      ∀ t ∈ s.tasks, ∀ t' ∈ s'.tasks, p.above t.place = q.above t'.place →
        (t.exposed == t'.exposed) = true := by
  refine ⟨?_, ?_, ?_⟩
  · intro p q h exposed
    have heq := h.guarded_eq exposed
    refine ⟨p.guarded exposed, answers_iff.mpr rfl, answers_iff.mpr heq.symm, ?_⟩
    rintro hasty s (hs | hs) quiet
    · exact hs.sound.received_of_quiet quiet
    · rw [heq]
      exact hs.sound.received_of_quiet quiet
  · intro holes exposed q r a b hq hr
    obtain rfl := answers_iff.mp hq
    obtain rfl := answers_iff.mp hr
    exact ⟨answers_iff.mpr (guarded_fillAll (fun _ => rfl) holes exposed),
      answers_iff.mpr (guarded_fillAll (fun _ => rfl) holes exposed)⟩
  · intro exposed p q hasty hasty' s s' hs hs' t ht t' ht' habove
    exact hs.exposed_beq hs' ht ht' habove

/-- In `rec x. rec y. (x + a.nil)` the recursions and the branches may change places, and `nil` may
be restricted. The left branch of `a.(rec x. b.x | x)` binds `x`, and the right one is free to use
it. -/
theorem answers_of_similar_of_swapped :
    (∃ b, Answers ∅ (.fix "x" (.fix "y" (.sum (.var "x") (.act "a" .nil)))) b ∧
      Answers ∅ (.fix "y" (.fix "x" (.sum (.act "a" (.res .nil "b")) (.var "x")))) b) ∧
    Answers ∅ (.act "a" (.par (.fix "x" (.act "b" (.var "x"))) (.var "x"))) true ∧
    ∃ s s' t t', Reachable false ∅ (.par (.fix "x" (.var "x")) (.var "x")) s ∧
      Reachable false ∅ (.par .nil (.var "x")) s' ∧ s.tasks[2]? = some t ∧ s'.tasks[2]? = some t' ∧
      (t.exposed == t'.exposed) = true := by
  obtain ⟨same, siblings, tasks⟩ := answers_of_similar
  refine ⟨?_, ?_, ?_⟩
  · have hnil : Similar (.act "a" .nil) (.act "a" (.res .nil "b")) :=
      (Similar.law (.res .nil "b")).symm.within (.act "a")
    have hsum : Similar (.sum (.var "x") (.act "a" .nil))
        (.sum (.act "a" (.res .nil "b")) (.var "x")) :=
      (Similar.law (.comm _ _)).trans (hnil.within (.sumLeft (.var "x")))
    obtain ⟨b, hb, hb', -⟩ :=
      same _ _ ((Similar.law (.fix "x" "y" _)).trans ((hsum.within (.fix "x")).within (.fix "y"))) ∅
    exact ⟨b, hb, hb'⟩
  · exact (siblings [.act "a"] ∅ (.fix "x" (.act "b" (.var "x"))) (.var "x") true true
      (answers_iff.mpr rfl) (answers_iff.mpr rfl)).1
  · have h := Reachable.follow
      (.initial : Reachable false ∅ (.par (.fix "x" (.var "x")) (.var "x")) _)
      [.start 0, .start 1] rfl
    have h' := Reachable.follow (.initial : Reachable false ∅ (.par .nil (.var "x")) _)
      [.start 0] rfl
    exact ⟨_, _, _, _, h, h', rfl, rfl, tasks _ _ _ _ _ _ _ h h'
      _ (Array.mem_of_getElem? (i := 2) rfl) _ (Array.mem_of_getElem? (i := 2) rfl) rfl⟩

end Proc

end Guardedness
