import Guardedness.Check
import Guardedness.Proofs.Check.Place
import Guardedness.Proofs.Check.Progress

/-!
# All checks agree

There are three ways to check a process and one definition of what they are to find out, which is
`Proc.guarded`. Each way gets its own account of what it has still to find out at any time.

**Worklist.** The check succeeds when all items on the list are guarded.

**Joined branches.** The answer in hand, or the one the node in hand has to give, goes through all
the nodes that wait, innermost first (`settle`). A node that answers *no* without its second branch
answers what it would have answered with it.

**Tasks.** A run goes on until nothing can happen, and then the caller has the true answer.
-/

namespace Guardedness

open Proc (Answer)

namespace Worklist

variable {i : Item} {below : List Item}

theorem Item.guarded_of_look_none (h : i.look = .ok none) :
    i.node.guarded i.exposed = false := by
  obtain ⟨p, exposed⟩ := i
  cases p with
  | var x =>
    simp only [look_eq] at h
    split at h
    · next hx => simp [Proc.guarded, hx]
    · cases h
  | _ => cases h

theorem Item.guarded_of_look_some (h : i.look = .ok (some below)) :
    i.node.guarded i.exposed = below.all fun j => j.node.guarded j.exposed := by
  obtain ⟨p, exposed⟩ := i
  cases p with
  | var x =>
    simp only [look_eq] at h
    split at h
    · cases h
    · next hx =>
      cases h
      simpa [Proc.guarded, Bool.eq_false_iff] using hx
  | fix x p =>
    cases h
    rw [List.all_cons, List.all_nil, Bool.and_true]
    rfl
  | _ =>
    cases h
    simp [Proc.guarded]

/-- A worklist succeeds when all of its items are guarded. -/
theorem run_eq (items : List Item) :
    run items = .ok (items.all fun i => i.node.guarded i.exposed) := by
  fun_induction run items with
  | case1 => rfl
  | case2 i pending e hlook => simp [Item.look_eq] at hlook
  | case3 i pending hlook => rw [List.all_cons, Item.guarded_of_look_none hlook, Bool.false_and]
  | case4 i pending below hlook ih =>
    rw [ih, List.all_append, List.all_cons, Item.guarded_of_look_some hlook]

end Worklist

namespace Joined

/-- The answer that a focus has to give. -/
def Focus.outcome : Focus → Answer
  | .check _ exposed p => .ok (p.guarded exposed)
  | .answer a => a

/-- What a node that waits answers, if the node in hand answers `b`. -/
def Waiting.settle (b : Bool) : Waiting → Bool
  | .first _ exposed p => b && p.guarded exposed
  | .second b' => b' && b

/-- What the outermost node answers, if the node in hand answers `b`. -/
def settle (b : Bool) (waiting : List Waiting) : Bool := waiting.foldl Waiting.settle b

/-- The answer in hand goes through all the nodes that wait. -/
theorem run_eq (hasty : Bool) (order : Place → Side) (focus : Focus) (waiting : List Waiting) :
    run hasty order focus waiting = focus.outcome.map (settle · waiting) := by
  fun_induction run hasty order focus waiting with
  | case1 place exposed p waiting answer hneed ih =>
    rw [ih, Focus.outcome, Focus.outcome, Proc.guarded_of_need_nothing hneed]
  | case2 place exposed p waiting below q hneed ih =>
    rw [ih, Focus.outcome, Focus.outcome, Proc.guarded_of_need_only hneed]
  | case3 place exposed p waiting below q r hneed horder ih =>
    rw [ih, Focus.outcome, Focus.outcome, Proc.guarded_of_need_both hneed]
    rfl
  | case4 place exposed p waiting below q r hneed horder ih =>
    rw [ih, Focus.outcome, Focus.outcome, Proc.guarded_of_need_both hneed, Bool.and_comm]
    rfl
  | case5 answer => cases answer <;> rfl
  | case6 e place exposed second waiting ih =>
    rw [ih]
    rfl
  | case7 b place exposed p waiting hshort ih =>
    -- The second branch would not have changed the answer.
    obtain rfl : b = false := by simp_all
    rw [ih]
    rfl
  | case8 b place exposed p waiting hgo ih =>
    rw [ih]
    rfl
  | case9 answer b waiting ih =>
    rw [ih]
    cases answer <;> rfl

end Joined

theorem Proc.checkUnder_eq (settings : CheckSettings) (schedule : Schedule) (exposed : NameSet)
    (p : Proc) : p.checkUnder settings schedule exposed = .ok (p.guarded exposed) := by
  unfold checkUnder
  split
  · exact Tasks.run_eq settings.hasty schedule.pick
  · exact Joined.run_eq settings.hasty schedule.first (.check [] exposed p) []
  · rw [checkByWorklist, Worklist.run_eq]
    simp

/-- **Every check finds out whether the process is guarded, whichever way it goes about it and
whatever is decided for it on the way. Tasks do so in whatever order their events happen: no more
than three events for each node can happen, and when none is possible any more, the caller has the
answer.** -/
theorem check_agrees (exposed : NameSet) (p : Proc) :
    (∀ settings schedule, p.checkUnder settings schedule exposed = .ok (p.guarded exposed)) ∧
      (∀ hasty s, Tasks.Reachable hasty exposed p s → s.Quiet →
        s.received = some (.ok (p.guarded exposed))) ∧
      ∀ hasty events s, (Tasks.State.initial exposed p).follow hasty events = some s →
        events.length ≤ 3 * p.size := by
  refine ⟨?_, ?_, ?_⟩
  · intro settings schedule
    exact Proc.checkUnder_eq settings schedule exposed p
  · intro hasty s reachable quiet
    exact reachable.sound.received_of_quiet quiet
  · intro hasty events s h
    rw [← Tasks.credit_initial exposed p]
    exact Tasks.length_le_of_follow Tasks.coveredBy_initial h

/-- In `rec x. (a.x | x)` the tasks can come to an end, and then the answer is there. -/
theorem check_agrees_at_end :
    ∃ s, Tasks.Reachable true ∅ (.fix "x" (.par (.act "a" (.var "x")) (.var "x"))) s ∧ s.Quiet ∧
      s.received = some (.ok false) := by
  obtain ⟨reachable, quiet⟩ := Tasks.last_quiet true (fun _ => 0) ∅
    (.fix "x" (.par (.act "a" (.var "x")) (.var "x")))
  exact ⟨_, reachable, quiet, (check_agrees _ _).2.1 true _ reachable quiet⟩

end Guardedness
