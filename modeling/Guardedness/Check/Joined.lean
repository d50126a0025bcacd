import Guardedness.Check.Need
import Guardedness.Check.Schedule

/-!
# Checking with joined branches

A node with one child answers what its child answers. A node with two children has both of
them checked and takes their answers in the order they come: if the first is *no* and the check
is hasty, that is the node's answer and the other branch is left unfinished; otherwise the node
waits for the other answer and is guarded when both are. A branch that fails makes the node fail
as soon as its failure is taken.

The nodes that wait for an answer are kept on a list, innermost first.
-/

namespace Guardedness

namespace Joined

/-- A node to be checked, or the answer of one. -/
inductive Focus where
  | check (place : Place) (exposed : NameSet) (p : Proc)
  | answer (answer : Proc.Answer)

/-- A node with two children that waits: for its first answer, with the branch that comes
second, or for its second one. -/
inductive Waiting where
  | first (place : Place) (exposed : NameSet) (second : Proc)
  | second (first : Bool)

/-- The steps left for a focus. -/
def Focus.measure : Focus → Nat
  | check _ _ p => 2 * p.weight
  | answer _ => 1

def Waiting.measure : Waiting → Nat
  | first _ _ p => 2 * p.weight + 1
  | second _ => 1

/-- Go on until the outermost node answers. -/
def run (hasty : Bool) (order : Place → Side) : Focus → List Waiting → Proc.Answer
  | .check place exposed p, waiting =>
    match _h : p.need exposed with
    | .nothing answer => run hasty order (.answer answer) waiting
    | .only below q => run hasty order (.check (.left :: place) below q) waiting
    | .both below q r =>
      match order place with
      | .left =>
        run hasty order (.check (.left :: place) below q)
          (.first (.right :: place) below r :: waiting)
      | .right =>
        run hasty order (.check (.right :: place) below r)
          (.first (.left :: place) below q :: waiting)
  | .answer answer, [] => answer
  | .answer (.error e), .first _ _ _ :: waiting => run hasty order (.answer (.error e)) waiting
  | .answer (.ok b), .first place exposed p :: waiting =>
    if !b && hasty then run hasty order (.answer (.ok false)) waiting
    else run hasty order (.check place exposed p) (.second b :: waiting)
  | .answer answer, .second b :: waiting =>
    run hasty order (.answer (answer.map (b && ·))) waiting
termination_by focus waiting => focus.measure + total (waiting.map Waiting.measure)
decreasing_by
  all_goals simp only [Focus.measure, Waiting.measure, List.map_cons, total_cons]
  · have := p.weight_pos
    omega
  · have := Proc.weight_of_need_only ‹_›
    omega
  · have := Proc.weight_of_need_both ‹_›
    omega
  · have := Proc.weight_of_need_both ‹_›
    omega
  all_goals omega

end Joined

/-- Whether a process is guarded, taking the answers of branches in the order of a schedule. -/
def Proc.guardedByJoining (hasty : Bool) (order : Place → Side) (exposed : NameSet) (p : Proc) :
    Proc.Answer :=
  Joined.run hasty order (.check [] exposed p) []

end Guardedness
