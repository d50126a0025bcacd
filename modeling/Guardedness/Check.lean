import Guardedness.Check.Joined
import Guardedness.Check.Tasks
import Guardedness.Check.Worklist
import Guardedness.Settings

/-!
# Checking a process

There are three ways to check a process, and settings choose one. They differ in how they go
about it and in what a schedule decides for them, never in the answer.
-/

namespace Guardedness

namespace Proc

/-- Whether a process is guarded where `exposed` are exposed. -/
def checkUnder (settings : CheckSettings) (schedule : Schedule) (exposed : NameSet) (p : Proc) :
    Answer :=
  match settings.strategy with
  | .tasks => p.guardedByTasks settings.hasty schedule.pick exposed
  | .joining => p.guardedByJoining settings.hasty schedule.first exposed
  | .worklist => p.checkByWorklist exposed

/-- Whether a process is guarded. -/
def check (settings : CheckSettings) (schedule : Schedule) (p : Proc) : Answer :=
  p.checkUnder settings schedule ∅

end Proc

end Guardedness
