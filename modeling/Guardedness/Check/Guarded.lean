import Guardedness.NameSet
import Guardedness.Proc

/-!
# Guarded processes

A recursion that calls itself before it does any action could be unfolded for ever without an
observable step. A process is *guarded* when that cannot happen.

**Exposure.** A name is exposed at a node when a recursion around the node binds it and no action
stands in between. Going down into a process, a recursion exposes its name, an action covers all
names, and every other node leaves the exposed names as they are for each of its children
(`exposedBelow`). Guarded means that no variable occurs where its name is exposed.
-/

namespace Guardedness

namespace Proc

/-- The names exposed below the root, if `exposed` are exposed at it. -/
def exposedBelow (exposed : NameSet) : Proc → NameSet
  | .act _ _ => ∅
  | .fix x _ => exposed.insert x
  | _ => exposed

/-- No variable of the process occurs where its name is exposed, if `exposed` are exposed at the
root. -/
def guarded (exposed : NameSet) : Proc → Bool
  | .nil => true
  | .var x => !exposed.contains x
  | .act _ p => guarded ∅ p
  | .fix x p => guarded (exposed.insert x) p
  | .par p q | .sum p q => guarded exposed p && guarded exposed q
  | .res p _ | .rel p _ => guarded exposed p

end Proc

end Guardedness
