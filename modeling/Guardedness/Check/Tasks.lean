import Guardedness.Check.Need
import Guardedness.Check.Schedule

/-!
# Checking by tasks that send messages

Every node is checked by a task of its own, which runs beside all others. A task is spawned by
the task of the node above, with the names exposed at its node, and sends its answer up a
channel that carries one message.

**Events.** Three things can happen to a task. It *starts*: at a leaf it has its answer at once,
otherwise it spawns a task for each child and waits. It *sends* the answer it has. The task
above *receives* that answer; from two children it takes the answers in the order they come.
If the first is *no* and the check is hasty, it has its answer at once and drops the channel of
the other child, whose task runs on and sends into the void. The channel of the task at the
root is read by the caller.

**Interleaving.** Which event is possible depends on the state alone (`State.enabled`), and any
possible event can be the next one (`State.step`). A run keeps the possible events in an agenda
and takes them from it as a schedule says, until none is left.
-/

namespace Guardedness

namespace Tasks

open Proc (Answer)

/-- A task is known by its number, in order of spawning. -/
abbrev Id := Nat

/-- How far a task is. -/
inductive Phase where
  | ready
  | awaitingOnly (child : Id)
  | awaitingEither (left right : Id)
  /-- Waiting for the other child; the first one answered `first`. -/
  | awaitingOther (first : Bool) (child : Id)
  | answered (answer : Answer)
  | finished

/-- The channel from a task to the one above. -/
inductive Channel where
  | empty
  | holding (answer : Answer)
  | taken
  | dropped
  /-- The sender is gone and nothing was sent. -/
  | abandoned

namespace Channel

/-- The channel after sending `answer`: only an empty one takes it. -/
def put (answer : Answer) : Channel → Channel
  | empty => holding answer
  | c => c

end Channel

/-- A task: the node it checks, the names exposed there, where the node is, and the task above. -/
structure Task where
  node : Proc
  exposed : NameSet
  place : Place
  parent : Option Id
  phase : Phase
  channel : Channel

/-- A new task. -/
def Task.spawned (node : Proc) (exposed : NameSet) (place : Place) (parent : Option Id) : Task :=
  ⟨node, exposed, place, parent, .ready, .empty⟩

/-- A task that sends its answer is finished. -/
def Task.finish (answer : Answer) (t : Task) : Task :=
  { t with phase := .finished, channel := t.channel.put answer }

/-- All tasks so far, and what the caller has received. -/
structure State where
  tasks : Array Task
  received : Option Answer

/-- What can happen. -/
inductive Event where
  | start (task : Id)
  | send (task : Id)
  | receive (task : Id)
deriving DecidableEq, Repr

namespace Phase

/-- Whether a task in this phase waits for `child`. -/
def awaits (phase : Phase) (child : Id) : Bool :=
  match phase with
  | awaitingOnly c => c == child
  | awaitingEither l r => l == child || r == child
  | awaitingOther _ c => c == child
  | _ => false

end Phase

namespace State

/-- The state before anything has happened: one task, at the root. -/
def initial (exposed : NameSet) (p : Proc) : State :=
  ⟨#[.spawned p exposed [] none], none⟩

/-- Change one task. -/
def update (s : State) (i : Id) (f : Task → Task) : State := { s with tasks := s.tasks.modify i f }

def setPhase (s : State) (i : Id) (phase : Phase) : State := s.update i ({ · with phase := phase })

def setChannel (s : State) (i : Id) (channel : Channel) : State :=
  s.update i ({ · with channel := channel })

def spawn (s : State) (t : Task) : State := { s with tasks := s.tasks.push t }

section

variable (s : State) (i j : Id) (f : Task → Task) (t : Task)

@[simp] theorem size_update : (s.update i f).tasks.size = s.tasks.size := by simp [update]

theorem getElem?_update : (s.update i f).tasks[j]? =
    if i = j then s.tasks[j]?.map f else s.tasks[j]? := by
  simp [update, Array.getElem?_modify]

variable {s i j t} in
theorem getElem?_update_self (h : s.tasks[i]? = some t) :
    (s.update i f).tasks[i]? = some (f t) := by
  simp [getElem?_update, h]

variable {s i j} in
theorem getElem?_update_ne (h : i ≠ j) : (s.update i f).tasks[j]? = s.tasks[j]? := by
  simp [getElem?_update, h]

@[simp] theorem received_update : (s.update i f).received = s.received := rfl

@[simp] theorem size_spawn : (s.spawn t).tasks.size = s.tasks.size + 1 := by simp [spawn]

theorem getElem?_spawn : (s.spawn t).tasks[j]? =
    if j = s.tasks.size then some t else s.tasks[j]? := by
  simp [spawn, Array.getElem?_push]

variable {s i t} in
theorem getElem?_spawn_old {u : Task} (h : s.tasks[i]? = some u) :
    (s.spawn t).tasks[i]? = some u := by
  have hi := (Array.getElem?_eq_some_iff.mp h).1
  rw [getElem?_spawn, if_neg (Nat.ne_of_lt hi), h]

theorem getElem?_spawn_new : (s.spawn t).tasks[s.tasks.size]? = some t := by
  rw [getElem?_spawn, if_pos rfl]

@[simp] theorem received_spawn : (s.spawn t).received = s.received := rfl

end

/-- The phase of a task. -/
def phase? (s : State) (i : Id) : Option Phase := s.tasks[i]?.map Task.phase

def channel? (s : State) (i : Id) : Option Channel := s.tasks[i]?.map Task.channel

def parent? (s : State) (i : Id) : Option Id := s.tasks[i]?.bind Task.parent

/-- Whether something comes out of the channel of a task. -/
def deliverable (s : State) (i : Id) : Bool :=
  match s.channel? i with
  | some (.holding _) | some .abandoned => true
  | _ => false

/-- Whether whoever is above a task waits for its answer. -/
def awaited (s : State) (i : Id) : Bool :=
  match s.parent? i with
  | none => s.received.isNone
  | some j => (s.phase? j).any (·.awaits i)

/-- Whether an event is possible. -/
def enabled (s : State) : Event → Bool
  | .start i =>
    match s.phase? i with
    | some .ready => true
    | _ => false
  | .send i =>
    match s.phase? i with
    | some (.answered _) => true
    | _ => false
  | .receive i => s.deliverable i && s.awaited i

/-- Task `i`, which is `t`, starts: it spawns a task for each child it needs and waits for it. -/
def start (s : State) (i : Id) (t : Task) : State :=
  match t.node.need t.exposed with
  | .nothing answer => s.setPhase i (.answered answer)
  | .only below p =>
    (s.spawn (.spawned p below (.left :: t.place) (some i))).setPhase i
      (.awaitingOnly s.tasks.size)
  | .both below p q =>
    ((s.spawn (.spawned p below (.left :: t.place) (some i))).spawn
      (.spawned q below (.right :: t.place) (some i))).setPhase i
      (.awaitingEither s.tasks.size (s.tasks.size + 1))

/-- Task `i`, which is `t`, sends its answer, into the void if its receiver is gone. -/
def send (s : State) (i : Id) (t : Task) : State :=
  match t.phase with
  | .answered answer => s.update i (Task.finish answer)
  | _ => s

/-- Task `j` gets the answer of its child `i`. -/
def take (hasty : Bool) (s : State) (j i : Id) (phase : Phase) (answer : Answer) : State :=
  match phase with
  | .awaitingEither l r =>
    let other := if i = l then r else l
    match answer with
    | .error e => (s.setPhase j (.answered (.error e))).setChannel other .dropped
    | .ok b =>
      if !b && hasty then (s.setPhase j (.answered (.ok false))).setChannel other .dropped
      else s.setPhase j (.awaitingOther b other)
  | .awaitingOther first _ => s.setPhase j (.answered (answer.map (first && ·)))
  | _ => s.setPhase j (.answered answer)

/-- What comes out of a channel, for a receiver at a node of kind `kind`. -/
def outcome (kind : Node.Kind) : Channel → Answer
  | .holding answer => answer
  | _ => .error (.taskLost kind)

/-- The answer of task `i`, which is `t`, is received above. -/
def receive (hasty : Bool) (s : State) (i : Id) (t : Task) : State :=
  let heard :=
    match t.parent with
    | none => { s with received := some (outcome t.node.kind t.channel) }
    | some j =>
      match s.tasks[j]? with
      | some above => s.take hasty j i above.phase (outcome above.node.kind t.channel)
      | none => s
  heard.setChannel i .taken

/-- The state after an event. -/
def step (hasty : Bool) (s : State) (e : Event) : State :=
  match e with
  | .start i => s.tasks[i]?.elim s (s.start i)
  | .send i => s.tasks[i]?.elim s (s.send i)
  | .receive i => s.tasks[i]?.elim s (s.receive hasty i)

/-- The events that `e` makes possible, given the state after it. -/
def woken (s : State) (e : Event) : List Event :=
  let candidates : List Event :=
    match e with
    | .start i =>
      match s.phase? i with
      | some (.awaitingOnly c) => [.start c]
      | some (.awaitingEither l r) => [.start l, .start r]
      | _ => [.send i]
    | .send i => [.receive i]
    | .receive i => (s.parent? i).toList.map .send
  candidates.filter s.enabled

/-- Let at most `fuel` events of the agenda happen, those that are still possible. -/
def run (hasty : Bool) (pick : Nat → Nat) : (fuel : Nat) → State → Array Event → State
  | 0, s, _ => s
  | fuel + 1, s, agenda =>
    let k := pick fuel % agenda.size
    match agenda[k]? with
    | none => s
    | some e =>
      let agenda := (agenda.swapIfInBounds k (agenda.size - 1)).pop
      if s.enabled e then
        let s := s.step hasty e
        run hasty pick fuel s (agenda ++ s.woken e)
      else run hasty pick fuel s agenda

end State

end Tasks

/-- Whether a process is guarded, by tasks whose events happen as a schedule says. Each task
starts, sends and is received once at most, so three events for each node are enough. -/
def Proc.guardedByTasks (hasty : Bool) (pick : Nat → Nat) (exposed : NameSet) (p : Proc) :
    Except CheckError Bool :=
  let last := (Tasks.State.initial exposed p).run hasty pick (3 * p.size) #[.start 0]
  last.received.getD (.error (.taskLost p.kind))

end Guardedness
