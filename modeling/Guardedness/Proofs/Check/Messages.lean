import Guardedness.Check.Tasks
import Guardedness.Proofs.Check.Place

/-!
# Messages tell the truth

Whatever order the events of a check by tasks happen in, a task checks the node at its place under
the names that its way from the root dictates, and the only answer it ever sends is whether that
node is guarded under them.

**The invariant** (`Sound`) says where the node of each task is and what is exposed there, that its
parent was spawned before it, what its phase means (`Fits`), and that its channel carries nothing
but the truth. In the meaning of a phase the tasks hang together: one that waits for others will
hear from them (`Hears`), and what it will answer is settled by what they will.

**Preservation.** An event spawns tasks, changes the phase and the channel of a task, or hands an
answer to the caller; each of these three keeps the invariant (`Sound.spawn`, `Sound.update`,
`Sound.hear`). A channel may be closed only when nobody listens to it any more, so a task first
turns away from a child and then the channel of that child is closed.
-/

namespace Guardedness

namespace Tasks

open Proc (Answer ExposedAt)

/-- Whether an answer can still come out of a channel. -/
def Channel.isOpen : Channel → Bool
  | empty | holding _ => true
  | _ => false

/-- The answer a task has to give. -/
def Task.truth (t : Task) : Bool := t.node.guarded t.exposed

/-- Task `i` will hear from its child `c`, which is `u`. -/
structure Hears (s : State) (i c : Id) (u : Task) : Prop where
  task : s.tasks[c]? = some u
  parent : u.parent = some i
  isOpen : u.channel.isOpen = true

/-- What the phase of task `i` means, if the task has to answer `b`. -/
def Fits (s : State) (i : Id) (b : Bool) : Phase → Prop
  | .ready | .finished => True
  | .awaitingOnly c => ∃ u, Hears s i c u ∧ b = u.truth
  | .awaitingEither l r => l ≠ r ∧ ∃ u v, Hears s i l u ∧ Hears s i r v ∧ b = (u.truth && v.truth)
  | .awaitingOther first c => ∃ u, Hears s i c u ∧ b = (first && u.truth)
  | .answered answer => answer = .ok b

/-- The channel of a task that has to answer `b` carries no other answer. -/
def Carries (b : Bool) : Channel → Prop
  | .holding answer => answer = .ok b
  | .abandoned => False
  | _ => True

/-- What holds of task `i`, which is `t`. -/
structure TaskSound (exposed : NameSet) (p : Proc) (s : State) (i : Id) (t : Task) : Prop where
  node : p.at? t.place = some t.node
  exposed : ∀ x, x ∈ t.exposed ↔ ExposedAt exposed p t.place x
  parent : t.parent.elim (i = 0) (· < i)
  phase : Fits s i t.truth t.phase
  sent : t.phase = .finished → t.channel ≠ .empty
  channel : Carries t.truth t.channel

/-- What holds in every reachable state of a check of `p` under `exposed`. -/
structure Sound (exposed : NameSet) (p : Proc) (s : State) : Prop where
  tasks : ∀ i t, s.tasks[i]? = some t → TaskSound exposed p s i t
  root : ∃ t, s.tasks[0]? = some t ∧ t.node = p ∧ t.exposed = exposed ∧
    (s.received = none → t.channel.isOpen = true)
  received : ∀ answer, s.received = some answer → answer = .ok (p.guarded exposed)

variable {exposed below : NameSet} {p q r : Proc} {s s' : State} {i j c : Id} {t u : Task}
  {f : Task → Task} {phase : Phase} {channel : Channel} {b : Bool}

theorem lt_of_getElem? (h : s.tasks[i]? = some t) : i < s.tasks.size :=
  (Array.getElem?_eq_some_iff.mp h).1

/-! ## What a phase means does not change with the rest -/

theorem Fits.mono (h : ∀ c u, phase.awaits c = true → Hears s i c u →
      ∃ u', Hears s' i c u' ∧ u'.truth = u.truth)
    (hf : Fits s i b phase) : Fits s' i b phase := by
  cases phase with
  | ready | finished => trivial
  | answered => exact hf
  | awaitingOnly c =>
    obtain ⟨u, hu, rfl⟩ := hf
    obtain ⟨u', hu', e⟩ := h c u (by simp [Phase.awaits]) hu
    exact ⟨u', hu', e.symm⟩
  | awaitingEither l r =>
    obtain ⟨hne, u, v, hu, hv, rfl⟩ := hf
    obtain ⟨u', hu', eu⟩ := h l u (by simp [Phase.awaits]) hu
    obtain ⟨v', hv', ev⟩ := h r v (by simp [Phase.awaits]) hv
    exact ⟨hne, u', v', hu', hv', by rw [eu, ev]⟩
  | awaitingOther first c =>
    obtain ⟨u, hu, rfl⟩ := hf
    obtain ⟨u', hu', e⟩ := h c u (by simp [Phase.awaits]) hu
    exact ⟨u', hu', by rw [e]⟩

theorem TaskSound.mono (h : ∀ c u, t.phase.awaits c = true → Hears s i c u →
      ∃ u', Hears s' i c u' ∧ u'.truth = u.truth)
    (ht : TaskSound exposed p s i t) : TaskSound exposed p s' i t :=
  { ht with phase := ht.phase.mono h }

/-! ## Spawning -/

theorem Hears.spawn (h : Hears s i c u) : Hears (s.spawn t) i c u :=
  { h with task := State.getElem?_spawn_old h.task }

theorem Sound.spawn {place : Place} (h : Sound exposed p s) (hj : j < s.tasks.size)
    (hq : p.at? place = some q) (hb : ∀ x, x ∈ below ↔ ExposedAt exposed p place x) :
    Sound exposed p (s.spawn (.spawned q below place (some j))) := by
  have old : ∀ i t, s.tasks[i]? = some t →
      TaskSound exposed p (s.spawn (.spawned q below place (some j))) i t :=
    fun i t ht => (h.tasks i t ht).mono fun c u _ hu => ⟨u, hu.spawn, rfl⟩
  refine ⟨?_, ?_, h.received⟩
  · intro i t ht
    rw [State.getElem?_spawn] at ht
    split at ht
    · next hi =>
      subst hi
      cases ht
      exact ⟨hq, hb, hj, trivial, by simp [Task.spawned], trivial⟩
    · exact old i t ht
  · obtain ⟨t, ht, rest⟩ := h.root
    exact ⟨t, State.getElem?_spawn_old ht, rest⟩

/-! ## Changing a task -/

/-- Nobody listens to the channel of task `i`, which is `t`, any more. -/
def Unheard (s : State) (i : Id) (t : Task) : Prop :=
  (t.parent = none → s.received ≠ none) ∧
    ∀ j above, t.parent = some j → s.tasks[j]? = some above → above.phase.awaits i = false

/-- What was heard of a task before it changed is still heard, unless its channel is closed. -/
theorem Hears.update {m : Id} (hu : Hears s m c u) (ht : s.tasks[i]? = some t)
    (hf : f t = { t with phase := phase, channel := channel })
    (hc : c = i → channel.isOpen = true) :
    ∃ u', Hears (s.update i f) m c u' ∧ u'.truth = u.truth := by
  by_cases hci : i = c
  · subst hci
    obtain rfl : t = u := Option.some.inj (ht.symm.trans hu.task)
    refine ⟨f t, ⟨?_, ?_, ?_⟩, by rw [hf]; rfl⟩
    · exact State.getElem?_update_self _ ht
    · rw [hf]; exact hu.parent
    · rw [hf]; exact hc rfl
  · exact ⟨u, { hu with task := (State.getElem?_update_ne _ hci).trans hu.task }, rfl⟩

theorem TaskSound.parent_ne (h : TaskSound exposed p s i t) : t.parent ≠ some i := by
  intro hp
  have := h.parent
  simp [hp] at this

theorem Sound.update (h : Sound exposed p s) (ht : s.tasks[i]? = some t)
    (hf : f t = { t with phase := phase, channel := channel })
    (fits : Fits s i t.truth phase) (sent : phase = .finished → channel ≠ .empty)
    (carries : Carries t.truth channel)
    (hopen : (t.channel.isOpen = true → channel.isOpen = true) ∨ Unheard s i t) :
    Sound exposed p (s.update i f) := by
  have self := h.tasks i t ht
  refine ⟨?_, ?_, h.received⟩
  · intro m u hu
    rw [State.getElem?_update] at hu
    split at hu
    · next him =>
      subst him
      obtain rfl : f t = u := by simpa [ht] using hu
      rw [hf]
      refine ⟨self.node, self.exposed, self.parent, fits.mono ?_, sent, carries⟩
      intro c v _ hv
      refine hv.update ht hf ?_
      -- A task does not wait for itself, so its own change does not reach what it hears.
      rintro rfl
      refine absurd hv.parent ?_
      obtain rfl : t = v := Option.some.inj (ht.symm.trans hv.task)
      exact self.parent_ne
    · refine (h.tasks m u hu).mono ?_
      intro c v hawaits hv
      refine hv.update ht hf ?_
      rintro rfl
      obtain rfl : t = v := Option.some.inj (ht.symm.trans hv.task)
      rcases hopen with hopen | unheard
      · exact hopen hv.isOpen
      · have := unheard.2 m u hv.parent hu
        simp [hawaits] at this
  · obtain ⟨t₀, ht₀, hn, he, hr⟩ := h.root
    by_cases hi : i = 0
    · subst hi
      obtain rfl : t = t₀ := Option.some.inj (ht.symm.trans ht₀)
      refine ⟨f t, State.getElem?_update_self _ ht, by rw [hf]; exact hn,
        by rw [hf]; exact he, ?_⟩
      intro hnone
      rw [hf]
      rcases hopen with hopen | unheard
      · exact hopen (hr hnone)
      · have := self.parent
        cases hp : t.parent with
        | none => exact absurd hnone (unheard.1 hp)
        | some j => simp [hp] at this
    · exact ⟨t₀, (State.getElem?_update_ne _ hi).trans ht₀, hn, he, hr⟩

theorem Sound.setPhase (h : Sound exposed p s) (ht : s.tasks[i]? = some t)
    (fits : Fits s i t.truth phase) (hp : phase ≠ .finished) :
    Sound exposed p (s.setPhase i phase) :=
  h.update ht rfl fits (fun e => absurd e hp) (h.tasks i t ht).channel
    (.inl id)

theorem Sound.close (h : Sound exposed p s) (ht : s.tasks[i]? = some t) (unheard : Unheard s i t)
    (hc : channel = .taken ∨ channel = .dropped) : Sound exposed p (s.setChannel i channel) := by
  refine h.update ht rfl (h.tasks i t ht).phase ?_ ?_ (.inr unheard)
  · intro _
    rcases hc with rfl | rfl <;> simp
  · rcases hc with rfl | rfl <;> trivial

theorem Sound.hear (h : Sound exposed p s) {answer : Answer}
    (ha : answer = .ok (p.guarded exposed)) :
    Sound exposed p { s with received := some answer } := by
  refine ⟨?_, ?_, ?_⟩
  · intro i t ht
    refine (h.tasks i t ht).mono ?_
    intro c u _ hu
    exact ⟨u, ⟨hu.task, hu.parent, hu.isOpen⟩, rfl⟩
  · obtain ⟨t, ht, hn, he, -⟩ := h.root
    exact ⟨t, ht, hn, he, fun hnone => absurd hnone (by simp)⟩
  · intro a h'
    cases h'
    exact ha

/-! ## Events -/

theorem State.getElem?_initial (h : (initial exposed p).tasks[i]? = some t) :
    i = 0 ∧ t = .spawned p exposed [] none := by
  obtain ⟨hi, rfl⟩ : i = 0 ∧ Task.spawned p exposed [] none = t := by
    simpa [initial, List.getElem?_singleton] using h
  exact ⟨hi, rfl⟩

theorem Sound.initial : Sound exposed p (.initial exposed p) := by
  refine ⟨?_, ⟨_, rfl, rfl, rfl, fun _ => rfl⟩, fun _ h => by cases h⟩
  intro i t ht
  obtain ⟨hi, rfl⟩ := State.getElem?_initial ht
  exact ⟨rfl, fun x => Proc.exposedAt_nil.symm, hi, trivial, by simp [Task.spawned], trivial⟩

theorem Sound.start (h : Sound exposed p s) (ht : s.tasks[i]? = some t) :
    Sound exposed p (s.start i t) := by
  have self := h.tasks i t ht
  have hi := lt_of_getElem? ht
  have hchild {side : Side} {q : Proc} (hq : t.node.child? side = some q) :
      p.at? (side :: t.place) = some q := (Proc.at?_cons self.node).trans hq
  have hbelow {side : Side} {below : NameSet} (hb : below = t.node.exposedBelow t.exposed) :
      ∀ x, x ∈ below ↔ ExposedAt exposed p (side :: t.place) x :=
    fun x => hb ▸ (Proc.exposedAt_cons self.node self.exposed).symm
  unfold State.start
  split
  · next answer hn => exact h.setPhase ht (Proc.guarded_of_need_nothing hn) (by simp)
  · next below q hn =>
    obtain ⟨hq, hb⟩ := Proc.below_of_need_only hn
    have spawned := h.spawn hi (hchild hq) (hbelow hb)
    refine spawned.setPhase (State.getElem?_spawn_old ht) ?_ (by simp)
    exact ⟨_, ⟨State.getElem?_spawn_new _ _, rfl, rfl⟩, Proc.guarded_of_need_only hn⟩
  · next below q r hn =>
    obtain ⟨hq, hr, hb⟩ := Proc.below_of_need_both hn
    have spawned := (h.spawn hi (hchild hq) (hbelow hb)).spawn
      (by rw [State.size_spawn]; exact Nat.lt_succ_of_lt hi) (hchild hr) (hbelow hb)
    refine spawned.setPhase (State.getElem?_spawn_old (State.getElem?_spawn_old ht)) ?_ (by simp)
    have left := State.getElem?_spawn_new s (.spawned q below (.left :: t.place) (some i))
    have right := State.getElem?_spawn_new (s.spawn (.spawned q below (.left :: t.place) (some i)))
      (.spawned r below (.right :: t.place) (some i))
    rw [State.size_spawn] at right
    exact ⟨Nat.ne_of_lt (Nat.lt_succ_self _), _, _, ⟨State.getElem?_spawn_old left, rfl, rfl⟩,
      ⟨right, rfl, rfl⟩, Proc.guarded_of_need_both hn⟩

theorem isOpen_put {answer : Answer} (h : channel.isOpen = true) :
    (channel.put answer).isOpen = true := by
  cases channel <;> simp_all [Channel.put, Channel.isOpen]

theorem put_ne_empty {answer : Answer} : channel.put answer ≠ .empty := by
  cases channel <;> simp [Channel.put]

theorem Carries.put (h : Carries b channel) : Carries b (channel.put (.ok b)) := by
  cases channel with
  | empty => rfl
  | _ => exact h

theorem Sound.send (h : Sound exposed p s) (ht : s.tasks[i]? = some t) :
    Sound exposed p (s.send i t) := by
  have self := h.tasks i t ht
  unfold State.send
  split
  · next answer hphase =>
    have hanswer : answer = .ok t.truth := by
      have := self.phase
      rw [hphase] at this
      exact this
    subst hanswer
    exact h.update ht rfl trivial (fun _ => put_ne_empty) self.channel.put (.inl isOpen_put)
  · exact h

/-- Of two tasks that `j` listens to, the answer of one settles what the other has to add. -/
theorem Fits.other {l r : Id} (h : Fits s j b (.awaitingEither l r)) (ht : s.tasks[i]? = some t)
    (hi : i = l ∨ i = r) :
    (if i = l then r else l) ≠ i ∧
      ∃ u, Hears s j (if i = l then r else l) u ∧ b = (t.truth && u.truth) := by
  obtain ⟨hne, u, v, hu, hv, rfl⟩ := h
  by_cases hl : i = l
  · subst hl
    obtain rfl : t = u := Option.some.inj (ht.symm.trans hu.task)
    rw [if_pos rfl]
    exact ⟨hne.symm, v, hv, rfl⟩
  · obtain rfl := hi.resolve_left hl
    obtain rfl : t = v := Option.some.inj (ht.symm.trans hv.task)
    rw [if_neg hl]
    exact ⟨Ne.symm hl, u, hu, Bool.and_comm _ _⟩

/-- A task that has to answer *no* may do so before it has heard from its child `c`, whose channel
is dropped then. -/
theorem Sound.answerEarly {above : Task} (h : Sound exposed p s) (hj : s.tasks[j]? = some above)
    (hb : above.truth = false) (hu : Hears s j c u) :
    Sound exposed p ((s.setPhase j (.answered (.ok false))).setChannel c .dropped) := by
  have answered : Sound exposed p (s.setPhase j (.answered (.ok false))) :=
    h.setPhase hj (by rw [Fits, hb]) (by simp)
  have hjc : j ≠ c := by
    rintro rfl
    exact (h.tasks _ u hu.task).parent_ne hu.parent
  have hc : (s.setPhase j (.answered (.ok false))).tasks[c]? = some u :=
    (State.getElem?_update_ne _ hjc).trans hu.task
  have hchanged : (s.setPhase j (.answered (.ok false))).tasks[j]? =
      some { above with phase := .answered (.ok false) } := State.getElem?_update_self _ hj
  refine answered.close hc ⟨fun hn => by simp [hu.parent] at hn, ?_⟩ (.inr rfl)
  intro k w hk hw
  obtain rfl : j = k := by simpa [hu.parent] using hk
  rw [hchanged] at hw
  cases hw
  rfl

/-- Task `j` takes the answer of its child `i` and turns away from it. -/
theorem Sound.take {above : Task} {hasty : Bool} (h : Sound exposed p s)
    (hj : s.tasks[j]? = some above) (ht : s.tasks[i]? = some t) (hp : t.parent = some j)
    (hawaits : above.phase.awaits i = true) :
    Sound exposed p (s.take hasty j i above.phase (.ok t.truth)) ∧
      (s.take hasty j i above.phase (.ok t.truth)).tasks[i]? = some t ∧
      ∃ phase, (s.take hasty j i above.phase (.ok t.truth)).tasks[j]? =
        some { above with phase := phase } ∧ phase.awaits i = false := by
  have fits := (h.tasks j above hj).phase
  have hji : j ≠ i := by
    rintro rfl
    exact (h.tasks j t ht).parent_ne hp
  have kept (ph : Phase) : (s.setPhase j ph).tasks[i]? = some t :=
    (State.getElem?_update_ne _ hji).trans ht
  have changed (ph : Phase) : (s.setPhase j ph).tasks[j]? = some { above with phase := ph } :=
    State.getElem?_update_self _ hj
  cases hphase : above.phase with
  | ready | finished | answered => simp [hphase, Phase.awaits] at hawaits
  | awaitingOnly c =>
    rw [hphase] at fits hawaits
    obtain rfl : c = i := by simpa [Phase.awaits] using hawaits
    obtain ⟨u, hu, hb⟩ := fits
    obtain rfl : t = u := Option.some.inj (ht.symm.trans hu.task)
    exact ⟨h.setPhase hj (congrArg Except.ok hb.symm) (by simp), kept _, _, changed _, rfl⟩
  | awaitingOther first c =>
    rw [hphase] at fits hawaits
    obtain rfl : c = i := by simpa [Phase.awaits] using hawaits
    obtain ⟨u, hu, hb⟩ := fits
    obtain rfl : t = u := Option.some.inj (ht.symm.trans hu.task)
    exact ⟨h.setPhase hj (congrArg Except.ok hb.symm) (by simp), kept _, _, changed _, rfl⟩
  | awaitingEither l r =>
    rw [hphase] at fits hawaits
    have hi : l = i ∨ r = i := by simpa [Phase.awaits] using hawaits
    obtain ⟨hne, u, hu, hb⟩ := fits.other ht (hi.imp Eq.symm Eq.symm)
    simp only [State.take]
    split
    · next hshort =>
      -- With a *no* from the one child, nothing is asked of the other any more.
      have hfalse : t.truth = false := by simp_all
      have hju : j ≠ if i = l then r else l := by
        intro e
        exact (h.tasks _ u hu.task).parent_ne (e ▸ hu.parent)
      refine ⟨h.answerEarly hj (by simp [hb, hfalse]) hu, ?_, .answered (.ok false), ?_, rfl⟩
      · exact (State.getElem?_update_ne _ hne).trans (kept _)
      · exact (State.getElem?_update_ne _ hju.symm).trans (changed _)
    · refine ⟨h.setPhase hj ⟨u, hu, hb⟩ (by simp), kept _, _, changed _, ?_⟩
      simpa [Phase.awaits] using hne

/-- Whoever receives from task `i` gets its answer. -/
theorem Sound.outcome (h : Sound exposed p s) (ht : s.tasks[i]? = some t)
    (hd : s.deliverable i = true) (kind : Node.Kind) :
    State.outcome kind t.channel = .ok t.truth := by
  have carries := (h.tasks i t ht).channel
  cases hc : t.channel with
  | holding answer => rw [hc] at carries; exact carries
  | abandoned => rw [hc] at carries; exact carries.elim
  | _ => simp [State.deliverable, State.channel?, ht, hc] at hd

theorem Sound.receive {hasty : Bool} (h : Sound exposed p s) (ht : s.tasks[i]? = some t)
    (he : s.enabled (.receive i) = true) : Sound exposed p (s.receive hasty i t) := by
  have self := h.tasks i t ht
  obtain ⟨hdeliver, hawaited⟩ : s.deliverable i = true ∧ s.awaited i = true := by
    simpa [State.enabled] using he
  simp only [State.receive, h.outcome ht hdeliver]
  cases hp : t.parent with
  | none =>
    have hi : i = 0 := by simpa [hp] using self.parent
    obtain ⟨t₀, ht₀, rfl, rfl, -⟩ := h.root
    obtain rfl : t = t₀ := Option.some.inj (ht.symm.trans (hi ▸ ht₀))
    exact (h.hear rfl).close ht ⟨fun _ => by simp, fun j _ hj => by simp [hp] at hj⟩ (.inl rfl)
  | some j =>
    obtain ⟨above, hj, hawaits⟩ :
        ∃ above, s.tasks[j]? = some above ∧ above.phase.awaits i = true := by
      cases hj : s.tasks[j]? <;>
        simp_all [State.awaited, State.parent?, State.phase?]
    simp only [hj]
    obtain ⟨sound, hti, phase, hj', hturned⟩ := h.take hj ht hp hawaits
    refine sound.close hti ⟨fun hn => by simp [hp] at hn, ?_⟩ (.inl rfl)
    intro k w hk hw
    obtain rfl : j = k := by simpa [hp] using hk
    rw [hj'] at hw
    cases hw
    exact hturned

theorem Sound.step {hasty : Bool} {e : Event} (h : Sound exposed p s) (he : s.enabled e = true) :
    Sound exposed p (s.step hasty e) := by
  cases e with
  | start i =>
    cases ht : s.tasks[i]? with
    | none => simpa [State.step, ht] using h
    | some t => simpa [State.step, ht] using h.start ht
  | send i =>
    cases ht : s.tasks[i]? with
    | none => simpa [State.step, ht] using h
    | some t => simpa [State.step, ht] using h.send ht
  | receive i =>
    cases ht : s.tasks[i]? with
    | none => simpa [State.step, ht] using h
    | some t => simpa [State.step, ht] using h.receive ht he

/-! ## Runs -/

/-- The states that a check of `p` under `exposed` can come to, its possible events happening in
any order. -/
inductive Reachable (hasty : Bool) (exposed : NameSet) (p : Proc) : State → Prop
  | initial : Reachable hasty exposed p (.initial exposed p)
  | step {s : State} {e : Event} (h : Reachable hasty exposed p s) (he : s.enabled e = true) :
    Reachable hasty exposed p (s.step hasty e)

theorem Reachable.sound {hasty : Bool} (h : Reachable hasty exposed p s) : Sound exposed p s := by
  induction h with
  | initial => exact .initial
  | step _ he ih => exact ih.step he

/-- The state after events that happen one after the other, if each of them is possible. -/
def State.follow (hasty : Bool) (s : State) : List Event → Option State
  | [] => some s
  | e :: events => if s.enabled e then (s.step hasty e).follow hasty events else none

theorem Reachable.follow {hasty : Bool} (h : Reachable hasty exposed p s) (events : List Event)
    (hs : s.follow hasty events = some s') : Reachable hasty exposed p s' := by
  induction events generalizing s with
  | nil => cases hs; exact h
  | cons e events ih =>
    rw [State.follow] at hs
    split at hs
    · next he => exact ih (h.step he) hs
    · cases hs

/-- **In every reachable state, each task checks the node at its place under the names that its
way from the root dictates, every answer in flight is the true one for that node and those names,
so is every answer that a receiver gets, and all that the caller ever gets is whether the process
is guarded.** -/
theorem messages_true {hasty : Bool} (h : Reachable hasty exposed p s) :
    (∀ i t, s.tasks[i]? = some t →
      p.at? t.place = some t.node ∧
      (∀ x, x ∈ t.exposed ↔ ExposedAt exposed p t.place x) ∧
      (∀ answer, t.channel = .holding answer → answer = .ok (t.node.guarded t.exposed)) ∧
      (s.enabled (.receive i) = true →
        ∀ kind, State.outcome kind t.channel = .ok (t.node.guarded t.exposed))) ∧
    ∀ answer, s.received = some answer → answer = .ok (p.guarded exposed) := by
  have sound := h.sound
  refine ⟨?_, sound.received⟩
  intro i t ht
  have self := sound.tasks i t ht
  refine ⟨self.node, self.exposed, ?_, ?_⟩
  · intro answer hc
    have carries := self.channel
    rw [hc] at carries
    exact carries
  · intro he
    have hd : s.deliverable i = true := by simp_all [State.enabled]
    exact sound.outcome ht hd

/-- In `rec x. (a.x | x)` the right branch answers first, and nobody waits for the left one. -/
theorem messages_true_of_race :
    ∃ s, Reachable true ∅ (.fix "x" (.par (.act "a" (.var "x")) (.var "x"))) s ∧
      s.received.isSome = true ∧ ∀ answer, s.received = some answer → answer = .ok false := by
  have h := Reachable.follow
    (.initial : Reachable true ∅ (.fix "x" (.par (.act "a" (.var "x")) (.var "x"))) _)
    [.start 0, .start 1, .start 3, .send 3, .receive 3, .send 1, .receive 1, .send 0, .receive 0]
    rfl
  exact ⟨_, h, rfl, (messages_true h).2⟩

end Tasks

end Guardedness
