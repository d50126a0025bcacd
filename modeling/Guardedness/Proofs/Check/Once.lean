import Guardedness.Proofs.Check.Progress

/-!
# Every node is checked once

A check by tasks neither repeats work nor loses any. Three accounts of a state say so, and every
single event keeps them in order.

**Places** (`Reachable.covers_perm`). A task that is not started stands for all nodes from its own
downwards, any other one for its own alone. Together the tasks of a state always stand for the
nodes of the process, each node once.

**Work** (`Sound.work_step_lt`). What a task has still to do, the tasks it has yet to spawn
included, gets less with every event: to start, to send, and to have its channel read or closed.

**What is done stays done** (`Sound.goesOn_step`). A task stays where it is, and an event that has
happened to it is spent for good (`Spent`).
-/

namespace Guardedness

namespace Tasks

open Proc (Answer)

variable {exposed below : NameSet} {p q r : Proc} {s s' s'' : State} {i j c : Id} {t u : Task}
  {f : Task → Task} {e : Event} {events : List Event} {hasty : Bool}

/-! ## The places that tasks stand for -/

/-- The places that a task stands for: until it starts, all that it leads to. -/
def Task.covers (t : Task) : List Place :=
  match t.phase with
  | .ready => t.node.placesFrom t.place
  | _ => [t.place]

def State.covers (s : State) : List Place := s.tasks.toList.flatMap Task.covers

theorem Task.mem_covers (t : Task) : t.place ∈ t.covers := by
  unfold covers
  split
  · exact Proc.mem_placesFrom_self _ _
  · exact List.mem_singleton_self _

theorem Task.covers_of_ne_ready (h : t.phase ≠ .ready) : t.covers = [t.place] := by
  unfold covers
  split
  · contradiction
  · rfl

theorem flatMap_modify_perm {α β : Type} {l : List α} {i : Nat} {a : α} (f : α → α)
    (g : α → List β) (h : l[i]? = some a) :
    (g a ++ (l.modify i f).flatMap g).Perm (g (f a) ++ l.flatMap g) := by
  induction l generalizing i with
  | nil => cases h
  | cons b l ih =>
    cases i with
    | zero =>
      cases h
      simpa using List.perm_append_comm_assoc _ _ _
    | succ i =>
      have tail := (ih h).append_left (g b)
      simp only [List.modify_succ_cons, List.flatMap_cons]
      exact (List.perm_append_comm_assoc _ _ _).trans
        (tail.trans (List.perm_append_comm_assoc _ _ _))

namespace State

theorem covers_update (ht : s.tasks[i]? = some t) :
    (t.covers ++ (s.update i f).covers).Perm ((f t).covers ++ s.covers) := by
  simpa [covers, update] using
    flatMap_modify_perm f Task.covers (l := s.tasks.toList) (i := i) (by simpa using ht)

theorem covers_update_of_eq (ht : s.tasks[i]? = some t) (hf : (f t).covers = t.covers) :
    (s.update i f).covers.Perm s.covers := by
  have change := covers_update (f := f) ht
  rw [hf] at change
  exact (List.perm_append_left_iff _).mp change

end State

/-! ## What an event does to the tasks

Both the places and the work are kept account of task by task, so it is said here once which tasks
an event adds and which it changes. -/

/-- Whether a task in this phase is started and not finished. -/
def Phase.isUnderway : Phase → Bool
  | .ready | .finished => false
  | _ => true

/-- Whether a channel is done with. -/
def Channel.isClosed : Channel → Bool
  | .taken | .dropped => true
  | _ => false

def State.spawnAll (s : State) (us : List Task) : State := us.foldl State.spawn s

theorem Phase.isUnderway_of_awaits {phase : Phase} (h : phase.awaits c = true) :
    phase.isUnderway = true := by
  cases phase <;> simp_all [Phase.awaits, Phase.isUnderway]

namespace State

@[simp] theorem toList_spawnAll (us : List Task) :
    (s.spawnAll us).tasks.toList = s.tasks.toList ++ us := by
  induction us generalizing s with
  | nil => simp [spawnAll]
  | cons u us ih => simpa [spawnAll, spawn] using ih (s := s.spawn u)

theorem getElem?_spawnAll (us : List Task) (ht : s.tasks[i]? = some t) :
    (s.spawnAll us).tasks[i]? = some t := by
  have hi : i < s.tasks.toList.length := by simpa using lt_of_getElem? ht
  rw [← Array.getElem?_toList, toList_spawnAll, List.getElem?_append_left hi]
  simpa using ht

/-- A task that starts has its phase changed, and adds tasks that stand for the places below it and
not for its own. -/
theorem start_cases (s : State) (i : Id) (t : Task) :
    ∃ us phase, phase.isUnderway = true ∧ s.start i t = (s.spawnAll us).setPhase i phase ∧
      (∀ u ∈ us, u.phase = .ready ∧ u.channel = .empty) ∧
      t.node.placesFrom t.place = t.place :: us.flatMap Task.covers := by
  unfold start
  split
  · next answer hn =>
    exact ⟨[], _, rfl, rfl, by simp, by simp [Proc.placesFrom_of_need_nothing hn]⟩
  · next below q hn =>
    refine ⟨[_], _, rfl, rfl, by simp [Task.spawned], ?_⟩
    simp [Proc.placesFrom_of_need_only hn, Task.covers, Task.spawned]
  · next below q r hn =>
    refine ⟨[_, _], _, rfl, rfl, by simp [Task.spawned], ?_⟩
    simp [Proc.placesFrom_of_need_both hn, Task.covers, Task.spawned]

/-- A task that hears an answer goes on, and turns away from its other child at most. -/
theorem take_cases (hasty : Bool) (s : State) (j : Id) {phase : Phase} (answer : Answer)
    (h : phase.awaits i = true) :
    ∃ phase', phase'.isUnderway = true ∧
      (s.take hasty j i phase answer = s.setPhase j phase' ∨
        ∃ c, s.take hasty j i phase answer = (s.setPhase j phase').setChannel c .dropped) := by
  unfold take
  split
  · dsimp only
    split
    · exact ⟨_, rfl, .inr ⟨_, rfl⟩⟩
    · split
      · exact ⟨_, rfl, .inr ⟨_, rfl⟩⟩
      · exact ⟨_, rfl, .inl rfl⟩
  · exact ⟨_, rfl, .inl rfl⟩
  · exact ⟨_, rfl, .inl rfl⟩

end State

/-- What hearing an answer changes in a state: the caller keeps it, or a task that was waiting goes
on and drops the channel of a child it has no use for. -/
inductive Hearing (s : State) : State → Prop
  | caller (answer : Answer) : Hearing s { s with received := some answer }
  | above {j : Id} {above : Task} {phase : Phase} (hj : s.tasks[j]? = some above)
    (old : above.phase.isUnderway = true) (new : phase.isUnderway = true) :
    Hearing s (s.setPhase j phase)
  | early {j : Id} {above : Task} {phase : Phase} (hj : s.tasks[j]? = some above)
    (old : above.phase.isUnderway = true) (new : phase.isUnderway = true) (c : Id) :
    Hearing s ((s.setPhase j phase).setChannel c .dropped)

/-- When an answer is received, its channel is read after the answer was heard. -/
theorem Sound.receive_cases (h : Sound exposed p s) (he : s.enabled (.receive i) = true) :
    ∃ t heard, Hearing s heard ∧ heard.tasks[i]? = some t ∧ t.channel.isClosed = false ∧
      s.step hasty (.receive i) = heard.setChannel i .taken := by
  obtain ⟨t, ht, hd, hp⟩ := State.exists_of_enabled_receive he
  have hopen : t.channel.isClosed = false := by
    cases hc : t.channel <;> simp_all [State.deliverable, State.channel?, Channel.isClosed]
  rw [State.step_receive ht]
  simp only [State.receive, h.outcome ht hd]
  rcases hp with ⟨hp, -⟩ | ⟨j, above, hp, hj, hawaits⟩
  · exact ⟨t, _, .caller (.ok t.truth), ht, hopen, by simp only [hp]⟩
  · obtain ⟨-, hti, -⟩ : _ ∧ (s.take hasty j i above.phase (.ok t.truth)).tasks[i]? = some t ∧ _ :=
      h.take hj ht hp hawaits
    have old := Phase.isUnderway_of_awaits hawaits
    obtain ⟨phase, new, heard | ⟨c, heard⟩⟩ := State.take_cases hasty s j (.ok t.truth) hawaits
    · exact ⟨t, _, heard ▸ .above hj old new, hti, hopen, by simp only [hp, hj]⟩
    · exact ⟨t, _, heard ▸ .early hj old new c, hti, hopen, by simp only [hp, hj]⟩

/-! ## Every place is stood for once -/

theorem Task.covers_of_isUnderway (h : t.phase.isUnderway = true) : t.covers = [t.place] :=
  covers_of_ne_ready fun hr => by simp [hr, Phase.isUnderway] at h

theorem State.covers_setPhase {phase : Phase} (ht : s.tasks[i]? = some t)
    (old : t.phase.isUnderway = true) (new : phase.isUnderway = true) :
    (s.setPhase i phase).covers.Perm s.covers := by
  refine covers_update_of_eq ht ?_
  rw [Task.covers_of_isUnderway new, Task.covers_of_isUnderway old]

@[simp] theorem State.update_of_none (h : s.tasks[i]? = none) : s.update i f = s := by
  have tasks : s.tasks.modify i f = s.tasks := by
    apply Array.ext_getElem?
    intro k
    by_cases hk : i = k
    · subst hk
      rw [Array.getElem?_modify, h]
      simp
    · rw [Array.getElem?_modify, if_neg hk]
  rw [update, tasks]

theorem State.covers_setChannel {channel : Channel} :
    (s.setChannel i channel).covers.Perm s.covers := by
  cases ht : s.tasks[i]? with
  | none => rw [setChannel, update_of_none ht]
  | some t => exact covers_update_of_eq ht rfl

theorem State.covers_start (ht : s.tasks[i]? = some t) (hphase : t.phase = .ready) :
    (s.start i t).covers.Perm s.covers := by
  obtain ⟨us, phase, new, start, -, places⟩ := start_cases s i t
  have change := covers_update (f := ({ · with phase := phase })) (getElem?_spawnAll us ht)
  have old : t.covers = t.place :: us.flatMap Task.covers := by rw [Task.covers, hphase, ← places]
  have added : (s.spawnAll us).covers = s.covers ++ us.flatMap Task.covers := by simp [covers]
  rw [old, added, Task.covers_of_isUnderway (t := { t with phase := phase }) new] at change
  simp only [List.cons_append, List.nil_append, List.perm_cons] at change
  rw [start]
  exact (List.perm_append_left_iff _).mp (change.trans List.perm_append_comm)

theorem Hearing.covers_perm (h : Hearing s s') : s'.covers.Perm s.covers := by
  cases h with
  | caller => exact List.Perm.refl _
  | above hj old new => exact State.covers_setPhase hj old new
  | early hj old new c => exact State.covers_setChannel.trans (State.covers_setPhase hj old new)

theorem Sound.covers_step (h : Sound exposed p s) (he : s.enabled e = true) :
    (s.step hasty e).covers.Perm s.covers := by
  cases e with
  | start i =>
    obtain ⟨t, ht, hphase⟩ := State.exists_of_enabled_start he
    rw [State.step_start ht]
    exact State.covers_start ht hphase
  | send i =>
    obtain ⟨t, answer, ht, hphase⟩ := State.exists_of_enabled_send he
    rw [State.step_send ht, State.send, hphase]
    exact State.covers_update_of_eq ht (by simp [Task.covers, Task.finish, hphase])
  | receive i =>
    obtain ⟨t, heard, hearing, -, -, step⟩ := h.receive_cases he
    rw [step]
    exact State.covers_setChannel.trans hearing.covers_perm

/-- In every reachable state the tasks stand for each place of the process once. -/
theorem Reachable.covers_perm (h : Reachable hasty exposed p s) :
    s.covers.Perm (p.placesFrom []) := by
  induction h with
  | initial => simp [State.covers, State.initial, Task.covers, Task.spawned]
  | step h he ih => exact (h.sound.covers_step he).trans ih

theorem Reachable.nodup_places (h : Reachable hasty exposed p s) :
    (s.tasks.toList.map Task.place).Nodup := by
  have nodup : s.covers.Nodup := h.covers_perm.nodup_iff.mpr (Proc.nodup_placesFrom _ _)
  have apart := (List.pairwise_flatMap.mp nodup).2
  exact List.pairwise_map.mpr
    (apart.imp fun {t u} distinct => distinct _ t.mem_covers _ u.mem_covers)

/-- No two tasks check the same node. -/
theorem Reachable.eq_of_place (h : Reachable hasty exposed p s) (hi : s.tasks[i]? = some t)
    (hj : s.tasks[j]? = some u) (hplace : t.place = u.place) : i = j := by
  have hlt : i < (s.tasks.toList.map Task.place).length := by simpa using lt_of_getElem? hi
  exact (List.getElem?_inj hlt h.nodup_places).mp (by simp [hi, hj, hplace])

/-- When all tasks are started there is one for each place. -/
theorem Reachable.places_perm (h : Reachable hasty exposed p s)
    (started : ∀ (i : Id) (t : Task), s.tasks[i]? = some t → t.phase ≠ .ready) :
    (s.tasks.toList.map Task.place).Perm (p.placesFrom []) := by
  have alone : ∀ t ∈ s.tasks.toList, t.covers = [t.place] := by
    intro t ht
    obtain ⟨i, hi⟩ := List.mem_iff_getElem?.mp ht
    exact Task.covers_of_ne_ready (started i t (by simpa using hi))
  rw [List.map_eq_flatMap, List.flatMap_def, ← List.map_congr_left alone, ← List.flatMap_def]
  exact h.covers_perm

/-! ## Every event is work done -/

/-- What a task in a phase, at a node of weight `w`, has still to do, and the tasks that it has yet
to spawn: three things for each task, of which having its channel read is not counted for itself. -/
def Phase.work (w : Nat) : Phase → Nat
  | .ready => 3 * w - 1
  | .finished => 0
  | _ => 1

/-- What has still to be done to a channel. -/
def Channel.work (c : Channel) : Nat := if c.isClosed then 0 else 1

def Task.work (t : Task) : Nat := t.phase.work t.node.weight + t.channel.work

/-- What has still to be done about all tasks. -/
def State.work (s : State) : Nat := total (s.tasks.toList.map Task.work)

theorem Phase.work_of_isUnderway {phase : Phase} {w : Nat} (h : phase.isUnderway = true) :
    phase.work w = 1 := by
  cases phase <;> simp_all [Phase.isUnderway, Phase.work]

theorem Task.work_of_ready (hphase : t.phase = .ready) (hchannel : t.channel = .empty) :
    t.work = 3 * t.covers.length := by
  have := t.node.weight_pos
  rw [work, covers, hphase, hchannel]
  simp only [Phase.work, Channel.work, Channel.isClosed, Proc.length_placesFrom]
  simp
  omega

theorem total_work_of_ready {us : List Task}
    (h : ∀ u ∈ us, u.phase = .ready ∧ u.channel = .empty) :
    total (us.map Task.work) = 3 * (us.flatMap Task.covers).length := by
  induction us with
  | nil => rfl
  | cons u us ih =>
    obtain ⟨⟨hphase, hchannel⟩, h⟩ := List.forall_mem_cons.mp h
    simp [ih h, Task.work_of_ready hphase hchannel, Nat.mul_add]

namespace State

theorem work_setPhase (phase : Phase) (ht : s.tasks[i]? = some t) :
    (s.setPhase i phase).work + t.phase.work t.node.weight =
      s.work + phase.work t.node.weight := by
  have change := total_update (f := ({ · with phase := phase })) Task.work ht
  simp only [Task.work] at change
  unfold work setPhase
  omega

theorem work_setChannel (channel : Channel) (ht : s.tasks[i]? = some t) :
    (s.setChannel i channel).work + t.channel.work = s.work + channel.work := by
  have change := total_update (f := ({ · with channel := channel })) Task.work ht
  simp only [Task.work] at change
  unfold work setChannel
  omega

theorem work_start (ht : s.tasks[i]? = some t) (hphase : t.phase = .ready) :
    (s.start i t).work < s.work := by
  obtain ⟨us, phase, new, start, ready, places⟩ := start_cases s i t
  have change := work_setPhase phase (getElem?_spawnAll us ht)
  have added : (s.spawnAll us).work = s.work + 3 * (us.flatMap Task.covers).length := by
    simp [work, total_work_of_ready ready]
  have weight : t.node.weight = (us.flatMap Task.covers).length + 1 := by
    rw [← Proc.length_placesFrom t.place, places, List.length_cons]
  rw [hphase, Phase.work_of_isUnderway new, Phase.work, added] at change
  rw [start]
  omega

theorem work_send {answer : Answer} (ht : s.tasks[i]? = some t)
    (hphase : t.phase = .answered answer) : (s.send i t).work < s.work := by
  have change := total_update (f := Task.finish answer) Task.work ht
  have channel : (t.channel.put answer).work ≤ t.channel.work := by
    cases t.channel <;> exact Nat.le_refl _
  simp only [Task.work, Task.finish, hphase, Phase.work] at change
  rw [send, hphase]
  unfold work
  dsimp only
  omega

theorem work_close_le {channel : Channel} (h : channel.isClosed = true) :
    (s.setChannel i channel).work ≤ s.work := by
  cases ht : s.tasks[i]? with
  | none => exact Nat.le_of_eq (by rw [setChannel, update_of_none ht])
  | some t =>
    have change := work_setChannel channel ht
    simp only [Channel.work, h] at change
    simp at change
    omega

end State

theorem Hearing.work_le (h : Hearing s s') : s'.work ≤ s.work := by
  have setPhase {j : Id} {above : Task} {phase : Phase} (hj : s.tasks[j]? = some above)
      (old : above.phase.isUnderway = true) (new : phase.isUnderway = true) :
      (s.setPhase j phase).work = s.work := by
    have change := State.work_setPhase phase hj
    rw [Phase.work_of_isUnderway old, Phase.work_of_isUnderway new] at change
    exact Nat.add_right_cancel change
  cases h with
  | caller => exact Nat.le_refl _
  | above hj old new => exact Nat.le_of_eq (setPhase hj old new)
  | early hj old new c =>
    exact Nat.le_trans (State.work_close_le rfl) (Nat.le_of_eq (setPhase hj old new))

/-- Every event that happens is work done. -/
theorem Sound.work_step_lt (h : Sound exposed p s) (he : s.enabled e = true) :
    (s.step hasty e).work < s.work := by
  cases e with
  | start i =>
    obtain ⟨t, ht, hphase⟩ := State.exists_of_enabled_start he
    rw [State.step_start ht]
    exact State.work_start ht hphase
  | send i =>
    obtain ⟨t, answer, ht, hphase⟩ := State.exists_of_enabled_send he
    rw [State.step_send ht]
    exact State.work_send ht hphase
  | receive i =>
    obtain ⟨t, heard, hearing, ht, hopen, step⟩ := h.receive_cases he
    have change := State.work_setChannel .taken ht
    have le := hearing.work_le
    simp only [Channel.work, hopen] at change
    simp [Channel.isClosed] at change
    rw [step]
    omega

/-! ## What is done stays done -/

/-- What a task may become: it stays where it is, and no more is undone of what happened to it. -/
structure Task.Becomes (t u : Task) : Prop where
  node : u.node = t.node
  place : u.place = t.place
  started : t.phase ≠ .ready → u.phase ≠ .ready
  finished : t.phase = .finished → u.phase = .finished
  closed : t.channel.isClosed = true → u.channel.isClosed = true

theorem Task.Becomes.refl (t : Task) : t.Becomes t := ⟨rfl, rfl, id, id, id⟩

theorem Task.Becomes.trans {v : Task} (h : t.Becomes u) (h' : u.Becomes v) : t.Becomes v where
  node := h'.node.trans h.node
  place := h'.place.trans h.place
  started := h'.started ∘ h.started
  finished := h'.finished ∘ h.finished
  closed := h'.closed ∘ h.closed

/-- The tasks of one state are still there in another. -/
def State.GoesOn (s s' : State) : Prop :=
  ∀ (i : Id) (t : Task), s.tasks[i]? = some t → ∃ u, s'.tasks[i]? = some u ∧ t.Becomes u

namespace State

theorem GoesOn.refl (s : State) : s.GoesOn s := fun _ t ht => ⟨t, ht, .refl t⟩

theorem GoesOn.trans (h : s.GoesOn s') (h' : s'.GoesOn s'') : s.GoesOn s'' := by
  intro i t ht
  obtain ⟨u, hu, first⟩ := h i t ht
  obtain ⟨v, hv, second⟩ := h' i u hu
  exact ⟨v, hv, first.trans second⟩

theorem goesOn_spawnAll (us : List Task) : s.GoesOn (s.spawnAll us) :=
  fun _ t ht => ⟨t, getElem?_spawnAll us ht, .refl t⟩

theorem goesOn_update (h : ∀ t, s.tasks[i]? = some t → t.Becomes (f t)) :
    s.GoesOn (s.update i f) := by
  intro k t ht
  by_cases hk : i = k
  · subst hk
    exact ⟨f t, getElem?_update_self f ht, h t ht⟩
  · exact ⟨t, (getElem?_update_ne f hk).trans ht, .refl t⟩

/-- A task that is not finished may change its phase, but not back to being ready. -/
theorem goesOn_setPhase {phase : Phase} (ht : s.tasks[i]? = some t) (old : t.phase ≠ .finished)
    (new : phase.isUnderway = true) : s.GoesOn (s.setPhase i phase) := by
  refine goesOn_update fun u hu => ?_
  obtain rfl : t = u := Option.some.inj (ht.symm.trans hu)
  refine ⟨rfl, rfl, fun _ => ?_, fun hf => absurd hf old, id⟩
  rintro (rfl : phase = .ready)
  cases new

theorem goesOn_close {channel : Channel} (h : channel.isClosed = true) :
    s.GoesOn (s.setChannel i channel) :=
  goesOn_update fun _ _ => ⟨rfl, rfl, id, id, fun _ => h⟩

end State

theorem Hearing.goesOn (h : Hearing s s') : s.GoesOn s' := by
  have unfinished {phase : Phase} (h : phase.isUnderway = true) : phase ≠ .finished := by
    rintro rfl
    cases h
  cases h with
  | caller => exact State.GoesOn.refl s
  | above hj old new => exact State.goesOn_setPhase hj (unfinished old) new
  | early hj old new c =>
    exact (State.goesOn_setPhase hj (unfinished old) new).trans (State.goesOn_close rfl)

theorem Sound.goesOn_step (h : Sound exposed p s) (he : s.enabled e = true) :
    s.GoesOn (s.step hasty e) := by
  cases e with
  | start i =>
    obtain ⟨t, ht, hphase⟩ := State.exists_of_enabled_start he
    obtain ⟨us, phase, new, start, -, -⟩ := State.start_cases s i t
    rw [State.step_start ht, start]
    refine (State.goesOn_spawnAll us).trans ?_
    exact State.goesOn_setPhase (State.getElem?_spawnAll us ht) (by simp [hphase]) new
  | send i =>
    obtain ⟨t, answer, ht, hphase⟩ := State.exists_of_enabled_send he
    rw [State.step_send ht, State.send, hphase]
    refine State.goesOn_update fun u _ => ⟨rfl, rfl, by simp [Task.finish], fun _ => rfl, ?_⟩
    cases hc : u.channel <;> simp [Task.finish, Channel.put, Channel.isClosed, hc]
  | receive i =>
    obtain ⟨t, heard, hearing, -, -, step⟩ := h.receive_cases he
    rw [step]
    exact hearing.goesOn.trans (State.goesOn_close rfl)

/-- An event that has happened, or cannot happen any more. -/
def Spent (s : State) : Event → Prop
  | .start i => ∃ t, s.tasks[i]? = some t ∧ t.phase ≠ .ready
  | .send i => ∃ t, s.tasks[i]? = some t ∧ t.phase = .finished
  | .receive i => ∃ t, s.tasks[i]? = some t ∧ t.channel.isClosed = true

theorem Spent.goesOn (h : Spent s e) (later : s.GoesOn s') : Spent s' e := by
  cases e with
  | start i =>
    obtain ⟨t, ht, started⟩ := h
    obtain ⟨u, hu, becomes⟩ := later i t ht
    exact ⟨u, hu, becomes.started started⟩
  | send i =>
    obtain ⟨t, ht, finished⟩ := h
    obtain ⟨u, hu, becomes⟩ := later i t ht
    exact ⟨u, hu, becomes.finished finished⟩
  | receive i =>
    obtain ⟨t, ht, closed⟩ := h
    obtain ⟨u, hu, becomes⟩ := later i t ht
    exact ⟨u, hu, becomes.closed closed⟩

theorem Spent.not_enabled (h : Spent s e) : s.enabled e = false := by
  cases e with
  | start i =>
    obtain ⟨t, ht, started⟩ := h
    cases hphase : t.phase <;> simp_all [State.enabled, State.phase?]
  | send i =>
    obtain ⟨t, ht, finished⟩ := h
    simp [State.enabled, State.phase?, ht, finished]
  | receive i =>
    obtain ⟨t, ht, closed⟩ := h
    have hd : s.deliverable i = false := by
      cases hc : t.channel <;>
        simp_all [State.deliverable, State.channel?, Channel.isClosed]
    simp [State.enabled, hd]

theorem Sound.spent_step (h : Sound exposed p s) (he : s.enabled e = true) :
    Spent (s.step hasty e) e := by
  cases e with
  | start i =>
    obtain ⟨t, ht, -⟩ := State.exists_of_enabled_start he
    obtain ⟨phase, hphase, started⟩ := State.phase?_start ht
    obtain ⟨u, hu, rfl⟩ := Option.map_eq_some_iff.mp hphase
    exact ⟨u, by rw [State.step_start ht, hu], started⟩
  | send i =>
    obtain ⟨t, answer, ht, hphase⟩ := State.exists_of_enabled_send he
    rw [State.step_send ht, State.send, hphase]
    exact ⟨_, State.getElem?_update_self _ ht, rfl⟩
  | receive i =>
    obtain ⟨t, heard, -, ht, -, step⟩ := h.receive_cases he
    rw [step]
    exact ⟨_, State.getElem?_update_self _ ht, rfl⟩

theorem Sound.goesOn_follow (h : Sound exposed p s) (hs : s.follow hasty events = some s') :
    s.GoesOn s' := by
  induction events generalizing s with
  | nil =>
    cases hs
    exact State.GoesOn.refl _
  | cons e events ih =>
    rw [State.follow] at hs
    split at hs
    · next he => exact (h.goesOn_step he).trans (ih (h.step he) hs)
    · cases hs

/-- What is spent does not happen, and nothing happens twice. -/
theorem Sound.nodup_of_follow (h : Sound exposed p s) (hs : s.follow hasty events = some s') :
    events.Nodup ∧ ∀ e, Spent s e → e ∉ events := by
  induction events generalizing s with
  | nil => simp
  | cons e events ih =>
    rw [State.follow] at hs
    split at hs
    · next he =>
      obtain ⟨nodup, fresh⟩ := ih (h.step he) hs
      refine ⟨List.nodup_cons.mpr ⟨fresh e (h.spent_step he), nodup⟩, ?_⟩
      intro e' spent hmem
      rcases List.mem_cons.mp hmem with rfl | hmem
      · simp [spent.not_enabled] at he
      · exact fresh e' (spent.goesOn (h.goesOn_step he)) hmem
    · cases hs

/-! ## Every node is checked once -/

def Event.task : Event → Id
  | .start i | .send i | .receive i => i

theorem State.lt_of_enabled (he : s.enabled e = true) : e.task < s.tasks.size := by
  cases e with
  | start i =>
    obtain ⟨t, ht, -⟩ := exists_of_enabled_start he
    exact lt_of_getElem? ht
  | send i =>
    obtain ⟨t, -, ht, -⟩ := exists_of_enabled_send he
    exact lt_of_getElem? ht
  | receive i =>
    obtain ⟨t, ht, -⟩ := exists_of_enabled_receive he
    exact lt_of_getElem? ht

/-- Whether nothing can happen is seen by going through the tasks. -/
theorem State.quiet_iff : s.Quiet ↔ ∀ i < s.tasks.size, s.enabled (.start i) = false ∧
    s.enabled (.send i) = false ∧ s.enabled (.receive i) = false := by
  refine ⟨fun quiet i _ => ⟨quiet _, quiet _, quiet _⟩, fun h e => ?_⟩
  refine Bool.eq_false_iff.mpr fun he => ?_
  obtain ⟨start, send, receive⟩ := h e.task (lt_of_enabled he)
  cases e <;> simp_all [Event.task]

instance (s : State) : Decidable s.Quiet := decidable_of_iff' _ State.quiet_iff

/-- **No work is done twice, and none is lost.** In every reachable state, no two tasks check the
same node, every event that happens leaves less to do, and something can happen as long as a task is
not finished. In every run no task starts, sends or is received twice. When nothing more can happen
there is one task for each node, and all of them are finished, also those that nobody waited for. -/
theorem checked_once (hasty : Bool) (exposed : NameSet) (p : Proc) :
    (∀ s, Reachable hasty exposed p s →
      (∀ (i j : Id) (t u : Task), s.tasks[i]? = some t → s.tasks[j]? = some u →
        t.place = u.place → i = j) ∧
      (∀ e, s.enabled e = true → (s.step hasty e).work < s.work) ∧
      ((∃ t ∈ s.tasks, t.phase ≠ .finished) → ∃ e, s.enabled e = true)) ∧
    ∀ events s, (State.initial exposed p).follow hasty events = some s →
      events.Nodup ∧
      (∀ more s', s.follow hasty more = some s' → ∀ (i : Id) (t : Task), s.tasks[i]? = some t →
        ∃ u, s'.tasks[i]? = some u ∧ u.place = t.place ∧ u.node = t.node) ∧
      (s.Quiet → s.tasks.size = p.size ∧ (∀ t ∈ s.tasks, t.phase = .finished) ∧
        ∀ place q, p.at? place = some q → ∃ t ∈ s.tasks, t.place = place ∧ t.node = q) := by
  constructor
  · intro s reachable
    refine ⟨fun i j t u => reachable.eq_of_place, fun e he => reachable.sound.work_step_lt he, ?_⟩
    rintro ⟨t, ht, unfinished⟩
    obtain ⟨i, hi⟩ := Array.mem_iff_getElem?.mp ht
    -- Where nothing can happen all tasks are finished.
    refine Classical.byContradiction fun none => unfinished ?_
    have quiet : s.Quiet := fun e => Bool.eq_false_iff.mpr fun he => none ⟨e, he⟩
    exact reachable.sound.finished_of_quiet quiet _ i t rfl hi
  · intro events s hs
    have reachable : Reachable hasty exposed p s := Reachable.initial.follow events hs
    have sound := reachable.sound
    refine ⟨(Sound.initial.nodup_of_follow hs).1, ?_, ?_⟩
    · intro more s' hs' i t ht
      obtain ⟨u, hu, becomes⟩ := sound.goesOn_follow hs' i t ht
      exact ⟨u, hu, becomes.place, becomes.node⟩
    · intro quiet
      have finished (i : Id) (t : Task) (ht : s.tasks[i]? = some t) : t.phase = .finished :=
        sound.finished_of_quiet quiet _ i t rfl ht
      have places := reachable.places_perm fun i t ht => by simp [finished i t ht]
      refine ⟨?_, ?_, ?_⟩
      · simpa [Proc.length_placesFrom, ← Term.size_eq_weight] using places.length_eq
      · intro t ht
        obtain ⟨i, hi⟩ := Array.mem_iff_getElem?.mp ht
        exact finished i t hi
      · intro place q hq
        have hplace := places.mem_iff.mpr (Proc.placesFrom_at hq (Proc.mem_placesFrom_self _ _))
        obtain ⟨t, ht, rfl⟩ := List.mem_map.mp hplace
        have ht := Array.mem_toList_iff.mp ht
        obtain ⟨i, hi⟩ := Array.mem_iff_getElem?.mp ht
        have node := (sound.tasks i t hi).node
        exact ⟨t, ht, rfl, Option.some.inj (node.symm.trans hq)⟩

/-- In `rec x. (a.x | x)` the right branch answers *no* before the left one has started, and the
tasks below the left one run on to their end. -/
theorem checked_once_of_race :
    ∃ events s, (State.initial ∅ (.fix "x" (.par (.act "a" (.var "x")) (.var "x")))).follow true
        events = some s ∧ s.Quiet ∧
      (∀ (i j : Id) (t u : Task), s.tasks[i]? = some t → s.tasks[j]? = some u →
        t.place = u.place → i = j) ∧
      events.Nodup ∧ s.tasks.size = 5 ∧ ∀ t ∈ s.tasks, t.phase = .finished := by
  let p : Proc := .fix "x" (.par (.act "a" (.var "x")) (.var "x"))
  let events : List Event := [.start 0, .start 1, .start 3, .send 3, .receive 3, .send 1,
    .receive 1, .send 0, .receive 0, .start 2, .start 4, .send 4, .receive 4, .send 2]
  have run : ((State.initial ∅ p).follow true events).any (decide ·.Quiet) = true := by
    decide +kernel
  obtain ⟨s, hs⟩ : ∃ s, (State.initial ∅ p).follow true events = some s := by
    cases hs : (State.initial ∅ p).follow true events <;> simp_all
  have quiet : s.Quiet := by simpa [hs] using run
  obtain ⟨apart, -, -⟩ := (checked_once true ∅ p).1 s (Reachable.initial.follow events hs)
  obtain ⟨nodup, -, ends⟩ := (checked_once true ∅ p).2 events s hs
  obtain ⟨size, finished, -⟩ := ends quiet
  exact ⟨events, s, hs, quiet, apart, nodup, size.trans (Term.size_eq_weight p), finished⟩

end Tasks

end Guardedness
