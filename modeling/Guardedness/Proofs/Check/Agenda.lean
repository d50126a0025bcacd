import Guardedness.Check.Tasks

/-!
# The agenda of a run

A run of a check by tasks never asks for all possible events. It keeps an agenda and adds to it,
after each event, those that the event may have made possible. Two statements say that this is
enough.

**Nothing is forgotten** (`mem_woken_or_enabled`). An event that is possible after another one was
woken by it or was possible before.

**The agenda runs out** (`woken_credit_le`). Every task still has a *credit* of entries it can put
on the agenda, those of the tasks it has yet to spawn included; an entry costs its task one. A task
that is not started has three for each node below its own and two for itself, since the entry for
its start is on the agenda already. So as many events as there are entries and credit suffice, and
that is three for each node at first.
-/

namespace Guardedness

namespace Tasks

open Proc (Answer)

variable {s : State} {e e' : Event} {i j k : Id} {t above : Task} {phase : Phase}
  {channel : Channel} {hasty : Bool}

namespace State

/-! ## What changes with a task -/

theorem phase?_setPhase_self (h : s.tasks[i]? = some t) :
    (s.setPhase i phase).phase? i = some phase := by
  simp [phase?, setPhase, getElem?_update_self _ h]

theorem phase?_setPhase_ne (h : i ≠ k) : (s.setPhase i phase).phase? k = s.phase? k := by
  simp [phase?, setPhase, getElem?_update_ne _ h]

@[simp] theorem channel?_setPhase : (s.setPhase i phase).channel? k = s.channel? k := by
  by_cases h : i = k
  · cases hk : s.tasks[k]? <;> simp [channel?, setPhase, getElem?_update, h, hk]
  · simp [channel?, setPhase, getElem?_update_ne _ h]

@[simp] theorem parent?_setPhase : (s.setPhase i phase).parent? k = s.parent? k := by
  by_cases h : i = k
  · cases hk : s.tasks[k]? <;> simp [parent?, setPhase, getElem?_update, h, hk]
  · simp [parent?, setPhase, getElem?_update_ne _ h]

@[simp] theorem phase?_setChannel : (s.setChannel i channel).phase? k = s.phase? k := by
  by_cases h : i = k
  · cases hk : s.tasks[k]? <;> simp [phase?, setChannel, getElem?_update, h, hk]
  · simp [phase?, setChannel, getElem?_update_ne _ h]

@[simp] theorem parent?_setChannel : (s.setChannel i channel).parent? k = s.parent? k := by
  by_cases h : i = k
  · cases hk : s.tasks[k]? <;> simp [parent?, setChannel, getElem?_update, h, hk]
  · simp [parent?, setChannel, getElem?_update_ne _ h]

theorem channel?_setChannel_ne (h : i ≠ k) :
    (s.setChannel i channel).channel? k = s.channel? k := by
  simp [channel?, setChannel, getElem?_update_ne _ h]

theorem channel?_setChannel_self :
    (s.setChannel i channel).channel? i = s.tasks[i]?.map fun _ => channel := by
  cases hi : s.tasks[i]? <;> simp [channel?, setChannel, getElem?_update, hi]

@[simp] theorem received_setPhase : (s.setPhase i phase).received = s.received := rfl

@[simp] theorem awaited_setChannel : (s.setChannel i channel).awaited k = s.awaited k := by
  simp only [awaited, parent?_setChannel, phase?_setChannel]
  rfl

@[simp] theorem deliverable_setPhase :
    (s.setPhase i phase).deliverable k = s.deliverable k := by
  simp [deliverable]

@[simp] theorem parent?_take {answer : Answer} :
    (s.take hasty j i phase answer).parent? k = s.parent? k := by
  unfold take
  split
  · dsimp only
    split
    · simp
    · split <;> simp
  · simp
  · simp

/-! ## What becomes possible -/

/-- A new phase of a task makes possible what it asks for. -/
theorem enabled_setPhase (ht : s.tasks[i]? = some t) (h : (s.setPhase i phase).enabled e = true) :
    s.enabled e = true ∨ (e = .start i ∧ phase = .ready) ∨
      (∃ answer, e = .send i ∧ phase = .answered answer) ∨
      ∃ k, e = .receive k ∧ phase.awaits k = true ∧ s.deliverable k = true ∧
        s.parent? k = some i := by
  cases e with
  | start k =>
    by_cases hk : i = k
    · subst hk
      rw [enabled, phase?_setPhase_self ht] at h
      cases phase <;> simp_all
    · rw [enabled, phase?_setPhase_ne hk] at h
      exact .inl h
  | send k =>
    by_cases hk : i = k
    · subst hk
      rw [enabled, phase?_setPhase_self ht] at h
      cases phase <;> simp_all
    · rw [enabled, phase?_setPhase_ne hk] at h
      exact .inl h
  | receive k =>
    obtain ⟨hd, ha⟩ : s.deliverable k = true ∧ (s.setPhase i phase).awaited k = true := by
      simpa [enabled] using h
    rw [awaited, parent?_setPhase] at ha
    cases hp : s.parent? k with
    | none =>
      rw [hp] at ha
      exact .inl (by simpa [enabled, awaited, hd, hp] using ha)
    | some j =>
      simp only [hp] at ha
      by_cases hj : i = j
      · subst hj
        rw [phase?_setPhase_self ht] at ha
        exact .inr (.inr (.inr ⟨k, rfl, ha, hd, hp⟩))
      · rw [phase?_setPhase_ne hj] at ha
        exact .inl (by simpa [enabled, awaited, hd, hp] using ha)

/-- Nothing comes out of a channel that is closed, and nothing else changes. -/
theorem enabled_setChannel (hc : channel = .taken ∨ channel = .dropped)
    (h : (s.setChannel i channel).enabled e = true) : s.enabled e = true ∧ e ≠ .receive i := by
  cases e with
  | start k => exact ⟨by simpa [enabled] using h, by simp⟩
  | send k => exact ⟨by simpa [enabled] using h, by simp⟩
  | receive k =>
    by_cases hk : i = k
    · subst hk
      exfalso
      rw [enabled, deliverable, channel?_setChannel_self] at h
      rcases hc with rfl | rfl <;> cases hi : s.tasks[i]? <;> simp [hi] at h
    · refine ⟨?_, by simpa using Ne.symm hk⟩
      simpa [enabled, deliverable, channel?_setChannel_ne hk] using h

theorem enabled_spawn {node : Proc} {exposed : NameSet} {place : Place} {parent : Option Id}
    (h : (s.spawn (.spawned node exposed place parent)).enabled e = true) :
    s.enabled e = true ∨ e = .start s.tasks.size := by
  cases e with
  | start k =>
    by_cases hk : k = s.tasks.size
    · exact .inr (by rw [hk])
    · exact .inl (by simpa [enabled, phase?, getElem?_spawn, hk] using h)
  | send k =>
    by_cases hk : k = s.tasks.size
    · rw [enabled, phase?, hk, getElem?_spawn_new] at h
      simp [Task.spawned] at h
    · exact .inl (by simpa [enabled, phase?, getElem?_spawn, hk] using h)
  | receive k =>
    by_cases hk : k = s.tasks.size
    · rw [enabled, deliverable, channel?, hk, getElem?_spawn_new] at h
      simp [Task.spawned] at h
    · refine .inl ?_
      simp only [enabled, deliverable, awaited, channel?, parent?, phase?, getElem?_spawn, hk,
        if_false, Bool.and_eq_true] at h ⊢
      refine ⟨h.1, ?_⟩
      cases hp : s.tasks[k]?.bind Task.parent with
      | none => simpa [hp] using h.2
      | some j =>
        have hj : j ≠ s.tasks.size := by
          rintro rfl
          simp [hp, Task.spawned, Phase.awaits] at h
        simpa [hp, hj] using h.2

theorem enabled_send (h : (s.send i t).enabled e = true) (ht : s.tasks[i]? = some t) :
    s.enabled e = true ∨ e = .receive i := by
  unfold send at h
  split at h
  · next answer hphase =>
    have phase_ne {k : Id} (hk : i ≠ k) :
        (s.update i (Task.finish answer)).phase? k = s.phase? k := by
      simp [phase?, getElem?_update_ne _ hk]
    have phase_self : (s.update i (Task.finish answer)).phase? i = some .finished := by
      simp [phase?, getElem?_update_self _ ht, Task.finish]
    cases e with
    | start k =>
      by_cases hk : i = k
      · rw [← hk, enabled, phase_self] at h
        cases h
      · exact .inl (by rwa [enabled, phase_ne hk] at h)
    | send k =>
      by_cases hk : i = k
      · rw [← hk, enabled, phase_self] at h
        cases h
      · exact .inl (by rwa [enabled, phase_ne hk] at h)
    | receive k =>
      by_cases hk : i = k
      · exact .inr (by rw [hk])
      · refine .inl ?_
        simp only [enabled, deliverable, awaited, channel?, parent?, getElem?_update_ne _ hk,
          received_update, Bool.and_eq_true] at h ⊢
        refine ⟨h.1, ?_⟩
        cases hp : s.tasks[k]?.bind Task.parent with
        | none => simpa [hp] using h.2
        | some j =>
          have hj : i ≠ j := by
            rintro rfl
            simp [hp, phase_self, Phase.awaits] at h
          simpa [hp, phase_ne hj] using h.2
  · exact .inl h

/-- The caller gets an answer only once. -/
theorem enabled_hear {answer : Answer}
    (h : enabled { s with received := some answer } e = true) : s.enabled e = true := by
  cases e with
  | start k => exact h
  | send k => exact h
  | receive k =>
    simp only [enabled, Bool.and_eq_true] at h ⊢
    refine ⟨h.1, ?_⟩
    have ha := h.2
    simp only [awaited, parent?, phase?] at ha ⊢
    cases hp : s.tasks[k]?.bind Task.parent with
    | none => simp [hp] at ha
    | some j => simpa [hp] using ha

/-- Taking an answer may make it possible to send one. -/
theorem enabled_take {answer : Answer} (hj : s.tasks[j]? = some above)
    (h : (s.take hasty j i above.phase answer).enabled e = true) :
    s.enabled e = true ∨ e = .send j := by
  have answered {answer : Answer} (h : (s.setPhase j (.answered answer)).enabled e = true) :
      s.enabled e = true ∨ e = .send j := by
    rcases enabled_setPhase hj h with h | ⟨-, h⟩ | ⟨_, h, -⟩ | ⟨k, -, h, -⟩
    · exact .inl h
    · cases h
    · exact .inr h
    · cases h
  unfold take at h
  split at h
  · next l r hphase =>
    dsimp only at h
    split at h
    · exact answered (enabled_setChannel (.inr rfl) h).1
    · split at h
      · exact answered (enabled_setChannel (.inr rfl) h).1
      · -- the other child was awaited before
        rcases enabled_setPhase hj h with h | ⟨-, h⟩ | ⟨_, -, h⟩ | ⟨k, rfl, hk, hd, hp⟩
        · exact .inl h
        · cases h
        · cases h
        · refine .inl ?_
          have hawaits : above.phase.awaits k = true := by
            rw [hphase]
            by_cases hl : i = l <;> simp_all [Phase.awaits]
          simp [enabled, hd, awaited, hp, phase?, hj, hawaits]
  · exact answered h
  · exact answered h

/-! ## Nothing is forgotten -/

theorem exists_of_enabled_start (h : s.enabled (.start i) = true) :
    ∃ t, s.tasks[i]? = some t ∧ t.phase = .ready := by
  rw [enabled, phase?] at h
  cases ht : s.tasks[i]? with
  | none => simp [ht] at h
  | some t => exact ⟨t, rfl, by cases hp : t.phase <;> simp_all⟩

theorem exists_of_enabled_send (h : s.enabled (.send i) = true) :
    ∃ t answer, s.tasks[i]? = some t ∧ t.phase = .answered answer := by
  rw [enabled, phase?] at h
  cases ht : s.tasks[i]? with
  | none => simp [ht] at h
  | some t =>
    cases hp : t.phase with
    | answered answer => exact ⟨t, answer, rfl, hp⟩
    | _ => simp [ht, hp] at h

/-- An answer that can be received is awaited, by the caller or by the task above. -/
theorem exists_of_enabled_receive (h : s.enabled (.receive i) = true) :
    ∃ t, s.tasks[i]? = some t ∧ s.deliverable i = true ∧
      (t.parent = none ∧ s.received = none ∨
        ∃ j above, t.parent = some j ∧ s.tasks[j]? = some above ∧ above.phase.awaits i = true) := by
  obtain ⟨hd, ha⟩ : s.deliverable i = true ∧ s.awaited i = true := by simpa [enabled] using h
  cases ht : s.tasks[i]? with
  | none => simp [deliverable, channel?, ht] at hd
  | some t =>
    refine ⟨t, rfl, hd, ?_⟩
    cases hp : t.parent with
    | none => exact .inl ⟨rfl, by simpa [awaited, parent?, ht, hp] using ha⟩
    | some j =>
      refine .inr ?_
      cases hj : s.tasks[j]? with
      | none => simp [awaited, parent?, phase?, ht, hp, hj] at ha
      | some above =>
        exact ⟨j, above, rfl, hj, by simpa [awaited, parent?, phase?, ht, hp, hj] using ha⟩

theorem step_start (ht : s.tasks[i]? = some t) : s.step hasty (.start i) = s.start i t := by
  simp [step, ht]

theorem step_send (ht : s.tasks[i]? = some t) : s.step hasty (.send i) = s.send i t := by
  simp [step, ht]

theorem step_receive (ht : s.tasks[i]? = some t) :
    s.step hasty (.receive i) = s.receive hasty i t := by
  simp [step, ht]

theorem mem_woken_or_enabled_start (ht : s.tasks[i]? = some t)
    (h : (s.start i t).enabled e = true) :
    e ∈ (s.start i t).woken (.start i) ∨ s.enabled e = true := by
  unfold start at h ⊢
  split at h
  · next answer hn =>
    rcases enabled_setPhase ht h with h' | ⟨-, h'⟩ | ⟨_, rfl, -⟩ | ⟨k, -, h', -⟩
    · exact .inr h'
    · cases h'
    · exact .inl (by simp [woken, phase?_setPhase_self ht, h])
    · cases h'
  · next below q hn =>
    have ht' := getElem?_spawn_old (t := .spawned q below (.left :: t.place) (some i)) ht
    rcases enabled_setPhase ht' h with h' | ⟨-, h'⟩ | ⟨_, -, h'⟩ | ⟨k, -, hk, hd, -⟩
    · rcases enabled_spawn h' with h' | rfl
      · exact .inr h'
      · exact .inl (by simp [woken, phase?_setPhase_self ht', h])
    · cases h'
    · cases h'
    · -- the new channel is empty
      obtain rfl : s.tasks.size = k := by simpa [Phase.awaits] using hk
      rw [deliverable, channel?, getElem?_spawn_new] at hd
      simp [Task.spawned] at hd
  · next below q r hn =>
    have ht₁ := getElem?_spawn_old (t := .spawned q below (.left :: t.place) (some i)) ht
    have ht₂ := getElem?_spawn_old (t := .spawned r below (.right :: t.place) (some i)) ht₁
    rcases enabled_setPhase ht₂ h with h' | ⟨-, h'⟩ | ⟨_, -, h'⟩ | ⟨k, -, hk, hd, -⟩
    · rcases enabled_spawn h' with h' | rfl
      · rcases enabled_spawn h' with h' | rfl
        · exact .inr h'
        · exact .inl (by simp [woken, phase?_setPhase_self ht₂, h])
      · rw [size_spawn] at h ⊢
        exact .inl (by simp [woken, phase?_setPhase_self ht₂, h])
    · cases h'
    · cases h'
    · -- both new channels are empty
      have hk : s.tasks.size = k ∨ s.tasks.size + 1 = k := by simpa [Phase.awaits] using hk
      rcases hk with rfl | rfl
      · rw [deliverable, channel?, getElem?_spawn_old (getElem?_spawn_new _ _)] at hd
        simp [Task.spawned] at hd
      · have new := getElem?_spawn_new (s.spawn (.spawned q below (.left :: t.place) (some i)))
          (.spawned r below (.right :: t.place) (some i))
        rw [size_spawn] at new
        rw [deliverable, channel?, new] at hd
        simp [Task.spawned] at hd

theorem mem_woken_or_enabled_receive (ht : s.tasks[i]? = some t)
    (h : (s.receive hasty i t).enabled e = true) :
    e ∈ (s.receive hasty i t).woken (.receive i) ∨ s.enabled e = true := by
  unfold receive at h ⊢
  have hclosed := (enabled_setChannel (.inl rfl) h).1
  cases hp : t.parent with
  | none =>
    simp only [hp] at hclosed
    exact .inr (enabled_hear hclosed)
  | some j =>
    cases hj : s.tasks[j]? with
    | none => simp only [hp, hj] at hclosed; exact .inr hclosed
    | some above =>
      simp only [hp, hj] at h hclosed ⊢
      rcases enabled_take hj hclosed with h' | rfl
      · exact .inr h'
      · refine .inl (List.mem_filter.mpr ⟨?_, h⟩)
        have hparent : s.parent? i = some j := by simp [parent?, ht, hp]
        simp [hparent]

theorem phase?_start (ht : s.tasks[i]? = some t) :
    ∃ phase, (s.start i t).phase? i = some phase ∧ phase ≠ .ready := by
  unfold start
  split
  · exact ⟨_, phase?_setPhase_self ht, by simp⟩
  · exact ⟨_, phase?_setPhase_self (getElem?_spawn_old ht), by simp⟩
  · exact ⟨_, phase?_setPhase_self (getElem?_spawn_old (getElem?_spawn_old ht)), by simp⟩

/-- No event can happen twice in a row. -/
theorem not_enabled_step_self (he : s.enabled e = true) : (s.step hasty e).enabled e = false := by
  cases e with
  | start i =>
    obtain ⟨t, ht, -⟩ := exists_of_enabled_start he
    obtain ⟨phase, hphase, hne⟩ := phase?_start ht
    rw [step_start ht, enabled, hphase]
    cases phase <;> simp_all
  | send i =>
    obtain ⟨t, answer, ht, hphase⟩ := exists_of_enabled_send he
    rw [step_send ht, send, hphase, enabled, phase?, getElem?_update_self _ ht]
    rfl
  | receive i =>
    obtain ⟨t, ht, -⟩ := exists_of_enabled_receive he
    rw [step_receive ht]
    exact Bool.eq_false_iff.mpr fun h => (enabled_setChannel (.inl rfl) h).2 rfl

theorem mem_woken_or_enabled (he : s.enabled e = true) (h : (s.step hasty e).enabled e' = true) :
    e' ∈ (s.step hasty e).woken e ∨ s.enabled e' = true ∧ e' ≠ e := by
  have hne : e' ≠ e := by
    rintro rfl
    simp [not_enabled_step_self he] at h
  refine Or.imp_right (⟨·, hne⟩) ?_
  cases e with
  | start i =>
    obtain ⟨t, ht, -⟩ := exists_of_enabled_start he
    rw [step_start ht] at h ⊢
    exact mem_woken_or_enabled_start ht h
  | send i =>
    obtain ⟨t, -, ht, -⟩ := exists_of_enabled_send he
    rw [step_send ht] at h ⊢
    rcases enabled_send h ht with h' | rfl
    · exact .inr h'
    · exact .inl (by simp [woken, h])
  | receive i =>
    obtain ⟨t, ht, -⟩ := exists_of_enabled_receive he
    rw [step_receive ht] at h ⊢
    exact mem_woken_or_enabled_receive ht h

end State

/-! ## The agenda runs out -/

/-- The entries that a task in a phase, at a node of weight `w`, can still put on the agenda,
together with the tasks that it has yet to spawn. -/
def Phase.credit (w : Nat) : Phase → Nat
  | .ready => 3 * w - 1
  | .awaitingOnly _ | .awaitingEither _ _ | .awaitingOther _ _ => 2
  | .answered _ => 1
  | .finished => 0

def Task.credit (t : Task) : Nat := t.phase.credit t.node.weight

/-- The entries that all tasks can still put on the agenda. -/
def State.credit (s : State) : Nat := total (s.tasks.toList.map Task.credit)

theorem Task.credit_of_awaits (h : t.phase.awaits i = true) : t.credit = 2 := by
  unfold Task.credit
  cases hp : t.phase <;> simp_all [Phase.awaits, Phase.credit]

theorem total_map_modify {α : Type} {l : List α} {i : Nat} {a : α} (f : α → α) (g : α → Nat)
    (h : l[i]? = some a) : total ((l.modify i f).map g) + g a = total (l.map g) + g (f a) := by
  induction l generalizing i with
  | nil => cases h
  | cons b l ih =>
    cases i with
    | zero =>
      cases h
      simp
      omega
    | succ i =>
      have := ih (i := i) h
      simp
      omega

namespace State

/-- What the tasks add up to changes with one of them. -/
theorem total_update {f : Task → Task} (g : Task → Nat) (ht : s.tasks[i]? = some t) :
    total ((s.update i f).tasks.toList.map g) + g t = total (s.tasks.toList.map g) + g (f t) := by
  simpa [update] using
    total_map_modify f g (l := s.tasks.toList) (i := i) (by simpa using ht)

theorem credit_update {f : Task → Task} (ht : s.tasks[i]? = some t) :
    (s.update i f).credit + t.credit = s.credit + (f t).credit :=
  total_update Task.credit ht

theorem credit_setPhase (phase : Phase) (ht : s.tasks[i]? = some t) :
    (s.setPhase i phase).credit + t.credit = s.credit + phase.credit t.node.weight :=
  credit_update ht

@[simp] theorem credit_setChannel : (s.setChannel i channel).credit = s.credit := by
  have h : (s.tasks.toList.modify i ({ · with channel := channel })).map Task.credit =
      s.tasks.toList.map Task.credit := by
    apply List.ext_getElem?
    intro k
    by_cases hk : i = k <;> cases hs : s.tasks[k]? <;>
      simp [hk, hs, Task.credit]
  simp only [credit, setChannel, update, Array.toList_modify, h]

theorem credit_spawn {node : Proc} {exposed : NameSet} {place : Place} {parent : Option Id} :
    (s.spawn (.spawned node exposed place parent)).credit = s.credit + (3 * node.weight - 1) := by
  simp [credit, spawn, Task.credit, Task.spawned, Phase.credit]

theorem credit_start (ht : s.tasks[i]? = some t) (hphase : t.phase = .ready) :
    ((s.start i t).woken (.start i)).length + (s.start i t).credit ≤ s.credit := by
  have hw := t.node.weight_pos
  have hcredit : t.credit = 3 * t.node.weight - 1 := by rw [Task.credit, hphase, Phase.credit]
  unfold start
  split
  · next answer hn =>
    have change := credit_setPhase (.answered answer) ht
    have hlen : ((s.setPhase i (.answered answer)).woken (.start i)).length ≤ 1 := by
      rw [woken, phase?_setPhase_self ht]
      exact List.length_filter_le _ _
    simp only [Phase.credit] at change
    omega
  · next below q hn =>
    have hq := Proc.weight_of_need_only hn
    have := q.weight_pos
    have ht' := getElem?_spawn_old (t := .spawned q below (.left :: t.place) (some i)) ht
    have change := credit_setPhase (.awaitingOnly s.tasks.size) ht'
    have hlen : (((s.spawn (.spawned q below (.left :: t.place) (some i))).setPhase i
        (.awaitingOnly s.tasks.size)).woken (.start i)).length ≤ 1 := by
      rw [woken, phase?_setPhase_self ht']
      exact List.length_filter_le _ _
    rw [credit_spawn, Phase.credit] at change
    omega
  · next below q r hn =>
    have hq := Proc.weight_of_need_both hn
    have := q.weight_pos
    have := r.weight_pos
    have ht₁ := getElem?_spawn_old (t := .spawned q below (.left :: t.place) (some i)) ht
    have ht₂ := getElem?_spawn_old (t := .spawned r below (.right :: t.place) (some i)) ht₁
    have change := credit_setPhase (.awaitingEither s.tasks.size (s.tasks.size + 1)) ht₂
    have hlen : ((((s.spawn (.spawned q below (.left :: t.place) (some i))).spawn
        (.spawned r below (.right :: t.place) (some i))).setPhase i
        (.awaitingEither s.tasks.size (s.tasks.size + 1))).woken (.start i)).length ≤ 2 := by
      rw [woken, phase?_setPhase_self ht₂]
      exact List.length_filter_le _ _
    rw [credit_spawn, credit_spawn, Phase.credit] at change
    omega

theorem credit_send {answer : Answer} (ht : s.tasks[i]? = some t)
    (hphase : t.phase = .answered answer) : (s.send i t).credit + 1 = s.credit := by
  have change := credit_update (f := Task.finish answer) ht
  rw [send, hphase]
  simp only [Task.credit, Task.finish, hphase, Phase.credit] at change ⊢
  omega

/-- Taking an answer costs the task an entry, unless it goes on waiting. -/
theorem credit_take (hasty : Bool) (answer : Answer) (hj : s.tasks[j]? = some above)
    (hawaits : above.phase.awaits i = true) :
    (s.take hasty j i above.phase answer).credit + 1 = s.credit ∨
      (s.take hasty j i above.phase answer).credit = s.credit ∧
        (s.take hasty j i above.phase answer).enabled (.send j) = false := by
  have hcredit := Task.credit_of_awaits hawaits
  have answered (answer : Answer) : (s.setPhase j (.answered answer)).credit + 1 = s.credit := by
    have change := credit_setPhase (.answered answer) hj
    rw [hcredit, Phase.credit] at change
    omega
  unfold take
  split
  · next l r hphase =>
    dsimp only
    split
    · exact .inl (by simpa using answered _)
    · split
      · exact .inl (by simpa using answered _)
      · next b _ =>
        have change := credit_setPhase (.awaitingOther b (if i = l then r else l)) hj
        rw [hcredit] at change
        refine .inr ⟨Nat.add_right_cancel change, ?_⟩
        rw [enabled, phase?_setPhase_self hj]
  · exact .inl (answered _)
  · exact .inl (answered _)

theorem credit_receive (ht : s.tasks[i]? = some t)
    (hp : t.parent = none ∨
      ∃ j above, t.parent = some j ∧ s.tasks[j]? = some above ∧ above.phase.awaits i = true) :
    ((s.receive hasty i t).woken (.receive i)).length + (s.receive hasty i t).credit ≤
      s.credit := by
  rcases hp with hp | ⟨j, above, hp, hj, hawaits⟩
  · have hparent : s.parent? i = none := by simp [parent?, ht, hp]
    have hheard (answer : Option Answer) :
        ({ s with received := answer } : State).parent? i = none := hparent
    have hcredit (answer : Option Answer) :
        ({ s with received := answer } : State).credit = s.credit := rfl
    simp [receive, hp, woken, hheard, hcredit]
  · have hparent : s.parent? i = some j := by simp [parent?, ht, hp]
    simp only [receive, hp, hj, woken, parent?_setChannel, parent?_take, hparent,
      credit_setChannel, Option.toList_some, List.map_cons, List.map_nil]
    rcases credit_take hasty (outcome above.node.kind t.channel) hj hawaits
      with hless | ⟨hsame, hsend⟩
    · have := List.length_filter_le (((s.take hasty j i above.phase
        (outcome above.node.kind t.channel)).setChannel i .taken).enabled) [Event.send j]
      simp only [List.length_cons, List.length_nil] at this
      omega
    · have hsend' : ((s.take hasty j i above.phase
          (outcome above.node.kind t.channel)).setChannel i .taken).enabled (.send j) = false := by
        simpa [enabled] using hsend
      simp [hsend', hsame]

/-- Each event wakes no more events than its tasks have credit for. -/
theorem woken_credit_le (hasty : Bool) (he : s.enabled e = true) :
    ((s.step hasty e).woken e).length + (s.step hasty e).credit ≤ s.credit := by
  cases e with
  | start i =>
    obtain ⟨t, ht, hphase⟩ := exists_of_enabled_start he
    rw [step_start ht]
    exact credit_start ht hphase
  | send i =>
    obtain ⟨t, answer, ht, hphase⟩ := exists_of_enabled_send he
    rw [step_send ht]
    have hlen : ((s.send i t).woken (.send i)).length ≤ 1 := List.length_filter_le _ _
    have := credit_send ht hphase
    omega
  | receive i =>
    obtain ⟨t, ht, -, hp⟩ := exists_of_enabled_receive he
    rw [step_receive ht]
    exact credit_receive ht (hp.imp_left And.left)

end State

end Tasks

end Guardedness
