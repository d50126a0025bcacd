import Guardedness.Proofs.Check.Agenda
import Guardedness.Proofs.Check.Messages

/-!
# A check by tasks comes to its end

Messages tell the truth, but that alone does not bring the caller an answer: the tasks might wait
for each other forever, or a run might stop too early.

**Nobody waits in vain** (`Sound.received_of_quiet`). A task waits only for tasks that were spawned
after it. So when nothing can happen any more, going through the tasks from the last one to the
first shows that all of them are finished, and that of the root has been heard.

**A run stops when nothing can happen** (`run_quiet`). The agenda always covers what is possible,
and the events that are left to a run suffice for the agenda and all that may still be put on it.
-/

namespace Guardedness

namespace Tasks

variable {exposed : NameSet} {p : Proc} {s s' : State} {i c : Id} {t u : Task} {hasty : Bool}
  {agenda : Array Event}

/-- Nothing can happen. -/
def State.Quiet (s : State) : Prop := ∀ e, s.enabled e = false

/-! ## Nobody waits in vain -/

theorem TaskSound.deliverable (h : TaskSound exposed p s i t) (ht : s.tasks[i]? = some t)
    (hfinished : t.phase = .finished) (hopen : t.channel.isOpen = true) :
    s.deliverable i = true := by
  have hsent := h.sent hfinished
  cases hc : t.channel with
  | empty => exact absurd hc hsent
  | holding answer => simp [State.deliverable, State.channel?, ht, hc]
  | taken | dropped | abandoned => simp [hc, Channel.isOpen] at hopen

theorem Sound.enabled_receive (h : Sound exposed p s) (ht : s.tasks[i]? = some t)
    (hawaits : t.phase.awaits c = true) (hu : Hears s i c u) (hfinished : u.phase = .finished) :
    s.enabled (.receive c) = true := by
  have hd := (h.tasks c u hu.task).deliverable hu.task hfinished hu.isOpen
  simp [State.enabled, hd, State.awaited, State.parent?, hu.task, hu.parent, State.phase?, ht,
    hawaits]

/-- A task waits for tasks that were spawned after it. -/
theorem Sound.lt_of_hears (h : Sound exposed p s) (hu : Hears s i c u) : i < c := by
  have := (h.tasks c u hu.task).parent
  simpa [hu.parent] using this

theorem Sound.finished_of_quiet (h : Sound exposed p s) (quiet : s.Quiet) :
    ∀ n i t, s.tasks.size - i = n → s.tasks[i]? = some t → t.phase = .finished := by
  intro n
  -- On the number of tasks that were spawned after this one, since it can wait only for those.
  induction n using Nat.strongRecOn with
  | ind n ih =>
    rintro i t rfl ht
    have hi := lt_of_getElem? ht
    have heard {c : Id} {u : Task} (hawaits : t.phase.awaits c = true) (hu : Hears s i c u) :
        False := by
      have hlt := h.lt_of_hears hu
      have hfinished := ih _ (Nat.sub_lt_sub_left hi hlt) c u rfl hu.task
      have := h.enabled_receive ht hawaits hu hfinished
      simp [quiet (.receive c)] at this
    have fits := (h.tasks i t ht).phase
    cases hphase : t.phase with
    | ready =>
      have := quiet (.start i)
      simp [State.enabled, State.phase?, ht, hphase] at this
    | answered answer =>
      have := quiet (.send i)
      simp [State.enabled, State.phase?, ht, hphase] at this
    | finished => rfl
    | awaitingOnly c =>
      rw [hphase] at fits
      obtain ⟨u, hu, -⟩ := fits
      exact (heard (by simp [hphase, Phase.awaits]) hu).elim
    | awaitingEither l r =>
      rw [hphase] at fits
      obtain ⟨-, u, -, hu, -, -⟩ := fits
      exact (heard (by simp [hphase, Phase.awaits]) hu).elim
    | awaitingOther first c =>
      rw [hphase] at fits
      obtain ⟨u, hu, -⟩ := fits
      exact (heard (by simp [hphase, Phase.awaits]) hu).elim

/-- When nothing can happen, the caller has the answer. -/
theorem Sound.received_of_quiet (h : Sound exposed p s) (quiet : s.Quiet) :
    s.received = some (.ok (p.guarded exposed)) := by
  cases hr : s.received with
  | some answer => rw [h.received answer hr]
  | none =>
    obtain ⟨t, ht, -, -, hopen⟩ := h.root
    have self := h.tasks 0 t ht
    have hfinished := h.finished_of_quiet quiet _ 0 t rfl ht
    have hd := self.deliverable ht hfinished (hopen hr)
    have hp : t.parent = none := by
      have := self.parent
      cases hp : t.parent with
      | none => rfl
      | some j => simp [hp] at this
    have := quiet (.receive 0)
    simp [State.enabled, hd, State.awaited, State.parent?, ht, hp, hr] at this

/-! ## A run stops when nothing can happen -/

/-- Every possible event is on the agenda. -/
def State.CoveredBy (s : State) (agenda : Array Event) : Prop :=
  ∀ e, s.enabled e = true → e ∈ agenda

theorem mem_taken {α : Type} {agenda : Array α} {k : Nat} {e e' : α} (hk : agenda[k]? = some e)
    (h : e' ∈ agenda) : e' = e ∨ e' ∈ (agenda.swapIfInBounds k (agenda.size - 1)).pop := by
  obtain ⟨hlt, rfl⟩ := Array.getElem?_eq_some_iff.mp hk
  obtain ⟨m, hm, rfl⟩ := Array.mem_iff_getElem.mp h
  by_cases hmk : m = k
  · subst hmk
    exact .inl rfl
  · refine .inr (Array.mem_iff_getElem.mpr ?_)
    by_cases hlast : m = agenda.size - 1
    · -- the last entry has gone to the place of the one taken off
      have hk' : k < (agenda.swapIfInBounds k (agenda.size - 1)).pop.size := by
        simp
        omega
      refine ⟨k, hk', ?_⟩
      rw [Array.getElem_pop, Array.getElem_swapIfInBounds_left (by omega)]
      simp [hlast]
    · have hm' : m < (agenda.swapIfInBounds k (agenda.size - 1)).pop.size := by
        simp
        omega
      refine ⟨m, hm', ?_⟩
      rw [Array.getElem_pop, Array.getElem_swapIfInBounds_of_ne_of_ne hmk hlast]

theorem quiet_of_covered (covered : s.CoveredBy agenda) (hempty : agenda.size = 0) : s.Quiet := by
  rw [Array.eq_empty_of_size_eq_zero hempty] at covered
  intro e
  cases he : s.enabled e with
  | false => rfl
  | true => exact absurd (covered e he) (Array.not_mem_empty e)

/-- An event that is taken off the agenda and happens leaves the agenda covering what is possible,
and less is left for the agenda and all that may still be put on it. -/
theorem State.CoveredBy.step {k : Nat} {e : Event} (hasty : Bool) (covered : s.CoveredBy agenda)
    (hk : agenda[k]? = some e) (he : s.enabled e = true) :
    (s.step hasty e).CoveredBy
        ((agenda.swapIfInBounds k (agenda.size - 1)).pop ++ (s.step hasty e).woken e) ∧
      ((agenda.swapIfInBounds k (agenda.size - 1)).pop ++ (s.step hasty e).woken e).size +
        (s.step hasty e).credit < agenda.size + s.credit := by
  have hpos : 0 < agenda.size := Nat.zero_lt_of_lt (Array.getElem?_eq_some_iff.mp hk).1
  have hwoken := State.woken_credit_le hasty he
  constructor
  · intro e' he'
    rw [← Array.mem_toList_iff, Array.toList_appendList, List.mem_append, Array.mem_toList_iff]
    rcases State.mem_woken_or_enabled he he' with hw | ⟨hold, hne⟩
    · exact .inr hw
    · exact .inl ((mem_taken hk (covered e' hold)).resolve_left hne)
  · rw [← Array.length_toList, Array.toList_appendList, List.length_append, Array.length_toList]
    simp
    omega

theorem Reachable.run_quiet {pick : Nat → Nat} {fuel : Nat} (h : Reachable hasty exposed p s)
    (covered : s.CoveredBy agenda) (hfuel : agenda.size + s.credit ≤ fuel) :
    Reachable hasty exposed p (s.run hasty pick fuel agenda) ∧
      (s.run hasty pick fuel agenda).Quiet := by
  induction fuel generalizing s agenda with
  | zero => exact ⟨h, quiet_of_covered covered (by omega)⟩
  | succ fuel ih =>
    rw [State.run]
    dsimp only
    split
    · next hk =>
      refine ⟨h, quiet_of_covered covered ?_⟩
      rw [Array.getElem?_eq_none_iff] at hk
      rcases Nat.eq_zero_or_pos agenda.size with hzero | hpos
      · exact hzero
      · exact absurd (Nat.mod_lt _ hpos) (Nat.not_lt.mpr hk)
    · next e hk =>
      split
      · next he =>
        obtain ⟨covered', hless⟩ := covered.step hasty hk he
        exact ih (h.step he) covered' (by omega)
      · next he =>
        -- An entry whose event is not possible any more is dropped.
        have hpos : 0 < agenda.size := Nat.zero_lt_of_lt (Array.getElem?_eq_some_iff.mp hk).1
        refine ih h (fun e' he' => (mem_taken hk (covered e' he')).resolve_left ?_) ?_
        · rintro rfl
          exact he he'
        · simp
          omega

/-- No more events can happen one after the other than the agenda and the credit allow. -/
theorem length_le_of_follow {events : List Event} (covered : s.CoveredBy agenda)
    (h : s.follow hasty events = some s') : events.length ≤ agenda.size + s.credit := by
  induction events generalizing s agenda with
  | nil => exact Nat.zero_le _
  | cons e events ih =>
    rw [State.follow] at h
    split at h
    · next he =>
      obtain ⟨k, hk⟩ := Array.mem_iff_getElem?.mp (covered e he)
      obtain ⟨covered', hless⟩ := covered.step hasty hk he
      have := ih covered' h
      rw [List.length_cons]
      omega
    · cases h

/-! ## From the start -/

/-- The start of the root is the first entry on the agenda, and three events for each node are
enough for it and all that follow. -/
theorem credit_initial (exposed : NameSet) (p : Proc) :
    (#[.start 0] : Array Event).size + (State.initial exposed p).credit = 3 * p.size := by
  have := p.weight_pos
  rw [Term.size_eq_weight]
  simp [State.credit, State.initial, Task.spawned, Task.credit, Phase.credit]
  omega

theorem coveredBy_initial : (State.initial exposed p).CoveredBy #[.start 0] := by
  intro e he
  cases e with
  | start i =>
    obtain ⟨t, ht, -⟩ := State.exists_of_enabled_start he
    obtain ⟨rfl, -⟩ := State.getElem?_initial ht
    simp
  | send i =>
    obtain ⟨t, answer, ht, hphase⟩ := State.exists_of_enabled_send he
    obtain ⟨-, rfl⟩ := State.getElem?_initial ht
    cases hphase
  | receive i =>
    obtain ⟨t, ht, hd, -⟩ := State.exists_of_enabled_receive he
    obtain ⟨-, rfl⟩ := State.getElem?_initial ht
    simp [State.deliverable, State.channel?, ht, Task.spawned] at hd

/-- The state that a check of `p` by tasks ends in. -/
def State.last (hasty : Bool) (pick : Nat → Nat) (exposed : NameSet) (p : Proc) : State :=
  (State.initial exposed p).run hasty pick (3 * p.size) #[.start 0]

theorem last_quiet (hasty : Bool) (pick : Nat → Nat) (exposed : NameSet) (p : Proc) :
    Reachable hasty exposed p (State.last hasty pick exposed p) ∧
      (State.last hasty pick exposed p).Quiet :=
  Reachable.run_quiet .initial coveredBy_initial (Nat.le_of_eq (credit_initial exposed p))

theorem run_eq (hasty : Bool) (pick : Nat → Nat) :
    p.guardedByTasks hasty pick exposed = .ok (p.guarded exposed) := by
  obtain ⟨reachable, quiet⟩ := last_quiet hasty pick exposed p
  show (State.last hasty pick exposed p).received.getD _ = _
  rw [reachable.sound.received_of_quiet quiet]
  rfl

end Tasks

end Guardedness
