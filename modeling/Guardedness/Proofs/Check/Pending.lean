import Guardedness.Proofs.Check.Agreement
import Mathlib.Data.List.Nodup

/-!
# What a worklist holds

Between two looks, the list of items is all that a check by a worklist remembers. So the list has
to hold whatever is not yet looked at, with the names exposed there, and nothing else.

**Runs** (`Looks`). A run is told by the items that were looked at and those that are left, and what
is left to find out stays the same (`Looks.run_eq`).

**Accounts** (`Account`). Every item is given the place of its node. The places of the nodes that
were looked at, and then all places from those of the items left downwards, are the list of the
places of the process. One look moves the place of one node from the second part to the first.

**Ends** (`Ends`). What is left gets smaller by one node with every look. So a run comes to its end,
with no item left or with one that is refused.
-/

namespace Guardedness

namespace Worklist

open Proc (ExposedAt)

variable {exposed : NameSet} {p : Proc} {start looked pending lower examined : List Item}
  {i : Item} {b : Bool}

/-! ## Runs -/

/-- A check that starts with `start` looks at the items `looked`, one after the other, and then has
the items `pending` on its list. -/
inductive Looks (start : List Item) : (looked pending : List Item) → Prop
  | start : Looks start [] start
  | look {looked pending below : List Item} {i : Item} (h : Looks start looked (i :: pending))
    (hlook : i.look = .ok (some below)) : Looks start (looked ++ [i]) (below ++ pending)

/-- A check that starts with `start` looks at the items `examined` and then has its answer. -/
inductive Ends (start : List Item) : (examined : List Item) → (answer : Bool) → Prop
  | finished {looked : List Item} (h : Looks start looked []) : Ends start looked true
  | refused {looked pending : List Item} {i : Item} (h : Looks start looked (i :: pending))
    (hlook : i.look = .ok none) : Ends start (looked ++ [i]) false

/-- A look that goes on puts the children in the node's place. -/
theorem Item.eq_below_of_look (hlook : i.look = .ok (some lower)) : lower = i.below := by
  rw [look_eq] at hlook
  split at hlook
  · next x hx =>
    split at hlook
    · cases hlook
    · cases hlook
      simp [Item.below, hx, Term.children]
  · cases hlook
    rfl

theorem run_of_look (hlook : i.look = .ok (some lower)) :
    run (i :: pending) = run (lower ++ pending) := by
  rw [run]
  split <;> simp_all

theorem run_of_refused (hlook : i.look = .ok none) : run (i :: pending) = .ok false := by
  rw [run]
  split <;> simp_all

theorem Looks.run_eq (h : Looks start looked pending) : run start = run pending := by
  induction h with
  | start => rfl
  | look _ hlook ih => rw [ih, run_of_look hlook]

/-- Each look takes one node off what is left. -/
theorem weight_of_look (pending : List Item) (hlook : i.look = .ok (some lower)) :
    weight (lower ++ pending) + 1 = weight (i :: pending) := by
  have := Item.look_weight hlook
  simp [weight] at this ⊢
  omega

theorem Looks.weight_eq (h : Looks start looked pending) :
    looked.length + weight pending = weight start := by
  induction h with
  | start => simp
  | @look _ pending _ _ _ hlook ih =>
    have := weight_of_look pending hlook
    rw [List.length_append, List.length_singleton]
    omega

/-- Every run comes to its end. -/
theorem Looks.exists_ends (h : Looks start looked pending) :
    ∃ examined b, Ends start examined b := by
  induction hn : weight pending using Nat.strongRecOn generalizing looked pending with
  | ind n ih =>
    cases pending with
    | nil => exact ⟨looked, true, .finished h⟩
    | cons i pending =>
      cases hlook : i.look with
      | error e => simp [Item.look_eq] at hlook
      | ok next =>
        cases next with
        | none => exact ⟨looked ++ [i], false, .refused h hlook⟩
        | some lower =>
          have := weight_of_look pending hlook
          exact ih _ (by omega) (h.look hlook) rfl

theorem Ends.run_eq (h : Ends start examined b) : run start = .ok b := by
  cases h with
  | finished h => rw [h.run_eq, run]
  | refused h hlook => rw [h.run_eq, run_of_refused hlook]

/-! ## Accounts -/

/-- An item, and a place for its node. -/
structure Placed where
  item : Item
  place : Place

namespace Placed

/-- The node of the item is the one at the place, and its names are those that the way from the
root dictates. -/
structure StandsIn (exposed : NameSet) (p : Proc) (s : Placed) : Prop where
  node : p.at? s.place = some s.item.node
  exposed : ∀ x, x ∈ s.item.exposed ↔ ExposedAt exposed p s.place x

/-- The places of the nodes that the item stands for. -/
def covers (s : Placed) : List Place := s.item.node.placesFrom s.place

def below (s : Placed) : List Placed :=
  s.item.below.zipWith (fun j side => ⟨j, side :: s.place⟩) [.left, .right]

theorem map_below (s : Placed) : s.below.map item = s.item.below := by
  obtain ⟨⟨q, _⟩, place⟩ := s
  cases q <;> rfl

theorem covers_eq (s : Placed) : s.covers = s.place :: s.below.flatMap covers := by
  obtain ⟨⟨q, _⟩, place⟩ := s
  cases q with
  | nil | var => rfl
  | act _ q | fix _ q | res q _ | rel q _ =>
    simp [covers, below, Item.below, Term.children, Proc.placesFrom]
  | par q r | sum q r => simp [covers, below, Item.below, Term.children, Proc.placesFrom]

theorem child_of_mem_below {s j : Placed} (h : j ∈ s.below) :
    ∃ side, s.item.node.child? side = some j.item.node ∧ j.place = side :: s.place ∧
      j.item.exposed = s.item.node.exposedBelow s.item.exposed := by
  obtain ⟨⟨q, _⟩, place⟩ := s
  cases q with
  | nil | var => cases h
  | act _ q | fix _ q | res q _ | rel q _ =>
    obtain rfl := List.mem_singleton.mp h
    exact ⟨.left, rfl, rfl, rfl⟩
  | par q r | sum q r =>
    rcases List.mem_cons.mp h with rfl | h
    · exact ⟨.left, rfl, rfl, rfl⟩
    · obtain rfl := List.mem_singleton.mp h
      exact ⟨.right, rfl, rfl, rfl⟩

theorem StandsIn.below {s j : Placed} (h : s.StandsIn exposed p) (hj : j ∈ s.below) :
    j.StandsIn exposed p := by
  obtain ⟨side, hchild, hplace, hexposed⟩ := child_of_mem_below hj
  constructor
  · rw [hplace, Proc.at?_cons h.node, hchild]
  · intro x
    rw [hplace, hexposed, Proc.exposedAt_cons h.node h.exposed]

end Placed

/-- The places of the items: `seen` for those that were looked at, `spots` for those left. Together
they stand for all nodes of the process, each of them once. -/
structure Account (exposed : NameSet) (p : Proc) (looked pending : List Item)
    (seen spots : List Placed) : Prop where
  looked : seen.map Placed.item = looked
  pending : spots.map Placed.item = pending
  stands : ∀ s ∈ seen ++ spots, s.StandsIn exposed p
  places : seen.map Placed.place ++ spots.flatMap Placed.covers = p.placesFrom []

namespace Account

variable {seen spots : List Placed} {s : Placed}

theorem initial (exposed : NameSet) (p : Proc) :
    Account exposed p [] [⟨p, exposed⟩] [] [⟨⟨p, exposed⟩, []⟩] where
  looked := rfl
  pending := rfl
  stands := by
    intro s hs
    obtain rfl := List.mem_singleton.mp hs
    exact ⟨rfl, fun x => Proc.exposedAt_nil.symm⟩
  places := by simp [Placed.covers]

/-- Looking at an item moves its place over and puts those of its children in front. -/
theorem look (h : Account exposed p looked (s.item :: pending) seen (s :: spots)) :
    Account exposed p (looked ++ [s.item]) (s.item.below ++ pending) (seen ++ [s])
      (s.below ++ spots) where
  looked := by rw [List.map_append, h.looked, List.map_singleton]
  pending := by rw [List.map_append, Placed.map_below, (List.cons.inj h.pending).2]
  stands := by
    have stands := h.stands
    simp only [List.mem_append, List.mem_cons, List.not_mem_nil, or_false] at stands ⊢
    rintro j ((hj | rfl) | hj | hj)
    · exact stands j (.inl hj)
    · exact stands j (.inr (.inl rfl))
    · exact (stands s (.inr (.inl rfl))).below hj
    · exact stands j (.inr (.inr hj))
  places := by
    rw [← h.places, List.flatMap_cons, Placed.covers_eq, List.map_append, List.flatMap_append]
    simp

theorem nodup (h : Account exposed p looked pending seen spots) :
    (seen.map Placed.place ++ spots.flatMap Placed.covers).Nodup :=
  h.places ▸ Proc.nodup_placesFrom [] p

/-- The subtrees of the items that are left have no node in common. -/
theorem disjoint (h : Account exposed p looked pending seen spots) :
    spots.Pairwise fun s t => s.covers.Disjoint t.covers :=
  (List.nodup_flatMap.mp (List.nodup_append.mp h.nodup).2.1).2

theorem nodup_seen (h : Account exposed p looked pending seen spots) :
    (seen.map Placed.place).Nodup := (List.nodup_append.mp h.nodup).1

theorem length_le (h : Account exposed p looked pending seen spots) : looked.length ≤ p.size := by
  have := congrArg List.length h.places
  rw [Proc.length_placesFrom, List.length_append, List.length_map] at this
  rw [Term.size_eq_weight, ← h.looked, List.length_map]
  omega

end Account

theorem Looks.exists_account (h : Looks [⟨p, exposed⟩] looked pending) :
    ∃ seen spots, Account exposed p looked pending seen spots := by
  induction h with
  | start => exact ⟨_, _, .initial exposed p⟩
  | look _ hlook ih =>
    obtain ⟨seen, spots, account⟩ := ih
    obtain ⟨s, spots, rfl, rfl, -⟩ := List.map_eq_cons_iff.mp account.pending
    obtain rfl := Item.eq_below_of_look hlook
    exact ⟨_, _, account.look⟩

/-- Also an item that is refused was looked at. -/
theorem Ends.exists_account (h : Ends [⟨p, exposed⟩] examined b) :
    ∃ pending seen spots, Account exposed p examined pending seen spots ∧
      (b = true → spots = []) := by
  cases h with
  | finished h =>
    obtain ⟨seen, spots, account⟩ := h.exists_account
    exact ⟨_, seen, spots, account, fun _ => List.map_eq_nil_iff.mp account.pending⟩
  | refused h hlook =>
    obtain ⟨seen, spots, account⟩ := h.exists_account
    obtain ⟨s, spots, rfl, rfl, -⟩ := List.map_eq_cons_iff.mp account.pending
    exact ⟨_, _, _, account.look, by simp⟩

theorem weight_eq_total_size (items : List Item) :
    weight items = total (items.map fun i => i.node.size) := by
  simp only [Term.size_eq_weight]
  rfl

/-- **A worklist loses and repeats nothing.** Before every look the answer is whether all items that
are left are guarded. Their nodes are the roots of subtrees that have no node in common, each with
the names that its way from the root dictates, and these subtrees and the nodes looked at make up
the process. The next look takes one node off the subtrees. So the check ends after as many looks as
there are nodes at most; and when the answer is *yes*, there was exactly one look at every node. -/
theorem worklist_accounts (exposed : NameSet) (p : Proc) :
    (∀ looked pending, Looks [⟨p, exposed⟩] looked pending →
      p.checkByWorklist exposed = run pending ∧
      run pending = .ok (pending.all fun i => i.node.guarded i.exposed) ∧
      (∃ seen spots, Account exposed p looked pending seen spots ∧
        spots.Pairwise fun s t => s.covers.Disjoint t.covers) ∧
      looked.length + total (pending.map fun i => i.node.size) = p.size ∧
      ∀ i rest lower, pending = i :: rest → i.look = .ok (some lower) →
        total ((lower ++ rest).map fun i => i.node.size) + 1 =
          total (pending.map fun i => i.node.size)) ∧
    (∃ examined b, Ends [⟨p, exposed⟩] examined b) ∧
    ∀ examined b, Ends [⟨p, exposed⟩] examined b →
      p.checkByWorklist exposed = .ok b ∧
      examined.length ≤ p.size ∧
      ∃ seen : List Placed, seen.map Placed.item = examined ∧ (∀ s ∈ seen, s.StandsIn exposed p) ∧
        (seen.map Placed.place).Nodup ∧
        (b = true → examined.length = p.size ∧
          ∀ place q, p.at? place = some q → ∃ s ∈ seen, s.place = place) := by
  simp only [← weight_eq_total_size]
  refine ⟨?_, Looks.start.exists_ends, ?_⟩
  · intro looked pending h
    obtain ⟨seen, spots, account⟩ := h.exists_account
    refine ⟨h.run_eq, run_eq pending, ⟨seen, spots, account, account.disjoint⟩, ?_, ?_⟩
    · rw [h.weight_eq, Term.size_eq_weight]
      exact Nat.add_zero _
    · rintro i rest lower rfl hlook
      exact weight_of_look rest hlook
  · intro examined b h
    obtain ⟨pending, seen, spots, account, finished⟩ := h.exists_account
    have stands (s : Placed) (hs : s ∈ seen) := account.stands s (List.mem_append_left _ hs)
    refine ⟨h.run_eq, account.length_le, seen, account.looked, stands, account.nodup_seen, ?_⟩
    intro hb
    -- With nothing left on the list, the places that were looked at are all there are.
    have places : seen.map Placed.place = p.placesFrom [] := by
      simpa [finished hb] using account.places
    constructor
    · rw [← account.looked, List.length_map, ← List.length_map Placed.place, places,
        Proc.length_placesFrom, Term.size_eq_weight]
    · intro place q hq
      have hplace := Proc.placesFrom_at hq (Proc.mem_placesFrom_self place q)
      rw [← places] at hplace
      exact List.mem_map.mp hplace

/-- In `rec x. (a.x | x)` the variable below the action is left under no name and the one beside it
under `x`, and the fifth look refuses it. -/
theorem worklist_accounts_of_exposed :
    ∃ looked examined,
      Looks [⟨.fix "x" (.par (.act "a" (.var "x")) (.var "x")), ∅⟩] looked
        [⟨.var "x", ∅⟩, ⟨.var "x", NameSet.insert ∅ "x"⟩] ∧
      looked.length + 2 = 5 ∧
      Ends [⟨.fix "x" (.par (.act "a" (.var "x")) (.var "x")), ∅⟩] examined false ∧
      examined.length ≤ 5 ∧
      Proc.checkByWorklist ∅ (.fix "x" (.par (.act "a" (.var "x")) (.var "x"))) = .ok false := by
  let p : Proc := .fix "x" (.par (.act "a" (.var "x")) (.var "x"))
  let x : Item := ⟨.var "x", NameSet.insert ∅ "x"⟩
  have body : Looks [⟨p, ∅⟩] _ [⟨.par (.act "a" (.var "x")) (.var "x"), NameSet.insert ∅ "x"⟩] :=
    @Looks.look _ _ [] [_] _ .start rfl
  have operands : Looks [⟨p, ∅⟩] _ [⟨.act "a" (.var "x"), NameSet.insert ∅ "x"⟩, x] :=
    @Looks.look _ _ [] [_, _] _ body rfl
  have covered : Looks [⟨p, ∅⟩] _ [⟨.var "x", ∅⟩, x] := @Looks.look _ _ [x] [_] _ operands rfl
  have ends : Ends [⟨p, ∅⟩] _ false := .refused (@Looks.look _ _ [x] [] _ covered rfl) rfl
  obtain ⟨before, -, at_end⟩ := worklist_accounts ∅ p
  obtain ⟨-, -, -, size, -⟩ := before _ _ covered
  obtain ⟨answer, length, -⟩ := at_end _ _ ends
  simp only [Term.size_eq_weight] at size length
  exact ⟨_, _, covered, size, ends, length, answer⟩

end Worklist

end Guardedness
