import Mathlib.Data.List.Chain

/- Cutting a list into groups, each taking as much as fits.

   What fits is any predicate on groups. A group that does not fit is one element by itself,
   and no group could have taken the first element of the next. -/
namespace Tombstone

variable {α : Type} {fits : List α → Prop} {group rest : List α} {groups : List (List α)}

/-- `groups` is `items`, cut greedily. -/
structure GreedySplit (fits : List α → Prop) (items : List α) (groups : List (List α)) : Prop where
  all : groups.flatten = items
  nonempty : ∀ group ∈ groups, group ≠ []
  bounded : ∀ group ∈ groups, fits group ∨ ∃ a, group = [a] ∧ ¬ fits [a]
  greedy : groups.IsChain fun group next => ∀ a ∈ next.head?, ¬ fits (group ++ [a])

theorem GreedySplit.nil : GreedySplit fits [] [] :=
  ⟨rfl, nofun, nofun, .nil⟩

/-- The first element of the first group is that of the list. -/
theorem GreedySplit.head (h : GreedySplit fits rest groups) {next : List α} (hnext : next ∈ groups.head?) :
    next.head? = rest.head? := by
  cases groups with
  | nil => cases hnext
  | cons g groups =>
    obtain rfl : g = next := Option.some.inj hnext
    obtain ⟨a, as, rfl⟩ := List.exists_cons_of_ne_nil (h.nonempty g List.mem_cons_self)
    rw [← h.all]
    rfl

/-- One more group in front. -/
theorem GreedySplit.cons (h : GreedySplit fits rest groups) (hne : group ≠ [])
    (hfits : fits group ∨ ∃ a, group = [a]) (hgreedy : ∀ a ∈ rest.head?, ¬ fits (group ++ [a])) :
    GreedySplit fits (group ++ rest) (group :: groups) := by
  constructor
  case all => rw [List.flatten_cons, h.all]
  case nonempty => exact List.forall_mem_cons.2 ⟨hne, h.nonempty⟩
  case bounded =>
    refine List.forall_mem_cons.2 ⟨?_, h.bounded⟩
    by_cases hgroup : fits group
    · exact .inl hgroup
    · obtain ⟨a, rfl⟩ := hfits.resolve_left hgroup
      exact .inr ⟨a, rfl, hgroup⟩
  case greedy =>
    refine List.isChain_cons.2 ⟨fun next hnext a ha => ?_, h.greedy⟩
    rw [h.head hnext] at ha
    exact hgreedy a ha

/-- A group that does not fit has one element. -/
theorem GreedySplit.single (h : GreedySplit fits rest groups) (hgroup : group ∈ groups)
    (hlarge : ¬ fits group) : ∃ a, group = [a] := by
  obtain ⟨a, ha, -⟩ := (h.bounded group hgroup).resolve_left hlarge
  exact ⟨a, ha⟩

end Tombstone
