import Mathlib.Data.List.Induction

/- A table of bounded size: a value for a new key is dropped once the table is full, and a key that is
   there is always honoured.

   1. says what one put does to the keys and to a lookup (`put_cases`, `lookup_put_self`,
      `lookup_put_of_ne`);
   2. says what any number of them leave: the first keys that were put, each with the last value that
      was put for it (`keys_filled`, `lookup_filled`). -/
namespace Tombstone.BoundedTable

variable {K V : Type} {cap : Nat} {table puts : List (K × V)} {k j : K} {v : V}

def keys (table : List (K × V)) : List K := table.map Prod.fst

theorem keys_append (t u : List (K × V)) : keys (t ++ u) = keys t ++ keys u := List.map_append

variable [BEq K]

/-- An entry of the table is updated in place; a new one is added while there is room. -/
def put (cap : Nat) (table : List (K × V)) (entry : K × V) : List (K × V) :=
  if (table.lookup entry.1).isSome then table.map fun e => if e.1 == entry.1 then entry else e
  else if cap ≤ table.length then table
  else table ++ [entry]

/-- The table after these puts. -/
def filled (cap : Nat) (puts : List (K × V)) : List (K × V) := puts.foldl (put cap) []

theorem filled_concat (e : K × V) : filled cap (puts ++ [e]) = put cap (filled cap puts) e := by
  rw [filled, List.foldl_append]
  rfl

/-- A put leaves no entry but its own and those that were there. -/
theorem mem_put {e entry : K × V} (h : e ∈ put cap table entry) : e ∈ table ∨ e = entry := by
  unfold put at h
  split_ifs at h
  · obtain ⟨old, hold, rfl⟩ := List.mem_map.1 h
    split
    · exact .inr rfl
    · exact .inl hold
  · exact .inl h
  · exact (List.mem_append.1 h).imp_right List.mem_singleton.1

theorem mem_filled {e : K × V} (h : e ∈ filled cap puts) : e ∈ puts := by
  induction puts using List.reverseRecOn with
  | nil => cases h
  | append_singleton puts entry ih =>
    rw [filled_concat] at h
    rcases mem_put h with he | rfl
    · exact List.mem_append_left _ (ih he)
    · exact List.mem_append_right _ (List.mem_singleton_self e)

variable [LawfulBEq K]

theorem mem_keys : k ∈ keys table ↔ (table.lookup k).isSome := by
  simp only [keys, List.mem_map, List.lookup_isSome_iff, beq_iff_eq]
  exact exists_congr fun e => and_congr_right fun _ => eq_comm

/-- **What a put does** to the keys. -/
theorem put_cases (cap : Nat) (table : List (K × V)) (k : K) (v : V) :
    (k ∈ keys table ∧ keys (put cap table (k, v)) = keys table) ∨
      (k ∉ keys table ∧ cap ≤ (keys table).length ∧ put cap table (k, v) = table) ∨
      (k ∉ keys table ∧ (keys table).length < cap ∧ put cap table (k, v) = table ++ [(k, v)]) := by
  have hlength : (keys table).length = table.length := List.length_map _
  unfold put
  split_ifs with hfound hfull
  · refine .inl ⟨mem_keys.2 hfound, ?_⟩
    simp only [keys, List.map_map]
    apply List.map_congr_left
    intro e _
    simp only [Function.comp_apply]
    split
    · rename_i he
      exact (eq_of_beq he).symm
    · rfl
  · exact .inr (.inl ⟨fun hk => hfound (mem_keys.1 hk), hlength ▸ hfull, rfl⟩)
  · exact .inr (.inr ⟨fun hk => hfound (mem_keys.1 hk), hlength ▸ Nat.lt_of_not_le hfull, rfl⟩)

theorem lookup_updated_self (h : (table.lookup k).isSome) :
    (table.map fun e => if e.1 == k then (k, v) else e).lookup k = some v := by
  induction table with
  | nil => cases h
  | cons e table ih =>
    rw [List.map_cons]
    by_cases he : e.1 = k
    · rw [if_pos (beq_iff_eq.2 he), List.lookup_cons_self]
    · rw [List.lookup_cons, beq_false_of_ne (Ne.symm he)] at h
      rw [if_neg (mt eq_of_beq he), List.lookup_cons, beq_false_of_ne (Ne.symm he)]
      exact ih h

theorem lookup_updated_of_ne (h : j ≠ k) :
    (table.map fun e => if e.1 == k then (k, v) else e).lookup j = table.lookup j := by
  induction table with
  | nil => rfl
  | cons e table ih =>
    rw [List.map_cons]
    by_cases he : e.1 = k
    · rw [if_pos (beq_iff_eq.2 he), List.lookup_cons, List.lookup_cons, beq_false_of_ne h,
        beq_false_of_ne (he ▸ h), ih]
    · rw [if_neg (mt eq_of_beq he), List.lookup_cons, List.lookup_cons, ih]

/-- A key that is in the table after a put for it has the value of the put. -/
theorem lookup_put_self (h : k ∈ keys (put cap table (k, v))) :
    (put cap table (k, v)).lookup k = some v := by
  rcases put_cases cap table k v with ⟨hk, -⟩ | ⟨hk, -, heq⟩ | ⟨hk, -, heq⟩
  · have hfound := mem_keys.1 hk
    rw [put, if_pos hfound]
    exact lookup_updated_self hfound
  · exact absurd (heq ▸ h) hk
  · have hnone : table.lookup k = none := Option.not_isSome_iff_eq_none.1 (mt mem_keys.2 hk)
    rw [heq, List.lookup_append, hnone, List.lookup_cons_self]
    rfl

theorem lookup_put_of_ne (h : j ≠ k) : (put cap table (k, v)).lookup j = table.lookup j := by
  unfold put
  split_ifs
  · exact lookup_updated_of_ne h
  · rfl
  · rw [List.lookup_append, List.lookup_cons, beq_false_of_ne h]
    exact Option.or_none

/-! ## After any number of puts -/

theorem eraseDups_concat_of_mem {ks : List K} (h : k ∈ ks) : (ks ++ [k]).eraseDups = ks.eraseDups := by
  rw [List.eraseDups_append]
  simp [List.removeAll, h]

theorem eraseDups_concat_of_not_mem {ks : List K} (h : k ∉ ks) :
    (ks ++ [k]).eraseDups = ks.eraseDups ++ [k] := by
  rw [List.eraseDups_append]
  simp [List.removeAll, h, List.eraseDups_cons]

/-- **The first keys stay**: the table holds the keys that were put, without repetition, up to its
capacity. -/
theorem keys_filled (cap : Nat) (puts : List (K × V)) :
    keys (filled cap puts) = (keys puts).eraseDups.take cap := by
  induction puts using List.reverseRecOn with
  | nil => simp [filled, keys]
  | append_singleton puts e ih =>
    obtain ⟨k, v⟩ := e
    rw [filled_concat, keys_append]
    show _ = (keys puts ++ [k]).eraseDups.take cap
    rcases put_cases cap (filled cap puts) k v with ⟨hk, heq⟩ | ⟨hk, hfull, heq⟩ | ⟨hk, hroom, heq⟩
    · have hput : k ∈ keys puts := List.mem_eraseDups.1 (List.mem_of_mem_take (ih ▸ hk))
      rw [heq, ih, eraseDups_concat_of_mem hput]
    · have hlong : cap ≤ (keys puts).eraseDups.length := by
        rw [ih, List.length_take] at hfull
        exact Nat.le_trans hfull (Nat.min_le_right _ _)
      rw [heq, ih]
      by_cases hput : k ∈ keys puts
      · rw [eraseDups_concat_of_mem hput]
      · rw [eraseDups_concat_of_not_mem hput, List.take_append_of_le_length hlong]
    · have hshort : (keys puts).eraseDups.length < cap := by
        rw [ih, List.length_take] at hroom
        omega
      rw [ih, List.take_of_length_le (Nat.le_of_lt hshort)] at hk
      have hput : k ∉ keys puts := mt List.mem_eraseDups.2 hk
      rw [heq, keys_append, ih, eraseDups_concat_of_not_mem hput, List.take_of_length_le (Nat.le_of_lt hshort),
        List.take_of_length_le]
      · rfl
      · rw [List.length_append, List.length_singleton]
        exact hshort

theorem length_filled (cap : Nat) (puts : List (K × V)) : (filled cap puts).length ≤ cap := by
  have hlength : (keys (filled cap puts)).length = (filled cap puts).length := List.length_map _
  rw [← hlength, keys_filled, List.length_take]
  exact Nat.min_le_left _ _

/-- **The last value counts**, for the keys that the table holds. -/
theorem lookup_filled (h : k ∈ (keys puts).eraseDups.take cap) :
    (filled cap puts).lookup k = puts.reverse.lookup k := by
  rw [← keys_filled] at h
  induction puts using List.reverseRecOn with
  | nil => cases h
  | append_singleton puts e ih =>
    obtain ⟨k', v⟩ := e
    rw [filled_concat] at h ⊢
    rw [List.reverse_append, List.reverse_singleton, List.singleton_append]
    by_cases hk : k = k'
    · subst hk
      rw [lookup_put_self h, List.lookup_cons_self]
    · rw [mem_keys, lookup_put_of_ne hk] at h
      rw [lookup_put_of_ne hk, ih (mem_keys.2 h), List.lookup_cons, beq_false_of_ne hk]

theorem lookup_filled_none (h : k ∉ (keys puts).eraseDups.take cap) : (filled cap puts).lookup k = none := by
  rw [← keys_filled, mem_keys] at h
  exact Option.not_isSome_iff_eq_none.1 h

end Tombstone.BoundedTable
