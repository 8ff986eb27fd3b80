import Mathlib.Data.List.Basic

/- Sequences cut at a separator: the two halves around the first one (`cut`), and the
   records between them (`records`). A reader that cuts finds what a writer put between two
   separators exactly when the writer put no separator there, and whatever it finds has
   none in it. -/
namespace Tombstone.Delimited

variable {α : Type*} [DecidableEq α] {sep : α}

/-- What stands before and behind the first separator. -/
def cut (sep : α) : List α → Option (List α × List α)
  | [] => none
  | c :: cs => if c = sep then some ([], cs) else (cut sep cs).map fun r => (c :: r.1, r.2)

/-- The records between separators; what follows the last one is a record of its own when
it is not empty. -/
def records (sep : α) : List α → List (List α)
  | [] => []
  | c :: cs =>
    if c = sep then [] :: records sep cs
    else match records sep cs with
      | [] => [[c]]
      | r :: rs => (c :: r) :: rs

theorem cut_append {left : List α} (h : sep ∉ left) (right : List α) :
    cut sep (left ++ sep :: right) = some (left, right) := by
  induction left with
  | nil => rw [List.nil_append, cut, if_pos rfl]
  | cons c cs ih =>
    rw [List.mem_cons, not_or] at h
    rw [List.cons_append, cut, if_neg (Ne.symm h.1), ih h.2, Option.map_some]

/-- Whatever is cut is what was cut. -/
theorem eq_of_cut {text left right : List α} (h : cut sep text = some (left, right)) :
    text = left ++ sep :: right ∧ sep ∉ left := by
  induction text generalizing left with
  | nil => rw [cut] at h; cases h
  | cons c cs ih =>
    rw [cut] at h
    by_cases hc : c = sep
    · rw [if_pos hc] at h
      obtain ⟨rfl, rfl⟩ := Prod.mk.inj (Option.some.inj h)
      exact ⟨by rw [hc, List.nil_append], List.not_mem_nil⟩
    · rw [if_neg hc] at h
      obtain ⟨⟨l, r⟩, hr, he⟩ := Option.map_eq_some_iff.1 h
      obtain ⟨rfl, rfl⟩ := Prod.mk.inj he
      obtain ⟨htext, hnot⟩ := ih hr
      refine ⟨by rw [htext, List.cons_append], ?_⟩
      rw [List.mem_cons, not_or]
      exact ⟨Ne.symm hc, hnot⟩

theorem cut_eq_none {text : List α} : cut sep text = none ↔ sep ∉ text := by
  constructor
  · intro hcut hmem
    obtain ⟨left, right, rfl, hleft⟩ := List.eq_append_cons_of_mem hmem
    rw [cut_append hleft] at hcut
    cases hcut
  · intro h
    cases hcut : cut sep text with
    | none => rfl
    | some halves =>
      rw [(eq_of_cut hcut).1] at h
      exact absurd (List.mem_append_right _ List.mem_cons_self) h

/-- A record and its separator are read off the front. -/
theorem records_append {left : List α} (h : sep ∉ left) (right : List α) :
    records sep (left ++ sep :: right) = left :: records sep right := by
  induction left with
  | nil => rw [List.nil_append, records, if_pos rfl]
  | cons c cs ih =>
    rw [List.mem_cons, not_or] at h
    rw [List.cons_append, records, if_neg (Ne.symm h.1), ih h.2]

/-- What stands behind the last separator is a record of its own. -/
theorem records_last {last : List α} (h : sep ∉ last) (hlast : last ≠ []) : records sep last = [last] := by
  induction last with
  | nil => exact absurd rfl hlast
  | cons c cs ih =>
    rw [List.mem_cons, not_or] at h
    rw [records, if_neg (Ne.symm h.1)]
    by_cases hcs : cs = []
    · rw [hcs, records]
    · rw [ih h.2 hcs]

/-- What is written a record at a time is read back a record at a time. -/
theorem records_flatMap {lines : List (List α)} (h : ∀ line ∈ lines, sep ∉ line) :
    records sep (lines.flatMap (· ++ [sep])) = lines := by
  induction lines with
  | nil => rfl
  | cons line rest ih =>
    rw [List.flatMap_cons, List.append_assoc, List.singleton_append,
      records_append (h line List.mem_cons_self),
      ih fun l hl => h l (List.mem_cons_of_mem _ hl)]

theorem not_mem_of_mem_records {text line : List α} (h : line ∈ records sep text) :
    sep ∉ line := by
  induction text generalizing line with
  | nil => cases h
  | cons c cs ih =>
    rw [records] at h
    by_cases hc : c = sep
    · rw [if_pos hc] at h
      rcases List.mem_cons.1 h with rfl | h
      · exact List.not_mem_nil
      · exact ih h
    · rw [if_neg hc] at h
      cases hr : records sep cs with
      | nil =>
        rw [hr, List.mem_singleton] at h
        rw [h, List.mem_singleton]
        exact Ne.symm hc
      | cons r rs =>
        rw [hr] at h ih
        rcases List.mem_cons.1 h with rfl | h
        · rw [List.mem_cons, not_or]
          exact ⟨Ne.symm hc, ih List.mem_cons_self⟩
        · exact ih (List.mem_cons_of_mem _ h)

end Tombstone.Delimited
