import Tombstone.SpelledText

/- JSON texts whose strings are escaped as `json_escape` does it.

   If no name has a quote in it, a search for a key gets past a text that has no member of that
   name (`findValueStart_absent`), and stops at the value of the first member that has it
   (`findValueStart_padded`), however deep that is and whatever the strings say. -/
namespace Tombstone.JsonText
open JsonScan StringTokens

/-- The texts of a value whose strings are escaped so. -/
abbrev Written : Part → Bytes → Prop := Laid jsonEscape

variable {key text t : Bytes} {part : Part} {j v : Json} {ms : List (Bytes × Json)}

/-! ## The spelling -/

/-- A name without a quote names the key only if it is the key. -/
theorem names_jsonEscape (hkey : WordKey key) {name : Bytes} (hquote : ch '"' ∉ name) :
    Names key (jsonEscape name) ↔ name = key := by
  constructor
  · intro hnames
    exact Decidable.byContradiction fun hother =>
      not_names_jsonEscape hkey.toPlainKey hother hquote hnames
  · rintro rfl
    exact .inl hkey.escaped

theorem firstNamed_jsonEscape (hkey : WordKey key) (hquote : ∀ m ∈ ms, ch '"' ∉ m.1) :
    firstNamed jsonEscape key ms = ms.lookup key := by
  induction ms with
  | nil => rfl
  | cons m ms ih =>
    obtain ⟨name, j⟩ := m
    obtain ⟨hname, hmore⟩ := List.forall_mem_cons.1 hquote
    rw [firstNamed_cons, List.lookup_cons, ih hmore]
    by_cases hsame : name = key
    · rw [if_pos ((names_jsonEscape hkey hname).2 hsame), hsame, beq_self_eq_true]
    · rw [if_neg fun h => hsame ((names_jsonEscape hkey hname).1 h), beq_false_of_ne (Ne.symm hsame)]

/-! ## In a whole text -/

section Search

variable (hkey : WordKey key) (ht : Written (.value j) t) (htext : Padded t text)
  (hquote : ∀ m ∈ allMembers j, ch '"' ∉ m.1)
include hkey ht htext hquote

/-- **The value of the first member of the key.** -/
theorem findValueStart_padded (hlookup : (allMembers j).lookup key = some v) :
    ∃ tv back, Written (.value v) tv ∧ findValueStart text key = some (tv ++ back) ∧ ValueEnds back := by
  rw [← firstNamed_jsonEscape hkey hquote] at hlookup
  exact ht.findValueStart_some hkey htext hlookup

theorem findValueStart_absent (hlookup : (allMembers j).lookup key = none) :
    findValueStart text key = none := by
  rw [← firstNamed_jsonEscape hkey hquote] at hlookup
  exact ht.findValueStart_none hkey htext hlookup

end Search

end Tombstone.JsonText
