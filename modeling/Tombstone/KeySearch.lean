import Tombstone.JsonScan
import Tombstone.JsonWriter

/- What the scanner finds in a text that the writer wrote.

   The scanner looks for the bytes of a quoted key, wherever they are. It passes over a byte that
   is no quote, over a quote that does not lead the key (`findQuoted_miss`), and over the bytes of
   the key where no colon follows (`findQuoted_pass`). A value is read back byte for byte
   (`readString_quote`). -/
namespace Tombstone.JsonScan

/-- The bytes the scanner looks for. -/
def needle (key : Bytes) : Bytes := [ch '"'] ++ key ++ [ch '"']

/-- A string as `string_field` writes it. -/
def quote (value : Bytes) : Bytes := [ch '"'] ++ jsonEscape value ++ [ch '"']

/-- A colon is the next byte that is no white space. -/
def ColonNext (rest : Bytes) : Prop := (skipSpace rest).head? = some (ch ':')

/-- A key that escaping leaves as it is. -/
structure PlainKey (key : Bytes) : Prop where
  quote : ch '"' ∉ key
  backslash : ch '\\' ∉ key

instance (key : Bytes) : Decidable (PlainKey key) :=
  decidable_of_iff (ch '"' ∉ key ∧ ch '\\' ∉ key)
    ⟨fun h => ⟨h.1, h.2⟩, fun h => ⟨h.quote, h.backslash⟩⟩

/-- What can stand behind a name or a value, apart from white space. -/
def punctuation : List UInt8 := [ch ',', ch ':', ch '\x7d', ch ']']

/-- A key that is written as it is, and that starts with neither white space nor punctuation. -/
structure WordKey (key : Bytes) : Prop extends PlainKey key where
  space : key.head?.any isSpace = false
  head : key.head?.any punctuation.contains = false
  escaped : jsonEscape key = key

instance (key : Bytes) : Decidable (WordKey key) :=
  decidable_of_iff (PlainKey key ∧ key.head?.any isSpace = false ∧
      key.head?.any punctuation.contains = false ∧ jsonEscape key = key)
    ⟨fun h => ⟨h.1, h.2.1, h.2.2.1, h.2.2.2⟩, fun h => ⟨h.toPlainKey, h.space, h.head, h.escaped⟩⟩

variable {key value gap rest : Bytes}

/-! ## Escapes -/

/-- A byte stands for itself, or a backslash leads; only the escape of a quote has a quote in
it. -/
theorem jsonEscapeByte_cases (b : UInt8) :
    (jsonEscapeByte b = [b] ∧ b ≠ ch '"' ∧ b ≠ ch '\\') ∨
      (b = ch '"' ∧ jsonEscapeByte b = [ch '\\', ch '"']) ∨
      (jsonEscapeByte b).head? = some (ch '\\') ∧ ch '"' ∉ jsonEscapeByte b := by
  revert b
  apply forall_byte
  decide +kernel

theorem jsonEscape_cons (b : UInt8) (value : Bytes) :
    jsonEscape (b :: value) = jsonEscapeByte b ++ jsonEscape value := List.flatMap_cons

/-- An escaped text without a backslash is the text itself. -/
theorem jsonEscape_eq_self (h : ch '\\' ∉ jsonEscape value) : jsonEscape value = value := by
  induction value with
  | nil => rfl
  | cons b value ih =>
    rw [jsonEscape_cons, List.mem_append, not_or] at h
    rcases jsonEscapeByte_cases b with ⟨hself, -⟩ | ⟨-, hquote⟩ | ⟨hlead, -⟩
    · rw [jsonEscape_cons, hself, ih h.2]
      rfl
    · exact absurd (hquote ▸ List.mem_cons_self) h.1
    · exact absurd (List.mem_of_mem_head? hlead) h.1

theorem quote_of_jsonEscape (h : ch '"' ∈ jsonEscape value) : ch '"' ∈ value := by
  obtain ⟨b, hb, hmem⟩ := List.mem_flatMap.1 h
  rcases jsonEscapeByte_cases b with ⟨hself, -⟩ | ⟨rfl, -⟩ | ⟨-, hnot⟩
  · rw [hself, List.mem_singleton] at hmem
    exact hmem ▸ hb
  · exact hb
  · exact absurd hmem hnot

theorem jsonEscape_plain (hkey : PlainKey key) (hcontrol : ∀ b ∈ key, 0x20 ≤ b) :
    jsonEscape key = key := by
  have hall : ∀ b : UInt8, b ≠ ch '"' → b ≠ ch '\\' → 0x20 ≤ b → jsonEscapeByte b = [b] := by
    intro b hquote hbackslash hb
    have hcontrol : ∀ c : UInt8, c < 0x20 → b ≠ c := fun c hc heq => UInt8.not_lt.mpr hb (heq ▸ hc)
    rw [jsonEscapeByte, if_neg hquote, if_neg hbackslash, if_neg (hcontrol 10 (by decide)),
      if_neg (hcontrol 13 (by decide)), if_neg (hcontrol 9 (by decide)), if_neg (hcontrol 8 (by decide)),
      if_neg (hcontrol 12 (by decide)), if_neg (UInt8.not_lt.mpr hb)]
  induction key with
  | nil => rfl
  | cons b bs ih =>
    have hb := hall b (fun h => hkey.quote (h ▸ List.mem_cons_self))
      (fun h => hkey.backslash (h ▸ List.mem_cons_self)) (hcontrol b List.mem_cons_self)
    rw [jsonEscape_cons, hb, ih ⟨fun hm => hkey.quote (List.mem_cons_of_mem _ hm),
      fun hm => hkey.backslash (List.mem_cons_of_mem _ hm)⟩
      fun c hc => hcontrol c (List.mem_cons_of_mem _ hc)]
    rfl

/-- The bytes of such a key do not start where white space or punctuation stands. -/
theorem WordKey.not_bridge (hkey : WordKey key)
    (h : ∀ c ∈ rest.head?, isSpace c = true ∨ c ∈ punctuation) : ¬ key ++ [ch '"'] <+: rest := by
  intro hprefix
  cases rest with
  | nil => simp at hprefix
  | cons c rest =>
    have hc := h c rfl
    cases key with
    | nil =>
      have hquote : ch '"' = c := (List.cons_prefix_cons.1 hprefix).1
      subst hquote
      revert hc
      decide
    | cons k ks =>
      obtain rfl : k = c := (List.cons_prefix_cons.1 hprefix).1
      rcases hc with hc | hc
      · have hspace : isSpace k = false := hkey.space
        rw [hc] at hspace
        cases hspace
      · have hpunct : punctuation.contains k = false := hkey.head
        rw [List.contains_iff_mem.2 hc] at hpunct
        cases hpunct

/-! ## The search -/

theorem findQuoted_skip (quoted pre rest : Bytes) :
    findQuoted quoted pre.length (pre ++ rest) = findQuoted quoted 0 rest := by
  induction pre with
  | nil => rfl
  | cons b pre ih => exact ih

/-- A match does not start at a byte that is no quote. -/
theorem findQuoted_byte {b : UInt8} (h : b ≠ ch '"') :
    findQuoted (needle key) 0 (b :: rest) = findQuoted (needle key) 0 rest := by
  have hno : (needle key).isPrefixOf (b :: rest) = false := by
    have hb : (ch '"' == b) = false := beq_false_of_ne (Ne.symm h)
    show (ch '"' == b && _) = false
    rw [hb, Bool.false_and]
  rw [findQuoted, hno]
  rfl

theorem findQuoted_gap (h : ch '"' ∉ gap) :
    findQuoted (needle key) 0 (gap ++ rest) = findQuoted (needle key) 0 rest := by
  induction gap with
  | nil => rfl
  | cons b gap ih =>
    rw [List.mem_cons, not_or] at h
    rw [List.cons_append, findQuoted_byte (Ne.symm h.1), ih h.2]

theorem findQuoted_miss (h : ¬ key ++ [ch '"'] <+: rest) :
    findQuoted (needle key) 0 (ch '"' :: rest) = findQuoted (needle key) 0 rest := by
  have hno : (needle key).isPrefixOf (ch '"' :: rest) = false := by
    apply Bool.eq_false_iff.2
    intro hyes
    exact h (List.cons_prefix_cons.1 (List.isPrefixOf_iff_prefix.1 hyes)).2
  rw [findQuoted, hno]
  rfl

theorem findQuoted_needle (key rest : Bytes) :
    findQuoted (needle key) 0 (needle key ++ rest) =
      match skipSpace rest with
      | [] => findQuoted (needle key) 0 rest
      | d :: ds => if d = ch ':' then some (skipSpace ds) else findQuoted (needle key) 0 rest := by
  have hcons : needle key ++ rest = ch '"' :: (key ++ [ch '"'] ++ rest) := by simp [needle]
  have hyes : (needle key).isPrefixOf (ch '"' :: (key ++ [ch '"'] ++ rest)) = true :=
    List.isPrefixOf_iff_prefix.2 (hcons ▸ List.prefix_append ..)
  have hdrop : (ch '"' :: (key ++ [ch '"'] ++ rest)).drop (needle key).length = rest := by
    rw [← hcons, List.drop_left]
  have hlength : (needle key).length - 1 = (key ++ [ch '"']).length := by simp [needle]
  rw [hcons, findQuoted, if_pos hyes, hdrop]
  cases skipSpace rest with
  | nil => exact hlength ▸ findQuoted_skip ..
  | cons d ds =>
    show (if d = ch ':' then _ else findQuoted (needle key) ((needle key).length - 1) _) = _
    rw [hlength, findQuoted_skip]

/-- **The key**, where a colon follows. -/
theorem findQuoted_hit {tail : Bytes} (h : skipSpace rest = ch ':' :: tail) :
    findQuoted (needle key) 0 (needle key ++ rest) = some (skipSpace tail) := by
  rw [findQuoted_needle, h]
  exact if_pos rfl

theorem findQuoted_pass (h : ¬ ColonNext rest) :
    findQuoted (needle key) 0 (needle key ++ rest) = findQuoted (needle key) 0 rest := by
  rw [findQuoted_needle]
  unfold ColonNext at h
  split
  · rfl
  · rename_i d ds hspace
    rw [hspace, List.head?_cons, Option.some.injEq] at h
    exact if_neg h

/-! ## Reading a string back -/

theorem hexValue_hexDigit : ∀ n, n < 16 → hexValue (hexDigit n) = some n := by decide

theorem readChars_close (rest : Bytes) : readChars (ch '"' :: rest) = some ([], rest) := by
  unfold readChars
  rw [if_pos rfl]

theorem readChars_plain {c : UInt8} (hquote : c ≠ ch '"') (hcontrol : ¬ c < 0x20)
    (hbackslash : c ≠ ch '\\') :
    readChars (c :: rest) = (readChars rest).map fun r => (c :: r.1, r.2) := by
  rw [readChars.eq_def]
  simp only [hquote, hcontrol, hbackslash, if_false, ne_eq, not_false_eq_true, if_true]

theorem readChars_short {e b : UInt8} (h : shortEscape e = some b) :
    readChars (ch '\\' :: e :: rest) = (readChars rest).map fun r => (b :: r.1, r.2) := by
  rw [readChars.eq_def]
  simp only [h]
  rfl

/-- A control byte, by the two digits of its code. -/
theorem readChars_control {c : UInt8} (hc : c < 0x20) :
    readChars (lit "\\u00" ++ [hexDigit (c.toNat / 16), hexDigit (c.toNat % 16)] ++ rest) =
      (readChars rest).map fun r => (c :: r.1, r.2) := by
  have hlt : c.toNat < 32 := hc
  have hhigh := hexValue_hexDigit (c.toNat / 16) (by omega)
  have hlow := hexValue_hexDigit (c.toNat % 16) (by omega)
  have hzero : hexValue (ch '0') = some 0 := by decide
  have hnone : shortEscape (ch 'u') = none := by decide
  have hu : (ch 'u' == ch 'u') = true := by decide
  have hcode : c.toNat / 16 * 16 + c.toNat % 16 = c.toNat := by omega
  have hvalue : utf8Of c.toNat = [c] := by
    rw [utf8Of, if_pos (by omega)]
    exact congrArg (fun b => [b]) UInt8.ofNat_toNat
  show readChars (ch '\\' :: ch 'u' :: ch '0' :: ch '0' :: hexDigit (c.toNat / 16) ::
    hexDigit (c.toNat % 16) :: rest) = _
  rw [readChars.eq_def]
  simp only [hnone, hu, hzero, hhigh, hlow, Nat.zero_mul, Nat.zero_add, hcode, hvalue]
  rfl

/-- **`read_string` undoes `json_escape`**, byte by byte. -/
theorem readChars_escaped (c : UInt8) (rest : Bytes) :
    readChars (jsonEscapeByte c ++ rest) = (readChars rest).map fun r => (c :: r.1, r.2) := by
  by_cases hshort : c = ch '"' ∨ c = ch '\\' ∨ c = 10 ∨ c = 13 ∨ c = 9 ∨ c = 8 ∨ c = 12
  · rcases hshort with rfl | rfl | rfl | rfl | rfl | rfl | rfl
    all_goals exact readChars_short (by decide)
  · simp only [not_or] at hshort
    obtain ⟨hquote, hbackslash, h10, h13, h9, h8, h12⟩ := hshort
    by_cases hcontrol : c < 0x20
    · have htext : jsonEscapeByte c =
          lit "\\u00" ++ [hexDigit (c.toNat / 16), hexDigit (c.toNat % 16)] := by
        simp [jsonEscapeByte, hquote, hbackslash, h10, h13, h9, h8, h12, hcontrol]
      rw [htext, readChars_control hcontrol]
    · have htext : jsonEscapeByte c = [c] := by
        simp [jsonEscapeByte, hquote, hbackslash, h10, h13, h9, h8, h12, hcontrol]
      rw [htext, List.singleton_append, readChars_plain hquote hcontrol hbackslash]

theorem readChars_quote (value rest : Bytes) :
    readChars (jsonEscape value ++ ch '"' :: rest) = some (value, rest) := by
  induction value with
  | nil => exact readChars_close rest
  | cons c value ih =>
    rw [jsonEscape_cons, List.append_assoc, readChars_escaped, ih]
    rfl

/-- **What `string_field` wrote is read back**, whatever stands behind it. -/
theorem readString_quote (value rest : Bytes) :
    readString (quote value ++ rest) = some (value, rest) := by
  have hstart : quote value ++ rest = ch '"' :: (jsonEscape value ++ ch '"' :: rest) := by
    simp [quote]
  rw [hstart, readString, if_pos rfl, readChars_quote]

end Tombstone.JsonScan
