import Tombstone.StringTokens

/- What a search for a key does at a string.

   In a body every quote stands behind a backslash, so the search gets past a whole string at a
   time (`findQuoted_body`). It can be taken in by a body that is the key, or that ends in a quote
   and the key, and then only where a colon follows (`findQuoted_names`); or by what stands between
   two strings, if that is the key itself. What `string_field` writes is such a string
   (`findQuoted_quote`). -/
namespace Tombstone.JsonText
open JsonScan StringTokens

/-- A body between its quotes. -/
def quoted (body : Bytes) : Bytes := ch '"' :: (body ++ [ch '"'])

/-- The body is the key, or ends in an escaped quote and the key: what the scanner takes for
the key where a colon follows. -/
def Names (key body : Bytes) : Prop := body = key ∨ ch '"' :: key <:+ body

instance (key body : Bytes) : Decidable (Names key body) :=
  inferInstanceAs (Decidable (body = key ∨ ch '"' :: key <:+ body))

variable {key value body rest : Bytes}

/-- A body that starts with a plain key and a quote is that key. -/
theorem Body.eq_of_prefix (hbody : Body body) (hkey : PlainKey key)
    (h : key ++ [ch '"'] <+: body ++ ch '"' :: rest) : body = key := by
  induction hbody generalizing key with
  | nil =>
    cases key with
    | nil => rfl
    | cons k ks =>
      have hk : k = ch '"' := (List.cons_prefix_cons.1 h).1
      exact absurd (hk ▸ List.mem_cons_self) hkey.quote
  | @plain c cs hc _ ih =>
    cases key with
    | nil => exact absurd (List.cons_prefix_cons.1 h).1.symm (isPlain_iff.1 hc).1
    | cons k ks =>
      obtain ⟨rfl, hrest⟩ := List.cons_prefix_cons.1 h
      have hks : PlainKey ks := ⟨fun hm => hkey.quote (List.mem_cons_of_mem _ hm),
        fun hm => hkey.backslash (List.mem_cons_of_mem _ hm)⟩
      rw [ih hks hrest]
  | short _ _ _ =>
    cases key with
    | nil => exact absurd (List.cons_prefix_cons.1 h).1 (by decide)
    | cons k ks =>
      have hk : k = ch '\\' := (List.cons_prefix_cons.1 h).1
      exact absurd (hk ▸ List.mem_cons_self) hkey.backslash
  | unit _ _ _ =>
    cases key with
    | nil => exact absurd (List.cons_prefix_cons.1 h).1 (by decide)
    | cons k ks =>
      have hk : k = ch '\\' := (List.cons_prefix_cons.1 h).1
      exact absurd (hk ▸ List.mem_cons_self) hkey.backslash

theorem not_quote_unit {h₁ h₂ h₃ h₄ : UInt8} (hhex : ∀ h ∈ [h₁, h₂, h₃, h₄], isHex h = true) :
    ch '"' ∉ [ch '\\', ch 'u', h₁, h₂, h₃, h₄] := by
  intro hquote
  rcases List.mem_append.1 (show ch '"' ∈ [ch '\\', ch 'u'] ++ [h₁, h₂, h₃, h₄] from hquote) with h | h
  · revert h
    decide
  · exact absurd (hhex _ h) (by decide)

theorem suffix_of_not_quote (gap : Bytes) {cs : Bytes} (hgap : ch '"' ∉ gap) (h : ch '"' :: key <:+ gap ++ cs) :
    ch '"' :: key <:+ cs := by
  induction gap with
  | nil => exact h
  | cons b gap ih =>
    rw [List.mem_cons, not_or] at hgap
    rcases List.suffix_cons_iff.1 h with hsame | hsuffix
    · exact absurd (List.cons.inj hsame).1 hgap.1
    · exact ih hgap.2 hsuffix

section Body

variable (hkey : PlainKey key) (hbridge : ¬ key ++ [ch '"'] <+: rest)
include hkey

/-- From an opening quote on, where the search gets past what is behind it. -/
theorem findQuoted_open (hbody : Body body) (hown : body = key → ¬ ColonNext rest)
    (hinside : findQuoted (needle key) 0 (body ++ ch '"' :: rest) = findQuoted (needle key) 0 rest) :
    findQuoted (needle key) 0 (ch '"' :: (body ++ ch '"' :: rest)) =
      findQuoted (needle key) 0 rest := by
  by_cases hmatch : key ++ [ch '"'] <+: body ++ ch '"' :: rest
  · -- the whole string is the key
    obtain rfl := Body.eq_of_prefix hbody hkey hmatch
    have htext : ch '"' :: (body ++ ch '"' :: rest) = needle body ++ rest := by simp [needle]
    rw [htext]
    exact findQuoted_pass (hown rfl)
  · rw [findQuoted_miss hmatch, hinside]

include hbridge

theorem findQuoted_inside (hbody : Body body) (hsuffix : ch '"' :: key <:+ body → ¬ ColonNext rest) :
    findQuoted (needle key) 0 (body ++ ch '"' :: rest) = findQuoted (needle key) 0 rest := by
  induction hbody with
  | nil => exact findQuoted_miss hbridge
  | plain hc _ ih =>
    rw [List.cons_append, findQuoted_byte (isPlain_iff.1 hc).1]
    exact ih fun h => hsuffix (h.trans (List.suffix_cons ..))
  | @short e cs _ hcs ih =>
    have hinside := ih fun h => hsuffix (h.trans ((List.suffix_cons ..).trans (List.suffix_cons ..)))
    rw [List.cons_append, List.cons_append, findQuoted_byte (by decide)]
    by_cases he : e = ch '"'
    · -- an escaped quote may lead the key, if that is all that is left of the string
      subst he
      exact findQuoted_open hkey hcs (fun hown => hsuffix (hown ▸ List.suffix_cons ..)) hinside
    · rw [findQuoted_byte he, hinside]
  | @unit h₁ h₂ h₃ h₄ cs hhex _ ih =>
    have hinside := ih fun h => hsuffix (h.trans (List.suffix_append [ch '\\', ch 'u', h₁, h₂, h₃, h₄] cs))
    calc findQuoted (needle key) 0 ([ch '\\', ch 'u', h₁, h₂, h₃, h₄] ++ (cs ++ ch '"' :: rest))
        = findQuoted (needle key) 0 (cs ++ ch '"' :: rest) :=
          findQuoted_gap (not_quote_unit hhex)
      _ = findQuoted (needle key) 0 rest := hinside

/-- **A whole string is passed over**, unless it names the key and a colon follows; or unless its
closing quote, what comes behind it and the next quote make the key. -/
theorem findQuoted_body (hbody : Body body) (hcolon : Names key body → ¬ ColonNext rest) :
    findQuoted (needle key) 0 (quoted body ++ rest) = findQuoted (needle key) 0 rest := by
  have hinside := findQuoted_inside hkey hbridge hbody fun h => hcolon (.inr h)
  have hopen := findQuoted_open hkey hbody (fun h => hcolon (.inl h)) hinside
  simpa [quoted] using hopen

end Body

section Names

variable {tail : Bytes} (hkey : PlainKey key) (hcolon : skipSpace rest = ch ':' :: tail)
include hcolon

theorem findQuoted_key :
    findQuoted (needle key) 0 (ch '"' :: (key ++ ch '"' :: rest)) = some (skipSpace tail) := by
  have h : findQuoted (needle key) 0 (needle key ++ rest) = some (skipSpace tail) := findQuoted_hit hcolon
  simpa [needle] using h

include hkey

theorem findQuoted_ending (hbody : Body body) (hsuffix : ch '"' :: key <:+ body) :
    findQuoted (needle key) 0 (body ++ ch '"' :: rest) = some (skipSpace tail) := by
  induction hbody with
  | nil => simp at hsuffix
  | @plain c cs hc _ ih =>
    have hne := (isPlain_iff.1 hc).1
    rw [List.cons_append, findQuoted_byte hne]
    exact ih (suffix_of_not_quote [c] (by simpa using Ne.symm hne) hsuffix)
  | @short e cs _ hcs ih =>
    have hbehind : ch '"' :: key <:+ e :: cs :=
      suffix_of_not_quote [ch '\\'] (by decide) hsuffix
    rw [List.cons_append, List.cons_append, findQuoted_byte (by decide)]
    by_cases he : e = ch '"'
    · subst he
      by_cases hmatch : key ++ [ch '"'] <+: cs ++ ch '"' :: rest
      · rw [Body.eq_of_prefix hcs hkey hmatch]
        exact findQuoted_key hcolon
      · rw [findQuoted_miss hmatch]
        apply ih
        rcases List.suffix_cons_iff.1 hbehind with hsame | hmore
        · -- the rest of the string would be the key, and match
          obtain rfl := (List.cons.inj hsame).2
          exact absurd ⟨rest, by simp⟩ hmatch
        · exact hmore
    · rw [findQuoted_byte he]
      exact ih (suffix_of_not_quote [e] (by simpa using Ne.symm he) hbehind)
  | @unit h₁ h₂ h₃ h₄ cs hhex _ ih =>
    have hgap := not_quote_unit hhex
    calc findQuoted (needle key) 0 ([ch '\\', ch 'u', h₁, h₂, h₃, h₄] ++ (cs ++ ch '"' :: rest))
        = findQuoted (needle key) 0 (cs ++ ch '"' :: rest) := findQuoted_gap hgap
      _ = some (skipSpace tail) := ih (suffix_of_not_quote _ hgap hsuffix)

/-- **A name that ends in the quoted key**: the search stops behind the colon. -/
theorem findQuoted_names (hbody : Body body) (hnames : Names key body) :
    findQuoted (needle key) 0 (quoted body ++ rest) = some (skipSpace tail) := by
  have hstart : quoted body ++ rest = ch '"' :: (body ++ ch '"' :: rest) := by simp [quoted]
  rw [hstart]
  by_cases hmatch : key ++ [ch '"'] <+: body ++ ch '"' :: rest
  · rw [Body.eq_of_prefix hbody hkey hmatch]
    exact findQuoted_key hcolon
  · rw [findQuoted_miss hmatch]
    rcases hnames with rfl | hsuffix
    · exact absurd ⟨rest, by simp⟩ hmatch
    · exact findQuoted_ending hkey hcolon hbody hsuffix

end Names

/-! ## Strings of the writer -/

theorem body_jsonEscape (value : Bytes) : Body (jsonEscape value) := by
  obtain ⟨body, hbody, hsame⟩ := body_of_readChars (readChars_quote value [])
  rw [List.append_cancel_right hsame]
  exact hbody

theorem not_names_jsonEscape (hkey : PlainKey key) (hother : value ≠ key) (hquote : ch '"' ∉ value) :
    ¬ Names key (jsonEscape value) := by
  rintro (hsame | hsuffix)
  · -- the key has no backslash, so nothing was escaped
    have hself := jsonEscape_eq_self (hsame ▸ hkey.backslash)
    exact hother (hself.symm.trans hsame)
  · exact hquote (quote_of_jsonEscape (hsuffix.subset List.mem_cons_self))

theorem findQuoted_quote (hkey : PlainKey key) (hbridge : ¬ key ++ [ch '"'] <+: rest)
    (hcolon : Names key (jsonEscape value) → ¬ ColonNext rest) :
    findQuoted (needle key) 0 (quote value ++ rest) = findQuoted (needle key) 0 rest := by
  rw [← findQuoted_body hkey hbridge (body_jsonEscape value) hcolon]
  simp [quote, quoted]

end Tombstone.JsonText
