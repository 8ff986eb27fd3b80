import Tombstone.Json
import Tombstone.KeySearch

/- String tokens (RFC 8259), and what `read_string` makes of them.

   Outside its escapes a token is judged byte by byte: every byte from 0x20 on stands for
   itself, but the quote and the backslash. This file

   1. defines what can stand between the quotes (`Body`), and proves that `read_string`
      succeeds exactly where a token starts, and stops just behind it (`readStringAt_iff`);
   2. defines the spellings of a character (`Spelling`), and proves that a spelled text is
      read as its UTF-8 exactly when no character of it is spelled as a surrogate pair
      (`readString_spelled_iff`): each half of a pair is written out by itself. -/
namespace Tombstone.StringTokens
open JsonScan

/-! ## Tokens -/

/-- The letters of the two-byte escapes. -/
def shortEscapes : Bytes := lit "\"\\/bfnrt"

/-- A byte that stands for itself. -/
def isPlain (c : UInt8) : Bool := c != ch '"' && c != ch '\\' && decide (0x20 ≤ c)

def isHex (c : UInt8) : Bool := (Json.hexValue c).isSome

/-- The bytes between the quotes of a token. -/
inductive Body : Bytes → Prop
  | nil : Body []
  | plain {c : UInt8} {cs : Bytes} : isPlain c = true → Body cs → Body (c :: cs)
  | short {e : UInt8} {cs : Bytes} : e ∈ shortEscapes → Body cs → Body (ch '\\' :: e :: cs)
  | unit {h₁ h₂ h₃ h₄ : UInt8} {cs : Bytes} : (∀ h ∈ [h₁, h₂, h₃, h₄], isHex h = true) → Body cs →
      Body (ch '\\' :: ch 'u' :: h₁ :: h₂ :: h₃ :: h₄ :: cs)

/-- A token starts at `pos`, and `after` is just behind its closing quote. -/
def TokenAt (json : Bytes) (pos after : Nat) : Prop :=
  ∃ body rest, Body body ∧ json.drop pos = ch '"' :: (body ++ ch '"' :: rest) ∧
    after = pos + (body.length + 2)

/-- `read_string` as its callers see it: what is read from `pos`, and the position behind it. -/
def readStringAt (json : Bytes) (pos : Nat) : Option (Bytes × Nat) :=
  (readString (json.drop pos)).map fun r => (r.1, json.length - r.2.length)

variable {c e : UInt8} {body cs rest : Bytes}

theorem hexValue_eq (c : UInt8) : JsonScan.hexValue c = Json.hexValue c := rfl

theorem shortEscape_isSome (e : UInt8) : (shortEscape e).isSome = true ↔ e ∈ shortEscapes := by
  have hlist : shortEscapes = [ch '"', ch '\\', ch '/', ch 'b', ch 'f', ch 'n', ch 'r', ch 't'] := by
    decide
  simp [shortEscape, hlist, apply_ite Option.isSome, or_assoc, or_comm, or_left_comm]

theorem isPlain_iff : isPlain c = true ↔ c ≠ ch '"' ∧ ¬ c < 0x20 ∧ c ≠ ch '\\' := by
  simp only [isPlain, Bool.and_eq_true, bne_iff_ne, decide_eq_true_eq, UInt8.not_lt]
  tauto

theorem readChars_isPlain (h : isPlain c = true) :
    readChars (c :: rest) = (readChars rest).map fun r => (c :: r.1, r.2) := by
  obtain ⟨hquote, hcontrol, hbackslash⟩ := isPlain_iff.1 h
  exact readChars_plain hquote hcontrol hbackslash

/-- A `\u` escape puts out what `append_utf8` makes of its code unit. -/
theorem readChars_unit {h₁ h₂ h₃ h₄ : UInt8} {d₁ d₂ d₃ d₄ : Nat} (e₁ : Json.hexValue h₁ = some d₁)
    (e₂ : Json.hexValue h₂ = some d₂) (e₃ : Json.hexValue h₃ = some d₃)
    (e₄ : Json.hexValue h₄ = some d₄) :
    readChars (ch '\\' :: ch 'u' :: h₁ :: h₂ :: h₃ :: h₄ :: rest) =
      (readChars rest).map fun r => (utf8Of (d₁ * 4096 + d₂ * 256 + d₃ * 16 + d₄) ++ r.1, r.2) := by
  have hnone : shortEscape (ch 'u') = none := by decide
  have hu : (ch 'u' == ch 'u') = true := by decide
  rw [readChars.eq_def]
  simp only [hnone, hu, hexValue_eq, e₁, e₂, e₃, e₄]
  rfl

/-- **What is read is a token's body**, with its closing quote behind it. -/
theorem body_of_readChars {v : Bytes} (h : readChars cs = some (v, rest)) :
    ∃ body, Body body ∧ cs = body ++ ch '"' :: rest := by
  fun_induction readChars cs generalizing v rest with
  | case2 cs =>
    simp only [Option.some.injEq, Prod.mk.injEq] at h
    exact ⟨[], .nil, by rw [← h.2]; rfl⟩
  | case4 c cs hquote hcontrol hbackslash ih =>
    obtain ⟨⟨_, _⟩, hread, hsame⟩ := Option.map_eq_some_iff.1 h
    obtain ⟨-, rfl⟩ := Prod.mk.inj hsame
    obtain ⟨body, hbody, rfl⟩ := ih hread
    exact ⟨c :: body, .plain (isPlain_iff.2 ⟨hquote, hcontrol, hbackslash⟩) hbody, rfl⟩
  | case6 c hquote hcontrol hbackslash e es b hshort ih =>
    obtain ⟨⟨_, _⟩, hread, hsame⟩ := Option.map_eq_some_iff.1 h
    obtain ⟨-, rfl⟩ := Prod.mk.inj hsame
    obtain ⟨body, hbody, rfl⟩ := ih hread
    obtain rfl := not_not.1 hbackslash
    have he : e ∈ shortEscapes := (shortEscape_isSome e).1 (by simp [hshort])
    exact ⟨_, .short he hbody, rfl⟩
  | case7 c hquote hcontrol hbackslash e hshort h₁ h₂ h₃ h₄ es hu d₁ d₂ d₃ d₄ e₄ e₃ e₂ e₁ ih =>
    obtain ⟨⟨_, _⟩, hread, hsame⟩ := Option.map_eq_some_iff.1 h
    obtain ⟨-, rfl⟩ := Prod.mk.inj hsame
    obtain ⟨body, hbody, rfl⟩ := ih hread
    obtain rfl := not_not.1 hbackslash
    obtain rfl := beq_iff_eq.1 hu
    rw [hexValue_eq] at e₁ e₂ e₃ e₄
    have hhex : ∀ h ∈ [h₁, h₂, h₃, h₄], isHex h = true := by
      simp [isHex, e₁, e₂, e₃, e₄]
    exact ⟨_, .unit hhex hbody, rfl⟩
  | case1 => simp at h
  | case3 => simp at h
  | case5 => simp at h
  | case8 => simp at h
  | case9 => simp at h

/-- What is read does not depend on what stands behind the token. -/
theorem readChars_body (h : Body body) :
    ∃ v, ∀ rest, readChars (body ++ ch '"' :: rest) = some (v, rest) := by
  induction h with
  | nil => exact ⟨[], readChars_close⟩
  | @plain c _ hc _ ih =>
    obtain ⟨v, hv⟩ := ih
    exact ⟨c :: v, fun rest => by rw [List.cons_append, readChars_isPlain hc, hv]; rfl⟩
  | @short e _ he _ ih =>
    obtain ⟨v, hv⟩ := ih
    obtain ⟨b, hb⟩ := Option.isSome_iff_exists.1 ((shortEscape_isSome e).2 he)
    exact ⟨b :: v, fun rest => by
      rw [List.cons_append, List.cons_append, readChars_short hb, hv]; rfl⟩
  | @unit h₁ h₂ h₃ h₄ _ hhex _ ih =>
    obtain ⟨v, hv⟩ := ih
    simp only [isHex, List.forall_mem_cons, Option.isSome_iff_exists] at hhex
    obtain ⟨⟨d₁, e₁⟩, ⟨d₂, e₂⟩, ⟨d₃, e₃⟩, ⟨d₄, e₄⟩, -⟩ := hhex
    exact ⟨utf8Of (d₁ * 4096 + d₂ * 256 + d₃ * 16 + d₄) ++ v, fun rest => by
      simp only [List.cons_append, readChars_unit e₁ e₂ e₃ e₄, hv]; rfl⟩

theorem readString_open (cs : Bytes) : readString (ch '"' :: cs) = readChars cs := by
  rw [readString, if_pos rfl]

/-- **A string is read exactly where a token starts**, up to just behind its closing quote. -/
theorem readStringAt_iff (json : Bytes) (pos after : Nat) :
    (∃ v, readStringAt json pos = some (v, after)) ↔ TokenAt json pos after := by
  have hlength : ∀ {body rest : Bytes}, json.drop pos = ch '"' :: (body ++ ch '"' :: rest) →
      json.length - rest.length = pos + (body.length + 2) := by
    intro body rest hdrop
    have h := congrArg List.length hdrop
    simp only [List.length_drop, List.length_cons, List.length_append] at h
    omega
  constructor
  · rintro ⟨v, h⟩
    obtain ⟨⟨_, rest⟩, hread, hsame⟩ := Option.map_eq_some_iff.1 h
    obtain ⟨-, rfl⟩ := Prod.mk.inj hsame
    cases hdrop : json.drop pos with
    | nil => simp [hdrop, readString] at hread
    | cons c cs =>
      rw [hdrop, readString] at hread
      split at hread
      · rename_i hquote
        subst hquote
        obtain ⟨body, hbody, rfl⟩ := body_of_readChars hread
        exact ⟨body, rest, hbody, hdrop, hlength hdrop⟩
      · simp at hread
  · rintro ⟨body, rest, hbody, hdrop, rfl⟩
    obtain ⟨v, hv⟩ := readChars_body hbody
    refine ⟨v, ?_⟩
    rw [readStringAt, hdrop, readString_open, hv, Option.map_some, hlength hdrop]

/-! ## Spelled texts -/

abbrev HexDigit := { h : UInt8 // isHex h = true }

def HexDigit.value (d : HexDigit) : Nat := (Json.hexValue d.1).getD 0

/-- A `\u` escape, by its four digits. -/
structure CodeUnit where
  d₁ : HexDigit
  d₂ : HexDigit
  d₃ : HexDigit
  d₄ : HexDigit

def CodeUnit.value (u : CodeUnit) : Nat :=
  u.d₁.value * 4096 + u.d₂.value * 256 + u.d₃.value * 16 + u.d₄.value

def CodeUnit.text (u : CodeUnit) : Bytes := [ch '\\', ch 'u', u.d₁.1, u.d₂.1, u.d₃.1, u.d₄.1]

/-- One character, as a token may spell it. -/
inductive Spelling
  | raw (c : Char) (plain : 0x20 ≤ c.toNat ∧ c ≠ '"' ∧ c ≠ '\\')
  | short (e : UInt8) (letter : e ∈ shortEscapes)
  | unit (u : CodeUnit) (scalar : u.value < 0xD800 ∨ 0xE000 ≤ u.value)
  | pair (high low : CodeUnit) (isHigh : 0xD800 ≤ high.value ∧ high.value < 0xDC00)
      (isLow : 0xDC00 ≤ low.value ∧ low.value < 0xE000)

namespace Spelling

def isPair : Spelling → Bool
  | .pair .. => true
  | _ => false

/-- The character that is spelled. -/
def char : Spelling → Char
  | .raw c _ => c
  | .short e _ => Char.ofNat ((Json.shortEscape e).getD 0).toNat
  | .unit u _ => Char.ofNat u.value
  | .pair high low _ _ => Char.ofNat (0x10000 + (high.value - 0xD800) * 0x400 + (low.value - 0xDC00))

def text : Spelling → Bytes
  | .raw c _ => String.utf8EncodeChar c
  | .short e _ => [ch '\\', e]
  | .unit u _ => u.text
  | .pair high low _ _ => high.text ++ low.text

/-- What `read_string` puts out for it. -/
def read : Spelling → Bytes
  | .pair high low _ _ => utf8Of high.value ++ utf8Of low.value
  | s => String.utf8EncodeChar s.char

end Spelling

theorem HexDigit.hexValue (d : HexDigit) : Json.hexValue d.1 = some d.value := by
  obtain ⟨n, hn⟩ := Option.isSome_iff_exists.1 d.2
  simp [HexDigit.value, hn]

theorem HexDigit.value_lt (d : HexDigit) : d.value < 16 := by
  have hall : ∀ c : UInt8, (Json.hexValue c).getD 0 < 16 := by
    intro c
    unfold Json.hexValue
    split
    · next hdigit =>
      have hlast : c.toNat ≤ 57 := hdigit.2
      show c.toNat - 48 < 16
      omega
    · split
      · next hlower =>
        have hlast : c.toNat ≤ 102 := hlower.2
        show c.toNat - 87 < 16
        omega
      · split
        · next hupper =>
          have hlast : c.toNat ≤ 70 := hupper.2
          show c.toNat - 55 < 16
          omega
        · decide
  exact hall d.1

theorem CodeUnit.value_lt (u : CodeUnit) : u.value < 0x10000 := by
  have h₁ := u.d₁.value_lt
  have h₂ := u.d₂.value_lt
  have h₃ := u.d₃.value_lt
  have h₄ := u.d₄.value_lt
  unfold CodeUnit.value
  omega

theorem readChars_codeUnit (u : CodeUnit) (rest : Bytes) :
    readChars (u.text ++ rest) = (readChars rest).map fun r => (utf8Of u.value ++ r.1, r.2) :=
  readChars_unit u.d₁.hexValue u.d₂.hexValue u.d₃.hexValue u.d₄.hexValue

theorem toNat_char {n : Nat} (h : n.isValidChar) : (Char.ofNat n).val.toNat = n := by
  have hchar : Char.ofNat n = Char.ofNatAux n h := dif_pos h
  rw [hchar]
  rfl

/-- `append_utf8` is right for the code points that one escape can name. -/
theorem utf8Of_char {n : Nat} (hlt : n < 0x10000) (hscalar : n < 0xD800 ∨ 0xE000 ≤ n) :
    utf8Of n = String.utf8EncodeChar (Char.ofNat n) := by
  have hvalid : n.isValidChar := by
    unfold Nat.isValidChar
    omega
  have hn : (Char.ofNat n).val.toNat = n := toNat_char hvalid
  unfold utf8Of String.utf8EncodeChar
  simp only [hn]
  by_cases hone : n < 0x80
  · rw [if_pos hone, if_pos (show n ≤ 0x7F by omega)]
  · by_cases htwo : n < 0x800
    · have hlead : 0xC0 + n / 64 = n / 64 % 32 + 0xC0 := by omega
      have htail : 0x80 + n % 64 = n % 64 + 0x80 := by omega
      rw [if_neg hone, if_pos htwo, if_neg (show ¬ n ≤ 0x7F by omega), if_pos (show n ≤ 0x7FF by omega),
        hlead, htail]
    · have hlead : 0xE0 + n / 4096 = n / 4096 % 16 + 0xE0 := by omega
      have hmid : 0x80 + n / 64 % 64 = n / 64 % 64 + 0x80 := by omega
      have htail : 0x80 + n % 64 = n % 64 + 0x80 := by omega
      rw [if_neg hone, if_neg htwo, if_neg (show ¬ n ≤ 0x7F by omega),
        if_neg (show ¬ n ≤ 0x7FF by omega), if_pos (show n ≤ 0xFFFF by omega), hlead, hmid, htail]

theorem isPlain_ofNat {n : Nat} (hbyte : n < 0x100) (hcontrol : 0x20 ≤ n) (hquote : n ≠ 34)
    (hbackslash : n ≠ 92) : isPlain (UInt8.ofNat n) = true := by
  have hcode : (UInt8.ofNat n).toNat = n := UInt8.toNat_ofNat_of_lt hbyte
  have hother : ∀ c : UInt8, n ≠ c.toNat → UInt8.ofNat n ≠ c := fun c hc heq => hc (by rw [← heq, hcode])
  refine isPlain_iff.mpr ⟨hother _ hquote, fun hlt => ?_, hother _ hbackslash⟩
  have hsmall : (UInt8.ofNat n).toNat < 32 := hlt
  omega

theorem isPlain_high {n : Nat} (hlow : 0x80 ≤ n) (hhigh : n < 0x100) : isPlain (UInt8.ofNat n) = true :=
  isPlain_ofNat hhigh (by omega) (by omega) (by omega)

/-- The bytes of a character that stands for itself do so too. -/
theorem isPlain_encodeChar {c : Char} (hplain : 0x20 ≤ c.toNat ∧ c ≠ '"' ∧ c ≠ '\\') :
    ∀ b ∈ String.utf8EncodeChar c, isPlain b = true := by
  obtain ⟨hcontrol, hquote, hbackslash⟩ := hplain
  have hlt : c.val.toNat < 0x110000 := by
    have := c.valid
    simp only [UInt32.isValidChar, Nat.isValidChar] at this
    omega
  unfold String.utf8EncodeChar
  dsimp only
  split
  · -- ASCII: a control, the quote and the backslash are excluded
    have hcode : ∀ d : Char, c ≠ d → c.val.toNat ≠ d.val.toNat := fun d hd h =>
      hd (Char.ext (UInt32.toNat_inj.1 h))
    rw [List.forall_mem_singleton]
    exact isPlain_ofNat (by omega) hcontrol (hcode _ hquote) (hcode _ hbackslash)
  · split
    · simp only [List.forall_mem_cons, List.not_mem_nil, false_imp_iff, implies_true, and_true]
      exact ⟨isPlain_high (by omega) (by omega), isPlain_high (by omega) (by omega)⟩
    · split
      · simp only [List.forall_mem_cons, List.not_mem_nil, false_imp_iff, implies_true, and_true]
        exact ⟨isPlain_high (by omega) (by omega), isPlain_high (by omega) (by omega),
          isPlain_high (by omega) (by omega)⟩
      · simp only [List.forall_mem_cons, List.not_mem_nil, false_imp_iff, implies_true, and_true]
        exact ⟨isPlain_high (by omega) (by omega), isPlain_high (by omega) (by omega),
          isPlain_high (by omega) (by omega), isPlain_high (by omega) (by omega)⟩

theorem readChars_plains {bs : Bytes} (h : ∀ b ∈ bs, isPlain b = true) (rest : Bytes) :
    readChars (bs ++ rest) = (readChars rest).map fun r => (bs ++ r.1, r.2) := by
  induction bs with
  | nil => simp
  | cons b bs ih =>
    obtain ⟨hb, hmore⟩ := List.forall_mem_cons.1 h
    rw [List.cons_append, readChars_isPlain hb, ih hmore, Option.map_map]
    rfl

/-- A short escape is the character that the grammar says. -/
theorem readChars_letter {e : UInt8} (he : e ∈ shortEscapes) (rest : Bytes) :
    readChars (ch '\\' :: e :: rest) =
      (readChars rest).map fun r =>
        (String.utf8EncodeChar (Char.ofNat ((Json.shortEscape e).getD 0).toNat) ++ r.1, r.2) := by
  have hall : ∀ e : UInt8, e ∈ shortEscapes → shortEscape e = Json.shortEscape e ∧
      ((Json.shortEscape e).map fun b => [b]) =
        some (String.utf8EncodeChar (Char.ofNat ((Json.shortEscape e).getD 0).toNat)) :=
    forall_mem_bytes (by decide)
  obtain ⟨hsame, hmap⟩ := hall e he
  obtain ⟨b, hb, hone⟩ := Option.map_eq_some_iff.1 hmap
  rw [readChars_short (hsame.trans hb), ← hone]
  rfl

/-- **Each spelled character puts out its own bytes.** -/
theorem readChars_spelling (s : Spelling) (rest : Bytes) :
    readChars (s.text ++ rest) = (readChars rest).map fun r => (s.read ++ r.1, r.2) := by
  cases s with
  | raw c plain => exact readChars_plains (isPlain_encodeChar plain) rest
  | short e letter => exact readChars_letter letter rest
  | unit u scalar =>
    show readChars (u.text ++ rest) = _
    rw [readChars_codeUnit, utf8Of_char u.value_lt scalar]
    rfl
  | pair high low isHigh isLow =>
    show readChars (high.text ++ low.text ++ rest) = _
    rw [List.append_assoc, readChars_codeUnit, readChars_codeUnit, Option.map_map]
    simp [Spelling.read, Function.comp_def]

/-- The halves of a pair take six bytes, the character takes four. -/
theorem length_read (s : Spelling) :
    s.read.length = (String.utf8EncodeChar s.char).length + if s.isPair then 2 else 0 := by
  cases s with
  | pair high low isHigh isLow =>
    have hthree : ∀ n, 0xD800 ≤ n → (utf8Of n).length = 3 := by
      intro n hn
      unfold utf8Of
      rw [if_neg (by omega), if_neg (by omega)]
      rfl
    have hchar : 0x10000 ≤ (Spelling.pair high low isHigh isLow).char.val.toNat := by
      have hvalid : (0x10000 + (high.value - 0xD800) * 0x400 + (low.value - 0xDC00)).isValidChar := by
        unfold Nat.isValidChar
        omega
      show 0x10000 ≤ (Char.ofNat _).val.toNat
      rw [toNat_char hvalid]
      omega
    show (utf8Of high.value ++ utf8Of low.value).length = _
    rw [List.length_append, hthree _ isHigh.1, hthree _ (by omega)]
    unfold String.utf8EncodeChar
    dsimp only
    rw [if_neg (by omega), if_neg (by omega), if_neg (by omega)]
    rfl
  | raw c plain => rfl
  | short e letter => rfl
  | unit u scalar => rfl

/-- The bytes between the quotes, for a list of spelled characters. -/
def spelledBody (spelled : List Spelling) : Bytes := spelled.flatMap Spelling.text

theorem readChars_spelled (spelled : List Spelling) (rest : Bytes) :
    readChars (spelledBody spelled ++ ch '"' :: rest) = some (spelled.flatMap Spelling.read, rest) := by
  induction spelled with
  | nil => exact readChars_close rest
  | cons s spelled ih =>
    show readChars (s.text ++ spelledBody spelled ++ ch '"' :: rest) = _
    rw [List.append_assoc, readChars_spelling, ih]
    rfl

theorem read_eq_iff (spelled : List Spelling) :
    spelled.flatMap Spelling.read = Utf8.encode (spelled.map Spelling.char) ↔
      ∀ s ∈ spelled, s.isPair = false := by
  constructor
  · intro h
    -- what is put out is at least as long as the encoding, and longer by two for each pair
    have hlength : (spelled.flatMap Spelling.read).length =
        (Utf8.encode (spelled.map Spelling.char)).length + 2 * spelled.countP Spelling.isPair := by
      clear h
      induction spelled with
      | nil => rfl
      | cons s spelled ih =>
        rw [List.flatMap_cons, List.map_cons, Utf8.encode_cons, List.length_append,
          List.length_append, length_read, ih, List.countP_cons]
        split <;> omega
    rw [h] at hlength
    have hnone : spelled.countP Spelling.isPair = 0 := by omega
    intro s hs
    exact Bool.eq_false_iff.2 (List.countP_eq_zero.1 hnone s hs)
  · intro h
    induction spelled with
    | nil => rfl
    | cons s spelled ih =>
      obtain ⟨hs, hmore⟩ := List.forall_mem_cons.1 h
      rw [List.flatMap_cons, List.map_cons, Utf8.encode_cons, ih hmore]
      cases s with
      | pair => simp [Spelling.isPair] at hs
      | raw => rfl
      | short => rfl
      | unit => rfl

/-- **A string is read exactly where a token starts, and a spelled text is read as its UTF-8
exactly when no surrogate pair spells a character of it.** -/
theorem readString_spelled_iff (json : Bytes) (pos after : Nat) (spelled : List Spelling)
    (rest : Bytes) :
    ((∃ v, readStringAt json pos = some (v, after)) ↔ TokenAt json pos after) ∧
      (readString (ch '"' :: (spelledBody spelled ++ ch '"' :: rest)) =
          some (Utf8.encode (spelled.map Spelling.char), rest) ↔
        ∀ s ∈ spelled, s.isPair = false) := by
  refine ⟨readStringAt_iff json pos after, ?_⟩
  rw [readString_open, readChars_spelled, ← read_eq_iff]
  simp

/-- U+1F600, by its surrogate pair. -/
def grinningFace : Spelling :=
  .pair ⟨⟨ch 'd', by decide⟩, ⟨ch '8', by decide⟩, ⟨ch '3', by decide⟩, ⟨ch 'd', by decide⟩⟩
    ⟨⟨ch 'd', by decide⟩, ⟨ch 'e', by decide⟩, ⟨ch '0', by decide⟩, ⟨ch '0', by decide⟩⟩
    (by decide) (by decide)

/-- `"\ud83d\ude00"` comes out as six bytes that are no UTF-8, not as the four of the character. -/
theorem grinningFace_misread :
    ¬ ∀ (spelled : List Spelling) (rest : Bytes),
      readString (ch '"' :: (spelledBody spelled ++ ch '"' :: rest)) =
        some (Utf8.encode (spelled.map Spelling.char), rest) := by
  intro hall
  have hread : readString (ch '"' :: (spelledBody [grinningFace] ++ [ch '"'])) =
      some ([0xED, 0xA0, 0xBD, 0xED, 0xB8, 0x80], []) := by decide
  have hface : Utf8.encode ([grinningFace].map Spelling.char) = [0xF0, 0x9F, 0x98, 0x80] := by decide
  have hclaimed := hall [grinningFace] []
  rw [hread, hface] at hclaimed
  simp at hclaimed

end Tombstone.StringTokens
