import Mathlib.Data.List.TakeWhile
import Tombstone.BodyRows
import Tombstone.Decimal
import Tombstone.JsonRoundTrip
import Tombstone.Truncation

/- What `JsonWriter` writes, member by member.

   Between `begin_object` and `end_object` the writer holds the text of the members so far,
   and a comma flag that says whether there is one (`InScope`). Every field of the builders
   adds one row to the table of members, present or absent (`InObject`), and closing the
   object writes the text of the whole value (`InObject.close`), which reads back as its
   members (`InObject.decodes`). -/
namespace Tombstone.JsonFields
open Json (Rows present)

/-! ## Escapes and integers -/

theorem hexValue_hexDigit : ∀ n, n < 16 → Json.hexValue (hexDigit n) = some n := by decide

/-- A control character, by its code. -/
theorem unicodeEscape_control {c : UInt8} (hc : c < 0x20) (rest : Bytes) :
    Json.unicodeEscape (ch '0' :: ch '0' :: hexDigit (c.toNat / 16) :: hexDigit (c.toNat % 16) :: rest)
      = some ([c], rest) := by
  have hlt : c.toNat < 32 := hc
  have hzero : Json.hexValue (ch '0') = some 0 := by decide
  have hcode : ((0 * 16 + 0) * 16 + c.toNat / 16) * 16 + c.toNat % 16 = c.toNat := by omega
  have hascii : String.utf8EncodeChar (Char.ofNat c.toNat) = [c] :=
    Utf8.encodeChar_ascii (Nat.lt_trans hlt (by decide))
  rw [Json.unicodeEscape, Json.codeUnit, hzero, hexValue_hexDigit _ (by omega),
    hexValue_hexDigit _ (by omega)]
  dsimp only
  rw [hcode, Option.bind_some, if_pos (.inl (by omega)), hascii]

/-- **`json_escape` reads back**, byte by byte. -/
theorem jsonEscapeByte_reads (c : UInt8) (rest : Bytes) :
    Json.char (jsonEscapeByte c ++ rest) = some ([c], rest) := by
  unfold jsonEscapeByte
  split
  · rename_i h
    rw [h]
    rfl
  split
  · rename_i h
    rw [h]
    rfl
  split
  · rename_i h
    rw [h]
    rfl
  split
  · rename_i h
    rw [h]
    rfl
  split
  · rename_i h
    rw [h]
    rfl
  split
  · rename_i h
    rw [h]
    rfl
  split
  · rename_i h
    rw [h]
    rfl
  split
  · rename_i hcontrol
    exact unicodeEscape_control hcontrol rest
  · -- every other byte stands for itself
    rename_i hquote hbackslash _ _ _ _ _ hplain
    simp [Json.char, hquote, hbackslash, hplain]

/-- The escaping of `json_escape`. -/
def escaping : Json.Escaping where
  byte := jsonEscapeByte
  reads := jsonEscapeByte_reads
  ascii := by
    have hall : ∀ c, (c < 0x80 → ((jsonEscapeByte c).all fun b => b < 0x80) = true) ∧
        (0x80 ≤ c → jsonEscapeByte c = [c]) := by
      apply forall_byte
      decide +kernel
    intro c
    refine ⟨fun hc b hb => ?_, (hall c).2⟩
    exact of_decide_eq_true (List.all_eq_true.1 ((hall c).1 hc) b hb)

/-- A decimal starts with `0` only if it is `0`. -/
theorem head_text {n : Nat} (h : 0 < n) : (Decimal.text n).head? ≠ some (ch '0') := by
  induction n using Nat.strongRecOn with
  | ind n ih =>
    by_cases hn : n < 10
    · have hdigit : ∀ d, d < 10 → 0 < d → (48 + d).toUInt8 ≠ ch '0' := by decide
      rw [Decimal.text_of_lt hn, List.head?_cons]
      exact fun heq => hdigit n hn h (Option.some.inj heq)
    · have hfront := ih (n / 10) (by omega) (by omega)
      obtain ⟨d, ds, hd⟩ := List.exists_cons_of_ne_nil (Decimal.text_ne_nil (n / 10))
      rw [Decimal.text_of_ge (by omega)]
      rw [hd] at hfront ⊢
      exact hfront

theorem intPart_text (n : Nat) : Json.intPart (Decimal.text n) = some (Decimal.text n, []) := by
  rcases Nat.eq_zero_or_pos n with rfl | hn
  · decide
  · have hall : ∀ b ∈ Decimal.text n, Json.isDigit b = true := by
      intro b hb
      simp only [Json.isDigit, Bool.and_eq_true, decide_eq_true_eq]
      exact Decimal.mem_text hb
    have htake : (Decimal.text n).takeWhile Json.isDigit = Decimal.text n :=
      List.takeWhile_eq_self_iff.2 hall
    have hdrop : (Decimal.text n).dropWhile Json.isDigit = [] := List.dropWhile_eq_nil_iff.2 hall
    rw [Json.intPart, if_neg (head_text hn), Json.digits, htake, hdrop, if_neg (Decimal.text_ne_nil n)]

theorem intText_eq (n : Int) : intText n = (if n < 0 then [ch '-'] else []) ++ Decimal.text n.natAbs := by
  unfold intText
  split
  · rfl
  · rfl

/-- **`%lld` writes a number.** -/
theorem isNumber_intText (n : Int) : Json.IsNumber (intText n) := by
  have hsign : Json.optionalByte (· == ch '-') (intText n)
      = (if n < 0 then [ch '-'] else [], Decimal.text n.natAbs) := by
    rw [intText_eq]
    split
    · rfl
    · obtain ⟨d, ds, hd⟩ := List.exists_cons_of_ne_nil (Decimal.text_ne_nil n.natAbs)
      have hbounds := Decimal.mem_text (n := n.natAbs) (b := d) (hd ▸ List.mem_cons_self)
      -- a digit is no sign
      have hminus : (d == ch '-') = false := by
        apply beq_false_of_ne
        rintro rfl
        exact absurd hbounds.1 (by decide)
      rw [hd, List.nil_append, Json.optionalByte, hminus]
      rfl
  rw [Json.IsNumber, Json.number, hsign, intPart_text]
  simp [Json.fracPart, Json.expPart, ← intText_eq]

/-! ## Scopes -/

/-- `w` is in a scope that was opened at `base`, with these texts in it. -/
structure InScope (opening : UInt8) (base : JsonWriter) (texts : List Bytes) (w : JsonWriter) :
    Prop where
  out : w.out = base.out ++ opening :: Json.commas texts
  flag : w.needsComma = (!texts.isEmpty) :: base.needsComma

variable {opening : UInt8} {base w : JsonWriter} {texts : List Bytes}

theorem InScope.opened (opening : UInt8) (base : JsonWriter) :
    InScope opening base [] (base.emit [opening]).pushScope := ⟨rfl, rfl⟩

/-- **The comma flag** separates the texts. -/
theorem InScope.next (h : InScope opening base texts w) (text : Bytes) :
    InScope opening base (texts ++ [text]) (w.elementPrefix.emit text) := by
  have hlead : w.elementPrefix.emit text
      = ⟨w.out ++ (if texts = [] then [] else [ch ',']) ++ text, true :: base.needsComma⟩ := by
    rw [JsonWriter.elementPrefix, h.flag]
    cases texts with
    | nil => simp [JsonWriter.emit]
    | cons t ts => simp [JsonWriter.emit]
  rw [hlead]
  refine ⟨?_, by simp⟩
  rw [h.out, Json.commas_concat]
  simp only [List.append_assoc, List.cons_append]

/-- Closing the scope leaves what it was opened at, with its whole text. -/
theorem InScope.close (h : InScope opening base texts w) (closing : UInt8) :
    (w.emit [closing]).popScope = base.emit (opening :: Json.commas texts ++ [closing]) := by
  have hout : (w.emit [closing]).popScope.out = base.out ++ (opening :: Json.commas texts ++ [closing]) := by
    rw [JsonWriter.popScope, JsonWriter.emit, h.out, List.append_assoc]
  have hflag : (w.emit [closing]).popScope.needsComma = base.needsComma := by
    rw [JsonWriter.popScope, JsonWriter.emit, h.flag, List.tail_cons]
  calc (w.emit [closing]).popScope
      = ⟨(w.emit [closing]).popScope.out, (w.emit [closing]).popScope.needsComma⟩ := rfl
    _ = base.emit (opening :: Json.commas texts ++ [closing]) := by rw [hout, hflag]; rfl

/-- A member is one text. -/
theorem namePrefix_emit (w : JsonWriter) (name text : Bytes) :
    (w.namePrefix name).emit text = w.elementPrefix.emit (Json.memberText escaping name text) := by
  simp [JsonWriter.namePrefix, JsonWriter.emit, Json.memberText, Json.quoted, jsonEscape, escaping]

/-! What a field writes is a member, rendered. -/

theorem stringField_eq (w : JsonWriter) (name value : Bytes) :
    w.stringField name value = (w.namePrefix name).emit (Json.render escaping (.str value)) := by
  rw [Json.render]
  rfl

theorem boolField_eq (w : JsonWriter) (name : Bytes) (b : Bool) :
    w.boolField name b = (w.namePrefix name).emit (Json.render escaping (.bool b)) := by
  rw [Json.render]
  rfl

theorem intField_eq (w : JsonWriter) (name : Bytes) (n : Int) :
    w.intField name n = (w.namePrefix name).emit (Json.render escaping (.num (intText n))) := by
  rw [Json.render]
  rfl

theorem numberField_eq (w : JsonWriter) (printed : Double → Bytes) (name : Bytes) (d : Double) :
    w.numberField printed name d =
      (w.namePrefix name).emit (Json.render escaping (.num (printed d))) := by
  rw [Json.render]
  rfl

theorem present_append (rows rows' : Rows) : present (rows ++ rows') = present rows ++ present rows' :=
  List.filterMap_append ..

/-- `w` is in an object that was opened at `base`, where these members are written, whatever the bytes
of their strings. -/
abbrev InMembers (base : JsonWriter) (rows : Rows) (w : JsonWriter) : Prop :=
  InScope (ch '\x7b') base
    ((present rows).map fun m => Json.memberText escaping m.1 (Json.render escaping m.2)) w

variable {rows : Rows} {name value : Bytes}

theorem InMembers.row (h : InMembers base rows w) (name : Bytes) (j : Json) :
    InMembers base (rows ++ [(name, some j)]) ((w.namePrefix name).emit (Json.render escaping j)) := by
  have hpresent : present (rows ++ [(name, some j)]) = present rows ++ [(name, j)] :=
    present_append ..
  rw [InMembers, hpresent, List.map_append, namePrefix_emit]
  exact h.next _

theorem InMembers.absent (h : InMembers base rows w) (name : Bytes) :
    InMembers base (rows ++ [(name, none)]) w := by
  have hpresent : present (rows ++ [(name, none)]) = present rows := by
    rw [present_append]
    exact List.append_nil _
  rw [InMembers, hpresent]
  exact h

/-- **Closing the object** completes its text. -/
theorem InMembers.close (h : InMembers base rows w) :
    w.endObject = base.emit (Json.render escaping (.obj (present rows))) := by
  rw [Json.render]
  exact InScope.close h (ch '\x7d')

/-- `w` is in an object that was opened at `base`, with the members of these rows. -/
structure InObject (base : JsonWriter) (rows : Rows) (w : JsonWriter) : Prop where
  scope : InMembers base rows w
  names : ∀ m ∈ present rows, Utf8.Valid m.1
  values : ∀ m ∈ present rows, m.2.Wf

theorem InObject.opened (base : JsonWriter) : InObject base [] (base.emit [ch '\x7b']).pushScope :=
  ⟨.opened _ base, fun _ hm => absurd hm List.not_mem_nil, fun _ hm => absurd hm List.not_mem_nil⟩

/-- **A member that is written** is one more row. -/
theorem InObject.row (h : InObject base rows w) (hname : Utf8.Valid name) {j : Json} (hj : j.Wf) :
    InObject base (rows ++ [(name, some j)]) ((w.namePrefix name).emit (Json.render escaping j)) := by
  have hpresent : present (rows ++ [(name, some j)]) = present rows ++ [(name, j)] :=
    present_append ..
  refine ⟨h.scope.row name j, ?_, ?_⟩
  · rw [hpresent]
    refine List.forall_mem_append.2 ⟨h.names, fun m hm => ?_⟩
    rw [List.mem_singleton.1 hm]
    exact hname
  · rw [hpresent]
    refine List.forall_mem_append.2 ⟨h.values, fun m hm => ?_⟩
    rw [List.mem_singleton.1 hm]
    exact hj

/-- A member that is omitted. -/
theorem InObject.absent (h : InObject base rows w) (name : Bytes) :
    InObject base (rows ++ [(name, none)]) w := by
  have hpresent : present (rows ++ [(name, none)]) = present rows := by
    rw [present_append]
    exact List.append_nil _
  exact ⟨h.scope.absent name, hpresent ▸ h.names, hpresent ▸ h.values⟩

theorem InObject.wf (h : InObject base rows w) : (Json.obj (present rows)).Wf := .obj h.names h.values

theorem InObject.close (h : InObject base rows w) :
    w.endObject = base.emit (Json.render escaping (.obj (present rows))) := h.scope.close

/-- An object within an object. -/
theorem InObject.object (h : InObject base rows w) (name : Bytes) {inner : Rows} {w' : JsonWriter}
    (hinner : InObject (w.namePrefix name) inner w')
    (hname : Utf8.Valid name := by exact Utf8.valid_literal rfl) :
    InObject base (rows ++ [(name, some (.obj (present inner)))]) w'.endObject := by
  rw [hinner.close]
  exact h.row hname hinner.wf

/-- **A body reads back as its rows.** -/
theorem InObject.decodes (h : InObject {} rows w) :
    Json.Decodes w.endObject.out (.obj (present rows)) := by
  have hout : w.endObject.out = Json.render escaping (.obj (present rows)) := by
    rw [h.close]
    rfl
  rw [hout]
  exact ⟨Json.render_valid h.wf, Json.parse_render h.wf.numeric⟩

/-- `w` is in an array that was opened at `base`, with these elements. -/
structure InArray (base : JsonWriter) (elements : List Json) (w : JsonWriter) : Prop where
  scope : InScope (ch '[') base (elements.map (Json.render escaping)) w
  values : ∀ j ∈ elements, j.Wf

variable {elements : List Json}

theorem InArray.opened (base : JsonWriter) : InArray base [] (base.emit [ch '[']).pushScope :=
  ⟨.opened _ base, fun _ hj => absurd hj List.not_mem_nil⟩

/-- An object as a further element. -/
theorem InArray.object (h : InArray base elements w) {inner : Rows} {w' : JsonWriter}
    (hinner : InObject w.elementPrefix inner w') :
    InArray base (elements ++ [.obj (present inner)]) w'.endObject := by
  rw [hinner.close]
  refine ⟨?_, List.forall_mem_append.2 ⟨h.values, fun j hj => ?_⟩⟩
  · rw [List.map_append]
    exact h.scope.next _
  · rw [List.mem_singleton.1 hj]
    exact hinner.wf

/-- An array within an object. -/
theorem InObject.array (h : InObject base rows w) (name : Bytes) {w' : JsonWriter}
    (hinner : InArray (w.namePrefix name) elements w')
    (hname : Utf8.Valid name := by exact Utf8.valid_literal rfl) :
    InObject base (rows ++ [(name, some (.arr elements))]) w'.endArray := by
  have hclose : w'.endArray = (w.namePrefix name).emit (Json.render escaping (.arr elements)) := by
    rw [Json.render]
    exact hinner.scope.close (ch ']')
  rw [hclose]
  exact h.row hname (.arr hinner.values)

/-! ## Fields

The names of the fields are ASCII. -/

section Fields

variable {printed : Double → Bytes}

theorem InObject.stringField (h : InObject base rows w) (name : Bytes) (hvalue : Utf8.Valid value)
    (hname : Utf8.Valid name := by exact Utf8.valid_literal rfl) :
    InObject base (rows ++ [(name, some (.str value))]) (w.stringField name value) := by
  rw [stringField_eq]
  exact h.row hname (.str hvalue)

theorem clipped_eq (hvalue : Utf8.Valid value) (limit : Nat) :
    clipped limit value = .str (utf8SafeTruncate value limit) := by
  rw [clipped, utf8SafeTruncate_eq hvalue]

/-- `clamped_field` writes the longest valid prefix. -/
theorem InObject.clampedField (h : InObject base rows w) (name : Bytes) (limit : Nat)
    (hvalue : Utf8.Valid value)
    (hname : Utf8.Valid name := by exact Utf8.valid_literal rfl) :
    InObject base (rows ++ [(name, some (clipped limit value))]) (w.clampedField name value limit) := by
  rw [clipped_eq hvalue]
  exact h.stringField name (utf8SafeTruncate_valid hvalue limit) hname

theorem InObject.optionalField (h : InObject base rows w) (name : Bytes) (limit : Nat)
    (hvalue : Utf8.Valid value)
    (hname : Utf8.Valid name := by exact Utf8.valid_literal rfl) :
    InObject base (rows ++ [(name, optional limit value)]) (w.optionalField name value limit) := by
  unfold optional JsonWriter.optionalField
  cases value with
  | nil => exact h.absent name
  | cons c cs => exact h.clampedField name limit hvalue hname

theorem InObject.boolField (h : InObject base rows w) (name : Bytes) (b : Bool)
    (hname : Utf8.Valid name := by exact Utf8.valid_literal rfl) :
    InObject base (rows ++ [(name, some (.bool b))]) (w.boolField name b) := by
  rw [boolField_eq]
  exact h.row hname (.bool b)

/-- A flag that is only written where it is set. -/
theorem InObject.flagField (h : InObject base rows w) (name : Bytes) (b : Bool)
    (hname : Utf8.Valid name := by exact Utf8.valid_literal rfl) :
    InObject base (rows ++ [(name, if b then some (.bool true) else none)])
      (if b then w.boolField name true else w) := by
  cases b with
  | true => exact h.boolField name true hname
  | false => exact h.absent name

theorem InObject.intField (h : InObject base rows w) (name : Bytes) (n : Int)
    (hname : Utf8.Valid name := by exact Utf8.valid_literal rfl) :
    InObject base (rows ++ [(name, some (.num (intText n)))]) (w.intField name n) := by
  rw [intField_eq]
  exact h.row hname (.num (isNumber_intText n))

theorem InObject.optionalIntField (h : InObject base rows w) (name : Bytes) (n : Int)
    (hname : Utf8.Valid name := by exact Utf8.valid_literal rfl) :
    InObject base (rows ++ [(name, positive n)]) (w.optionalIntField name n) := by
  unfold positive JsonWriter.optionalIntField
  split
  · exact h.intField name n hname
  · exact h.absent name

/-- What `number_field` is taken to print: a number, for every finite double. -/
def PrintsNumbers (printed : Double → Bytes) : Prop :=
  ∀ d : Double, d.isFinite = true → Json.IsNumber (printed d)

theorem InObject.numberField (h : InObject base rows w) (hprinted : PrintsNumbers printed)
    (name : Bytes) {d : Double} (hd : d.isFinite = true)
    (hname : Utf8.Valid name := by exact Utf8.valid_literal rfl) :
    InObject base (rows ++ [(name, some (.num (printed d)))]) (w.numberField printed name d) := by
  rw [numberField_eq]
  exact h.row hname (.num (hprinted d hd))

theorem InObject.optionalNumberField (h : InObject base rows w) (hprinted : PrintsNumbers printed)
    (name : Bytes) (d : Double)
    (hname : Utf8.Valid name := by exact Utf8.valid_literal rfl) :
    InObject base (rows ++ [(name, positiveNumber printed d)]) (w.optionalNumberField printed name d) := by
  unfold positiveNumber JsonWriter.optionalNumberField
  split
  · rename_i hd
    exact h.numberField hprinted name (Double.isFinite_of_finitePositive hd) hname
  · exact h.absent name

end Fields

end Tombstone.JsonFields
