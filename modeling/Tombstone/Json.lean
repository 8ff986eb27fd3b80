import Tombstone.Bytes
import Tombstone.Utf8

/- JSON texts (RFC 8259): the values they stand for, a strict reader, and compact writing.

   The members of an object are an ordered list. A string is the UTF-8 of its characters; a
   number is kept as it is written. This file

   1. defines the reader of strings (`chars`), numbers (`number`) and values (`value`), and
      of a whole text (`parse`);
   2. defines what a writer of compact texts puts out (`render`), for any way of escaping
      that the reader reads back (`Escaping`), and the values it can write (`Wf`);
   3. says what a text stands for (`Decodes`), and writes members as a table (`present`). -/
namespace Tombstone

/-- A JSON value. -/
inductive Json
  | null
  | bool (b : Bool)
  | num (literal : Bytes)
  | str (text : Bytes)
  | arr (elements : List Json)
  | obj (members : List (Bytes × Json))

namespace Json

/-! ## Strings -/

def isWs (c : UInt8) : Bool := c == 0x20 || c == 0x09 || c == 0x0A || c == 0x0D

def skipWs (bs : Bytes) : Bytes := bs.dropWhile isWs

def hexValue (c : UInt8) : Option Nat :=
  if ch '0' ≤ c ∧ c ≤ ch '9' then some (c.toNat - 48)
  else if ch 'a' ≤ c ∧ c ≤ ch 'f' then some (c.toNat - 87)
  else if ch 'A' ≤ c ∧ c ≤ ch 'F' then some (c.toNat - 55)
  else none

/-- Four hex digits: a UTF-16 code unit. -/
def codeUnit : Bytes → Option (Nat × Bytes)
  | a :: b :: c :: d :: rest =>
    match hexValue a, hexValue b, hexValue c, hexValue d with
    | some a, some b, some c, some d => some (((a * 16 + b) * 16 + c) * 16 + d, rest)
    | _, _, _, _ => none
  | _ => none

/-- The second half of a surrogate pair. -/
def lowSurrogate : Bytes → Option (Nat × Bytes)
  | b :: u :: bs =>
    if b = ch '\\' ∧ u = ch 'u' then
      (codeUnit bs).filter fun r => 0xDC00 ≤ r.1 && r.1 < 0xE000
    else none
  | _ => none

/-- What follows `\u`: a character, or both halves of a surrogate pair. -/
def unicodeEscape (bs : Bytes) : Option (Bytes × Bytes) :=
  (codeUnit bs).bind fun r =>
    -- a code unit that is no surrogate is a character by itself
    if r.1 < 0xD800 ∨ 0xE000 ≤ r.1 then some (String.utf8EncodeChar (Char.ofNat r.1), r.2)
    else if r.1 < 0xDC00 then
      (lowSurrogate r.2).map fun r' =>
        (String.utf8EncodeChar (Char.ofNat (0x10000 + (r.1 - 0xD800) * 0x400 + (r'.1 - 0xDC00))), r'.2)
    else none

/-- The escapes of two bytes. -/
def shortEscape (c : UInt8) : Option UInt8 :=
  if c = ch '"' ∨ c = ch '\\' ∨ c = ch '/' then some c
  else if c = ch 'b' then some 0x08
  else if c = ch 'f' then some 0x0C
  else if c = ch 'n' then some 0x0A
  else if c = ch 'r' then some 0x0D
  else if c = ch 't' then some 0x09
  else none

/-- One byte of a string, or an escape, and the text behind it. -/
def char : Bytes → Option (Bytes × Bytes)
  | [] => none
  | c :: cs =>
    if c = ch '"' ∨ c < 0x20 then none
    else if c ≠ ch '\\' then some ([c], cs)
    else match cs with
      | [] => none
      | e :: es => if e = ch 'u' then unicodeEscape es else (shortEscape e).map fun b => ([b], es)

/-- A string from behind its opening quote: what it stands for, and the text behind it. -/
def chars : Nat → Bytes → Option (Bytes × Bytes)
  | 0, _ => none
  | fuel + 1, bs =>
    if bs.head? = some (ch '"') then some ([], bs.tail)
    else (char bs).bind fun r => (chars fuel r.2).map fun r' => (r.1 ++ r'.1, r'.2)

/-! ## Numbers -/

def isDigit (c : UInt8) : Bool := ch '0' ≤ c && c ≤ ch '9'

/-- One digit or more. -/
def digits (bs : Bytes) : Option (Bytes × Bytes) :=
  if bs.takeWhile isDigit = [] then none else some (bs.takeWhile isDigit, bs.dropWhile isDigit)

/-- One of these bytes, if the text starts with one. -/
def optionalByte (p : UInt8 → Bool) : Bytes → Bytes × Bytes
  | [] => ([], [])
  | c :: cs => if p c then ([c], cs) else ([], c :: cs)

/-- `0`, or digits that do not start with `0`. -/
def intPart (bs : Bytes) : Option (Bytes × Bytes) :=
  if bs.head? = some (ch '0') then some ([ch '0'], bs.tail) else digits bs

def fracPart : Bytes → Option (Bytes × Bytes)
  | [] => some ([], [])
  | c :: cs => if c = ch '.' then (digits cs).map fun r => (c :: r.1, r.2) else some ([], c :: cs)

def expPart : Bytes → Option (Bytes × Bytes)
  | [] => some ([], [])
  | c :: cs =>
    if c = ch 'e' ∨ c = ch 'E' then
      -- an `e` that no digit follows makes the number invalid
      let sign := optionalByte (fun d => d == ch '+' || d == ch '-') cs
      (digits sign.2).map fun r => (c :: sign.1 ++ r.1, r.2)
    else some ([], c :: cs)

/-- A number, as it is written, and the text behind it. -/
def number (bs : Bytes) : Option (Bytes × Bytes) :=
  let sign := optionalByte (· == ch '-') bs
  (intPart sign.2).bind fun i => (fracPart i.2).bind fun f => (expPart f.2).map fun e =>
    (sign.1 ++ i.1 ++ f.1 ++ e.1, e.2)

/-- The text is a number. -/
def IsNumber (literal : Bytes) : Prop := number literal = some (literal, [])

instance (literal : Bytes) : Decidable (IsNumber literal) :=
  inferInstanceAs (Decidable (number literal = some (literal, [])))

/-! ## Values -/

section Items

variable {β : Type} (p : Bytes → Option (β × Bytes)) (close : UInt8)

/-- One item or more, with commas between them, up to the closing byte. -/
def items : Nat → Bytes → Option (List β × Bytes)
  | 0, _ => none
  | fuel + 1, bs =>
    (p bs).bind fun r =>
      match skipWs r.2 with
      | [] => none
      | c :: cs =>
        if c = close then some ([r.1], cs)
        else if c = ch ',' then (items fuel cs).map fun r' => (r.1 :: r'.1, r'.2)
        else none

/-- No item, or `items`. -/
def list (bs : Bytes) : Option (List β × Bytes) :=
  match skipWs bs with
  | [] => none
  | c :: cs => if c = close then some ([], cs) else items p close bs.length bs

end Items

/-- A member of an object, where `p` reads its value. -/
def member (p : Bytes → Option (Json × Bytes)) (bs : Bytes) : Option ((Bytes × Json) × Bytes) :=
  match skipWs bs with
  | [] => none
  | c :: cs =>
    if c ≠ ch '"' then none
    else (chars cs.length cs).bind fun name =>
      match skipWs name.2 with
      | [] => none
      | d :: ds => if d = ch ':' then (p ds).map fun r => ((name.1, r.1), r.2) else none

def word (w : Bytes) (j : Json) (bs : Bytes) : Option (Json × Bytes) :=
  if w.isPrefixOf bs then some (j, bs.drop w.length) else none

/-- A value of at most this depth, and the text behind it. -/
def value : Nat → Bytes → Option (Json × Bytes)
  | 0, _ => none
  | depth + 1, bs =>
    match skipWs bs with
    | [] => none
    | c :: cs =>
      if c = ch '"' then (chars cs.length cs).map fun r => (.str r.1, r.2)
      else if c = ch '\x7b' then
        (list (member (value depth)) (ch '\x7d') cs).map fun r => (.obj r.1, r.2)
      else if c = ch '[' then (list (value depth) (ch ']') cs).map fun r => (.arr r.1, r.2)
      else if c = ch 't' then word (lit "true") (.bool true) (c :: cs)
      else if c = ch 'f' then word (lit "false") (.bool false) (c :: cs)
      else if c = ch 'n' then word (lit "null") .null (c :: cs)
      else (number (c :: cs)).map fun r => (.num r.1, r.2)

/-- The value that the whole text stands for. No value is deeper than its text is long. -/
def parse (bs : Bytes) : Option Json :=
  (value bs.length bs).bind fun r => if skipWs r.2 = [] then some r.1 else none

/-! ## Compact texts -/

/-- A way of escaping the bytes of a string that reads back. -/
structure Escaping where
  byte : UInt8 → Bytes
  reads : ∀ c rest, char (byte c ++ rest) = some ([c], rest)
  /-- Characters of more than one byte stay as they are, and nothing else turns into one. -/
  ascii : ∀ c, (c < 0x80 → ∀ b ∈ byte c, b < 0x80) ∧ (0x80 ≤ c → byte c = [c])

/-- The texts, with commas between them. -/
def commas : List Bytes → Bytes
  | [] => []
  | [t] => t
  | t :: ts => t ++ ch ',' :: commas ts

variable (e : Escaping)

def quoted (text : Bytes) : Bytes := ch '"' :: text.flatMap e.byte ++ [ch '"']

/-- A member, given the text of its value. -/
def memberText (name : Bytes) (text : Bytes) : Bytes := quoted e name ++ ch ':' :: text

/-- The text of a value, without a blank in it. -/
def render : Json → Bytes
  | null => lit "null"
  | bool b => if b then lit "true" else lit "false"
  | num literal => literal
  | str text => quoted e text
  | arr elements => ch '[' :: commas (elements.map fun j => render j) ++ [ch ']']
  | obj members =>
    ch '\x7b' :: commas (members.map fun m => memberText e m.1 (render m.2)) ++ [ch '\x7d']
termination_by j => sizeOf j
decreasing_by
  · have hmem := List.sizeOf_lt_of_mem ‹_ ∈ _›
    rw [arr.sizeOf_spec]
    omega
  · have hmem := List.sizeOf_lt_of_mem ‹_ ∈ _›
    rw [obj.sizeOf_spec]
    have hvalue : sizeOf m.2 < sizeOf m := by
      obtain ⟨name, j⟩ := m
      show sizeOf j < sizeOf (name, j)
      rw [Prod.mk.sizeOf_spec]
      omega
    omega

/-- The values that can be written: numbers are numbers, and strings are UTF-8. -/
inductive Wf : Json → Prop
  | null : Wf null
  | bool (b : Bool) : Wf (bool b)
  | num {literal : Bytes} : IsNumber literal → Wf (num literal)
  | str {text : Bytes} : Utf8.Valid text → Wf (str text)
  | arr {elements : List Json} : (∀ j ∈ elements, Wf j) → Wf (arr elements)
  | obj {members : List (Bytes × Json)} : (∀ m ∈ members, Utf8.Valid m.1) →
      (∀ m ∈ members, Wf m.2) → Wf (obj members)

/-- The text is UTF-8, and stands for this value. -/
structure Decodes (text : Bytes) (j : Json) : Prop where
  utf8 : Utf8.Valid text
  parses : parse text = some j

/-- A table of members, with those that are absent. -/
abbrev Rows := List (Bytes × Option Json)

/-- The members of a table that are there, in their order. -/
def present (rows : Rows) : List (Bytes × Json) := rows.filterMap fun r => r.2.map fun j => (r.1, j)

end Json

end Tombstone
