import Tombstone.Bytes

/- The JSON builder behind every wire body (`json_writer.cpp`): text so far, and for each
   open scope whether the next member needs a comma. -/
namespace Tombstone

/-- One lowercase hex digit. -/
def hexDigit (n : Nat) : UInt8 :=
  if n < 10 then (48 + n).toUInt8 else (87 + n).toUInt8

/-- One byte of `json_escape`. -/
def jsonEscapeByte (c : UInt8) : Bytes :=
  if c = ch '"' then lit "\\\""
  else if c = ch '\\' then lit "\\\\"
  else if c = 10 then lit "\\n"
  else if c = 13 then lit "\\r"
  else if c = 9 then lit "\\t"
  else if c = 8 then lit "\\b"
  else if c = 12 then lit "\\f"
  else if c < 0x20 then lit "\\u00" ++ [hexDigit (c.toNat / 16), hexDigit (c.toNat % 16)]
  else [c]

/-- `json_escape`. -/
def jsonEscape (value : Bytes) : Bytes := value.flatMap jsonEscapeByte

/-- `%lld`. -/
def intText (n : Int) : Bytes :=
  let digits := (Nat.toDigits 10 n.natAbs).map fun c => c.toNat.toUInt8
  if n < 0 then ch '-' :: digits else digits

/-- The writer: the document so far and the comma flag of each open scope, innermost
first. -/
structure JsonWriter where
  out : Bytes := []
  needsComma : List Bool := []

namespace JsonWriter

def elementPrefix (w : JsonWriter) : JsonWriter :=
  match w.needsComma with
  | [] => w
  | needed :: outer =>
    { out := if needed then w.out ++ [ch ','] else w.out, needsComma := true :: outer }

def emit (w : JsonWriter) (text : Bytes) : JsonWriter := { w with out := w.out ++ text }

def namePrefix (w : JsonWriter) (name : Bytes) : JsonWriter :=
  w.elementPrefix.emit ([ch '"'] ++ jsonEscape name ++ [ch '"', ch ':'])

def pushScope (w : JsonWriter) : JsonWriter := { w with needsComma := false :: w.needsComma }

def popScope (w : JsonWriter) : JsonWriter := { w with needsComma := w.needsComma.tail }

/-- `begin_object()`: the root object, or an object element of an array. -/
def beginObject (w : JsonWriter) : JsonWriter := (w.elementPrefix.emit [ch '\x7b']).pushScope

/-- `begin_object(name)`. -/
def beginObjectField (w : JsonWriter) (name : Bytes) : JsonWriter :=
  ((w.namePrefix name).emit [ch '\x7b']).pushScope

def beginArray (w : JsonWriter) (name : Bytes) : JsonWriter :=
  ((w.namePrefix name).emit [ch '[']).pushScope

def endObject (w : JsonWriter) : JsonWriter := (w.emit [ch '\x7d']).popScope

def endArray (w : JsonWriter) : JsonWriter := (w.emit [ch ']']).popScope

def stringField (w : JsonWriter) (name value : Bytes) : JsonWriter :=
  (w.namePrefix name).emit ([ch '"'] ++ jsonEscape value ++ [ch '"'])

def intField (w : JsonWriter) (name : Bytes) (value : Int) : JsonWriter :=
  (w.namePrefix name).emit (intText value)

def boolField (w : JsonWriter) (name : Bytes) (value : Bool) : JsonWriter :=
  (w.namePrefix name).emit (if value then lit "true" else lit "false")

def rawElement (w : JsonWriter) (raw : Bytes) : JsonWriter := w.elementPrefix.emit raw

def rawField (w : JsonWriter) (name raw : Bytes) : JsonWriter := (w.namePrefix name).emit raw

/-- `clamped_field` of the payload builders. -/
def clampedField (w : JsonWriter) (name value : Bytes) (maxBytes : Nat) : JsonWriter :=
  w.stringField name (utf8SafeTruncate value maxBytes)

/-- `optional_field` of the payload builders: an empty value is not written. -/
def optionalField (w : JsonWriter) (name value : Bytes) (maxBytes : Nat) : JsonWriter :=
  if value.isEmpty then w else w.clampedField name value maxBytes

end JsonWriter

end Tombstone
