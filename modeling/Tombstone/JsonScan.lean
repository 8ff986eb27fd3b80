import Tombstone.Bytes

/- The tolerant scanner that reads what the SDK needs out of a JSON text (`json_scan.cpp`).

   The source moves an index through a `string_view`; here the scanner carries the rest of
   the text from that index on, so that every loop is a recursion on what is left. -/
namespace Tombstone.JsonScan

def isSpace (c : UInt8) : Bool := c == 32 || c == 9 || c == 10 || c == 13

def skipSpace (json : Bytes) : Bytes := json.dropWhile isSpace

/-- The search loop of `find_value_start`: `skip` bytes of a quoted name that was no key
are still to be passed over. -/
def findQuoted (quoted : Bytes) : Nat → Bytes → Option Bytes
  | _, [] => none
  | skip + 1, _ :: cs => findQuoted quoted skip cs
  | 0, c :: cs =>
    if quoted.isPrefixOf (c :: cs) then
      match skipSpace ((c :: cs).drop quoted.length) with
      | [] => findQuoted quoted (quoted.length - 1) cs
      | d :: ds => if d = ch ':' then some (skipSpace ds) else findQuoted quoted (quoted.length - 1) cs
    else findQuoted quoted 0 cs

/-- `find_value_start`: the text from the value of `"key"` on. -/
def findValueStart (json key : Bytes) : Option Bytes :=
  findQuoted ([ch '"'] ++ key ++ [ch '"']) 0 json

/-- `append_utf8`. -/
def utf8Of (codePoint : Nat) : Bytes :=
  if codePoint < 0x80 then [codePoint.toUInt8]
  else if codePoint < 0x800 then [(0xC0 + codePoint / 64).toUInt8, (0x80 + codePoint % 64).toUInt8]
  else [(0xE0 + codePoint / 4096).toUInt8, (0x80 + codePoint / 64 % 64).toUInt8,
    (0x80 + codePoint % 64).toUInt8]

def hexValue (c : UInt8) : Option Nat :=
  if 48 ≤ c ∧ c ≤ 57 then some (c.toNat - 48)
  else if 97 ≤ c ∧ c ≤ 102 then some (c.toNat - 87)
  else if 65 ≤ c ∧ c ≤ 70 then some (c.toNat - 55)
  else none

/-- The two-character escapes of `read_string`. -/
def shortEscape (c : UInt8) : Option UInt8 :=
  if c = ch '"' ∨ c = ch '\\' ∨ c = ch '/' then some c
  else if c = ch 'n' then some 10
  else if c = ch 'r' then some 13
  else if c = ch 't' then some 9
  else if c = ch 'b' then some 8
  else if c = ch 'f' then some 12
  else none

/-- The loop of `read_string`, from behind the opening quote: the value read, and the text
behind the closing quote. -/
def readChars : Bytes → Option (Bytes × Bytes)
  | [] => none
  | c :: cs =>
    if c = ch '"' then some ([], cs)
    else if c < 0x20 then none
    else if c ≠ ch '\\' then (readChars cs).map fun r => (c :: r.1, r.2)
    else match cs with
      | [] => none
      | e :: es =>
        match shortEscape e with
        | some b => (readChars es).map fun r => (b :: r.1, r.2)
        | none =>
          match e == ch 'u', es with
          | true, h₁ :: h₂ :: h₃ :: h₄ :: rest =>
            match hexValue h₁, hexValue h₂, hexValue h₃, hexValue h₄ with
            | some d₁, some d₂, some d₃, some d₄ =>
              (readChars rest).map fun r =>
                (utf8Of (d₁ * 4096 + d₂ * 256 + d₃ * 16 + d₄) ++ r.1, r.2)
            | _, _, _, _ => none
          | _, _ => none

/-- `read_string`. -/
def readString : Bytes → Option (Bytes × Bytes)
  | [] => none
  | c :: cs => if c = ch '"' then readChars cs else none

/-- `find_string_field`. -/
def findStringField (json key : Bytes) : Option Bytes :=
  (findValueStart json key).bind fun value => (readString value).map (·.1)

/-- `find_bool_field`. -/
def findBoolField (json key : Bytes) : Option Bool :=
  (findValueStart json key).bind fun value =>
    if value.take 4 = lit "true" then some true
    else if value.take 5 = lit "false" then some false
    else none

def isDigit (c : UInt8) : Bool := decide (48 ≤ c ∧ c ≤ 57)

/-- The digit loop of `find_int_field`: value and count of at most `budget` digits, and the
text behind them. -/
def readDigits : Nat → Nat → Nat → Bytes → Nat × Nat × Bytes
  | 0, value, digits, json => (value, digits, json)
  | _ + 1, value, digits, [] => (value, digits, [])
  | budget + 1, value, digits, c :: cs =>
    if isDigit c then readDigits budget (value * 10 + (c.toNat - 48)) (digits + 1) cs
    else (value, digits, c :: cs)

/-- `find_int_field`: a clean integer of at most 18 digits. -/
def findIntField (json key : Bytes) : Option Int :=
  match findValueStart json key with
  | none => none
  | some [] => none
  | some (c :: cs) =>
    let negative := c == ch '-'
    let (value, digits, rest) := readDigits 18 0 0 (if negative then cs else c :: cs)
    if digits = 0 then none
    else match rest with
      | d :: _ =>
        if d = ch '.' ∨ d = ch 'e' ∨ d = ch 'E' ∨ isDigit d = true then none
        else some (if negative then -(value : Int) else value)
      | [] => some (if negative then -(value : Int) else value)

/-- The brace-matching loop of `find_object_field`: the object's own text. -/
def objectSpan (depth : Nat) (inString : Bool) : Bytes → Option Bytes
  | [] => none
  | c :: cs =>
    if inString then
      if c = ch '\\' then
        match cs with
        | [] => none
        | e :: es => (objectSpan depth true es).map fun r => c :: e :: r
      else (objectSpan depth (c != ch '"') cs).map (c :: ·)
    else if c = ch '"' then (objectSpan depth true cs).map (c :: ·)
    else if c = ch '\x7b' then (objectSpan (depth + 1) false cs).map (c :: ·)
    else if c = ch '\x7d' then
      if depth - 1 = 0 then some [c] else (objectSpan (depth - 1) false cs).map (c :: ·)
    else (objectSpan depth false cs).map (c :: ·)

/-- `find_object_field`. -/
def findObjectField (body key : Bytes) : Option Bytes :=
  match findValueStart body key with
  | some (c :: cs) => if c = ch '\x7b' then objectSpan 0 false (c :: cs) else none
  | _ => none

/-- A granted log slot (`LogUpload`). -/
structure LogUpload where
  url : Bytes
  method : Bytes
  fields : List (Bytes × Bytes) := []
  deriving DecidableEq, Repr

def isFieldNameByte (c : UInt8) : Bool :=
  isDigit c || decide (97 ≤ c ∧ c ≤ 122) || decide (65 ≤ c ∧ c ≤ 90) ||
    c == ch '_' || c == ch '.' || c == ch '-'

/-- The loop of `find_log_upload` over the signed form fields. At the thirty-third entry
the source gives up, so `budget` starts at 33. -/
def readFormFields : Nat → List (Bytes × Bytes) → Bytes → Option (List (Bytes × Bytes))
  | 0, _, _ => none
  | budget + 1, fields, text => do
    let (name, rest) ← readString (skipSpace text)
    if name.isEmpty || decide (128 < name.length) || name == lit "file" || !name.all isFieldNameByte then
      none
    else match skipSpace rest with
      | [] => none
      | c :: cs =>
        if c ≠ ch ':' then none
        else do
          let (value, rest) ← readString (skipSpace cs)
          if decide (16384 < value.length) || decide (32 ≤ fields.length) ||
              fields.any (fun entry => entry.1 == name) then none
          else match skipSpace rest with
            | [] => none
            | d :: ds =>
              if d = ch '\x7d' then some (fields ++ [(name, value)])
              else if d = ch ',' then readFormFields budget (fields ++ [(name, value)]) ds
              else none

/-- `find_log_upload`. -/
def findLogUpload (body : Bytes) : Option LogUpload :=
  if 128 * 1024 < body.length then none
  else match findObjectField body (lit "logUpload") with
    | none => none
    | some object =>
      let url := (findStringField object (lit "url")).getD []
      let method := (findStringField object (lit "method")).getD []
      if url.isEmpty then none
      else if method = lit "PUT" then some { url, method }
      else if method ≠ lit "POST" then none
      else match findObjectField object (lit "fields") with
        | none => none
        | some text => (readFormFields 33 [] (text.drop 1)).map fun fields => { url, method, fields }

/-- One pending request of a heartbeat ack (`PendingPullRequest`). -/
structure PendingPullRequest where
  requestId : Bytes
  targetType : Bytes
  targetValue : Bytes
  fulfillNonce : Bytes
  nonceExpiry : Int
  deriving DecidableEq, Repr

def parseRequest (object : Bytes) : PendingPullRequest :=
  { requestId := (findStringField object (lit "requestId")).getD []
    targetType := (findStringField object (lit "targetType")).getD []
    targetValue := (findStringField object (lit "targetValue")).getD []
    fulfillNonce := (findStringField object (lit "fulfillNonce")).getD []
    nonceExpiry := (findIntField object (lit "nonceExpiry")).getD 0 }

/-- The array walk of `find_pending_requests`: brace depth, whether inside a string, the
text of the object being read, and how many more requests are taken. -/
def pendingScan (depth : Nat) (inString : Bool) (object : Option Bytes) (budget : Nat) :
    Bytes → List PendingPullRequest
  | [] => []
  | c :: cs =>
    let object' := object.map (· ++ [c])
    if inString then
      if c = ch '\\' then
        match cs with
        | [] => []
        | e :: es => pendingScan depth true (object'.map (· ++ [e])) budget es
      else pendingScan depth (c != ch '"') object' budget cs
    else if c = ch '"' then pendingScan depth true object' budget cs
    else if c = ch '\x7b' then
      pendingScan (depth + 1) false (if depth = 0 then some [c] else object') budget cs
    else if c = ch '\x7d' then
      match depth, object' with
      | 0, _ => pendingScan 0 false object' budget cs
      | 1, some text =>
        parseRequest text :: (if budget ≤ 1 then [] else pendingScan 0 false none (budget - 1) cs)
      | d + 1, _ => pendingScan d false object' budget cs
    else if c = ch ']' ∧ depth = 0 then []
    else pendingScan depth false object' budget cs

/-- `find_pending_requests`: at most 32, in order. -/
def findPendingRequests (body : Bytes) : List PendingPullRequest :=
  match findValueStart body (lit "pendingRequests") with
  | some (c :: cs) => if c = ch '[' then pendingScan 0 false none 32 (c :: cs) else []
  | _ => []

example : findBoolField (lit "\x7b\"a\":\"log\",\"log\": true\x7d") (lit "log") = some true := by
  decide

end Tombstone.JsonScan
