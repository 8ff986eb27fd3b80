import Tombstone.JsonText

/- The pending requests of a heartbeat acknowledgement.

   `find_pending_requests` walks the array by braces and quotes and hands the text of each
   object to the searches for its fields. In a text whose strings are escaped the walk cannot
   lose its place inside one (`walks_quote`), so each object is cut out whole, and a search in
   it sees no other object's text. -/
namespace Tombstone.JsonText
open JsonScan

/-! ## What the document says -/

def Scalar : Json → Prop
  | .arr _ => False
  | .obj _ => False
  | _ => True

/-- The value of decimal digits. -/
def digitsValue (digits : Bytes) : Nat := digits.foldl (fun value c => value * 10 + (c.toNat - 48)) 0

/-- The value of an integer literal. -/
def literalValue : Bytes → Int
  | [] => 0
  | c :: cs => if c = ch '-' then -(digitsValue cs : Int) else digitsValue (c :: cs)

/-- An integer literal of at most 18 digits. -/
def IsInteger (literal : Bytes) : Prop :=
  ∃ digits, digits ≠ [] ∧ digits.length ≤ 18 ∧ (∀ c ∈ digits, isDigit c = true) ∧
    (literal = digits ∨ literal = ch '-' :: digits)

/-- The names that are scanned for strings. -/
def stringNames : List Bytes :=
  [lit "requestId", lit "targetType", lit "targetValue", lit "fulfillNonce"]

/-- The documented types of the scanned members. -/
structure Typed (members : List (Bytes × Json)) : Prop where
  strings : ∀ m ∈ members, m.1 ∈ stringNames → ∃ text, m.2 = .str text
  expiry : ∀ m ∈ members, m.1 = lit "nonceExpiry" → ∃ literal, m.2 = .num literal ∧ IsInteger literal

/-- The string under a name, or the empty default. -/
def stringMember (name : Bytes) (members : List (Bytes × Json)) : Bytes :=
  match members.lookup name with
  | some (.str text) => text
  | _ => []

/-- The integer under a name, or the zero default. -/
def integerMember (name : Bytes) (members : List (Bytes × Json)) : Int :=
  match members.lookup name with
  | some (.num literal) => literalValue literal
  | _ => 0

/-- What an object of the array requests. -/
def requestOf (members : List (Bytes × Json)) : PendingPullRequest :=
  { requestId := stringMember (lit "requestId") members
    targetType := stringMember (lit "targetType") members
    targetValue := stringMember (lit "targetValue") members
    fulfillNonce := stringMember (lit "fulfillNonce") members
    nonceExpiry := integerMember (lit "nonceExpiry") members }

/-- An acknowledgement with these flat objects under its only `pendingRequests`. -/
structure Ack (doc : Json) (objects : List (List (Bytes × Json))) : Prop where
  names : ∀ m ∈ allMembers doc, PlainKey m.1
  only : (allMembers doc).filter (fun m => m.1 == lit "pendingRequests") =
    [(lit "pendingRequests", .arr (objects.map .obj))]
  distinct : ∀ members ∈ objects, (members.map Prod.fst).Nodup
  flat : ∀ members ∈ objects, ∀ m ∈ members, Scalar m.2
  typed : ∀ members ∈ objects, Typed members

variable {members : List (Bytes × Json)} {key t rest : Bytes}

/-! ## One object -/

theorem allMembers_scalar {j : Json} (h : Scalar j) : allMembers j = [] := by
  cases j with
  | arr _ => exact absurd h id
  | obj _ => exact absurd h id
  | null => rfl
  | bool _ => rfl
  | num _ => rfl
  | str _ => rfl

/-- The members of a flat object are all there are in it. -/
theorem allMembers_flat (hflat : ∀ m ∈ members, Scalar m.2) : allMembers (.obj members) = members := by
  show memberMembers members = members
  induction members with
  | nil => rfl
  | cons m members ih =>
    obtain ⟨name, j⟩ := m
    obtain ⟨hj, hmore⟩ := List.forall_mem_cons.1 hflat
    rw [memberMembers, allMembers_scalar hj, ih hmore]
    rfl

theorem mem_of_lookup {v : Json} (h : members.lookup key = some v) : (key, v) ∈ members := by
  induction members with
  | nil => cases h
  | cons m members ih =>
    obtain ⟨name, j⟩ := m
    rw [List.lookup_cons] at h
    by_cases hsame : key = name
    · rw [hsame, beq_self_eq_true, Option.some.injEq] at h
      rw [hsame, h]
      exact List.mem_cons_self
    · rw [beq_false_of_ne hsame] at h
      exact List.mem_cons_of_mem _ (ih h)

theorem readDigits_append (budget value count : Nat) {digits : Bytes}
    (hdigits : ∀ c ∈ digits, isDigit c = true) (hlength : digits.length ≤ budget)
    (hrest : ∀ c ∈ rest.head?, isDigit c = false) :
    readDigits budget value count (digits ++ rest) =
      (digits.foldl (fun value c => value * 10 + (c.toNat - 48)) value, count + digits.length, rest) := by
  induction digits generalizing budget value count with
  | nil =>
    cases budget with
    | zero => rfl
    | succ budget =>
      cases rest with
      | nil => rfl
      | cons c cs =>
        show readDigits (budget + 1) value count (c :: cs) = (value, count, c :: cs)
        rw [readDigits, hrest c rfl]
        rfl
  | cons c digits ih =>
    cases budget with
    | zero => exact absurd hlength (Nat.not_succ_le_zero _)
    | succ budget =>
      obtain ⟨hc, hmore⟩ := List.forall_mem_cons.1 hdigits
      rw [List.cons_append, readDigits, if_pos hc, ih _ _ _ hmore (Nat.le_of_succ_le_succ hlength),
        List.foldl_cons, List.length_cons]
      congr 2
      omega

/-- What may stand behind a value continues no number. -/
theorem ValueEnds.no_number (h : ValueEnds rest) : ∀ c ∈ rest.head?,
    isDigit c = false ∧ ¬ (c = ch '.' ∨ c = ch 'e' ∨ c = ch 'E' ∨ isDigit c = true) := by
  have hbytes : ∀ c : UInt8, isSpace c = true ∨ c ∈ punctuation →
      isDigit c = false ∧ ¬ (c = ch '.' ∨ c = ch 'e' ∨ c = ch 'E' ∨ isDigit c = true) := by
    have hlisted : ∀ c ∈ [32, 9, 10, 13] ++ punctuation,
        isDigit c = false ∧ ¬ (c = ch '.' ∨ c = ch 'e' ∨ c = ch 'E' ∨ isDigit c = true) :=
      forall_mem_bytes (by decide)
    intro c hc
    exact hlisted c (by simpa [isSpace, or_assoc] using hc)
  exact fun c hc => hbytes c (h.head c hc)

theorem findIntField_literal {json literal back : Bytes}
    (hfind : findValueStart json key = some (literal ++ back)) (hliteral : IsInteger literal)
    (hends : ValueEnds back) : findIntField json key = some (literalValue literal) := by
  obtain ⟨digits, hne, hlength, hdigits, hcase⟩ := hliteral
  have hread := readDigits_append 18 0 0 hdigits hlength
    fun c hc => (hends.no_number c hc).1
  have hcount : ¬ 0 + digits.length = 0 := by
    have := List.length_pos_of_ne_nil hne
    omega
  rcases hcase with rfl | rfl
  · obtain ⟨c, cs, rfl⟩ := List.exists_cons_of_ne_nil hne
    have hminus : c ≠ ch '-' := by
      rintro rfl
      exact absurd (hdigits _ List.mem_cons_self) (by decide)
    rw [findIntField, hfind, literalValue, if_neg hminus]
    simp only [List.cons_append, beq_false_of_ne hminus, Bool.false_eq_true, if_false]
    rw [← List.cons_append, hread]
    dsimp only
    rw [if_neg hcount]
    split
    · rw [if_neg (hends.no_number _ rfl).2]
      rfl
    · rfl
  · rw [findIntField, hfind, literalValue, if_pos rfl]
    simp only [List.cons_append, beq_self_eq_true, if_true]
    rw [hread]
    dsimp only
    rw [if_neg hcount]
    split
    · rw [if_neg (hends.no_number _ rfl).2]
      rfl
    · rfl

section Object

variable (ht : Written (.value (.obj members)) t) (hflat : ∀ m ∈ members, Scalar m.2)
  (hquote : ∀ m ∈ members, ch '"' ∉ m.1)
include ht hflat hquote

/-- **A string field of an object** is its own. -/
theorem stringField_written (hkey : WordKey key)
    (hstring : ∀ m ∈ members, m.1 = key → ∃ text, m.2 = .str text) :
    (findStringField t key).getD [] = stringMember key members := by
  have hall := allMembers_flat hflat
  rw [← hall] at hquote
  unfold stringMember
  cases hlookup : members.lookup key with
  | none =>
    rw [← hall] at hlookup
    rw [findStringField, findValueStart_absent hkey ht (padded_self t) hquote hlookup]
    rfl
  | some v =>
    obtain ⟨text, rfl⟩ : ∃ text, v = .str text := hstring _ (mem_of_lookup hlookup) rfl
    rw [← hall] at hlookup
    obtain ⟨tv, back, hwritten, hfind, -⟩ :=
      findValueStart_padded hkey ht (padded_self t) hquote hlookup
    cases hwritten with
    | str _ =>
      rw [findStringField, hfind, Option.bind_some]
      exact congrArg (fun r => (r.map Prod.fst).getD []) (readString_quote text back)

/-- **The expiry of an object** is its own. -/
theorem intField_written (hkey : WordKey key)
    (hinteger : ∀ m ∈ members, m.1 = key → ∃ literal, m.2 = .num literal ∧ IsInteger literal) :
    (findIntField t key).getD 0 = integerMember key members := by
  have hall := allMembers_flat hflat
  rw [← hall] at hquote
  unfold integerMember
  cases hlookup : members.lookup key with
  | none =>
    rw [← hall] at hlookup
    rw [findIntField, findValueStart_absent hkey ht (padded_self t) hquote hlookup]
    rfl
  | some v =>
    obtain ⟨literal, rfl, hliteral⟩ := hinteger _ (mem_of_lookup hlookup) rfl
    rw [← hall] at hlookup
    obtain ⟨tv, back, hwritten, hfind, hends⟩ :=
      findValueStart_padded hkey ht (padded_self t) hquote hlookup
    cases hwritten with
    | num _ =>
      rw [findIntField_literal hfind hliteral hends]
      rfl

end Object

/-! ## The walk -/

variable {budget : Nat} {acc : Bytes}

theorem pendingScan_inside {c : UInt8} (hquote : c ≠ ch '"') (hbackslash : c ≠ ch '\\') (cs : Bytes) :
    pendingScan 1 true (some acc) budget (c :: cs) = pendingScan 1 true (some (acc ++ [c])) budget cs := by
  have hopen : (c != ch '"') = true := bne_iff_ne.2 hquote
  rw [pendingScan.eq_def]
  simp only [if_true, if_neg hbackslash, hopen, Option.map_some]

theorem pendingScan_escaped (e : UInt8) (es : Bytes) :
    pendingScan 1 true (some acc) budget (ch '\\' :: e :: es) =
      pendingScan 1 true (some (acc ++ [ch '\\', e])) budget es := by
  rw [pendingScan.eq_def]
  simp only [if_true, Option.map_some, List.append_assoc, List.singleton_append]

/-- An escape is the byte itself, or a backslash, a byte, and neither quotes nor backslashes. -/
theorem jsonEscapeByte_shape (b : UInt8) :
    (jsonEscapeByte b = [b] ∧ b ≠ ch '"' ∧ b ≠ ch '\\') ∨
      ∃ e tail, jsonEscapeByte b = ch '\\' :: e :: tail ∧ ∀ c ∈ tail, c ≠ ch '"' ∧ c ≠ ch '\\' := by
  have hdigit : ∀ n, n < 16 → hexDigit n ≠ ch '"' ∧ hexDigit n ≠ ch '\\' := by decide
  have hshort : ∀ e : UInt8, jsonEscapeByte b = [ch '\\', e] →
      ∃ e tail, jsonEscapeByte b = ch '\\' :: e :: tail ∧ ∀ c ∈ tail, c ≠ ch '"' ∧ c ≠ ch '\\' :=
    fun e h => ⟨e, [], h, fun _ hc => absurd hc List.not_mem_nil⟩
  by_cases hquote : b = ch '"'
  · exact .inr (hshort (ch '"') (by rw [hquote]; decide))
  by_cases hbackslash : b = ch '\\'
  · exact .inr (hshort (ch '\\') (by rw [hbackslash]; decide))
  by_cases hnewline : b = 10
  · exact .inr (hshort (ch 'n') (by rw [hnewline]; decide))
  by_cases hreturn : b = 13
  · exact .inr (hshort (ch 'r') (by rw [hreturn]; decide))
  by_cases htab : b = 9
  · exact .inr (hshort (ch 't') (by rw [htab]; decide))
  by_cases hback : b = 8
  · exact .inr (hshort (ch 'b') (by rw [hback]; decide))
  by_cases hfeed : b = 12
  · exact .inr (hshort (ch 'f') (by rw [hfeed]; decide))
  simp only [jsonEscapeByte, if_neg hquote, if_neg hbackslash, if_neg hnewline, if_neg hreturn,
    if_neg htab, if_neg hback, if_neg hfeed]
  split
  · -- a control, by its code
    have hlt := b.toNat_lt
    refine .inr ⟨ch 'u', [ch '0', ch '0', hexDigit (b.toNat / 16), hexDigit (b.toNat % 16)], rfl, ?_⟩
    simp only [List.forall_mem_cons, List.not_mem_nil, false_imp_iff, implies_true, and_true]
    exact ⟨by decide, by decide, hdigit _ (by omega), hdigit _ (by omega)⟩
  · exact .inl ⟨rfl, hquote, hbackslash⟩

/-- The walk over bytes of a string that are no escapes. -/
theorem pendingScan_plain {tail : Bytes} (h : ∀ c ∈ tail, c ≠ ch '"' ∧ c ≠ ch '\\') (acc cs : Bytes) :
    pendingScan 1 true (some acc) budget (tail ++ cs) =
      pendingScan 1 true (some (acc ++ tail)) budget cs := by
  induction tail generalizing acc with
  | nil => rw [List.append_nil, List.nil_append]
  | cons c tail ih =>
    obtain ⟨⟨hquote, hbackslash⟩, hmore⟩ := List.forall_mem_cons.1 h
    rw [List.cons_append, pendingScan_inside hquote hbackslash, ih hmore, List.append_assoc,
      List.singleton_append]

/-- **The walk leaves a string where it ends.** -/
theorem pendingScan_string (v acc rest : Bytes) :
    pendingScan 1 true (some acc) budget (jsonEscape v ++ ch '"' :: rest) =
      pendingScan 1 false (some (acc ++ jsonEscape v ++ [ch '"'])) budget rest := by
  induction v generalizing acc with
  | nil =>
    show pendingScan 1 true (some acc) budget (ch '"' :: rest) = _
    have hclose : (ch '"' != ch '"') = false := by decide
    have hbackslash : ¬ ch '"' = ch '\\' := by decide
    rw [pendingScan.eq_def]
    simp only [if_true, if_neg hbackslash, hclose, Option.map_some]
    have hempty : jsonEscape [] = [] := rfl
    rw [hempty, List.append_nil]
  | cons b v ih =>
    rw [jsonEscape_cons, List.append_assoc]
    rcases jsonEscapeByte_shape b with ⟨hb, hquote, hbackslash⟩ | ⟨e, tail, hb, htail⟩
    · rw [hb, List.singleton_append, pendingScan_inside hquote hbackslash, ih]
      simp
    · rw [hb, List.cons_append, List.cons_append, pendingScan_escaped, pendingScan_plain htail, ih]
      simp

/-- The walk takes this text into the object. -/
def Walks (t : Bytes) : Prop := ∀ acc budget rest,
  pendingScan 1 false (some acc) budget (t ++ rest) = pendingScan 1 false (some (acc ++ t)) budget rest

theorem walks_append {t' : Bytes} (h : Walks t) (h' : Walks t') : Walks (t ++ t') := by
  intro acc budget rest
  rw [List.append_assoc, h, h', List.append_assoc]

theorem walks_quote (v : Bytes) : Walks (quote v) := by
  intro acc budget rest
  have hstart : quote v ++ rest = ch '"' :: (jsonEscape v ++ ch '"' :: rest) := by simp [quote]
  rw [hstart, pendingScan.eq_def]
  simp only [Bool.false_eq_true, if_false, if_true, Option.map_some]
  rw [pendingScan_string]
  simp [quote]

/-- A byte that is neither a quote nor a brace. -/
theorem walks_byte {c : UInt8} (hc : c ≠ ch '"' ∧ c ≠ ch '\x7b' ∧ c ≠ ch '\x7d') (acc cs : Bytes) :
    pendingScan 1 false (some acc) budget (c :: cs) =
      pendingScan 1 false (some (acc ++ [c])) budget cs := by
  have hclose : ¬ (c = ch ']' ∧ 1 = 0) := fun h => absurd h.2 (by decide)
  rw [pendingScan.eq_def]
  simp only [Bool.false_eq_true, if_false, if_neg hc.1, if_neg hc.2.1, if_neg hc.2.2, if_neg hclose,
    Option.map_some]

theorem walks_bare (h : ∀ c ∈ t, c ≠ ch '"' ∧ c ≠ ch '\x7b' ∧ c ≠ ch '\x7d') : Walks t := by
  induction t with
  | nil =>
    intro acc budget rest
    rw [List.append_nil, List.nil_append]
  | cons c t ih =>
    obtain ⟨hc, hmore⟩ := List.forall_mem_cons.1 h
    intro acc budget rest
    rw [List.cons_append, walks_byte hc, ih hmore, List.append_assoc, List.singleton_append]

theorem walks_space {s : Bytes} (hs : Space s) : Walks s := by
  apply walks_bare
  intro c hc
  have hspace := hs c hc
  exact ⟨byte_ne hspace (by decide), byte_ne hspace (by decide), byte_ne hspace (by decide)⟩

theorem walks_padded {p : Bytes} (h : Walks t) (hp : Padded t p) : Walks p := by
  obtain ⟨s, s', hs, hs', rfl⟩ := hp
  exact walks_append (walks_append (walks_space hs) h) (walks_space hs')

/-- **A scalar** has no brace outside its strings. -/
theorem walks_scalar {j : Json} (h : Written (.value j) t) (hscalar : Scalar j) : Walks t := by
  cases h with
  | null => exact walks_bare (forall_mem_bytes (by decide))
  | bool b =>
    cases b with
    | true => exact walks_bare (forall_mem_bytes (by decide))
    | false => exact walks_bare (forall_mem_bytes (by decide))
  | num hnumber =>
    apply walks_bare
    intro c hc
    have hbyte := hnumber.bytes c hc
    exact ⟨byte_ne hbyte (by decide), byte_ne hbyte (by decide), byte_ne hbyte (by decide)⟩
  | @str text _ => exact walks_quote text
  | emptyArr _ => exact absurd hscalar id
  | arr _ => exact absurd hscalar id
  | emptyObj _ => exact absurd hscalar id
  | obj _ => exact absurd hscalar id

theorem walks_members (h : Written (.members members) t) (hflat : ∀ m ∈ members, Scalar m.2) :
    Walks t := by
  have hcolon : Walks [ch ':'] := walks_bare (forall_mem_bytes (by decide))
  have hcomma : Walks [ch ','] := walks_bare (forall_mem_bytes (by decide))
  induction members generalizing t with
  | nil => cases h
  | cons m members ih =>
    obtain ⟨hscalar, hmore⟩ := List.forall_mem_cons.1 hflat
    cases h with
    | member _ hn hj hp =>
      have hname := walks_append (walks_padded (walks_quote _) hn) hcolon
      have hall := walks_append hname (walks_padded (walks_scalar hj hscalar) hp)
      rw [List.append_assoc] at hall
      exact hall
    | members _ hn hj hp hrest =>
      have hname := walks_append (walks_padded (walks_quote _) hn) hcolon
      have hown := walks_append hname (walks_padded (walks_scalar hj hscalar) hp)
      have hall := walks_append (walks_append hown hcomma) (ih hrest hmore)
      simp only [List.append_assoc, List.singleton_append] at hall
      exact hall

/-- **An object of the array** is cut out whole. -/
theorem pendingScan_object (h : Written (.value (.obj members)) t) (hflat : ∀ m ∈ members, Scalar m.2)
    (budget : Nat) (rest : Bytes) :
    pendingScan 0 false none (budget + 1) (t ++ rest) =
      parseRequest t :: (if budget = 0 then [] else pendingScan 0 false none budget rest) := by
  obtain ⟨inner, rfl, hinner⟩ : ∃ inner, t = ch '\x7b' :: inner ++ [ch '\x7d'] ∧ Walks inner := by
    cases h with
    | emptyObj hs => exact ⟨_, rfl, walks_space hs⟩
    | obj hms => exact ⟨_, rfl, walks_members hms hflat⟩
  have hopen : pendingScan 0 false none (budget + 1) (ch '\x7b' :: (inner ++ ch '\x7d' :: rest)) =
      pendingScan 1 false (some [ch '\x7b']) (budget + 1) (inner ++ ch '\x7d' :: rest) := by
    have hquote : ¬ ch '\x7b' = ch '"' := by decide
    rw [pendingScan.eq_def]
    simp only [Bool.false_eq_true, if_false, if_neg hquote, if_true]
  have hclose : ∀ text, pendingScan 1 false (some text) (budget + 1) (ch '\x7d' :: rest) =
      parseRequest (text ++ [ch '\x7d']) ::
        (if budget = 0 then [] else pendingScan 0 false none budget rest) := by
    intro text
    have hquote : ¬ ch '\x7d' = ch '"' := by decide
    have hbrace : ¬ ch '\x7d' = ch '\x7b' := by decide
    rw [pendingScan.eq_def]
    simp only [Bool.false_eq_true, if_false, if_neg hquote, if_neg hbrace, if_true, Option.map_some,
      Nat.add_sub_cancel]
    cases budget with
    | zero => rfl
    | succ budget => rfl
  calc pendingScan 0 false none (budget + 1) ((ch '\x7b' :: inner ++ [ch '\x7d']) ++ rest)
      = pendingScan 0 false none (budget + 1) (ch '\x7b' :: (inner ++ ch '\x7d' :: rest)) := by
        rw [List.append_assoc, List.cons_append, List.singleton_append]
    _ = pendingScan 1 false (some ([ch '\x7b'] ++ inner)) (budget + 1) (ch '\x7d' :: rest) := by
        rw [hopen, hinner]
    _ = _ := by rw [hclose, List.singleton_append]

/-- What stands between the objects. -/
theorem pendingScan_between {c : UInt8}
    (hc : c ≠ ch '"' ∧ c ≠ ch '\x7b' ∧ c ≠ ch '\x7d' ∧ c ≠ ch ']') (cs : Bytes) :
    pendingScan 0 false none budget (c :: cs) = pendingScan 0 false none budget cs := by
  obtain ⟨hquote, hopen, hclose, hbracket⟩ := hc
  rw [pendingScan.eq_def]
  simp only [Bool.false_eq_true, if_false, if_neg hquote, if_neg hopen, if_neg hclose, and_true,
    if_neg hbracket, Option.map_none]

theorem pendingScan_space {s : Bytes} (hs : Space s) (rest : Bytes) :
    pendingScan 0 false none budget (s ++ rest) = pendingScan 0 false none budget rest := by
  induction s with
  | nil => rfl
  | cons c s ih =>
    obtain ⟨hc, hmore⟩ := List.forall_mem_cons.1 hs
    have hbetween : c ≠ ch '"' ∧ c ≠ ch '\x7b' ∧ c ≠ ch '\x7d' ∧ c ≠ ch ']' :=
      ⟨byte_ne hc (by decide), byte_ne hc (by decide), byte_ne hc (by decide), byte_ne hc (by decide)⟩
    rw [List.cons_append, pendingScan_between hbetween, ih hmore]

theorem pendingScan_end (cs : Bytes) : pendingScan 0 false none budget (ch ']' :: cs) = [] := by
  rw [pendingScan.eq_def]
  rfl

theorem Written.elements_cases {j : Json} {js : List Json} (h : Written (.elements (j :: js)) t) :
    ∃ tj p, Written (.value j) tj ∧ Padded tj p ∧
      (js = [] ∧ t = p ∨ ∃ ts, Written (.elements js) ts ∧ t = p ++ ch ',' :: ts) := by
  cases h with
  | element hj hp => exact ⟨_, _, hj, hp, .inl ⟨rfl, rfl⟩⟩
  | elements hj hp hjs => exact ⟨_, _, hj, hp, .inr ⟨_, hjs, rfl⟩⟩

/-- **The walk over the array**: the objects in order, as many as the budget allows. -/
theorem pendingScan_elements {objects : List (List (Bytes × Json))}
    (h : Written (.elements (objects.map .obj)) t)
    (hflat : ∀ members ∈ objects, ∀ m ∈ members, Scalar m.2)
    (hparse : ∀ members ∈ objects, ∀ text, Written (.value (.obj members)) text →
      parseRequest text = requestOf members) (budget : Nat) (rest : Bytes) :
    pendingScan 0 false none (budget + 1) (t ++ ch ']' :: rest) =
      (objects.take (budget + 1)).map requestOf := by
  induction objects generalizing t budget with
  | nil => cases h
  | cons members objects ih =>
    obtain ⟨hscalars, hflats⟩ := List.forall_mem_cons.1 hflat
    obtain ⟨hown, hparses⟩ := List.forall_mem_cons.1 hparse
    rw [List.map_cons] at h
    obtain ⟨text, p, hwritten, ⟨s, s', hs, hs', rfl⟩, hcase⟩ := h.elements_cases
    -- one object, and then what stands behind it
    have hobject : ∀ behind, pendingScan 0 false none (budget + 1) (s ++ text ++ s' ++ behind) =
        requestOf members :: (if budget = 0 then [] else pendingScan 0 false none budget behind) := by
      intro behind
      rw [List.append_assoc, List.append_assoc, pendingScan_space hs, pendingScan_object hwritten hscalars,
        hown text hwritten, pendingScan_space hs']
    rw [List.take_succ_cons, List.map_cons]
    rcases hcase with ⟨hlast, rfl⟩ | ⟨ts, hts, rfl⟩
    · rw [hobject, pendingScan_end, List.map_eq_nil_iff.1 hlast]
      simp
    · rw [List.append_assoc, List.cons_append, hobject, pendingScan_between (by decide)]
      cases budget with
      | zero => simp
      | succ budget =>
        rw [if_neg (Nat.succ_ne_zero budget), ih hts hflats hparses budget]

/-! ## The acknowledgement -/

theorem wordKey_scanned :
    ∀ key ∈ stringNames ++ [lit "nonceExpiry", lit "pendingRequests"], WordKey key := by decide

/-- **Each field of a request** is the object's own. -/
theorem parseRequest_written (ht : Written (.value (.obj members)) t)
    (hflat : ∀ m ∈ members, Scalar m.2) (hquote : ∀ m ∈ members, ch '"' ∉ m.1) (htyped : Typed members) :
    parseRequest t = requestOf members := by
  have hstring : ∀ key ∈ stringNames, (findStringField t key).getD [] = stringMember key members := by
    intro key hkey
    apply stringField_written ht hflat hquote (wordKey_scanned key (List.mem_append_left _ hkey))
    intro m hm hname
    exact htyped.strings m hm (hname ▸ hkey)
  have hexpiry : (findIntField t (lit "nonceExpiry")).getD 0 = integerMember (lit "nonceExpiry") members :=
    intField_written ht hflat hquote (wordKey_scanned _ (by decide)) htyped.expiry
  unfold parseRequest requestOf
  rw [hstring _ (.head _), hstring _ (.tail _ (.head _)), hstring _ (.tail _ (.tail _ (.head _))),
    hstring _ (.tail _ (.tail _ (.tail _ (.head _)))), hexpiry]

/-- A text of this document, with white space around it. -/
def Document (doc : Json) (body : Bytes) : Prop := ∃ t, Written (.value doc) t ∧ Padded t body

theorem Written.arr_cases {js : List Json} (h : Written (.value (.arr js)) t) :
    (∃ s, Space s ∧ js = [] ∧ t = ch '[' :: s ++ [ch ']']) ∨
      ∃ inner, Written (.elements js) inner ∧ t = ch '[' :: inner ++ [ch ']'] := by
  cases h with
  | emptyArr hs => exact .inl ⟨_, hs, rfl, rfl⟩
  | arr hjs => exact .inr ⟨_, hjs, rfl⟩

/-- The members in the value of a member are members. -/
theorem Laid.nested {spell : Bytes → Bytes} {part : Part} (h : Laid spell part t) :
    ∀ m ∈ part.all, ∀ m' ∈ allMembers m.2, m' ∈ part.all := by
  induction h with
  | null => exact nofun
  | bool _ => exact nofun
  | num _ => exact nofun
  | str _ => exact nofun
  | emptyArr _ => exact nofun
  | emptyObj _ => exact nofun
  | arr _ ih => exact ih
  | obj _ ih => exact ih
  | element _ _ ih =>
    intro m hm m' hm'
    rcases List.mem_append.1 hm with hm | hm
    · exact List.mem_append_left _ (ih m hm m' hm')
    · cases hm
  | elements _ _ _ ih ihs =>
    intro m hm m' hm'
    rcases List.mem_append.1 hm with hm | hm
    · exact List.mem_append_left _ (ih m hm m' hm')
    · exact List.mem_append_right _ (ihs m hm m' hm')
  | member _ _ _ _ ih =>
    intro m hm m' hm'
    rcases List.mem_cons.1 hm with rfl | hm
    · exact List.mem_cons_of_mem _ (List.mem_append_left _ hm')
    · rcases List.mem_append.1 hm with hm | hm
      · exact List.mem_cons_of_mem _ (List.mem_append_left _ (ih m hm m' hm'))
      · cases hm
  | members _ _ _ _ _ ih ihs =>
    intro m hm m' hm'
    rcases List.mem_cons.1 hm with rfl | hm
    · exact List.mem_cons_of_mem _ (List.mem_append_left _ hm')
    · rcases List.mem_append.1 hm with hm | hm
      · exact List.mem_cons_of_mem _ (List.mem_append_left _ (ih m hm m' hm'))
      · exact List.mem_cons_of_mem _ (List.mem_append_right _ (ihs m hm m' hm'))

theorem lookup_of_filter {ms : List (Bytes × Json)} {v : Json}
    (h : ms.filter (fun m => m.1 == key) = [(key, v)]) : ms.lookup key = some v := by
  induction ms with
  | nil => cases h
  | cons m ms ih =>
    obtain ⟨name, j⟩ := m
    rw [List.lookup_cons]
    by_cases hsame : name = key
    · rw [List.filter_cons_of_pos (by rw [hsame]; exact beq_self_eq_true key)] at h
      have hj : j = v := (Prod.mk.inj (List.cons.inj h).1).2
      rw [hsame, beq_self_eq_true, hj]
    · rw [List.filter_cons_of_neg (by rw [beq_false_of_ne hsame]; decide)] at h
      rw [beq_false_of_ne (Ne.symm hsame)]
      exact ih h

theorem mem_elementMembers {objects : List (List (Bytes × Json))} (hmembers : members ∈ objects)
    {m : Bytes × Json} (hm : m ∈ memberMembers members) : m ∈ allMembers (.arr (objects.map .obj)) := by
  show m ∈ elementMembers (objects.map .obj)
  induction objects with
  | nil => cases hmembers
  | cons first objects ih =>
    rcases List.mem_cons.1 hmembers with rfl | hmembers
    · exact List.mem_append_left _ hm
    · exact List.mem_append_right _ (ih hmembers)

variable {doc : Json} {objects : List (List (Bytes × Json))} {body : Bytes}

/-- No name in the array has a quote in it. -/
theorem Ack.quotes (h : Ack doc objects) (ht : Written (.value doc) t) :
    ∀ members ∈ objects, ∀ m ∈ members, ch '"' ∉ m.1 := by
  intro members hmembers m hm
  have harray : (lit "pendingRequests", Json.arr (objects.map .obj)) ∈ allMembers doc := by
    have hmem : (lit "pendingRequests", Json.arr (objects.map .obj)) ∈
        (allMembers doc).filter (fun m => m.1 == lit "pendingRequests") := by
      rw [h.only]
      exact List.mem_cons_self
    exact List.mem_of_mem_filter hmem
  have hflat : memberMembers members = members := allMembers_flat (h.flat members hmembers)
  have hnested := ht.nested _ harray m (mem_elementMembers hmembers (hflat.symm ▸ hm))
  exact (h.names m hnested).quote

theorem Ack.requests (hack : Ack doc objects) (hdoc : Document doc body) :
    findPendingRequests body = (objects.take 32).map requestOf := by
  obtain ⟨t, ht, hbody⟩ := hdoc
  have hquotes := hack.quotes ht
  have hparse : ∀ members ∈ objects, ∀ text, Written (.value (.obj members)) text →
      parseRequest text = requestOf members := fun members hmembers text htext =>
    parseRequest_written htext (hack.flat members hmembers) (hquotes members hmembers)
      (hack.typed members hmembers)
  obtain ⟨tv, back, hwritten, hfind, -⟩ := findValueStart_padded (wordKey_scanned _ (by decide)) ht hbody
    (fun m hm => (hack.names m hm).quote) (lookup_of_filter hack.only)
  rcases hwritten.arr_cases with ⟨s, hs, hnone, rfl⟩ | ⟨inner, hinner, rfl⟩
  · have hscan : findPendingRequests body = pendingScan 0 false none 32 (ch '[' :: (s ++ ch ']' :: back)) := by
      rw [findPendingRequests, hfind]
      simp
    rw [hscan, pendingScan_between (by decide), pendingScan_space hs, pendingScan_end,
      List.map_eq_nil_iff.1 hnone]
    rfl
  · have hscan : findPendingRequests body =
        pendingScan 0 false none 32 (ch '[' :: (inner ++ ch ']' :: back)) := by
      rw [findPendingRequests, hfind]
      simp
    rw [hscan, pendingScan_between (by decide), pendingScan_elements hinner hack.flat hparse 31 back]

/-- **Pull-request acks.** The scan returns the first 32 objects of the array in order, each field
that object's own value, or its default. -/
theorem findPendingRequests_ack (hack : Ack doc objects) (hdoc : Document doc body) :
    findPendingRequests body = (objects.take 32).map requestOf := hack.requests hdoc

/-! An acknowledgement with a text that looks like members, and an object without fields. -/

def sampleObjects : List (List (Bytes × Json)) :=
  [[(lit "requestId", .str (lit "\"\x7d],\"targetType\":")), (lit "nonceExpiry", .num (lit "17"))], []]

def sampleDoc : Json := .obj [(lit "pendingRequests", .arr (sampleObjects.map .obj))]

def sampleBody : Bytes :=
  lit "\x7b\"pendingRequests\": [\x7b\"requestId\":\"\\\"\x7d],\\\"targetType\\\":\",\"nonceExpiry\":17\x7d ,\x7b\x7d]\x7d\n"

theorem sampleDoc_document : Document sampleDoc sampleBody := by
  have hexpiry : Json.IsNumber (lit "17") := by decide
  have htext := Laid.str (body_jsonEscape (lit "\"\x7d],\"targetType\":"))
  have hobject := Laid.obj (.members (body_jsonEscape (lit "requestId")) (padded_self _) htext (padded_self _)
    (.member (body_jsonEscape (lit "nonceExpiry")) (padded_self _) (.num hexpiry) (padded_self _)))
  have harray := Laid.arr (.elements hobject ⟨[], [32], by decide, by decide, rfl⟩
    (.element (.emptyObj (s := []) nofun) (padded_self _)))
  have hdoc := Laid.obj (.member (body_jsonEscape (lit "pendingRequests")) (padded_self _) harray
    ⟨[32], [], by decide, by decide, rfl⟩)
  exact ⟨_, hdoc, [], [10], by decide, by decide, rfl⟩

theorem sampleDoc_ack : Ack sampleDoc sampleObjects := by
  constructor
  case names => decide
  case only => rfl
  case distinct => decide
  case flat =>
    refine List.forall_mem_cons.2 ⟨List.forall_mem_cons.2 ⟨trivial, ?_⟩, ?_⟩
    · exact List.forall_mem_singleton.2 trivial
    · exact List.forall_mem_singleton.2 nofun
  case typed =>
    refine List.forall_mem_cons.2 ⟨⟨?_, ?_⟩, List.forall_mem_singleton.2 ⟨nofun, nofun⟩⟩
    · refine List.forall_mem_cons.2 ⟨fun _ => ⟨_, rfl⟩, List.forall_mem_singleton.2 fun h => ?_⟩
      exact absurd h (by decide)
    · refine List.forall_mem_cons.2 ⟨fun h => absurd h (by decide), List.forall_mem_singleton.2 fun _ => ?_⟩
      exact ⟨_, rfl, lit "17", by decide, by decide, forall_mem_bytes (by decide), .inl rfl⟩

theorem findPendingRequests_sample :
    findPendingRequests sampleBody =
      [{ requestId := lit "\"\x7d],\"targetType\":", targetType := [], targetValue := []
         fulfillNonce := [], nonceExpiry := 17 },
       { requestId := [], targetType := [], targetValue := [], fulfillNonce := [], nonceExpiry := 0 }] := by
  rw [findPendingRequests_ack sampleDoc_ack sampleDoc_document]
  decide

end Tombstone.JsonText
