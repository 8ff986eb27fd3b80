import Tombstone.JsonFields
import Tombstone.JsonLocality
import Tombstone.SignatureStandard

/- What `JsonWriter` serialises: trees.

   A tree is emitted call by call (`calls`). The calls for a member leave the flags of the scopes around
   it as one text more in the innermost scope (`Value.written`), so the document is the text of the tree
   (`emitted_eq`). Its members and elements read back one by one, those that somebody else serialised
   too (`Value.reads`). So the document reads back as the tree (`emitted_decodes`). -/
namespace Tombstone.WriterTrees
open Json (Decodes ReadsAs memberText quoted commas member value skipWs skipWs_cons)
open JsonFields (escaping InScope)
open Signature (decimal)

/-! ## Trees -/

/-- A name or a string. -/
structure Text where
  bytes : Bytes
  valid : Utf8.Valid bytes

/-- A text that is already serialised, with what it stands for. -/
structure RawValue where
  text : Bytes
  json : Json
  decodes : Decodes text json

mutual

/-- The value of a member. -/
inductive Value
  | string (text : Text)
  | bool (b : Bool)
  | int (n : Int64)
  | raw (r : RawValue)
  | object (members : Members)
  | array (elements : Elements)

/-- The members of an object. -/
inductive Members
  | nil
  | cons (name : Text) (v : Value) (rest : Members)

/-- The elements of an array: objects, and values that are already serialised. -/
inductive Elements
  | nil
  | object (members : Members) (rest : Elements)
  | raw (r : RawValue) (rest : Elements)

end

mutual

/-- The value that is to be read back. An integer is its decimal. -/
def Value.toJson : Value → Json
  | .string text => .str text.bytes
  | .bool b => .bool b
  | .int n => .num (decimal n.toInt)
  | .raw r => r.json
  | .object members => .obj members.toJson
  | .array elements => .arr elements.toJson

def Members.toJson : Members → List (Bytes × Json)
  | .nil => []
  | .cons name v rest => (name.bytes, v.toJson) :: rest.toJson

def Elements.toJson : Elements → List Json
  | .nil => []
  | .object members rest => .obj members.toJson :: rest.toJson
  | .raw r rest => r.json :: rest.toJson

end

/-! ## Calls -/

/-- The calls of a builder. -/
inductive WriterCall
  | beginObject
  | beginObjectField (name : Bytes)
  | beginArray (name : Bytes)
  | endObject
  | endArray
  | stringField (name text : Bytes)
  | boolField (name : Bytes) (b : Bool)
  | intField (name : Bytes) (n : Int64)
  | rawElement (raw : Bytes)
  | rawField (name raw : Bytes)

def perform (w : JsonWriter) : WriterCall → JsonWriter
  | .beginObject => w.beginObject
  | .beginObjectField name => w.beginObjectField name
  | .beginArray name => w.beginArray name
  | .endObject => w.endObject
  | .endArray => w.endArray
  | .stringField name text => w.stringField name text
  | .boolField name b => w.boolField name b
  | .intField name n => w.intField name n.toInt
  | .rawElement raw => w.rawElement raw
  | .rawField name raw => w.rawField name raw

mutual

/-- The calls that emit a member. -/
def Value.calls (name : Bytes) : Value → List WriterCall
  | .string text => [.stringField name text.bytes]
  | .bool b => [.boolField name b]
  | .int n => [.intField name n]
  | .raw r => [.rawField name r.text]
  | .object members => .beginObjectField name :: (members.calls ++ [.endObject])
  | .array elements => .beginArray name :: (elements.calls ++ [.endArray])

def Members.calls : Members → List WriterCall
  | .nil => []
  | .cons name v rest => v.calls name.bytes ++ rest.calls

def Elements.calls : Elements → List WriterCall
  | .nil => []
  | .object members rest => .beginObject :: (members.calls ++ .endObject :: rest.calls)
  | .raw r rest => .rawElement r.text :: rest.calls

end

/-- The document with this object as its root. -/
def emitted (root : Members) : Bytes :=
  ((WriterCall.beginObject :: (root.calls ++ [.endObject])).foldl perform {}).out

/-! ## Texts -/

mutual

/-- The text of a value, as it is written. -/
def Value.text : Value → Bytes
  | .string text => quoted escaping text.bytes
  | .bool b => if b then lit "true" else lit "false"
  | .int n => intText n.toInt
  | .raw r => r.text
  | .object members => ch '\x7b' :: commas members.texts ++ [ch '\x7d']
  | .array elements => ch '[' :: commas elements.texts ++ [ch ']']

def Members.texts : Members → List Bytes
  | .nil => []
  | .cons name v rest => memberText escaping name.bytes v.text :: rest.texts

def Elements.texts : Elements → List Bytes
  | .nil => []
  | .object members rest => (ch '\x7b' :: commas members.texts ++ [ch '\x7d']) :: rest.texts
  | .raw r rest => r.text :: rest.texts

end

theorem InScope.field {opening : UInt8} {base w : JsonWriter} {texts : List Bytes}
    (h : InScope opening base texts w) (name text : Bytes) :
    InScope opening base (texts ++ [memberText escaping name text]) ((w.namePrefix name).emit text) := by
  rw [JsonFields.namePrefix_emit]
  exact h.next _

mutual

/-- **A member is one text more** in the scope that is open. -/
theorem Value.written (v : Value) (name : Bytes) {opening : UInt8} {base w : JsonWriter} {texts : List Bytes}
    (h : InScope opening base texts w) :
    InScope opening base (texts ++ [memberText escaping name v.text]) ((v.calls name).foldl perform w) := by
  match v with
  | .string text => exact InScope.field h name _
  | .bool b => exact InScope.field h name _
  | .int n => exact InScope.field h name _
  | .raw r => exact InScope.field h name _
  | .object members =>
    -- a scope that is closed leaves one text behind, and the flags as they were
    have hinner := (members.written (.opened (ch '\x7b') (w.namePrefix name))).close (ch '\x7d')
    rw [Value.calls, List.foldl_cons, List.foldl_append, Value.text]
    show InScope opening base _ (JsonWriter.popScope _)
    rw [List.nil_append] at hinner
    exact hinner ▸ InScope.field h name _
  | .array elements =>
    have hinner := (elements.written (.opened (ch '[') (w.namePrefix name))).close (ch ']')
    rw [Value.calls, List.foldl_cons, List.foldl_append, Value.text]
    show InScope opening base _ (JsonWriter.popScope _)
    rw [List.nil_append] at hinner
    exact hinner ▸ InScope.field h name _

theorem Members.written (members : Members) {opening : UInt8} {base w : JsonWriter} {texts : List Bytes}
    (h : InScope opening base texts w) :
    InScope opening base (texts ++ members.texts) (members.calls.foldl perform w) := by
  match members with
  | .nil =>
    rw [Members.texts, List.append_nil]
    exact h
  | .cons name v rest =>
    have hmore := rest.written (v.written name.bytes h)
    rw [Members.calls, List.foldl_append, Members.texts]
    rw [List.append_assoc] at hmore
    exact hmore

theorem Elements.written (elements : Elements) {opening : UInt8} {base w : JsonWriter} {texts : List Bytes}
    (h : InScope opening base texts w) :
    InScope opening base (texts ++ elements.texts) (elements.calls.foldl perform w) := by
  match elements with
  | .nil =>
    rw [Elements.texts, List.append_nil]
    exact h
  | .object members rest =>
    have hinner := (members.written (.opened (ch '\x7b') w.elementPrefix)).close (ch '\x7d')
    rw [List.nil_append] at hinner
    have hmore := rest.written (h.next (ch '\x7b' :: commas members.texts ++ [ch '\x7d']))
    rw [← hinner, List.append_assoc] at hmore
    rw [Elements.calls, List.foldl_cons, List.foldl_append, Elements.texts]
    exact hmore
  | .raw r rest =>
    have hmore := rest.written (h.next r.text)
    rw [List.append_assoc] at hmore
    exact hmore

end

/-- **The document is the text of its tree.** -/
theorem emitted_eq (root : Members) : emitted root = (Value.object root).text := by
  have hroot := (root.written (.opened (ch '\x7b') (JsonWriter.elementPrefix {}))).close (ch '\x7d')
  rw [List.nil_append] at hroot
  rw [emitted, List.foldl_cons, List.foldl_append]
  exact congrArg JsonWriter.out hroot

/-! ## Reading back -/

mutual

theorem Value.valid (v : Value) : Utf8.Valid v.text := by
  match v with
  | .string text => exact Json.quoted_valid text.valid
  | .bool b =>
    cases b with
    | true | false => exact Utf8.valid_literal rfl
  | .int n =>
    have hnumber := Json.render_valid (e := escaping) (.num (JsonFields.isNumber_intText n.toInt))
    rw [Json.render] at hnumber
    exact hnumber
  | .raw r => exact r.decodes.utf8
  | .object members => exact Json.enclosed_valid (by decide) (by decide) members.valid
  | .array elements => exact Json.enclosed_valid (by decide) (by decide) elements.valid

theorem Members.valid (members : Members) : ∀ t ∈ members.texts, Utf8.Valid t := by
  match members with
  | .nil => exact fun _ ht => absurd ht List.not_mem_nil
  | .cons name v rest =>
    have hcolon : Utf8.Valid [ch ':'] := Utf8.valid_literal rfl
    have hmember : Utf8.Valid (memberText escaping name.bytes v.text) :=
      (Json.quoted_valid name.valid).append (hcolon.append v.valid)
    exact List.forall_mem_cons.2 ⟨hmember, rest.valid⟩

theorem Elements.valid (elements : Elements) : ∀ t ∈ elements.texts, Utf8.Valid t := by
  match elements with
  | .nil => exact fun _ ht => absurd ht List.not_mem_nil
  | .object members rest =>
    exact List.forall_mem_cons.2 ⟨Json.enclosed_valid (by decide) (by decide) members.valid, rest.valid⟩
  | .raw r rest => exact List.forall_mem_cons.2 ⟨r.decodes.utf8, rest.valid⟩

end

/-- A member starts with the quote of its name. -/
theorem Members.head (members : Members) :
    ∀ t ∈ members.texts, ∃ c cs, skipWs t = c :: cs ∧ c ≠ ch '\x7d' := by
  match members with
  | .nil => exact fun _ ht => absurd ht List.not_mem_nil
  | .cons name v rest => exact List.forall_mem_cons.2 ⟨⟨_, _, skipWs_cons rfl _, by decide⟩, rest.head⟩

theorem Elements.head (elements : Elements) :
    ∀ t ∈ elements.texts, ∃ c cs, skipWs t = c :: cs ∧ c ≠ ch ']' := by
  match elements with
  | .nil => exact fun _ ht => absurd ht List.not_mem_nil
  | .object members rest => exact List.forall_mem_cons.2 ⟨⟨_, _, skipWs_cons rfl _, by decide⟩, rest.head⟩
  | .raw r rest =>
    obtain ⟨c, cs, hskip, hc, -⟩ := r.decodes.head
    exact List.forall_mem_cons.2 ⟨⟨c, cs, hskip, hc⟩, rest.head⟩

/-- What has no member is read back from its compact text. -/
theorem reads_compact {n : Nat} {j : Json} (hj : j.Numeric) {text : Bytes} (htext : Json.render escaping j = text)
    (hn : text.length ≤ n) : ReadsAs (value n) text j := by
  rw [← htext] at hn ⊢
  exact .of_read fun rest hrest => Json.value_render hj hn hrest

/-- Members that are read are an object. -/
theorem reads_object {n : Nat} {texts : List Bytes} {members : List (Bytes × Json)}
    (h : List.Forall₂ (ReadsAs (member (value n))) texts members)
    (hhead : ∀ t ∈ texts, ∃ c cs, skipWs t = c :: cs ∧ c ≠ ch '\x7d') :
    ReadsAs (value (n + 1)) (ch '\x7b' :: commas texts ++ [ch '\x7d']) (.obj members) := by
  refine .of_read fun rest _ => ?_
  rw [List.append_assoc, List.cons_append, value, skipWs_cons rfl]
  dsimp only
  rw [if_neg (by decide), if_pos rfl, List.singleton_append, Json.list_texts (.inr rfl) h hhead rest]
  rfl

theorem reads_array {n : Nat} {texts : List Bytes} {elements : List Json}
    (h : List.Forall₂ (ReadsAs (value n)) texts elements)
    (hhead : ∀ t ∈ texts, ∃ c cs, skipWs t = c :: cs ∧ c ≠ ch ']') :
    ReadsAs (value (n + 1)) (ch '[' :: commas texts ++ [ch ']']) (.arr elements) := by
  refine .of_read fun rest _ => ?_
  rw [List.append_assoc, List.cons_append, value, skipWs_cons rfl]
  dsimp only
  rw [if_neg (by decide), if_neg (by decide), if_pos rfl, List.singleton_append,
    Json.list_texts (.inl rfl) h hhead rest]
  rfl

/-- A text in brackets is longer than every text in it. -/
theorem length_enclosed {opening closing : UInt8} {texts : List Bytes} {n : Nat}
    (hn : (opening :: commas texts ++ [closing]).length ≤ n) :
    ∃ depth, n = depth + 1 ∧ ∀ t ∈ texts, t.length ≤ depth := by
  obtain ⟨depth, rfl⟩ := Nat.exists_eq_add_one.2 (Nat.lt_of_lt_of_le (Nat.succ_pos _) hn)
  refine ⟨depth, rfl, fun t ht => ?_⟩
  have hle := Json.length_le_commas ht
  simp only [List.length_append, List.length_cons] at hn
  omega

mutual

/-- **A value is read back** from its text, to any depth from the length of the text on. -/
theorem Value.reads (v : Value) {n : Nat} (hn : v.text.length ≤ n) : ReadsAs (value n) v.text v.toJson := by
  match v with
  | .string text => exact reads_compact (.str text.bytes) (by rw [Json.render]; rfl) hn
  | .bool b => exact reads_compact (.bool b) (by rw [Json.render]; rfl) hn
  | .int m =>
    have hnumber := JsonFields.isNumber_intText m.toInt
    rw [Value.toJson, ← Signature.intText_decimal]
    exact reads_compact (.num hnumber) (by rw [Json.render]; rfl) hn
  | .raw r => exact r.decodes.reads hn
  | .object members =>
    obtain ⟨depth, rfl, hdepth⟩ := length_enclosed hn
    exact reads_object (members.reads hdepth) members.head
  | .array elements =>
    obtain ⟨depth, rfl, hdepth⟩ := length_enclosed hn
    exact reads_array (elements.reads hdepth) elements.head

theorem Members.reads (members : Members) {n : Nat} (hn : ∀ t ∈ members.texts, t.length ≤ n) :
    List.Forall₂ (ReadsAs (member (value n))) members.texts members.toJson := by
  match members with
  | .nil => exact .nil
  | .cons name v rest =>
    obtain ⟨hfirst, hmore⟩ := List.forall_mem_cons.1 hn
    have hlength : v.text.length ≤ n := by
      simp only [memberText, List.length_append, List.length_cons] at hfirst
      omega
    -- what is left of the value is left of the member
    refine .cons (fun rest' hrest => ?_) (rest.reads hmore)
    obtain ⟨blanks, hblanks, hread⟩ := v.reads hlength rest' hrest
    exact ⟨blanks, hblanks, Json.member_memberText hread⟩

theorem Elements.reads (elements : Elements) {n : Nat} (hn : ∀ t ∈ elements.texts, t.length ≤ n) :
    List.Forall₂ (ReadsAs (value n)) elements.texts elements.toJson := by
  match elements with
  | .nil => exact .nil
  | .object members rest =>
    obtain ⟨hfirst, hmore⟩ := List.forall_mem_cons.1 hn
    obtain ⟨depth, rfl, hdepth⟩ := length_enclosed hfirst
    exact .cons (reads_object (members.reads hdepth) members.head) (rest.reads hmore)
  | .raw r rest =>
    obtain ⟨hfirst, hmore⟩ := List.forall_mem_cons.1 hn
    exact .cons (r.decodes.reads hfirst) (rest.reads hmore)

end

/-- **Every tree that is emitted reads back** as itself, with its members in the order of the calls. -/
theorem emitted_decodes (root : Members) : Decodes (emitted root) (.obj root.toJson) := by
  have hread := (Value.object root).reads (Nat.le_refl _)
  rw [emitted_eq]
  exact hread.decodes (Value.object root).valid

end Tombstone.WriterTrees
