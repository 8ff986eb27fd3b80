import Tombstone.BodySearch
import Tombstone.JsonFields
import Tombstone.Launches

/- Flat objects of strings, from the writer through the scanner, and the session marker, which
   is one (`session_marker.cpp`).

   `find_value_start` takes the first place where the bytes of the quoted name are followed by
   a colon, be that a member or not. The closing quote of a value, the comma and the next
   quote are the bytes of the name `,`, and those around the colon of a member are the bytes of
   the name `:`; every other name without quotes, backslashes and control bytes is found
   (`written_fields_found`). -/
namespace Tombstone.JsonScan

/-! ## Flat objects -/

/-- What the writer makes of a list of string fields. -/
def flatObject (fields : List (Bytes × Bytes)) : Bytes :=
  (fields.foldl (fun (w : JsonWriter) field => w.stringField field.1 field.2)
    (JsonWriter.beginObject {})).endObject.out

/-- No control byte. -/
def Printable (name : Bytes) : Prop := ∀ b ∈ name, 0x20 ≤ b.toNat

instance (name : Bytes) : Decidable (Printable name) :=
  decidable_of_iff ((name.all fun b => decide (0x20 ≤ b.toNat)) = true)
    ⟨forall_mem_bytes, fun h => List.all_eq_true.2 fun b hb => decide_eq_true (h b hb)⟩

/-- Distinct names without quotes, backslashes and control bytes. -/
structure Fields (fields : List (Bytes × Bytes)) : Prop where
  distinct : (fields.map Prod.fst).Nodup
  plain : ∀ field ∈ fields, PlainKey field.1
  printable : ∀ field ∈ fields, Printable field.1

/-- The text of a member. -/
def member (field : Bytes × Bytes) : Bytes := quote field.1 ++ ch ':' :: quote field.2

variable {key rest : Bytes} {fields : List (Bytes × Bytes)}

theorem flatObject_eq (fields : List (Bytes × Bytes)) :
    flatObject fields = ch '\x7b' :: (Json.commas (fields.map member) ++ [ch '\x7d']) := by
  have hscope : ∀ (fields : List (Bytes × Bytes)) (texts : List Bytes) (w : JsonWriter),
      JsonFields.InScope (ch '\x7b') {} texts w →
      JsonFields.InScope (ch '\x7b') {} (texts ++ fields.map member)
        (fields.foldl (fun (w : JsonWriter) field => w.stringField field.1 field.2) w) := by
    intro fields
    induction fields with
    | nil =>
      intro texts w h
      rw [List.map_nil, List.append_nil]
      exact h
    | cons field fields ih =>
      intro texts w h
      have hfield : w.stringField field.1 field.2 = w.elementPrefix.emit (member field) := by
        simp [JsonWriter.stringField, JsonWriter.namePrefix, JsonWriter.emit, member, quote]
      have hnext := ih (texts ++ [member field]) _ (h.next (member field))
      rw [List.append_assoc, List.singleton_append] at hnext
      rw [List.foldl_cons, hfield]
      exact hnext
  have h := hscope fields [] _ (.opened (ch '\x7b') {})
  calc flatObject fields
      = (((fields.foldl (fun (w : JsonWriter) field => w.stringField field.1 field.2)
          (JsonWriter.beginObject {})).emit [ch '\x7d']).popScope).out := rfl
    _ = (JsonWriter.emit {} (ch '\x7b' :: Json.commas ([] ++ fields.map member) ++ [ch '\x7d'])).out :=
        congrArg JsonWriter.out (h.close (ch '\x7d'))
    _ = ch '\x7b' :: (Json.commas (fields.map member) ++ [ch '\x7d']) := rfl

theorem commas_member (field : Bytes × Bytes) (fields : List (Bytes × Bytes)) :
    ∃ rest, Json.commas ((field :: fields).map member) = ch '"' :: rest := by
  cases fields with
  | nil => exact ⟨_, rfl⟩
  | cons next fields => exact ⟨_, rfl⟩

theorem not_bridge {c : UInt8} (hkey : PlainKey key) (hc : key ≠ [c]) (hquote : c ≠ ch '"') :
    ¬ key ++ [ch '"'] <+: c :: ch '"' :: rest := by
  intro hprefix
  cases key with
  | nil => exact hquote (List.cons_prefix_cons.1 hprefix).1.symm
  | cons k ks =>
    obtain ⟨rfl, htail⟩ := List.cons_prefix_cons.1 hprefix
    cases ks with
    | nil => exact hc rfl
    | cons k' ks =>
      have hk' : k' = ch '"' := (List.cons_prefix_cons.1 htail).1
      exact hkey.quote (hk' ▸ List.mem_cons_of_mem _ List.mem_cons_self)

/-- **A search gets past the members in front**, whatever their values are. -/
theorem findQuoted_members (hkey : PlainKey key) (hcomma : key ≠ [ch ',']) (hcolon : key ≠ [ch ':'])
    {before : List (Bytes × Bytes)} (hbefore : ∀ field ∈ before, field.1 ≠ key ∧ PlainKey field.1)
    (own : Bytes × Bytes) (behind : List (Bytes × Bytes)) (closing : Bytes) :
    findQuoted (needle key) 0 (Json.commas ((before ++ own :: behind).map member) ++ closing) =
      findQuoted (needle key) 0 (Json.commas ((own :: behind).map member) ++ closing) := by
  induction before with
  | nil => rfl
  | cons field before ih =>
    obtain ⟨hother, hplain⟩ := hbefore field List.mem_cons_self
    -- a quote leads what comes next
    obtain ⟨rest, hrest⟩ : ∃ rest, Json.commas ((before ++ own :: behind).map member) = ch '"' :: rest := by
      cases before with
      | nil => exact commas_member own behind
      | cons next before => exact commas_member next (before ++ own :: behind)
    have ih := ih fun field hfield => hbefore field (List.mem_cons_of_mem _ hfield)
    rw [hrest] at ih
    have hcons : Json.commas (member field :: (before ++ own :: behind).map member) =
        member field ++ ch ',' :: Json.commas ((before ++ own :: behind).map member) :=
      Json.commas_cons (by simp)
    have htext : Json.commas ((field :: before ++ own :: behind).map member) ++ closing =
        quote field.1 ++ ch ':' :: (quote field.2 ++ ch ',' :: (ch '"' :: rest ++ closing)) := by
      calc Json.commas ((field :: before ++ own :: behind).map member) ++ closing
          = (member field ++ ch ',' :: Json.commas ((before ++ own :: behind).map member)) ++ closing :=
            congrArg (· ++ closing) hcons
        _ = (member field ++ ch ',' :: ch '"' :: rest) ++ closing := by rw [hrest]
        _ = _ := by simp [member]
    have hname : findQuoted (needle key) 0
        (quote field.1 ++ ch ':' :: (quote field.2 ++ ch ',' :: (ch '"' :: rest ++ closing))) =
        findQuoted (needle key) 0
          (ch ':' :: (quote field.2 ++ ch ',' :: (ch '"' :: rest ++ closing))) := by
      apply JsonText.findQuoted_quote hkey (not_bridge hkey hcolon (by decide))
      intro hnames
      exact absurd hnames (JsonText.not_names_jsonEscape hkey hother hplain.quote)
    have hvalue : findQuoted (needle key) 0
        (quote field.2 ++ ch ',' :: (ch '"' :: rest ++ closing)) =
        findQuoted (needle key) 0 (ch ',' :: (ch '"' :: rest ++ closing)) := by
      apply JsonText.findQuoted_quote hkey (not_bridge hkey hcomma (by decide))
      intro _ hcolonNext
      exact absurd (Option.some.inj hcolonNext) (by decide)
    rw [htext, hname, findQuoted_byte (by decide), hvalue, findQuoted_byte (by decide), ih]

/-- **Every other name is found**, with the value that was written. -/
theorem findStringField_flatObject (h : Fields fields) {field : Bytes × Bytes} (hfield : field ∈ fields)
    (hcomma : field.1 ≠ [ch ',']) (hcolon : field.1 ≠ [ch ':']) :
    findStringField (flatObject fields) field.1 = some field.2 := by
  obtain ⟨before, behind, rfl⟩ := List.append_of_mem hfield
  have hbefore : ∀ other ∈ before, other.1 ≠ field.1 ∧ PlainKey other.1 := by
    intro other hother
    refine ⟨fun hsame => ?_, h.plain other (List.mem_append_left _ hother)⟩
    have hdistinct := h.distinct
    rw [List.map_append, List.nodup_append] at hdistinct
    exact hdistinct.2.2 other.1 (List.mem_map_of_mem hother) field.1 List.mem_cons_self hsame
  have hplain := h.plain field hfield
  obtain ⟨rest, hrest⟩ : ∃ rest, Json.commas ((field :: behind).map member) =
      needle field.1 ++ ch ':' :: (quote field.2 ++ rest) := by
    have hname : quote field.1 = needle field.1 := by
      rw [quote, jsonEscape_plain hplain fun b hb => h.printable field hfield b hb, needle]
    cases behind with
    | nil => exact ⟨[], by simp [Json.commas, member, hname]⟩
    | cons next behind => exact ⟨_, by
        rw [List.map_cons, Json.commas_cons (by simp), member, hname, List.append_assoc]
        rfl⟩
  have hfind : findValueStart (flatObject (before ++ field :: behind)) field.1 =
      some (quote field.2 ++ (rest ++ [ch '\x7d'])) := by
    show findQuoted (needle field.1) 0 _ = _
    calc findQuoted (needle field.1) 0 (flatObject (before ++ field :: behind))
        = findQuoted (needle field.1) 0
            (Json.commas ((before ++ field :: behind).map member) ++ [ch '\x7d']) := by
          rw [flatObject_eq, findQuoted_byte (by decide)]
      _ = findQuoted (needle field.1) 0 (Json.commas ((field :: behind).map member) ++ [ch '\x7d']) :=
          findQuoted_members hplain hcomma hcolon hbefore field behind _
      _ = findQuoted (needle field.1) 0
            (needle field.1 ++ ch ':' :: (quote field.2 ++ (rest ++ [ch '\x7d']))) := by
          rw [hrest]
          simp
      _ = some (skipSpace (quote field.2 ++ (rest ++ [ch '\x7d']))) := findQuoted_hit rfl
  rw [findStringField, hfind, Option.bind_some, readString_quote]
  rfl

/-! ## The session marker -/

open Launches (SessionMarkerData MarkerFile markerText)

/-- `SessionMarker`: whether it is configured, and the file at its path. -/
structure SessionMarker where
  configured : Bool := false
  file : Option MarkerFile := none
  deriving DecidableEq

/-- `SessionMarker::write`, for the session with this number. -/
def SessionMarker.write (m : SessionMarker) (session : Nat) (data : SessionMarkerData) : SessionMarker :=
  if m.configured then { m with file := some { text := markerText data, session } } else m

/-- `SessionMarker::take_previous`: what was there is read and removed. -/
def SessionMarker.takePrevious (m : SessionMarker) : Option SessionMarkerData × SessionMarker :=
  if m.configured then (m.file.bind MarkerFile.read, { m with file := none }) else (none, m)

/-- The fields of `session.lock`. -/
def markerFields (data : SessionMarkerData) : List (Bytes × Bytes) :=
  [(lit "sessionId", data.sessionId), (lit "startedAtIso", data.startedAtIso),
    (lit "buildVersion", data.buildVersion), (lit "os", data.os), (lit "arch", data.arch)]

theorem markerText_eq (data : SessionMarkerData) : markerText data = flatObject (markerFields data) :=
  rfl

theorem markerFields_fields (data : SessionMarkerData) : Fields (markerFields data) := by
  have hnames : (markerFields data).map Prod.fst =
      [lit "sessionId", lit "startedAtIso", lit "buildVersion", lit "os", lit "arch"] := rfl
  have hall : ∀ name ∈ (markerFields data).map Prod.fst, PlainKey name ∧ Printable name := by
    rw [hnames]
    decide
  refine ⟨?_, fun field hfield => (hall _ (List.mem_map_of_mem hfield)).1,
    fun field hfield => (hall _ (List.mem_map_of_mem hfield)).2⟩
  rw [hnames]
  decide

/-- **What `take_previous` reads is what `write` was given.** -/
theorem read_markerText (data : SessionMarkerData) (session : Nat) (hid : data.sessionId ≠ []) :
    MarkerFile.read { text := markerText data, session } = some data := by
  have hfield : ∀ field ∈ markerFields data,
      (findStringField (markerText data) field.1).getD [] = field.2 := by
    intro field hfield
    have hname : field.1 ≠ [ch ','] ∧ field.1 ≠ [ch ':'] := by
      have hall : ∀ name ∈ [lit "sessionId", lit "startedAtIso", lit "buildVersion", lit "os",
          lit "arch"], name ≠ [ch ','] ∧ name ≠ [ch ':'] := by decide
      exact hall field.1 (List.mem_map_of_mem (f := Prod.fst) hfield)
    rw [markerText_eq, findStringField_flatObject (markerFields_fields data) hfield hname.1 hname.2]
    rfl
  have hsession : (findStringField (markerText data) (lit "sessionId")).getD [] = data.sessionId :=
    hfield (_, data.sessionId) (.head _)
  have hstarted : (findStringField (markerText data) (lit "startedAtIso")).getD [] = data.startedAtIso :=
    hfield (_, data.startedAtIso) (.tail _ (.head _))
  have hbuild : (findStringField (markerText data) (lit "buildVersion")).getD [] = data.buildVersion :=
    hfield (_, data.buildVersion) (.tail _ (.tail _ (.head _)))
  have hos : (findStringField (markerText data) (lit "os")).getD [] = data.os :=
    hfield (_, data.os) (.tail _ (.tail _ (.tail _ (.head _))))
  have harch : (findStringField (markerText data) (lit "arch")).getD [] = data.arch :=
    hfield (_, data.arch) (.tail _ (.tail _ (.tail _ (.tail _ (.head _)))))
  have hpresent : ¬ data.sessionId.isEmpty = true := fun h => hid (List.isEmpty_iff.1 h)
  simp only [MarkerFile.read, hsession, hstarted, hbuild, hos, harch, if_neg hpresent]

/-- A search for the name `:` stops at the value of the member in front, and a search for the
name `,` passes over its own member. -/
theorem punctuation_names_lost :
    (¬ ∀ fields, Fields fields → ∀ field ∈ fields, field.1 ≠ lit "," →
      findStringField (flatObject fields) field.1 = some field.2) ∧
    ¬ ∀ fields, Fields fields → ∀ field ∈ fields, field.1 ≠ lit ":" →
      findStringField (flatObject fields) field.1 = some field.2 := by
  constructor
  · intro h
    have hfields : Fields [(lit "a", lit ":x"), (lit ":", lit "y")] :=
      ⟨by decide, by decide, by decide⟩
    exact absurd (h _ hfields (lit ":", lit "y") (by decide) (by decide)) (by decide)
  · intro h
    have hfields : Fields [(lit "a", lit "v"), (lit ",", lit "y")] :=
      ⟨by decide, by decide, by decide⟩
    exact absurd (h _ hfields (lit ",", lit "y") (by decide) (by decide)) (by decide)

/-- **Writer and scanner agree** on every name but `,` and `:`, and so a session marker with an
id comes back as it was written, and is gone from the disk. -/
theorem written_fields_found :
    (∀ fields, Fields fields → ∀ field ∈ fields, field.1 ≠ lit "," → field.1 ≠ lit ":" →
      findStringField (flatObject fields) field.1 = some field.2) ∧
    ∀ (m : SessionMarker) (session : Nat) (data : SessionMarkerData), m.configured = true →
      data.sessionId ≠ [] →
      (m.write session data).takePrevious = (some data, { m with file := none }) := by
  constructor
  · intro fields h field hfield hcomma hcolon
    exact findStringField_flatObject h hfield hcomma hcolon
  · intro m session data hconfigured hid
    rw [SessionMarker.write, if_pos hconfigured, SessionMarker.takePrevious, if_pos hconfigured,
      Option.bind_some, read_markerText data session hid]

/-- The marker of the test, and an object whose values look like members. -/
theorem written_fields_found_sample :
    findStringField (flatObject [(lit "os", lit "\"arch\":\""), (lit "arch", lit "x64")])
      (lit "arch") = some (lit "x64") ∧
    ((SessionMarker.mk true none).write 0
      { sessionId := lit "a1b2c3d4e5f6", startedAtIso := lit "2026-01-02T03:04:05.678Z"
        buildVersion := lit "1.4.2", os := lit "windows", arch := lit "x64" }).takePrevious.1 =
      some { sessionId := lit "a1b2c3d4e5f6", startedAtIso := lit "2026-01-02T03:04:05.678Z"
             buildVersion := lit "1.4.2", os := lit "windows", arch := lit "x64" } := by
  constructor
  · exact written_fields_found.1 _ ⟨by decide, by decide, by decide⟩ (lit "arch", lit "x64")
      (by decide) (by decide) (by decide)
  · rw [written_fields_found.2 _ _ _ rfl (by decide)]

end Tombstone.JsonScan
