import Tombstone.BodySearch
import Tombstone.JsonRoundTrip
import Tombstone.WireBodies

/- Finding a field in a body that a builder wrote.

   While the writer writes members under other names, a search for the key gets past all it
   has written (`Passes`), whatever the values are. Once the member of the key is written it is
   what the search finds (`Holds`), and no later member changes that, since the writer only
   appends (`Extends`). -/
namespace Tombstone.FieldSearch
open JsonScan

/-- Another name than the key. -/
def Other (key name : Bytes) : Prop := name ≠ key ∧ ch '"' ∉ name

instance (key name : Bytes) : Decidable (Other key name) :=
  inferInstanceAs (Decidable (name ≠ key ∧ ch '"' ∉ name))

/-- What can stand behind a value. -/
def Follows (rest : Bytes) : Prop := ∃ c cs, rest = c :: cs ∧ (c = ch ',' ∨ c = ch '\x7d' ∨ c = ch ']')

variable {key name value text rest : Bytes} {outer : List Bool} {w w' : JsonWriter}

/-! ## Texts that a search gets past -/

theorem Follows.not_bridge (hkey : WordKey key) (h : Follows rest) : ¬ key ++ [ch '"'] <+: rest := by
  obtain ⟨c, cs, rfl, hc⟩ := h
  apply hkey.not_bridge
  intro d hd
  obtain rfl : c = d := Option.some.inj hd
  right
  rcases hc with rfl | rfl | rfl
  all_goals decide

theorem Follows.not_colonNext (h : Follows rest) : ¬ ColonNext rest := by
  obtain ⟨c, cs, rfl, hc⟩ := h
  have hspace : isSpace c = false := by
    rcases hc with rfl | rfl | rfl
    all_goals rfl
  rw [ColonNext, skipSpace, List.dropWhile_cons_of_neg (by rw [hspace]; decide), List.head?_cons,
    Option.some.injEq]
  rintro rfl
  rcases hc with h | h | h
  all_goals exact absurd h (by decide)

/-- A string value. -/
theorem findQuoted_value (hkey : WordKey key) (value : Bytes) (h : Follows rest) :
    findQuoted (needle key) 0 (quote value ++ rest) = findQuoted (needle key) 0 rest := by
  exact JsonText.findQuoted_quote hkey.toPlainKey (h.not_bridge hkey) fun _ => h.not_colonNext

/-- Another name, and its colon. -/
theorem findQuoted_name (hkey : WordKey key) (hname : Other key name) (rest : Bytes) :
    findQuoted (needle key) 0 (quote name ++ ch ':' :: rest) = findQuoted (needle key) 0 rest := by
  have hbridge : ¬ key ++ [ch '"'] <+: ch ':' :: rest := by
    apply hkey.not_bridge
    intro c hc
    obtain rfl : ch ':' = c := Option.some.inj hc
    right
    decide
  rw [JsonText.findQuoted_quote hkey.toPlainKey hbridge, findQuoted_byte (by decide)]
  intro hnames
  exact absurd hnames (JsonText.not_names_jsonEscape hkey.toPlainKey hname.1 hname.2)

/-! ## The writer -/

/-- The writer is in a scope within `outer`, and a search gets past all it has written. -/
structure Passes (key : Bytes) (outer : List Bool) (w : JsonWriter) : Prop where
  search : ∃ flag, w.needsComma = flag :: outer ∧ ∀ rest, (flag = true → Follows rest) →
    findQuoted (needle key) 0 (w.out ++ rest) = findQuoted (needle key) 0 rest

/-- The comma in front of the next member, where there is one. -/
theorem Passes.lead (h : Passes key outer w) :
    w.elementPrefix.needsComma = true :: outer ∧ ∀ rest,
      findQuoted (needle key) 0 (w.elementPrefix.out ++ rest) = findQuoted (needle key) 0 rest := by
  obtain ⟨flag, hflag, hsearch⟩ := h.search
  unfold JsonWriter.elementPrefix
  rw [hflag]
  refine ⟨rfl, fun rest => ?_⟩
  cases flag with
  | false => exact hsearch rest nofun
  | true =>
    show findQuoted _ 0 (w.out ++ [ch ','] ++ rest) = _
    rw [List.append_assoc, List.singleton_append, hsearch _ fun _ => ⟨ch ',', rest, rfl, .inl rfl⟩,
      findQuoted_byte (by decide)]

/-- The name of the next member. -/
theorem Passes.named (h : Passes key outer w) (hkey : WordKey key) (hname : Other key name) :
    (w.namePrefix name).needsComma = true :: outer ∧ ∀ rest,
      findQuoted (needle key) 0 ((w.namePrefix name).out ++ rest) = findQuoted (needle key) 0 rest := by
  obtain ⟨hflag, hsearch⟩ := h.lead
  refine ⟨hflag, fun rest => ?_⟩
  have htext : (w.namePrefix name).out ++ rest = w.elementPrefix.out ++ (quote name ++ ch ':' :: rest) := by
    simp [JsonWriter.namePrefix, JsonWriter.emit, quote]
  rw [htext, hsearch, findQuoted_name hkey hname]

/-- A value behind its name. -/
theorem Passes.member (h : Passes key outer w) (hkey : WordKey key) (hname : Other key name)
    (htext : ∀ rest, Follows rest →
      findQuoted (needle key) 0 (text ++ rest) = findQuoted (needle key) 0 rest) :
    Passes key outer ((w.namePrefix name).emit text) := by
  obtain ⟨hflag, hsearch⟩ := h.named hkey hname
  refine ⟨⟨true, hflag, fun rest hrest => ?_⟩⟩
  show findQuoted _ 0 ((w.namePrefix name).out ++ text ++ rest) = _
  rw [List.append_assoc, hsearch, htext rest (hrest rfl)]

/-- A scope that is opened in this one. -/
theorem Passes.opened (h : w.needsComma = outer ∧ ∀ rest,
      findQuoted (needle key) 0 (w.out ++ rest) = findQuoted (needle key) 0 rest)
    {opening : UInt8} (hopening : opening ≠ ch '"') :
    Passes key outer (w.emit [opening]).pushScope := by
  refine ⟨⟨false, by rw [← h.1]; rfl, fun rest _ => ?_⟩⟩
  show findQuoted _ 0 (w.out ++ [opening] ++ rest) = _
  rw [List.append_assoc, h.2, List.singleton_append, findQuoted_byte hopening]

/-- A scope that is closed again. -/
theorem Passes.close (h : Passes key (true :: outer) w) {closing : UInt8}
    (hclosing : closing = ch '\x7d' ∨ closing = ch ']') :
    Passes key outer (w.emit [closing]).popScope := by
  obtain ⟨flag, hflag, hsearch⟩ := h.search
  refine ⟨⟨true, ?_, fun rest hrest => ?_⟩⟩
  · show w.needsComma.tail = _
    rw [hflag, List.tail_cons]
  · show findQuoted _ 0 (w.out ++ [closing] ++ rest) = _
    rw [List.append_assoc, List.singleton_append,
      hsearch _ fun _ => ⟨closing, rest, rfl, .inr hclosing⟩, findQuoted_byte]
    rcases hclosing with rfl | rfl
    all_goals decide

/-- The root object. -/
theorem Passes.root (key : Bytes) : Passes key [] (JsonWriter.beginObject {}) := by
  have hbrace : ch '\x7b' ≠ ch '"' := by decide
  exact .opened (w := {}) ⟨rfl, fun _ => rfl⟩ hbrace

section Fields

variable (hkey : WordKey key)
include hkey

theorem Passes.stringField (h : Passes key outer w) (name value : Bytes)
    (hname : Other key name := by decide) : Passes key outer (w.stringField name value) :=
  h.member hkey hname fun _ hrest => findQuoted_value hkey value hrest

theorem Passes.clampedField (h : Passes key outer w) (name value : Bytes) (limit : Nat)
    (hname : Other key name := by decide) : Passes key outer (w.clampedField name value limit) :=
  h.stringField hkey name _ hname

theorem Passes.optionalField (h : Passes key outer w) (name value : Bytes) (limit : Nat)
    (hname : Other key name := by decide) : Passes key outer (w.optionalField name value limit) := by
  unfold JsonWriter.optionalField
  split
  · exact h
  · exact h.clampedField hkey name value limit hname

/-- A value that is no string. -/
theorem Passes.bare (h : Passes key outer w) (name : Bytes) (htext : ch '"' ∉ text)
    (hname : Other key name := by decide) : Passes key outer ((w.namePrefix name).emit text) :=
  h.member hkey hname fun _ _ => findQuoted_gap htext

/-- The names of `common_context`, and those around a trail of breadcrumbs. -/
def contextNames : List Bytes :=
  [lit "occurredAtIso", lit "buildVersion", lit "os", lit "arch"]

def trailNames : List Bytes := [lit "breadcrumbs", lit "tsIso", lit "level", lit "message"]

theorem Passes.commonContext (h : Passes key outer w) (hnames : ∀ name ∈ contextNames, Other key name)
    (occurredAtIso buildVersion os arch : Bytes) :
    Passes key outer (w.commonContext occurredAtIso buildVersion os arch) := by
  have h := h.stringField hkey (lit "occurredAtIso") occurredAtIso (hnames _ (by decide))
  have h := h.clampedField hkey (lit "buildVersion") buildVersion limits.buildVersion
    (hnames _ (by decide))
  have h := h.stringField hkey (lit "os") os (hnames _ (by decide))
  exact h.stringField hkey (lit "arch") arch (hnames _ (by decide))

/-- **A crumb** is an object of strings. -/
theorem Passes.crumbElement (h : Passes key outer w) (hnames : ∀ name ∈ trailNames, Other key name)
    (crumb : Breadcrumb) : Passes key outer (w.crumbElement crumb) := by
  have hopened : Passes key (true :: outer) w.beginObject := .opened h.lead (by decide)
  have hstamped : Passes key (true :: outer) (if crumb.tsIso.isEmpty then w.beginObject
      else w.beginObject.stringField (lit "tsIso") crumb.tsIso) := by
    split
    · exact hopened
    · exact hopened.stringField hkey (lit "tsIso") crumb.tsIso (hnames _ (by decide))
  have hlevel := hstamped.clampedField hkey (lit "level") crumb.level BreadcrumbRing.maxLevelBytes
    (hnames _ (by decide))
  have hmessage := hlevel.clampedField hkey (lit "message") crumb.message
    BreadcrumbRing.maxMessageBytes (hnames _ (by decide))
  exact hmessage.close (.inl rfl)

theorem Passes.crumbElements (hnames : ∀ name ∈ trailNames, Other key name)
    (breadcrumbs : List Breadcrumb) (h : Passes key outer w) :
    Passes key outer (breadcrumbs.foldl JsonWriter.crumbElement w) := by
  induction breadcrumbs generalizing w with
  | nil => exact h
  | cons crumb crumbs ih => exact ih (h.crumbElement hkey hnames crumb)

theorem Passes.breadcrumbsField (h : Passes key outer w)
    (hnames : ∀ name ∈ trailNames, Other key name) (breadcrumbs : List Breadcrumb) :
    Passes key outer (w.breadcrumbsField breadcrumbs) := by
  unfold JsonWriter.breadcrumbsField
  split
  · exact h
  · have hopened : Passes key (true :: outer) (w.beginArray (lit "breadcrumbs")) :=
      .opened (h.named hkey (hnames _ (by decide))) (by decide)
    exact (hopened.crumbElements hkey hnames breadcrumbs).close (.inr rfl)

end Fields

/-! ## The writer only appends -/

/-- What was written is in front of what is written now. -/
def Extends (w w' : JsonWriter) : Prop := w.out <+: w'.out

theorem Extends.refl (w : JsonWriter) : Extends w w := List.prefix_rfl

theorem Extends.trans {w'' : JsonWriter} (h : Extends w w') (h' : Extends w' w'') : Extends w w'' :=
  List.IsPrefix.trans h h'

theorem Extends.emit (h : Extends w w') (text : Bytes) : Extends w (w'.emit text) :=
  h.trans (List.prefix_append ..)

theorem Extends.elementPrefix (h : Extends w w') : Extends w w'.elementPrefix := by
  refine h.trans ?_
  unfold JsonWriter.elementPrefix Extends
  split
  · exact List.prefix_rfl
  · dsimp only
    split
    · exact List.prefix_append ..
    · exact List.prefix_rfl

theorem Extends.field (h : Extends w w') (name text : Bytes) :
    Extends w ((w'.namePrefix name).emit text) := (h.elementPrefix.emit _).emit text

theorem Extends.optionalField (h : Extends w w') (name value : Bytes) (limit : Nat) :
    Extends w (w'.optionalField name value limit) := by
  unfold JsonWriter.optionalField
  split
  · exact h
  · exact h.field name _

theorem Extends.optionalIntField (h : Extends w w') (name : Bytes) (value : Int) :
    Extends w (w'.optionalIntField name value) := by
  unfold JsonWriter.optionalIntField
  split
  · exact h.field name _
  · exact h

theorem Extends.optionalNumberField (h : Extends w w') (printed : Double → Bytes) (name : Bytes)
    (value : Double) : Extends w (w'.optionalNumberField printed name value) := by
  unfold JsonWriter.optionalNumberField
  split
  · exact h.field name _
  · exact h

theorem fullscreen_extends (w : JsonWriter) (fullscreen : Bool) :
    Extends w (if fullscreen then w.boolField (lit "fullscreen") true else w) := by
  cases fullscreen with
  | true => exact (Extends.refl w).field _ _
  | false => exact .refl w

theorem Extends.correlationFields (h : Extends w w') (role serverId matchId sessionId : Bytes) :
    Extends w (w'.correlationFields role serverId matchId sessionId) := by
  have h := h.optionalField (lit "role") role limits.role
  have h := h.optionalField (lit "serverId") serverId limits.serverId
  have h := h.optionalField (lit "matchId") matchId limits.matchId
  exact h.optionalField (lit "sessionId") sessionId limits.sessionId

theorem Extends.crumbElement (h : Extends w w') (crumb : Breadcrumb) :
    Extends w (w'.crumbElement crumb) := by
  have hopened : Extends w w'.beginObject := h.elementPrefix.emit _
  have hstamped : Extends w (if crumb.tsIso.isEmpty then w'.beginObject
      else w'.beginObject.stringField (lit "tsIso") crumb.tsIso) := by
    split
    · exact hopened
    · exact hopened.field _ _
  exact ((hstamped.field (lit "level") _).field (lit "message") _).emit _

theorem Extends.breadcrumbsField (h : Extends w w') (breadcrumbs : List Breadcrumb) :
    Extends w (w'.breadcrumbsField breadcrumbs) := by
  have hcrumbs : ∀ (breadcrumbs : List Breadcrumb) (w' : JsonWriter), Extends w w' →
      Extends w (breadcrumbs.foldl JsonWriter.crumbElement w') := by
    intro breadcrumbs
    induction breadcrumbs with
    | nil => exact fun _ h => h
    | cons crumb crumbs ih => exact fun _ h => ih _ (h.crumbElement crumb)
  unfold JsonWriter.breadcrumbsField
  split
  · exact h
  · have hopened : Extends w (w'.beginArray (lit "breadcrumbs")) := h.field (lit "breadcrumbs") _
    exact (hcrumbs breadcrumbs _ hopened).emit _

theorem Extends.attributeFields (h : Extends w w') (written : Nat) (attributes : List (Bytes × Bytes)) :
    Extends w (w'.attributeFields written attributes) := by
  induction attributes generalizing w' written with
  | nil => exact h
  | cons pair attributes ih =>
    obtain ⟨key, value⟩ := pair
    rw [JsonWriter.attributeFields]
    split
    · exact h
    · split
      · exact ih h written
      · exact ih (h.field _ _) (written + 1)

theorem Extends.deviceObject (h : Extends w w') (printed : Double → Bytes) (d : DevicePayload) :
    Extends w (w'.deviceObject printed d) := by
  unfold JsonWriter.deviceObject
  cases deviceHasContent d with
  | false => exact h
  | true =>
    have h : Extends w (w'.beginObjectField (lit "device")) := h.field (lit "device") _
    have h := h.optionalField (lit "model") d.model limits.deviceModel
    have h := h.optionalField (lit "type") d.type limits.deviceType
    have h := h.optionalField (lit "os") d.os limits.deviceOs
    have h := h.optionalField (lit "osFamily") d.osFamily limits.deviceOsFamily
    have h := h.optionalField (lit "cpu") d.cpu limits.deviceCpu
    have h := h.optionalIntField (lit "cpuCount") d.cpuCount
    have h := h.optionalIntField (lit "ramMB") d.ramMb
    have h := h.optionalField (lit "gpu") d.gpu limits.deviceGpu
    have h := h.optionalField (lit "gpuVendor") d.gpuVendor limits.deviceGpuVendor
    have h := h.optionalField (lit "gpuVersion") d.gpuVersion limits.deviceGpuVersion
    have h := h.optionalField (lit "gpuApi") d.gpuApi limits.deviceGpuApi
    have h := h.optionalIntField (lit "vramMB") d.vramMb
    have h := h.optionalField (lit "screen") d.screen limits.deviceScreen
    have h := h.optionalNumberField printed (lit "screenDpi") d.screenDpi
    have h := h.optionalNumberField printed (lit "refreshRate") d.refreshRate
    have h := h.optionalField (lit "orientation") d.orientation limits.deviceOrientation
    have h := h.trans (fullscreen_extends _ d.fullscreen)
    have h := h.optionalField (lit "language") d.language limits.deviceLanguage
    have h := h.optionalField (lit "engine") d.engine limits.deviceEngine
    have h := h.optionalField (lit "scriptingBackend") d.scriptingBackend
      limits.deviceScriptingBackend
    have h := h.optionalField (lit "platform") d.platform limits.devicePlatform
    exact h.emit _

/-! ## The field -/

/-- A search finds the member of the key, whose value starts with `text`. -/
def Holds (key text : Bytes) (w : JsonWriter) : Prop :=
  ∃ lead, (∀ rest, findQuoted (needle key) 0 (lead ++ rest) = findQuoted (needle key) 0 rest) ∧
    lead ++ needle key ++ ch ':' :: text <+: w.out

theorem Holds.extended (h : Holds key text w) (hext : Extends w w') : Holds key text w' := by
  obtain ⟨lead, hsearch, hlead⟩ := h
  exact ⟨lead, hsearch, hlead.trans hext⟩

/-- **The member of the key is written.** -/
theorem Passes.write (h : Passes key outer w) (hkey : jsonEscape key = key) (text : Bytes) :
    Holds key text ((w.namePrefix key).emit text) := by
  refine ⟨w.elementPrefix.out, h.lead.2, ?_⟩
  have htext : ((w.namePrefix key).emit text).out =
      w.elementPrefix.out ++ needle key ++ ch ':' :: text := by
    simp [JsonWriter.namePrefix, JsonWriter.emit, needle, hkey]
  exact ⟨[], by rw [List.append_nil, htext]⟩

/-- **And it is found.** -/
theorem Holds.find (h : Holds key text w) :
    ∃ tail, findValueStart w.out key = some (skipSpace (text ++ tail)) := by
  obtain ⟨lead, hsearch, tail, htail⟩ := h
  refine ⟨tail, ?_⟩
  have hout : w.out = lead ++ (needle key ++ ch ':' :: (text ++ tail)) := by
    rw [← htail]
    simp
  show findQuoted (needle key) 0 w.out = _
  rw [hout, hsearch]
  exact findQuoted_hit rfl

theorem Holds.string (h : Holds key (quote value) w) : findStringField w.out key = some value := by
  obtain ⟨tail, htail⟩ := h.find
  have hspace : skipSpace (quote value ++ tail) = quote value ++ tail := rfl
  rw [findStringField, htail, hspace, Option.bind_some, readString_quote]
  rfl

theorem Holds.bool {b : Bool} (h : Holds key (if b then lit "true" else lit "false") w) :
    findBoolField w.out key = some b := by
  obtain ⟨tail, htail⟩ := h.find
  rw [findBoolField, htail, Option.bind_some]
  cases b with
  | true => rfl
  | false => rfl

end Tombstone.FieldSearch
