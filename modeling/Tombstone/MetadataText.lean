import Tombstone.JsonFields
import Tombstone.Session

/- The canonical text of a metadata map.

   The text is that of an object with the entries as its members, which reads back whatever the bytes
   are. So maps with the same text are the same, and a beat carries the map exactly where it is not
   the one last acked. -/
namespace Tombstone
open JsonFields

/-- The keys and the values are within the limits of the wire. -/
def WithinLimits (entries : UserMetadataEntries) : Prop :=
  ∀ e ∈ entries, e.1.length ≤ limits.userMetadataKey ∧ e.2.length ≤ limits.userMetadataValue

/-- The members of the object that is written. -/
def metadataMembers (entries : UserMetadataEntries) : List (Bytes × Json) :=
  entries.map fun e =>
    (utf8SafeTruncate e.1 limits.userMetadataKey, .str (utf8SafeTruncate e.2 limits.userMetadataValue))

theorem metadataFields_members {base w : JsonWriter} {rows : Json.Rows} (h : InMembers base rows w)
    (entries : UserMetadataEntries) :
    InMembers base (rows ++ (metadataMembers entries).map fun m => (m.1, some m.2))
      (entries.foldl (fun (w : JsonWriter) entry =>
        w.stringField (utf8SafeTruncate entry.1 limits.userMetadataKey)
          (utf8SafeTruncate entry.2 limits.userMetadataValue)) w) := by
  induction entries generalizing rows w with
  | nil =>
    rw [metadataMembers, List.map_nil, List.map_nil, List.append_nil]
    exact h
  | cons entry entries ih =>
    have hone := h.row (utf8SafeTruncate entry.1 limits.userMetadataKey)
      (.str (utf8SafeTruncate entry.2 limits.userMetadataValue))
    rw [← stringField_eq] at hone
    have hmore := ih hone
    rw [List.append_assoc] at hmore
    exact hmore

/-- **The text is that of an object**, for any bytes. -/
theorem buildUserMetadataJson_render (entries : UserMetadataEntries) :
    buildUserMetadataJson entries = Json.render escaping (.obj (metadataMembers entries)) := by
  have hopened : InMembers {} [] (JsonWriter.beginObject {}) := .opened _ {}
  have hclose := (metadataFields_members hopened entries).close
  have hpresent : Json.present ([] ++ (metadataMembers entries).map fun m => (m.1, some m.2)) =
      metadataMembers entries := by
    rw [List.nil_append, Json.present, List.filterMap_map]
    exact List.filterMap_some
  rw [hpresent] at hclose
  exact congrArg JsonWriter.out hclose

theorem metadataMembers_numeric (entries : UserMetadataEntries) :
    (Json.obj (metadataMembers entries)).Numeric := by
  refine .obj fun m hm => ?_
  obtain ⟨e, -, rfl⟩ := List.mem_map.mp hm
  exact .str _

/-- Within the limits nothing is cut, so the members are the entries. -/
theorem metadataMembers_injective {a b : UserMetadataEntries} (ha : WithinLimits a) (hb : WithinLimits b)
    (h : metadataMembers a = metadataMembers b) : a = b := by
  have huncut : ∀ {l : UserMetadataEntries}, WithinLimits l →
      metadataMembers l = l.map fun e => (e.1, Json.str e.2) := by
    intro l hl
    apply List.map_congr_left
    intro e he
    rw [utf8SafeTruncate_of_le (hl e he).1, utf8SafeTruncate_of_le (hl e he).2]
  rw [huncut ha, huncut hb] at h
  refine List.map_injective_iff.mpr ?_ h
  intro e f hef
  obtain ⟨hkey, hvalue⟩ := Prod.mk.inj hef
  exact Prod.ext hkey (Json.str.inj hvalue)

/-- The change detection of the heartbeat: a beat carries the map just where its text differs. -/
theorem Session.Metadata.changed_eq_nil (m : Session.Metadata) :
    m.changed = [] ↔ buildUserMetadataJson m.userMetadata = m.lastAckedJson := by
  unfold Session.Metadata.changed
  by_cases h : buildUserMetadataJson m.userMetadata = m.lastAckedJson
  · simp [h]
  · simp [h, buildUserMetadataJson_ne_nil]

/-- **The text identifies the map**: two maps have the same text just where they are the same, only
the empty map has the text of an empty object, and against the text of an acked map no change is
missed and none is made up. -/
theorem buildUserMetadataJson_identifies (a b : UserMetadataEntries) (ha : WithinLimits a) (hb : WithinLimits b) :
    (buildUserMetadataJson a = buildUserMetadataJson b ↔ a = b) ∧
      (buildUserMetadataJson a = lit "\x7b\x7d" ↔ a = []) ∧
      ∀ m : Session.Metadata, m.userMetadata = a → m.lastAckedJson = buildUserMetadataJson b →
        (m.changed = [] ↔ a = b) := by
  have hsame : ∀ {c : UserMetadataEntries}, WithinLimits c →
      (buildUserMetadataJson a = buildUserMetadataJson c ↔ a = c) := by
    intro c hc
    constructor
    · intro htext
      rw [buildUserMetadataJson_render, buildUserMetadataJson_render] at htext
      have hread := congrArg Json.parse htext
      rw [Json.parse_render (metadataMembers_numeric a), Json.parse_render (metadataMembers_numeric c)] at hread
      exact metadataMembers_injective ha hc (Json.obj.inj (Option.some.inj hread))
    · intro heq
      rw [heq]
  have hnone : WithinLimits [] := fun e he => absurd he List.not_mem_nil
  refine ⟨hsame hb, ?_, fun m hmap hacked => ?_⟩
  · rw [← buildUserMetadataJson_nil]
    exact hsame hnone
  · rw [m.changed_eq_nil, hmap, hacked]
    exact hsame hb

/-- Two maps that only their quotes tell apart. -/
theorem buildUserMetadataJson_identifies_quotes :
    buildUserMetadataJson [(lit "a", lit "b\",\"c\":\"d")] ≠
      buildUserMetadataJson [(lit "a", lit "b"), (lit "c", lit "d")] := by
  intro h
  have heq := (buildUserMetadataJson_identifies _ _ (fun e he => ?_) (fun e he => ?_)).1.mp h
  · exact absurd heq (by decide)
  · revert e
    decide
  · revert e
    decide

end Tombstone
