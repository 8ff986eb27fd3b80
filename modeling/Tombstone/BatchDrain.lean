import Tombstone.Batch
import Tombstone.GreedySplit
import Tombstone.JsonFields

/- What a drain of a batch puts into its envelopes (`batch.cpp`).

   `drain_locked` counts bytes instead of building the text: it starts from the empty envelope
   and adds each item with the comma in front of it. That count is the length of the envelope
   with these items at every turn of its loop, so an envelope ends just where the next item
   would no longer fit (`drainLoop_spec`). -/
namespace Tombstone.Batch

/-! ## The text of an envelope -/

/-- `build_batch_envelope` by its text: the items as they are, with commas between them. -/
def envelopeText (sentAtIso : Bytes) (texts : List Bytes) : Bytes :=
  lit "\x7b\"sentAtIso\":\"" ++ jsonEscape sentAtIso ++ lit "\",\"items\":[" ++ Json.commas texts ++
    lit "]\x7d"

theorem inScope_rawElements {base : JsonWriter} (items : List Bytes) (texts : List Bytes) (w : JsonWriter)
    (h : JsonFields.InScope (ch '[') base texts w) :
    JsonFields.InScope (ch '[') base (texts ++ items) (items.foldl JsonWriter.rawElement w) := by
  induction items generalizing texts w with
  | nil =>
    rw [List.append_nil]
    exact h
  | cons item items ih =>
    have hnext := ih (texts ++ [item]) (w.rawElement item) (h.next item)
    rw [List.append_assoc, List.singleton_append] at hnext
    exact hnext

theorem buildBatchEnvelope_eq (sentAtIso : Bytes) (items : List Bytes) :
    buildBatchEnvelope sentAtIso items = envelopeText sentAtIso items := by
  have hscope := inScope_rawElements items [] _
    (.opened (ch '[') (((JsonWriter.beginObject {}).stringField (lit "sentAtIso") sentAtIso).namePrefix
      (lit "items")))
  have hclose := hscope.close (ch ']')
  have htext : buildBatchEnvelope sentAtIso items =
      ((((JsonWriter.beginObject {}).stringField (lit "sentAtIso") sentAtIso).namePrefix
        (lit "items")).emit (ch '[' :: Json.commas items ++ [ch ']'])).out ++ [ch '\x7d'] :=
    congrArg (fun w : JsonWriter => w.endObject.out) hclose
  have hopening : lit "\x7b\"sentAtIso\":\"" =
      ch '\x7b' :: ([ch '"'] ++ jsonEscape (lit "sentAtIso") ++ [ch '"', ch ':'] ++ [ch '"']) := by decide
  have hmiddle : lit "\",\"items\":[" =
      [ch '"'] ++ ch ',' :: ([ch '"'] ++ jsonEscape (lit "items") ++ [ch '"', ch ':'] ++ [ch '[']) := by
    decide
  have hclosing : lit "]\x7d" = [ch ']', ch '\x7d'] := by decide
  rw [htext, envelopeText, hopening, hmiddle, hclosing]
  simp [JsonWriter.stringField, JsonWriter.namePrefix, JsonWriter.emit, JsonWriter.beginObject,
    JsonWriter.pushScope, JsonWriter.elementPrefix]

/-- **One more item** adds its bytes, and a comma where another item is in front of it. -/
theorem length_envelopeText_concat (sentAtIso : Bytes) (drained : List Item) (item : Item) :
    (envelopeText sentAtIso ((drained ++ [item]).map Item.text)).length =
      (envelopeText sentAtIso (drained.map Item.text)).length + nextBytes drained item := by
  rw [List.map_append, List.map_singleton, envelopeText, envelopeText, Json.commas_concat, nextBytes]
  cases drained with
  | nil =>
    simp only [List.map_nil, List.isEmpty_nil, if_true, List.length_append, List.append_nil]
    omega
  | cons first drained =>
    simp only [List.map_cons, List.isEmpty_cons, reduceCtorEq, if_false, List.length_append,
      List.length_singleton, Bool.false_eq_true]
    omega

/-! ## One envelope -/

/-- The items fit into one envelope. -/
def Fits (sentAtIso : Bytes) (items : List Item) : Prop :=
  (envelopeText sentAtIso (items.map Item.text)).length ≤ maxBatchBytes

/-- **The loop of `drain_locked`**, from a count that is the size of the envelope: what it takes
fits or is a single item, and the next item would not have fitted. -/
theorem drainLoop_spec (sentAtIso : Bytes) (items drained : List Item) (bytes : Nat)
    (hbytes : bytes = (envelopeText sentAtIso (drained.map Item.text)).length)
    (hroom : drained ≠ [] → bytes < maxBatchBytes) (hsome : drained ++ items ≠ []) :
    let r := drainLoop bytes drained items
    (Fits sentAtIso r.1 ∨ ∃ item, r.1 = [item]) ∧ ∀ item ∈ r.2.head?, ¬ Fits sentAtIso (r.1 ++ [item]) := by
  induction items generalizing drained bytes with
  | nil =>
    rw [List.append_nil] at hsome
    have hfits : Fits sentAtIso drained := by
      have := hroom hsome
      unfold Fits
      omega
    exact ⟨.inl hfits, nofun⟩
  | cons item rest ih =>
    have hnext := length_envelopeText_concat sentAtIso drained item
    rw [← hbytes] at hnext
    by_cases hfull : drained ≠ [] ∧ maxBatchBytes < bytes + nextBytes drained item
    · -- the item stays for the next envelope
      have hresult : drainLoop bytes drained (item :: rest) = (drained, item :: rest) := by
        rw [drainLoop, if_pos]
        simp [hfull.1, hfull.2]
      have hfits : Fits sentAtIso drained := by
        have := hroom hfull.1
        unfold Fits
        omega
      have hover : ¬ Fits sentAtIso (drained ++ [item]) := by
        have := hfull.2
        unfold Fits
        omega
      rw [hresult]
      refine ⟨.inl hfits, fun next hitem => ?_⟩
      obtain rfl : item = next := Option.some.inj hitem
      exact hover
    · have hskip : ¬ ((!drained.isEmpty && decide (maxBatchBytes < bytes + nextBytes drained item)) = true) := by
        simpa using hfull
      by_cases hlast : maxBatchBytes ≤ bytes + nextBytes drained item
      · -- the item is the last of this envelope
        have hresult : drainLoop bytes drained (item :: rest) = (drained ++ [item], rest) := by
          rw [drainLoop, if_neg hskip, if_pos hlast]
        have hfits : drained ≠ [] → Fits sentAtIso (drained ++ [item]) := by
          intro hne
          have : ¬ maxBatchBytes < bytes + nextBytes drained item := fun h => hfull ⟨hne, h⟩
          unfold Fits
          omega
        have hover : ∀ next, ¬ Fits sentAtIso (drained ++ [item] ++ [next]) := by
          intro next
          have hmore := length_envelopeText_concat sentAtIso (drained ++ [item]) next
          have hcomma : 1 ≤ nextBytes (drained ++ [item]) next := by simp [nextBytes]
          unfold Fits
          omega
        rw [hresult]
        refine ⟨?_, fun next _ => hover next⟩
        by_cases hne : drained = []
        · exact .inr ⟨item, by rw [hne, List.nil_append]⟩
        · exact .inl (hfits hne)
      · have hresult : drainLoop bytes drained (item :: rest) =
            drainLoop (bytes + nextBytes drained item) (drained ++ [item]) rest := by
          rw [drainLoop, if_neg hskip, if_neg hlast]
        rw [hresult]
        exact ih (drained ++ [item]) (bytes + nextBytes drained item) hnext.symm
          (fun _ => Nat.lt_of_not_le hlast) (by simp)

theorem drainLocked_spec (sentAtIso : Bytes) {items : List Item} (hitems : items ≠ []) :
    let r := drainLocked sentAtIso items
    r.1.text = envelopeText sentAtIso (r.1.items.map Item.text) ∧
    (Fits sentAtIso r.1.items ∨ ∃ item, r.1.items = [item]) ∧
    ∀ item ∈ r.2.head?, ¬ Fits sentAtIso (r.1.items ++ [item]) := by
  have hspec := drainLoop_spec sentAtIso items [] _ rfl (fun h => absurd rfl h) hitems
  have hempty : (buildBatchEnvelope sentAtIso []).length =
      (envelopeText sentAtIso (([] : List Item).map Item.text)).length := by
    rw [buildBatchEnvelope_eq]
    rfl
  rw [← hempty] at hspec
  exact ⟨buildBatchEnvelope_eq sentAtIso _, hspec⟩

/-! ## The whole drain -/

/-- `while (!items_.empty()) envelopes.push_back(drain_locked(sent_at_iso));`, run to its end:
from a buffer to the envelopes and the buffer that is left. -/
inductive DrainRun (sentAtIso : Bytes) : List Item → List Envelope → List Item → Prop where
  | stop : DrainRun sentAtIso [] [] []
  | turn {items final : List Item} {envelopes : List Envelope} (hsome : items ≠ [])
      (hrest : DrainRun sentAtIso (drainLocked sentAtIso items).2 envelopes final) :
      DrainRun sentAtIso items ((drainLocked sentAtIso items).1 :: envelopes) final

variable {sentAtIso : Bytes} {items final : List Item} {envelopes : List Envelope}

/-- **The loop terminates**, and what it makes is `drainAll`. -/
theorem drainRun_drainAll (sentAtIso : Bytes) (fuel : Nat) (items : List Item)
    (hfuel : items.length ≤ fuel) : DrainRun sentAtIso items (drainAll sentAtIso fuel items) [] := by
  induction fuel generalizing items with
  | zero =>
    rw [List.eq_nil_of_length_eq_zero (Nat.le_zero.mp hfuel)]
    exact .stop
  | succ fuel ih =>
    cases items with
    | nil => exact .stop
    | cons item rest =>
      have hshrink := drainLocked_shrinks sentAtIso item rest
      rw [List.length_cons] at hfuel
      exact .turn (List.cons_ne_nil _ _) (ih _ (by omega))

theorem DrainRun.empty (h : DrainRun sentAtIso items envelopes final) : final = [] := by
  induction h with
  | stop => rfl
  | turn _ _ ih => exact ih

theorem DrainRun.unique {final' : List Item} {envelopes' : List Envelope}
    (h : DrainRun sentAtIso items envelopes final) (h' : DrainRun sentAtIso items envelopes' final') :
    envelopes = envelopes' := by
  induction h generalizing envelopes' with
  | stop =>
    cases h' with
    | stop => rfl
    | turn hsome _ => exact absurd rfl hsome
  | turn hsome _ ih =>
    cases h' with
    | stop => exact absurd rfl hsome
    | turn _ hrest => rw [ih hrest]

theorem DrainRun.split (h : DrainRun sentAtIso items envelopes final) :
    GreedySplit (Fits sentAtIso) items (envelopes.map Envelope.items) := by
  induction h with
  | stop => exact .nil
  | @turn items final envelopes hsome hrest ih =>
    obtain ⟨-, hfits, hgreedy⟩ := drainLocked_spec sentAtIso hsome
    have hne : (drainLocked sentAtIso items).1.items ≠ [] := by
      obtain ⟨item, rest, rfl⟩ := List.exists_cons_of_ne_nil hsome
      exact List.ne_nil_of_length_pos (drainLoop_takes_first _ item rest)
    have hcons := ih.cons hne hfits hgreedy
    rw [drainLocked_items] at hcons
    exact hcons

theorem DrainRun.texts (h : DrainRun sentAtIso items envelopes final) :
    ∀ e ∈ envelopes, e.text = envelopeText sentAtIso (e.items.map Item.text) := by
  induction h with
  | stop => exact nofun
  | turn hsome _ ih => exact List.forall_mem_cons.2 ⟨(drainLocked_spec sentAtIso hsome).1, ih⟩

/-- **Batch splitting loses, reorders and overfills nothing.** A ready drain terminates with the
buffer empty. Its envelopes carry the items verbatim, each once and in order; each fits or has a
single item that does not fit by itself; and none could have taken the first item of the next. -/
theorem drain_splits (b : Batch) (sentAtIso : Bytes) (now : Nat) (force : Bool)
    (hready : b.ready now force = true) :
    let r := b.drainEnvelopesIfReady sentAtIso now force
    DrainRun sentAtIso b.items r.2 [] ∧ r.1.items = [] ∧
    (∀ envelopes final, DrainRun sentAtIso b.items envelopes final → envelopes = r.2 ∧ final = []) ∧
    (∀ e ∈ r.2, e.text = envelopeText sentAtIso (e.items.map Item.text)) ∧
    GreedySplit (fun items => (envelopeText sentAtIso (items.map Item.text)).length ≤ 512 * 1024)
      b.items (r.2.map Envelope.items) := by
  have hrun := drainRun_drainAll sentAtIso b.items.length b.items (Nat.le_refl _)
  have hresult : b.drainEnvelopesIfReady sentAtIso now force =
      ({ b with items := [] }, drainAll sentAtIso b.items.length b.items) := if_pos hready
  rw [hresult]
  exact ⟨hrun, rfl, fun _ _ h => ⟨h.unique hrun, h.empty⟩, hrun.texts, hrun.split⟩

/-- An item of this many bytes. -/
def itemOf (length serial : Nat) : Item := ⟨List.replicate length (ch '7'), serial⟩

theorem nextBytes_itemOf (drained : List Item) (length serial : Nat) :
    nextBytes drained (itemOf length serial) = length + if drained.isEmpty then 0 else 1 := by
  rw [nextBytes, itemOf, List.length_replicate]

theorem drainLoop_takes {bytes n : Nat} {drained rest : List Item} {item : Item}
    (hn : nextBytes drained item = n) (hroom : bytes + n < maxBatchBytes) :
    drainLoop bytes drained (item :: rest) = drainLoop (bytes + n) (drained ++ [item]) rest := by
  have hfits : ¬ maxBatchBytes < bytes + n := hroom.not_gt
  simp only [drainLoop, hn, hfits, decide_false, Bool.and_false, Bool.false_eq_true, if_false,
    hroom.not_ge]

theorem drainLoop_leaves {bytes n : Nat} {first item : Item} {drained rest : List Item}
    (hn : nextBytes (first :: drained) item = n) (hover : maxBatchBytes < bytes + n) :
    drainLoop bytes (first :: drained) (item :: rest) = (first :: drained, item :: rest) := by
  simp only [drainLoop, hn, hover, decide_true, List.isEmpty_cons, Bool.not_false, Bool.and_self,
    if_true]

theorem drainLoop_exceeds {bytes n : Nat} {rest : List Item} {item : Item}
    (hn : nextBytes [] item = n) (hover : maxBatchBytes ≤ bytes + n) :
    drainLoop bytes [] (item :: rest) = ([item], rest) := by
  simp only [drainLoop, hn, hover, List.isEmpty_nil, Bool.not_true, Bool.false_and,
    Bool.false_eq_true, if_false, if_true, List.nil_append]

/-- Two items that fit together, one that fits nowhere, and one more. -/
def mixedBuffer : Batch :=
  { items := [itemOf 200000 0, itemOf 300000 1, itemOf 600000 2, itemOf 200000 3] }

/-- A buffer of more than one envelope is cut in front of the item that is too large, and behind it. -/
theorem drain_splits_mixed :
    (mixedBuffer.drainEnvelopesIfReady (lit "t") 0 true).2.map Envelope.items =
      [[itemOf 200000 0, itemOf 300000 1], [itemOf 600000 2], [itemOf 200000 3]] := by
  have hempty : (buildBatchEnvelope (lit "t") []).length = 28 := by decide
  have hturn : ∀ items drained rest groups, items ≠ [] → drainLoop 28 [] items = (drained, rest) →
      (∃ envelopes, DrainRun (lit "t") rest envelopes [] ∧ envelopes.map Envelope.items = groups) →
      ∃ envelopes, DrainRun (lit "t") items envelopes [] ∧
        envelopes.map Envelope.items = drained :: groups := by
    rintro items drained rest groups hsome hloop ⟨envelopes, hrun, rfl⟩
    have hlocked : drainLocked (lit "t") items =
        ({ text := buildBatchEnvelope (lit "t") (drained.map Item.text), items := drained }, rest) := by
      simp only [drainLocked, hempty, hloop]
    have hnext := DrainRun.turn hsome (by rwa [hlocked] : DrainRun (lit "t") _ envelopes [])
    rw [hlocked] at hnext
    exact ⟨_, hnext, rfl⟩
  have hfirst : drainLoop 28 [] mixedBuffer.items =
      ([itemOf 200000 0, itemOf 300000 1], [itemOf 600000 2, itemOf 200000 3]) := by
    rw [mixedBuffer, drainLoop_takes (nextBytes_itemOf ..) (by decide), List.nil_append,
      drainLoop_takes (nextBytes_itemOf ..) (by decide), List.singleton_append,
      drainLoop_leaves (nextBytes_itemOf ..) (by decide)]
  have hsecond : drainLoop 28 [] [itemOf 600000 2, itemOf 200000 3] =
      ([itemOf 600000 2], [itemOf 200000 3]) :=
    drainLoop_exceeds (nextBytes_itemOf ..) (by decide)
  have hthird : drainLoop 28 [] [itemOf 200000 3] = ([itemOf 200000 3], []) := by
    rw [drainLoop_takes (nextBytes_itemOf ..) (by decide), List.nil_append, drainLoop]
  have hsome : ∀ (item : Item) (rest : List Item), item :: rest ≠ [] := List.cons_ne_nil
  obtain ⟨envelopes, hrun, hitems⟩ := hturn _ _ _ _ (hsome _ _) hfirst
    (hturn _ _ _ _ (hsome _ _) hsecond (hturn _ _ _ _ (hsome _ _) hthird ⟨[], .stop, rfl⟩))
  obtain ⟨-, -, hunique, -⟩ := drain_splits mixedBuffer (lit "t") 0 true rfl
  rw [← (hunique envelopes [] hrun).1, hitems, List.map_nil]

end Tombstone.Batch
