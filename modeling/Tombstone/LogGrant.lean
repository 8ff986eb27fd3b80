import Tombstone.SpelledText

/- The log slot that an ingest response grants (`find_log_upload`).

   The response comes from outside, and a grant with a signed policy must not be taken for one
   without. This file

   1. proves of every response, whatever its bytes, that the loop over the signed fields ends
      (`formLoop_readFormFields`) and that a grant that is read is a plain PUT or a POST with a
      policy within the limits (`findLogUpload_sound`);
   2. says what is read from a well-formed response in terms of its values: the first members, at
      any depth, that the searches take for their own (`findLogUpload_laid`). -/
namespace Tombstone.LogGrant
open JsonScan StringTokens JsonText

/-! ## One turn of the loop -/

/-- The alphabet of the names. -/
def nameAlphabet : Bytes :=
  lit "abcdefghijklmnopqrstuvwxyzABCDEFGHIJKLMNOPQRSTUVWXYZ0123456789_.-"

/-- The name of a field that a policy may sign. -/
structure FieldName (name : Bytes) : Prop where
  nonempty : name ≠ []
  short : name.length ≤ 128
  notFile : name ≠ lit "file"
  bytes : ∀ c ∈ name, c ∈ nameAlphabet

/-- A list of signed fields within the limits. -/
structure Collected (fields : List (Bytes × Bytes)) : Prop where
  count : fields.length ≤ 32
  distinct : (fields.map Prod.fst).Nodup
  names : ∀ f ∈ fields, FieldName f.1
  values : ∀ f ∈ fields, f.2.length ≤ 16384

/-- A policy that can be posted. -/
structure SignedForm (fields : List (Bytes × Bytes)) : Prop extends Collected fields where
  nonempty : fields ≠ []

/-- Another field that may be added. -/
structure Acceptable (fields : List (Bytes × Bytes)) (f : Bytes × Bytes) : Prop where
  room : fields.length < 32
  fresh : f.1 ∉ fields.map Prod.fst
  name : FieldName f.1
  value : f.2.length ≤ 16384

/-- What one turn of the loop of `find_log_upload` does. -/
inductive FormTurn
  | refused
  | closed (fields : List (Bytes × Bytes))
  | more (fields : List (Bytes × Bytes)) (text : Bytes)

def formTurn (fields : List (Bytes × Bytes)) (text : Bytes) : FormTurn :=
  match readString (skipSpace text) with
  | none => .refused
  | some (name, rest) =>
    if name.isEmpty || decide (128 < name.length) || name == lit "file" || !name.all isFieldNameByte then
      .refused
    else match skipSpace rest with
      | [] => .refused
      | c :: cs =>
        if c ≠ ch ':' then .refused
        else match readString (skipSpace cs) with
          | none => .refused
          | some (value, rest) =>
            if decide (16384 < value.length) || decide (32 ≤ fields.length) ||
                fields.any (fun entry => entry.1 == name) then .refused
            else match skipSpace rest with
              | [] => .refused
              | d :: ds =>
                if d = ch '\x7d' then .closed (fields ++ [(name, value)])
                else if d = ch ',' then .more (fields ++ [(name, value)]) ds
                else .refused

/-- The loop itself, without a bound: each turn ends it or leads to the next one. -/
inductive FormLoop : List (Bytes × Bytes) → Bytes → Option (List (Bytes × Bytes)) → Prop
  | refused {fields : List (Bytes × Bytes)} {text : Bytes} :
      formTurn fields text = .refused → FormLoop fields text none
  | closed {fields out : List (Bytes × Bytes)} {text : Bytes} :
      formTurn fields text = .closed out → FormLoop fields text (some out)
  | more {fields fields' : List (Bytes × Bytes)} {text text' : Bytes}
      {result : Option (List (Bytes × Bytes))} : formTurn fields text = .more fields' text' →
      FormLoop fields' text' result → FormLoop fields text result

variable {fields out : List (Bytes × Bytes)} {f : Bytes × Bytes} {text rest n t p : Bytes} {budget : Nat}

theorem readFormFields_turn (budget : Nat) (fields : List (Bytes × Bytes)) (text : Bytes) :
    readFormFields (budget + 1) fields text =
      match formTurn fields text with
      | .refused => none
      | .closed out => some out
      | .more fields' text' => readFormFields budget fields' text' := by
  rw [readFormFields, formTurn]
  cases readString (skipSpace text) with
  | none => rfl
  | some r =>
    obtain ⟨name, rest⟩ := r
    simp only [Option.bind_eq_bind, Option.bind_some]
    split
    · rfl
    · cases skipSpace rest with
      | nil => rfl
      | cons c cs =>
        dsimp only
        split
        · rfl
        · cases readString (skipSpace cs) with
          | none => rfl
          | some r =>
            obtain ⟨value, rest⟩ := r
            simp only [Option.bind_some]
            split
            · rfl
            · cases skipSpace rest with
              | nil => rfl
              | cons d ds =>
                dsimp only
                split
                · rfl
                · split <;> rfl

theorem isFieldNameByte_iff (c : UInt8) : isFieldNameByte c = true ↔ c ∈ nameAlphabet := by
  have hcodes : nameAlphabet.map UInt8.toNat =
      List.range' 97 26 ++ List.range' 65 26 ++ List.range' 48 10 ++ [95, 46, 45] := by decide
  have hmem : c ∈ nameAlphabet ↔ c.toNat ∈ nameAlphabet.map UInt8.toNat :=
    (List.mem_map_of_injective fun _ _ => UInt8.toNat_inj.mp).symm
  have hbyte : ∀ d : UInt8, c = d ↔ c.toNat = d.toNat := fun d => UInt8.toNat_inj.symm
  rw [hmem, hcodes]
  simp only [isFieldNameByte, isDigit, Bool.or_eq_true, decide_eq_true_eq, beq_iff_eq, hbyte,
    UInt8.le_iff_toNat_le, List.mem_append, List.mem_range'_1, List.mem_cons, List.not_mem_nil]
  have hcode : (ch '_').toNat = 95 ∧ (ch '.').toNat = 46 ∧ (ch '-').toNat = 45 := by decide
  rw [hcode.1, hcode.2.1, hcode.2.2]
  simp only [UInt8.reduceToNat, or_false]
  constructor
  · intro h
    omega
  · intro h
    omega

theorem fieldName_iff (name : Bytes) :
    (name.isEmpty || decide (128 < name.length) || name == lit "file" || !name.all isFieldNameByte) = false ↔
      FieldName name := by
  have hbytes : name.all isFieldNameByte = true ↔ ∀ c ∈ name, c ∈ nameAlphabet := by
    simp only [List.all_eq_true, isFieldNameByte_iff]
  simp only [Bool.or_eq_false_iff, Bool.not_eq_false', hbytes, List.isEmpty_eq_false_iff,
    decide_eq_false_iff_not, Nat.not_lt, beq_eq_false_iff_ne]
  constructor
  · rintro ⟨⟨⟨hempty, hshort⟩, hfile⟩, hall⟩
    exact ⟨hempty, hshort, hfile, hall⟩
  · rintro ⟨hempty, hshort, hfile, hall⟩
    exact ⟨⟨⟨hempty, hshort⟩, hfile⟩, hall⟩

theorem fieldFits_iff (fields : List (Bytes × Bytes)) (name value : Bytes) :
    (decide (16384 < value.length) || decide (32 ≤ fields.length) ||
        fields.any (fun entry => entry.1 == name)) = false ↔
      value.length ≤ 16384 ∧ fields.length < 32 ∧ name ∉ fields.map Prod.fst := by
  simp only [Bool.or_eq_false_iff, decide_eq_false_iff_not, Nat.not_lt, Nat.not_le, List.any_eq_false,
    beq_iff_eq, List.mem_map, not_exists, not_and, and_assoc]

/-- The fields after a turn that does not refuse. -/
def FormTurn.added : FormTurn → Option (List (Bytes × Bytes))
  | .refused => none
  | .closed fields => some fields
  | .more fields _ => some fields

/-- **A turn that does not refuse adds one field that may be added.** -/
theorem formTurn_added (h : (formTurn fields text).added = some out) :
    ∃ f, Acceptable fields f ∧ out = fields ++ [f] := by
  unfold formTurn at h
  split at h
  · simp [FormTurn.added] at h
  · rename_i name rest _
    split at h
    · simp [FormTurn.added] at h
    · rename_i hname
      split at h
      · simp [FormTurn.added] at h
      · split at h
        · simp [FormTurn.added] at h
        · split at h
          · simp [FormTurn.added] at h
          · rename_i value rest' _
            split at h
            · simp [FormTurn.added] at h
            · rename_i hfits
              obtain ⟨hvalue, hroom, hfresh⟩ :=
                (fieldFits_iff fields name value).1 (Bool.eq_false_iff.2 hfits)
              refine ⟨(name, value),
                ⟨hroom, hfresh, (fieldName_iff name).1 (Bool.eq_false_iff.2 hname), hvalue⟩, ?_⟩
              split at h
              · simp [FormTurn.added] at h
              · split at h
                · exact (Option.some.inj h).symm
                · split at h
                  · exact (Option.some.inj h).symm
                  · simp [FormTurn.added] at h

theorem formTurn_closed (h : formTurn fields text = .closed out) :
    ∃ f, Acceptable fields f ∧ out = fields ++ [f] := formTurn_added (by rw [h]; rfl)

theorem formTurn_more (h : formTurn fields text = .more out rest) :
    ∃ f, Acceptable fields f ∧ out = fields ++ [f] := formTurn_added (by rw [h]; rfl)

theorem Collected.nil : Collected [] := ⟨by simp, by simp, by simp, by simp⟩

theorem collected_concat : Collected (fields ++ [f]) ↔ Collected fields ∧ Acceptable fields f := by
  constructor
  · rintro ⟨hcount, hdistinct, hnames, hvalues⟩
    rw [List.length_append, List.length_singleton] at hcount
    rw [List.map_append, List.map_singleton, List.nodup_append] at hdistinct
    obtain ⟨hold, -, hfresh⟩ := hdistinct
    obtain ⟨hname, hnew⟩ := List.forall_mem_append.1 hnames
    obtain ⟨hvalue, hfits⟩ := List.forall_mem_append.1 hvalues
    exact ⟨⟨by omega, hold, hname, hvalue⟩,
      ⟨by omega, fun h => hfresh _ h _ (List.mem_singleton_self _) rfl, hnew f (List.mem_singleton_self f),
        hfits f (List.mem_singleton_self f)⟩⟩
  · rintro ⟨⟨hcount, hdistinct, hnames, hvalues⟩, ⟨hroom, hfresh, hname, hvalue⟩⟩
    refine ⟨?_, ?_, ?_, ?_⟩
    · rw [List.length_append, List.length_singleton]
      omega
    · rw [List.map_append, List.map_singleton, List.nodup_append]
      refine ⟨hdistinct, by simp, fun a ha b hb hsame => hfresh ?_⟩
      rw [List.mem_singleton] at hb
      rwa [← hb, ← hsame]
    · exact List.forall_mem_append.2 ⟨hnames, by simpa using hname⟩
    · exact List.forall_mem_append.2 ⟨hvalues, by simpa using hvalue⟩

theorem Collected.left {more : List (Bytes × Bytes)} (h : Collected (fields ++ more)) : Collected fields := by
  have hcount := h.count
  have hdistinct := h.distinct
  rw [List.length_append] at hcount
  rw [List.map_append, List.nodup_append] at hdistinct
  exact ⟨by omega, hdistinct.1, (List.forall_mem_append.1 h.names).1, (List.forall_mem_append.1 h.values).1⟩

/-- At the thirty-third field every turn refuses. -/
theorem formTurn_full (h : 32 ≤ fields.length) (text : Bytes) : formTurn fields text = .refused := by
  cases hturn : formTurn fields text with
  | refused => rfl
  | closed out =>
    obtain ⟨f, hf, -⟩ := formTurn_closed hturn
    exact absurd hf.room (by omega)
  | more out text' =>
    obtain ⟨f, hf, -⟩ := formTurn_more hturn
    exact absurd hf.room (by omega)

/-- **The loop ends on every text**, within 33 turns. -/
theorem formLoop_readFormFields (budget : Nat) (fields : List (Bytes × Bytes)) (text : Bytes)
    (h : 33 ≤ fields.length + budget) : FormLoop fields text (readFormFields budget fields text) := by
  induction budget generalizing fields text with
  | zero => exact .refused (formTurn_full (by omega) text)
  | succ budget ih =>
    rw [readFormFields_turn]
    cases hturn : formTurn fields text with
    | refused => exact .refused hturn
    | closed out => exact .closed hturn
    | more fields' text' =>
      obtain ⟨f, -, rfl⟩ := formTurn_more hturn
      refine .more hturn (ih _ _ ?_)
      rw [List.length_append, List.length_singleton]
      omega

/-- **What the loop returns can be posted.** -/
theorem FormLoop.signedForm {result : Option (List (Bytes × Bytes))} (h : FormLoop fields text result)
    (hfields : Collected fields) (hout : result = some out) : SignedForm out := by
  induction h with
  | refused => cases hout
  | @closed fields out' text hturn =>
    obtain rfl := Option.some.inj hout
    obtain ⟨f, hf, rfl⟩ := formTurn_closed hturn
    exact ⟨collected_concat.2 ⟨hfields, hf⟩, by simp⟩
  | @more fields fields' text text' _ hturn _ ih =>
    obtain ⟨f, hf, rfl⟩ := formTurn_more hturn
    exact ih (collected_concat.2 ⟨hfields, hf⟩) hout

/-- A grant that may be used: a plain PUT, or a POST with its policy. -/
structure Sound (upload : LogUpload) : Prop where
  url : upload.url ≠ []
  policy : upload.method = lit "PUT" ∧ upload.fields = [] ∨
    upload.method = lit "POST" ∧ SignedForm upload.fields

/-- **A grant that is read from any bytes may be used.** -/
theorem findLogUpload_sound {body : Bytes} {upload : LogUpload} (h : findLogUpload body = some upload) :
    Sound upload := by
  unfold findLogUpload at h
  split at h
  · cases h
  · split at h
    · cases h
    · rename_i object _
      dsimp only at h
      split at h
      · cases h
      · rename_i hurl
        rw [List.isEmpty_iff] at hurl
        split at h
        · rename_i hput
          obtain rfl := Option.some.inj h
          exact ⟨hurl, .inl ⟨hput, rfl⟩⟩
        · split at h
          · cases h
          · rename_i hpost
            rw [not_not] at hpost
            split at h
            · cases h
            · rename_i form _
              obtain ⟨out, hread, rfl⟩ := Option.map_eq_some_iff.1 h
              have hloop := formLoop_readFormFields 33 [] (form.drop 1) (by simp)
              exact ⟨hurl, .inr ⟨hpost, hloop.signedForm .nil hread⟩⟩

/-! ## The span of an object -/

/-- Inside an object, the brace matcher takes this text with it. -/
def Spans (t : Bytes) : Prop := ∀ depth rest,
  objectSpan (depth + 1) false (t ++ rest) = (objectSpan (depth + 1) false rest).map (t ++ ·)

theorem Spans.append {t' : Bytes} (h : Spans t) (h' : Spans t') : Spans (t ++ t') := by
  intro depth rest
  rw [List.append_assoc, h, h', Option.map_map]
  simp [Function.comp_def]

theorem spans_byte {c : UInt8} (hc : c ≠ ch '"' ∧ c ≠ ch '\x7b' ∧ c ≠ ch '\x7d') : Spans [c] := by
  intro depth rest
  rw [List.singleton_append, objectSpan.eq_def]
  simp only [Bool.false_eq_true, if_false, if_neg hc.1, if_neg hc.2.1, if_neg hc.2.2]
  rfl

theorem spans_bare (h : ∀ c ∈ t, c ≠ ch '"' ∧ c ≠ ch '\x7b' ∧ c ≠ ch '\x7d') : Spans t := by
  induction t with
  | nil =>
    intro depth rest
    simp
  | cons c t ih =>
    obtain ⟨hc, hmore⟩ := List.forall_mem_cons.1 h
    exact (spans_byte hc).append (ih hmore)

theorem objectSpan_inside {c : UInt8} (hquote : c ≠ ch '"') (hbackslash : c ≠ ch '\\') (depth : Nat)
    (cs : Bytes) : objectSpan depth true (c :: cs) = (objectSpan depth true cs).map (c :: ·) := by
  have hopen : (c != ch '"') = true := bne_iff_ne.2 hquote
  rw [objectSpan.eq_def]
  simp only [if_true, if_neg hbackslash, hopen]

theorem objectSpan_insides {tail : Bytes} (h : ∀ c ∈ tail, c ≠ ch '"' ∧ c ≠ ch '\\') (depth : Nat)
    (cs : Bytes) : objectSpan depth true (tail ++ cs) = (objectSpan depth true cs).map (tail ++ ·) := by
  induction tail with
  | nil => simp
  | cons c tail ih =>
    obtain ⟨⟨hquote, hbackslash⟩, hmore⟩ := List.forall_mem_cons.1 h
    rw [List.cons_append, objectSpan_inside hquote hbackslash, ih hmore, Option.map_map]
    rfl

theorem objectSpan_escaped (depth : Nat) (e : UInt8) (es : Bytes) :
    objectSpan depth true (ch '\\' :: e :: es) =
      (objectSpan depth true es).map fun r => ch '\\' :: e :: r := by
  rw [objectSpan.eq_def]
  simp only [if_true]

/-- **The brace matcher leaves a string where it ends.** -/
theorem objectSpan_body {body : Bytes} (hbody : Body body) (depth : Nat) (rest : Bytes) :
    objectSpan depth true (body ++ ch '"' :: rest) =
      (objectSpan depth false rest).map fun r => body ++ ch '"' :: r := by
  induction hbody with
  | nil =>
    have hclose : (ch '"' != ch '"') = false := by decide
    have hbackslash : ¬ ch '"' = ch '\\' := by decide
    rw [List.nil_append, objectSpan.eq_def]
    simp only [if_true, if_neg hbackslash, hclose, List.nil_append]
  | plain hc _ ih =>
    obtain ⟨hquote, -, hbackslash⟩ := isPlain_iff.1 hc
    rw [List.cons_append, objectSpan_inside hquote hbackslash, ih, Option.map_map]
    rfl
  | short _ _ ih =>
    rw [List.cons_append, List.cons_append, objectSpan_escaped, ih, Option.map_map]
    rfl
  | @unit h₁ h₂ h₃ h₄ cs hhex _ ih =>
    have hdigits := objectSpan_insides
      (fun c hc => ⟨byte_ne (hhex c hc) (by decide), byte_ne (hhex c hc) (by decide)⟩) depth
      (cs ++ ch '"' :: rest)
    calc objectSpan depth true (ch '\\' :: ch 'u' :: ([h₁, h₂, h₃, h₄] ++ (cs ++ ch '"' :: rest)))
        = (objectSpan depth true ([h₁, h₂, h₃, h₄] ++ (cs ++ ch '"' :: rest))).map
            fun r => ch '\\' :: ch 'u' :: r := objectSpan_escaped ..
      _ = _ := by
        rw [hdigits, ih, Option.map_map, Option.map_map]
        rfl

theorem spans_quoted {body : Bytes} (hbody : Body body) : Spans (quoted body) := by
  intro depth rest
  have hstart : quoted body ++ rest = ch '"' :: (body ++ ch '"' :: rest) := by simp [quoted]
  rw [hstart, objectSpan.eq_def]
  simp only [Bool.false_eq_true, if_false, if_true]
  rw [objectSpan_body hbody, Option.map_map]
  congr 1
  funext r
  simp [quoted]

theorem spans_space (hs : Space t) : Spans t := by
  refine spans_bare fun c hc => ?_
  have hspace := hs c hc
  exact ⟨byte_ne hspace (by decide), byte_ne hspace (by decide), byte_ne hspace (by decide)⟩

theorem Spans.padded (h : Spans t) (hp : Padded t p) : Spans p := by
  obtain ⟨s, s', hs, hs', rfl⟩ := hp
  exact ((spans_space hs).append h).append (spans_space hs')

theorem objectSpan_open (depth : Nat) (cs : Bytes) :
    objectSpan depth false (ch '\x7b' :: cs) =
      (objectSpan (depth + 1) false cs).map (ch '\x7b' :: ·) := by
  have hquote : ¬ ch '\x7b' = ch '"' := by decide
  rw [objectSpan.eq_def]
  simp only [Bool.false_eq_true, if_false, if_neg hquote, if_true]

theorem objectSpan_close (depth : Nat) (cs : Bytes) :
    objectSpan (depth + 1) false (ch '\x7d' :: cs) =
      if depth = 0 then some [ch '\x7d'] else (objectSpan depth false cs).map (ch '\x7d' :: ·) := by
  have hquote : ¬ ch '\x7d' = ch '"' := by decide
  have hbrace : ¬ ch '\x7d' = ch '\x7b' := by decide
  rw [objectSpan.eq_def]
  simp only [Bool.false_eq_true, if_false, if_neg hquote, if_neg hbrace, if_true, Nat.add_sub_cancel]

theorem Spans.braced (h : Spans t) : Spans (ch '\x7b' :: t ++ [ch '\x7d']) := by
  intro depth rest
  have hstart : ch '\x7b' :: t ++ [ch '\x7d'] ++ rest = ch '\x7b' :: (t ++ ch '\x7d' :: rest) := by simp
  rw [hstart, objectSpan_open, h, objectSpan_close, if_neg (Nat.succ_ne_zero depth), Option.map_map,
    Option.map_map]
  congr 1
  funext r
  simp

/-- An object is cut out whole. -/
theorem Spans.object (h : Spans t) (rest : Bytes) :
    objectSpan 0 false (ch '\x7b' :: t ++ [ch '\x7d'] ++ rest) = some (ch '\x7b' :: t ++ [ch '\x7d']) := by
  have hstart : ch '\x7b' :: t ++ [ch '\x7d'] ++ rest = ch '\x7b' :: (t ++ ch '\x7d' :: rest) := by simp
  rw [hstart, objectSpan_open, h, objectSpan_close, if_pos rfl]
  rfl

theorem spans_bracketed (h : Spans t) : Spans (ch '[' :: t ++ [ch ']']) :=
  ((spans_byte (by decide)).append h).append (spans_byte (by decide))

/-- **The texts of values** are taken along. -/
theorem spans_laid {spell : Bytes → Bytes} {part : Part} (h : Laid spell part t) : Spans t := by
  have hcolon : Spans [ch ':'] := spans_byte (by decide)
  have hcomma : Spans [ch ','] := spans_byte (by decide)
  induction h with
  | null => exact spans_bare (forall_mem_bytes (by decide))
  | bool b =>
    cases b with
    | true => exact spans_bare (forall_mem_bytes (by decide))
    | false => exact spans_bare (forall_mem_bytes (by decide))
  | num hnumber =>
    refine spans_bare fun c hc => ?_
    have hbyte := hnumber.bytes c hc
    exact ⟨byte_ne hbyte (by decide), byte_ne hbyte (by decide), byte_ne hbyte (by decide)⟩
  | str hbody => exact spans_quoted hbody
  | emptyArr hs => exact spans_bracketed (spans_space hs)
  | arr _ ih => exact spans_bracketed ih
  | emptyObj hs => exact (spans_space hs).braced
  | obj _ ih => exact ih.braced
  | element _ hp ih => exact ih.padded hp
  | elements _ hp _ ih ihs => exact (ih.padded hp).append (hcomma.append ihs)
  | member hbody hn _ hp ih => exact ((spans_quoted hbody).padded hn).append (hcolon.append (ih.padded hp))
  | members hbody hn _ hp _ ih ihs =>
    exact ((spans_quoted hbody).padded hn).append
      (hcolon.append ((ih.padded hp).append (hcomma.append ihs)))

/-! ## What a well-formed response says -/

/-- What `read_string` makes of the bytes between two quotes. -/
def unescaped (body : Bytes) : Bytes := ((readChars (body ++ [ch '"'])).map Prod.fst).getD []

/-- A string's text, or the empty default. -/
def stringValue : Option Json → Bytes
  | some (.str body) => unescaped body
  | _ => []

/-- A member of a form: a string under its name. -/
def entryOf (m : Bytes × Json) : Option (Bytes × Bytes) :=
  match m.2 with
  | .str body => some (unescaped m.1, unescaped body)
  | _ => none

instance (name : Bytes) : Decidable (FieldName name) := decidable_of_iff _ (fieldName_iff name)

instance (fields : List (Bytes × Bytes)) : Decidable (Collected fields) :=
  decidable_of_iff (fields.length ≤ 32 ∧ (fields.map Prod.fst).Nodup ∧ (∀ f ∈ fields, FieldName f.1) ∧
      ∀ f ∈ fields, f.2.length ≤ 16384)
    ⟨fun h => ⟨h.1, h.2.1, h.2.2.1, h.2.2.2⟩, fun h => ⟨h.count, h.distinct, h.names, h.values⟩⟩

instance (fields : List (Bytes × Bytes)) : Decidable (SignedForm fields) :=
  decidable_of_iff (Collected fields ∧ fields ≠ [])
    ⟨fun h => ⟨h.1, h.2⟩, fun h => ⟨h.toCollected, h.nonempty⟩⟩

instance (fields : List (Bytes × Bytes)) (f : Bytes × Bytes) : Decidable (Acceptable fields f) :=
  decidable_of_iff (fields.length < 32 ∧ f.1 ∉ fields.map Prod.fst ∧ FieldName f.1 ∧ f.2.length ≤ 16384)
    ⟨fun h => ⟨h.1, h.2.1, h.2.2.1, h.2.2.2⟩, fun h => ⟨h.room, h.fresh, h.name, h.value⟩⟩

/-- The policy that an object of strings is, if it can be posted. -/
def formOf : Option Json → Option (List (Bytes × Bytes))
  | some (.obj ms) => (ms.mapM entryOf).filter fun fields => decide (SignedForm fields)
  | _ => none

theorem readString_quoted {body : Bytes} (hbody : Body body) (rest : Bytes) :
    readString (quoted body ++ rest) = some (unescaped body, rest) := by
  obtain ⟨v, hv⟩ := readChars_body hbody
  have hvalue : unescaped body = v := by simp [unescaped, hv []]
  have hstart : quoted body ++ rest = ch '"' :: (body ++ ch '"' :: rest) := by simp [quoted]
  rw [hstart, readString_open, hv, hvalue]

theorem readString_none {c : UInt8} (hc : c ≠ ch '"') (cs : Bytes) : readString (c :: cs) = none := by
  rw [readString, if_neg hc]

variable {spell : Bytes → Bytes} {key : Bytes} {j v : Json} {ms : List (Bytes × Json)}

/-- A value that is no string does not start with a quote. -/
theorem readString_other (ht : Laid id (.value j) t) (hother : ∀ body, j ≠ .str body) (rest : Bytes) :
    readString (t ++ rest) = none := by
  cases ht with
  | null => exact readString_none (by decide) _
  | bool b =>
    cases b with
    | true => exact readString_none (by decide) _
    | false => exact readString_none (by decide) _
  | @num literal hnumber =>
    obtain ⟨c, cs, rfl⟩ := List.exists_cons_of_ne_nil hnumber.ne_nil
    refine readString_none (fun hc => ?_) _
    exact not_quote_number hnumber (hc ▸ List.mem_cons_self)
  | str _ => exact absurd rfl (hother _)
  | emptyArr _ => exact readString_none (by decide) _
  | arr _ => exact readString_none (by decide) _
  | emptyObj _ => exact readString_none (by decide) _
  | obj _ => exact readString_none (by decide) _

/-- **A string field is that of the first member named.** -/
theorem findStringField_laid (hkey : WordKey key) (ht : Laid id (.value j) t) (htext : Padded t text) :
    (findStringField text key).getD [] = stringValue (firstNamed id key (allMembers j)) := by
  cases hfirst : firstNamed id key (allMembers j) with
  | none => simp [findStringField, ht.findValueStart_none hkey htext hfirst, stringValue]
  | some v =>
    obtain ⟨tv, back, hv, hfind, -⟩ := ht.findValueStart_some hkey htext hfirst
    rw [findStringField, hfind, Option.bind_some]
    by_cases hstr : ∃ body, v = .str body
    · obtain ⟨body, rfl⟩ := hstr
      cases hv with
      | str hbody =>
        have hread : readString (quoted body ++ back) = some (unescaped body, back) :=
          readString_quoted hbody back
        rw [id, hread]
        rfl
    · rw [readString_other hv fun body h => hstr ⟨body, h⟩]
      cases v with
      | str body => exact absurd ⟨body, rfl⟩ hstr
      | _ => rfl

/-- **An object field is the text of the first member named**, if that is an object. -/
theorem findObjectField_obj (hkey : WordKey key) (ht : Laid id (.value j) t) (htext : Padded t text)
    (hfirst : firstNamed id key (allMembers j) = some (.obj ms)) :
    ∃ tv, Laid id (.value (.obj ms)) tv ∧ findObjectField text key = some tv := by
  obtain ⟨tv, back, hv, hfind, -⟩ := ht.findValueStart_some hkey htext hfirst
  refine ⟨tv, hv, ?_⟩
  have hspan : ∃ inner, tv = ch '\x7b' :: inner ++ [ch '\x7d'] ∧ Spans inner := by
    cases hv with
    | emptyObj hs => exact ⟨_, rfl, spans_space hs⟩
    | obj hms => exact ⟨_, rfl, spans_laid hms⟩
  obtain ⟨inner, rfl, hinner⟩ := hspan
  have hobject := hinner.object back
  rw [findObjectField, hfind]
  simp only [List.cons_append] at hobject ⊢
  rw [if_pos trivial, hobject]

theorem findObjectField_other (hkey : WordKey key) (ht : Laid id (.value j) t) (htext : Padded t text)
    (hother : ∀ ms, firstNamed id key (allMembers j) ≠ some (.obj ms)) :
    findObjectField text key = none := by
  cases hfirst : firstNamed id key (allMembers j) with
  | none => simp [findObjectField, ht.findValueStart_none hkey htext hfirst]
  | some v =>
    obtain ⟨tv, back, hv, hfind, -⟩ := ht.findValueStart_some hkey htext hfirst
    have hhead : ∃ c cs, tv = c :: cs ∧ c ≠ ch '\x7b' := by
      cases hv with
      | null => exact ⟨_, _, rfl, by decide⟩
      | bool b =>
        cases b with
        | true => exact ⟨_, _, rfl, by decide⟩
        | false => exact ⟨_, _, rfl, by decide⟩
      | @num literal hnumber =>
        obtain ⟨c, cs, rfl⟩ := List.exists_cons_of_ne_nil hnumber.ne_nil
        refine ⟨c, cs, rfl, fun hc => ?_⟩
        have hbyte := hnumber.bytes c List.mem_cons_self
        rw [hc] at hbyte
        revert hbyte
        decide
      | str _ => exact ⟨_, _, rfl, by decide⟩
      | emptyArr _ => exact ⟨_, _, rfl, by decide⟩
      | arr _ => exact ⟨_, _, rfl, by decide⟩
      | emptyObj _ => exact absurd hfirst (hother _)
      | obj _ => exact absurd hfirst (hother _)
    obtain ⟨c, cs, rfl, hc⟩ := hhead
    rw [findObjectField, hfind]
    exact if_neg hc

/-! ## The form of a well-formed response -/

theorem members_cases {name : Bytes} (h : Laid spell (.members ((name, j) :: ms)) t) :
    ∃ n tj p, Body (spell name) ∧ Padded (quoted (spell name)) n ∧ Laid spell (.value j) tj ∧ Padded tj p ∧
      (ms = [] ∧ t = n ++ ch ':' :: p ∨
        ∃ ts, Laid spell (.members ms) ts ∧ t = n ++ ch ':' :: (p ++ ch ',' :: ts)) := by
  cases h with
  | member hbody hn hj hp => exact ⟨_, _, _, hbody, hn, hj, hp, .inl ⟨rfl, rfl⟩⟩
  | members hbody hn hj hp hms => exact ⟨_, _, _, hbody, hn, hj, hp, .inr ⟨_, hms, rfl⟩⟩

/-- White space in front of a token is skipped. -/
theorem readString_padded {body : Bytes} (hbody : Body body) (hn : Padded (quoted body) n) (rest : Bytes) :
    ∃ s, Space s ∧ readString (skipSpace (n ++ rest)) = some (unescaped body, s ++ rest) := by
  obtain ⟨s, s', hs, hs', rfl⟩ := hn
  refine ⟨s', hs', ?_⟩
  have hstart : skipSpace (quoted body ++ (s' ++ rest)) = quoted body ++ (s' ++ rest) :=
    skipSpace_self (by decide)
  rw [List.append_assoc, List.append_assoc, skipSpace_space hs, hstart, readString_quoted hbody]

theorem skipSpace_behind {s : Bytes} (hs : Space s) {c : UInt8} (hc : isSpace c = false) (cs : Bytes) :
    skipSpace (s ++ c :: cs) = c :: cs := by
  rw [skipSpace_space hs, skipSpace_self hc]

/-- The value of a member, as the loop reads it. -/
theorem readString_value (hj : Laid id (.value j) t) (hp : Padded t p) (rest : Bytes) :
    (∃ body s, j = .str body ∧ Space s ∧
        readString (skipSpace (p ++ rest)) = some (unescaped body, s ++ rest)) ∨
      (∀ body, j ≠ .str body) ∧ readString (skipSpace (p ++ rest)) = none := by
  by_cases hstr : ∃ body, j = .str body
  · obtain ⟨body, rfl⟩ := hstr
    cases hj with
    | str hbody =>
      obtain ⟨s, hs, hread⟩ := readString_padded hbody hp rest
      exact .inl ⟨body, s, rfl, hs, hread⟩
  · have hother : ∀ body, j ≠ .str body := fun body h => hstr ⟨body, h⟩
    refine .inr ⟨hother, ?_⟩
    obtain ⟨s, s', hs, hs', rfl⟩ := hp
    have hread := readString_other hj hother (s' ++ rest)
    obtain ⟨c, cs, rfl, hc⟩ := hj.head
    rw [List.append_assoc, List.append_assoc, skipSpace_space hs]
    rw [List.cons_append] at hread ⊢
    rw [skipSpace_self hc, hread]

/-- **One turn on a member of an object.** -/
theorem formTurn_member {name : Bytes} (hbody : Body name) (hn : Padded (quoted name) n)
    (hj : Laid id (.value j) t) (hp : Padded t p) {c : UInt8} (hc : isSpace c = false) (cs : Bytes) :
    formTurn fields (n ++ ch ':' :: (p ++ c :: cs)) =
      match entryOf (name, j) with
      | none => .refused
      | some f =>
        if Acceptable fields f then
          if c = ch '\x7d' then .closed (fields ++ [f])
          else if c = ch ',' then .more (fields ++ [f]) cs
          else .refused
        else .refused := by
  obtain ⟨s, hs, hname⟩ := readString_padded hbody hn (ch ':' :: (p ++ c :: cs))
  have hcolon := skipSpace_colon hs (p ++ c :: cs)
  have hself : ¬ ch ':' ≠ ch ':' := not_not.2 rfl
  rw [formTurn, hname]
  dsimp only
  rcases readString_value hj hp (c :: cs) with ⟨body, s', rfl, hs', hvalue⟩ | ⟨hother, hvalue⟩
  · have hentry : entryOf (name, .str body) = some (unescaped name, unescaped body) := rfl
    rw [hentry]
    dsimp only
    by_cases hfield : FieldName (unescaped name)
    · rw [(fieldName_iff _).2 hfield, if_neg (by decide), hcolon]
      simp only [if_neg hself, hvalue, skipSpace_behind hs' hc]
      by_cases hfits : (unescaped body).length ≤ 16384 ∧ fields.length < 32 ∧
          unescaped name ∉ fields.map Prod.fst
      · have hacceptable : Acceptable fields (unescaped name, unescaped body) :=
          ⟨hfits.2.1, hfits.2.2, hfield, hfits.1⟩
        rw [(fieldFits_iff fields _ _).2 hfits, if_neg (by decide), if_pos hacceptable]
      · have hrefused : ¬ Acceptable fields (unescaped name, unescaped body) := fun h =>
          hfits ⟨h.value, h.room, h.fresh⟩
        rw [eq_true_of_ne_false fun h => hfits ((fieldFits_iff fields _ _).1 h), if_pos rfl,
          if_neg hrefused]
    · have hrefused : ¬ Acceptable fields (unescaped name, unescaped body) := fun h => hfield h.name
      rw [eq_true_of_ne_false fun h => hfield ((fieldName_iff _).1 h), if_pos rfl, if_neg hrefused]
  · have hentry : entryOf (name, j) = none := by
      cases j with
      | str body => exact absurd rfl (hother body)
      | _ => rfl
    rw [hentry, hcolon]
    simp only [if_neg hself, hvalue]
    split <;> rfl

/-- **The loop on the members of an object**: all of them, if they can be posted. -/
theorem readFormFields_members (ht : Laid id (.members ms) t) (hbudget : fields.length + budget = 33)
    (hfields : Collected fields) (rest : Bytes) :
    readFormFields budget fields (t ++ ch '\x7d' :: rest) =
      (ms.mapM entryOf).bind fun more =>
        if Collected (fields ++ more) then some (fields ++ more) else none := by
  induction ms generalizing t fields budget with
  | nil => cases ht
  | cons m ms ih =>
    obtain ⟨name, j⟩ := m
    obtain ⟨n, tj, p, hbody, hn, hj, hp, hcase⟩ := members_cases ht
    have hcount := hfields.count
    obtain ⟨budget, rfl⟩ : ∃ b, budget = b + 1 := ⟨budget - 1, by omega⟩
    rw [id] at hbody hn
    rw [readFormFields_turn, List.mapM_cons]
    rcases hcase with ⟨rfl, rfl⟩ | ⟨ts, hts, rfl⟩
    · rw [List.append_assoc, List.cons_append, formTurn_member hbody hn hj hp (by decide)]
      cases hentry : entryOf (name, j) with
      | none => rfl
      | some f =>
        by_cases hf : Acceptable fields f
        · simp [hf, collected_concat, hfields]
        · simp [hf, collected_concat]
    · rw [List.append_assoc, List.cons_append, List.append_assoc, List.cons_append,
        formTurn_member hbody hn hj hp (by decide)]
      cases hentry : entryOf (name, j) with
      | none => rfl
      | some f =>
        have hcomma : ¬ ch ',' = ch '\x7d' := by decide
        have hmore : ∀ more, fields ++ f :: more = fields ++ [f] ++ more := by simp
        by_cases hf : Acceptable fields f
        · have hnext : readFormFields budget (fields ++ [f]) (ts ++ ch '\x7d' :: rest) = _ :=
            ih hts (by rw [List.length_append, List.length_singleton]; omega)
              (collected_concat.2 ⟨hfields, hf⟩)
          simp only [if_pos hf, if_neg hcomma, if_true, hnext]
          cases ms.mapM entryOf with
          | none => rfl
          | some more =>
            rw [Option.bind_some, ← hmore]
            rfl
        · -- no list that starts with a field refused is within the limits
          have hrefused : ∀ more, ¬ Collected (fields ++ f :: more) := by
            intro more h
            rw [hmore] at h
            exact hf (collected_concat.1 h.left).2
          simp only [if_neg hf]
          cases ms.mapM entryOf with
          | none => rfl
          | some more => simp [hrefused]

theorem mapM_entry_ne_nil {m : Bytes × Json} {out : List (Bytes × Bytes)}
    (h : (m :: ms).mapM entryOf = some out) : out ≠ [] := by
  rw [List.mapM_cons] at h
  cases hentry : entryOf m with
  | none => simp [hentry] at h
  | some f =>
    cases hmore : ms.mapM entryOf with
    | none => simp [hentry, hmore] at h
    | some more =>
      simp [hentry, hmore] at h
      simp [← h]

/-- **The form of an object** is its members, if they can be posted. -/
theorem readFormFields_object (ht : Laid id (.value (.obj ms)) t) :
    readFormFields 33 [] (t.drop 1) = formOf (some (.obj ms)) := by
  cases ht with
  | @emptyObj s hs =>
    have hturn : formTurn [] (s ++ [ch '\x7d']) = .refused := by
      rw [formTurn, skipSpace_behind hs (by decide), readString_none (by decide)]
    show readFormFields 33 [] (s ++ [ch '\x7d']) = _
    rw [readFormFields_turn, hturn]
    rfl
  | @obj _ inner hms =>
    show readFormFields 33 [] (inner ++ [ch '\x7d']) = _
    rw [readFormFields_members hms rfl .nil, formOf]
    cases hentries : ms.mapM entryOf with
    | none => rfl
    | some out =>
      obtain ⟨m, more, rfl⟩ : ∃ m more, ms = m :: more := by
        cases hms with
        | member => exact ⟨_, _, rfl⟩
        | members => exact ⟨_, _, rfl⟩
      have hne := mapM_entry_ne_nil hentries
      have hiff : SignedForm out ↔ Collected out := ⟨fun h => h.toCollected, fun h => ⟨h, hne⟩⟩
      simp [Option.filter, hiff]

/-! ## The grant -/

/-- What is read of the object of a grant: the first members, at any depth, that the searches take
for their own. -/
def grantOf (object : Json) : Option LogUpload :=
  let url := stringValue (firstNamed id (lit "url") (allMembers object))
  let method := stringValue (firstNamed id (lit "method") (allMembers object))
  if url = [] then none
  else if method = lit "PUT" then some { url, method }
  else if method ≠ lit "POST" then none
  else (formOf (firstNamed id (lit "fields") (allMembers object))).map fun fields =>
    { url, method, fields }

/-- The object that the search for a grant stops at. -/
def grantObject (doc : Json) : Option Json :=
  (firstNamed id (lit "logUpload") (allMembers doc)).filter fun v =>
    match v with
    | .obj _ => true
    | _ => false

theorem wordKey_grant : ∀ key ∈ [lit "logUpload", lit "url", lit "method", lit "fields"], WordKey key := by
  decide

/-- The grant, from the text of its object. -/
theorem grant_object {object : Bytes} (ht : Laid id (.value (.obj ms)) object) :
    (let url := (findStringField object (lit "url")).getD []
      let method := (findStringField object (lit "method")).getD []
      if url.isEmpty then none
      else if method = lit "PUT" then some { url, method }
      else if method ≠ lit "POST" then none
      else match findObjectField object (lit "fields") with
        | none => none
        | some text => (readFormFields 33 [] (text.drop 1)).map fun fields => { url, method, fields }) =
      grantOf (.obj ms) := by
  have hself := padded_self object
  have hstring : ∀ key ∈ [lit "logUpload", lit "url", lit "method", lit "fields"],
      (findStringField object key).getD [] = stringValue (firstNamed id key (allMembers (.obj ms))) :=
    fun key hkey => findStringField_laid (wordKey_grant key hkey) ht hself
  have hfields := wordKey_grant (lit "fields") (by simp)
  have hform : (match findObjectField object (lit "fields") with
      | none => none
      | some text => readFormFields 33 [] (text.drop 1)) =
        formOf (firstNamed id (lit "fields") (allMembers (.obj ms))) := by
    by_cases hobj : ∃ fs, firstNamed id (lit "fields") (allMembers (.obj ms)) = some (.obj fs)
    · obtain ⟨fs, hfirst⟩ := hobj
      obtain ⟨tv, hv, hfind⟩ := findObjectField_obj hfields ht hself hfirst
      rw [hfind, hfirst]
      exact readFormFields_object hv
    · rw [findObjectField_other hfields ht hself fun fs h => hobj ⟨fs, h⟩]
      cases hfirst : firstNamed id (lit "fields") (allMembers (.obj ms)) with
      | none => rfl
      | some v =>
        cases v with
        | obj fs => exact absurd ⟨fs, hfirst⟩ hobj
        | _ => rfl
  unfold grantOf
  rw [hstring _ (by simp), hstring _ (by simp), ← hform]
  simp only [List.isEmpty_iff]
  split
  · rfl
  · split
    · rfl
    · split
      · rfl
      · cases findObjectField object (lit "fields") <;> rfl

/-- **What is read of a well-formed response**, in terms of its values. -/
theorem findLogUpload_laid {doc : Json} {body : Bytes} (ht : Laid id (.value doc) t) (hbody : Padded t body)
    (hsize : body.length ≤ 128 * 1024) : findLogUpload body = (grantObject doc).bind grantOf := by
  have hkey := wordKey_grant (lit "logUpload") (by simp)
  rw [findLogUpload, if_neg (by omega)]
  unfold grantObject
  by_cases hobj : ∃ ms, firstNamed id (lit "logUpload") (allMembers doc) = some (.obj ms)
  · obtain ⟨ms, hfirst⟩ := hobj
    obtain ⟨tv, hv, hfind⟩ := findObjectField_obj hkey ht hbody hfirst
    rw [hfind, hfirst]
    exact grant_object hv
  · rw [findObjectField_other hkey ht hbody fun ms h => hobj ⟨ms, h⟩]
    cases hfirst : firstNamed id (lit "logUpload") (allMembers doc) with
    | none => rfl
    | some v =>
      cases v with
      | obj ms => exact absurd ⟨ms, hfirst⟩ hobj
      | _ => rfl

/-! ## Whose members these are -/

/-- The members of the `logUpload` object itself. -/
def ownMembers (doc : Json) : List (Bytes × Json) :=
  match (allMembers doc).find? fun m => unescaped m.1 == lit "logUpload" with
  | some (_, .obj ms) => ms
  | _ => []

/-- The object has a member of its own under this name whose value is such. -/
def HasOwn (ms : List (Bytes × Json)) (key : Bytes) (value : Json → Prop) : Prop :=
  ∃ m ∈ ms, unescaped m.1 = key ∧ value m.2

/-- The descriptor says what the object's own members say. -/
structure OwnGrant (ms : List (Bytes × Json)) (upload : LogUpload) : Prop where
  url : HasOwn ms (lit "url") fun v => ∃ body, v = .str body ∧ unescaped body = upload.url
  method : HasOwn ms (lit "method") fun v => ∃ body, v = .str body ∧ unescaped body = upload.method
  fields : upload.method = lit "POST" →
    HasOwn ms (lit "fields") fun v => formOf (some v) = some upload.fields

/-- So an object whose own method is POST is not read as PUT. -/
theorem OwnGrant.post {upload : LogUpload} (h : OwnGrant ms upload)
    (hpost : ∀ m ∈ ms, unescaped m.1 = lit "method" → stringValue (some m.2) = lit "POST") :
    upload.method = lit "POST" := by
  obtain ⟨m, hm, hname, body, hstr, hmethod⟩ := h.method
  have hvalue := hpost m hm hname
  rw [hstr] at hvalue
  exact hmethod.symm.trans hvalue

/-- The first members that the searches take for their own, in the object that the search for a
grant stops at, have the values of the object's own members. -/
def FirstAreOwn (doc : Json) : Prop :=
  ∃ object, grantObject doc = some object ∧
    HasOwn (ownMembers doc) (lit "url") (fun v => ∃ body, v = .str body ∧
      unescaped body = stringValue (firstNamed id (lit "url") (allMembers object))) ∧
    HasOwn (ownMembers doc) (lit "method") (fun v => ∃ body, v = .str body ∧
      unescaped body = stringValue (firstNamed id (lit "method") (allMembers object))) ∧
    (stringValue (firstNamed id (lit "method") (allMembers object)) = lit "POST" →
      HasOwn (ownMembers doc) (lit "fields") fun v =>
        formOf (some v) = formOf (firstNamed id (lit "fields") (allMembers object)))

/-- What a grant is read from. -/
theorem grantOf_some {object : Json} {upload : LogUpload} (h : grantOf object = some upload) :
    upload.url = stringValue (firstNamed id (lit "url") (allMembers object)) ∧
      upload.method = stringValue (firstNamed id (lit "method") (allMembers object)) ∧
      (upload.method = lit "POST" →
        formOf (firstNamed id (lit "fields") (allMembers object)) = some upload.fields) := by
  unfold grantOf at h
  dsimp only at h
  split at h
  · cases h
  · split at h
    · rename_i hput
      obtain rfl := Option.some.inj h
      refine ⟨rfl, rfl, fun hpost => ?_⟩
      have hboth : lit "PUT" = lit "POST" := hput.symm.trans hpost
      exact absurd hboth (by decide)
    · split at h
      · cases h
      · obtain ⟨fields, hform, rfl⟩ := Option.map_eq_some_iff.1 h
        exact ⟨rfl, rfl, fun _ => hform⟩

/-- **A descriptor that is read from a well-formed response is that of the object's own members exactly
when the first members of these names, in the text and at any depth, have the values of own ones.** -/
theorem ownGrant_iff {doc : Json} {body : Bytes} {upload : LogUpload} (ht : Laid id (.value doc) t)
    (hbody : Padded t body) (hgranted : findLogUpload body = some upload) :
    OwnGrant (ownMembers doc) upload ↔ FirstAreOwn doc := by
  have hsize : body.length ≤ 128 * 1024 := by
    by_contra hlarge
    rw [findLogUpload, if_pos (by omega)] at hgranted
    cases hgranted
  rw [findLogUpload_laid ht hbody hsize] at hgranted
  obtain ⟨object, hobject, hgrant⟩ := Option.bind_eq_some_iff.1 hgranted
  obtain ⟨hurl, hmethod, hfields⟩ := grantOf_some hgrant
  constructor
  · intro h
    refine ⟨object, hobject, hurl ▸ h.url, hmethod ▸ h.method, fun hpost => ?_⟩
    have hpost := hmethod.trans hpost
    rw [hfields hpost]
    exact h.fields hpost
  · rintro ⟨object', hobject', hown⟩
    obtain rfl := Option.some.inj (hobject.symm.trans hobject')
    rw [← hurl, ← hmethod] at hown
    refine ⟨hown.1, hown.2.1, fun hpost => ?_⟩
    rw [← hfields hpost]
    exact hown.2.2 hpost

/-! A grant as it is documented, and one with a nested `method` in front of its own. -/

def plainGrant : List (Bytes × Json) :=
  [(lit "url", .str (lit "u")), (lit "method", .str (lit "POST")),
    (lit "fields", .obj [(lit "key", .str (lit "k"))])]

def headerGrant : List (Bytes × Json) :=
  (lit "headers", .obj [(lit "method", .str (lit "PUT"))]) :: plainGrant

def grantDoc (own : List (Bytes × Json)) : Json := .obj [(lit "logUpload", .obj own)]

def plainText : Bytes :=
  lit "\"url\":\"u\",\"method\":\"POST\",\"fields\":\x7b\"key\":\"k\"\x7d"

def headerText : Bytes := lit "\"headers\":\x7b\"method\":\"PUT\"\x7d," ++ plainText

def grantText (own : Bytes) : Bytes :=
  ch '\x7b' :: (quoted (lit "logUpload") ++ ch ':' :: (ch '\x7b' :: own ++ [ch '\x7d'])) ++ [ch '\x7d']

def words : List Bytes :=
  [lit "logUpload", lit "url", lit "u", lit "method", lit "POST", lit "PUT", lit "fields", lit "key", lit "k",
    lit "headers"]

theorem plain_words : ∀ w ∈ words, ∀ b ∈ w, isPlain b = true := by
  have hall : ∀ w ∈ words, w.all isPlain = true := by decide
  exact fun w hw => List.all_eq_true.1 (hall w hw)

theorem body_words (w : Bytes) (h : w ∈ words) : Body w := by
  have hplain := plain_words w h
  clear h
  induction w with
  | nil => exact .nil
  | cons c cs ih =>
    obtain ⟨hc, hcs⟩ := List.forall_mem_cons.1 hplain
    exact .plain hc (ih hcs)

/-- Members without white space around them. -/
theorem laid_member (name : Bytes) (hname : name ∈ words) (hj : Laid id (.value j) t) :
    Laid id (.members [(name, j)]) (quoted name ++ ch ':' :: t) :=
  .member (body_words name hname) (padded_self _) hj (padded_self t)

theorem laid_members (name : Bytes) {ts : Bytes} (hname : name ∈ words) (hj : Laid id (.value j) t)
    (hms : Laid id (.members ms) ts) :
    Laid id (.members ((name, j) :: ms)) (quoted name ++ ch ':' :: (t ++ ch ',' :: ts)) :=
  .members (body_words name hname) (padded_self _) hj (padded_self t) hms

theorem laid_word (w : Bytes) (h : w ∈ words) : Laid id (.value (.str w)) (quoted w) :=
  .str (body_words w h)

theorem laid_plainGrant : Laid id (.members plainGrant) plainText := by
  have hkey := laid_member (lit "key") (by decide) (laid_word (lit "k") (by decide))
  have hfields := laid_member (lit "fields") (by decide) hkey.obj
  have hmethod := laid_members (lit "method") (by decide) (laid_word (lit "POST") (by decide)) hfields
  exact laid_members (lit "url") (by decide) (laid_word (lit "u") (by decide)) hmethod

theorem laid_headerGrant : Laid id (.members headerGrant) headerText := by
  have hmethod := laid_member (lit "method") (by decide) (laid_word (lit "PUT") (by decide))
  exact laid_members (lit "headers") (by decide) hmethod.obj laid_plainGrant

theorem laid_grantDoc {own : Bytes} (h : Laid id (.members ms) own) :
    Laid id (.value (grantDoc ms)) (grantText own) :=
  (laid_member (lit "logUpload") (by decide) h.obj).obj

theorem unescaped_word (w : Bytes) (h : w ∈ words) : unescaped w = w := by
  simp [unescaped, readChars_plains (plain_words w h), readChars_close]

theorem ownMembers_grantDoc (ms : List (Bytes × Json)) : ownMembers (grantDoc ms) = ms := by
  have hname : (unescaped (lit "logUpload") == lit "logUpload") = true := by
    rw [unescaped_word _ (by decide), beq_self_eq_true]
  have hall : allMembers (grantDoc ms) = (lit "logUpload", .obj ms) :: (allMembers (.obj ms) ++ []) := rfl
  rw [ownMembers, hall, List.find?_cons, hname]

theorem grantObject_grantDoc (ms : List (Bytes × Json)) : grantObject (grantDoc ms) = some (.obj ms) := by
  have hname : Names (lit "logUpload") (id (lit "logUpload")) := .inl rfl
  show ((firstNamed id (lit "logUpload") ((lit "logUpload", .obj ms) :: (allMembers (.obj ms) ++ []))).filter _) = _
  rw [firstNamed_cons, if_pos hname]
  rfl

/-- The grant that is documented, as it is read. -/
def plainUpload : LogUpload := { url := lit "u", method := lit "POST", fields := [(lit "key", lit "k")] }

theorem findLogUpload_grantText {own : Bytes} (h : Laid id (.members ms) own)
    (hsize : own.length ≤ 1024) : findLogUpload (grantText own) = grantOf (.obj ms) := by
  have hlength : (grantText own).length = own.length + 16 := by
    simp [grantText, quoted, lit]
  rw [findLogUpload_laid (laid_grantDoc h) (padded_self _) (by omega), grantObject_grantDoc, Option.bind_some]

theorem first_plain :
    firstNamed id (lit "url") (allMembers (.obj plainGrant)) = some (.str (lit "u")) ∧
    firstNamed id (lit "method") (allMembers (.obj plainGrant)) = some (.str (lit "POST")) ∧
    firstNamed id (lit "fields") (allMembers (.obj plainGrant)) =
      some (.obj [(lit "key", .str (lit "k"))]) := ⟨rfl, rfl, rfl⟩

theorem stringValue_word (w : Bytes) (h : w ∈ words) : stringValue (some (.str w)) = w := unescaped_word w h

theorem grantOf_plain : grantOf (.obj plainGrant) = some plainUpload := by
  obtain ⟨hurl, hmethod, hfields⟩ := first_plain
  have hform : formOf (some (.obj [(lit "key", .str (lit "k"))])) = some [(lit "key", lit "k")] := by decide
  rw [grantOf, hurl, hmethod, hfields, hform, stringValue_word _ (by decide), stringValue_word _ (by decide)]
  decide

theorem grantOf_header : grantOf (.obj headerGrant) = some { url := lit "u", method := lit "PUT" } := by
  have hurl : firstNamed id (lit "url") (allMembers (.obj headerGrant)) = some (.str (lit "u")) := rfl
  have hmethod : firstNamed id (lit "method") (allMembers (.obj headerGrant)) = some (.str (lit "PUT")) := rfl
  rw [grantOf, hurl, hmethod, stringValue_word _ (by decide), stringValue_word _ (by decide)]
  decide

/-- A grant as it is documented is read as it is. -/
theorem ownGrant_plain : OwnGrant plainGrant plainUpload := by
  have hread : findLogUpload (grantText plainText) = some plainUpload := by
    rw [findLogUpload_grantText laid_plainGrant (by decide), grantOf_plain]
  obtain ⟨hurl, hmethod, hfields⟩ := first_plain
  have hown : FirstAreOwn (grantDoc plainGrant) := by
    refine ⟨_, grantObject_grantDoc plainGrant, ?_⟩
    rw [ownMembers_grantDoc, hurl, hmethod, hfields]
    have hname : ∀ w ∈ [lit "url", lit "method", lit "fields"], unescaped w = w :=
      fun w hw => unescaped_word w ((by decide : [lit "url", lit "method", lit "fields"] ⊆ words) hw)
    exact ⟨⟨(lit "url", _), .head _, hname _ (by simp), lit "u", rfl, rfl⟩,
      ⟨(lit "method", _), .tail _ (.head _), hname _ (by simp), lit "POST", rfl, rfl⟩,
      fun _ => ⟨(lit "fields", _), .tail _ (.tail _ (.head _)), hname _ (by simp), rfl⟩⟩
  have hgrant := (ownGrant_iff (laid_grantDoc laid_plainGrant) (padded_self _) hread).2 hown
  rwa [ownMembers_grantDoc] at hgrant

/-- **The nested name comes first**: a grant whose own method is POST is read as PUT. -/
theorem nestedMethod_read :
    ¬ ∀ (doc : Json) (t body : Bytes) (upload : LogUpload), Laid id (.value doc) t → Padded t body →
      findLogUpload body = some upload → OwnGrant (ownMembers doc) upload := by
  intro hall
  have hread : findLogUpload (grantText headerText) = some { url := lit "u", method := lit "PUT" } := by
    rw [findLogUpload_grantText laid_headerGrant (by decide), grantOf_header]
  have hown := hall _ _ _ _ (laid_grantDoc laid_headerGrant) (padded_self _) hread
  rw [ownMembers_grantDoc] at hown
  have hwords : ∀ m ∈ headerGrant, m.1 ∈ words := by decide
  have hmethod : ∀ m ∈ headerGrant, m.1 = lit "method" → m.2 = .str (lit "POST") := by
    have hother : ∀ w ∈ [lit "headers", lit "url", lit "fields"], w ≠ lit "method" := by decide
    simp only [headerGrant, plainGrant, List.forall_mem_cons]
    exact ⟨fun h => absurd h (hother _ (by simp)), fun h => absurd h (hother _ (by simp)), fun _ => trivial,
      fun h => absurd h (hother _ (by simp)), nofun⟩
  have hpost := hown.post fun m hm hname => by
    rw [unescaped_word _ (hwords m hm)] at hname
    rw [hmethod m hm hname, stringValue_word _ (by decide)]
  exact absurd hpost (by decide)

end Tombstone.LogGrant
