import Tombstone.PendingRequests
import Tombstone.JsonFields
import Tombstone.Runtime

/- Which pending requests an ack has fulfilled, and what a fulfilment says.

   A request is fulfilled when it targets this client (`Targets`), once and in the order of
   the ack (`fulfilJobs_forall`). Its body says back what the ack said: the nonce byte for byte, and
   the expiry as an integer, through text, 64-bit integer and text again
   (`findIntField_some`, `longValue_toInt`, `fulfilBody`). -/
namespace Tombstone.Fulfilment
open JsonScan JsonText JsonFields Tombstone.Runtime
open Json (Rows present)

/-! ## The expiry -/

/-- The sum of the digits as `find_int_field` keeps it, in a `long long`. -/
def longDigits (digits : Bytes) : BitVec 64 :=
  digits.foldl (fun value c => value * BitVec.ofNat 64 10 + BitVec.ofNat 64 (c.toNat - 48)) 0#64

/-- What it returns for a literal. -/
def longValue : Bytes → BitVec 64
  | [] => 0#64
  | c :: cs => if c = ch '-' then -longDigits cs else longDigits (c :: cs)

variable {digits literal text rest json key : Bytes} {budget value count : Nat}

theorem longDigits_eq (digits : Bytes) : longDigits digits = BitVec.ofNat 64 (digitsValue digits) := by
  have hfold : ∀ value, digits.foldl (fun value c => value * BitVec.ofNat 64 10 + BitVec.ofNat 64 (c.toNat - 48))
      (BitVec.ofNat 64 value) =
        BitVec.ofNat 64 (digits.foldl (fun value c => value * 10 + (c.toNat - 48)) value) := by
    induction digits with
    | nil => exact fun _ => rfl
    | cons c digits ih =>
      intro value
      rw [List.foldl_cons, List.foldl_cons, ← ih, BitVec.ofNat_add, BitVec.ofNat_mul]
  exact hfold 0

theorem longValue_eq (literal : Bytes) : longValue literal = BitVec.ofInt 64 (literalValue literal) := by
  cases literal with
  | nil => rfl
  | cons c cs =>
    rw [longValue, literalValue]
    split
    · rw [longDigits_eq, BitVec.ofInt_neg, BitVec.ofInt_natCast]
    · rw [longDigits_eq, BitVec.ofInt_natCast]

theorem digit_lt {c : UInt8} (h : isDigit c = true) : c.toNat - 48 < 10 := by
  have hbound : c ≤ 57 := (of_decide_eq_true h).2
  have : c.toNat ≤ 57 := hbound
  omega

theorem digitsValue_lt (h : ∀ c ∈ digits, isDigit c = true) : digitsValue digits < 10 ^ digits.length := by
  have hfold : ∀ value, digits.foldl (fun value c => value * 10 + (c.toNat - 48)) value <
      (value + 1) * 10 ^ digits.length := by
    induction digits with
    | nil => simp
    | cons c digits ih =>
      obtain ⟨hc, hmore⟩ := List.forall_mem_cons.1 h
      intro value
      have hnext := ih hmore (value * 10 + (c.toNat - 48))
      have hdigit := digit_lt hc
      calc (c :: digits).foldl (fun value c => value * 10 + (c.toNat - 48)) value
          < (value * 10 + (c.toNat - 48) + 1) * 10 ^ digits.length := hnext
        _ ≤ ((value + 1) * 10) * 10 ^ digits.length := Nat.mul_le_mul_right _ (by omega)
        _ = (value + 1) * 10 ^ (c :: digits).length := by
          rw [List.length_cons, Nat.pow_succ', Nat.mul_assoc]
  have hall := hfold 0
  rwa [Nat.zero_add, Nat.one_mul] at hall

theorem literalValue_natAbs (h : IsInteger literal) : (literalValue literal).natAbs < 10 ^ 18 := by
  obtain ⟨digits, hne, hlength, hdigits, hcase⟩ := h
  have hlt : digitsValue digits < 10 ^ 18 :=
    lt_of_lt_of_le (digitsValue_lt hdigits) (Nat.pow_le_pow_right (by omega) hlength)
  rcases hcase with rfl | rfl
  · obtain ⟨c, cs, rfl⟩ := List.exists_cons_of_ne_nil hne
    have hminus : c ≠ ch '-' := by
      rintro rfl
      exact absurd (hdigits _ List.mem_cons_self) (by decide)
    rw [literalValue, if_neg hminus]
    omega
  · rw [literalValue, if_pos rfl]
    omega

/-- **No wrap**: the `long long` is the integer that the literal says. -/
theorem longValue_toInt (h : IsInteger literal) : (longValue literal).toInt = literalValue literal := by
  have hsmall := literalValue_natAbs h
  rw [longValue_eq]
  apply BitVec.toInt_ofInt_eq_self (by decide)
  · omega
  · omega

theorem readDigits_some {value' count' : Nat} (h : readDigits budget value count text = (value', count', rest)) :
    ∃ digits, text = digits ++ rest ∧ (∀ c ∈ digits, isDigit c = true) ∧ digits.length ≤ budget ∧
      count' = count + digits.length ∧
      value' = digits.foldl (fun value c => value * 10 + (c.toNat - 48)) value := by
  induction budget generalizing value count text with
  | zero =>
    obtain ⟨rfl, rfl, rfl⟩ : value = value' ∧ count = count' ∧ text = rest := by simpa [readDigits] using h
    exact ⟨[], rfl, fun _ hc => absurd hc List.not_mem_nil, Nat.le_refl _, rfl, rfl⟩
  | succ budget ih =>
    cases text with
    | nil =>
      obtain ⟨rfl, rfl, rfl⟩ : value = value' ∧ count = count' ∧ [] = rest := by simpa [readDigits] using h
      exact ⟨[], rfl, fun _ hc => absurd hc List.not_mem_nil, Nat.zero_le _, rfl, rfl⟩
    | cons c cs =>
      rw [readDigits] at h
      split at h
      · rename_i hc
        obtain ⟨digits, rfl, hdigits, hlength, rfl, rfl⟩ := ih h
        refine ⟨c :: digits, rfl, List.forall_mem_cons.2 ⟨hc, hdigits⟩, Nat.succ_le_succ hlength, ?_, rfl⟩
        rw [List.length_cons]
        omega
      · obtain ⟨rfl, rfl, rfl⟩ : value = value' ∧ count = count' ∧ c :: cs = rest := by simpa using h
        exact ⟨[], rfl, fun _ hc => absurd hc List.not_mem_nil, Nat.zero_le _, rfl, rfl⟩

/-- **Whatever the text**, an integer that is read is that of a literal of at most 18 digits which
stands there. -/
theorem findIntField_some {n : Int} (h : findIntField json key = some n) :
    ∃ literal rest, findValueStart json key = some (literal ++ rest) ∧ IsInteger literal ∧
      literalValue literal = n := by
  unfold findIntField at h
  split at h
  · cases h
  · cases h
  · rename_i c cs hfind
    dsimp only at h
    cases hread : readDigits 18 0 0 (if (c == ch '-') = true then cs else c :: cs) with
    | mk value r =>
      obtain ⟨count, rest⟩ := r
      obtain ⟨digits, htext, hdigits, hlength, rfl, rfl⟩ := readDigits_some hread
      rw [hread] at h
      dsimp only at h
      split at h
      · cases h
      · rename_i hcount
        have hne : digits ≠ [] := by
          rintro rfl
          exact hcount rfl
        have hresult : (if (c == ch '-') = true then -(digitsValue digits : Int) else digitsValue digits) = n := by
          split at h
          · split at h
            · cases h
            · exact Option.some.inj h
          · exact Option.some.inj h
        by_cases hminus : c = ch '-'
        · rw [if_pos (beq_iff_eq.2 hminus)] at htext hresult
          refine ⟨c :: digits, rest, by rw [hfind, htext]; rfl, ⟨digits, hne, hlength, hdigits, .inr ?_⟩, ?_⟩
          · rw [hminus]
          · rw [literalValue, if_pos hminus, hresult]
        · rw [if_neg (by rwa [beq_iff_eq])] at htext hresult
          refine ⟨digits, rest, by rw [hfind, htext], ⟨digits, hne, hlength, hdigits, .inl rfl⟩, ?_⟩
          obtain ⟨d, ds, rfl⟩ := List.exists_cons_of_ne_nil hne
          obtain ⟨rfl, -⟩ := List.cons.inj htext
          rw [literalValue, if_neg hminus, hresult]

/-- **`%lld` says the integer back.** -/
theorem intText_integer {n : Int} (h : n.natAbs < 10 ^ 18) :
    IsInteger (intText n) ∧ literalValue (intText n) = n := by
  have hdigits : ∀ c ∈ Decimal.text n.natAbs, isDigit c = true :=
    fun c hc => decide_eq_true (Decimal.mem_text hc)
  have hvalue : digitsValue (Decimal.text n.natAbs) = n.natAbs := Decimal.foldl_text n.natAbs
  have hne := Decimal.text_ne_nil n.natAbs
  refine ⟨⟨_, hne, Decimal.length_text_le 17 _ h, hdigits, ?_⟩, ?_⟩
  · rw [intText_eq]
    split
    · exact .inr rfl
    · exact .inl rfl
  · rw [intText_eq]
    split
    · rw [List.singleton_append, literalValue, if_pos rfl, hvalue]
      omega
    · obtain ⟨d, ds, hd⟩ := List.exists_cons_of_ne_nil hne
      have hminus : d ≠ ch '-' := by
        rintro rfl
        exact absurd (hdigits _ (hd ▸ List.mem_cons_self)) (by decide)
      rw [List.nil_append, hd, literalValue, if_neg hminus, ← hd, hvalue]
      omega

/-! ## The body -/

/-- The members of a fulfilment; a client value that is over its limit is cut. -/
def fulfilRows (who : ClientIdent) (request : PendingPullRequest) : Rows :=
  let value (limit : Nat) (text : Bytes) := if text = [] then none else some (.str (utf8SafeTruncate text limit))
  let paired (j : Json) := if request.fulfillNonce = [] then none else some j
  [(lit "userId", value limits.userId who.userId), (lit "sessionId", value limits.sessionId who.sessionId),
    (lit "matchId", value limits.matchId who.matchId), (lit "serverId", value limits.serverId who.serverId),
    (lit "nonce", paired (.str (utf8SafeTruncate request.fulfillNonce limits.pullNonce))),
    (lit "nonceExpiry", paired (.num (intText request.nonceExpiry)))]

variable {base w : JsonWriter} {rows : Rows} {s : State} {who : ClientIdent} {request : PendingPullRequest}

/-- A member that is left out where its text is empty. -/
theorem optional_row (h : InMembers base rows w) (name value : Bytes) (limit : Nat) :
    InMembers base (rows ++ [(name, if value = [] then none else some (.str (utf8SafeTruncate value limit)))])
      (w.optionalField name value limit) := by
  cases value with
  | nil => exact h.absent name
  | cons c cs =>
    have hrow := h.row name (.str (utf8SafeTruncate (c :: cs) limit))
    rw [← stringField_eq] at hrow
    exact hrow

theorem credentials_rows (h : InMembers base rows w) (request : PendingPullRequest) :
    InMembers base (rows
        ++ [(lit "nonce", if request.fulfillNonce = [] then none
          else some (.str (utf8SafeTruncate request.fulfillNonce limits.pullNonce)))]
        ++ [(lit "nonceExpiry", if request.fulfillNonce = [] then none
          else some (.num (intText request.nonceExpiry)))])
      (if request.fulfillNonce.isEmpty then w
      else (w.clampedField (lit "nonce") request.fulfillNonce limits.pullNonce).intField (lit "nonceExpiry")
        request.nonceExpiry) := by
  cases request.fulfillNonce with
  | nil => exact (h.absent (lit "nonce")).absent (lit "nonceExpiry")
  | cons c cs =>
    have hnonce := h.row (lit "nonce") (.str (utf8SafeTruncate (c :: cs) limits.pullNonce))
    rw [← stringField_eq] at hnonce
    have hexpiry := hnonce.row (lit "nonceExpiry") (.num (intText request.nonceExpiry))
    rw [← intField_eq] at hexpiry
    exact hexpiry

theorem fulfilRows_numeric : (Json.obj (present (fulfilRows who request))).Numeric := by
  refine .obj fun m hm => ?_
  obtain ⟨row, hrow, hmember⟩ := List.mem_filterMap.1 hm
  obtain ⟨j, hj, rfl⟩ := Option.map_eq_some_iff.1 hmember
  have hvalues : ∀ row ∈ fulfilRows who request, ∀ j, row.2 = some j →
      (∃ text, j = .str text) ∨ j = .num (intText request.nonceExpiry) := by
    simp only [fulfilRows, List.forall_mem_cons]
    grind
  rcases hvalues row hrow j hj with ⟨text, rfl⟩ | rfl
  · exact .str text
  · exact .num (isNumber_intText _)

/-- **A fulfilment reads back**, whatever the bytes of its strings. -/
theorem fulfilBody (who : ClientIdent) (request : PendingPullRequest) :
    Json.parse (buildPullFulfillJson who.userId who.sessionId who.matchId who.serverId
      request.fulfillNonce request.nonceExpiry) = some (.obj (present (fulfilRows who request))) := by
  have hopened : InMembers {} [] (JsonWriter.beginObject {}) := .opened _ {}
  have h := optional_row hopened (lit "userId") who.userId limits.userId
  have h := optional_row h (lit "sessionId") who.sessionId limits.sessionId
  have h := optional_row h (lit "matchId") who.matchId limits.matchId
  have h := optional_row h (lit "serverId") who.serverId limits.serverId
  have h := credentials_rows h request
  have hout : buildPullFulfillJson who.userId who.sessionId who.matchId who.serverId
      request.fulfillNonce request.nonceExpiry =
        Json.render escaping (.obj (present (fulfilRows who request))) := congrArg JsonWriter.out h.close
  rw [hout]
  exact Json.parse_render fulfilRows_numeric

/-! ## The pair in the body -/

/-- The members say the nonce and the expiry, or neither of them where there is no nonce. -/
structure Echoes (nonce : Bytes) (expiry : Int) (members : List (Bytes × Json)) : Prop where
  distinct : (members.map Prod.fst).Nodup
  same : members.lookup (lit "nonce") = if nonce = [] then none else some (.str nonce)
  silent : nonce = [] → members.lookup (lit "nonceExpiry") = none
  expires : nonce ≠ [] → ∃ literal, members.lookup (lit "nonceExpiry") = some (.num literal) ∧
    IsInteger literal ∧ literalValue literal = expiry

theorem names_present (rows : Rows) : ((present rows).map Prod.fst).Sublist (rows.map Prod.fst) := by
  induction rows with
  | nil => exact .slnil
  | cons row rows ih =>
    obtain ⟨name, v⟩ := row
    cases v with
    | none => exact ih.cons _
    | some j => exact ih.cons_cons _

theorem lookup_present {name : Bytes} {v : Option Json} (hdistinct : (rows.map Prod.fst).Nodup)
    (hrow : (name, v) ∈ rows) : (present rows).lookup name = v := by
  induction rows with
  | nil => cases hrow
  | cons row rows ih =>
    obtain ⟨first, j⟩ := row
    rw [List.map_cons, List.nodup_cons] at hdistinct
    obtain ⟨hfresh, hdistinct⟩ := hdistinct
    rcases List.mem_cons.1 hrow with hfirst | hlater
    · obtain ⟨rfl, rfl⟩ := Prod.mk.inj hfirst
      cases v with
      | none =>
        -- no later row has the name
        show (present rows).lookup name = none
        rw [List.lookup_eq_none_iff]
        intro m hm
        have hname : m.1 ∈ rows.map Prod.fst := (names_present rows).subset (List.mem_map_of_mem hm)
        rw [bne_iff_ne]
        rintro rfl
        exact hfresh hname
      | some v =>
        show ((name, v) :: present rows).lookup name = some v
        rw [List.lookup_cons, beq_self_eq_true]
    · have hother : name ≠ first := by
        rintro rfl
        exact hfresh (List.mem_map.2 ⟨_, hlater, rfl⟩)
      cases j with
      | none => exact ih hdistinct hlater
      | some j =>
        show ((first, j) :: present rows).lookup name = v
        rw [List.lookup_cons, beq_false_of_ne hother]
        exact ih hdistinct hlater

/-- **The body says what the request said.** -/
theorem fulfilRows_echoes (hnonce : request.fulfillNonce.length ≤ limits.pullNonce)
    (hexpiry : request.nonceExpiry.natAbs < 10 ^ 18) :
    Echoes request.fulfillNonce request.nonceExpiry (present (fulfilRows who request)) := by
  have hdistinct : ((fulfilRows who request).map Prod.fst).Nodup := by
    have hnames : [lit "userId", lit "sessionId", lit "matchId", lit "serverId", lit "nonce",
        lit "nonceExpiry"].Nodup := by decide
    exact hnames
  have hwhole : utf8SafeTruncate request.fulfillNonce limits.pullNonce = request.fulfillNonce :=
    if_pos hnonce
  have hpaired : ∀ name j, (name, if request.fulfillNonce = [] then none else some j) ∈ fulfilRows who request →
      (present (fulfilRows who request)).lookup name = if request.fulfillNonce = [] then none else some j :=
    fun _ _ hrow => lookup_present hdistinct hrow
  have hnoncePair := hpaired (lit "nonce") (.str (utf8SafeTruncate request.fulfillNonce limits.pullNonce))
    (by simp [fulfilRows])
  have hexpiryPair := hpaired (lit "nonceExpiry") (.num (intText request.nonceExpiry)) (by simp [fulfilRows])
  rw [hwhole] at hnoncePair
  refine ⟨hdistinct.sublist (names_present _), hnoncePair, fun hempty => ?_, fun hne => ?_⟩
  · rw [hexpiryPair, if_pos hempty]
  · rw [if_neg hne] at hexpiryPair
    exact ⟨_, hexpiryPair, intText_integer hexpiry⟩

/-! ## Whom a request targets -/

inductive Dimension
  | user
  | session
  | matching
  | server

/-- Its name as a `targetType`. -/
def Dimension.name : Dimension → Bytes
  | user => lit "userId"
  | session => lit "sessionId"
  | matching => lit "matchId"
  | server => lit "server"

/-- The client's own value. -/
def Dimension.own (who : ClientIdent) : Dimension → Bytes
  | user => who.userId
  | session => who.sessionId
  | matching => who.matchId
  | server => who.serverId

/-- The request can be answered, and names a value that is this client's. -/
structure Targets (who : ClientIdent) (request : PendingPullRequest) : Prop where
  id : request.requestId ≠ []
  value : request.targetValue ≠ []
  own : ∃ d, request.targetType = Dimension.name d ∧ d.own who = request.targetValue

theorem targets_iff (who : ClientIdent) (request : PendingPullRequest) :
    (!request.requestId.isEmpty && pullRequestTargetsClient request.targetType request.targetValue
      who.userId who.sessionId who.matchId who.serverId) = true ↔ Targets who request := by
  have hown : ∀ own : Bytes, request.targetValue ≠ [] →
      ((!own.isEmpty && own == request.targetValue) = true ↔ own = request.targetValue) := by
    intro own hvalue
    simp only [Bool.and_eq_true, Bool.not_eq_true', List.isEmpty_eq_false_iff, beq_iff_eq, and_iff_right_iff_imp]
    rintro rfl
    exact hvalue
  have hclient : request.targetValue ≠ [] → (pullRequestTargetsClient request.targetType request.targetValue
      who.userId who.sessionId who.matchId who.serverId = true ↔
        ∃ d, request.targetType = Dimension.name d ∧ d.own who = request.targetValue) := by
    intro hvalue
    have hsome : ¬ request.targetValue.isEmpty = true := by simpa using hvalue
    rw [pullRequestTargetsClient, if_neg hsome]
    constructor
    · intro h
      split at h
      · exact ⟨.user, ‹_›, (hown _ hvalue).1 h⟩
      · split at h
        · exact ⟨.session, ‹_›, (hown _ hvalue).1 h⟩
        · split at h
          · exact ⟨.matching, ‹_›, (hown _ hvalue).1 h⟩
          · split at h
            · exact ⟨.server, ‹_›, (hown _ hvalue).1 h⟩
            · cases h
    · rintro ⟨d, htype, hmatches⟩
      have hmatches := (hown _ hvalue).2 hmatches
      cases d with
      | user => rwa [htype, if_pos (by decide)]
      | session => rwa [htype, if_neg (by decide), if_pos (by decide)]
      | matching => rwa [htype, if_neg (by decide), if_neg (by decide), if_pos (by decide)]
      | server => rwa [htype, if_neg (by decide), if_neg (by decide), if_neg (by decide), if_pos (by decide)]
  rw [Bool.and_eq_true, Bool.not_eq_true', List.isEmpty_eq_false_iff]
  constructor
  · rintro ⟨hid, htargets⟩
    have hvalue : request.targetValue ≠ [] := by
      intro hempty
      rw [pullRequestTargetsClient, hempty] at htargets
      cases htargets
    exact ⟨hid, hvalue, (hclient hvalue).1 htargets⟩
  · rintro ⟨hid, hvalue, hdimension⟩
    exact ⟨hid, (hclient hvalue).2 hdimension⟩

instance (who : ClientIdent) : DecidablePred (Targets who) := fun request =>
  decidable_of_iff _ (targets_iff who request)

/-! ## The acknowledgement -/

theorem pendingScan_parsed (depth : Nat) (inString : Bool) (object : Option Bytes) (budget : Nat)
    (body : Bytes) : ∀ request ∈ pendingScan depth inString object budget body,
      ∃ object, request = parseRequest object := by
  fun_induction pendingScan depth inString object budget body with
  | case1 | case2 | case10 => exact nofun
  | case8 =>
    -- the closing brace of an object
    rename_i ih
    refine List.forall_mem_cons.2 ⟨⟨_, rfl⟩, ?_⟩
    split
    · exact nofun
    · exact ih
  | case3 | case4 | case5 | case6 | case7 | case9 | case11 => assumption

theorem nonceExpiry_natAbs {request : PendingPullRequest} {body : Bytes}
    (h : request ∈ findPendingRequests body) : request.nonceExpiry.natAbs < 10 ^ 18 := by
  obtain ⟨object, rfl⟩ : ∃ object, request = parseRequest object := by
    unfold findPendingRequests at h
    split at h
    · split at h
      · exact pendingScan_parsed _ _ _ _ _ request h
      · cases h
    · cases h
  show ((findIntField object (lit "nonceExpiry")).getD 0).natAbs < 10 ^ 18
  cases hread : findIntField object (lit "nonceExpiry") with
  | none => decide
  | some n =>
    obtain ⟨literal, rest, -, hliteral, rfl⟩ := findIntField_some hread
    exact literalValue_natAbs hliteral

/-- The job fulfils the request. -/
structure Fulfils (s : State) (who : ClientIdent) (request : PendingPullRequest) (job : UploadJob) : Prop where
  url : job.url = s.endpoint ++ pullRequestsPath ++ lit "/" ++ request.requestId ++ lit "/fulfill"
  body : request.fulfillNonce.length ≤ limits.pullNonce → ∃ members,
    Json.parse job.body = some (.obj members) ∧ Echoes request.fulfillNonce request.nonceExpiry members

theorem fulfilJob_fulfils (hexpiry : request.nonceExpiry.natAbs < 10 ^ 18) :
    Fulfils s who request (fulfilJob s who request) :=
  ⟨rfl, fun hnonce => ⟨_, fulfilBody who request, fulfilRows_echoes hnonce hexpiry⟩⟩

/-- **One job for each request that targets the client**, in order. -/
theorem fulfilJobs_forall (who : ClientIdent) (response : Bytes) (h : s.captureAllowed = true) :
    List.Forall₂ (Fulfils s who)
      ((findPendingRequests response).filter fun request => decide (Targets who request))
      (fulfilJobs s who response) := by
  have hjobs : fulfilJobs s who response =
      ((findPendingRequests response).filter fun request => decide (Targets who request)).map
        (fulfilJob s who) := by
    have hfilter : ∀ request, (!request.requestId.isEmpty && pullRequestTargetsClient request.targetType
        request.targetValue who.userId who.sessionId who.matchId who.serverId) =
          decide (Targets who request) := fun request =>
      Bool.eq_iff_iff.2 ((targets_iff who request).trans decide_eq_true_iff.symm)
    rw [fulfilJobs, h]
    simp only [hfilter]
    cases response with
    | nil => rfl
    | cons c cs => rfl
  rw [hjobs, List.forall₂_map_right_iff, List.forall₂_same]
  intro request hrequest
  exact fulfilJob_fulfils (nonceExpiry_natAbs (List.mem_of_mem_filter hrequest))

/-- **Fulfilment is exact.** With consent, an ack has exactly the requests that target the client
fulfilled, once each and in order; without, none. The nonce and the expiry are said back, where the
expiry is that of the text which the scan reads. -/
theorem ackRequests_fulfilled :
    (∀ (s : State) (i : Input) (response : Bytes), ∃ jobs,
      perform s (.ackRequests response) i = some (s, jobs.map .enqueue) ∧
      (s.captureAllowed = false → jobs = []) ∧
      (s.captureAllowed = true →
        List.Forall₂ (Fulfils s i.ident)
          ((findPendingRequests response).filter fun request => decide (Targets i.ident request)) jobs ∧
        ∀ doc objects, Ack doc objects → Document doc response →
          List.Forall₂ (fun members => Fulfils s i.ident (requestOf members))
            ((objects.take 32).filter fun members => decide (Targets i.ident (requestOf members))) jobs)) ∧
    ∀ (object key : Bytes) (n : Int), findIntField object key = some n →
      ∃ literal rest, findValueStart object key = some (literal ++ rest) ∧ IsInteger literal ∧
        literalValue literal = n ∧ (longValue literal).toInt = n := by
  refine ⟨fun s i response => ⟨fulfilJobs s i.ident response, rfl, fun hoff => ?_, fun hon => ?_⟩,
    fun object key n hread => ?_⟩
  · rw [fulfilJobs, hoff]
    rfl
  · have hjobs := fulfilJobs_forall i.ident response hon
    refine ⟨hjobs, fun doc objects hack hdoc => ?_⟩
    rw [hack.requests hdoc, List.filter_map, List.forall₂_map_left_iff] at hjobs
    exact hjobs
  · obtain ⟨literal, rest, hfind, hliteral, hvalue⟩ := findIntField_some hread
    exact ⟨literal, rest, hfind, hliteral, hvalue, hvalue ▸ longValue_toInt hliteral⟩

end Tombstone.Fulfilment
