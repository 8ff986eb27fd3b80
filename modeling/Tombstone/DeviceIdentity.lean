import Mathlib.Data.List.Chain
import Mathlib.Data.List.DropRight
import Tombstone.JsonWriter

/- The provisional user id of a device (`device_identity.cpp`, and the identity file of
   `client.cpp`).

   The file wins over a fresh derivation, if what its first line holds is plausible. A derived
   id is, and reading a plausible id back changes nothing, so from the first launch on the id
   stays, whatever the file held before. -/
namespace Tombstone.DeviceIdentity

/-! ## The id -/

def fnvOffsetBasis : UInt64 := 14695981039346656037
def fnvPrime : UInt64 := 1099511628211
def idPrefix : Bytes := lit "dev_"
def maxIdLength : Nat := 40

/-- `fnv1a64_append`. -/
def fnv1a64Append (hash : UInt64) (bytes : Bytes) : UInt64 :=
  bytes.foldl (fun hash c => (hash ^^^ c.toUInt64) * fnvPrime) hash

example : fnv1a64Append fnvOffsetBasis (lit "foobar") = 0x85944171f73967e8 := by decide

/-- The shifts of the loop in `derive`, from the most significant digit on. -/
def shifts : List UInt64 := [60, 56, 52, 48, 44, 40, 36, 32, 28, 24, 20, 16, 12, 8, 4, 0]

/-- `derive`. -/
def derive (salt machineSource : Bytes) : Bytes :=
  let hash := fnv1a64Append (fnv1a64Append (fnv1a64Append fnvOffsetBasis salt) (lit "|")) machineSource
  idPrefix ++ shifts.map fun shift => hexDigit ((hash >>> shift) &&& 0xF).toNat

def isIdByte (c : UInt8) : Bool :=
  decide (97 ≤ c ∧ c ≤ 122) || decide (48 ≤ c ∧ c ≤ 57) || c == ch '_' || c == ch '-'

/-- `is_valid`. -/
def isValid (id : Bytes) : Bool :=
  !(decide (id.length ≤ idPrefix.length) || decide (maxIdLength < id.length)) &&
    id.take idPrefix.length == idPrefix && (id.drop idPrefix.length).all isIdByte

/-! ## The identity file -/

/-- What `read_persisted_identity` cuts off the end of the line. -/
def isLineEnd (c : UInt8) : Bool := c == 13 || c == 10 || c == 32

/-- `read_persisted_identity`: the first line, trimmed, if it is plausible. -/
def readPersistedIdentity (file : Option Bytes) : Bytes :=
  match file with
  | none => []
  | some content =>
    let id := (content.takeWhile (· != 10)).rdropWhile isLineEnd
    if isValid id then id else []

/-- What a launch brings to its `tombstone_init`: the ingest token, what `read_machine_id`
returns (empty where there is none), and what `random_session_id` would. -/
structure Launch where
  token : Bytes
  machineId : Bytes := []
  randomSessionId : Bytes := []

/-- `acquire_device_identity`, with the file before it and after. -/
def acquireDeviceIdentity (file : Option Bytes) (l : Launch) : Bytes × Option Bytes :=
  let id := readPersistedIdentity file
  if id.isEmpty then
    let source := if l.machineId.isEmpty then l.randomSessionId else l.machineId
    (derive l.token source, some (derive l.token source))
  else (id, file)

/-- The launches over one data directory, each with its provisional id. -/
def provisionalIds (file : Option Bytes) : List Launch → List Bytes
  | [] => []
  | l :: launches =>
    let (id, file) := acquireDeviceIdentity file l
    id :: provisionalIds file launches

/-! ## Plausible ids -/

theorem isIdByte_hexDigit : ∀ n, n < 16 → isIdByte (hexDigit n) = true := by decide

/-- **A derived id is plausible.** -/
theorem isValid_derive (salt machineSource : Bytes) : isValid (derive salt machineSource) = true := by
  unfold derive
  generalize fnv1a64Append (fnv1a64Append (fnv1a64Append fnvOffsetBasis salt) (lit "|")) machineSource
    = hash
  have hlength : (idPrefix ++ shifts.map fun shift => hexDigit ((hash >>> shift) &&& 0xF).toNat).length
      = 20 := by
    rw [List.length_append, List.length_map]
    rfl
  have hdigits : ∀ c ∈ shifts.map fun shift => hexDigit ((hash >>> shift) &&& 0xF).toNat,
      isIdByte c = true := by
    intro c hc
    obtain ⟨shift, -, rfl⟩ := List.mem_map.1 hc
    apply isIdByte_hexDigit
    calc ((hash >>> shift) &&& 0xF).toNat
        = (hash >>> shift).toNat &&& 15 := UInt64.toNat_and ..
      _ ≤ 15 := Nat.and_le_right
      _ < 16 := by decide
  have hbounds : (!(decide (20 ≤ idPrefix.length) || decide (maxIdLength < 20))) = true := by decide
  unfold isValid
  rw [hlength, hbounds, List.take_left, List.drop_left, List.all_eq_true.2 hdigits, beq_self_eq_true]
  rfl

theorem isIdByte_prefix : ∀ c ∈ idPrefix, isIdByte c = true := forall_mem_bytes (by decide)

theorem isIdByte_of_isValid {id : Bytes} (h : isValid id = true) : ∀ c ∈ id, isIdByte c = true := by
  simp only [isValid, Bool.and_eq_true, beq_iff_eq, List.all_eq_true] at h
  intro c hc
  rw [← List.take_append_drop idPrefix.length id, h.1.2] at hc
  rcases List.mem_append.1 hc with hc | hc
  · exact isIdByte_prefix c hc
  · exact h.2 c hc

theorem ne_nil_of_isValid {id : Bytes} (h : isValid id = true) : id ≠ [] := by
  rintro rfl
  cases h

theorem length_of_isValid {id : Bytes} (h : isValid id = true) : id.length ≤ maxIdLength := by
  simp only [isValid, Bool.and_eq_true, Bool.not_eq_true', Bool.or_eq_false_iff,
    decide_eq_false_iff_not] at h
  exact Nat.le_of_not_lt h.1.1.2

theorem not_lineEnd {c : UInt8} (h : isIdByte c = true) : isLineEnd c = false ∧ (c != 10) = true := by
  have hreturn : c ≠ 13 := byte_ne h (by decide)
  have hnewline : c ≠ 10 := byte_ne h (by decide)
  have hblank : c ≠ 32 := byte_ne h (by decide)
  simp [isLineEnd, hreturn, hnewline, hblank]

/-! ## The file -/

/-- What is read is plausible, or nothing. -/
theorem readPersistedIdentity_valid (file : Option Bytes) :
    readPersistedIdentity file = [] ∨ isValid (readPersistedIdentity file) = true := by
  cases file with
  | none => exact .inl rfl
  | some content =>
    unfold readPersistedIdentity
    dsimp only
    split
    · rename_i hvalid
      exact .inr hvalid
    · exact .inl rfl

/-- **A plausible id is read back as it was written.** -/
theorem readPersistedIdentity_persisted {id : Bytes} (h : isValid id = true) :
    readPersistedIdentity (some id) = id := by
  have hbytes := isIdByte_of_isValid h
  have hline : id.takeWhile (· != 10) = id :=
    List.takeWhile_eq_self_iff.2 fun c hc => (not_lineEnd (hbytes c hc)).2
  have htrim : id.rdropWhile isLineEnd = id := by
    apply List.rdropWhile_eq_self_iff.2
    intro hne
    rw [(not_lineEnd (hbytes _ (List.getLast_mem hne))).1]
    decide
  unfold readPersistedIdentity
  dsimp only
  rw [hline, htrim, if_pos h]

/-- **A launch has a plausible id**, and leaves a file that holds it. -/
theorem acquireDeviceIdentity_spec (file : Option Bytes) (l : Launch) :
    isValid (acquireDeviceIdentity file l).1 = true ∧
      readPersistedIdentity (acquireDeviceIdentity file l).2 = (acquireDeviceIdentity file l).1 := by
  unfold acquireDeviceIdentity
  by_cases hnone : readPersistedIdentity file = []
  · have hderived := isValid_derive l.token (if l.machineId.isEmpty then l.randomSessionId else l.machineId)
    simp only [hnone, List.isEmpty_nil, if_true]
    exact ⟨hderived, readPersistedIdentity_persisted hderived⟩
  · have hkept : ¬ (readPersistedIdentity file).isEmpty = true := by
      rw [List.isEmpty_iff]
      exact hnone
    simp only [if_neg hkept]
    exact ⟨(readPersistedIdentity_valid file).resolve_left hnone, trivial⟩

theorem acquireDeviceIdentity_stable {file : Option Bytes} {id : Bytes} (hid : isValid id = true)
    (hfile : readPersistedIdentity file = id) (l : Launch) : acquireDeviceIdentity file l = (id, file) := by
  have hkept : ¬ id.isEmpty = true := by
    rw [List.isEmpty_iff]
    exact ne_nil_of_isValid hid
  unfold acquireDeviceIdentity
  simp only [hfile, if_neg hkept]

/-- **Every id of the launches is that of the first.** -/
theorem provisionalIds_eq (file : Option Bytes) (l : Launch) (launches : List Launch) :
    provisionalIds file (l :: launches) =
      List.replicate (launches.length + 1) (acquireDeviceIdentity file l).1 := by
  induction launches generalizing file l with
  | nil => rfl
  | cons l' launches ih =>
    obtain ⟨hvalid, hfile⟩ := acquireDeviceIdentity_spec file l
    have hstable := acquireDeviceIdentity_stable hvalid hfile l'
    have hrest := ih (acquireDeviceIdentity file l).2 l'
    rw [hstable] at hrest
    show (acquireDeviceIdentity file l).1 ::
      provisionalIds (acquireDeviceIdentity file l).2 (l' :: launches) = _
    rw [hrest]
    rfl

theorem provisionalIds_valid (file : Option Bytes) (launches : List Launch) :
    ∀ id ∈ provisionalIds file launches, isValid id = true := by
  cases launches with
  | nil => exact nofun
  | cons l launches =>
    intro id hid
    rw [provisionalIds_eq] at hid
    rw [List.eq_of_mem_replicate hid]
    exact (acquireDeviceIdentity_spec file l).1

theorem provisionalIds_chain (file : Option Bytes) (launches : List Launch) :
    (provisionalIds file launches).IsChain fun id next => next = id := by
  cases launches with
  | nil => exact .nil
  | cons l launches =>
    rw [provisionalIds_eq]
    exact List.isChain_replicate_of_rel _ rfl

end Tombstone.DeviceIdentity
