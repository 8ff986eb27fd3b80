import Tombstone.NativeDump

/- The walk over the notes of an ELF segment (`read_build_id` in `native_crash.cpp`).

   (1) It ends, and writes no more than twenty bytes.
   (2) It reads inside the segment as long as no bounds check passes because its sum wraps around
       the address space (`Checked`). That is so of every segment that ends 8 GiB below the end of
       the address space. With 32-bit addresses a descriptor size can send the walk into the last
       bytes of the address space, where the check wraps.
   (3) It finds the build id of a sequence of notes, unless a size in front of it rounds up to 0. -/
namespace Tombstone.NoteWalk
open NativeDump

/-- A `PT_NOTE` segment in an address space of `width` bits. `around` is what the rest of the memory holds. -/
structure Segment (width : Nat) where
  start : Nat
  content : Bytes
  around : Nat → UInt8
  fits : start + content.length < 2 ^ width

/-- `NT_GNU_BUILD_ID`. -/
def buildIdType : UInt32 := 3

/-- `(n + 3) & ~3u`. -/
def padded (n : UInt32) : UInt32 := (n + 3) &&& ~~~3

def littleEndian (bytes : Bytes) : UInt32 := UInt32.ofNat (bytes.foldr (fun b v => v * 256 + b.toNat) 0)

/-- How a turn of the loop ends: the walk is over, or goes on at the next note. -/
inductive Outcome
  | ended (buildId : Option Bytes)
  | next (note : Nat)
  deriving DecidableEq

/-- The addresses that a turn reads, and how it ends. -/
structure Turn where
  reads : List Nat
  outcome : Outcome

structure Walk where
  reads : List Nat
  buildId : Option Bytes

namespace Segment

variable {width : Nat} (seg : Segment width)

/-- `end`. -/
def limit : Nat := seg.start + seg.content.length

def Inside (address : Nat) : Prop := seg.start ≤ address ∧ address < seg.limit

def load (address : Nat) : UInt8 :=
  if address < seg.start then seg.around address
  else seg.content.getD (address - seg.start) (seg.around address)

/-- A pointer sum, which wraps. -/
def advance (_ : Segment width) (pointer n : Nat) : Nat := (pointer + n) % 2 ^ width

def addresses (pointer n : Nat) : List Nat := (List.range n).map (seg.advance pointer)

def loads (pointer n : Nat) : Bytes := (seg.addresses pointer n).map seg.load

def namesz (note : Nat) : UInt32 := littleEndian (seg.loads note 4)
def descsz (note : Nat) : UInt32 := littleEndian (seg.loads (seg.advance note 4) 4)
def type (note : Nat) : UInt32 := littleEndian (seg.loads (seg.advance note 8) 4)

def name (note : Nat) : Nat := seg.advance note 12
def desc (note : Nat) : Nat := seg.advance (seg.name note) (padded (seg.namesz note)).toNat
def next (note : Nat) : Nat := seg.advance (seg.desc note) (padded (seg.descsz note)).toNat

/-- What is tested in front of `memcmp`. -/
def compares (note : Nat) : Bool :=
  seg.type note == buildIdType && seg.namesz note == 4 && decide (seg.advance (seg.name note) 4 ≤ seg.limit)

def isBuildId (note : Nat) : Bool := seg.compares note && seg.loads (seg.name note) 3 == lit "GNU"

def copied (note : Nat) : Nat := min (seg.descsz note).toNat maxBuildIdBytes

/-- What is read of a note whose descriptor begins in the segment, apart from the descriptor. -/
def examined (note : Nat) : List Nat :=
  seg.addresses note 4 ++ seg.addresses (seg.advance note 8) 4 ++
    (if seg.compares note then seg.addresses (seg.name note) 3 else []) ++ seg.addresses (seg.advance note 4) 4

/-- The loop body. -/
def turn (note : Nat) : Turn :=
  if seg.limit < seg.name note then ⟨[], .ended none⟩
  else if seg.limit < seg.desc note then ⟨seg.addresses note 4, .ended none⟩
  else if seg.isBuildId note then
    if seg.advance (seg.desc note) (seg.copied note) ≤ seg.limit then
      ⟨seg.examined note ++ seg.addresses (seg.desc note) (seg.copied note),
        .ended (some (seg.loads (seg.desc note) (seg.copied note)))⟩
    else ⟨seg.examined note, .ended none⟩
  else if seg.next note ≤ note then ⟨seg.examined note, .ended none⟩
  else ⟨seg.examined note, .next (seg.next note)⟩

theorem advance_lt (pointer n : Nat) : seg.advance pointer n < 2 ^ width := Nat.mod_lt _ (Nat.two_pow_pos width)

/-- **The walk goes forward.** -/
theorem turn_next {seg : Segment width} {note next : Nat} (h : (seg.turn note).outcome = .next next) :
    note < next ∧ next < 2 ^ width ∧ next = seg.next note ∧ seg.name note ≤ seg.limit ∧
      seg.desc note ≤ seg.limit ∧ seg.isBuildId note = false := by
  rw [turn] at h
  split at h
  · cases h
  · rename_i hname
    split at h
    · cases h
    · rename_i hdesc
      split at h
      · split at h <;> cases h
      · rename_i hid
        split at h
        · cases h
        · rename_i hforward
          cases h
          exact ⟨by omega, seg.advance_lt _ _, rfl, by omega, by omega, by simpa using hid⟩

/-- `read_build_id` from a note on. -/
def walk (note : Nat) : Walk :=
  match _h : (seg.turn note).outcome with
  | .ended buildId => ⟨(seg.turn note).reads, buildId⟩
  | .next next => ⟨(seg.turn note).reads ++ (walk next).reads, (walk next).buildId⟩
termination_by 2 ^ width - note
decreasing_by
  all_goals
    obtain ⟨hforward, hlt, -⟩ := turn_next (by assumption)
    omega

/-- `read_build_id`. -/
def readBuildId : Walk := seg.walk seg.start

theorem walk_ended {note : Nat} {buildId : Option Bytes} (h : (seg.turn note).outcome = .ended buildId) :
    seg.walk note = ⟨(seg.turn note).reads, buildId⟩ := by
  rw [walk]
  split
  · rename_i buildId' h'
    rw [h] at h'
    cases h'
    rfl
  · rename_i next h'
    rw [h] at h'
    cases h'

theorem walk_next {note next : Nat} (h : (seg.turn note).outcome = .next next) :
    seg.walk note = ⟨(seg.turn note).reads ++ (seg.walk next).reads, (seg.walk next).buildId⟩ := by
  rw [walk]
  split
  · rename_i buildId' h'
    rw [h] at h'
    cases h'
  · rename_i next' h'
    rw [h] at h'
    cases h'
    rfl

/-- The notes that the walk comes to. -/
inductive Visits : Nat → Prop
  | start : Visits seg.start
  | next {note next : Nat} : Visits note → (seg.turn note).outcome = .next next → Visits next

theorem Visits.lt {seg : Segment width} {note : Nat} (h : seg.Visits note) : note < 2 ^ width := by
  cases h with
  | start => exact Nat.lt_of_le_of_lt (Nat.le_add_right _ _) seg.fits
  | next _ hturn => exact (turn_next hturn).2.1

/-- **What is read** is read in the turns. -/
theorem mem_reads {address : Nat} :
    address ∈ seg.readBuildId.reads ↔ ∃ note, seg.Visits note ∧ address ∈ (seg.turn note).reads := by
  constructor
  · have hwalk : ∀ note, seg.Visits note → address ∈ (seg.walk note).reads →
        ∃ note, seg.Visits note ∧ address ∈ (seg.turn note).reads := by
      intro note
      fun_induction seg.walk note with
      | case1 note buildId hturn => exact fun hvisit hread => ⟨note, hvisit, hread⟩
      | case2 note next hturn ih =>
        intro hvisit hread
        rcases List.mem_append.1 hread with hread | hread
        · exact ⟨note, hvisit, hread⟩
        · exact ih (.next hvisit hturn) hread
    exact hwalk _ .start
  · rintro ⟨note, hvisit, hread⟩
    have hwhole : ∀ {note}, seg.Visits note → (seg.walk note).reads ⊆ seg.readBuildId.reads := by
      intro note hvisit
      induction hvisit with
      | start => exact fun _ h => h
      | next hvisit hturn ih =>
        rw [seg.walk_next hturn] at ih
        exact fun _ h => ih (List.mem_append_right _ h)
    apply hwhole hvisit
    cases hturn : (seg.turn note).outcome with
    | ended buildId =>
      rw [seg.walk_ended hturn]
      exact hread
    | next next =>
      rw [seg.walk_next hturn]
      exact List.mem_append_left _ hread

/-! ## What is written -/

theorem loads_length (pointer n : Nat) : (seg.loads pointer n).length = n := by
  rw [loads, addresses, List.length_map, List.length_map, List.length_range]

/-- **(1)** -/
theorem buildId_le {buildId : Bytes} (h : seg.readBuildId.buildId = some buildId) :
    buildId.length ≤ maxBuildIdBytes := by
  have hturn : ∀ note buildId, (seg.turn note).outcome = .ended (some buildId) → buildId.length ≤ maxBuildIdBytes := by
    intro note buildId hended
    rw [turn] at hended
    split at hended
    · cases hended
    · split at hended
      · cases hended
      · split at hended
        · split at hended
          · cases hended
            rw [loads_length, copied]
            exact Nat.min_le_right _ _
          · cases hended
        · split at hended <;> cases hended
  have hwalk : ∀ note, (seg.walk note).buildId = some buildId → buildId.length ≤ maxBuildIdBytes := by
    intro note
    fun_induction seg.walk note with
    | case1 note buildId' hended =>
      rintro rfl
      exact hturn note _ hended
    | case2 note next _ ih => exact ih
  exact hwalk _ h

/-! ## What is read -/

/-- The check of `n` bytes at a pointer passes because the sum wraps. -/
def CheckWraps (pointer n : Nat) : Prop := 2 ^ width ≤ pointer + n ∧ seg.advance pointer n ≤ seg.limit

/-- No bounds check of the turn passes because its sum wraps. -/
structure ChecksAt (note : Nat) : Prop where
  header : ¬ seg.CheckWraps note 12
  compared : seg.name note ≤ seg.limit → seg.compares note = true → ¬ seg.CheckWraps (seg.name note) 4
  copied : seg.name note ≤ seg.limit → seg.isBuildId note = true → ¬ seg.CheckWraps (seg.desc note) (seg.copied note)

/-- No bounds check of the walk passes because its sum wraps. -/
def Checked : Prop := ∀ note, seg.Visits note → seg.ChecksAt note

variable {seg}

theorem advance_eq {pointer n : Nat} (hlimit : seg.advance pointer n ≤ seg.limit)
    (hwraps : ¬ seg.CheckWraps pointer n) : seg.advance pointer n = pointer + n := by
  rw [CheckWraps, not_and] at hwraps
  apply Nat.mod_eq_of_lt
  by_contra h
  exact hwraps (Nat.le_of_not_lt h) hlimit

/-- What is read of a checked range stands in the segment. -/
theorem inside_addresses {pointer n address : Nat} (hpointer : seg.start ≤ pointer) (hlimit : pointer + n ≤ seg.limit)
    (h : address ∈ seg.addresses pointer n) : seg.Inside address := by
  obtain ⟨i, hi, rfl⟩ := List.mem_map.1 h
  rw [List.mem_range] at hi
  have hfits := seg.fits
  rw [limit] at hlimit
  have heq : seg.advance pointer i = pointer + i := Nat.mod_eq_of_lt (by omega)
  rw [heq, Inside, limit]
  omega

theorem Visits.start_le {note : Nat} (h : seg.Visits note) : seg.start ≤ note := by
  induction h with
  | start => exact Nat.le_refl _
  | next _ hturn ih => exact Nat.le_of_lt (Nat.lt_of_le_of_lt ih (turn_next hturn).1)

theorem compares_iff {note : Nat} : seg.compares note = true ↔
    seg.type note = buildIdType ∧ seg.namesz note = 4 ∧ seg.advance (seg.name note) 4 ≤ seg.limit := by
  simp [compares, and_assoc]

theorem desc_of_compares {note : Nat} (h : seg.compares note = true) :
    seg.desc note = seg.advance (seg.name note) 4 := by
  rw [desc, (compares_iff.1 h).2.1]
  rfl

theorem turn_inside {note address : Nat} (hstart : seg.start ≤ note) (hchecks : seg.ChecksAt note)
    (h : address ∈ (seg.turn note).reads) : seg.Inside address := by
  have hfits := seg.fits
  rw [← limit] at hfits
  rw [turn] at h
  split at h
  · cases h
  rename_i hname
  have hheader : seg.name note = note + 12 := advance_eq (Nat.le_of_not_lt hname) hchecks.header
  have hfour : seg.advance note 4 = note + 4 := Nat.mod_eq_of_lt (by omega)
  have height : seg.advance note 8 = note + 8 := Nat.mod_eq_of_lt (by omega)
  have hcompared : seg.compares note = true → seg.advance (seg.name note) 4 = note + 16 ∧ note + 16 ≤ seg.limit := by
    intro hcompares
    have hlimit := (compares_iff.1 hcompares).2.2
    have heq := advance_eq hlimit (hchecks.compared (Nat.le_of_not_lt hname) hcompares)
    omega
  split at h
  · exact inside_addresses hstart (by omega) h
  have hexamined : address ∈ seg.examined note → seg.Inside address := by
    intro hread
    rw [examined, hfour, height, List.mem_append, List.mem_append, List.mem_append] at hread
    rcases hread with ((hread | hread) | hread) | hread
    · exact inside_addresses hstart (by omega) hread
    · exact inside_addresses (by omega) (by omega) hread
    · split at hread
      · rename_i hcompares
        obtain ⟨-, hlimit⟩ := hcompared hcompares
        exact inside_addresses (by omega) (by omega) hread
      · cases hread
    · exact inside_addresses (by omega) (by omega) hread
  split at h
  · rename_i hid
    have hcompares : seg.compares note = true := (Bool.and_eq_true_iff.1 hid).1
    have hdesc := desc_of_compares hcompares
    obtain ⟨hsum, hlimit⟩ := hcompared hcompares
    split at h
    · rename_i hcopied
      rcases List.mem_append.1 h with hread | hread
      · exact hexamined hread
      · have heq := advance_eq hcopied (hchecks.copied (Nat.le_of_not_lt hname) hid)
        exact inside_addresses (by omega) (by omega) hread
    · exact hexamined h
  · split at h
    · exact hexamined h
    · exact hexamined h

/-- **(2)** -/
theorem Checked.inside (h : seg.Checked) : ∀ address ∈ seg.readBuildId.reads, seg.Inside address := by
  intro address hread
  obtain ⟨note, hvisit, hturn⟩ := seg.mem_reads.1 hread
  exact turn_inside hvisit.start_le (h note hvisit) hturn

theorem note_read {note : Nat} (hnote : note < 2 ^ width) (hname : seg.name note ≤ seg.limit) :
    note ∈ (seg.turn note).reads := by
  have hfirst : note ∈ seg.addresses note 4 := by
    refine List.mem_map.2 ⟨0, by simp, ?_⟩
    rw [advance, Nat.add_zero, Nat.mod_eq_of_lt hnote]
  have hexamined : note ∈ seg.examined note := by
    rw [examined, List.append_assoc, List.append_assoc]
    exact List.mem_append_left _ hfirst
  rw [turn, if_neg (Nat.not_lt.2 hname)]
  split
  · exact hfirst
  · split
    · split
      · exact List.mem_append_left _ hexamined
      · exact hexamined
    · split
      · exact hexamined
      · exact hexamined

/-- Where the segment ends before the last twenty bytes, only the check of a header can wrap, and the header is
then read. -/
theorem checked_of_inside (hlimit : seg.limit + 20 < 2 ^ width)
    (h : ∀ address ∈ seg.readBuildId.reads, seg.Inside address) : seg.Checked := by
  intro note hvisit
  have hheader : ¬ seg.CheckWraps note 12 := by
    rintro ⟨hwraps, hname⟩
    have hread := h note (seg.mem_reads.2 ⟨note, hvisit, note_read hvisit.lt hname⟩)
    have := hread.2
    omega
  refine ⟨hheader, fun hname _ hwraps => ?_, fun hname hid hwraps => ?_⟩
  · have := hwraps.1
    omega
  · have hcompares : seg.compares note = true := (Bool.and_eq_true_iff.1 hid).1
    have hdesc : seg.desc note ≤ seg.limit := by
      rw [desc_of_compares hcompares]
      exact (compares_iff.1 hcompares).2.2
    have hcopied : seg.copied note ≤ 20 := Nat.min_le_right _ _
    have := hwraps.1
    omega

theorem padded_toNat (n : UInt32) : (padded n).toNat = (n.toNat + 3) % 2 ^ 32 / 4 * 4 := by
  have hmask : ∀ m : Nat, m < 2 ^ 32 → m &&& 4294967292 = m / 4 * 4 := by
    intro m hm
    have hhigh : (m &&& 4294967292) / 2 ^ 2 = m / 2 ^ 2 := by
      rw [Nat.and_div_two_pow]
      exact Nat.and_two_pow_sub_one_of_lt_two_pow (n := 30) (by omega)
    have hlow : (m &&& 4294967292) % 2 ^ 2 = 0 := by
      rw [Nat.and_mod_two_pow]
      exact Nat.and_zero _
    omega
  rw [padded, UInt32.toNat_and, UInt32.toNat_add]
  exact hmask _ (Nat.mod_lt _ (by decide))

theorem Visits.le_limit {note : Nat} (h : seg.Visits note) : note ≤ seg.limit + 2 ^ 32 := by
  cases h with
  | start => exact Nat.le_trans (Nat.le_add_right _ _) (Nat.le_add_right _ _)
  | @next before _ _ hturn =>
    obtain ⟨-, -, hnext, -, hdesc, -⟩ := turn_next hturn
    have hstep := Nat.mod_le (seg.desc before + (padded (seg.descsz before)).toNat) (2 ^ width)
    have hsize := (padded (seg.descsz before)).toNat_lt
    rw [hnext, Segment.next, advance]
    omega

/-- A segment that ends 8 GiB below the end of the address space. -/
theorem checked_of_far (hlimit : seg.limit + 2 ^ 33 ≤ 2 ^ width) : seg.Checked := by
  intro note hvisit
  have hnote := hvisit.le_limit
  refine ⟨fun hwraps => ?_, fun hname _ hwraps => ?_, fun hname hid hwraps => ?_⟩
  · have := hwraps.1
    omega
  · have := hwraps.1
    omega
  · have hdesc : seg.desc note ≤ seg.limit := by
      rw [desc_of_compares (Bool.and_eq_true_iff.1 hid).1]
      exact (compares_iff.1 (Bool.and_eq_true_iff.1 hid).1).2.2
    have hcopied : seg.copied note ≤ 20 := Nat.min_le_right _ _
    have := hwraps.1
    omega

end Segment

/-! ## A sequence of notes -/

def word (n : UInt32) : Bytes :=
  [n.toNat % 256, n.toNat / 256 % 256, n.toNat / 65536 % 256, n.toNat / 16777216 % 256].map UInt8.ofNat

theorem littleEndian_word (n : UInt32) : littleEndian (word n) = n := by
  have hbyte : ∀ m : Nat, (UInt8.ofNat (m % 256)).toNat = m % 256 := fun m =>
    UInt8.toNat_ofNat_of_lt' (Nat.mod_lt _ (by decide))
  have hlt := n.toNat_lt
  apply UInt32.toNat_inj.1
  simp only [littleEndian, word, List.map_cons, List.map_nil, List.foldr_cons, List.foldr_nil, hbyte]
  rw [UInt32.toNat_ofNat_of_lt']
  · omega
  · rw [UInt32.size]
    omega

/-- The padding behind a field that ends `n` bytes after a multiple of four. -/
def gap (n : Nat) : Nat := (4 - n % 4) % 4

/-- A well-formed note. Its name and its descriptor are each padded to a multiple of four bytes. -/
structure Note where
  type : UInt32
  name : Bytes
  namePad : Bytes
  desc : Bytes
  descPad : Bytes
  name_lt : name.length < 2 ^ 32
  desc_lt : desc.length < 2 ^ 32
  namePad_length : namePad.length = gap name.length
  descPad_length : descPad.length = gap desc.length

namespace Note

def bytes (note : Note) : Bytes :=
  word (UInt32.ofNat note.name.length) ++ word (UInt32.ofNat note.desc.length) ++ word note.type ++
    (note.name ++ note.namePad) ++ (note.desc ++ note.descPad)

def isBuildId (note : Note) : Bool :=
  note.type == buildIdType && note.name.length == 4 && note.name.take 3 == lit "GNU"

/-- Neither size rounds up to 0. -/
def Rounds (note : Note) : Prop := note.name.length + 3 < 2 ^ 32 ∧ note.desc.length + 3 < 2 ^ 32

/-- The descriptor of the first build id. -/
def buildIdOf (notes : List Note) : Option Bytes :=
  (notes.find? isBuildId).map fun note => note.desc.take maxBuildIdBytes

end Note

namespace Segment

variable {width : Nat} {seg : Segment width}

theorem advance_inside {pointer n : Nat} (h : pointer + n ≤ seg.limit) : seg.advance pointer n = pointer + n :=
  Nat.mod_eq_of_lt (Nat.lt_of_le_of_lt h seg.fits)

/-- What stands in the segment is what is loaded. -/
theorem loads_eq {before part after : Bytes} (h : seg.content = before ++ part ++ after) :
    seg.loads (seg.start + before.length) part.length = part := by
  apply List.ext_getElem
  · exact loads_length _ _ _
  · intro i hi hpart
    have hlimit : seg.start + before.length + i ≤ seg.limit := by
      rw [limit, h, List.length_append, List.length_append]
      omega
    have hindex : seg.start + before.length + i - seg.start = before.length + i := by omega
    have hget : seg.content[before.length + i]? = some part[i] := by
      rw [h, List.append_assoc, List.getElem?_append_right (Nat.le_add_right _ _), Nat.add_sub_cancel_left,
        List.getElem?_append_left hpart, List.getElem?_eq_getElem hpart]
    simp only [loads, addresses, List.getElem_map, List.getElem_range]
    rw [advance_inside hlimit, load, if_neg (by omega), hindex, List.getD_eq_getElem?_getD, hget, Option.getD_some]

/-- A part of a note is what is loaded at its offset. -/
theorem part_eq (done before part after : Bytes) (h : seg.content = done ++ (before ++ part ++ after)) :
    seg.loads (seg.start + done.length + before.length) part.length = part ∧
      seg.start + done.length + before.length + part.length ≤ seg.limit := by
  have hcontent : seg.content = done ++ before ++ part ++ after := by
    rw [h, List.append_assoc, List.append_assoc, List.append_assoc]
  have hloads := loads_eq hcontent
  rw [List.length_append, ← Nat.add_assoc] at hloads
  refine ⟨hloads, ?_⟩
  rw [limit, hcontent]
  simp only [List.length_append]
  omega

theorem header_eq {done after : Bytes} {note : Note} (h : seg.content = done ++ (note.bytes ++ after)) :
    seg.namesz (seg.start + done.length) = UInt32.ofNat note.name.length ∧
      seg.descsz (seg.start + done.length) = UInt32.ofNat note.desc.length ∧
        seg.type (seg.start + done.length) = note.type ∧
          seg.name (seg.start + done.length) = seg.start + done.length + 12 := by
  let namesz := word (UInt32.ofNat note.name.length)
  let descsz := word (UInt32.ofNat note.desc.length)
  let rest := note.name ++ note.namePad ++ (note.desc ++ note.descPad) ++ after
  have hcontent : seg.content = done ++ (namesz ++ descsz ++ word note.type ++ rest) := by
    rw [h, Note.bytes]
    simp only [namesz, descsz, rest, List.append_assoc]
  obtain ⟨hnamesz, -⟩ := part_eq done [] namesz (descsz ++ word note.type ++ rest)
    (by simpa only [List.append_assoc, List.nil_append] using hcontent)
  obtain ⟨hdescsz, -⟩ := part_eq done namesz descsz (word note.type ++ rest)
    (by simpa only [List.append_assoc] using hcontent)
  obtain ⟨htype, hlimit⟩ := part_eq done (namesz ++ descsz) (word note.type) rest hcontent
  have htwelve : seg.start + done.length + 12 ≤ seg.limit := hlimit
  have hfour : seg.advance (seg.start + done.length) 4 = seg.start + done.length + 4 := advance_inside (by omega)
  have height : seg.advance (seg.start + done.length) 8 = seg.start + done.length + 8 := advance_inside (by omega)
  refine ⟨?_, ?_, ?_, advance_inside htwelve⟩
  · rw [Segment.namesz]
    exact (congrArg littleEndian hnamesz).trans (littleEndian_word _)
  · rw [Segment.descsz, hfour]
    exact (congrArg littleEndian hdescsz).trans (littleEndian_word _)
  · rw [type, height]
    exact (congrArg littleEndian htype).trans (littleEndian_word _)

theorem padded_length {n : Nat} (h : n + 3 < 2 ^ 32) : (padded (UInt32.ofNat n)).toNat = n + gap n := by
  rw [padded_toNat, UInt32.toNat_ofNat_of_lt' (by rw [UInt32.size]; omega), Nat.mod_eq_of_lt h, gap]
  omega

theorem bytes_length (note : Note) :
    note.bytes.length = 12 + (note.name.length + gap note.name.length) + (note.desc.length + gap note.desc.length) := by
  simp only [Note.bytes, List.length_append, note.namePad_length, note.descPad_length]
  rfl

theorem part_take (done before part after : Bytes) (h : seg.content = done ++ (before ++ part ++ after)) (n : Nat) :
    seg.loads (seg.start + done.length + before.length) (part.take n).length = part.take n := by
  apply (part_eq done before (part.take n) (part.drop n ++ after) _).1
  rw [h, List.append_assoc before (part.take n), ← List.append_assoc (part.take n), List.take_append_drop,
    List.append_assoc]

theorem name_eq {done after : Bytes} {note : Note} (h : seg.content = done ++ (note.bytes ++ after)) (n : Nat) :
    seg.loads (seg.start + done.length + 12) (note.name.take n).length = note.name.take n ∧
      seg.start + done.length + note.bytes.length ≤ seg.limit := by
  constructor
  · apply part_take done (word (UInt32.ofNat note.name.length) ++ word (UInt32.ofNat note.desc.length) ++
      word note.type) note.name (note.namePad ++ (note.desc ++ note.descPad) ++ after)
    rw [h, Note.bytes]
    simp only [List.append_assoc]
  · exact (part_eq done [] note.bytes after (by rw [h, List.nil_append])).2

/-- The descriptor is loaded behind the padded name. -/
theorem desc_eq {done after : Bytes} {note : Note} (h : seg.content = done ++ (note.bytes ++ after)) (n : Nat) :
    seg.loads (seg.start + done.length + (12 + (note.name.length + gap note.name.length))) (note.desc.take n).length =
      note.desc.take n := by
  let front := word (UInt32.ofNat note.name.length) ++ word (UInt32.ofNat note.desc.length) ++ word note.type ++
    (note.name ++ note.namePad)
  have hfront : front.length = 12 + (note.name.length + gap note.name.length) := by
    simp only [front, List.length_append, note.namePad_length]
    rfl
  rw [← hfront]
  apply part_take done front note.desc (note.descPad ++ after)
  rw [h, Note.bytes]
  simp only [front, List.append_assoc]

theorem isBuildId_eq {done after : Bytes} {note : Note} (h : seg.content = done ++ (note.bytes ++ after)) :
    seg.isBuildId (seg.start + done.length) = note.isBuildId := by
  obtain ⟨hnamesz, -, htype, hname⟩ := header_eq h
  obtain ⟨hloads, hlimit⟩ := name_eq h 3
  have hlength := bytes_length note
  have hsize : UInt32.ofNat note.name.length = 4 ↔ note.name.length = 4 := by
    rw [← UInt32.toNat_inj, UInt32.toNat_ofNat_of_lt' note.name_lt]
    rfl
  rw [isBuildId, compares, hnamesz, htype, hname, Note.isBuildId]
  by_cases hfour : note.name.length = 4
  · have hpart : (note.name.take 3).length = 3 := by
      rw [List.length_take, hfour]
      rfl
    rw [hpart] at hloads
    have hcheck : seg.advance (seg.start + done.length + 12) 4 ≤ seg.limit := by
      rw [advance_inside (by omega)]
      omega
    rw [hsize.2 hfour, hloads, hfour, decide_eq_true hcheck, Bool.and_true]
    rfl
  · have hother : UInt32.ofNat note.name.length ≠ 4 := fun heq => hfour (hsize.1 heq)
    rw [beq_eq_false_iff_ne.2 hother, beq_eq_false_iff_ne.2 hfour, Bool.and_false, Bool.false_and]
    rfl

/-- A turn at a build id ends the walk with its descriptor. -/
theorem turn_buildId {done after : Bytes} {note : Note} (h : seg.content = done ++ (note.bytes ++ after))
    (hid : note.isBuildId = true) :
    (seg.turn (seg.start + done.length)).outcome = .ended (some (note.desc.take maxBuildIdBytes)) := by
  obtain ⟨hnamesz, hdescsz, -, hname⟩ := header_eq h
  obtain ⟨-, hlimit⟩ := name_eq h 0
  have hlength := bytes_length note
  have hfour : note.name.length = 4 := by
    simp only [Note.isBuildId, Bool.and_eq_true, beq_iff_eq] at hid
    exact hid.1.2
  have hgap : gap note.name.length = 0 := by rw [hfour]; rfl
  have hcopied : seg.copied (seg.start + done.length) = (note.desc.take maxBuildIdBytes).length := by
    rw [copied, hdescsz, UInt32.toNat_ofNat_of_lt' note.desc_lt, List.length_take, Nat.min_comm]
  have hdesc : seg.desc (seg.start + done.length) =
      seg.start + done.length + (12 + (note.name.length + gap note.name.length)) := by
    rw [desc, hnamesz, padded_length (by omega), hname, advance_inside (by omega)]
    omega
  have htake : (note.desc.take maxBuildIdBytes).length ≤ note.desc.length := by
    rw [List.length_take]
    omega
  have hfits : seg.advance (seg.desc (seg.start + done.length)) (seg.copied (seg.start + done.length)) ≤ seg.limit := by
    rw [hdesc, hcopied, advance_inside (by omega)]
    omega
  rw [turn, if_neg (by omega), if_neg (by omega), if_pos ((isBuildId_eq h).trans hid), if_pos hfits, hdesc, hcopied,
    desc_eq h]

theorem turn_other {done after : Bytes} {note : Note} (h : seg.content = done ++ (note.bytes ++ after))
    (hrounds : note.Rounds) (hid : note.isBuildId = false) :
    (seg.turn (seg.start + done.length)).outcome = .next (seg.start + (done ++ note.bytes).length) := by
  obtain ⟨hnamesz, hdescsz, -, hname⟩ := header_eq h
  obtain ⟨-, hlimit⟩ := name_eq h 0
  have hlength := bytes_length note
  have hdesc : seg.desc (seg.start + done.length) =
      seg.start + done.length + (12 + (note.name.length + gap note.name.length)) := by
    rw [desc, hnamesz, padded_length hrounds.1, hname, advance_inside (by omega)]
    omega
  have hnext : seg.next (seg.start + done.length) = seg.start + (done ++ note.bytes).length := by
    rw [next, hdescsz, padded_length hrounds.2, hdesc, List.length_append, advance_inside (by omega)]
    omega
  have hforward : ¬ seg.next (seg.start + done.length) ≤ seg.start + done.length := by
    rw [hnext, List.length_append]
    omega
  have hother : ¬ seg.isBuildId (seg.start + done.length) = true := by rw [isBuildId_eq h, hid]; decide
  rw [turn, if_neg (by omega), if_neg (by omega), if_neg hother, if_neg hforward, hnext]

/-- **The walk over notes** finds the first build id. -/
theorem walk_notes {done : Bytes} {notes : List Note} (hchecked : seg.Checked)
    (h : seg.content = done ++ notes.flatMap Note.bytes) (hvisit : seg.Visits (seg.start + done.length))
    (hrounds : ∀ note ∈ notes.takeWhile fun note => !note.isBuildId, note.Rounds) :
    (seg.walk (seg.start + done.length)).buildId = Note.buildIdOf notes := by
  induction notes generalizing done with
  | nil =>
    have hend : seg.start + done.length = seg.limit := by
      rw [limit, h, List.flatMap_nil, List.append_nil]
    have hover : seg.limit < seg.name (seg.start + done.length) := by
      by_contra hname
      have heq := advance_eq (Nat.le_of_not_lt hname) (hchecked _ hvisit).header
      rw [name] at hname
      omega
    have hturn : (seg.turn (seg.start + done.length)).outcome = .ended none := by rw [turn, if_pos hover]
    rw [walk_ended _ hturn]
    rfl
  | cons note notes ih =>
    rw [List.flatMap_cons] at h
    cases hid : note.isBuildId with
    | true =>
      rw [walk_ended _ (turn_buildId h hid), Note.buildIdOf, List.find?_cons_of_pos hid]
      rfl
    | false =>
      rw [List.takeWhile_cons_of_pos (by rw [hid]; rfl)] at hrounds
      obtain ⟨hnote, hmore⟩ := List.forall_mem_cons.1 hrounds
      have hturn := turn_other h hnote hid
      have hnext := ih (by rw [h, List.append_assoc]) (.next hvisit hturn) hmore
      rw [walk_next _ hturn, hnext, Note.buildIdOf, Note.buildIdOf, List.find?_cons_of_neg (by rw [hid]; decide)]

/-- **(3)** -/
theorem readBuildId_notes {notes : List Note} (hchecked : seg.Checked) (h : seg.content = notes.flatMap Note.bytes)
    (hrounds : ∀ note ∈ notes.takeWhile fun note => !note.isBuildId, note.Rounds) :
    seg.readBuildId.buildId = Note.buildIdOf notes :=
  @walk_notes width seg [] notes hchecked h .start hrounds

/-- **What the walk does.** It writes no more than twenty bytes. It reads inside the segment when no bounds check
wraps, and only then where the segment ends more than twenty bytes below the end of the address space; 8 GiB below
it none can wrap. It finds the build id of a sequence of notes when, moreover, no size in front of it rounds up to 0. -/
theorem readBuildId_checked (seg : Segment width) :
    (∀ buildId, seg.readBuildId.buildId = some buildId → buildId.length ≤ maxBuildIdBytes) ∧
    (seg.Checked → ∀ address ∈ seg.readBuildId.reads, seg.Inside address) ∧
    (seg.limit + 20 < 2 ^ width →
      ((∀ address ∈ seg.readBuildId.reads, seg.Inside address) ↔ seg.Checked)) ∧
    (seg.limit + 2 ^ 33 ≤ 2 ^ width → seg.Checked) ∧
    (seg.Checked → ∀ notes : List Note, seg.content = notes.flatMap Note.bytes →
      (∀ note ∈ notes.takeWhile fun note => !note.isBuildId, note.Rounds) →
        seg.readBuildId.buildId = Note.buildIdOf notes) :=
  ⟨fun _ => seg.buildId_le, Checked.inside, fun hlimit => ⟨checked_of_inside hlimit, Checked.inside⟩, checked_of_far,
    fun hchecked _ => readBuildId_notes hchecked⟩

end Segment

/-! ## Hostile notes -/

/-- One note, with a descriptor size that leads to the last four bytes of the address space. -/
def hostile : Segment 32 where
  start := 0x1000
  content := word 0 ++ word 0xFFFFEFF0 ++ word 1
  around := fun _ => 0
  fits := by decide

theorem hostile_read : 0xFFFFFFFC ∈ hostile.readBuildId.reads ∧ ¬ hostile.Inside 0xFFFFFFFC := by
  have hturn : (hostile.turn 0x1000).outcome = .next 0xFFFFFFFC := by decide +kernel
  have hname : hostile.name 0xFFFFFFFC ≤ hostile.limit := by decide
  refine ⟨hostile.mem_reads.2 ⟨_, .next .start hturn, Segment.note_read (by decide) hname⟩, fun hinside => ?_⟩
  exact absurd hinside.2 (by decide)

/-- A build id. -/
def decoy : Note where
  type := 3
  name := lit "GNU" ++ [0]
  namePad := []
  desc := [0x99]
  descPad := [0, 0, 0]
  name_lt := by decide
  desc_lt := by decide
  namePad_length := by decide
  descPad_length := by decide

/-- A note of another type, with a build id for the front of a descriptor whose size rounds up to 0. -/
def oversized (filler : Bytes) (h : filler.length = 2 ^ 32 - 21) : Note where
  type := 1
  name := []
  namePad := []
  desc := decoy.bytes ++ filler
  descPad := [0]
  name_lt := by decide
  desc_lt := by
    rw [List.length_append, h]
    decide
  namePad_length := by decide
  descPad_length := by
    rw [List.length_append, h]
    decide

theorem oversized_misread {filler : Bytes} (h : filler.length = 2 ^ 32 - 21) {seg : Segment 64}
    (hcontent : seg.content = (oversized filler h).bytes) : seg.readBuildId.buildId = some [0x99] := by
  have hwhole : seg.content = [] ++ ((oversized filler h).bytes ++ []) := by
    rw [hcontent, List.append_nil, List.nil_append]
  obtain ⟨hnamesz, hdescsz, -, hname⟩ := Segment.header_eq hwhole
  obtain ⟨-, hlimit⟩ := Segment.name_eq hwhole 0
  have hlength := Segment.bytes_length (oversized filler h)
  have hdescLength : (oversized filler h).desc.length = 2 ^ 32 - 1 := by
    show (decoy.bytes ++ filler).length = _
    rw [List.length_append, h]
    rfl
  have hnameLength : (oversized filler h).name.length = 0 := rfl
  rw [hnameLength] at hnamesz hlength
  -- the size of the descriptor rounds up to 0
  have hround : padded (seg.descsz (seg.start + ([] : Bytes).length)) = 0 := by
    rw [hdescsz, hdescLength]
    decide
  have hbehind : seg.start + 12 ≤ seg.limit := by
    rw [hlength, List.length_nil] at hlimit
    omega
  have hdesc : seg.desc (seg.start + ([] : Bytes).length) = seg.start + 12 := by
    rw [Segment.desc, hnamesz, hname]
    exact Segment.advance_inside hbehind
  have hnext : seg.next (seg.start + ([] : Bytes).length) = seg.start + 12 := by
    rw [Segment.next, hround, hdesc]
    exact Segment.advance_inside hbehind
  have hother : ¬ seg.isBuildId (seg.start + ([] : Bytes).length) = true := by
    rw [Segment.isBuildId_eq hwhole]
    exact Bool.false_ne_true
  have hturn : (seg.turn (seg.start + ([] : Bytes).length)).outcome = .next (seg.start + 12) := by
    rw [Segment.turn, if_neg (by rw [hname, List.length_nil]; omega), if_neg (by rw [hdesc]; omega), if_neg hother,
      if_neg (by rw [hnext, List.length_nil]; omega), hnext]
  have hdecoy : seg.content = (word 0 ++ word (UInt32.ofNat (2 ^ 32 - 1)) ++ word 1) ++
      (decoy.bytes ++ (filler ++ [0])) := by
    rw [hcontent, Note.bytes, hdescLength]
    show _ ++ (decoy.bytes ++ filler ++ [0]) = _
    rw [List.append_assoc decoy.bytes]
    rfl
  have hfound := Segment.turn_buildId hdecoy (by decide)
  have hbehindLength : seg.start + (word 0 ++ word (UInt32.ofNat (2 ^ 32 - 1)) ++ word 1).length = seg.start + 12 := rfl
  rw [hbehindLength] at hfound
  have hstart : seg.start + ([] : Bytes).length = seg.start := rfl
  rw [hstart] at hturn
  rw [Segment.readBuildId, Segment.walk_next _ hturn, Segment.walk_ended _ hfound]
  rfl

/-- A size can lead the walk out of the segment, and a size that rounds up to 0 can hide what a note is. -/
theorem readBuildId_hostile :
    (¬ ∀ seg : Segment 32, ∀ address ∈ seg.readBuildId.reads, seg.Inside address) ∧
    ¬ ∀ (seg : Segment 64) (notes : List Note), seg.content = notes.flatMap Note.bytes →
        seg.readBuildId.buildId = Note.buildIdOf notes := by
  constructor
  · intro hall
    exact hostile_read.2 (hall hostile _ hostile_read.1)
  · intro hall
    have hmisread : ∀ filler : Bytes, filler.length = 2 ^ 32 - 21 → False := by
      intro filler h
      have hlength : (oversized filler h).bytes.length = 2 ^ 32 + 12 := by
        rw [Segment.bytes_length]
        show 12 + (0 + gap 0) + ((decoy.bytes ++ filler).length + gap (decoy.bytes ++ filler).length) = _
        rw [List.length_append, h]
        rfl
      let seg : Segment 64 :=
        { start := 0x1000, content := (oversized filler h).bytes, around := fun _ => 0, fits := by rw [hlength]; decide }
      have hnotes : seg.content = [oversized filler h].flatMap Note.bytes := by
        rw [List.flatMap_singleton]
      have hread := hall seg _ hnotes
      rw [oversized_misread h rfl] at hread
      cases hread
    exact hmisread _ (List.length_replicate (a := 0))

end Tombstone.NoteWalk
