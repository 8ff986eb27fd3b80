import Tombstone.Decimal
import Tombstone.Delimited
import Tombstone.JsonScan
import Tombstone.JsonWriter

/- The native crash dump (`native_crash.cpp`): the text the signal handler writes, and the
   parser that picks it up at the next launch. The parser's `long` has no bound here: where its
   width matters, and where the arithmetic leaves it, is the subject of `DumpNumbers`.

   (1) What is written as hex or decimal reads back as itself, for every 64-bit address and
       every `int`.
   (2) A frame line reads back as its frame exactly when the module name has neither a space
       nor a newline in it.
   (3) So a dump round-trips exactly when every resolved frame's module is so named. -/
namespace Tombstone.NativeDump

/-! ## What the handler writes -/

/-- `kMaxNameLen`. -/
def maxNameLen : Nat := 255

/-- `kMaxBuildIdBytes`: a SHA-1 GNU build id. -/
def maxBuildIdBytes : Nat := 20

/-- `copy_bounded`: up to `cap` bytes before the terminator. -/
def copyBounded (src : Bytes) (cap : Nat) : Bytes := (src.takeWhile (· != 0)).take cap

/-- `ModuleEntry`, captured at install time. -/
structure ModuleEntry where
  base : UInt64
  limit : UInt64
  name : Bytes
  buildId : Bytes
  name_le : name.length ≤ maxNameLen
  name_no_nul : 0 ∉ name
  buildId_le : buildId.length ≤ maxBuildIdBytes

/-- A code address as the handler finds it in its module table. -/
inductive CapturedFrame
  | unresolved (address : UInt64)
  | resolved (entry : ModuleEntry) (offset : UInt64)

/-- `resolve_module`: the first module whose range holds the address, and the offset in it. -/
def resolveModule (modules : List ModuleEntry) (address : UInt64) : CapturedFrame :=
  match modules.find? fun m => decide (m.base ≤ address) && decide (address < m.limit) with
  | none => .unresolved address
  | some m => .resolved m (address - m.base)

/-- The four bits of `value` above `4 * k` others. -/
def nibble (value : UInt64) (k : Nat) : Nat := (value.toNat >>> (4 * k)) % 16

/-- The first loop of `hex_to`: leading zeros are passed over, down to the last digit. -/
def leadingNibble (value : UInt64) : Nat → Nat
  | 0 => 0
  | k + 1 => if nibble value (k + 1) = 0 then leadingNibble value k else k + 1

/-- The second loop of `hex_to`. -/
def nibblesDown (value : UInt64) : Nat → Bytes
  | 0 => [hexDigit (nibble value 0)]
  | k + 1 => hexDigit (nibble value (k + 1)) :: nibblesDown value k

/-- `hex_to`: lowercase, behind `0x`. -/
def hexTo (value : UInt64) : Bytes := lit "0x" ++ nibblesDown value (leadingNibble value 15)

/-- `dec_to`. -/
def decTo (value : Int) : Bytes := intText value

/-- The build id in `write_frame`: two digits a byte. -/
def buildIdText (buildId : Bytes) : Bytes :=
  buildId.flatMap fun b => [hexDigit (b.toNat / 16), hexDigit (b.toNat % 16)]

/-- The part of `write_frame` behind `"frame "`. -/
def frameText : CapturedFrame → Bytes
  | .unresolved address => lit "??" ++ lit " " ++ hexTo address ++ lit " "
  | .resolved m offset => m.name ++ lit " " ++ hexTo offset ++ lit " " ++ buildIdText m.buildId

/-- `write_frame`. -/
def writeFrame (frame : CapturedFrame) : Bytes := lit "frame " ++ frameText frame ++ [10]

/-- The text written for a signal and the frames captured for it. -/
def writeDump (signal code : Int32) (fault : UInt64) (frames : List CapturedFrame) : Bytes :=
  lit "tombstone-native-crash 1" ++ [10]
    ++ (lit "signal " ++ decTo signal.toInt ++ [10])
    ++ (lit "code " ++ decTo code.toInt ++ [10])
    ++ (lit "fault " ++ hexTo fault ++ [10])
    ++ frames.flatMap writeFrame ++ (lit "end" ++ [10])

/-- `tombstone_signal_handler`: the frames of the program counter and the link register,
where they are known. -/
def signalHandler (modules : List ModuleEntry) (signal code : Int32) (fault pc lr : UInt64) :
    Bytes :=
  writeDump signal code fault
    ((if pc ≠ 0 then [resolveModule modules pc] else [])
      ++ if lr ≠ 0 then [resolveModule modules lr] else [])

/-! ## What the next launch reads -/

/-- `NativeCrashFrame`. -/
structure NativeCrashFrame where
  module : Bytes
  offset : UInt64
  buildId : Bytes
  deriving DecidableEq

/-- `NativeCrashDump`. -/
structure NativeCrashDump where
  signalNo : Int32 := 0
  code : Int32 := 0
  faultAddr : UInt64 := 0
  frames : List NativeCrashFrame := []
  deriving DecidableEq

/-- The loop of `parse_hex`: it stops at the first byte that is no digit. -/
def hexLoop (v : UInt64) : Bytes → UInt64
  | [] => v
  | c :: cs =>
    match JsonScan.hexValue c with
    | some d => hexLoop (v <<< 4 ||| d.toUInt64) cs
    | none => v

/-- `parse_hex`: the `0x` in front may be missing. -/
def parseHex (text : Bytes) : UInt64 :=
  if (lit "0x").isPrefixOf text || (lit "0X").isPrefixOf text then hexLoop 0 (text.drop 2)
  else hexLoop 0 text

/-- The loop of `parse_dec`. -/
def decLoop (v : Nat) : Bytes → Nat
  | [] => v
  | c :: cs => if JsonScan.isDigit c then decLoop (v * 10 + (c.toNat - 48)) cs else v

/-- `parse_dec`. The caller narrows the result to an `int`. -/
def parseDec (text : Bytes) : Int :=
  match text with
  | c :: cs => if c = ch '-' then -(decLoop 0 cs : Int) else decLoop 0 (c :: cs)
  | [] => 0

/-- The body of a `frame` line: module, offset, and a build id that may be missing. Without
a space there is no frame. -/
def parseFrame (rest : Bytes) : Option NativeCrashFrame :=
  (Delimited.cut 32 rest).map fun r =>
    let fields := (Delimited.cut 32 r.2).getD (r.2, [])
    { module := r.1
      offset := parseHex fields.1
      buildId := (fields.2.reverse.dropWhile (· == 32)).reverse }

/-- One line of `parse_dump`: whether the header was seen, and the dump so far. -/
def parseLine (state : Bool × NativeCrashDump) (line : Bytes) : Bool × NativeCrashDump :=
  if (lit "tombstone-native-crash").isPrefixOf line then (true, state.2)
  else if (lit "signal ").isPrefixOf line then
    (state.1, { state.2 with signalNo := Int32.ofInt (parseDec (line.drop 7)) })
  else if (lit "code ").isPrefixOf line then
    (state.1, { state.2 with code := Int32.ofInt (parseDec (line.drop 5)) })
  else if (lit "fault ").isPrefixOf line then
    (state.1, { state.2 with faultAddr := parseHex (line.drop 6) })
  else if (lit "frame ").isPrefixOf line then
    (state.1, { state.2 with frames := state.2.frames ++ (parseFrame (line.drop 6)).toList })
  else state

/-- `parse_dump`. An empty line matches no case of `parseLine`. -/
def parseDump (text : Bytes) : Option NativeCrashDump :=
  let state := (Delimited.records 10 text).foldl parseLine (false, {})
  if state.1 then some state.2 else none

/-- The frame a captured one is to be read back as. -/
def CapturedFrame.expected : CapturedFrame → NativeCrashFrame
  | .unresolved address => { module := lit "??", offset := address, buildId := [] }
  | .resolved m offset => { module := m.name, offset, buildId := buildIdText m.buildId }

/-- The module of a resolved frame has neither a space nor a newline in its name. -/
def CapturedFrame.plainlyNamed : CapturedFrame → Prop
  | .unresolved _ => True
  | .resolved m _ => 32 ∉ m.name ∧ 10 ∉ m.name

/-- The module of a resolved frame has no newline in its name. -/
def CapturedFrame.oneLine : CapturedFrame → Prop
  | .unresolved _ => True
  | .resolved m _ => 10 ∉ m.name

theorem CapturedFrame.plainlyNamed.oneLine {frame : CapturedFrame} (h : frame.plainlyNamed) :
    frame.oneLine := by
  cases frame with
  | unresolved _ => trivial
  | resolved m _ => exact h.2

/-! ## Numbers -/

theorem hexValue_hexDigit : ∀ n, n < 16 → JsonScan.hexValue (hexDigit n) = some n := by
  decide

theorem nibble_lt (value : UInt64) (k : Nat) : nibble value k < 16 :=
  Nat.mod_lt _ (by decide)

/-- One more digit read is one more nibble of the value. -/
theorem shift_nibble (value : UInt64) (k : Nat) :
    (UInt64.ofNat (value.toNat >>> (4 * (k + 1))) <<< 4 ||| (nibble value k).toUInt64)
      = UInt64.ofNat (value.toNat >>> (4 * k)) := by
  have hlt : value.toNat >>> (4 * k) < 2 ^ 64 :=
    Nat.lt_of_le_of_lt (Nat.shiftRight_le _ _) value.toNat_lt
  have hnext : value.toNat >>> (4 * (k + 1)) = value.toNat >>> (4 * k) / 16 := by
    rw [Nat.mul_succ, Nat.shiftRight_add, Nat.shiftRight_eq_div_pow _ 4]
  apply UInt64.toNat_inj.1
  rw [UInt64.toNat_or, UInt64.toNat_shiftLeft, hnext, nibble]
  generalize value.toNat >>> (4 * k) = m at hlt
  have hsize : UInt64.size = 18446744073709551616 := rfl
  have hhigh : (UInt64.ofNat (m / 16)).toNat <<< 4 = (m / 16) * 2 ^ 4 := by
    rw [UInt64.toNat_ofNat_of_lt' (by omega), Nat.shiftLeft_eq]
  have hlow : ((m % 16).toUInt64).toNat = m % 16 := UInt64.toNat_ofNat_of_lt' (by omega)
  have hfour : ((4 : UInt64).toNat % 64) = 4 := rfl
  rw [hfour, hhigh, Nat.mod_eq_of_lt (by omega), hlow, UInt64.toNat_ofNat_of_lt' hlt,
    Nat.mul_comm, ← Nat.two_pow_add_eq_or_of_lt (by omega)]
  omega

theorem hexLoop_hexDigit (v : UInt64) {n : Nat} (h : n < 16) (cs : Bytes) :
    hexLoop v (hexDigit n :: cs) = hexLoop (v <<< 4 ||| n.toUInt64) cs := by
  rw [hexLoop, hexValue_hexDigit n h]

private theorem hexLoop_nibblesDown (value : UInt64) (k : Nat) :
    hexLoop (UInt64.ofNat (value.toNat >>> (4 * (k + 1)))) (nibblesDown value k) = value := by
  induction k with
  | zero =>
    rw [nibblesDown, hexLoop_hexDigit _ (nibble_lt value 0), hexLoop, shift_nibble value 0,
      Nat.mul_zero, Nat.shiftRight_zero, UInt64.ofNat_toNat]
  | succ k ih =>
    rw [nibblesDown, hexLoop_hexDigit _ (nibble_lt value (k + 1)), shift_nibble value (k + 1), ih]

/-- The digits that are passed over are zeros. -/
theorem leadingNibble_rest (value : UInt64) (k : Nat)
    (h : value.toNat >>> (4 * (k + 1)) = 0) :
    value.toNat >>> (4 * (leadingNibble value k + 1)) = 0 := by
  induction k with
  | zero => exact h
  | succ k ih =>
    rw [leadingNibble]
    by_cases hzero : nibble value (k + 1) = 0
    · rw [if_pos hzero]
      apply ih
      rw [Nat.mul_succ, Nat.shiftRight_add, Nat.shiftRight_eq_div_pow _ 4] at h
      rw [nibble] at hzero
      omega
    · rw [if_neg hzero]
      exact h

/-- **(1) Hex.** -/
theorem parseHex_hexTo (value : UInt64) : parseHex (hexTo value) = value := by
  have hzero : value.toNat >>> (4 * (15 + 1)) = 0 := by
    rw [Nat.shiftRight_eq_div_pow]
    exact Nat.div_eq_of_lt value.toNat_lt
  have hloop := hexLoop_nibblesDown value (leadingNibble value 15)
  rw [leadingNibble_rest value 15 hzero] at hloop
  exact hloop

theorem decLoop_digits {ds : Bytes} (h : ∀ c ∈ ds, 48 ≤ c ∧ c ≤ 57) (v : Nat) :
    decLoop v ds = ds.foldl (fun v c => v * 10 + Decimal.value c) v := by
  induction ds generalizing v with
  | nil => rfl
  | cons c cs ih =>
    have hc : JsonScan.isDigit c = true := decide_eq_true (h c List.mem_cons_self)
    rw [decLoop, if_pos hc, List.foldl_cons]
    exact ih (fun b hb => h b (List.mem_cons_of_mem _ hb)) _

private theorem decLoop_text (n : Nat) : decLoop 0 (Decimal.text n) = n := by
  rw [decLoop_digits fun c hc => Decimal.mem_text hc]
  exact Decimal.foldl_text n

/-- **(1) Decimal.** -/
theorem parseDec_decTo (value : Int) : parseDec (decTo value) = value := by
  rw [decTo, intText]
  by_cases hneg : value < 0
  · rw [if_pos hneg]
    show (-(decLoop 0 (Decimal.text value.natAbs) : Int)) = value
    rw [decLoop_text]
    omega
  · rw [if_neg hneg]
    show parseDec (Decimal.text value.natAbs) = value
    have hloop := decLoop_text value.natAbs
    have hdigit : ∀ c ∈ Decimal.text value.natAbs, 48 ≤ c ∧ c ≤ 57 := fun c => Decimal.mem_text
    cases htext : Decimal.text value.natAbs with
    | nil => exact absurd htext (Decimal.text_ne_nil _)
    | cons c cs =>
      rw [htext] at hloop hdigit
      have hc : c ≠ ch '-' := by
        rintro rfl
        exact absurd (hdigit _ List.mem_cons_self).1 (by decide)
      rw [parseDec, if_neg hc, hloop]
      omega

/-- The bytes that numbers and build ids are written with. -/
def numeral : Bytes := lit "0123456789abcdefx"

private theorem hexDigit_numeral : ∀ n, n < 16 → hexDigit n ∈ numeral := by decide

theorem mem_hexTo {value : UInt64} {c : UInt8} (h : c ∈ hexTo value) : c ∈ numeral := by
  have hdown : ∀ k, ∀ c ∈ nibblesDown value k, c ∈ numeral := by
    intro k
    induction k with
    | zero =>
      intro c hc
      rw [nibblesDown, List.mem_singleton] at hc
      exact hc ▸ hexDigit_numeral _ (nibble_lt value 0)
    | succ k ih =>
      intro c hc
      rw [nibblesDown, List.mem_cons] at hc
      rcases hc with rfl | hc
      · exact hexDigit_numeral _ (nibble_lt value (k + 1))
      · exact ih c hc
  have hsign : ∀ c ∈ lit "0x", c ∈ numeral := forall_mem_bytes (by decide)
  rw [hexTo, List.mem_append] at h
  rcases h with h | h
  · exact hsign c h
  · exact hdown _ c h

theorem hexTo_plain (value : UInt64) : 32 ∉ hexTo value ∧ 10 ∉ hexTo value :=
  ⟨fun h => absurd (mem_hexTo h) (by decide), fun h => absurd (mem_hexTo h) (by decide)⟩

theorem decTo_no_newline (value : Int) : 10 ∉ decTo value := by
  have h : 10 ∉ Decimal.text value.natAbs := by
    intro hmem
    exact absurd (Decimal.mem_text hmem).1 (by decide)
  rw [decTo, intText]
  by_cases hneg : value < 0
  · rw [if_pos hneg, List.mem_cons, not_or]
    exact ⟨by decide, h⟩
  · rw [if_neg hneg]
    exact h

theorem mem_buildIdText {buildId : Bytes} {c : UInt8} (h : c ∈ buildIdText buildId) : c ∈ numeral := by
  obtain ⟨b, -, hb⟩ := List.mem_flatMap.1 h
  have hlt := b.toNat_lt
  rcases List.mem_cons.1 hb with rfl | hb
  · exact hexDigit_numeral _ (by omega)
  · rw [List.mem_singleton] at hb
    rw [hb]
    exact hexDigit_numeral _ (by omega)

theorem buildIdText_plain (buildId : Bytes) : 32 ∉ buildIdText buildId ∧ 10 ∉ buildIdText buildId :=
  ⟨fun h => absurd (mem_buildIdText h) (by decide), fun h => absurd (mem_buildIdText h) (by decide)⟩

/-! ## Frames -/

theorem not_mem_append {a b : Bytes} {c : UInt8} (ha : c ∉ a) (hb : c ∉ b) :
    c ∉ a ++ b := by
  rw [List.mem_append, not_or]
  exact ⟨ha, hb⟩

theorem parseFrame_cut {rest module after offset bid : Bytes}
    (hmod : Delimited.cut 32 rest = some (module, after))
    (hoff : Delimited.cut 32 after = some (offset, bid)) :
    parseFrame rest = some
      { module, offset := parseHex offset,
        buildId := (bid.reverse.dropWhile (· == 32)).reverse } := by
  rw [parseFrame, hmod, Option.map_some]
  simp only [hoff, Option.getD_some]

/-- Three fields between spaces are a frame, once the third does not end in one. -/
theorem parseFrame_fields {module bid : Bytes} (offset : UInt64) (hmod : 32 ∉ module)
    (hbid : 32 ∉ bid) :
    parseFrame (module ++ lit " " ++ hexTo offset ++ lit " " ++ bid)
      = some { module, offset, buildId := bid } := by
  have hfirst : module ++ lit " " ++ hexTo offset ++ lit " " ++ bid
      = module ++ 32 :: (hexTo offset ++ 32 :: bid) := by
    rw [List.append_assoc, List.append_assoc, List.append_assoc]
    rfl
  have htrim : (bid.reverse.dropWhile (· == 32)).reverse = bid := by
    cases hr : bid.reverse with
    | nil => rw [List.dropWhile_nil, ← hr, List.reverse_reverse]
    | cons c cs =>
      have hc : ¬((c == 32) = true) := by
        rw [beq_iff_eq]
        rintro rfl
        exact hbid (List.mem_reverse.1 (hr ▸ List.mem_cons_self))
      rw [List.dropWhile_cons, if_neg hc, ← hr, List.reverse_reverse]
  rw [hfirst, parseFrame_cut (Delimited.cut_append hmod _)
    (Delimited.cut_append (hexTo_plain offset).1 bid), parseHex_hexTo, htrim]

theorem parseFrame_frameText {frame : CapturedFrame} (h : frame.plainlyNamed) :
    parseFrame (frameText frame) = some frame.expected := by
  cases frame with
  | unresolved address =>
    have hunknown : 32 ∉ lit "??" := by decide
    have hfields := parseFrame_fields address hunknown List.not_mem_nil
    rwa [List.append_nil] at hfields
  | resolved m offset =>
    exact parseFrame_fields offset h.1 (buildIdText_plain m.buildId).1

theorem frameText_no_newline {frame : CapturedFrame} (h : frame.oneLine) : 10 ∉ frameText frame := by
  cases frame with
  | unresolved address =>
    exact not_mem_append (not_mem_append (by decide) (hexTo_plain address).2) (by decide)
  | resolved m offset =>
    exact not_mem_append
      (not_mem_append (not_mem_append (not_mem_append h (by decide)) (hexTo_plain offset).2)
        (by decide))
      (buildIdText_plain m.buildId).2

/-! ## Lines -/

/-- The dump a line at a time. -/
def dumpLines (signal code : Int32) (fault : UInt64) (frames : List CapturedFrame) :
    List Bytes :=
  [lit "tombstone-native-crash 1", lit "signal " ++ decTo signal.toInt,
    lit "code " ++ decTo code.toInt, lit "fault " ++ hexTo fault]
    ++ frames.map (fun f => lit "frame " ++ frameText f) ++ [lit "end"]

theorem writeDump_lines (signal code : Int32) (fault : UInt64)
    (frames : List CapturedFrame) :
    writeDump signal code fault frames
      = (dumpLines signal code fault frames).flatMap (· ++ [10]) := by
  rw [writeDump, dumpLines, List.flatMap_append, List.flatMap_append, List.flatMap_map]
  simp only [List.flatMap_cons, List.flatMap_nil, List.append_nil, List.append_assoc]
  rfl

private theorem dumpLines_no_newline {frames : List CapturedFrame}
    (h : ∀ f ∈ frames, f.oneLine) (signal code : Int32) (fault : UInt64) :
    ∀ line ∈ dumpLines signal code fault frames, 10 ∉ line := by
  intro line hline
  rw [dumpLines, List.mem_append, List.mem_append] at hline
  rcases hline with (hhead | hframe) | hend
  · have htail : ∀ l ∈ [lit "signal " ++ decTo signal.toInt, lit "code " ++ decTo code.toInt,
        lit "fault " ++ hexTo fault], 10 ∉ l := by
      intro l hl
      simp only [List.mem_cons, List.not_mem_nil, or_false] at hl
      rcases hl with rfl | rfl | rfl
      · exact not_mem_append (by decide) (decTo_no_newline _)
      · exact not_mem_append (by decide) (decTo_no_newline _)
      · exact not_mem_append (by decide) (hexTo_plain _).2
    rcases List.mem_cons.1 hhead with rfl | hrest
    · decide
    · exact htail line hrest
  · obtain ⟨f, hf, rfl⟩ := List.mem_map.1 hframe
    exact not_mem_append (by decide) (frameText_no_newline (h f hf))
  · rw [List.mem_singleton] at hend
    rw [hend]
    decide

theorem parseLine_signal (state : Bool × NativeCrashDump) (t : Bytes) :
    parseLine state (lit "signal " ++ t)
      = (state.1, { state.2 with signalNo := Int32.ofInt (parseDec t) }) := rfl

theorem parseLine_code (state : Bool × NativeCrashDump) (t : Bytes) :
    parseLine state (lit "code " ++ t)
      = (state.1, { state.2 with code := Int32.ofInt (parseDec t) }) := rfl

theorem parseLine_fault (state : Bool × NativeCrashDump) (t : Bytes) :
    parseLine state (lit "fault " ++ t)
      = (state.1, { state.2 with faultAddr := parseHex t }) := rfl

theorem parseLine_frame (state : Bool × NativeCrashDump) (t : Bytes) :
    parseLine state (lit "frame " ++ t)
      = (state.1, { state.2 with frames := state.2.frames ++ (parseFrame t).toList }) := rfl

/-- What a captured frame is read back as. -/
def readBack (frame : CapturedFrame) : List NativeCrashFrame := (parseFrame (frameText frame)).toList

/-- Frame lines only add their frames. -/
theorem foldl_frames (frames : List CapturedFrame) (state : Bool × NativeCrashDump) :
    (frames.map fun f => lit "frame " ++ frameText f).foldl parseLine state
      = (state.1, { state.2 with frames := state.2.frames ++ frames.flatMap readBack }) := by
  induction frames generalizing state with
  | nil => rw [List.map_nil, List.foldl_nil, List.flatMap_nil, List.append_nil]
  | cons f fs ih =>
    rw [List.map_cons, List.foldl_cons, parseLine_frame, ih, List.flatMap_cons, ← List.append_assoc]
    rfl

/-- A dump of one line a frame reads back a line at a time. -/
theorem parseDump_lines {frames : List CapturedFrame} (h : ∀ f ∈ frames, f.oneLine)
    (signal code : Int32) (fault : UInt64) :
    parseDump (writeDump signal code fault frames)
      = some ⟨signal, code, fault, frames.flatMap readBack⟩ := by
  have hhead : [lit "tombstone-native-crash 1", lit "signal " ++ decTo signal.toInt,
      lit "code " ++ decTo code.toInt, lit "fault " ++ hexTo fault].foldl parseLine (false, {})
      = (true, ⟨signal, code, fault, []⟩) := by
    simp only [List.foldl_cons, List.foldl_nil, parseLine_signal, parseLine_code,
      parseLine_fault, parseDec_decTo, parseHex_hexTo, Int32.ofInt_toInt]
    rfl
  have hfold : (dumpLines signal code fault frames).foldl parseLine (false, {})
      = (true, ⟨signal, code, fault, frames.flatMap readBack⟩) := by
    rw [dumpLines, List.foldl_append, List.foldl_append, hhead, foldl_frames]
    rfl
  rw [parseDump, writeDump_lines,
    Delimited.records_flatMap (dumpLines_no_newline h signal code fault), hfold]
  rfl

theorem readBack_plain {frame : CapturedFrame} (h : frame.plainlyNamed) : readBack frame = [frame.expected] := by
  rw [readBack, parseFrame_frameText h]
  rfl

private theorem parseDump_of_plain {frames : List CapturedFrame}
    (h : ∀ f ∈ frames, f.plainlyNamed) (signal code : Int32) (fault : UInt64) :
    parseDump (writeDump signal code fault frames)
      = some ⟨signal, code, fault, frames.map CapturedFrame.expected⟩ := by
  have hread : frames.flatMap readBack = frames.map CapturedFrame.expected := by
    rw [List.map_eq_flatMap]
    exact List.flatMap_congr fun f hf => readBack_plain (h f hf)
  rw [parseDump_lines (fun f hf => (h f hf).oneLine), hread]

/-! ## What the parser cannot return -/

/-- What is read from a line has no newline, and its module no space. -/
structure NativeCrashFrame.Spelled (f : NativeCrashFrame) : Prop where
  no_space : 32 ∉ f.module
  module_line : 10 ∉ f.module
  buildId_line : 10 ∉ f.buildId

theorem parseFrame_spelled {rest : Bytes} {frame : NativeCrashFrame} (hline : 10 ∉ rest)
    (h : parseFrame rest = some frame) : frame.Spelled := by
  rw [parseFrame] at h
  obtain ⟨⟨module, after⟩, hcut, rfl⟩ := Option.map_eq_some_iff.1 h
  obtain ⟨hrest, hspace⟩ := Delimited.eq_of_cut hcut
  have hafter : 10 ∉ after := by
    intro hnl
    rw [hrest] at hline
    exact hline (List.mem_append_right _ (.tail _ hnl))
  have hfields : 10 ∉ ((Delimited.cut 32 after).getD (after, [])).2 := by
    cases hcut' : Delimited.cut 32 after with
    | none => exact List.not_mem_nil
    | some fields =>
      intro hnl
      rw [(Delimited.eq_of_cut hcut').1] at hafter
      exact hafter (List.mem_append_right _ (.tail _ hnl))
  refine ⟨hspace, fun hnl => ?_, fun hnl => ?_⟩
  · rw [hrest] at hline
    exact hline (List.mem_append_left _ hnl)
  · exact hfields (List.mem_reverse.1 ((List.dropWhile_sublist _).subset (List.mem_reverse.1 hnl)))

private theorem parseLine_spelled {state : Bool × NativeCrashDump} {line : Bytes}
    (hline : 10 ∉ line) (h : ∀ f ∈ state.2.frames, f.Spelled) :
    ∀ f ∈ (parseLine state line).2.frames, f.Spelled := by
  rw [parseLine]
  split_ifs
  · exact h
  · exact h
  · exact h
  · exact h
  · intro f hf
    rcases List.mem_append.1 hf with hold | hnew
    · exact h f hold
    · rw [Option.mem_toList] at hnew
      exact parseFrame_spelled (fun hd => hline (List.mem_of_mem_drop hd)) hnew
  · exact h

private theorem foldl_spelled {lines : List Bytes} (hlines : ∀ line ∈ lines, 10 ∉ line)
    {state : Bool × NativeCrashDump} (h : ∀ f ∈ state.2.frames, f.Spelled) :
    ∀ f ∈ (lines.foldl parseLine state).2.frames, f.Spelled := by
  induction lines generalizing state with
  | nil => exact h
  | cons line rest ih =>
    rw [List.foldl_cons]
    exact ih (fun l hl => hlines l (List.mem_cons_of_mem _ hl))
      (parseLine_spelled (hlines line List.mem_cons_self) h)

theorem parseDump_spelled {text : Bytes} {dump : NativeCrashDump}
    (h : parseDump text = some dump) : ∀ f ∈ dump.frames, f.Spelled := by
  rw [parseDump] at h
  obtain ⟨-, hdump⟩ := Option.ite_none_right_eq_some.1 h
  rw [← Option.some.inj hdump]
  exact foldl_spelled (fun line hline => Delimited.not_mem_of_mem_records hline)
    fun f hf => absurd hf List.not_mem_nil

/-- **(3) A dump reads back as what was captured exactly when every resolved module's name
is free of spaces and newlines.** -/
theorem parseDump_writeDump_iff (signal code : Int32) (fault : UInt64)
    (frames : List CapturedFrame) :
    parseDump (writeDump signal code fault frames)
        = some ⟨signal, code, fault, frames.map CapturedFrame.expected⟩
      ↔ ∀ f ∈ frames, f.plainlyNamed := by
  constructor
  · intro h f hf
    have hread := parseDump_spelled h f.expected (List.mem_map_of_mem hf)
    cases f with
    | unresolved address => trivial
    | resolved m offset => exact ⟨hread.no_space, hread.module_line⟩
  · exact fun h => parseDump_of_plain h signal code fault

/-- A game installed under a path with a space in it. -/
def spacedModule : ModuleEntry where
  base := 0x1000
  limit := 0x9000
  name := lit "/opt/My Game/libgame.so"
  buildId := [0xaa, 0xbb]
  name_le := by decide
  name_no_nul := by decide
  buildId_le := by decide

/-- The parser takes the rest of the path for the offset, and the offset for a part of the
build id: the frame comes back in a module that does not exist, at offset 0. -/
theorem spacedModule_lost :
    ¬ ∀ (signal code : Int32) (fault : UInt64) (frames : List CapturedFrame),
      parseDump (writeDump signal code fault frames)
        = some ⟨signal, code, fault, frames.map CapturedFrame.expected⟩ := by
  intro hall
  have hfails : parseDump (writeDump 11 1 0 [.resolved spacedModule 0x1234])
      ≠ some ⟨11, 1, 0, [CapturedFrame.expected (.resolved spacedModule 0x1234)]⟩ := by
    decide
  exact hfails (hall 11 1 0 [.resolved spacedModule 0x1234])

end Tombstone.NativeDump
