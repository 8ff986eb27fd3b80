import Mathlib.Data.List.Forall2
import Mathlib.Data.List.Infix
import Tombstone.NativeDump

/- A native crash dump that is cut short, and what the next launch makes of it.

   The process may die while the handler writes, anywhere behind the header (`exists_cut`). The
   parser takes what is there of the last line for the whole line. So every fact is right or absent
   exactly when no number and no build id is cut inside its digits (`readsRight_cut`). -/
namespace Tombstone.TornDump
open NativeDump

/-! ## Fronts of numbers -/

theorem prefix_append_iff {α : Type*} {kept a b : List α} :
    kept <+: a ++ b ↔ kept <+: a ∨ ∃ more, kept = a ++ more ∧ more <+: b := by
  constructor
  · intro h
    rcases List.prefix_or_prefix_of_prefix h (List.prefix_append a b) with hkept | ⟨more, rfl⟩
    · exact .inl hkept
    · exact .inr ⟨more, rfl, (List.prefix_append_right_inj a).1 h⟩
  · rintro (h | ⟨more, rfl, hmore⟩)
    · exact h.trans (List.prefix_append a b)
    · exact (List.prefix_append_right_inj a).2 hmore

/-- Some of the digits of a number, but not all, are another number. -/
theorem digits_front {n : Nat} {kept : Bytes} (h : kept <+: Decimal.text n) (hsome : kept ≠ [])
    (hall : kept ≠ Decimal.text n) :
    0 < kept.foldl (fun v c => v * 10 + Decimal.value c) 0 ∧
      kept.foldl (fun v c => v * 10 + Decimal.value c) 0 < n := by
  induction n using Nat.strongRecOn with
  | ind n ih =>
    by_cases hn : n < 10
    · rw [Decimal.text_of_lt hn] at h hall
      rcases List.prefix_cons_iff.1 h with hnil | ⟨rest, hrest, hmore⟩
      · exact absurd hnil hsome
      · rw [hrest, List.prefix_nil.1 hmore] at hall
        exact absurd rfl hall
    · rw [Decimal.text_of_ge (by omega)] at h hall
      rcases List.prefix_concat_iff.1 h with hsame | hfront
      · exact absurd hsame hall
      · by_cases hwhole : kept = Decimal.text (n / 10)
        · rw [hwhole, Decimal.foldl_text]
          omega
        · obtain ⟨hpos, hlt⟩ := ih (n / 10) (by omega) hfront hwhole
          omega

/-- What is written in front of the digits. -/
def sign (n : Int) : Bytes := if n < 0 then [ch '-'] else []

theorem decTo_eq (n : Int) : decTo n = sign n ++ Decimal.text n.natAbs := by
  rw [decTo, intText, sign]
  split
  · rfl
  · rfl

theorem parseDec_sign (n : Int) {kept : Bytes} (h : ∀ c ∈ kept, 48 ≤ c ∧ c ≤ 57) :
    parseDec (sign n ++ kept) = (if n < 0 then -1 else 1) * kept.foldl (fun v c => v * 10 + Decimal.value c) 0 := by
  rw [sign]
  split
  · show (-(decLoop 0 kept : Int)) = _
    rw [decLoop_digits h]
    omega
  · rw [List.nil_append, Int.one_mul, ← decLoop_digits h]
    cases kept with
    | nil => rfl
    | cons c cs =>
      have hc : c ≠ ch '-' := by
        rintro rfl
        exact absurd (h _ List.mem_cons_self).1 (by decide)
      rw [parseDec, if_neg hc]

/-- **A torn decimal** is right or absent exactly when no digit is kept, or all are. -/
theorem parseDec_front {signal : Int32} {kept : Bytes} (h : kept <+: decTo signal.toInt) :
    Int32.ofInt (parseDec kept) = signal ∨ Int32.ofInt (parseDec kept) = 0 ↔
      kept <+: sign signal.toInt ∨ kept = decTo signal.toInt := by
  have hlow := signal.le_toInt
  have hhigh := signal.toInt_lt
  constructor
  · intro hvalue
    rw [decTo_eq] at h
    rcases prefix_append_iff.1 h with hkept | ⟨digits, rfl, hdigits⟩
    · exact .inl hkept
    · by_cases hnone : digits = []
      · rw [hnone, List.append_nil]
        exact .inl (List.prefix_refl _)
      · by_cases hall : digits = Decimal.text signal.toInt.natAbs
        · rw [hall, ← decTo_eq]
          exact .inr rfl
        · obtain ⟨hpos, hlt⟩ := digits_front hdigits hnone hall
          rw [parseDec_sign _ fun c hc => Decimal.mem_text (hdigits.subset hc), ← Int32.toInt_inj,
            ← Int32.toInt_inj, Int32.toInt_ofInt_of_le (by split <;> omega) (by split <;> omega)] at hvalue
          have hzero : (0 : Int32).toInt = 0 := rfl
          rw [hzero] at hvalue
          split at hvalue <;> omega
  · rintro (hkept | rfl)
    · have hzero : parseDec kept = 0 := by
        rw [sign] at hkept
        split at hkept
        · rcases List.prefix_cons_iff.1 hkept with rfl | ⟨rest, rfl, hmore⟩
          · rfl
          · rw [List.prefix_nil.1 hmore]
            rfl
        · rw [List.prefix_nil.1 hkept]
          rfl
      rw [hzero]
      exact .inr rfl
    · rw [parseDec_decTo, Int32.ofInt_toInt]
      exact .inl rfl

theorem hexLoop_front (value : UInt64) (k n : Nat) (h : n ≤ k + 1) :
    hexLoop (UInt64.ofNat (value.toNat >>> (4 * (k + 1)))) ((nibblesDown value k).take n) =
      UInt64.ofNat (value.toNat >>> (4 * (k + 1 - n))) := by
  induction k generalizing n with
  | zero =>
    rcases Nat.le_one_iff_eq_zero_or_eq_one.1 h with rfl | rfl
    · rfl
    · rw [nibblesDown, List.take_succ_cons, hexLoop_hexDigit _ (nibble_lt value 0), List.take_nil, hexLoop,
        shift_nibble value 0]
  | succ k ih =>
    cases n with
    | zero => rfl
    | succ n =>
      rw [nibblesDown, List.take_succ_cons, hexLoop_hexDigit _ (nibble_lt value (k + 1)), shift_nibble value (k + 1),
        ih n (by omega), Nat.add_sub_add_right]

theorem nibblesDown_length (value : UInt64) (k : Nat) : (nibblesDown value k).length = k + 1 := by
  induction k with
  | zero => rfl
  | succ k ih => rw [nibblesDown, List.length_cons, ih]

theorem leadingNibble_pos (value : UInt64) (k : Nat) (h : 0 < leadingNibble value k) :
    nibble value (leadingNibble value k) ≠ 0 := by
  induction k with
  | zero => exact absurd h (Nat.lt_irrefl 0)
  | succ k ih =>
    rw [leadingNibble] at h ⊢
    split
    · rename_i hzero
      rw [if_pos hzero] at h
      exact ih h
    · rename_i hzero
      exact hzero

theorem hexTo_fits {value : UInt64} : value.toNat >>> (4 * (15 + 1)) = 0 := by
  rw [Nat.shiftRight_eq_div_pow]
  exact Nat.div_eq_of_lt value.toNat_lt

/-- An address without its last digits is smaller, and not 0 while the first digit is kept. -/
theorem shifted_lt (value : UInt64) {k m : Nat} (hm : 0 < m) (hk : m ≤ k) (hdigit : nibble value k ≠ 0) :
    0 < value.toNat >>> (4 * m) ∧ value.toNat >>> (4 * m) < value.toNat := by
  have hfirst : 0 < value.toNat >>> (4 * k) := by
    rw [nibble] at hdigit
    rcases Nat.eq_zero_or_pos (value.toNat >>> (4 * k)) with hzero | hpos
    · rw [hzero] at hdigit
      exact absurd rfl hdigit
    · exact hpos
  have hkept : value.toNat >>> (4 * k) ≤ value.toNat >>> (4 * m) := by
    rw [Nat.shiftRight_eq_div_pow, Nat.shiftRight_eq_div_pow]
    exact Nat.div_le_div_left (Nat.pow_le_pow_right (by decide) (by omega)) (Nat.two_pow_pos _)
  have hvalue : 0 < value.toNat := Nat.lt_of_lt_of_le hfirst (Nat.shiftRight_le _ _)
  refine ⟨by omega, ?_⟩
  rw [Nat.shiftRight_eq_div_pow]
  exact Nat.div_lt_self hvalue (Nat.one_lt_two_pow (by omega))

/-- **A torn address** is right or absent exactly when no digit is kept, or all are. -/
theorem parseHex_front {value : UInt64} {kept : Bytes} (h : kept <+: hexTo value) :
    parseHex kept = value ∨ parseHex kept = 0 ↔ kept <+: lit "0x" ∨ kept = hexTo value := by
  constructor
  · intro hvalue
    rw [hexTo] at h
    rcases prefix_append_iff.1 h with hkept | ⟨digits, rfl, hdigits⟩
    · exact .inl hkept
    · have hlength := hdigits.length_le
      rw [nibblesDown_length] at hlength
      have hread := hexLoop_front value (leadingNibble value 15) digits.length hlength
      rw [leadingNibble_rest value 15 hexTo_fits, ← List.prefix_iff_eq_take.1 hdigits] at hread
      by_cases hnone : digits.length = 0
      · rw [List.length_eq_zero_iff.1 hnone]
        exact .inl (List.prefix_refl _)
      · by_cases hall : digits.length = leadingNibble value 15 + 1
        · rw [hexTo, hdigits.eq_of_length (by rw [hall, nibblesDown_length])]
          exact .inr rfl
        · obtain ⟨hpos, hlt⟩ := shifted_lt value (k := leadingNibble value 15)
            (m := leadingNibble value 15 + 1 - digits.length) (by omega) (by omega)
            (leadingNibble_pos value 15 (by omega))
          have hloop : parseHex (lit "0x" ++ digits) = hexLoop (UInt64.ofNat 0) digits := rfl
          have hsize := value.toNat_lt
          rw [hloop, hread, ← UInt64.toNat_inj, ← UInt64.toNat_inj,
            UInt64.toNat_ofNat_of_lt' (by rw [UInt64.size]; omega)] at hvalue
          have hzero : (0 : UInt64).toNat = 0 := rfl
          rw [hzero] at hvalue
          omega
  · rintro (hkept | rfl)
    · have hzero : ∀ kept ∈ (lit "0x").inits, parseHex kept = 0 := by decide
      exact .inr (hzero kept ((List.mem_inits _ _).2 hkept))
    · exact .inl (parseHex_hexTo value)

/-! ## Fronts of lines -/

/-- None of the words that begin a line stands in front. -/
def silent (kept : Bytes) : Bool :=
  [lit "tombstone-native-crash", lit "signal ", lit "code ", lit "fault ", lit "frame "].all fun word =>
    !word.isPrefixOf kept

theorem parseLine_silent {kept : Bytes} (h : silent kept = true) (state : Bool × NativeCrashDump) :
    parseLine state kept = state := by
  simp only [silent, List.all_cons, List.all_nil, Bool.and_true, Bool.and_eq_true, Bool.not_eq_true'] at h
  obtain ⟨hheader, hsignal, hcode, hfault, hframe⟩ := h
  simp [parseLine, hheader, hsignal, hcode, hfault, hframe]

/-- The front of a word is silent, but for the whole word. -/
theorem silent_front {word kept : Bytes}
    (hword : word ∈ [lit "signal ", lit "code ", lit "fault ", lit "frame ", lit "end"]) (h : kept <+: word) :
    silent kept = true ∨ kept = word := by
  have hall : ∀ word ∈ [lit "signal ", lit "code ", lit "fault ", lit "frame ", lit "end"],
      ∀ kept ∈ word.inits, silent kept = true ∨ kept = word := by decide
  exact hall word hword kept ((List.mem_inits _ _).2 h)

theorem drop_front {word text kept : Bytes} (h : kept <+: word ++ text) : kept.drop word.length <+: text := by
  rcases prefix_append_iff.1 h with hkept | ⟨more, rfl, hmore⟩
  · rw [List.drop_eq_nil_of_le hkept.length_le]
    exact List.nil_prefix
  · rwa [List.drop_left]

/-- No more than the lead of a number is kept, or all of the number. -/
theorem front_iff {word lead text kept : Bytes} (h : kept <+: word ++ text) :
    kept <+: word ++ lead ∨ kept = word ++ text ↔
      kept.drop word.length <+: lead ∨ kept.drop word.length = text := by
  rcases prefix_append_iff.1 h with hkept | ⟨more, rfl, -⟩
  · rw [List.drop_eq_nil_of_le hkept.length_le]
    exact iff_of_true (.inl (hkept.trans (List.prefix_append _ _))) (.inl List.nil_prefix)
  · rw [List.drop_left, List.prefix_append_right_inj, List.append_right_inj]

section Torn

variable {state : Bool × NativeCrashDump} {text kept : Bytes}

/-- A torn line is read by its word, with what is kept behind it. -/
theorem parseLine_front {word : Bytes} {read : Bytes → Bool × NativeCrashDump}
    (hword : word ∈ [lit "signal ", lit "code ", lit "fault ", lit "frame ", lit "end"])
    (hread : ∀ text, parseLine state (word ++ text) = read text) (hnothing : read [] = state)
    (h : kept <+: word ++ text) : parseLine state kept = read (kept.drop word.length) := by
  rcases prefix_append_iff.1 h with hkept | ⟨more, rfl, -⟩
  · rw [List.drop_eq_nil_of_le hkept.length_le]
    rcases silent_front hword hkept with hsilent | rfl
    · rw [parseLine_silent hsilent, hnothing]
    · rw [← hread [], List.append_nil]
  · rw [hread, List.drop_left]

theorem parseLine_signal_front (h : kept <+: lit "signal " ++ text) (habsent : state.2.signalNo = 0) :
    parseLine state kept = (state.1, { state.2 with signalNo := Int32.ofInt (parseDec (kept.drop 7)) }) := by
  obtain ⟨seen, signalNo, code, faultAddr, frames⟩ := state
  dsimp only at habsent
  exact parseLine_front (by decide) (parseLine_signal _) (by rw [habsent]; rfl) h

theorem parseLine_code_front (h : kept <+: lit "code " ++ text) (habsent : state.2.code = 0) :
    parseLine state kept = (state.1, { state.2 with code := Int32.ofInt (parseDec (kept.drop 5)) }) := by
  obtain ⟨seen, signalNo, code, faultAddr, frames⟩ := state
  dsimp only at habsent
  exact parseLine_front (by decide) (parseLine_code _) (by rw [habsent]; rfl) h

theorem parseLine_fault_front (h : kept <+: lit "fault " ++ text) (habsent : state.2.faultAddr = 0) :
    parseLine state kept = (state.1, { state.2 with faultAddr := parseHex (kept.drop 6) }) := by
  obtain ⟨seen, signalNo, code, faultAddr, frames⟩ := state
  dsimp only at habsent
  exact parseLine_front (by decide) (parseLine_fault _) (by rw [habsent]; rfl) h

theorem parseLine_frame_front (h : kept <+: lit "frame " ++ text) :
    parseLine state kept =
      (state.1, { state.2 with frames := state.2.frames ++ (parseFrame (kept.drop 6)).toList }) := by
  have hnone : (parseFrame []).toList = [] := rfl
  exact parseLine_front (by decide) (parseLine_frame _) (by rw [hnone, List.append_nil]) h

/-- What stands behind the last newline is a line as well. -/
theorem foldl_torn {lines : List Bytes} (h : ∀ line ∈ lines, 10 ∉ line) (hkept : 10 ∉ kept) :
    (Delimited.records 10 (lines.flatMap (· ++ [10]) ++ kept)).foldl parseLine state =
      parseLine (lines.foldl parseLine state) kept := by
  induction lines generalizing state with
  | nil =>
    rw [List.flatMap_nil, List.nil_append, List.foldl_nil]
    by_cases hnone : kept = []
    · rw [hnone]
      rfl
    · rw [Delimited.records_last hkept hnone]
      rfl
  | cons line lines ih =>
    obtain ⟨hline, hmore⟩ := List.forall_mem_cons.1 h
    rw [List.flatMap_cons, List.append_assoc, List.append_assoc, List.singleton_append,
      Delimited.records_append hline, List.foldl_cons, List.foldl_cons, ih hmore]

end Torn

/-! ## Where a dump is cut -/

def written (lines : List Bytes) : Bytes := lines.flatMap (· ++ [10])

def header : Bytes := lit "tombstone-native-crash 1"
def signalText (signal : Int32) : Bytes := lit "signal " ++ decTo signal.toInt
def codeText (code : Int32) : Bytes := lit "code " ++ decTo code.toInt
def faultText (fault : UInt64) : Bytes := lit "fault " ++ hexTo fault

/-- The line of a frame. -/
def frameText (frame : CapturedFrame) : Bytes := lit "frame " ++ NativeDump.frameText frame

def preamble (signal code : Int32) (fault : UInt64) : List Bytes :=
  [header, signalText signal, codeText code, faultText fault]

/-- A place behind the header: the line that is cut, and what is kept of it. -/
inductive Cut
  | signal (kept : Bytes)
  | code (kept : Bytes)
  | fault (kept : Bytes)
  | frame (done : List CapturedFrame) (torn : CapturedFrame) (kept : Bytes)
  | tail (kept : Bytes)

namespace Cut

def kept : Cut → Bytes
  | .signal kept => kept
  | .code kept => kept
  | .fault kept => kept
  | .frame _ _ kept => kept
  | .tail kept => kept

section
variable (signal code : Int32) (fault : UInt64) (frames : List CapturedFrame)

/-- The lines in front of the one that is cut. -/
def lines : Cut → List Bytes
  | .signal _ => [header]
  | .code _ => [header, signalText signal]
  | .fault _ => [header, signalText signal, codeText code]
  | .frame done _ _ => preamble signal code fault ++ done.map frameText
  | .tail _ => preamble signal code fault ++ frames.map frameText

def text (cut : Cut) : Bytes := written (cut.lines signal code fault frames) ++ cut.kept

/-- What is kept is the front of a line of the dump. -/
def Fits : Cut → Prop
  | .signal kept => kept <+: signalText signal
  | .code kept => kept <+: codeText code
  | .fault kept => kept <+: faultText fault
  | .frame done torn kept => (∃ rest, frames = done ++ torn :: rest) ∧ kept <+: frameText torn
  | .tail kept => kept <+: lit "end" ++ [10]

end

end Cut

theorem prefix_written {lines : List Bytes} {kept : Bytes} (h : kept <+: written lines) :
    (∃ done line rest more, lines = done ++ line :: rest ∧ kept = written done ++ more ∧ more <+: line) ∨
      kept = written lines := by
  induction lines generalizing kept with
  | nil => exact .inr (List.prefix_nil.1 h)
  | cons line lines ih =>
    rw [written, List.flatMap_cons] at h
    rcases prefix_append_iff.1 h with hline | ⟨more, rfl, hmore⟩
    · rcases List.prefix_concat_iff.1 hline with rfl | hfront
      · cases lines with
        | nil => exact .inr (by rw [written, List.flatMap_singleton])
        | cons next lines =>
          exact .inl ⟨[line], next, lines, [], rfl, by rw [written, List.flatMap_singleton, List.append_nil],
            List.nil_prefix⟩
      · exact .inl ⟨[], line, lines, kept, rfl, rfl, hfront⟩
    · rcases ih hmore with ⟨done, next, rest, torn, rfl, rfl, htorn⟩ | rfl
      · exact .inl ⟨line :: done, next, rest, torn, rfl, by
          rw [written, written, List.flatMap_cons, List.append_assoc, List.append_assoc, List.append_assoc], htorn⟩
      · exact .inr (by rw [written, written, List.flatMap_cons])

/-- Every front of a dump that has the header is one of these. -/
theorem exists_cut {signal code : Int32} {fault : UInt64} {frames : List CapturedFrame} {front : Bytes}
    (h : front <+: writeDump signal code fault frames) (hheader : written [header] <+: front) :
    ∃ cut : Cut, cut.Fits signal code fault frames ∧ cut.text signal code fault frames = front := by
  have hlines : writeDump signal code fault frames =
      written (preamble signal code fault ++ frames.map frameText ++ [lit "end"]) := writeDump_lines signal code fault frames
  rw [hlines] at h
  rcases prefix_written h with ⟨done, line, rest, more, hsplit, rfl, hmore⟩ | rfl
  · rcases done with _ | ⟨first, _ | ⟨second, _ | ⟨third, _ | ⟨fourth, done⟩⟩⟩⟩ <;>
      simp only [preamble, List.cons_append, List.nil_append, List.cons.injEq] at hsplit
    · -- the header is not complete
      obtain ⟨rfl, -⟩ := hsplit
      have hshort := hheader.length_le
      have hlong := hmore.length_le
      simp [written] at hshort
      omega
    · obtain ⟨rfl, rfl, -⟩ := hsplit
      exact ⟨.signal more, hmore, rfl⟩
    · obtain ⟨rfl, rfl, rfl, -⟩ := hsplit
      exact ⟨.code more, hmore, rfl⟩
    · obtain ⟨rfl, rfl, rfl, rfl, -⟩ := hsplit
      exact ⟨.fault more, hmore, rfl⟩
    · obtain ⟨rfl, rfl, rfl, rfl, htail⟩ := hsplit
      rcases List.append_eq_append_iff.1 htail with ⟨others, rfl, hend⟩ | ⟨others, hframes, hend⟩
      · cases others with
        | nil =>
          obtain ⟨rfl, -⟩ := List.cons.inj hend
          refine ⟨.tail more, hmore.trans (List.prefix_append _ _), ?_⟩
          rw [List.append_nil]
          rfl
        | cons other others => simp at hend
      · cases others with
        | nil =>
          obtain ⟨rfl, -⟩ := List.cons.inj hend
          refine ⟨.tail more, hmore.trans (List.prefix_append _ _), ?_⟩
          rw [List.append_nil] at hframes
          rw [← hframes]
          rfl
        | cons other others =>
          obtain ⟨rfl, -⟩ := List.cons.inj hend
          obtain ⟨before, after, rfl, rfl, hafter⟩ := List.map_eq_append_iff.1 hframes
          obtain ⟨torn, later, rfl, rfl, -⟩ := List.map_eq_cons_iff.1 hafter
          exact ⟨.frame before torn more, ⟨⟨later, rfl⟩, hmore⟩, rfl⟩
  · refine ⟨.tail (lit "end" ++ [10]), List.prefix_refl _, ?_⟩
    rw [Cut.text, Cut.lines, Cut.kept, written, written, List.flatMap_append, List.flatMap_append,
      List.flatMap_append, List.flatMap_singleton]

/-! ## What is read of it -/

/-- What is returned of a frame is what was captured, or absent. -/
structure Faithful (f : NativeCrashFrame) (frame : CapturedFrame) : Prop where
  module : f.module = frame.expected.module
  offset : f.offset = frame.expected.offset ∨ f.offset = 0
  buildId : f.buildId = frame.expected.buildId ∨ f.buildId = []

/-- Every fact whose line is complete in the text is returned, and no fact is wrong. -/
structure Right (signal code : Int32) (fault : UInt64) (frames : List CapturedFrame) (text : Bytes)
    (dump : NativeCrashDump) : Prop where
  signalRight : dump.signalNo = signal ∨ dump.signalNo = 0 ∧ ¬ written [header, signalText signal] <+: text
  codeRight : dump.code = code ∨ dump.code = 0 ∧ ¬ written [header, signalText signal, codeText code] <+: text
  faultRight : dump.faultAddr = fault ∨ dump.faultAddr = 0 ∧ ¬ written (preamble signal code fault) <+: text
  complete : ∀ done rest, frames = done ++ rest →
    written (preamble signal code fault ++ done.map frameText) <+: text →
      done.map CapturedFrame.expected <+: dump.frames
  faithful : ∃ first, first <+: frames ∧ List.Forall₂ Faithful dump.frames first

/-- What may be kept of the line of a frame. -/
def CleanFrame (torn : CapturedFrame) (kept : Bytes) : Prop :=
  (32 ∉ kept.drop 6 ∧ 10 ∉ kept) ∨
    torn.plainlyNamed ∧
      (kept <+: lit "frame " ++ torn.expected.module ++ lit " 0x" ∨
        kept = lit "frame " ++ torn.expected.module ++ lit " " ++ hexTo torn.expected.offset ∨
        kept = lit "frame " ++ torn.expected.module ++ lit " " ++ hexTo torn.expected.offset ++ lit " " ∨
        kept = frameText torn)

namespace Cut

/-- The name of the frame that is cut has no newline in it. -/
def OneLine : Cut → Prop
  | .frame _ torn _ => torn.oneLine
  | _ => True

/-- No number or build id is cut inside its digits, and the names of the frames are read whole. -/
def Clean (signal code : Int32) (fault : UInt64) (frames : List CapturedFrame) : Cut → Prop
  | .signal kept => kept <+: lit "signal " ++ sign signal.toInt ∨ kept = signalText signal
  | .code kept => kept <+: lit "code " ++ sign code.toInt ∨ kept = codeText code
  | .fault kept => kept <+: lit "fault " ++ lit "0x" ∨ kept = faultText fault
  | .frame done torn kept => (∀ f ∈ done, f.plainlyNamed) ∧ CleanFrame torn kept
  | .tail _ => ∀ f ∈ frames, f.plainlyNamed

end Cut

variable {signal code : Int32} {fault : UInt64} {frames : List CapturedFrame}

theorem not_complete (lines more : List Bytes) {line kept : Bytes} (hkept : kept <+: line) :
    ¬ written (lines ++ line :: more) <+: written lines ++ kept := by
  intro h
  have hlong := h.length_le
  have hshort := hkept.length_le
  simp [written] at hlong
  omega

theorem preamble_no_newline (signal code : Int32) (fault : UInt64) : ∀ line ∈ preamble signal code fault, 10 ∉ line := by
  intro line hline
  simp only [preamble, List.mem_cons, List.not_mem_nil, or_false] at hline
  rcases hline with rfl | rfl | rfl | rfl
  · decide
  · exact not_mem_append (by decide) (decTo_no_newline _)
  · exact not_mem_append (by decide) (decTo_no_newline _)
  · exact not_mem_append (by decide) (hexTo_plain _).2

theorem parseDump_cut (lines : List Bytes) {kept : Bytes} (hlines : ∀ line ∈ header :: lines, 10 ∉ line)
    (hkept : 10 ∉ kept) {dump dump' : NativeCrashDump}
    (hread : (header :: lines).foldl parseLine (false, {}) = (true, dump))
    (htorn : parseLine (true, dump) kept = (true, dump')) :
    parseDump (written (header :: lines) ++ kept) = some dump' := by
  rw [parseDump, written, foldl_torn hlines hkept, hread, htorn]
  rfl

theorem right_iff {text : Bytes} {dump : NativeCrashDump} (hread : parseDump text = some dump) :
    (∃ dump, parseDump text = some dump ∧ Right signal code fault frames text dump) ↔
      Right signal code fault frames text dump := by
  constructor
  · rintro ⟨dump', hdump, hright⟩
    rw [hread] at hdump
    obtain rfl := Option.some.inj hdump
    exact hright
  · exact fun hright => ⟨dump, hread, hright⟩

theorem right_preamble (lines more : List Bytes) {line kept : Bytes} {dump : NativeCrashDump}
    (hpreamble : preamble signal code fault = lines ++ line :: more) (hkept : kept <+: line)
    (hframes : dump.frames = [])
    (hsignal : dump.signalNo = signal ∨ dump.signalNo = 0 ∧ ¬ written [header, signalText signal] <+: written lines ++ kept)
    (hcode : dump.code = code ∨
      dump.code = 0 ∧ ¬ written [header, signalText signal, codeText code] <+: written lines ++ kept)
    (hfault : dump.faultAddr = fault ∨ dump.faultAddr = 0) :
    Right signal code fault frames (written lines ++ kept) dump := by
  have hshort : ∀ done : List CapturedFrame,
      ¬ written (preamble signal code fault ++ done.map frameText) <+: written lines ++ kept := by
    intro done
    rw [hpreamble, List.append_assoc, List.cons_append]
    exact not_complete _ _ hkept
  refine ⟨hsignal, hcode, ?_, fun done _ _ hcomplete => absurd hcomplete (hshort done), [], List.nil_prefix, ?_⟩
  · rcases hfault with hfault | hfault
    · exact .inl hfault
    · have hnone := hshort []
      rw [List.map_nil, List.append_nil] at hnone
      exact .inr ⟨hfault, hnone⟩
  · rw [hframes]
    exact .nil

theorem foldl_signal : [header, signalText signal].foldl parseLine (false, {}) = (true, { signalNo := signal }) := by
  rw [List.foldl_cons, List.foldl_cons, List.foldl_nil, signalText, parseLine_signal, parseDec_decTo, Int32.ofInt_toInt]
  rfl

theorem foldl_code : [header, signalText signal, codeText code].foldl parseLine (false, {}) =
    (true, { signalNo := signal, code }) := by
  have hlines : [header, signalText signal, codeText code] = [header, signalText signal] ++ [codeText code] := rfl
  rw [hlines, List.foldl_append, foldl_signal, List.foldl_cons, List.foldl_nil, codeText, parseLine_code,
    parseDec_decTo, Int32.ofInt_toInt]

theorem foldl_preamble : (preamble signal code fault).foldl parseLine (false, {}) = (true, ⟨signal, code, fault, []⟩) := by
  have hlines : preamble signal code fault = [header, signalText signal, codeText code] ++ [faultText fault] := rfl
  rw [hlines, List.foldl_append, foldl_code, List.foldl_cons, List.foldl_nil, faultText, parseLine_fault,
    parseHex_hexTo]

/-- **The signal line.** -/
theorem right_signal {kept : Bytes} (h : kept <+: signalText signal) :
    (∃ dump, parseDump ((Cut.signal kept).text signal code fault frames) = some dump ∧
      Right signal code fault frames ((Cut.signal kept).text signal code fault frames) dump) ↔
        (Cut.signal kept).Clean signal code fault frames := by
  have hlines := preamble_no_newline signal code fault
  have hkept : 10 ∉ kept := fun hnl => hlines (signalText signal) (by simp [preamble]) (h.subset hnl)
  have hread : parseDump ((Cut.signal kept).text signal code fault frames) =
      some { signalNo := Int32.ofInt (parseDec (kept.drop 7)) } :=
    parseDump_cut [] (by decide) hkept rfl (parseLine_signal_front h rfl)
  have hfront := parseDec_front (drop_front h)
  rw [right_iff hread, Cut.Clean, signalText, front_iff h]
  constructor
  · intro hright
    exact hfront.1 (hright.signalRight.imp_right And.left)
  · intro hclean
    apply right_preamble [header] _ rfl h rfl
    · exact (hfront.2 hclean).imp_right fun hzero => ⟨hzero, not_complete [header] [] h⟩
    · exact .inr ⟨rfl, not_complete [header] _ h⟩
    · exact .inr rfl

/-- **The code line.** -/
theorem right_code {kept : Bytes} (h : kept <+: codeText code) :
    (∃ dump, parseDump ((Cut.code kept).text signal code fault frames) = some dump ∧
      Right signal code fault frames ((Cut.code kept).text signal code fault frames) dump) ↔
        (Cut.code kept).Clean signal code fault frames := by
  have hlines := preamble_no_newline signal code fault
  have hkept : 10 ∉ kept := fun hnl => hlines (codeText code) (by simp [preamble]) (h.subset hnl)
  have hread : parseDump ((Cut.code kept).text signal code fault frames) =
      some { signalNo := signal, code := Int32.ofInt (parseDec (kept.drop 5)) } :=
    parseDump_cut [signalText signal] (fun line hline => hlines line (List.mem_append_left _ hline)) hkept foldl_signal
      (parseLine_code_front h rfl)
  have hfront := parseDec_front (drop_front h)
  rw [right_iff hread, Cut.Clean, codeText, front_iff h]
  constructor
  · intro hright
    exact hfront.1 (hright.codeRight.imp_right And.left)
  · intro hclean
    apply right_preamble [header, signalText signal] _ rfl h rfl
    · exact .inl rfl
    · exact (hfront.2 hclean).imp_right fun hzero => ⟨hzero, not_complete [header, signalText signal] [] h⟩
    · exact .inr rfl

/-- **The fault line.** -/
theorem right_fault {kept : Bytes} (h : kept <+: faultText fault) :
    (∃ dump, parseDump ((Cut.fault kept).text signal code fault frames) = some dump ∧
      Right signal code fault frames ((Cut.fault kept).text signal code fault frames) dump) ↔
        (Cut.fault kept).Clean signal code fault frames := by
  have hlines := preamble_no_newline signal code fault
  have hkept : 10 ∉ kept := fun hnl => hlines (faultText fault) (by simp [preamble]) (h.subset hnl)
  have hread : parseDump ((Cut.fault kept).text signal code fault frames) =
      some { signalNo := signal, code, faultAddr := parseHex (kept.drop 6) } :=
    parseDump_cut [signalText signal, codeText code] (fun line hline => hlines line (List.mem_append_left _ hline)) hkept
      foldl_code (parseLine_fault_front h rfl)
  have hfront := parseHex_front (drop_front h)
  rw [right_iff hread, Cut.Clean, faultText, front_iff h]
  constructor
  · intro hright
    exact hfront.1 (hright.faultRight.imp_right And.left)
  · intro hclean
    apply right_preamble [header, signalText signal, codeText code] _ rfl h rfl
    · exact .inl rfl
    · exact .inl rfl
    · exact hfront.2 hclean

/-! ## Frames -/

theorem readBack_done {done : List CapturedFrame} (h : ∀ f ∈ done, f.plainlyNamed) :
    done.flatMap readBack = done.map CapturedFrame.expected := by
  rw [List.map_eq_flatMap]
  exact List.flatMap_congr fun f hf => readBack_plain (h f hf)

theorem foldl_done {done : List CapturedFrame} (h : ∀ f ∈ done, f.plainlyNamed) :
    (preamble signal code fault ++ done.map frameText).foldl parseLine (false, {}) =
      (true, ⟨signal, code, fault, done.map CapturedFrame.expected⟩) := by
  rw [List.foldl_append, foldl_preamble]
  exact (foldl_frames done _).trans (by rw [readBack_done h, List.nil_append])

theorem done_no_newline {done : List CapturedFrame} (h : ∀ f ∈ done, f.plainlyNamed) :
    ∀ line ∈ preamble signal code fault ++ done.map frameText, 10 ∉ line := by
  intro line hline
  rcases List.mem_append.1 hline with hline | hline
  · exact preamble_no_newline signal code fault line hline
  · obtain ⟨f, hf, rfl⟩ := List.mem_map.1 hline
    exact not_mem_append (by decide) (frameText_no_newline (h f hf).oneLine)

/-- A complete frame is returned only if its module is plainly named. -/
theorem Right.plain {text : Bytes} {dump : NativeCrashDump} (h : Right signal code fault frames text dump)
    (hread : parseDump text = some dump) {done rest : List CapturedFrame} (hframes : frames = done ++ rest)
    (hcomplete : written (preamble signal code fault ++ done.map frameText) <+: text) :
    ∀ f ∈ done, f.plainlyNamed := by
  intro f hf
  have hmem := (h.complete done rest hframes hcomplete).subset (List.mem_map_of_mem hf)
  have hspelled := parseDump_spelled hread _ hmem
  cases f with
  | unresolved _ => trivial
  | resolved m offset => exact ⟨hspelled.no_space, hspelled.module_line⟩

/-- What is right of a dump that is cut behind its preamble. -/
theorem right_behind {text : Bytes} {first : List CapturedFrame} {more : List NativeCrashFrame}
    (hfirst : first <+: frames) (hmore : List.Forall₂ Faithful more first)
    (hcomplete : ∀ done rest, frames = done ++ rest →
      written (preamble signal code fault ++ done.map frameText) <+: text → done.map CapturedFrame.expected <+: more) :
    Right signal code fault frames text ⟨signal, code, fault, more⟩ :=
  ⟨.inl rfl, .inl rfl, .inl rfl, hcomplete, first, hfirst, hmore⟩

theorem faithful_expected (done : List CapturedFrame) :
    List.Forall₂ Faithful (done.map CapturedFrame.expected) done := by
  rw [List.forall₂_map_left_iff, List.forall₂_same]
  exact fun _ _ => ⟨rfl, .inl rfl, .inl rfl⟩

/-- **The last line.** -/
theorem right_tail {kept : Bytes} (h : kept <+: lit "end" ++ [10]) :
    (∃ dump, parseDump ((Cut.tail kept).text signal code fault frames) = some dump ∧
      Right signal code fault frames ((Cut.tail kept).text signal code fault frames) dump) ↔
        (Cut.tail kept).Clean signal code fault frames := by
  constructor
  · rintro ⟨dump, hread, hright⟩
    exact hright.plain hread (List.append_nil frames).symm (List.prefix_append _ _)
  · intro hplain
    refine ⟨_, ?_, right_behind (List.prefix_refl frames) (faithful_expected frames) ?_⟩
    · rcases List.prefix_concat_iff.1 h with rfl | hfront
      · have hwhole : (Cut.tail (lit "end" ++ [10])).text signal code fault frames =
            writeDump signal code fault frames := by
          have hend : ([lit "end"] : List Bytes).flatMap (· ++ [10]) = lit "end" ++ [10] := List.flatMap_singleton _ _
          rw [writeDump_lines, dumpLines, List.flatMap_append, hend]
          rfl
        rw [hwhole]
        exact (parseDump_writeDump_iff signal code fault frames).2 hplain
      · have hsilent : ∀ kept ∈ (lit "end").inits, silent kept = true ∧ 10 ∉ kept := by decide
        obtain ⟨hkept, hline⟩ := hsilent kept ((List.mem_inits _ _).2 hfront)
        exact parseDump_cut _ (done_no_newline hplain) hline (foldl_done hplain) (parseLine_silent hkept _)
    · rintro done rest rfl -
      rw [List.map_append]
      exact List.prefix_append _ _

theorem right_torn {done rest : List CapturedFrame} {torn : CapturedFrame} {kept : Bytes}
    (hframes : frames = done ++ torn :: rest) (h : kept <+: frameText torn) (hkept : 10 ∉ kept)
    (hdone : ∀ f ∈ done, f.plainlyNamed) :
    (∃ dump, parseDump ((Cut.frame done torn kept).text signal code fault frames) = some dump ∧
      Right signal code fault frames ((Cut.frame done torn kept).text signal code fault frames) dump) ↔
        ∀ f ∈ parseFrame (kept.drop 6), Faithful f torn := by
  have hread : parseDump ((Cut.frame done torn kept).text signal code fault frames) =
      some ⟨signal, code, fault, done.map CapturedFrame.expected ++ (parseFrame (kept.drop 6)).toList⟩ :=
    parseDump_cut _ (done_no_newline hdone) hkept (foldl_done hdone) (parseLine_frame_front h)
  rw [right_iff hread]
  constructor
  · intro hright f hf
    obtain ⟨first, hfirst, hall⟩ := hright.faithful
    rw [Option.mem_def.1 hf, Option.toList_some] at hall
    have hlength := hall.length_eq
    rw [List.length_append, List.length_map, List.length_singleton] at hlength
    have hthis : first = done ++ [torn] := by
      apply (List.prefix_of_prefix_length_le hfirst (hframes ▸ ⟨rest, by simp⟩) _).eq_of_length
      · rw [← hlength, List.length_append, List.length_singleton]
      · rw [← hlength, List.length_append, List.length_singleton]
    have hlast := List.forall₂_drop done.length hall
    rw [hthis, List.drop_left, List.drop_left' (List.length_map _)] at hlast
    exact (List.forall₂_cons.1 hlast).1
  · intro hfaithful
    have hcomplete : ∀ done' rest', frames = done' ++ rest' →
        written (preamble signal code fault ++ done'.map frameText) <+:
          (Cut.frame done torn kept).text signal code fault frames → done' <+: done := by
      intro done' rest' hframes' hwritten
      rcases List.prefix_or_prefix_of_prefix ⟨rest', hframes'.symm⟩ ⟨torn :: rest, hframes.symm⟩ with hle | ⟨more, rfl⟩
      · exact hle
      · cases more with
        | nil =>
          rw [List.append_nil]
        | cons next more =>
          -- the line of the torn frame would be complete
          rw [hframes, List.append_assoc, List.append_cancel_left_eq] at hframes'
          obtain ⟨rfl, -⟩ := List.cons.inj hframes'
          rw [List.map_append, List.map_cons, ← List.append_assoc] at hwritten
          exact absurd hwritten (not_complete _ _ h)
    have hadded : ∀ done' rest', frames = done' ++ rest' →
        written (preamble signal code fault ++ done'.map frameText) <+:
          (Cut.frame done torn kept).text signal code fault frames →
            done'.map CapturedFrame.expected <+:
              done.map CapturedFrame.expected ++ (parseFrame (kept.drop 6)).toList :=
      fun done' rest' hframes' hwritten =>
        ((hcomplete done' rest' hframes' hwritten).map _).trans (List.prefix_append _ _)
    cases hf : parseFrame (kept.drop 6) with
    | none =>
      rw [hf, Option.toList_none, List.append_nil] at hadded
      rw [Option.toList_none, List.append_nil]
      exact right_behind ⟨torn :: rest, hframes.symm⟩ (faithful_expected done) hadded
    | some f =>
      rw [hf] at hadded
      have hfirst : done ++ [torn] <+: frames := ⟨rest, by rw [hframes, List.append_assoc, List.singleton_append]⟩
      exact right_behind hfirst (List.rel_append (faithful_expected done) (.cons (hfaithful f hf) .nil)) hadded

theorem frameText_expected (frame : CapturedFrame) :
    NativeDump.frameText frame = frame.expected.module ++ lit " " ++
      (hexTo frame.expected.offset ++ lit " " ++ frame.expected.buildId) := by
  cases frame with
  | unresolved address =>
    rw [NativeDump.frameText, CapturedFrame.expected, List.append_nil, List.append_assoc]
  | resolved m offset =>
    rw [NativeDump.frameText, CapturedFrame.expected]
    simp only [List.append_assoc]

theorem expected_plain {frame : CapturedFrame} (h : frame.plainlyNamed) :
    32 ∉ frame.expected.module ∧ 32 ∉ frame.expected.buildId := by
  cases frame with
  | unresolved _ =>
    have hunknown : 32 ∉ lit "??" := by decide
    exact ⟨hunknown, List.not_mem_nil⟩
  | resolved m _ => exact ⟨h.1, (buildIdText_plain m.buildId).1⟩

theorem faithful_offset {torn : CapturedFrame} {offset : Bytes} (h : torn.plainlyNamed)
    (hoffset : offset <+: hexTo torn.expected.offset) :
    (∀ f ∈ parseFrame (torn.expected.module ++ lit " " ++ offset), Faithful f torn) ↔
      offset <+: lit "0x" ∨ offset = hexTo torn.expected.offset := by
  have hspace : 32 ∉ offset := fun hmem => (hexTo_plain _).1 (hoffset.subset hmem)
  have hread : parseFrame (torn.expected.module ++ lit " " ++ offset) =
      some { module := torn.expected.module, offset := parseHex offset, buildId := [] } := by
    have hmodule := Delimited.cut_append (expected_plain h).1 offset
    rw [parseFrame, List.append_assoc]
    show (Delimited.cut 32 (torn.expected.module ++ 32 :: offset)).map _ = _
    rw [hmodule, Option.map_some]
    simp only [Delimited.cut_eq_none.2 hspace]
    rfl
  rw [hread, ← parseHex_front hoffset]
  constructor
  · intro hfaithful
    exact (hfaithful _ rfl).offset
  · rintro hvalue f hf
    rw [← Option.some.inj hf]
    exact ⟨rfl, hvalue, .inr rfl⟩

theorem faithful_buildId {torn : CapturedFrame} {buildId : Bytes} (h : torn.plainlyNamed)
    (hbuildId : buildId <+: torn.expected.buildId) :
    (∀ f ∈ parseFrame (torn.expected.module ++ lit " " ++ (hexTo torn.expected.offset ++ lit " " ++ buildId)),
      Faithful f torn) ↔ buildId = [] ∨ buildId = torn.expected.buildId := by
  have hspace : 32 ∉ buildId := fun hmem => (expected_plain h).2 (hbuildId.subset hmem)
  have hread := parseFrame_fields torn.expected.offset (expected_plain h).1 hspace
  simp only [List.append_assoc] at hread ⊢
  rw [hread]
  constructor
  · intro hfaithful
    exact (hfaithful _ rfl).buildId.symm
  · rintro hvalue f hf
    rw [← Option.some.inj hf]
    exact ⟨rfl, .inl rfl, hvalue.symm⟩

/-- **A torn frame** is right exactly where its line may be cut. -/
theorem faithful_iff {torn : CapturedFrame} {kept : Bytes} (h : torn.plainlyNamed)
    (hkept : kept <+: NativeDump.frameText torn) :
    (∀ f ∈ parseFrame kept, Faithful f torn) ↔
      32 ∉ kept ∨ kept <+: torn.expected.module ++ lit " 0x" ∨
        kept = torn.expected.module ++ lit " " ++ hexTo torn.expected.offset ∨
        kept = torn.expected.module ++ lit " " ++ hexTo torn.expected.offset ++ lit " " ∨
        kept = NativeDump.frameText torn := by
  have hmodule := (expected_plain h).1
  have hblank : lit " 0x" = lit " " ++ lit "0x" := by decide
  have hlong : 3 ≤ (hexTo torn.expected.offset).length := by
    rw [hexTo, List.length_append, nibblesDown_length]
    show 3 ≤ 2 + _
    omega
  rw [frameText_expected] at hkept ⊢
  rcases prefix_append_iff.1 hkept with hfront | ⟨offset, rfl, hoffset⟩
  · rcases List.prefix_concat_iff.1 hfront with rfl | hname
    · -- nothing behind the blank
      have hnothing := faithful_offset h (List.nil_prefix (l := hexTo torn.expected.offset))
      rw [List.append_nil] at hnothing
      refine iff_of_true (hnothing.2 (.inl List.nil_prefix)) (.inr (.inl ?_))
      rw [hblank, ← List.append_assoc]
      exact List.prefix_append _ _
    · have hspace : 32 ∉ kept := fun hmem => hmodule (hname.subset hmem)
      have hnone : parseFrame kept = none := by rw [parseFrame, Delimited.cut_eq_none.2 hspace, Option.map_none]
      rw [hnone]
      exact iff_of_true (fun f hf => absurd hf (Option.not_mem_none f)) (.inl hspace)
  · have hspace : 32 ∈ torn.expected.module ++ lit " " ++ offset :=
      List.mem_append_left _ (List.mem_append_right _ (by decide))
    rw [iff_false_intro (not_not_intro hspace), false_or, hblank, ← List.append_assoc torn.expected.module,
      List.prefix_append_right_inj, List.append_right_inj, List.append_assoc _ (hexTo _) (lit " "),
      List.append_right_inj, List.append_right_inj]
    have htwo : ∀ {text : Bytes}, text <+: lit "0x" → text.length ≤ 2 := fun htext => htext.length_le
    have hbehind : ∀ buildId : Bytes, (hexTo torn.expected.offset ++ lit " " ++ buildId).length =
        (hexTo torn.expected.offset).length + 1 + buildId.length := by
      intro buildId
      rw [List.length_append, List.length_append]
      rfl
    -- the offset is torn, or whole and the build id torn
    have hcases : offset <+: hexTo torn.expected.offset ∨ ∃ buildId, buildId <+: torn.expected.buildId ∧
        offset = hexTo torn.expected.offset ++ lit " " ++ buildId := by
      rcases prefix_append_iff.1 hoffset with hfront | ⟨buildId, rfl, hbuildId⟩
      · rcases List.prefix_concat_iff.1 hfront with rfl | hfront
        · exact .inr ⟨[], List.nil_prefix, (List.append_nil _).symm⟩
        · exact .inl hfront
      · exact .inr ⟨buildId, hbuildId, rfl⟩
    rcases hcases with hfront | ⟨buildId, hbuildId, rfl⟩
    · have hlength := hfront.length_le
      have hshort : ∀ buildId : Bytes, offset ≠ hexTo torn.expected.offset ++ lit " " ++ buildId := by
        intro buildId hsame
        rw [hsame, hbehind] at hlength
        omega
      have hblankless : offset ≠ hexTo torn.expected.offset ++ lit " " := by
        intro hsame
        exact hshort [] (by rw [hsame, List.append_nil])
      rw [faithful_offset h hfront, iff_false_intro hblankless, iff_false_intro (hshort _), or_false, or_false]
    · have hlong' : ¬ hexTo torn.expected.offset ++ lit " " ++ buildId <+: lit "0x" := by
        intro hfront
        have htext := htwo hfront
        rw [hbehind] at htext
        omega
      have hmore : hexTo torn.expected.offset ++ lit " " ++ buildId ≠ hexTo torn.expected.offset := by
        intro hsame
        have hlength := congrArg List.length hsame
        rw [hbehind] at hlength
        omega
      rw [faithful_buildId h hbuildId, iff_false_intro hlong', iff_false_intro hmore, false_or, false_or,
        List.append_right_inj, List.append_right_eq_self]

theorem cleanFrame_iff {torn : CapturedFrame} {kept : Bytes} (h : torn.oneLine) (hkept : kept <+: frameText torn) :
    CleanFrame torn kept ↔ ∀ f ∈ parseFrame (kept.drop 6), Faithful f torn := by
  have hline : 10 ∉ kept := fun hnl => not_mem_append (by decide) (frameText_no_newline h) (hkept.subset hnl)
  have hnone : ∀ {text : Bytes}, 32 ∉ text → parseFrame text = none := by
    intro text hspace
    rw [parseFrame, Delimited.cut_eq_none.2 hspace, Option.map_none]
  by_cases hplain : torn.plainlyNamed
  · rcases prefix_append_iff.1 hkept with hword | ⟨more, rfl, hmore⟩
    · have hdrop : kept.drop 6 = [] := List.drop_eq_nil_of_le hword.length_le
      rw [CleanFrame, hdrop, hnone List.not_mem_nil]
      exact iff_of_true (.inl ⟨List.not_mem_nil, hline⟩) fun f hf => absurd hf (Option.not_mem_none f)
    · have hdrop : (lit "frame " ++ more).drop 6 = more := rfl
      rw [CleanFrame, hdrop, faithful_iff hplain hmore, iff_true_intro hline, and_true, iff_true_intro hplain, true_and,
        frameText]
      simp only [List.append_assoc, List.prefix_append_right_inj, List.append_right_inj]
  · constructor
    · rintro (⟨hspace, -⟩ | ⟨hplain', -⟩)
      · rw [hnone hspace]
        exact fun f hf => absurd hf (Option.not_mem_none f)
      · exact absurd hplain' hplain
    · intro hfaithful
      refine .inl ⟨fun hspace => hplain ?_, hline⟩
      cases hread : parseFrame (kept.drop 6) with
      | none =>
        rw [parseFrame, Option.map_eq_none_iff, Delimited.cut_eq_none] at hread
        exact absurd hspace hread
      | some f =>
        -- a module that is read has no space
        have hspelled := parseFrame_spelled (fun hnl => hline (List.mem_of_mem_drop hnl)) hread
        have hmodule := (hfaithful f hread).module
        cases torn with
        | unresolved _ => trivial
        | resolved m offset =>
          have hspace := hspelled.no_space
          rw [hmodule] at hspace
          exact ⟨hspace, h⟩

/-- **A frame line.** A module name with a newline can put anything into a line of its own. -/
theorem right_frame {done rest : List CapturedFrame} {torn : CapturedFrame} {kept : Bytes}
    (hframes : frames = done ++ torn :: rest) (h : kept <+: frameText torn) :
    ((Cut.frame done torn kept).Clean signal code fault frames →
      ∃ dump, parseDump ((Cut.frame done torn kept).text signal code fault frames) = some dump ∧
        Right signal code fault frames ((Cut.frame done torn kept).text signal code fault frames) dump) ∧
    (torn.oneLine → (∃ dump, parseDump ((Cut.frame done torn kept).text signal code fault frames) = some dump ∧
        Right signal code fault frames ((Cut.frame done torn kept).text signal code fault frames) dump) →
      (Cut.frame done torn kept).Clean signal code fault frames) := by
  constructor
  · rintro ⟨hdone, hclean⟩
    have hkept : 10 ∉ kept := by
      rcases hclean with ⟨-, hline⟩ | ⟨hplain, -⟩
      · exact hline
      · exact fun hnl => not_mem_append (by decide) (frameText_no_newline hplain.oneLine) (h.subset hnl)
    rw [right_torn hframes h hkept hdone]
    rcases hclean with ⟨hspace, -⟩ | hplain
    · rw [parseFrame, Delimited.cut_eq_none.2 hspace, Option.map_none]
      exact fun f hf => absurd hf (Option.not_mem_none f)
    · exact (cleanFrame_iff hplain.1.oneLine h).1 (.inr hplain)
  · rintro hline ⟨dump, hread, hright⟩
    have hkept : 10 ∉ kept := fun hnl => not_mem_append (by decide) (frameText_no_newline hline) (h.subset hnl)
    have hdone := hright.plain hread hframes (List.prefix_append _ _)
    exact ⟨hdone, (cleanFrame_iff hline h).2 ((right_torn hframes h hkept hdone).1 ⟨dump, hread, hright⟩)⟩

/-- What the next launch is to make of the front of a dump. -/
def ReadsRight (signal code : Int32) (fault : UInt64) (frames : List CapturedFrame) (front : Bytes) : Prop :=
  ∃ dump, parseDump front = some dump ∧ Right signal code fault frames front dump

/-- **A torn dump** is read right when the cut is clean, and only then, but for a name with a newline. -/
theorem readsRight_cut (signal code : Int32) (fault : UInt64) (frames : List CapturedFrame) {front : Bytes}
    (h : front <+: writeDump signal code fault frames) (hheader : written [header] <+: front) :
    (∃ cut : Cut, cut.Fits signal code fault frames ∧ cut.text signal code fault frames = front) ∧
    ∀ cut : Cut, cut.Fits signal code fault frames → cut.text signal code fault frames = front →
      (cut.Clean signal code fault frames → ReadsRight signal code fault frames front) ∧
      (cut.OneLine → ReadsRight signal code fault frames front → cut.Clean signal code fault frames) := by
  refine ⟨exists_cut h hheader, fun cut hfits htext => ?_⟩
  rw [← htext]
  cases cut with
  | signal kept => exact ⟨(right_signal hfits).2, fun _ => (right_signal hfits).1⟩
  | code kept => exact ⟨(right_code hfits).2, fun _ => (right_code hfits).1⟩
  | fault kept => exact ⟨(right_fault hfits).2, fun _ => (right_fault hfits).1⟩
  | frame done torn kept =>
    obtain ⟨⟨rest, hframes⟩, hkept⟩ := hfits
    exact right_frame hframes hkept
  | tail kept => exact ⟨(right_tail hfits).2, fun _ => (right_tail hfits).1⟩

/-- A module with a build id. -/
def engineModule : ModuleEntry where
  base := 0x1000
  limit := 0x9000
  name := lit "/lib/engine.so"
  buildId := [0x5E, 0x11, 0x90]
  name_le := by decide
  name_no_nul := by decide
  buildId_le := by decide

/-- The program counter and the link register, both in that module. -/
def engineFrames : List CapturedFrame := [.resolved engineModule 0x2F0, .resolved engineModule 0x14]

/-- The dump, up to some bytes of the line of the second frame. -/
def tornEngine (kept : Bytes) : Bytes :=
  written (preamble 11 1 0 ++ [frameText (.resolved engineModule 0x2F0)]) ++ kept

/-- A process that dies in the line of its second frame: right in front of the build id the dump is
read right, and between the digits of the offset it is not. -/
theorem readsRight_cut_offset :
    ReadsRight 11 1 0 engineFrames (tornEngine (lit "frame /lib/engine.so 0x14 ")) ∧
      ¬ ReadsRight 11 1 0 engineFrames (tornEngine (lit "frame /lib/engine.so 0x1")) := by
  have hcut : ∀ kept, kept <+: frameText (.resolved engineModule 0x14) →
      tornEngine kept <+: writeDump 11 1 0 engineFrames → written [header] <+: tornEngine kept →
      (CleanFrame (.resolved engineModule 0x14) kept → ReadsRight 11 1 0 engineFrames (tornEngine kept)) ∧
        (ReadsRight 11 1 0 engineFrames (tornEngine kept) → CleanFrame (.resolved engineModule 0x14) kept) := by
    intro kept hkept hfront hheader
    have hplain : (CapturedFrame.resolved engineModule 0x2F0).plainlyNamed := ⟨by decide, by decide⟩
    obtain ⟨hclean, honly⟩ := (readsRight_cut 11 1 0 engineFrames hfront hheader).2
      (.frame [.resolved engineModule 0x2F0] (.resolved engineModule 0x14) kept) ⟨⟨[], rfl⟩, hkept⟩ rfl
    exact ⟨fun h => hclean ⟨List.forall_mem_singleton.2 hplain, h⟩,
      fun h => (honly (show 10 ∉ engineModule.name by decide) h).2⟩
  constructor
  · apply (hcut _ (by decide) (by decide) (by decide)).1
    exact .inr ⟨⟨by decide, by decide⟩, .inr (.inr (.inl (by decide)))⟩
  · intro hright
    rcases (hcut _ (by decide) (by decide) (by decide)).2 hright with ⟨hspace, -⟩ | ⟨-, hkept⟩
    · exact hspace (by decide)
    · revert hkept
      decide

/-- A process that dies between the digits of the signal reports another one. -/
theorem torn_signal : ¬ ∀ (signal code : Int32) (fault : UInt64) (frames : List CapturedFrame) (front : Bytes),
    front <+: writeDump signal code fault frames → written [header] <+: front →
      ReadsRight signal code fault frames front := by
  intro hall
  obtain ⟨dump, hread, hright⟩ := hall 11 1 0 [] (written [header] ++ lit "signal 1") (by decide)
    (List.prefix_append _ _)
  have htorn : parseDump (written [header] ++ lit "signal 1") = some { signalNo := 1 } := by decide
  rw [htorn] at hread
  obtain rfl := Option.some.inj hread
  have hsignal := hright.signalRight.imp_right And.left
  revert hsignal
  decide

end Tombstone.TornDump
