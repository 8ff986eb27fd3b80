import Tombstone.NativeReport

/- The signed arithmetic of the dump parser.

   `parse_dec` multiplies and adds without a look at the range of `long`, and its callers narrow the
   result to an `int`. So the parser is given here once more, over operations that have no result
   outside the range of their type (`Signed`), for both widths that `long` has on the platforms of the
   SDK. They all have one exactly where the numbers of the text fit (`numbersStand_iff`). -/
namespace Tombstone.DumpNumbers
open NativeDump (NativeCrashDump)

/-! ## Signed types -/

namespace Signed

/-- The range of a signed type of `bits` bits. -/
def InRange (bits : Nat) (n : Int) : Prop := -2 ^ (bits - 1) ≤ n ∧ n < 2 ^ (bits - 1)

instance (bits : Nat) (n : Int) : Decidable (InRange bits n) := inferInstanceAs (Decidable (_ ∧ _))

/-- The result of an operation, if it is in the range of the type. -/
def result (bits : Nat) (n : Int) : Option Int := if InRange bits n then some n else none

theorem result_of_inRange {bits : Nat} {n : Int} (h : InRange bits n) : result bits n = some n := if_pos h

end Signed

open Signed

/-- How wide `long` is. -/
inductive LongWidth
  | long32
  | long64
  deriving DecidableEq

def LongWidth.bits : LongWidth → Nat
  | .long32 => 32
  | .long64 => 64

variable (w : LongWidth)

/-! ## The parser, operation by operation -/

/-- The loop of `parse_dec`. -/
def decLoop (v : Int) : Bytes → Option Int
  | [] => some v
  | c :: cs =>
    if JsonScan.isDigit c then
      (result w.bits (v * 10)).bind fun tens =>
        (result w.bits (tens + ((c.toNat : Int) - 48))).bind fun v => decLoop v cs
    else some v

/-- `parse_dec`. -/
def parseDec (text : Bytes) : Option Int :=
  match text with
  | c :: cs => if c = ch '-' then (decLoop w 0 cs).bind fun v => result w.bits (-v) else decLoop w 0 (c :: cs)
  | [] => some 0

/-- The cast of what `parse_dec` returns. -/
def intField (text : Bytes) : Option Int32 :=
  (parseDec w text).bind fun v => (result 32 v).map Int32.ofInt

/-- One line of `parse_dump`. The other lines have no signed arithmetic. -/
def parseLine (state : Bool × NativeCrashDump) (line : Bytes) : Option (Bool × NativeCrashDump) :=
  if (lit "tombstone-native-crash").isPrefixOf line then some (true, state.2)
  else if (lit "signal ").isPrefixOf line then
    (intField w (line.drop 7)).map fun n => (state.1, { state.2 with signalNo := n })
  else if (lit "code ").isPrefixOf line then
    (intField w (line.drop 5)).map fun n => (state.1, { state.2 with code := n })
  else some (NativeDump.parseLine state line)

/-- `parse_dump`. -/
def parseDump (text : Bytes) : Option (Option NativeCrashDump) :=
  ((Delimited.records 10 text).foldlM (parseLine w) (false, {})).map fun state =>
    if state.1 then some state.2 else none

/-- `dec_to`: a negative value is negated first. The quotients and remainders by ten are in range. -/
def decTo (value : Int) : Option Bytes :=
  if value < 0 then (result w.bits (-value)).map fun v => ch '-' :: intText v else some (intText value)

/-- `signal_name`. -/
def signalName (signalNo : Int32) : Option Bytes :=
  if signalNo.toInt ∈ [4, 5, 6, 7, 8, 11] then some (NativeReport.signalName signalNo)
  else (decTo w signalNo.toInt).map fun number => lit "signal " ++ number

/-! ## What is claimed of a text -/

/-- A run of digits in decimal. What is no digit ends it. -/
def digits (text : Bytes) : Nat :=
  (text.takeWhile JsonScan.isDigit).foldl (fun v c => v * 10 + Decimal.value c) 0

/-- The decimal number in front of a text. -/
def number (text : Bytes) : Int :=
  if text.head? = some (ch '-') then -(digits text.tail : Int) else digits text

/-- The number of a `signal` line. -/
def signalNumber (line : Bytes) : Option Int :=
  if (lit "signal ").isPrefixOf line then some (number (line.drop 7)) else none

/-- The number of a `code` line. -/
def codeNumber (line : Bytes) : Option Int :=
  if (lit "code ").isPrefixOf line then some (number (line.drop 5)) else none

/-- No operation leaves the range of its type, down to the name of the signal, and no line whose
number is no `int` changes the field of the number. -/
structure NumbersStand (text : Bytes) : Prop where
  parse : (parseDump w text).isSome = true
  name : ∀ dump, parseDump w text = some (some dump) → (signalName w dump.signalNo).isSome = true
  signal : ∀ line ∈ Delimited.records 10 text, ∀ n ∈ signalNumber line, ¬ InRange 32 n →
    ∀ state, (NativeDump.parseLine state line).2.signalNo = state.2.signalNo
  code : ∀ line ∈ Delimited.records 10 text, ∀ n ∈ codeNumber line, ¬ InRange 32 n →
    ∀ state, (NativeDump.parseLine state line).2.code = state.2.code

/-- The number is an `int`, and so is its negation where `long` is no wider. -/
def Fits (n : Int) : Prop := InRange 32 n ∧ InRange w.bits (-n)

instance (n : Int) : Decidable (Fits w n) := inferInstanceAs (Decidable (_ ∧ _))

/-- Every number of the lines fits. -/
def NumbersFit (text : Bytes) : Prop :=
  ∀ line ∈ Delimited.records 10 text, ∀ n, n ∈ signalNumber line ∨ n ∈ codeNumber line → Fits w n

/-! ## The loop -/

variable {w}

theorem LongWidth.le_bits (w : LongWidth) : (2 : Int) ^ 31 ≤ 2 ^ (w.bits - 1) := by
  cases w with
  | long32 => decide
  | long64 => decide

theorem le_decLoop (v : Nat) (cs : Bytes) : v ≤ NativeDump.decLoop v cs := by
  induction cs generalizing v with
  | nil => exact Nat.le_refl v
  | cons c cs ih =>
    rw [NativeDump.decLoop]
    split
    · have hmore := ih (v * 10 + (c.toNat - 48))
      omega
    · exact Nat.le_refl v

/-- **The loop has a result where its number is in range**: the numbers before it are smaller. -/
theorem decLoop_eq {v : Nat} (cs : Bytes) (hv : (v : Int) < 2 ^ (w.bits - 1)) :
    decLoop w v cs = if (NativeDump.decLoop v cs : Int) < 2 ^ (w.bits - 1) then
      some (NativeDump.decLoop v cs : Int) else none := by
  induction cs generalizing v with
  | nil => rw [decLoop, NativeDump.decLoop, if_pos hv]
  | cons c cs ih =>
    rw [decLoop, NativeDump.decLoop]
    by_cases hc : JsonScan.isDigit c = true
    · -- what is left of the loop only adds digits, so a step that leaves the range is not made up for
      have hdigit : 48 ≤ c.toNat := (of_decide_eq_true hc).1
      have hstep : (v : Int) * 10 + ((c.toNat : Int) - 48) = ((v * 10 + (c.toNat - 48) : Nat) : Int) := by omega
      have hmore := le_decLoop (v * 10 + (c.toNat - 48)) cs
      have hhalf := w.le_bits
      rw [if_pos hc, if_pos hc]
      by_cases hsum : ((v * 10 + (c.toNat - 48) : Nat) : Int) < 2 ^ (w.bits - 1)
      · have htens : InRange w.bits ((v : Int) * 10) := ⟨by omega, by omega⟩
        have hadd : InRange w.bits ((v : Int) * 10 + ((c.toNat : Int) - 48)) := ⟨by omega, by omega⟩
        rw [result_of_inRange htens, Option.bind_some, result_of_inRange hadd, Option.bind_some, hstep, ih hsum]
      · have hlong : ¬ (NativeDump.decLoop (v * 10 + (c.toNat - 48)) cs : Int) < 2 ^ (w.bits - 1) := by omega
        have hadd : result w.bits ((v : Int) * 10 + ((c.toNat : Int) - 48)) = none :=
          if_neg fun hrange => hsum (hstep ▸ hrange.2)
        rw [if_neg hlong]
        cases htens : result w.bits ((v : Int) * 10) with
        | none => rfl
        | some tens =>
          have heq : tens = (v : Int) * 10 := by
            unfold result at htens
            split at htens
            · exact (Option.some.inj htens).symm
            · cases htens
          rw [Option.bind_some, heq, hadd, Option.bind_none]
    · rw [if_neg hc, if_neg hc, if_pos hv]

/-- Beyond the range of any type, the loop of the source is decimal. -/
theorem decLoop_digits (cs : Bytes) : NativeDump.decLoop 0 cs = digits cs := by
  have htake : ∀ v, NativeDump.decLoop v cs = NativeDump.decLoop v (cs.takeWhile JsonScan.isDigit) := by
    induction cs with
    | nil => exact fun v => rfl
    | cons c cs ih =>
      intro v
      by_cases hc : JsonScan.isDigit c = true
      · rw [List.takeWhile_cons_of_pos hc, NativeDump.decLoop, NativeDump.decLoop, if_pos hc, if_pos hc, ih]
      · rw [List.takeWhile_cons_of_neg hc, NativeDump.decLoop, NativeDump.decLoop, if_neg hc]
  rw [htake, digits]
  have hdigit : ∀ c ∈ cs.takeWhile JsonScan.isDigit, JsonScan.isDigit c = true :=
    fun c hc => List.mem_takeWhile_imp hc
  exact NativeDump.decLoop_digits (fun c hc => of_decide_eq_true (hdigit c hc)) 0

theorem parseDec_eq (text : Bytes) : NativeDump.parseDec text = number text := by
  cases text with
  | nil => rfl
  | cons c cs =>
    rw [NativeDump.parseDec, number, List.head?_cons, List.tail_cons, decLoop_digits, decLoop_digits]
    simp only [Option.some.injEq]

theorem decLoop_zero (cs : Bytes) : decLoop w 0 cs = if (NativeDump.decLoop 0 cs : Int) < 2 ^ (w.bits - 1) then
    some (NativeDump.decLoop 0 cs : Int) else none :=
  decLoop_eq cs (Int.pow_pos (by decide))

/-- What `parse_dec` returns is an `int` where its number fits. -/
theorem parseDec_int (text : Bytes) : (parseDec w text).bind (result 32) =
    if Fits w (number text) then some (NativeDump.parseDec text) else none := by
  rw [← parseDec_eq]
  have hhalf := w.le_bits
  have hpos : (0 : Int) < 2 ^ (w.bits - 1) := Int.pow_pos (by decide)
  cases text with
  | nil => exact (if_pos ⟨by decide, by show -2 ^ (w.bits - 1) ≤ (0 : Int); omega, hpos⟩).symm
  | cons c cs =>
    rw [parseDec, NativeDump.parseDec]
    by_cases hc : c = ch '-'
    · -- the digits come first, and only then the sign
      rw [if_pos hc, if_pos hc, decLoop_zero]
      generalize NativeDump.decLoop 0 cs = k
      by_cases hk : (k : Int) < 2 ^ (w.bits - 1)
      · have hneg : InRange w.bits (-(k : Int)) := ⟨by omega, by omega⟩
        have hback : InRange w.bits (- -(k : Int)) := ⟨by omega, by omega⟩
        have hfits : Fits w (-(k : Int)) ↔ InRange 32 (-(k : Int)) := and_iff_left hback
        rw [if_pos hk, Option.bind_some, result_of_inRange hneg, Option.bind_some, result]
        simp only [hfits]
      · have hnot : ¬ Fits w (-(k : Int)) := fun h => hk (by have := h.2.2; omega)
        rw [if_neg hk, if_neg hnot, Option.bind_none, Option.bind_none]
    · rw [if_neg hc, if_neg hc, decLoop_zero]
      generalize NativeDump.decLoop 0 (c :: cs) = k
      by_cases hk : (k : Int) < 2 ^ (w.bits - 1)
      · have hneg : InRange w.bits (-(k : Int)) := ⟨by omega, by omega⟩
        have hfits : Fits w (k : Int) ↔ InRange 32 (k : Int) := and_iff_left hneg
        rw [if_pos hk, Option.bind_some, result]
        simp only [hfits]
      · have hnot : ¬ Fits w (k : Int) := fun h => hk (Int.lt_of_lt_of_le h.1.2 hhalf)
        rw [if_neg hk, if_neg hnot, Option.bind_none]

/-- **A field has a value where its number fits.** -/
theorem intField_eq (text : Bytes) : intField w text =
    if Fits w (number text) then some (Int32.ofInt (NativeDump.parseDec text)) else none := by
  have hbind : intField w text = ((parseDec w text).bind (result 32)).map Int32.ofInt := by
    rw [intField, Option.map_bind]
    rfl
  rw [hbind, parseDec_int]
  split
  · rfl
  · rfl

/-! ## The lines -/

theorem mem_signalNumber {line : Bytes} {n : Int} :
    n ∈ signalNumber line ↔ (lit "signal ").isPrefixOf line = true ∧ number (line.drop 7) = n := by
  rw [signalNumber, Option.mem_def, Option.ite_none_right_eq_some, Option.some.injEq]

theorem mem_codeNumber {line : Bytes} {n : Int} :
    n ∈ codeNumber line ↔ (lit "code ").isPrefixOf line = true ∧ number (line.drop 5) = n := by
  rw [codeNumber, Option.mem_def, Option.ite_none_right_eq_some, Option.some.injEq]

/-- Two openings of a line that differ in their first byte exclude each other. -/
theorem not_opens {p q : UInt8} {ps qs line : Bytes} (hne : p ≠ q) (h : (p :: ps).isPrefixOf line = true) :
    ¬ (q :: qs).isPrefixOf line = true := by
  cases line with
  | nil => cases h
  | cons c cs =>
    rw [List.isPrefixOf_iff_prefix, List.cons_prefix_cons] at h ⊢
    rintro ⟨rfl, -⟩
    exact hne h.1

/-- The numbers of a line fit. -/
def LineFits (w : LongWidth) (line : Bytes) : Prop :=
  ∀ n, n ∈ signalNumber line ∨ n ∈ codeNumber line → Fits w n

/-- **A line has a result where its numbers fit**, and it is the one of the machine. -/
theorem parseLine_of_fits {line : Bytes} (h : LineFits w line) (state : Bool × NativeCrashDump) :
    parseLine w state line = some (NativeDump.parseLine state line) := by
  rw [parseLine, NativeDump.parseLine]
  by_cases hheader : (lit "tombstone-native-crash").isPrefixOf line = true
  · rw [if_pos hheader, if_pos hheader]
  · rw [if_neg hheader, if_neg hheader]
    by_cases hsignal : (lit "signal ").isPrefixOf line = true
    · have hfits : Fits w (number (line.drop 7)) := h _ (.inl (mem_signalNumber.2 ⟨hsignal, rfl⟩))
      rw [if_pos hsignal, if_pos hsignal, intField_eq, if_pos hfits, Option.map_some]
    · rw [if_neg hsignal, if_neg hsignal]
      by_cases hcode : (lit "code ").isPrefixOf line = true
      · have hfits : Fits w (number (line.drop 5)) := h _ (.inr (mem_codeNumber.2 ⟨hcode, rfl⟩))
        rw [if_pos hcode, if_pos hcode, intField_eq, if_pos hfits, Option.map_some]
      · rw [if_neg hcode, if_neg hcode]

theorem fits_of_parseLine {line : Bytes} {state next : Bool × NativeCrashDump}
    (h : parseLine w state line = some next) : LineFits w line := by
  intro n hn
  refine Decidable.byContradiction fun hnot => ?_
  -- the openings differ in their first byte, so this is the branch that is taken
  rcases hn with hn | hn
  · obtain ⟨hsignal, rfl⟩ := mem_signalNumber.1 hn
    have hheader : ¬ (lit "tombstone-native-crash").isPrefixOf line = true := not_opens (by decide) hsignal
    rw [parseLine, if_neg hheader, if_pos hsignal, intField_eq, if_neg hnot] at h
    cases h
  · obtain ⟨hcode, rfl⟩ := mem_codeNumber.1 hn
    have hheader : ¬ (lit "tombstone-native-crash").isPrefixOf line = true := not_opens (by decide) hcode
    have hsignal : ¬ (lit "signal ").isPrefixOf line = true := not_opens (by decide) hcode
    rw [parseLine, if_neg hheader, if_neg hsignal, if_pos hcode, intField_eq, if_neg hnot] at h
    cases h

theorem foldlM_of_fits {lines : List Bytes} (h : ∀ line ∈ lines, LineFits w line)
    (state : Bool × NativeCrashDump) :
    lines.foldlM (parseLine w) state = some (lines.foldl NativeDump.parseLine state) := by
  induction lines generalizing state with
  | nil => rfl
  | cons line lines ih =>
    obtain ⟨hline, hmore⟩ := List.forall_mem_cons.1 h
    rw [List.foldlM_cons, parseLine_of_fits hline, List.foldl_cons]
    exact ih hmore _

theorem fits_of_foldlM {lines : List Bytes} {state last : Bool × NativeCrashDump}
    (h : lines.foldlM (parseLine w) state = some last) : ∀ line ∈ lines, LineFits w line := by
  induction lines generalizing state with
  | nil => exact fun _ hline => absurd hline List.not_mem_nil
  | cons line lines ih =>
    rw [List.foldlM_cons] at h
    obtain ⟨next, hnext, hrest⟩ := Option.bind_eq_some_iff.1 h
    exact List.forall_mem_cons.2 ⟨fits_of_parseLine hnext, ih hrest⟩

/-! ## The number of the signal -/

theorem Fits.toInt {n : Int} (h : Fits w n) : (Int32.ofInt n).toInt = n := Int32.toInt_ofInt_of_le h.1.1 h.1.2

theorem parseLine_signalNo {line : Bytes} (h : LineFits w line) {state : Bool × NativeCrashDump}
    (hstate : Fits w state.2.signalNo.toInt) : Fits w (NativeDump.parseLine state line).2.signalNo.toInt := by
  rw [NativeDump.parseLine]
  split
  · exact hstate
  · split
    · next hsignal =>
      have hfits : Fits w (number (line.drop 7)) := h _ (.inl (mem_signalNumber.2 ⟨hsignal, rfl⟩))
      show Fits w (Int32.ofInt (NativeDump.parseDec (line.drop 7))).toInt
      rw [parseDec_eq, hfits.toInt]
      exact hfits
    · split
      · exact hstate
      · split
        · exact hstate
        · split
          · exact hstate
          · exact hstate

theorem foldl_signalNo {lines : List Bytes} (h : ∀ line ∈ lines, LineFits w line)
    {state : Bool × NativeCrashDump} (hstate : Fits w state.2.signalNo.toInt) :
    Fits w (lines.foldl NativeDump.parseLine state).2.signalNo.toInt := by
  induction lines generalizing state with
  | nil => exact hstate
  | cons line lines ih =>
    obtain ⟨hline, hmore⟩ := List.forall_mem_cons.1 h
    exact ih hmore (parseLine_signalNo hline hstate)

theorem signalName_of_fits {signalNo : Int32} (h : Fits w signalNo.toInt) :
    (signalName w signalNo).isSome = true := by
  have hdec : (decTo w signalNo.toInt).isSome = true := by
    rw [decTo]
    split
    · rw [result_of_inRange h.2]
      rfl
    · rfl
  rw [signalName]
  split
  · rfl
  · rw [Option.isSome_map]
    exact hdec

/-- **The arithmetic of a dump** stays in the ranges of its types, and no number becomes another one,
exactly where the number of every line is an `int`; where `long` is one too, so is its negation. -/
theorem numbersStand_iff (w : LongWidth) (text : Bytes) : NumbersStand w text ↔ NumbersFit w text := by
  have hzero : ∀ w : LongWidth, Fits w 0 := by
    intro w
    cases w with
    | long32 => decide
    | long64 => decide
  constructor
  · intro h
    obtain ⟨parsed, hparsed⟩ := Option.isSome_iff_exists.1 h.parse
    obtain ⟨last, hlast, -⟩ := Option.map_eq_some_iff.1 hparsed
    exact fits_of_foldlM hlast
  · intro h
    have hfold := foldlM_of_fits h (false, {})
    have hparse : parseDump w text = some (NativeDump.parseDump text) := by
      rw [parseDump, hfold]
      rfl
    refine ⟨by rw [hparse]; rfl, ?_, ?_, ?_⟩
    · intro dump hdump
      rw [parseDump, hfold, Option.map_some, Option.some.injEq, Option.ite_none_right_eq_some] at hdump
      rw [← Option.some.inj hdump.2]
      exact signalName_of_fits (foldl_signalNo h (hzero w))
    · exact fun line hline n hn hnot => absurd (h line hline n (.inl hn)).1 hnot
    · exact fun line hline n hn hnot => absurd (h line hline n (.inr hn)).1 hnot

/-- **Two short lines.** The first number is beyond `long` on every platform. The second is held by a
`long` of 64 bits, and becomes the number of `SIGSEGV`. -/
theorem numbers_lost :
    ¬ NumbersStand .long64 (lit "tombstone-native-crash 1\nsignal 9223372036854775808\n") ∧
    ¬ NumbersStand .long32 (lit "tombstone-native-crash 1\nsignal 9223372036854775808\n") ∧
    ¬ NumbersStand .long64 (lit "tombstone-native-crash 1\nsignal 4294967307\n") ∧
    (NativeDump.parseDump (lit "tombstone-native-crash 1\nsignal 4294967307\n")).map (·.signalNo) = some 11 := by
  refine ⟨fun h => absurd h.parse (by decide), fun h => absurd h.parse (by decide), fun h => ?_, by decide⟩
  have hkept := h.signal (lit "signal 4294967307") (by decide) 4294967307 (by decide) (by decide) (false, {})
  exact absurd hkept (by decide)

end Tombstone.DumpNumbers
