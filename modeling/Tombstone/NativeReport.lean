import Tombstone.CrashSignature
import Tombstone.JsonRoundTrip
import Tombstone.NativeDump

/- The report of a native crash, and what its fingerprint depends on.

   `report_native_crash` hashes a line for each of the first eight frames. A line shows the whole
   path of a resolved frame's module, and the address of an unresolved frame. So the crashes of one
   bug have the same fingerprint exactly when these are the same (`reportNativeCrash_place`): a game
   that is installed somewhere else, or a stack that was loaded somewhere else, is another bug. -/
namespace Tombstone.NativeReport
open NativeDump Signature

/-! ## The report -/

/-- `signal_name`. -/
def signalName (signalNo : Int32) : Bytes :=
  match signalNo.toInt with
  | 4 => lit "SIGILL"
  | 5 => lit "SIGTRAP"
  | 6 => lit "SIGABRT"
  | 7 => lit "SIGBUS"
  | 8 => lit "SIGFPE"
  | 11 => lit "SIGSEGV"
  | n => lit "signal " ++ decTo n

/-- A line of `frames_text`; `0x%llx` prints what `hex_to` does. -/
def frameLine (f : NativeCrashFrame) : Bytes :=
  f.module ++ lit "+" ++ hexTo f.offset ++ (if f.buildId.isEmpty then [] else ch ' ' :: f.buildId)

def framesText (frames : List NativeCrashFrame) : Bytes := frames.flatMap fun f => frameLine f ++ [10]

/-- The members of the crash payload that come from the dump. -/
structure NativePayload where
  signature : Bytes
  stackHint : Bytes
  stackTrace : Bytes
  crashType : Bytes
  osSignal : Int32

/-- `report_native_crash`. -/
def reportNativeCrash (dump : NativeCrashDump) : NativePayload :=
  { signature := computeCrashSignature (signalName dump.signalNo) (framesText dump.frames)
    stackHint := lit "Native crash: " ++ signalName dump.signalNo ++ lit " at " ++ hexTo dump.faultAddr
    stackTrace := framesText dump.frames
    crashType := if dump.signalNo = 6 then lit "signal" else lit "native_crash"
    osSignal := dump.signalNo }

/-- The fingerprint that the next launch reports for what the handler wrote. -/
def nativeSignature (signal code : Int32) (fault : UInt64) (frames : List CapturedFrame) : Option Bytes :=
  (parseDump (writeDump signal code fault frames)).map fun dump => (reportNativeCrash dump).signature

/-! ## What is hashed -/

/-- What is hashed of a frame's build id, behind the offset. -/
def detail (f : NativeCrashFrame) : Bytes :=
  (cutAt (lit " (at ") (if f.buildId.isEmpty then [] else ch ' ' :: f.buildId)).rdropWhile isTrimmed

def hashedText (dump : NativeCrashDump) : Bytes :=
  signalName dump.signalNo ++ ((dump.frames.take 8).map fun f => normalise (frameLine f)).flatMap (ch '\n' :: ·)

/-- Two texts that share the part of their SHA-256 that is used. -/
def Collide (text text' : Bytes) : Prop :=
  text ≠ text' ∧ (sha256Hex text).take 32 = (sha256Hex text').take 32

theorem cutAt_front {pattern front : Bytes} (h : ∀ c ∈ front, pattern.head? ≠ some c) (rest : Bytes)
    (hpattern : pattern ≠ []) : cutAt pattern (front ++ rest) = front ++ cutAt pattern rest := by
  obtain ⟨p, ps, rfl⟩ := List.exists_cons_of_ne_nil hpattern
  induction front with
  | nil => rfl
  | cons c front ih =>
    obtain ⟨hc, hmore⟩ := List.forall_mem_cons.1 h
    have hnot : ¬ (p :: ps).isPrefixOf (c :: (front ++ rest)) = true := by
      rw [List.isPrefixOf_iff_prefix, List.cons_prefix_cons]
      rintro ⟨rfl, -⟩
      exact hc rfl
    rw [List.cons_append, cutAt, if_neg hnot, ih hmore, List.cons_append]

/-- The line of a frame, up to its offset, as it is cut. -/
theorem cutAt_frameLine {f : NativeCrashFrame} (hmodule : 32 ∉ f.module) :
    cutAt (lit " (at ") (frameLine f) = f.module ++ lit "+" ++ hexTo f.offset ++
      cutAt (lit " (at ") (if f.buildId.isEmpty then [] else ch ' ' :: f.buildId) := by
  have hplus : 32 ∉ lit "+" := by decide
  rw [frameLine]
  apply cutAt_front _ _ (by decide)
  intro c hc hhead
  have hspace : c = 32 := (Option.some.inj hhead).symm
  rw [hspace, List.mem_append, List.mem_append] at hc
  rcases hc with (hc | hc) | hc
  · exact hmodule hc
  · exact hplus hc
  · exact (hexTo_plain f.offset).1 hc

theorem numeral_kept : ∀ c ∈ numeral, isTrimmed c = false := forall_mem_bytes (by decide)

/-- **A line is hashed** with its module, without blanks in front, its offset, and the detail. -/
theorem normalise_frameLine {f : NativeCrashFrame} (h : f.Spelled) :
    normalise (frameLine f) = f.module.dropWhile isTrimmed ++ lit "+" ++ hexTo f.offset ++ detail f := by
  have hhex : hexTo f.offset ≠ [] := by
    rw [hexTo]
    exact List.append_ne_nil_of_left_ne_nil (by decide) _
  have hfront : ∀ tail : Bytes, (f.module ++ lit "+" ++ hexTo f.offset ++ tail).dropWhile isTrimmed =
      f.module.dropWhile isTrimmed ++ lit "+" ++ hexTo f.offset ++ tail := by
    intro tail
    have hplus : ∀ c ∈ (lit "+" ++ hexTo f.offset ++ tail).head?, isTrimmed c = false := by
      intro c hc
      rw [← Option.some.inj hc]
      decide
    simpa only [List.append_assoc] using (Json.takeWhile_append_stop hplus f.module).2
  have hback : ∀ front tail : Bytes, (front ++ hexTo f.offset ++ tail).rdropWhile isTrimmed =
      front ++ hexTo f.offset ++ tail.rdropWhile isTrimmed := by
    intro front tail
    have hlast : ∀ c ∈ (front ++ hexTo f.offset).reverse.head?, isTrimmed c = false := by
      intro c hc
      rw [List.head?_reverse, List.getLast?_append_of_ne_nil _ hhex] at hc
      exact numeral_kept c (mem_hexTo (List.mem_of_getLast? hc))
    rw [List.rdropWhile, List.reverse_append, (Json.takeWhile_append_stop hlast _).2,
      List.reverse_append, List.reverse_reverse, List.rdropWhile]
  rw [normalise, cutAt_frameLine h.no_space, trim, hfront, hback, detail]

/-- The parts of a line are known from it. -/
theorem parts_iff {module module' tail tail' : Bytes} {offset offset' : UInt64} (h : 32 ∉ module)
    (h' : 32 ∉ module') (htail : ∀ c ∈ tail.head?, c = 32) (htail' : ∀ c ∈ tail'.head?, c = 32) :
    module ++ lit "+" ++ hexTo offset ++ tail = module' ++ lit "+" ++ hexTo offset' ++ tail' ↔
      module = module' ∧ offset = offset' ∧ tail = tail' := by
  constructor
  · intro hsame
    have hcut : ∀ {module tail : Bytes} {offset : UInt64}, 32 ∉ module → (∀ c ∈ tail.head?, c = 32) →
        (module ++ lit "+" ++ hexTo offset ++ tail).takeWhile (· != 32) = module ++ lit "+" ++ hexTo offset := by
      intro module tail offset hmodule htail
      have hstop : ∀ c ∈ tail.head?, (c != 32) = false := fun c hc => by simp [htail c hc]
      rw [(Json.takeWhile_append_stop hstop _).1, List.takeWhile_eq_self_iff]
      intro c hc
      rw [bne_iff_ne]
      rintro rfl
      rw [List.mem_append, List.mem_append] at hc
      rcases hc with (hc | hc) | hc
      · exact hmodule hc
      · exact absurd hc (by decide)
      · exact (hexTo_plain offset).1 hc
    have hfront := congrArg (List.takeWhile (· != 32)) hsame
    rw [hcut h htail, hcut h' htail'] at hfront
    rw [hfront] at hsame
    have hplus : ∀ value : UInt64, ch '+' ∉ (hexTo value).reverse := fun value hc =>
      absurd (mem_hexTo (List.mem_reverse.1 hc)) (by decide)
    -- the last plus stands in front of the offset
    have hback := congrArg (fun text => Delimited.cut (ch '+') text.reverse) hfront
    have hreverse : ∀ (module : Bytes) (offset : UInt64), (module ++ lit "+" ++ hexTo offset).reverse =
        (hexTo offset).reverse ++ ch '+' :: module.reverse := by
      intro module offset
      simp [lit, ch]
    simp only [hreverse, Delimited.cut_append (hplus _)] at hback
    obtain ⟨hhex, hmodule⟩ := Prod.mk.inj (Option.some.inj hback)
    have hoffset := congrArg parseHex (List.reverse_inj.1 hhex)
    rw [parseHex_hexTo, parseHex_hexTo] at hoffset
    exact ⟨List.reverse_inj.1 hmodule, hoffset, List.append_cancel_left hsame⟩
  · rintro ⟨rfl, rfl, rfl⟩
    rfl

theorem detail_head (f : NativeCrashFrame) : ∀ c ∈ (detail f).head?, c = 32 := by
  intro c hc
  have hcut : cutAt (lit " (at ") (if f.buildId.isEmpty then [] else ch ' ' :: f.buildId) <+:
      if f.buildId.isEmpty then [] else ch ' ' :: f.buildId := by
    rcases cutAt_append (lit " (at ") (if f.buildId.isEmpty then [] else ch ' ' :: f.buildId)
      with ⟨after, hafter⟩ | hall
    · exact ⟨_, by rw [← List.append_assoc, ← hafter]⟩
    · rw [hall]
  obtain ⟨cs, hcs⟩ := List.head?_eq_some_iff.1 hc
  obtain ⟨rest, hrest⟩ := (List.rdropWhile_prefix _ _).trans hcut
  rw [← detail, hcs] at hrest
  split at hrest
  · cases hrest
  · exact (List.cons.inj hrest).1

/-! ## The lines -/

theorem mem_normalise {line : Bytes} {c : UInt8} (h : c ∈ normalise line) : c ∈ line := by
  obtain ⟨kept, hcut, ⟨front, back, hkept, -, -⟩, -, -⟩ := (normal_iff line (normalise line)).2 rfl
  have hmem : c ∈ kept := by
    rw [hkept]
    exact List.mem_append_left _ (List.mem_append_right _ h)
  cases hcut with
  | found htext _ =>
    rw [htext, List.append_assoc]
    exact List.mem_append_left _ hmem
  | absent _ => exact hmem

theorem intercalate_lines (line : Bytes) (lines : List Bytes) :
    [10].intercalate (line :: lines) = line ++ lines.flatMap (ch '\n' :: ·) := by
  induction lines generalizing line with
  | nil => rw [List.intercalate_singleton, List.flatMap_nil, List.append_nil]
  | cons next lines ih =>
    rw [List.intercalate_cons_cons, ih, List.append_assoc, List.flatMap_cons]
    rfl

/-- Lines behind newlines are known from their text. -/
theorem lines_injective {lines lines' : List Bytes} (h : ∀ line ∈ lines, 10 ∉ line)
    (h' : ∀ line ∈ lines', 10 ∉ line)
    (hsame : lines.flatMap (ch '\n' :: ·) = lines'.flatMap (ch '\n' :: ·)) : lines = lines' := by
  have hsplit : ∀ lines : List Bytes, (∀ line ∈ lines, 10 ∉ line) →
      (lines.flatMap (ch '\n' :: ·)).splitOn 10 = [] :: lines := by
    intro lines hlines
    have htext := intercalate_lines [] lines
    rw [List.nil_append] at htext
    rw [← htext, List.splitOn_intercalate 10 _ (List.cons_ne_nil _ _)]
    exact List.forall_mem_cons.2 ⟨List.not_mem_nil, hlines⟩
  have hboth := congrArg (List.splitOn 10) hsame
  rw [hsplit lines h, hsplit lines' h'] at hboth
  exact (List.cons.inj hboth).2

theorem frameLine_no_newline {f : NativeCrashFrame} (h : f.Spelled) : 10 ∉ frameLine f := by
  intro hnl
  rw [frameLine, List.mem_append, List.mem_append, List.mem_append] at hnl
  rcases hnl with ((hnl | hnl) | hnl) | hnl
  · exact h.module_line hnl
  · exact absurd hnl (by decide)
  · exact (hexTo_plain f.offset).2 hnl
  · split at hnl
    · cases hnl
    · rcases List.mem_cons.1 hnl with hnl | hnl
      · exact absurd hnl (by decide)
      · exact h.buildId_line hnl

theorem framesOf_framesText {frames : List NativeCrashFrame} (hframes : ∀ f ∈ frames, f.Spelled) :
    framesOf (framesText frames) = frames.map fun f => normalise (frameLine f) := by
  induction frames with
  | nil => exact framesOf_nil
  | cons f frames ih =>
    obtain ⟨hf, hmore⟩ := List.forall_mem_cons.1 hframes
    have htext : framesText (f :: frames) = frameLine f ++ ch '\n' :: framesText frames := by
      rw [framesText, List.flatMap_cons, List.append_assoc]
      rfl
    have hsome : ¬ (normalise (frameLine f)).isEmpty = true := by
      rw [normalise_frameLine hf, List.isEmpty_iff]
      simp [lit]
    rw [htext, framesOf_append, framesOf_line (frameLine_no_newline hf), if_neg hsome, ih hmore]
    rfl

/-- **The fingerprint** is that of the signal and of the first eight lines. -/
theorem signature_eq {dump : NativeCrashDump} (h : ∀ f ∈ dump.frames, f.Spelled) :
    (reportNativeCrash dump).signature = (sha256Hex (hashedText dump)).take 32 := by
  rw [reportNativeCrash, computeCrashSignature_frames, material, framesOf_framesText h, ← List.map_take, hashedText]

/-! ## Two crashes -/

/-- Frames that are hashed as one. -/
structure SameShown (f f' : NativeCrashFrame) : Prop where
  module : f.module.dropWhile isTrimmed = f'.module.dropWhile isTrimmed
  offset : f.offset = f'.offset
  detail : detail f = detail f'

theorem sameShown_iff {f f' : NativeCrashFrame} (h : f.Spelled) (h' : f'.Spelled) :
    normalise (frameLine f) = normalise (frameLine f') ↔ SameShown f f' := by
  have hspace : ∀ {f : NativeCrashFrame}, f.Spelled → 32 ∉ f.module.dropWhile isTrimmed :=
    fun hf hmem => hf.no_space ((List.dropWhile_sublist _).subset hmem)
  rw [normalise_frameLine h, normalise_frameLine h', parts_iff (hspace h) (hspace h') (detail_head f) (detail_head f')]
  constructor
  · rintro ⟨hmodule, hoffset, hdetail⟩
    exact ⟨hmodule, hoffset, hdetail⟩
  · rintro ⟨hmodule, hoffset, hdetail⟩
    exact ⟨hmodule, hoffset, hdetail⟩

variable {dump dump' : NativeCrashDump}

theorem hashedText_iff (h : ∀ f ∈ dump.frames, f.Spelled) (h' : ∀ f ∈ dump'.frames, f.Spelled)
    (hsignal : dump.signalNo = dump'.signalNo) :
    hashedText dump = hashedText dump' ↔ List.Forall₂ SameShown (dump.frames.take 8) (dump'.frames.take 8) := by
  have hlines : ∀ {dump : NativeCrashDump}, (∀ f ∈ dump.frames, f.Spelled) →
      ∀ line ∈ (dump.frames.take 8).map fun f => normalise (frameLine f), 10 ∉ line := by
    intro dump h line hline hnl
    obtain ⟨f, hf, rfl⟩ := List.mem_map.1 hline
    exact frameLine_no_newline (h f (List.mem_of_mem_take hf)) (mem_normalise hnl)
  have hmap : (dump.frames.take 8).map (fun f => normalise (frameLine f)) =
      (dump'.frames.take 8).map (fun f => normalise (frameLine f)) ↔
        List.Forall₂ SameShown (dump.frames.take 8) (dump'.frames.take 8) := by
    rw [← List.forall₂_eq_eq_eq, List.forall₂_map_left_iff, List.forall₂_map_right_iff, List.forall₂_iff_zip,
      List.forall₂_iff_zip]
    have hpair : ∀ {f f'}, (f, f') ∈ (dump.frames.take 8).zip (dump'.frames.take 8) →
        (normalise (frameLine f) = normalise (frameLine f') ↔ SameShown f f') := fun hmem =>
      sameShown_iff (h _ (List.mem_of_mem_take (List.of_mem_zip hmem).1))
        (h' _ (List.mem_of_mem_take (List.of_mem_zip hmem).2))
    exact and_congr_right fun _ => ⟨fun hall _ _ hmem => (hpair hmem).1 (hall hmem),
      fun hall _ _ hmem => (hpair hmem).2 (hall hmem)⟩
  rw [← hmap, hashedText, hashedText, hsignal]
  constructor
  · intro hsame
    exact lines_injective (hlines h) (hlines h') (List.append_cancel_left hsame)
  · intro hsame
    rw [hsame]

/-- When two crashes have one fingerprint. -/
theorem signature_iff (h : ∀ f ∈ dump.frames, f.Spelled) (h' : ∀ f ∈ dump'.frames, f.Spelled)
    (hsignal : dump.signalNo = dump'.signalNo) :
    (reportNativeCrash dump).signature = (reportNativeCrash dump').signature ↔
      List.Forall₂ SameShown (dump.frames.take 8) (dump'.frames.take 8) ∨
        Collide (hashedText dump) (hashedText dump') := by
  rw [signature_eq h, signature_eq h', ← hashedText_iff h h' hsignal]
  constructor
  · intro hsame
    by_cases htext : hashedText dump = hashedText dump'
    · exact .inl htext
    · exact .inr ⟨htext, hsame⟩
  · rintro (htext | ⟨-, hsame⟩)
    · rw [htext]
    · exact hsame

/-- The part of a path behind the last slash. -/
def fileName (path : Bytes) : Bytes := path.rtakeWhile (· != ch '/')

/-- What the handler writes for an address that is in no module. -/
def Unresolved (f : NativeCrashFrame) : Prop := f.module = lit "??" ∧ f.buildId = []

/-- Two frames in the same code, wherever it was installed or loaded. -/
inductive SameCode : NativeCrashFrame → NativeCrashFrame → Prop
  | unresolved {f f' : NativeCrashFrame} : Unresolved f → Unresolved f' → SameCode f f'
  | resolved {f f' : NativeCrashFrame} : ¬ Unresolved f → ¬ Unresolved f' →
      fileName f.module = fileName f'.module → f.offset = f'.offset → f.buildId = f'.buildId → SameCode f f'

/-- Two frames in the same code, installed or loaded at the same place. Blanks in front of a path make no difference. -/
inductive SamePlace : NativeCrashFrame → NativeCrashFrame → Prop
  | unresolved {f f' : NativeCrashFrame} : Unresolved f → Unresolved f' → f.offset = f'.offset → SamePlace f f'
  | resolved {f f' : NativeCrashFrame} : ¬ Unresolved f → ¬ Unresolved f' →
      f.module.dropWhile isTrimmed = f'.module.dropWhile isTrimmed → SamePlace f f'

theorem SameCode.shown_iff {f f' : NativeCrashFrame} (h : SameCode f f') : SameShown f f' ↔ SamePlace f f' := by
  cases h with
  | unresolved hf hf' =>
    constructor
    · exact fun hshown => .unresolved hf hf' hshown.offset
    · intro hplace
      cases hplace with
      | unresolved _ _ haddress =>
        exact ⟨by rw [hf.1, hf'.1], haddress, by rw [detail, detail, hf.2, hf'.2]⟩
      | resolved hnot _ _ => exact absurd hf hnot
  | resolved hf hf' _ hoffset hbuild =>
    constructor
    · exact fun hshown => .resolved hf hf' hshown.module
    · intro hplace
      cases hplace with
      | unresolved hun _ _ => exact absurd hun hf
      | resolved _ _ hmodule => exact ⟨hmodule, hoffset, by rw [detail, detail, hbuild]⟩

theorem unresolved_iff {frames frames' : List NativeCrashFrame} (h : ∀ f ∈ frames, Unresolved f)
    (h' : ∀ f ∈ frames', Unresolved f) :
    List.Forall₂ SameShown frames frames' ↔ frames.map (·.offset) = frames'.map (·.offset) := by
  rw [← List.forall₂_eq_eq_eq, List.forall₂_map_left_iff, List.forall₂_map_right_iff, List.forall₂_iff_zip,
    List.forall₂_iff_zip]
  refine and_congr_right fun _ => ⟨fun hall _ _ hmem => (hall hmem).offset, fun hall f f' hmem => ?_⟩
  obtain ⟨hmodule, hbuild⟩ := h f (List.of_mem_zip hmem).1
  obtain ⟨hmodule', hbuild'⟩ := h' f' (List.of_mem_zip hmem).2
  exact ⟨by rw [hmodule, hmodule'], hall hmem, by rw [detail, detail, hbuild, hbuild']⟩

/-- **The place is in the fingerprint.** Two crashes with one signal have the same fingerprint exactly
when the first eight frames are shown the same. In the same code they are when they are installed and
loaded at the same place; where no frame is resolved, when the first eight addresses are the same. -/
theorem reportNativeCrash_place {text text' : Bytes} (h : parseDump text = some dump)
    (h' : parseDump text' = some dump') (hsignal : dump.signalNo = dump'.signalNo) :
    ((reportNativeCrash dump).signature = (reportNativeCrash dump').signature ↔
      List.Forall₂ SameShown (dump.frames.take 8) (dump'.frames.take 8) ∨
        Collide (hashedText dump) (hashedText dump')) ∧
    (List.Forall₂ SameCode dump.frames dump'.frames →
      ((reportNativeCrash dump).signature = (reportNativeCrash dump').signature ↔
        List.Forall₂ SamePlace (dump.frames.take 8) (dump'.frames.take 8) ∨
          Collide (hashedText dump) (hashedText dump'))) ∧
    ((∀ f ∈ dump.frames, Unresolved f) → (∀ f ∈ dump'.frames, Unresolved f) →
      ((reportNativeCrash dump).signature = (reportNativeCrash dump').signature ↔
        (dump.frames.take 8).map (·.offset) = (dump'.frames.take 8).map (·.offset) ∨
          Collide (hashedText dump) (hashedText dump'))) := by
  have hboth := signature_iff (parseDump_spelled h) (parseDump_spelled h') hsignal
  refine ⟨hboth, fun hcode => ?_, fun hnone hnone' => ?_⟩
  · have hfirst := List.forall₂_take 8 hcode
    have hplace : List.Forall₂ SameShown (dump.frames.take 8) (dump'.frames.take 8) ↔
        List.Forall₂ SamePlace (dump.frames.take 8) (dump'.frames.take 8) :=
      ⟨List.Forall₂.mp (fun _ _ hf => hf.shown_iff.1) hfirst,
        List.Forall₂.mp (fun _ _ hf => hf.shown_iff.2) hfirst⟩
    rw [hboth, hplace]
  · rw [hboth, unresolved_iff (fun f hf => hnone f (List.mem_of_mem_take hf))
      fun f hf => hnone' f (List.mem_of_mem_take hf)]

/-- A game in one directory. -/
def firstInstall : ModuleEntry where
  base := 0x1000
  limit := 0x9000
  name := lit "/opt/a/libgame.so"
  buildId := [0xab, 0xcd]
  name_le := by decide
  name_no_nul := by decide
  buildId_le := by decide

/-- The same game in another one. -/
def secondInstall : ModuleEntry where
  base := 0x1000
  limit := 0x9000
  name := lit "/opt/b/libgame.so"
  buildId := [0xab, 0xcd]
  name_le := by decide
  name_no_nul := by decide
  buildId_le := by decide

/-- The dump of a segmentation fault in these frames. -/
def faultIn (frames : List CapturedFrame) : NativeCrashDump := ⟨11, 1, 0, frames.map CapturedFrame.expected⟩

theorem parseDump_faultIn {frames : List CapturedFrame} (h : ∀ f ∈ frames, f.plainlyNamed) :
    parseDump (writeDump 11 1 0 frames) = some (faultIn frames) := (parseDump_writeDump_iff 11 1 0 frames).2 h

theorem installs_plain (offset : UInt64) :
    (∀ f ∈ [CapturedFrame.resolved firstInstall offset], f.plainlyNamed) ∧
      ∀ f ∈ [CapturedFrame.resolved secondInstall offset], f.plainlyNamed := by
  have hfirst : 32 ∉ firstInstall.name ∧ 10 ∉ firstInstall.name := by decide
  have hsecond : 32 ∉ secondInstall.name ∧ 10 ∉ secondInstall.name := by decide
  exact ⟨List.forall_mem_singleton.2 hfirst, List.forall_mem_singleton.2 hsecond⟩

theorem installs_sameCode (offset : UInt64) : List.Forall₂ SameCode (faultIn [.resolved firstInstall offset]).frames
    (faultIn [.resolved secondInstall offset]).frames := by
  have hcode : SameCode ⟨firstInstall.name, offset, buildIdText firstInstall.buildId⟩
      ⟨secondInstall.name, offset, buildIdText secondInstall.buildId⟩ := by
    have hfirst : firstInstall.name ≠ lit "??" := by decide
    have hsecond : secondInstall.name ≠ lit "??" := by decide
    have hfile : fileName firstInstall.name = fileName secondInstall.name := by decide
    exact .resolved (fun h => hfirst h.1) (fun h => hsecond h.1) hfile (Eq.refl offset)
      (Eq.refl (buildIdText [0xab, 0xcd]))
  exact .cons hcode .nil

theorem reportNativeCrash_installs :
    (reportNativeCrash (faultIn [.resolved firstInstall 0x1234])).signature =
        (reportNativeCrash (faultIn [.resolved secondInstall 0x1234])).signature ↔
      List.Forall₂ SamePlace ((faultIn [.resolved firstInstall 0x1234]).frames.take 8)
          ((faultIn [.resolved secondInstall 0x1234]).frames.take 8) ∨
        Collide (hashedText (faultIn [.resolved firstInstall 0x1234]))
          (hashedText (faultIn [.resolved secondInstall 0x1234])) := by
  have hsignal : ∀ frames : List CapturedFrame, (faultIn frames).signalNo = 11 := fun _ => rfl
  obtain ⟨hfirst, hsecond⟩ := installs_plain 0x1234
  exact (reportNativeCrash_place (parseDump_faultIn hfirst) (parseDump_faultIn hsecond)
    ((hsignal _).trans (hsignal _).symm)).2.1 (installs_sameCode 0x1234)

set_option maxRecDepth 100000 in
/-- Another directory is another bug, and so is another load address. -/
theorem reportNativeCrash_moved :
    (¬ ∀ (signal code : Int32) (fault : UInt64) (frames frames' : List CapturedFrame),
      List.Forall₂ SameCode (frames.map CapturedFrame.expected) (frames'.map CapturedFrame.expected) →
        nativeSignature signal code fault frames = nativeSignature signal code fault frames') ∧
    nativeSignature 11 1 0 [.unresolved 0x5000] ≠ nativeSignature 11 1 0 [.unresolved 0x6000] := by
  have hsignature : ∀ frames : List CapturedFrame, (∀ f ∈ frames, f.plainlyNamed) →
      nativeSignature 11 1 0 frames = some ((sha256Hex (hashedText (faultIn frames))).take 32) := by
    intro frames h
    rw [nativeSignature, parseDump_faultIn h, Option.map_some, signature_eq (parseDump_spelled (parseDump_faultIn h))]
  constructor
  · intro hall
    have hsame := hall 11 1 0 [.resolved firstInstall 0x1234] [.resolved secondInstall 0x1234]
      (installs_sameCode 0x1234)
    rw [hsignature _ (installs_plain 0x1234).1, hsignature _ (installs_plain 0x1234).2] at hsame
    revert hsame
    decide +kernel
  · have hplain : ∀ address, ∀ f ∈ [CapturedFrame.unresolved address], f.plainlyNamed :=
      fun _ => List.forall_mem_singleton.2 trivial
    rw [hsignature _ (hplain _), hsignature _ (hplain _)]
    decide +kernel

end Tombstone.NativeReport
