import Tombstone.SignatureStandard

/- What a crash fingerprint is made of.

   `compute_crash_signature` walks the trace by an index. It comes to the hint and the first eight
   frames (`frameLoop_eq`), where the frames are the lines that are not empty once their
   location and the blanks around them are off (`Normal`). So traces with the same frames have the
   same fingerprint. -/
namespace Tombstone.Signature

/-! ## A line -/

/-- A space, a tab or a carriage return. -/
def Blank (c : UInt8) : Prop := c = ch ' ' ∨ c = ch '\t' ∨ c = ch '\r'

/-- `out` is the text without the blanks around it. -/
structure Strips (text out : Bytes) : Prop where
  around : ∃ front back, text = front ++ out ++ back ∧ (∀ c ∈ front, Blank c) ∧ ∀ c ∈ back, Blank c
  first : ∀ c ∈ out.head?, ¬ Blank c
  last : ∀ c ∈ out.getLast?, ¬ Blank c

/-- `out` is the text up to the first place of the pattern, or all of it. -/
inductive CutsAt (pattern text : Bytes) : Bytes → Prop
  | found {before after : Bytes} : text = before ++ pattern ++ after →
      (∀ before' after', text = before' ++ pattern ++ after' → before.length ≤ before'.length) →
      CutsAt pattern text before
  | absent : (∀ before after, text ≠ before ++ pattern ++ after) → CutsAt pattern text text

/-- `out` is the line as it is hashed. -/
def Normal (line out : Bytes) : Prop := ∃ kept, CutsAt (lit " (at ") line kept ∧ Strips kept out

def normalise (line : Bytes) : Bytes := trim (cutAt (lit " (at ") line)

theorem isTrimmed_iff (c : UInt8) : isTrimmed c = true ↔ Blank c := by
  simp [isTrimmed, Blank, or_assoc]

theorem dropWhile_front {front rest : Bytes} (h : ∀ c ∈ front, Blank c) (hrest : ∀ c ∈ rest.head?, ¬ Blank c) :
    (front ++ rest).dropWhile isTrimmed = rest := by
  induction front with
  | nil =>
    cases rest with
    | nil => rfl
    | cons c cs =>
      have hc : ¬ isTrimmed c = true := fun hc => hrest c rfl ((isTrimmed_iff c).1 hc)
      rw [List.nil_append, List.dropWhile_cons_of_neg hc]
  | cons c front ih =>
    obtain ⟨hc, hmore⟩ := List.forall_mem_cons.1 h
    rw [List.cons_append, List.dropWhile_cons_of_pos ((isTrimmed_iff c).2 hc), ih hmore]

/-- **`trim`** takes the blanks off, and nothing else. -/
theorem strips_iff (text out : Bytes) : Strips text out ↔ out = trim text := by
  constructor
  · rintro ⟨⟨front, back, rfl, hfront, hback⟩, hfirst, hlast⟩
    by_cases hempty : out = []
    · have hall : ∀ c ∈ front ++ back, Blank c := List.forall_mem_append.2 ⟨hfront, hback⟩
      have hdrop := @dropWhile_front (front ++ back) [] hall (by simp)
      rw [List.append_nil] at hdrop
      rw [hempty, List.append_nil, trim, hdrop, List.rdropWhile_nil]
    · obtain ⟨c, cs, hout⟩ := List.exists_cons_of_ne_nil hempty
      have hdrop : (front ++ (out ++ back)).dropWhile isTrimmed = out ++ back := by
        apply dropWhile_front hfront
        rw [hout] at hfirst ⊢
        exact hfirst
      have hreverse := @dropWhile_front back.reverse out.reverse
        (fun c hc => hback c (List.mem_reverse.1 hc)) (by rwa [List.head?_reverse])
      rw [List.append_assoc, trim, hdrop, List.rdropWhile, List.reverse_append, hreverse, List.reverse_reverse]
  · rintro rfl
    obtain ⟨front, hfront⟩ : ∃ front, text = front ++ text.dropWhile isTrimmed ∧ ∀ c ∈ front, Blank c :=
      ⟨text.takeWhile isTrimmed, List.takeWhile_append_dropWhile.symm, fun c hc =>
        (isTrimmed_iff c).1 (List.mem_takeWhile_imp hc)⟩
    refine ⟨⟨front, (text.dropWhile isTrimmed).rtakeWhile isTrimmed, ?_, hfront.2, fun c hc => ?_⟩,
      fun c hc => ?_, fun c hc => ?_⟩
    · rw [trim, List.append_assoc, List.rdropWhile_append_rtakeWhile]
      exact hfront.1
    · exact (isTrimmed_iff c).1 (List.mem_rtakeWhile_imp hc)
    · -- the first byte of what is left is the first behind the blanks
      obtain ⟨rest, hrest⟩ := List.rdropWhile_prefix isTrimmed (text.dropWhile isTrimmed)
      obtain ⟨cs, hcs⟩ := List.head?_eq_some_iff.1 hc
      have hhead : (text.dropWhile isTrimmed).head? = some c := by
        rw [← hrest]
        show (trim text ++ rest).head? = some c
        rw [hcs]
        rfl
      have hnot := List.head?_dropWhile_not isTrimmed text
      rw [hhead] at hnot
      exact fun hblank => absurd ((isTrimmed_iff c).2 hblank) (by simpa using hnot)
    · obtain ⟨cs, hcs⟩ := List.getLast?_eq_some_iff.1 hc
      have hne : trim text ≠ [] := by
        rw [hcs]
        exact List.append_ne_nil_of_right_ne_nil _ (List.cons_ne_nil _ _)
      have hlast : (trim text).getLast hne = c := by
        simp only [hcs, List.getLast_append_singleton]
      have hnot := List.rdropWhile_last_not isTrimmed _ hne
      rw [← hlast, ← isTrimmed_iff]
      exact hnot

/-- What is kept stands in front of the pattern, or is all there is. -/
theorem cutAt_append (pattern text : Bytes) :
    (∃ after, text = cutAt pattern text ++ pattern ++ after) ∨ cutAt pattern text = text := by
  induction text with
  | nil => exact .inr rfl
  | cons c cs ih =>
    rw [cutAt]
    split
    · rename_i hprefix
      obtain ⟨after, hafter⟩ := List.isPrefixOf_iff_prefix.1 hprefix
      exact .inl ⟨after, hafter.symm⟩
    · rcases ih with ⟨after, hafter⟩ | hall
      · refine .inl ⟨after, ?_⟩
        rw [List.cons_append, List.cons_append, ← hafter]
      · exact .inr (by rw [hall])

/-- Wherever the pattern stands, no more is kept. -/
theorem cutAt_length {pattern text before after : Bytes} (h : text = before ++ pattern ++ after) :
    (cutAt pattern text).length ≤ before.length := by
  induction before generalizing text with
  | nil =>
    cases text with
    | nil => exact Nat.le_refl _
    | cons c cs =>
      have hprefix : pattern.isPrefixOf (c :: cs) = true := by
        rw [h]
        exact List.isPrefixOf_iff_prefix.2 (List.prefix_append _ _)
      rw [cutAt, if_pos hprefix]
  | cons b before ih =>
    rw [List.cons_append, List.cons_append] at h
    rw [h, cutAt]
    split
    · exact Nat.zero_le _
    · exact Nat.succ_le_succ (ih rfl)

theorem cutsAt_iff {pattern text : Bytes} (hpattern : pattern ≠ []) (out : Bytes) :
    CutsAt pattern text out ↔ out = cutAt pattern text := by
  have hfirst : ∀ before' after', text = before' ++ pattern ++ after' →
      (cutAt pattern text).length ≤ before'.length := fun _ _ => cutAt_length
  have hpositive := List.length_pos_of_ne_nil hpattern
  have hnone : cutAt pattern text = text → ∀ before after, text ≠ before ++ pattern ++ after := by
    intro hall before after h
    have hlength := hfirst before after h
    rw [hall, h, List.length_append, List.length_append] at hlength
    omega
  constructor
  · intro h
    cases h with
    | @found before after hout hleast =>
      rcases cutAt_append pattern text with ⟨after', hafter⟩ | hall
      · have hlength := Nat.le_antisymm (hleast _ _ hafter) (hfirst _ _ hout)
        have hsame := hout.symm.trans hafter
        rw [List.append_assoc, List.append_assoc] at hsame
        exact (List.append_inj hsame hlength).1
      · exact absurd hout (hnone hall _ _)
    | absent habsent =>
      rcases cutAt_append pattern text with ⟨after, hafter⟩ | hall
      · exact absurd hafter (habsent _ _)
      · exact hall.symm
  · rintro rfl
    rcases cutAt_append pattern text with ⟨after, hafter⟩ | hall
    · exact .found hafter hfirst
    · have habsent := CutsAt.absent (hnone hall)
      rwa [hall]

theorem normal_iff (line out : Bytes) : Normal line out ↔ out = normalise line := by
  have hpattern : lit " (at " ≠ [] := by decide
  constructor
  · rintro ⟨kept, hcut, hstrip⟩
    rw [cutsAt_iff hpattern] at hcut
    rw [strips_iff] at hstrip
    rw [hstrip, hcut, normalise]
  · rintro rfl
    exact ⟨_, (cutsAt_iff hpattern _).2 rfl, (strips_iff _ _).2 rfl⟩

/-! ## The frames -/

/-- The lines that are not empty once they are normalised. -/
def framesOf (text : Bytes) : List Bytes :=
  ((text.splitOn (ch '\n')).map normalise).filter fun frame => !frame.isEmpty

/-- What is hashed: the hint, and the first frames, each behind a newline. -/
def material (hint : Bytes) (frames : List Bytes) : Bytes := hint ++ (frames.take 8).flatMap (ch '\n' :: ·)

theorem framesOf_line {line : Bytes} (h : ch '\n' ∉ line) :
    framesOf line = if (normalise line).isEmpty then [] else [normalise line] := by
  rw [framesOf, List.splitOn_eq_singleton h, List.map_singleton, List.filter_singleton]
  cases (normalise line).isEmpty <;> rfl

theorem framesOf_append (line more : Bytes) :
    framesOf (line ++ ch '\n' :: more) = framesOf line ++ framesOf more := by
  rw [framesOf, List.splitOn_append_cons_self, List.map_append, List.filter_append]
  rfl

theorem framesOf_nil : framesOf [] = [] := by decide

/-- A line of the trace, where the walk is. -/
theorem line_cases (text : Bytes) : ∃ line rest, ch '\n' ∉ line ∧
    text.takeWhile (· != ch '\n') = line ∧ text = line ++ rest ∧
      (rest = [] ∨ ∃ more, rest = ch '\n' :: more) := by
  refine ⟨text.takeWhile (· != ch '\n'), text.dropWhile (· != ch '\n'), fun hmem => ?_, rfl,
    List.takeWhile_append_dropWhile.symm, ?_⟩
  · have hnot := List.mem_takeWhile_imp hmem
    simp at hnot
  · have hstop := List.head?_dropWhile_not (· != ch '\n') text
    cases hrest : text.dropWhile (· != ch '\n') with
    | nil => exact .inl rfl
    | cons c more =>
      rw [hrest] at hstop
      have hc : c = ch '\n' := by simpa using hstop
      exact .inr ⟨more, by rw [hc]⟩

/-- One turn of the walk: a line, and the trace behind it. -/
theorem framesOf_step (stackTrace : Bytes) (lineStart : Nat) :
    framesOf (stackTrace.drop lineStart) =
      framesOf ((stackTrace.drop lineStart).take (lineEnd stackTrace lineStart - lineStart)) ++
        framesOf (stackTrace.drop (lineEnd stackTrace lineStart + 1)) ∧
    ch '\n' ∉ (stackTrace.drop lineStart).take (lineEnd stackTrace lineStart - lineStart) := by
  obtain ⟨line, rest, hline, htake, htext, hrest⟩ := line_cases (stackTrace.drop lineStart)
  have hend : lineEnd stackTrace lineStart = lineStart + line.length := by rw [lineEnd, htake]
  have hfront : (stackTrace.drop lineStart).take (lineEnd stackTrace lineStart - lineStart) = line := by
    rw [hend, Nat.add_sub_cancel_left, htext, List.take_left]
  have hback : stackTrace.drop (lineEnd stackTrace lineStart + 1) = rest.drop 1 := by
    rw [hend, Nat.add_assoc, ← List.drop_drop, htext, List.drop_length_add_append]
  rw [hfront, hback]
  refine ⟨?_, hline⟩
  rcases hrest with rfl | ⟨more, rfl⟩
  · rw [htext, List.append_nil, List.drop_nil, framesOf_nil, List.append_nil]
  · rw [htext, framesOf_append]
    rfl

/-- **The walk** adds the frames from here on, as many as are missing. -/
theorem frameLoop_eq (stackTrace : Bytes) (frames lineStart : Nat) (hashed : Bytes) :
    frameLoop stackTrace frames lineStart hashed =
      hashed ++ ((framesOf (stackTrace.drop lineStart)).take (8 - frames)).flatMap (ch '\n' :: ·) := by
  fun_induction frameLoop stackTrace frames lineStart hashed with
  | case1 frames lineStart hashed hmore line frame hempty ih =>
    obtain ⟨hstep, hline⟩ := framesOf_step stackTrace lineStart
    rw [ih, hstep, framesOf_line hline]
    have hnone : (normalise line).isEmpty = true := hempty
    rw [if_pos hnone, List.nil_append]
  | case2 frames lineStart hashed hmore line frame hsome ih =>
    obtain ⟨hstep, hline⟩ := framesOf_step stackTrace lineStart
    obtain ⟨missing, hmissing⟩ : ∃ missing, 8 - frames = missing + 1 := ⟨7 - frames, by omega⟩
    have hcount : 8 - (frames + 1) = missing := by omega
    have hframe : ¬ (normalise line).isEmpty = true := hsome
    rw [ih, hstep, framesOf_line hline, if_neg hframe, hmissing, hcount, List.singleton_append,
      List.take_succ_cons, List.flatMap_cons, List.append_assoc]
    rfl
  | case3 frames lineStart hashed hdone =>
    rcases Nat.lt_or_ge frames 8 with hroom | hfull
    · have hend : stackTrace.drop lineStart = [] := by
        rw [List.drop_eq_nil_iff]
        omega
      rw [hend, framesOf_nil, List.take_nil, List.flatMap_nil, List.append_nil]
    · rw [Nat.sub_eq_zero_of_le hfull, List.take_zero, List.flatMap_nil, List.append_nil]

/-- These are the frames of the trace: what its lines are normalised to, without those that come out
empty. -/
def Frames (trace : Bytes) (frames : List Bytes) : Prop :=
  ∃ lines, List.Forall₂ Normal (trace.splitOn (ch '\n')) lines ∧ frames = lines.filter fun line => !line.isEmpty

theorem forall_normal_iff (texts lines : List Bytes) :
    List.Forall₂ Normal texts lines ↔ lines = texts.map normalise := by
  induction texts generalizing lines with
  | nil => simp
  | cons text texts ih =>
    rw [List.forall₂_cons_left_iff, List.map_cons]
    simp only [normal_iff, ih]
    constructor
    · rintro ⟨_, _, rfl, rfl, rfl⟩
      rfl
    · intro h
      exact ⟨_, _, rfl, rfl, h⟩

theorem frames_iff (trace : Bytes) (frames : List Bytes) : Frames trace frames ↔ frames = framesOf trace := by
  simp only [Frames, forall_normal_iff, framesOf]
  constructor
  · rintro ⟨_, rfl, rfl⟩
    rfl
  · rintro rfl
    exact ⟨_, rfl, rfl⟩

theorem computeCrashSignature_frames (hint trace : Bytes) :
    computeCrashSignature hint trace = (sha256Hex (material hint (framesOf trace))).take 32 := by
  rw [computeCrashSignature, frameLoop_eq]
  rfl

/-- **The fingerprint is that of the frames.** It starts the SHA-256 of the hint and the first eight of
them, so that traces with the same first frames have the same one. -/
theorem crashSignature_frames :
    (∀ hint trace frames, Frames trace frames →
      computeCrashSignature hint trace = (sha256Hex (material hint frames)).take 32 ∧
        ((material hint frames).length < 2 ^ 61 →
          ∃ digest, Fips180.sha256Bytes (material hint frames) = some digest ∧
            sha256Hex (material hint frames) = hexLower digest)) ∧
    (∀ trace, ∃ frames, Frames trace frames) ∧
    ∀ hint trace trace' frames frames', Frames trace frames → Frames trace' frames' →
      frames.take 8 = frames'.take 8 → computeCrashSignature hint trace = computeCrashSignature hint trace' := by
  simp only [frames_iff]
  refine ⟨?_, fun trace => ⟨_, rfl⟩, ?_⟩
  · rintro hint trace frames rfl
    refine ⟨computeCrashSignature_frames hint trace, fun hshort => ?_⟩
    exact ⟨_, sha256Raw_standard hshort, toHex_eq _⟩
  · rintro hint trace trace' frames frames' rfl rfl hsame
    rw [computeCrashSignature_frames, computeCrashSignature_frames, material, hsame, material]

end Tombstone.Signature
