import Mathlib.Data.List.DropRight
import Tombstone.LogDrops
import Tombstone.Run

/- What is left of the session log after a trim. The file is always a whole number of the
   newest lines, within the cap; but the trim looks for a line end in the newest 256 KiB, and
   where the only one there is the last byte, it leaves nothing at all. -/
namespace Tombstone.SessionLog

/-- A text of whole lines. -/
def LineEnded (text : Bytes) : Prop := text = [] ∨ text.getLast? = some 10

/-- The newest line of a text of whole lines, with its end. -/
def newestLine (text : Bytes) : Bytes := text.dropLast.rtakeWhile (· != 10) ++ [10]

/-! ## Lines -/

variable {a b text front tail x z : Bytes} {s : State}

theorem LineEnded.append (ha : LineEnded a) (hb : LineEnded b) : LineEnded (a ++ b) := by
  rcases hb with rfl | hb
  · rwa [List.append_nil]
  · right
    rw [List.getLast?_append, hb, Option.some_or]

theorem lineEnded_concat (a : Bytes) : LineEnded (a ++ [10]) := by
  right
  simp

/-- What a text of whole lines ends in. -/
theorem LineEnded.right (h : LineEnded (a ++ b)) : LineEnded b := by
  by_cases hb : b = []
  · exact .inl hb
  · right
    have hend := h.resolve_left (by simp [hb])
    rwa [List.getLast?_append_of_ne_nil a hb] at hend

theorem LineEnded.exists_concat (h : LineEnded text) (hne : text ≠ []) :
    ∃ body, text = body ++ [10] :=
  List.getLast?_eq_some_iff.mp (h.resolve_left hne)

theorem newestLine_eq (hfront : LineEnded front) (hz : 10 ∉ z) :
    newestLine (front ++ (z ++ [10])) = z ++ [10] := by
  have hplain : z.rtakeWhile (· != 10) = z := by
    apply List.rtakeWhile_eq_self_iff.mpr
    intro c hc
    have hne : c ≠ 10 := fun heq => hz (heq ▸ hc)
    simpa using hne
  have hbody : (front ++ z).rtakeWhile (· != 10) = z := by
    rcases hfront with rfl | hfront
    · exact hplain
    · obtain ⟨body, rfl⟩ := List.getLast?_eq_some_iff.mp hfront
      clear hfront
      induction z using List.reverseRecOn with
      | nil => simp
      | append_singleton z c ih =>
        have hc : (c != 10) = true := by
          have hne : c ≠ 10 := fun heq => hz (by simp [heq])
          simpa using hne
        simp only [List.rtakeWhile_concat, hc, if_true] at hplain
        simp only [← List.append_assoc, List.rtakeWhile_concat, hc, if_true]
        rw [ih (fun h => hz (by simp [h])) (List.append_cancel_right hplain)]
  unfold newestLine
  rw [← List.append_assoc, List.dropLast_concat, hbody]

theorem exists_newestLine (h : LineEnded text) (hne : text ≠ []) :
    ∃ front z, text = front ++ (z ++ [10]) ∧ LineEnded front ∧ 10 ∉ z := by
  obtain ⟨body, rfl⟩ := h.exists_concat hne
  clear h hne
  induction body using List.reverseRecOn with
  | nil => exact ⟨[], [], rfl, .inl rfl, by simp⟩
  | append_singleton body c ih =>
    by_cases hc : c = 10
    · exact ⟨body ++ [c], [], rfl, hc ▸ lineEnded_concat body, by simp⟩
    · obtain ⟨front, z, heq, hfront, hz⟩ := ih
      have hbody : body = front ++ z := by
        rw [← List.append_assoc] at heq
        exact List.append_cancel_right heq
      refine ⟨front, z ++ [c], by simp [hbody], hfront, ?_⟩
      simp [hz, Ne.symm hc]

/-! ## The trim -/

/-- Where the trim cuts: behind the first line end in the newest bytes. -/
theorem trim_split (h : LineEnded text) (hlong : trimmedLogBytes < text.length) :
    ∃ front x, text = front ++ (x ++ 10 :: trimFromFront text) ∧ 10 ∉ x ∧
      (x ++ 10 :: trimFromFront text).length = trimmedLogBytes := by
  have hpos : 0 < trimmedLogBytes := by decide
  have hne : text ≠ [] := fun heq => by simp [heq] at hlong
  obtain ⟨body, rfl⟩ := h.exists_concat hne
  rw [List.length_append, List.length_singleton] at hlong
  have hwindow : (body ++ [10]).drop ((body ++ [10]).length - trimmedLogBytes) =
      body.drop (body.length + 1 - trimmedLogBytes) ++ [10] := by
    rw [List.drop_append_of_le_length (by simp; omega)]
    simp
  have htrim : trimFromFront (body ++ [10]) =
      ((body.drop (body.length + 1 - trimmedLogBytes) ++ [10]).dropWhile (· != 10)).drop 1 := by
    unfold trimFromFront
    rw [hwindow, if_neg (by simp; omega)]
  have hcut : ∀ w : Bytes, ∃ x, w ++ [10] = x ++ 10 :: ((w ++ [10]).dropWhile (· != 10)).drop 1 ∧
      10 ∉ x := by
    intro w
    induction w with
    | nil => exact ⟨[], by simp, by simp⟩
    | cons c w ih =>
      by_cases hc : c = 10
      · exact ⟨[], by simp [hc], by simp⟩
      · obtain ⟨x, hx, hplain⟩ := ih
        refine ⟨c :: x, ?_, by simp [hplain, Ne.symm hc]⟩
        have hstay : (c != 10) = true := by simpa using hc
        rw [List.cons_append, List.dropWhile_cons, if_pos hstay, List.cons_append, ← hx]
  obtain ⟨x, hx, hplain⟩ := hcut (body.drop (body.length + 1 - trimmedLogBytes))
  refine ⟨body.take (body.length + 1 - trimmedLogBytes), x, ?_, hplain, ?_⟩
  · rw [htrim, ← hx, ← List.append_assoc, List.take_append_drop]
  · rw [htrim, ← hx, List.length_append, List.length_drop, List.length_singleton]
    omega

/-- What starts at a line and is shorter than the newest bytes survives the trim. -/
theorem tail_trim (hlong : trimmedLogBytes < (front ++ tail).length)
    (hfront : LineEnded front) (htail : LineEnded tail) (hshort : tail.length < trimmedLogBytes) :
    tail <:+ trimFromFront (front ++ tail) := by
  obtain ⟨front', x, heq, hx, hlen⟩ := trim_split (hfront.append htail) hlong
  generalize trimFromFront (front ++ tail) = rest at heq hlen ⊢
  rcases List.append_eq_append_iff.mp heq with ⟨y, -, hy⟩ | ⟨y, hy, hy'⟩
  · have hlength := congrArg List.length hy
    rw [List.length_append] at hlength
    omega
  · -- `y` is what stands between the newest bytes and the tail, and ends a line
    have hyne : y ≠ [] := by
      rintro rfl
      rw [List.nil_append] at hy'
      rw [hy'] at hlen
      omega
    obtain ⟨body, hbody⟩ : ∃ body, y = body ++ [10] := by
      have hend := hfront.resolve_left (by simp [hy, hyne])
      rw [hy, List.getLast?_append] at hend
      cases hlast : y.getLast? with
      | none => exact absurd (List.getLast?_eq_none_iff.mp hlast) hyne
      | some c =>
        rw [hlast, Option.some_or] at hend
        exact List.getLast?_eq_some_iff.mp (hlast.trans hend)
    rcases List.append_eq_append_iff.mp hy' with ⟨y', hsplit, hrest⟩ | ⟨y', hsplit, -⟩
    · cases y' with
      | nil =>
        rw [List.append_nil] at hsplit
        exact absurd (by simp [← hsplit, hbody] : (10 : UInt8) ∈ x) hx
      | cons c y' =>
        injection hrest with _ hrest
        exact ⟨y', hrest.symm⟩
    · exact absurd (by simp [hsplit, hbody] : (10 : UInt8) ∈ x) hx

/-- A trim leaves nothing exactly where the newest line alone fills the newest bytes. -/
theorem trim_eq_nil_iff (hfront : LineEnded front) (hz : 10 ∉ z)
    (hlong : trimmedLogBytes < (front ++ (z ++ [10])).length) :
    trimFromFront (front ++ (z ++ [10])) = [] ↔ trimmedLogBytes ≤ (z ++ [10]).length := by
  constructor
  · intro hnil
    by_contra hshort
    obtain ⟨y, hy⟩ := tail_trim hlong hfront (lineEnded_concat z) (Nat.not_le.mp hshort)
    rw [hnil] at hy
    simp at hy
  · intro hfills
    obtain ⟨front', x, heq, -, hlen⟩ := trim_split (hfront.append (lineEnded_concat z)) hlong
    generalize trimFromFront (front ++ (z ++ [10])) = rest at heq hlen ⊢
    obtain ⟨y, hy⟩ : ∃ y, z ++ [10] = y ++ (x ++ 10 :: rest) := by
      rcases List.append_eq_append_iff.mp heq with ⟨y, -, hy⟩ | ⟨y, -, hy⟩
      · exact ⟨y, hy⟩
      · have hlength := congrArg List.length hy
        rw [hlen, List.length_append] at hlength
        have hynil : y = [] := List.length_eq_zero_iff.mp (by omega)
        exact ⟨[], by rw [hy, hynil]; rfl⟩
    rcases List.eq_nil_or_concat' rest with rfl | ⟨rest, c, rfl⟩
    · rfl
    · have hz' : z ++ [10] = (y ++ x ++ 10 :: rest) ++ [c] := by simp [hy]
      obtain ⟨rfl, -⟩ := List.append_inj' hz' rfl
      exact absurd (by simp) hz

/-! ## The file of a run -/

/-- What is asked of the file: it is within the cap, a suffix of what was flushed that begins
at a line, it has every newest line that is shorter than the newest bytes, and it is not empty
once something was flushed. -/
structure Kept (s : State) : Prop where
  cap : s.file.length ≤ maxLogBytes
  suffix : ∃ front, textOf s.written = front ++ s.file ∧ LineEnded front
  newest : ∀ front tail, textOf s.written = front ++ tail → LineEnded front →
    tail.length < trimmedLogBytes → tail <:+ s.file
  something : s.written ≠ [] → s.file ≠ []

/-- What holds of every run. -/
structure Logged (s : State) : Prop where
  bytes : s.fileBytes = s.file.length
  cap : s.file.length ≤ maxLogBytes
  suffix : ∃ front, textOf s.written = front ++ s.file ∧ LineEnded front
  newest : ∀ front tail, textOf s.written = front ++ tail → LineEnded front →
    tail.length < trimmedLogBytes → tail <:+ s.file
  ended : LineEnded s.file
  pending : ∀ e ∈ s.pending, e.text.getLast? = some 10

/-- The flush takes the file over the cap, and its last line alone is longer than what a trim
leaves. -/
def Overlong (s : State) : Prop :=
  s.pending ≠ [] ∧ maxLogBytes < s.fileBytes + (textOf s.chunk).length ∧
    trimmedLogBytes ≤ (newestLine (textOf s.chunk)).length

theorem getLast_formatLine (tsIso level message : Bytes) :
    (formatLine tsIso level message).getLast? = some 10 := by
  unfold formatLine
  split
  · next hlast => rw [List.append_nil, List.getLast?_append, hlast, Option.some_or]
  · simp

theorem getLast_notice (dropped : Nat) : (Entry.notice dropped).text.getLast? = some 10 := by
  simp [Entry.text]

theorem lineEnded_textOf {entries : List Entry} (h : ∀ e ∈ entries, e.text.getLast? = some 10) :
    LineEnded (textOf entries) := by
  induction entries with
  | nil => exact .inl rfl
  | cons e entries ih =>
    have he : LineEnded e.text := .inr (h e List.mem_cons_self)
    exact he.append (ih fun a ha => h a (List.mem_cons_of_mem e ha))

theorem Logged.chunk (h : Logged s) (hpending : s.pending ≠ []) :
    LineEnded (textOf s.chunk) ∧ textOf s.chunk ≠ [] := by
  have hall : ∀ e ∈ s.chunk, e.text.getLast? = some 10 := by
    intro e he
    rcases List.mem_append.mp he with hold | hnotice
    · exact h.pending e hold
    · split at hnotice
      · exact List.mem_singleton.mp hnotice ▸ getLast_notice _
      · exact absurd hnotice List.not_mem_nil
  refine ⟨lineEnded_textOf hall, fun hempty => ?_⟩
  obtain ⟨e, rest, hsplit⟩ := List.exists_cons_of_ne_nil hpending
  have he : e ∈ s.chunk := List.mem_append_left _ (by simp [hsplit])
  have htext : e.text = [] := List.flatMap_eq_nil_iff.mp hempty e he
  simpa [htext] using hall e he

/-- The file a flush leaves. -/
theorem flushNow_file (h : Logged s) (hpending : s.pending ≠ []) :
    (flushNow s).file =
      (if maxLogBytes < s.fileBytes + (textOf s.chunk).length
        then trimFromFront (s.file ++ textOf s.chunk) else s.file ++ textOf s.chunk) ∧
    (flushNow s).fileBytes = (flushNow s).file.length := by
  have hempty : s.pending.isEmpty = false := by simpa using hpending
  have hbytes := h.bytes
  unfold flushNow takePending writeChunk
  simp only [hempty, Bool.false_eq_true, if_false]
  split
  · exact ⟨rfl, rfl⟩
  · refine ⟨rfl, ?_⟩
    dsimp only
    rw [List.length_append, hbytes]

theorem tail_append {c : Bytes} (hold : ∀ front tail, a = front ++ tail → LineEnded front →
      tail.length < trimmedLogBytes → tail <:+ b)
    (h : a ++ c = front ++ tail) (hfront : LineEnded front) (hshort : tail.length < trimmedLogBytes) :
    tail <:+ b ++ c := by
  rcases List.append_eq_append_iff.mp h with ⟨y, -, hc⟩ | ⟨y, ha, htail⟩
  · exact ⟨b ++ y, by rw [hc, List.append_assoc]⟩
  · rw [htail, List.length_append] at hshort
    obtain ⟨kept, hkept⟩ := hold front y ha hfront (by omega)
    exact ⟨kept, by rw [htail, ← List.append_assoc, hkept]⟩

theorem Logged.flushNow (h : Logged s) : Logged (flushNow s) := by
  by_cases hpending : s.pending = []
  · rw [flushNow_empty hpending]
    exact h
  · obtain ⟨hended, -⟩ := h.chunk hpending
    obtain ⟨hfile, hbytes⟩ := flushNow_file h hpending
    obtain ⟨hnone, -, -, hwritten⟩ := flushNow_ledger hpending
    obtain ⟨front, hsuffix, hfront⟩ := h.suffix
    have htext : textOf (SessionLog.flushNow s).written = front ++ (s.file ++ textOf s.chunk) := by
      rw [hwritten, textOf_append, hsuffix, List.append_assoc]
    have hnewest : ∀ front tail, textOf (SessionLog.flushNow s).written = front ++ tail →
        LineEnded front → tail.length < trimmedLogBytes → tail <:+ s.file ++ textOf s.chunk := by
      intro front tail heq
      rw [hwritten, textOf_append] at heq
      exact tail_append h.newest heq
    have hpending' : ∀ e ∈ (SessionLog.flushNow s).pending, e.text.getLast? = some 10 := by
      rw [hnone]
      exact fun e he => absurd he List.not_mem_nil
    have hall : LineEnded (s.file ++ textOf s.chunk) := h.ended.append hended
    split at hfile
    · next hlong =>
      have hhalf : trimmedLogBytes < (s.file ++ textOf s.chunk).length := by
        have hless : trimmedLogBytes ≤ maxLogBytes := by decide
        rw [List.length_append, ← h.bytes]
        omega
      obtain ⟨front', x, hcut, -, hlen⟩ := trim_split hall hhalf
      have hlength : (trimFromFront (s.file ++ textOf s.chunk)).length < trimmedLogBytes := by
        rw [List.length_append, List.length_cons] at hlen
        omega
      have hlineStart : LineEnded (front ++ front' ++ x ++ [10]) := lineEnded_concat _
      refine ⟨hbytes, ?_, ⟨front ++ front' ++ x ++ [10], ?_, hlineStart⟩, ?_, ?_, hpending'⟩
      · have hless : trimmedLogBytes ≤ maxLogBytes := by decide
        rw [hfile]
        omega
      · rw [htext, hfile]
        conv_lhs => rw [hcut]
        simp
      · intro front₂ tail heq hfront₂ hshort
        obtain ⟨y, hy⟩ := hnewest front₂ tail heq hfront₂ hshort
        have hy' : LineEnded y := by
          rw [htext, ← hy, ← List.append_assoc] at heq
          rw [← List.append_cancel_right heq] at hfront₂
          exact hfront₂.right
        have htail : LineEnded tail := by
          rw [← hy] at hall
          exact hall.right
        rw [hfile, ← hy]
        exact tail_trim (by rwa [hy]) hy' htail hshort
      · rw [hcut, ← List.singleton_append, ← List.append_assoc, ← List.append_assoc] at hall
        rw [hfile]
        exact hall.right
    · next hshort =>
      refine ⟨hbytes, ?_, ⟨front, hfile ▸ htext, hfront⟩, fun f t => ?_, hfile ▸ hall, hpending'⟩
      · rw [hfile, List.length_append, ← h.bytes]
        omega
      · rw [hfile]
        exact hnewest f t

theorem Logged.append (h : Logged s) (tsIso level message : Bytes) :
    Logged (append s tsIso level message) := by
  unfold SessionLog.append
  split
  · exact h
  · split
    · exact { h with }
    · refine { h with pending := fun e he => ?_ }
      rcases List.mem_append.mp he with hold | hnew
      · exact h.pending e hold
      · rw [List.mem_singleton.mp hnew]
        exact getLast_formatLine tsIso level message

theorem Logged.start : Logged {} where
  bytes := rfl
  cap := Nat.zero_le _
  suffix := ⟨[], rfl, .inl rfl⟩
  newest := by
    intro front tail heq _ _
    exact (List.append_eq_nil_iff.mp heq.symm).2 ▸ List.nil_suffix
  ended := .inl rfl
  pending := fun e he => absurd he List.not_mem_nil

/-- A flush leaves an empty file exactly where its last line is overlong. -/
theorem flushNow_nil_iff (h : Logged s) (hpending : s.pending ≠ []) :
    (flushNow s).file = [] ↔ Overlong s := by
  obtain ⟨hended, hne⟩ := h.chunk hpending
  obtain ⟨hfile, -⟩ := flushNow_file h hpending
  rw [hfile, Overlong]
  split
  · next hlong =>
    obtain ⟨front, z, htext, hfront, hz⟩ := exists_newestLine hended hne
    have hhalf : trimmedLogBytes < ((s.file ++ front) ++ (z ++ [10])).length := by
      have hless : trimmedLogBytes ≤ maxLogBytes := by decide
      rw [List.append_assoc, ← htext, List.length_append, ← h.bytes]
      omega
    rw [htext, ← List.append_assoc, trim_eq_nil_iff (h.ended.append hfront) hz hhalf,
      newestLine_eq hfront hz]
    rw [htext] at hlong
    exact ⟨fun hfills => ⟨hpending, hlong, hfills⟩, fun hover => hover.2.2⟩
  · next hshort =>
    constructor
    · intro hnil
      exact absurd (List.append_eq_nil_iff.mp hnil).2 hne
    · intro hover
      exact absurd hover.2.1 hshort

/-! ## Runs -/

def HostCall.step (s : State) (c : HostCall) : Option State := some (c.run s)

theorem Logged.step {c : HostCall} {s' : State} (h : Logged s) (hs : HostCall.step s c = some s') :
    Logged s' := by
  obtain rfl := Option.some.inj hs
  cases c with
  | append tsIso level message => exact h.append tsIso level message
  | flushNow => exact h.flushNow

theorem kept_step {c : HostCall} {s' : State} (h : Logged s) (hk : Kept s)
    (hs : HostCall.step s c = some s') : Kept s' ↔ (c = .flushNow → ¬ Overlong s) := by
  have h' := h.step hs
  have hkept : Kept s' ↔ (s'.written ≠ [] → s'.file ≠ []) :=
    ⟨fun hk' => hk'.something, fun hsome => ⟨h'.cap, h'.suffix, h'.newest, hsome⟩⟩
  rw [hkept]
  obtain rfl := Option.some.inj hs
  cases c with
  | append tsIso level message =>
    have hsame : (append s tsIso level message).written = s.written ∧
        (append s tsIso level message).file = s.file := by
      unfold append
      split
      · exact ⟨rfl, rfl⟩
      · split <;> exact ⟨rfl, rfl⟩
    rw [HostCall.run, hsame.1, hsame.2]
    exact ⟨fun _ => HostCall.noConfusion, fun _ => hk.something⟩
  | flushNow =>
    rw [HostCall.run]
    by_cases hpending : s.pending = []
    · rw [flushNow_empty hpending]
      exact ⟨fun _ _ hover => hover.1 hpending, fun _ => hk.something⟩
    · have hwritten : (flushNow s).written ≠ [] := by
        rw [(flushNow_ledger hpending).2.2.2, State.chunk]
        simp [hpending]
      rw [← flushNow_nil_iff h hpending]
      exact ⟨fun hsome _ => hsome hwritten, fun hnot _ => hnot rfl⟩

/-- **The newest lines are kept exactly as long as no overlong line is flushed over the
cap.** -/
theorem newest_kept_iff (calls : List HostCall) :
    Run.AllStates HostCall.step Kept {} calls ↔
      Run.AllSteps HostCall.step (fun s c _ => c = .flushNow → ¬ Overlong s) {} calls :=
  Run.allStates_iff_allSteps (I := Logged) (L := Kept) (fun _ _ _ => Logged.step)
    (fun _ _ _ => kept_step)
    calls {} Logged.start
    ⟨Logged.start.cap, Logged.start.suffix, Logged.start.newest, fun h => absurd rfl h⟩

/-- A line as long as the cap is lost when it is flushed, and the log with it. -/
theorem lost_of_long {message : Bytes} (hlen : message.length = maxLogBytes)
    (hplain : 10 ∉ message) :
    ¬ Run.AllStates HostCall.step Kept {} [.append [] [] message, .flushNow] := by
  intro hall
  have hempty : message.isEmpty = false := by
    cases message with
    | nil => simp [maxLogBytes] at hlen
    | cons c message => rfl
  have hlast : message.getLast? ≠ some 10 := fun h => hplain (List.mem_of_getLast? h)
  have hafter : append {} [] [] message =
      { pending := [.line 0 (formatLine [] [] message)]
        accepted := [.line 0 (formatLine [] [] message)] : State } := by
    simp [append, hempty, textOf, maxPendingBytes]
  have hkept : Kept (flushNow (append {} [] [] message)) :=
    ((hall.2 _ rfl).2 _ rfl)
  have hlogged : Logged (append {} [] [] message) := Logged.start.append [] [] message
  have hpending : (append {} [] [] message).pending ≠ [] := by simp [hafter]
  have hchunk : textOf (append {} [] [] message).chunk = [] ++ ((lit " [] " ++ message) ++ [10]) := by
    simp [hafter, State.chunk, textOf, Entry.text, formatLine, hlast, lit]
  have hover : Overlong (append {} [] [] message) := by
    have hz : 10 ∉ lit " [] " ++ message := by
      simp [hplain, lit]
    have hline := newestLine_eq (.inl rfl : LineEnded []) hz
    refine ⟨hpending, ?_, ?_⟩
    · rw [hchunk]
      simp [hlen]
      omega
    · have hless : trimmedLogBytes ≤ maxLogBytes := by decide
      rw [hchunk, hline]
      simp [hlen]
      omega
  have hnil := (flushNow_nil_iff hlogged hpending).mpr hover
  have hwritten : (flushNow (append {} [] [] message)).written ≠ [] := by
    rw [(flushNow_ledger hpending).2.2.2]
    simp [hafter, State.chunk]
  exact hkept.something hwritten hnil

/-- **Nothing is left of a log** that is one long line. -/
theorem longLine_lost :
    ¬ ∀ calls, Run.AllStates HostCall.step Kept {} calls := fun hall =>
  lost_of_long (List.length_replicate ..)
    (fun h => absurd (List.eq_of_mem_replicate h) (by decide : (10 : UInt8) ≠ ch 'x')) (hall _)

end Tombstone.SessionLog
