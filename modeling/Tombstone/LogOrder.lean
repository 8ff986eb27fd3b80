import Mathlib.Data.List.Pairwise
import Mathlib.Data.Multiset.OrderedMonoid
import Mathlib.Data.Multiset.Range
import Mathlib.Tactic.Abel
import Tombstone.SessionLog

/- The order of the session log, and what a returned flush has written.

   Every chunk that was taken is written or in the hands of one thread (`Held`), and the
   chunks together with what is pending are the accepted lines in order (`Shared`). So the
   file is in order exactly where chunks are written in the order they were taken, and a flush
   that returns has written everything exactly where no other thread holds an earlier line
   (`log_in_turn_iff`), for any number of threads. -/
namespace Tombstone.SessionLog

/-! ## Blocks put one after another -/

section Blocks

variable {α : Type} {block : List α} {blocks : List (List α)} {rest : List α} {ids : List Nat}

/-- What the blocks with these numbers make, one after another. -/
def blocksAt (blocks : List (List α)) (ids : List Nat) : List α :=
  ids.flatMap fun i => blocks.getD i []

theorem mem_flatten_of_getD {i : Nat} {x : α} (h : x ∈ blocks.getD i []) : x ∈ blocks.flatten := by
  rw [List.getD_eq_getElem?_getD] at h
  cases hi : blocks[i]? with
  | none =>
    rw [hi] at h
    cases h
  | some b =>
    rw [hi] at h
    exact List.mem_flatten.2 ⟨b, List.mem_of_getElem? hi, h⟩

/-- Without the first block, the others are numbered from 0 again. -/
theorem blocksAt_cons (h : ∀ i ∈ ids, i ≠ 0) :
    blocksAt (block :: blocks) ids = blocksAt blocks (ids.map Nat.pred) := by
  unfold blocksAt
  rw [List.flatMap_map]
  apply List.flatMap_congr
  intro i hi
  obtain ⟨j, rfl⟩ := Nat.exists_eq_succ_of_ne_zero (h i hi)
  rfl

theorem blocksAt_append (h : ∀ i ∈ ids, i < blocks.length) (more : List (List α)) :
    blocksAt (blocks ++ more) ids = blocksAt blocks ids := by
  unfold blocksAt
  apply List.flatMap_congr
  intro i hi
  rw [List.getD_eq_getElem?_getD, List.getD_eq_getElem?_getD, List.getElem?_append_left (h i hi)]

/-- **Blocks that start a list of distinct elements** are its first blocks, in order. -/
theorem range_of_blocksAt (hne : ∀ b ∈ blocks, b ≠ []) (hnodup : (blocks.flatten ++ rest).Nodup)
    (hids : ∀ i ∈ ids, i < blocks.length) (h : blocksAt blocks ids <+: blocks.flatten ++ rest) :
    ids = List.range ids.length := by
  induction blocks generalizing ids with
  | nil =>
    cases ids with
    | nil => rfl
    | cons i is => exact absurd (hids i List.mem_cons_self) (Nat.not_lt_zero _)
  | cons block blocks ih =>
    cases ids with
    | nil => rfl
    | cons i is =>
      rw [List.flatten_cons, List.append_assoc] at hnodup h
      have hdisjoint : ∀ x ∈ block, x ∉ blocks.flatten ++ rest :=
        fun x hx hx' => (List.nodup_append.1 hnodup).2.2 x hx x hx' rfl
      have hcons : ∀ k, blocksAt (block :: blocks) (k :: is)
          = (block :: blocks).getD k [] ++ blocksAt (block :: blocks) is := fun _ => rfl
      obtain ⟨x, xs, hx⟩ := List.exists_cons_of_ne_nil (hne block List.mem_cons_self)
      -- another block would start with an element that the list has later, too
      have hi : i = 0 := by
        by_contra hother
        obtain ⟨j, rfl⟩ := Nat.exists_eq_succ_of_ne_zero hother
        have hj : j < blocks.length := Nat.lt_of_succ_lt_succ (hids (j + 1) List.mem_cons_self)
        have hget : (block :: blocks).getD (j + 1) [] = blocks[j] := by
          simp [List.getD_eq_getElem?_getD, hj]
        obtain ⟨y, ys, hy⟩ := List.exists_cons_of_ne_nil
          (hne blocks[j] (List.mem_cons_of_mem _ (List.getElem_mem hj)))
        rw [hcons, hget, hy, hx, List.cons_append, List.cons_append] at h
        have hxy : y = x := (List.cons_prefix_cons.1 h).1
        have hmem : y ∈ blocks.flatten := List.mem_flatten.2
          ⟨blocks[j], List.getElem_mem hj, hy ▸ List.mem_cons_self⟩
        exact hdisjoint x (hx ▸ List.mem_cons_self) (List.mem_append_left _ (hxy ▸ hmem))
      subst hi
      -- behind the first block, the same holds of the others
      have htail : blocksAt (block :: blocks) is <+: blocks.flatten ++ rest := by
        rw [hcons] at h
        exact (List.prefix_append_right_inj block).1 h
      have hpos : ∀ j ∈ is, j ≠ 0 := by
        rintro j hj rfl
        have hfirst : x ∈ block := hx ▸ List.mem_cons_self
        have hmem : x ∈ blocksAt (block :: blocks) is := List.mem_flatMap.2 ⟨0, hj, hfirst⟩
        exact hdisjoint x hfirst (htail.subset hmem)
      rw [blocksAt_cons hpos] at htail
      have hlt : ∀ j ∈ is.map Nat.pred, j < blocks.length := by
        intro j hj
        obtain ⟨k, hk, rfl⟩ := List.mem_map.1 hj
        have := hids k (List.mem_cons_of_mem _ hk)
        have := hpos k hk
        rw [List.length_cons] at *
        simp only [Nat.pred_eq_sub_one]
        omega
      have hrange := ih (fun b hb => hne b (List.mem_cons_of_mem _ hb))
        (List.nodup_append.1 hnodup).2.1 hlt htail
      have his : is = (is.map Nat.pred).map Nat.succ := by
        rw [List.map_map]
        conv_lhs => rw [← List.map_id is]
        apply List.map_congr_left
        intro j hj
        exact (Nat.succ_pred (hpos j hj)).symm
      have hlength : is.length = (is.map Nat.pred).length := by rw [List.length_map]
      rw [List.length_cons, List.range_succ_eq_map, hlength, ← hrange, ← his]

theorem blocksAt_range (blocks : List (List α)) (k : Nat) :
    blocksAt blocks (List.range k) = (blocks.take k).flatten := by
  induction k with
  | zero => rfl
  | succ k ih =>
    have hlast : blocks.getD k [] = (blocks[k]?.toList).flatten := by
      rw [List.getD_eq_getElem?_getD]
      cases blocks[k]? with
      | none => rfl
      | some b => exact List.flatten_singleton.symm
    calc blocksAt blocks (List.range (k + 1))
        = blocksAt blocks (List.range k) ++ blocks.getD k [] := by
          rw [blocksAt, List.range_succ, List.flatMap_append, List.flatMap_singleton, blocksAt]
      _ = (blocks.take k).flatten ++ (blocks[k]?.toList).flatten := by rw [ih, hlast]
      _ = (blocks.take (k + 1)).flatten := by rw [← List.flatten_append, ← List.take_add_one]

theorem blocksAt_range_initial (blocks : List (List α)) (k : Nat) :
    blocksAt blocks (List.range k) <+: blocks.flatten := by
  refine ⟨(blocks.drop k).flatten, ?_⟩
  rw [blocksAt_range, ← List.flatten_append, List.take_append_drop]

theorem eq_of_mem_blocks (hnodup : blocks.flatten.Nodup) {i j : Nat} {x : α}
    (hi : x ∈ blocks.getD i []) (hj : x ∈ blocks.getD j []) : i = j := by
  have hget : ∀ k, x ∈ blocks.getD k [] → ∃ hk : k < blocks.length, x ∈ blocks[k] := by
    intro k hx
    rw [List.getD_eq_getElem?_getD] at hx
    rcases Nat.lt_or_ge k blocks.length with hk | hk
    · rw [List.getElem?_eq_getElem hk] at hx
      exact ⟨hk, hx⟩
    · rw [List.getElem?_eq_none hk] at hx
      cases hx
  obtain ⟨hik, hxi⟩ := hget i hi
  obtain ⟨hjk, hxj⟩ := hget j hj
  have hdisjoint := List.pairwise_iff_getElem.1 (List.nodup_flatten.1 hnodup).2
  rcases Nat.lt_trichotomy i j with hlt | heq | hgt
  · exact absurd hxj (hdisjoint i j hik hjk hlt hxi)
  · exact heq
  · exact absurd hxi (hdisjoint j i hjk hik hgt hxj)

end Blocks

/-! ## Chunks and their holders -/

@[simp] theorem lines_append (es es' : List Entry) : lines (es ++ es') = lines es ++ lines es' :=
  List.filter_append ..

/-- The lines of the chunks that were taken, in the order of the chunks. -/
def State.taken (s : State) : List Entry := (s.chunks.map lines).flatten

/-- **The shared state**: what was accepted is what the chunks took and what is pending, and the
file is the chunks that were written. -/
structure Shared (s : State) : Prop where
  accepted : s.accepted = s.taken ++ s.pending
  numbered : ∀ i e, s.accepted[i]? = some e → ∃ text, e = Entry.line i text
  pending : ∀ e ∈ s.pending, e.isLine = true
  chunks : ∀ chunk ∈ s.chunks, lines chunk ≠ []
  known : ∀ id ∈ s.writtenIds, id < s.chunks.length
  written : s.written = blocksAt s.chunks s.writtenIds

/-- What a thread still has to do fits what was taken and accepted. -/
def Fits (s : State) : Act → Prop
  | .writeChunk id chunk => s.chunks[id]? = some chunk
  | .takePending before _ => before ≤ s.accepted.length
  | .finish before => before ≤ s.taken.length
  | _ => True

/-- The chunk that an action is to write. -/
def holds : Act → Multiset Nat
  | .writeChunk id _ => {id}
  | _ => 0

/-- **Every chunk is written once**, or in the hands of one thread. -/
def Held (c : Config) : Prop :=
  Interleave.total (fun s => (↑s.writtenIds : Multiset Nat)) holds c = Multiset.range c.shared.chunks.length

theorem Shared.nodup {s : State} (hs : Shared s) : s.accepted.Nodup := by
  rw [List.nodup_iff_getElem?_ne_getElem?]
  intro i j hij hj heq
  obtain ⟨text, hi⟩ := hs.numbered i _ (heq.trans (List.getElem?_eq_getElem hj))
  obtain ⟨text', hj'⟩ := hs.numbered j _ (List.getElem?_eq_getElem hj)
  have hsame : Entry.line i text = .line j text' := hi.symm.trans hj'
  injection hsame with hserial
  omega

theorem lines_of_isLine {es : List Entry} (h : ∀ e ∈ es, e.isLine = true) : lines es = es :=
  List.filter_eq_self.2 h

theorem Fits.mono {s s' : State} {a : Act} (hchunks : s.chunks <+: s'.chunks)
    (haccepted : s.accepted <+: s'.accepted) (h : Fits s a) : Fits s' a := by
  cases a with
  | writeChunk id chunk =>
    obtain ⟨more, hmore⟩ := hchunks
    rw [Fits] at h ⊢
    rw [← hmore, List.getElem?_append_left (List.getElem?_eq_some_iff.1 h).1]
    exact h
  | takePending before read => exact Nat.le_trans h haccepted.length_le
  | finish before =>
    obtain ⟨more, hmore⟩ := hchunks
    have htaken : s'.taken = s.taken ++ (more.map lines).flatten := by
      rw [State.taken, ← hmore, List.map_append, List.flatten_append]
      rfl
    rw [Fits] at h ⊢
    rw [htaken, List.length_append]
    exact Nat.le_add_right_of_le h
  | append _ _ _ | flushNow _ | readFile => trivial

/-! ## What one section does -/

theorem append_shared {s : State} (hs : Shared s) (tsIso level message : Bytes) :
    Shared (append s tsIso level message) ∧ (append s tsIso level message).chunks = s.chunks ∧
    s.accepted <+: (append s tsIso level message).accepted ∧
    (append s tsIso level message).writtenIds = s.writtenIds ∧
    (append s tsIso level message).written = s.written ∧
    (append s tsIso level message).returns = s.returns := by
  unfold append
  split
  · exact ⟨hs, rfl, List.prefix_rfl, rfl, rfl, rfl⟩
  · split
    · exact ⟨⟨hs.accepted, hs.numbered, hs.pending, hs.chunks, hs.known, hs.written⟩, rfl, List.prefix_rfl,
        rfl, rfl, rfl⟩
    · -- the line is accepted: it is the last one, and pending
      refine ⟨⟨?_, ?_, ?_, hs.chunks, hs.known, hs.written⟩, rfl, List.prefix_append _ _, rfl, rfl, rfl⟩
      · show s.accepted ++ [_] = s.taken ++ (s.pending ++ [_])
        rw [← List.append_assoc, ← hs.accepted]
      · intro i e he
        rcases Nat.lt_or_ge i s.accepted.length with hi | hi
        · exact hs.numbered i e ((List.getElem?_append_left hi).symm.trans he)
        · rw [List.getElem?_append_right hi, List.getElem?_singleton] at he
          split at he
          · rename_i hzero
            have hlast : i = s.accepted.length := by omega
            exact ⟨_, hlast ▸ (Option.some.inj he).symm⟩
          · cases he
      · intro e he
        rcases List.mem_append.1 he with hold | hnew
        · exact hs.pending e hold
        · rw [List.mem_singleton.1 hnew]
          rfl

/-- The chunk that is taken has the pending lines, and no other ones. -/
theorem lines_chunk {s : State} (hs : Shared s) : lines s.chunk = s.pending := by
  rw [State.chunk, lines_append, lines_of_isLine hs.pending]
  split
  · exact List.append_nil _
  · exact List.append_nil _

theorem takePending_shared {s : State} (hs : Shared s) :
    Shared (takePending s).1 ∧ s.chunks <+: (takePending s).1.chunks ∧
    (takePending s).1.accepted = s.accepted ∧ (takePending s).1.writtenIds = s.writtenIds ∧
    (takePending s).1.written = s.written ∧ (takePending s).1.returns = s.returns ∧
    (takePending s).1.taken.length = s.accepted.length := by
  unfold takePending
  split
  · -- nothing is pending, so all that was accepted is taken
    rename_i hempty
    refine ⟨hs, List.prefix_rfl, rfl, rfl, rfl, rfl, ?_⟩
    rw [hs.accepted, List.isEmpty_iff.1 hempty, List.append_nil]
  · rename_i hsome
    have htaken : ((s.chunks ++ [s.chunk]).map lines).flatten = s.accepted := by
      rw [List.map_append, List.flatten_append, List.map_singleton, List.flatten_singleton,
        lines_chunk hs]
      exact hs.accepted.symm
    refine ⟨⟨?_, hs.numbered, fun e he => absurd he List.not_mem_nil, ?_, ?_, ?_⟩, List.prefix_append _ _, rfl,
      rfl, rfl, rfl, ?_⟩
    · exact htaken.symm.trans (List.append_nil _).symm
    · intro chunk hchunk
      rcases List.mem_append.1 hchunk with hold | hnew
      · exact hs.chunks chunk hold
      · rw [List.mem_singleton.1 hnew, lines_chunk hs]
        exact fun h => hsome (List.isEmpty_iff.2 h)
    · intro id hid
      exact Nat.lt_of_lt_of_le (hs.known id hid) (List.prefix_append _ _).length_le
    · exact hs.written.trans (blocksAt_append hs.known _).symm
    · exact congrArg List.length htaken

theorem writeChunk_shared {s : State} (hs : Shared s) {id : Nat} {chunk : List Entry}
    (hchunk : s.chunks[id]? = some chunk) :
    Shared (writeChunk s id chunk) ∧ (writeChunk s id chunk).chunks = s.chunks ∧
    (writeChunk s id chunk).accepted = s.accepted ∧
    (writeChunk s id chunk).writtenIds = s.writtenIds ++ [id] ∧
    (writeChunk s id chunk).returns = s.returns := by
  have hknown : ∀ i ∈ s.writtenIds ++ [id], i < s.chunks.length := by
    intro i hi
    rcases List.mem_append.1 hi with hold | hnew
    · exact hs.known i hold
    · rw [List.mem_singleton.1 hnew]
      exact (List.getElem?_eq_some_iff.1 hchunk).1
  have hwritten : s.written ++ chunk = blocksAt s.chunks (s.writtenIds ++ [id]) := by
    have hget : s.chunks.getD id [] = chunk := by
      rw [List.getD_eq_getElem?_getD, hchunk, Option.getD_some]
    rw [blocksAt, List.flatMap_append, List.flatMap_singleton, hget, hs.written]
    rfl
  unfold writeChunk
  dsimp only
  split
  · exact ⟨⟨hs.accepted, hs.numbered, hs.pending, hs.chunks, hknown, hwritten⟩, rfl, rfl, rfl, rfl⟩
  · exact ⟨⟨hs.accepted, hs.numbered, hs.pending, hs.chunks, hknown, hwritten⟩, rfl, rfl, rfl, rfl⟩

/-- The two laws, as far as they are about the shared state. -/
def Lawful (s : State) : Prop := Ordered s ∧ Complete s

instance (s : State) : Decidable (Lawful s) := inferInstanceAs (Decidable (Ordered s ∧ Complete s))

/-- A take that takes something leaves its chunk to be written. -/
theorem takePending_acts (s : State) :
    ((takePending s).2 = [] ∧ (takePending s).1.chunks = s.chunks) ∨
    ((takePending s).2 = [.writeChunk s.chunks.length s.chunk] ∧
      (takePending s).1.chunks = s.chunks ++ [s.chunk]) := by
  unfold takePending
  split
  · exact .inl ⟨rfl, rfl⟩
  · exact .inr ⟨rfl, rfl⟩

theorem fits_rest {s : State} {before : Nat} (h : before ≤ s.taken.length) (read : Bool) :
    ∀ b ∈ (if read then [Act.readFile] else []) ++ [Act.finish before], Fits s b := by
  intro b hb
  rcases List.mem_append.1 hb with hread | hfinish
  · cases read with
    | true =>
      rw [List.mem_singleton.1 hread]
      trivial
    | false => cases hread
  · rw [List.mem_singleton.1 hfinish]
    exact h

/-- **What one section does**: it keeps the invariants, and changes nothing but what it is
for. A chunk that is taken is new, and one that is written is written off. -/
theorem perform_shared {s s' : State} {a : Act} {new : List Act} (hs : Shared s) (ha : Fits s a)
    (h : perform s a () = some (s', new)) :
    Shared s' ∧ (∀ b ∈ new, Fits s' b) ∧ s.chunks <+: s'.chunks ∧ s.accepted <+: s'.accepted ∧
    ∃ added, (↑s'.writtenIds : Multiset Nat) + (new.map holds).sum
        = ↑s.writtenIds + holds a + added ∧
      Multiset.range s'.chunks.length = Multiset.range s.chunks.length + added := by
  cases a with
  | append tsIso level message =>
    obtain ⟨rfl, rfl⟩ := Prod.mk.inj (Option.some.inj h)
    obtain ⟨hshared, hchunks, haccepted, hids, -⟩ := append_shared hs tsIso level message
    refine ⟨hshared, nofun, hchunks ▸ List.prefix_rfl, haccepted, 0, ?_, ?_⟩
    · rw [hids]
      simp [holds]
    · rw [hchunks, add_zero]
  | flushNow read =>
    obtain ⟨rfl, rfl⟩ := Prod.mk.inj (Option.some.inj h)
    refine ⟨hs, fun b hb => ?_, List.prefix_rfl, List.prefix_rfl, 0, by simp [holds],
      (add_zero _).symm⟩
    rw [List.mem_singleton.1 hb]
    exact Nat.le_refl _
  | takePending before read =>
    obtain ⟨rfl, rfl⟩ := Prod.mk.inj (Option.some.inj h)
    obtain ⟨hshared, hchunks, haccepted, hids, -, -, htaken⟩ := takePending_shared hs
    have hrest := fits_rest (htaken ▸ ha : before ≤ (takePending s).1.taken.length) read
    have hzero : (((if read then [Act.readFile] else []) ++ [Act.finish before]).map holds).sum = 0 := by
      cases read <;> simp [holds]
    rw [List.append_assoc, hids, List.map_append, List.sum_append, hzero, add_zero]
    rcases takePending_acts s with ⟨hacts, hsame⟩ | ⟨hacts, hnew⟩
    · refine ⟨hshared, ?_, hchunks, haccepted ▸ List.prefix_rfl, 0, ?_, ?_⟩
      · rw [hacts]
        exact hrest
      · rw [hacts]
        simp [holds]
      · rw [hsame, add_zero]
    · refine ⟨hshared, ?_, hchunks, haccepted ▸ List.prefix_rfl, {s.chunks.length}, ?_, ?_⟩
      · rw [hacts, List.forall_mem_append]
        refine ⟨fun b hb => ?_, hrest⟩
        rw [List.mem_singleton.1 hb, Fits, hnew, List.getElem?_concat_length]
      · rw [hacts]
        simp [holds]
      · rw [hnew, List.length_append, List.length_singleton, Multiset.range_succ,
          ← Multiset.singleton_add, add_comm]
  | writeChunk id chunk =>
    obtain ⟨rfl, rfl⟩ := Prod.mk.inj (Option.some.inj h)
    obtain ⟨hshared, hchunks, haccepted, hids, -⟩ := writeChunk_shared hs ha
    refine ⟨hshared, nofun, hchunks ▸ List.prefix_rfl, haccepted ▸ List.prefix_rfl, 0, ?_, ?_⟩
    · rw [hids, ← Multiset.coe_add]
      simp [holds]
    · rw [hchunks, add_zero]
  | readFile =>
    obtain ⟨rfl, rfl⟩ := Prod.mk.inj (Option.some.inj h)
    exact ⟨hs, nofun, List.prefix_rfl, List.prefix_rfl, 0, by simp [holds], (add_zero _).symm⟩
  | finish before =>
    obtain ⟨rfl, rfl⟩ := Prod.mk.inj (Option.some.inj h)
    exact ⟨⟨hs.accepted, hs.numbered, hs.pending, hs.chunks, hs.known, hs.written⟩, nofun,
      List.prefix_rfl, List.prefix_rfl, 0, by simp [holds], (add_zero _).symm⟩

theorem call_shared {s s' : State} {t : Nat} {k : Entered} {new : List Act}
    (h : call s t k = some (s', new)) : s' = s ∧ (∀ b ∈ new, Fits s b) ∧ (new.map holds).sum = 0 := by
  cases k with
  | append | flushNow | readCurrent | reportCrash =>
    obtain ⟨rfl, rfl⟩ := Prod.mk.inj (Option.some.inj h)
    exact ⟨rfl, by simp [Fits], by simp [holds]⟩

/-- **What holds of every state of every run.** -/
structure Sound (c : Config) : Prop where
  acts : Interleave.ActInv Shared Fits c
  held : Held c

theorem sound_start (n : Nat) : Sound (start n) := by
  constructor
  · refine ⟨⟨rfl, ?_, ?_, ?_, ?_, rfl⟩, ?_⟩
    · intro i e he
      cases he
    · exact fun e he => absurd he List.not_mem_nil
    · exact fun e he => absurd he List.not_mem_nil
    · exact fun e he => absurd he List.not_mem_nil
    · intro t p hp a ha
      rw [List.eq_of_mem_replicate (List.mem_of_getElem? hp)] at ha
      cases ha
  · simp [Held, Interleave.total, start]

theorem sound_step {c c' : Config} {l : Label} (hc : Sound c) (h : step c l = some c') :
    Sound c' := by
  constructor
  · refine Interleave.actInv_step ?_ ?_ ?_ hc.acts h
    · intro s a i s' new hs ha hp
      obtain ⟨hshared, hnew, hchunks, haccepted, -⟩ := perform_shared hs ha hp
      exact ⟨hshared, hnew, fun b hb => hb.mono hchunks haccepted⟩
    · intro s t k s' new hs hp
      obtain ⟨rfl, hnew, -⟩ := call_shared (t := t) hp
      exact ⟨hs, hnew, fun b hb => hb⟩
    · intro s ps e
      exact e.elim
  · -- what the step adds to the chunks, and to what is written or held, is the same
    have hheld := hc.held
    rcases Interleave.step_cases h with ⟨t, i, a, rest, s', new, rfl, ht, hp, rfl⟩ |
      ⟨t, k, s', new, rfl, ht, hp, rfl⟩ | ⟨e, -⟩
    · have ha := hc.acts.act (List.mem_of_getElem? ht) (List.mem_cons_self (a := a))
      obtain ⟨-, -, -, -, added, hids, hrange⟩ := perform_shared hc.acts.shared ha hp
      unfold Held at hheld ⊢
      rw [Interleave.total_exec_gain ht hids, hheld, hrange]
    · obtain ⟨rfl, -, hzero⟩ := call_shared (t := t) hp
      obtain ⟨frame, hbefore, hafter⟩ := Interleave.total_call
        (fun s : State => (↑s.writtenIds : Multiset Nat)) holds ht
      unfold Held at hheld ⊢
      rw [hafter, hzero, add_zero, ← hheld, hbefore]
    · exact e.elim

/-! ## What the chunks in the hands of threads say -/

variable {c c' : Config} {l : Label} {id : Nat} {chunk : List Entry}

theorem Sound.unwritten (hc : Sound c) (h : Unwritten c id chunk) :
    c.shared.chunks[id]? = some chunk ∧ id ∉ c.shared.writtenIds := by
  obtain ⟨p, hp, ha⟩ := h
  refine ⟨hc.acts.act hp ha, fun hid => ?_⟩
  have hle := Interleave.le_total (f := fun s : State => (↑s.writtenIds : Multiset Nat))
    (w := holds) hp ha
  rw [hc.held] at hle
  obtain ⟨-, -, hdisjoint⟩ := Multiset.nodup_add.1 (Multiset.nodup_of_le hle (Multiset.nodup_range _))
  exact Multiset.disjoint_left.1 hdisjoint hid (Multiset.mem_singleton_self id)

/-- A chunk that was taken is written, or in the hands of a thread. -/
theorem Sound.written_or_held (hc : Sound c) (hid : id < c.shared.chunks.length) :
    id ∈ c.shared.writtenIds ∨ ∃ chunk, Unwritten c id chunk := by
  have hmem := Multiset.mem_range.2 hid
  rw [← hc.held, Interleave.mem_total] at hmem
  rcases hmem with hw | ⟨p, hp, a, ha, hx⟩
  · exact .inl hw
  · cases a with
    | writeChunk id' chunk =>
      obtain rfl := Multiset.mem_singleton.1 hx
      exact .inr ⟨chunk, p, hp, ha⟩
    | append | flushNow | takePending | readFile | finish =>
      exact absurd hx (Multiset.notMem_zero id)

theorem lines_blocksAt (chunks : List (List Entry)) (ids : List Nat) :
    lines (blocksAt chunks ids) = blocksAt (chunks.map lines) ids := by
  rw [lines, blocksAt, List.filter_flatMap, blocksAt]
  apply List.flatMap_congr
  intro i _
  rw [List.getD_eq_getElem?_getD, List.getD_eq_getElem?_getD, List.getElem?_map]
  cases chunks[i]? with
  | none => rfl
  | some chunk => rfl

/-- **The file is in order** where the chunks were written in the order they were taken. -/
theorem ordered_iff {s : State} (hs : Shared s) :
    Ordered s ↔ s.writtenIds = List.range s.writtenIds.length := by
  have hlines : lines s.written = blocksAt (s.chunks.map lines) s.writtenIds := by
    rw [hs.written, lines_blocksAt]
  have hnodup := hs.nodup
  rw [hs.accepted] at hnodup
  rw [Ordered, hlines, hs.accepted]
  constructor
  · apply range_of_blocksAt
    · intro b hb
      obtain ⟨chunk, hchunk, rfl⟩ := List.mem_map.1 hb
      exact hs.chunks chunk hchunk
    · exact hnodup
    · intro i hi
      rw [List.length_map]
      exact hs.known i hi
  · intro hrange
    rw [hrange]
    exact (blocksAt_range_initial _ _).trans (List.prefix_append _ _)

/-- A chunk that is written next keeps the order just when it is the first of those taken. -/
theorem ordered_writeChunk_iff (hc : Sound c) (hl : Ordered c.shared) (h : Unwritten c id chunk) :
    Ordered (writeChunk c.shared id chunk) ↔ ∀ id' chunk, Unwritten c id' chunk → id ≤ id' := by
  obtain ⟨hget, -⟩ := hc.unwritten h
  obtain ⟨hshared, -, -, hids, -⟩ := writeChunk_shared hc.acts.shared hget
  have hrange := (ordered_iff hc.acts.shared).1 hl
  have hnext : Ordered (writeChunk c.shared id chunk) ↔ id = c.shared.writtenIds.length := by
    rw [ordered_iff hshared, hids, List.length_append, List.length_singleton, List.range_succ]
    constructor
    · intro happend
      exact List.singleton_injective (List.append_inj_right' happend rfl)
    · rintro rfl
      rw [← hrange]
  have hge : ∀ id' chunk, Unwritten c id' chunk → c.shared.writtenIds.length ≤ id' := by
    intro id' chunk' h'
    have hnew := (hc.unwritten h').2
    rw [hrange, List.mem_range] at hnew
    omega
  -- the next number in turn is held by someone, for it is taken and not written
  rw [hnext]
  constructor
  · rintro rfl
    exact hge
  · intro hfirst
    have hlt := Nat.lt_of_le_of_lt (hge id chunk h) (List.getElem?_eq_some_iff.1 hget).1
    rcases hc.written_or_held hlt with hw | ⟨chunk', h'⟩
    · rw [hrange, List.length_range] at hw
      exact absurd (List.mem_range.1 hw) (Nat.lt_irrefl _)
    · exact Nat.le_antisymm (hfirst _ chunk' h') (hge id chunk h)

theorem Shared.line {s : State} (hs : Shared s) (hget : s.chunks[id]? = some chunk) {serial : Nat}
    {text : Bytes} (h : Entry.line serial text ∈ chunk) :
    Entry.line serial text ∈ (s.chunks.map lines).getD id [] ∧
      s.accepted[serial]? = some (.line serial text) := by
  have hline : Entry.line serial text ∈ (s.chunks.map lines).getD id [] := by
    rw [List.getD_eq_getElem?_getD, List.getElem?_map, hget]
    exact List.mem_filter.2 ⟨h, rfl⟩
  have haccepted : Entry.line serial text ∈ s.accepted := by
    rw [hs.accepted]
    exact List.mem_append_left _ (mem_flatten_of_getD hline)
  obtain ⟨j, hj⟩ := List.mem_iff_getElem?.1 haccepted
  obtain ⟨text', hsame⟩ := hs.numbered j _ hj
  injection hsame with hserial
  exact ⟨hline, hserial ▸ hj⟩

/-- **What a returning flush has written**: the earlier lines, just when no thread has still to
write one. -/
theorem returned_iff (hc : Sound c) {before : Nat} (hbefore : before ≤ c.shared.taken.length) :
    (∀ e ∈ c.shared.accepted.take before, e ∈ c.shared.written) ↔
      ∀ id chunk, Unwritten c id chunk → ∀ serial text, Entry.line serial text ∈ chunk →
        before ≤ serial := by
  have hs := hc.acts.shared
  have hwritten : ∀ e : Entry, e.isLine = true →
      (e ∈ c.shared.written ↔ ∃ i ∈ c.shared.writtenIds, e ∈ (c.shared.chunks.map lines).getD i []) := by
    intro e he
    have hlines : e ∈ c.shared.written ↔ e ∈ lines c.shared.written :=
      ⟨fun h => List.mem_filter.2 ⟨h, he⟩, fun h => (List.mem_filter.1 h).1⟩
    rw [hlines, hs.written, lines_blocksAt, blocksAt, List.mem_flatMap]
  constructor
  · intro hall id chunk h serial text hmem
    by_contra hearly
    obtain ⟨hget, hnew⟩ := hc.unwritten h
    obtain ⟨hline, haccepted⟩ := hs.line hget hmem
    have htake : (c.shared.accepted.take before)[serial]? = some (.line serial text) := by
      rw [List.getElem?_take_of_lt (Nat.lt_of_not_le hearly), haccepted]
    -- the line is in two chunks, one of them written and the other not
    obtain ⟨i, hi, hiline⟩ := (hwritten _ rfl).1 (hall _ (List.mem_of_getElem? htake))
    have hnodup := hs.nodup
    rw [hs.accepted] at hnodup
    have hsame : i = id := eq_of_mem_blocks (List.nodup_append.1 hnodup).1 hiline hline
    exact hnew (hsame ▸ hi)
  · intro hlate e he
    obtain ⟨j, hj⟩ := List.mem_iff_getElem?.1 he
    have hjlt : j < before := by
      have := (List.getElem?_eq_some_iff.1 hj).1
      rw [List.length_take] at this
      omega
    rw [List.getElem?_take_of_lt hjlt] at hj
    obtain ⟨text, rfl⟩ := hs.numbered j e hj
    -- an earlier line is no longer pending, so it is in a chunk
    rw [hs.accepted, List.getElem?_append_left (Nat.lt_of_lt_of_le hjlt hbefore)] at hj
    obtain ⟨block, hblock, hline⟩ := List.mem_flatten.1 (List.mem_of_getElem? hj)
    obtain ⟨i, hi⟩ := List.mem_iff_getElem?.1 hblock
    have hgetD : Entry.line j text ∈ (c.shared.chunks.map lines).getD i [] := by
      rw [List.getD_eq_getElem?_getD, hi]
      exact hline
    rw [List.getElem?_map, Option.map_eq_some_iff] at hi
    obtain ⟨chunk, hchunk, rfl⟩ := hi
    rcases hc.written_or_held (List.getElem?_eq_some_iff.1 hchunk).1 with hw | ⟨chunk', h'⟩
    · exact (hwritten _ rfl).2 ⟨i, hw, hgetD⟩
    · -- a chunk in the hands of a thread has only later lines
      have hsame := (hc.unwritten h').1
      rw [hchunk] at hsame
      obtain rfl := Option.some.inj hsame
      have := hlate i chunk h' j text (List.mem_filter.1 hline).1
      omega

/-! ## Runs -/

/-- The laws stay where nothing is written and no call returns. -/
theorem Lawful.mono {s s' : State} (haccepted : s.accepted <+: s'.accepted)
    (hwritten : s'.written = s.written) (hreturns : s'.returns = s.returns) (h : Lawful s) :
    Lawful s' := by
  obtain ⟨hordered, hcomplete⟩ := h
  refine ⟨?_, ?_⟩
  · rw [Ordered, hwritten]
    exact hordered.trans haccepted
  · rw [Complete, hreturns]
    exact hcomplete

/-- **What a step does to the laws.** -/
theorem lawful_step_iff (hc : Sound c) (hl : Lawful c.shared) (h : step c l = some c') :
    Lawful c'.shared ↔ InTurn c l := by
  rcases Interleave.step_cases h with ⟨t, i, a, rest, s', new, rfl, ht, hp, rfl⟩ |
    ⟨t, k, s', new, rfl, ht, hp, rfl⟩ | ⟨e, -⟩
  · have ha := hc.acts.act (List.mem_of_getElem? ht) (List.mem_cons_self (a := a))
    rw [InTurn, Interleave.acting_exec ht]
    cases a with
    | append tsIso level message =>
      obtain ⟨rfl, rfl⟩ := Prod.mk.inj (Option.some.inj hp)
      obtain ⟨-, -, haccepted, -, hwritten, hreturns⟩ :=
        append_shared hc.acts.shared tsIso level message
      exact iff_of_true (hl.mono haccepted hwritten hreturns) trivial
    | flushNow read =>
      obtain ⟨rfl, rfl⟩ := Prod.mk.inj (Option.some.inj hp)
      exact iff_of_true hl trivial
    | takePending before read =>
      obtain ⟨rfl, rfl⟩ := Prod.mk.inj (Option.some.inj hp)
      obtain ⟨-, -, haccepted, -, hwritten, hreturns, -⟩ := takePending_shared hc.acts.shared
      exact iff_of_true (hl.mono (haccepted ▸ List.prefix_rfl) hwritten hreturns) trivial
    | writeChunk id chunk =>
      obtain ⟨rfl, rfl⟩ := Prod.mk.inj (Option.some.inj hp)
      have hheld : Unwritten c id chunk := ⟨_, List.mem_of_getElem? ht, List.mem_cons_self⟩
      obtain ⟨-, -, -, -, hreturns⟩ := writeChunk_shared hc.acts.shared ha
      have hcomplete : Complete (writeChunk c.shared id chunk) := by
        rw [Complete, hreturns]
        exact hl.2
      exact Iff.trans ⟨fun h => h.1, fun h => ⟨h, hcomplete⟩⟩ (ordered_writeChunk_iff hc hl.1 hheld)
    | readFile =>
      obtain ⟨rfl, rfl⟩ := Prod.mk.inj (Option.some.inj hp)
      exact iff_of_true hl trivial
    | finish before =>
      obtain ⟨rfl, rfl⟩ := Prod.mk.inj (Option.some.inj hp)
      refine Iff.trans ?_ (returned_iff hc ha)
      constructor
      · exact fun h => h.2 _ (List.mem_append_right _ List.mem_cons_self)
      · intro hnew
        refine ⟨hl.1, List.forall_mem_append.2 ⟨hl.2, fun r hr => ?_⟩⟩
        rw [List.mem_singleton.1 hr]
        exact hnew
  · obtain ⟨rfl, -⟩ := call_shared (t := t) hp
    exact iff_of_true hl trivial
  · exact e.elim

/-- **The log is in order, and complete at every return**, just where chunks are written in the
order they were taken and no flush returns before the earlier lines are written. -/
theorem log_in_turn_iff (n : Nat) (ls : List Label) :
    Run.AllStates step (fun c => Lawful c.shared) (start n) ls ↔
      Run.AllSteps step (fun c l _ => InTurn c l) (start n) ls := by
  apply Run.allStates_iff_allSteps (I := Sound)
  · exact fun c l c' hc h => sound_step hc h
  · exact fun c l c' hc hl h => lawful_step_iff hc hl h
  · exact sound_start n
  · exact ⟨List.nil_prefix, fun r hr => absurd hr List.not_mem_nil⟩

/-- A crash is reported on thread 1. Between its line and its flush the worker, on thread 0,
takes what is pending: the flush finds nothing, and returns before the line is written. -/
def crashBehindFlush : List Label :=
  [.call 1 (.reportCrash (lit "t") (lit "x")), .exec 1 (), .call 0 .flushNow, .exec 0 (), .exec 0 (),
    .exec 1 (), .exec 1 (), .exec 1 ()]

theorem crash_line_unwritten :
    ¬ ∀ (n : Nat) (ls : List Label), Run.AllStates step (fun c => Lawful c.shared) (start n) ls := by
  intro hall
  have hfails : ¬ Run.AllStates step (fun c => Lawful c.shared) (start 2) crashBehindFlush := by
    decide
  exact hfails (hall 2 crashBehindFlush)

end Tombstone.SessionLog
