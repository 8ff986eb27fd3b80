import Mathlib.Algebra.Order.Group.Multiset
import Mathlib.Data.Multiset.Count
import Mathlib.Logic.Relation

/- Write-ahead ledgers: payloads in memory, records on disk, and which payload owns which
   record.

   A payload in memory is a ticket. A numbered ticket is a payload that must not be lost; it
   may name the record that backs it. This file

   1. says what a store may do to its book (`Move`): drop or add tickets that own nothing,
      accept a numbered payload, back it by a fresh record, settle a ticket and remove its
      record; and what a restart does (`Restart`);
   2. proves that every move and every restart keeps a book sound (`Sound.move`,
      `Sound.restart`): a ticket that names a record agrees with it and is its only owner,
      and no number is ever written twice;
   3. proves what soundness is for: a record stays until a ticket that names it is settled
      (`Moves.kept`), no second copy of it is ever written (`Only.moves`), and a number is settled
      once: nothing holds it from then on (`Sound.settled_gone`, `Gone.moves`). -/
namespace Tombstone.Ledger

variable {P B : Type}

/-- A payload in memory. -/
structure Ticket (P B : Type) where
  path : Option P
  body : B
  number : Option Nat

/-- A payload on disk. -/
structure Record (P B : Type) where
  path : P
  body : B
  number : Nat

/-- The ticket a restart makes of a record. -/
def Record.ticket (r : Record P B) : Ticket P B := ⟨some r.path, r.body, some r.number⟩

/-- What is in memory and on disk, the numbers written to disk so far, and the next
number. -/
structure Book (P B : Type) where
  memory : Multiset (Ticket P B)
  disk : List (Record P B)
  written : List Nat
  next : Nat

/-- The book with further tickets in memory. -/
def Book.add (b : Book P B) (frame : Multiset (Ticket P B)) : Book P B :=
  { b with memory := b.memory + frame }

/-- A ticket that owns no record and needs none. -/
def Ticket.plain (t : Ticket P B) : Prop := t.path = none ∧ t.number = none

section Moves

variable [DecidableEq P]

/-- The records a ticket does not name. -/
def others (t : Ticket P B) (disk : List (Record P B)) : List (Record P B) :=
  disk.filter fun r => decide (t.path ≠ some r.path)

/-- One thing a store does to its book; it settles only the tickets of `S`. -/
inductive Move (S : Ticket P B → Prop) : Book P B → Book P B → Prop where
  | shuffle {b : Book P B} (kept extra : Multiset (Ticket P B)) {memory : Multiset (Ticket P B)}
      (hk : kept ≤ b.memory) (hx : ∀ t ∈ extra, t.plain) (hm : memory = kept + extra) :
      Move S b { b with memory }
  | accept {b : Book P B} (body : B) :
      Move S b { b with
        memory := ⟨none, body, some b.next⟩ ::ₘ b.memory
        next := b.next + 1 }
  | back {b : Book P B} {rest : Multiset (Ticket P B)} {path : P} {body : B} {n : Nat}
      (hm : b.memory = ⟨none, body, some n⟩ ::ₘ rest) (fresh : ∀ r ∈ b.disk, r.path ≠ path) :
      Move S b { b with
        memory := ⟨some path, body, some n⟩ ::ₘ rest
        disk := b.disk ++ [⟨path, body, n⟩]
        written := b.written ++ [n] }
  | settle {b : Book P B} {rest : Multiset (Ticket P B)} {t : Ticket P B}
      (hm : b.memory = t ::ₘ rest) (hs : S t) :
      Move S b { b with memory := rest, disk := others t b.disk }

/-- Any number of moves. -/
abbrev Moves (S : Ticket P B → Prop) : Book P B → Book P B → Prop := Relation.ReflTransGen (Move S)

/-- Everything in memory is lost; some of the records are read back. -/
structure Restart (b b' : Book P B) : Prop where
  disk : b'.disk.Perm b.disk
  memory : b'.memory ≤ ↑(b'.disk.map Record.ticket)
  written : b'.written = b.written
  next : b'.next = b.next

variable {S : Ticket P B → Prop} {b b' : Book P B} {r : Record P B}

theorem mem_others {t : Ticket P B} {disk : List (Record P B)} {r : Record P B} :
    r ∈ others t disk ↔ r ∈ disk ∧ t.path ≠ some r.path := by
  simp [others]

/-- A move does not look at the tickets it does not touch. -/
theorem Move.frame (h : Move S b b') (frame : Multiset (Ticket P B)) :
    Move S (b.add frame) (b'.add frame) := by
  cases h with
  | shuffle kept extra hk hx hm =>
    refine .shuffle (kept + frame) extra (add_le_add_left hk frame) hx ?_
    rw [hm, add_right_comm]
  | accept body =>
    have h := Move.accept (S := S) (b := b.add frame) body
    simpa only [Book.add, Multiset.cons_add] using h
  | @back rest path body n hm fresh =>
    have hm' : (b.add frame).memory = ⟨none, body, some n⟩ ::ₘ (rest + frame) := by
      simp only [Book.add, hm, Multiset.cons_add]
    have h := Move.back (S := S) (b := b.add frame) hm' fresh
    simpa only [Book.add, Multiset.cons_add] using h
  | @settle rest t hm hs =>
    have hm' : (b.add frame).memory = t ::ₘ (rest + frame) := by
      simp only [Book.add, hm, Multiset.cons_add]
    exact .settle (b := b.add frame) hm' hs

theorem Moves.frame (h : Moves S b b') (frame : Multiset (Ticket P B)) :
    Moves S (b.add frame) (b'.add frame) := by
  induction h with
  | refl => exact .refl
  | tail _ h ih => exact ih.tail (h.frame frame)

theorem Moves.mono {S' : Ticket P B → Prop} (h : Moves S b b') (hS : ∀ t, S t → S' t) :
    Moves S' b b' := by
  induction h with
  | refl => exact .refl
  | tail _ h ih =>
    refine ih.tail ?_
    cases h with
    | shuffle kept extra hk hx hm => exact .shuffle kept extra hk hx hm
    | accept body => exact .accept body
    | back hm fresh => exact .back hm fresh
    | settle hm hs => exact .settle hm (hS _ hs)

/-! ## Soundness -/

/-- How many tickets name `path`. -/
def owners (path : P) (memory : Multiset (Ticket P B)) : Nat :=
  memory.countP fun t => t.path = some path

/-- How many tickets of number `n` have no record yet. -/
def unbacked (n : Nat) (memory : Multiset (Ticket P B)) : Nat :=
  memory.countP fun t => t.path = none ∧ t.number = some n

structure Sound (b : Book P B) : Prop where
  /-- A ticket that names a record agrees with it. -/
  backed : ∀ t ∈ b.memory, ∀ p, t.path = some p →
    ∃ n, t.number = some n ∧ ⟨p, t.body, n⟩ ∈ b.disk
  /-- A record has at most one owner in memory. -/
  owned : ∀ p, owners p b.memory ≤ 1
  paths : (b.disk.map Record.path).Nodup
  /-- A number is written once, or still waits to be written, or is not given out. -/
  once : ∀ n, b.written.count n + unbacked n b.memory ≤ if n < b.next then 1 else 0
  logged : ∀ r ∈ b.disk, r.number ∈ b.written
  numbers : (b.disk.map Record.number).Nodup

section Counting

variable {m m' : Multiset (Ticket P B)} {t : Ticket P B}

theorem owners_zero {path : P} : owners path m = 0 ↔ ∀ t ∈ m, t.path ≠ some path := by
  simp [owners, Multiset.countP_eq_zero]

omit [DecidableEq P] in
theorem unbacked_zero {n : Nat} : unbacked n m = 0 ↔ ∀ t ∈ m, t.path = none → t.number ≠ some n := by
  simp [unbacked, Multiset.countP_eq_zero]

theorem owners_cons (path : P) :
    owners path (t ::ₘ m) = owners path m + if t.path = some path then 1 else 0 :=
  Multiset.countP_cons _ t m

omit [DecidableEq P] in
theorem unbacked_cons (n : Nat) :
    unbacked n (t ::ₘ m) = unbacked n m + if t.path = none ∧ t.number = some n then 1 else 0 :=
  Multiset.countP_cons _ t m

theorem owners_le (path : P) (h : m ≤ m') : owners path m ≤ owners path m' :=
  Multiset.countP_le_of_le _ h

omit [DecidableEq P] in
theorem unbacked_le (n : Nat) (h : m ≤ m') : unbacked n m ≤ unbacked n m' :=
  Multiset.countP_le_of_le _ h

/-- Plain tickets do not count. -/
theorem owners_add_plain (path : P) (h : ∀ t ∈ m', t.plain) :
    owners path (m + m') = owners path m := by
  have hzero : owners path m' = 0 := owners_zero.mpr fun t ht => by simp [(h t ht).1]
  simp only [owners, Multiset.countP_add] at hzero ⊢
  omega

omit [DecidableEq P] in
theorem unbacked_add_plain (n : Nat) (h : ∀ t ∈ m', t.plain) :
    unbacked n (m + m') = unbacked n m := by
  have hzero : unbacked n m' = 0 := unbacked_zero.mpr fun t ht _ => by simp [(h t ht).2]
  simp only [unbacked, Multiset.countP_add] at hzero ⊢
  omega

end Counting

theorem Sound.unique_path (h : Sound b) {r r' : Record P B} (hr : r ∈ b.disk) (hr' : r' ∈ b.disk)
    (he : r.path = r'.path) : r = r' :=
  List.inj_on_of_nodup_map h.paths hr hr' he

/-- **No second copy**: two records of one number are the same record. -/
theorem Sound.unique_number (h : Sound b) {r r' : Record P B} (hr : r ∈ b.disk)
    (hr' : r' ∈ b.disk) (he : r.number = r'.number) : r = r' :=
  List.inj_on_of_nodup_map h.numbers hr hr' he

/-- A ticket whose number has been written names a record. -/
theorem Sound.names_record (h : Sound b) {t : Ticket P B} (ht : t ∈ b.memory) {n : Nat}
    (hn : t.number = some n) (hw : n ∈ b.written) : t.path ≠ none := by
  intro hp
  have hone := h.once n
  have hcount : 1 ≤ b.written.count n := List.one_le_count_iff.mpr hw
  have hun : unbacked n b.memory = 0 := by
    split at hone <;> omega
  exact unbacked_zero.mp hun t ht hp hn

/-- A settled ticket was its record's only owner. -/
theorem Sound.only_owner (h : Sound b) {t : Ticket P B} {rest : Multiset (Ticket P B)} {p : P}
    (hm : b.memory = t ::ₘ rest) (hp : t.path = some p) : ∀ t' ∈ rest, t'.path ≠ some p := by
  have hone := h.owned p
  rw [hm, owners_cons, if_pos hp] at hone
  have hzero : owners p rest = 0 := by omega
  exact owners_zero.mp hzero

theorem Sound.shuffle (h : Sound b) {kept extra : Multiset (Ticket P B)} (hk : kept ≤ b.memory)
    (hx : ∀ t ∈ extra, t.plain) : Sound { b with memory := kept + extra } := by
  refine ⟨?_, ?_, h.paths, ?_, h.logged, h.numbers⟩
  · intro t ht p hp
    rcases Multiset.mem_add.mp ht with ht | ht
    · exact h.backed t (Multiset.mem_of_le hk ht) p hp
    · rw [(hx t ht).1] at hp
      cases hp
  · intro p
    rw [owners_add_plain p hx]
    exact (owners_le p hk).trans (h.owned p)
  · intro n
    rw [unbacked_add_plain n hx]
    exact (Nat.add_le_add_left (unbacked_le n hk) _).trans (h.once n)

theorem Sound.accept (h : Sound b) (body : B) :
    Sound { b with memory := ⟨none, body, some b.next⟩ ::ₘ b.memory, next := b.next + 1 } := by
  refine ⟨?_, ?_, h.paths, ?_, h.logged, h.numbers⟩
  · intro t ht p hp
    rcases Multiset.mem_cons.mp ht with rfl | ht
    · cases hp
    · exact h.backed t ht p hp
  · intro p
    rw [owners_cons, if_neg (by simp)]
    exact h.owned p
  · intro n
    have hone := h.once n
    rw [unbacked_cons]
    by_cases hn : b.next = n
    · subst hn
      simp only [Nat.lt_irrefl, if_false] at hone
      simp
      omega
    · rw [if_neg (by simp [hn])]
      refine hone.trans ?_
      split
      · rename_i hlt
        rw [if_pos (Nat.lt_succ_of_lt hlt)]
      · exact Nat.zero_le _

/-- A number that waits to be written has not been written. -/
theorem Sound.not_written (h : Sound b) {t : Ticket P B} (ht : t ∈ b.memory) {n : Nat}
    (hp : t.path = none) (hn : t.number = some n) : n ∉ b.written := fun hw =>
  h.names_record ht hn hw hp

/-- A fresh path has no owner. -/
theorem Sound.owners_fresh (h : Sound b) {path : P} (fresh : ∀ r ∈ b.disk, r.path ≠ path) :
    owners path b.memory = 0 := by
  refine owners_zero.mpr fun t ht hpath => ?_
  obtain ⟨n, -, hd⟩ := h.backed t ht path hpath
  exact fresh _ hd rfl

omit [DecidableEq P] in
/-- One more record under a fresh key keeps the keys distinct. -/
theorem nodup_map_snoc {K : Type} {f : Record P B → K} {disk : List (Record P B)}
    {r : Record P B} (h : (disk.map f).Nodup) (fresh : ∀ r' ∈ disk, f r' ≠ f r) :
    ((disk ++ [r]).map f).Nodup := by
  rw [List.map_append, List.nodup_append]
  refine ⟨h, by simp, ?_⟩
  intro k hk q hq
  obtain ⟨r', hr', rfl⟩ := List.mem_map.mp hk
  simp only [List.map_cons, List.map_nil, List.mem_singleton] at hq
  rw [hq]
  exact fresh r' hr'

theorem Sound.back (h : Sound b) {rest : Multiset (Ticket P B)} {path : P} {body : B} {n : Nat}
    (hm : b.memory = ⟨none, body, some n⟩ ::ₘ rest) (fresh : ∀ r ∈ b.disk, r.path ≠ path) :
    Sound { b with
      memory := ⟨some path, body, some n⟩ ::ₘ rest
      disk := b.disk ++ [⟨path, body, n⟩]
      written := b.written ++ [n] } := by
  have hself : (⟨none, body, some n⟩ : Ticket P B) ∈ b.memory := hm ▸ Multiset.mem_cons_self _ rest
  have hnew : n ∉ b.written := h.not_written hself rfl rfl
  have hrest : ∀ t ∈ rest, t ∈ b.memory := fun t ht => hm ▸ Multiset.mem_cons_of_mem ht
  refine ⟨?_, ?_, ?_, ?_, ?_, ?_⟩
  · intro t ht p hp
    rcases Multiset.mem_cons.mp ht with rfl | ht
    · simp only [Option.some.injEq] at hp
      subst hp
      exact ⟨n, rfl, by simp⟩
    · obtain ⟨k, hk, hd⟩ := h.backed t (hrest t ht) p hp
      exact ⟨k, hk, List.mem_append_left _ hd⟩
  · intro p
    rw [owners_cons]
    by_cases hp : path = p
    · have hzero := h.owners_fresh fresh
      rw [hm, owners_cons] at hzero
      subst hp
      simp
      omega
    · have hone := h.owned p
      rw [hm, owners_cons] at hone
      rw [if_neg (by simp [hp])]
      omega
  · exact nodup_map_snoc h.paths fresh
  · -- what waited to be written is written now
    intro k
    have hk := h.once k
    rw [hm, unbacked_cons] at hk
    rw [unbacked_cons, if_neg (by simp), List.count_append, List.count_singleton]
    simp only [Option.some.injEq, true_and, beq_iff_eq] at hk ⊢
    omega
  · intro r hr
    rcases List.mem_append.mp hr with hr | hr
    · exact List.mem_append_left _ (h.logged r hr)
    · rw [List.mem_singleton.mp hr]
      exact List.mem_append_right _ (by simp)
  · refine nodup_map_snoc h.numbers fun r hr he => hnew ?_
    have hn : r.number = n := he
    exact hn ▸ h.logged r hr

theorem Sound.settle (h : Sound b) {rest : Multiset (Ticket P B)} {t : Ticket P B}
    (hm : b.memory = t ::ₘ rest) : Sound { b with memory := rest, disk := others t b.disk } := by
  have hle : rest ≤ b.memory := hm ▸ Multiset.le_cons_self rest t
  have hsub : List.Sublist (others t b.disk) b.disk := List.filter_sublist
  refine ⟨?_, ?_, h.paths.sublist (hsub.map _), ?_, ?_, h.numbers.sublist (hsub.map _)⟩
  · intro t' ht' p hp
    obtain ⟨n, hn, hd⟩ := h.backed t' (Multiset.mem_of_le hle ht') p hp
    exact ⟨n, hn, mem_others.mpr ⟨hd, fun he => h.only_owner hm he t' ht' hp⟩⟩
  · exact fun p => (owners_le p hle).trans (h.owned p)
  · exact fun n => (Nat.add_le_add_left (unbacked_le n hle) _).trans (h.once n)
  · exact fun r hr => h.logged r (mem_others.mp hr).1

/-- **Every move keeps a sound book sound.** -/
theorem Sound.move (h : Sound b) (hm : Move S b b') : Sound b' := by
  cases hm with
  | shuffle kept extra hk hx hmem => exact hmem ▸ h.shuffle hk hx
  | accept body => exact h.accept body
  | back hmem fresh => exact h.back hmem fresh
  | settle hmem _ => exact h.settle hmem

theorem Sound.moves (h : Sound b) (hm : Moves S b b') : Sound b' := by
  induction hm with
  | refl => exact h
  | tail _ hm ih => exact ih.move hm

/-- **A restart keeps a sound book sound.** -/
theorem Sound.restart (h : Sound b) (hr : Restart b b') : Sound b' := by
  have hpaths : (b'.disk.map Record.path).Nodup := (hr.disk.map _).nodup_iff.mpr h.paths
  have hticket : ∀ t ∈ b'.memory, ∃ r ∈ b'.disk, r.ticket = t := by
    intro t ht
    have := Multiset.mem_of_le hr.memory ht
    simpa using this
  refine ⟨?_, ?_, hpaths, ?_, ?_, (hr.disk.map _).nodup_iff.mpr h.numbers⟩
  · intro t ht p hp
    obtain ⟨r, hr, rfl⟩ := hticket t ht
    simp only [Record.ticket, Option.some.injEq] at hp
    exact ⟨r.number, rfl, hp ▸ hr⟩
  · intro p
    calc owners p b'.memory
        ≤ owners p (↑(b'.disk.map Record.ticket) : Multiset (Ticket P B)) := owners_le p hr.memory
      _ = (b'.disk.map Record.path).count p := by
          simp only [owners, Multiset.coe_countP, List.countP_map, List.count]
          congr 1
          funext r
          simp [Record.ticket, Bool.beq_eq_decide_eq]
      _ ≤ 1 := List.nodup_iff_count_le_one.mp hpaths p
  · intro n
    have hzero : unbacked n b'.memory = 0 := by
      refine unbacked_zero.mpr fun t ht hp => ?_
      obtain ⟨r, -, rfl⟩ := hticket t ht
      cases hp
    rw [hzero, hr.written, hr.next]
    exact (Nat.le_add_right _ _).trans (h.once n)
  · intro r hmem
    rw [hr.written]
    exact h.logged r (hr.disk.mem_iff.mp hmem)

/-! ## What soundness is for -/

/-- **A record stays** until a ticket that names it is settled. -/
theorem Move.kept (h : Move S b b') (hr : r ∈ b.disk)
    (hS : ∀ t, S t → t.path ≠ some r.path) : r ∈ b'.disk := by
  cases h with
  | shuffle => exact hr
  | accept => exact hr
  | back => exact List.mem_append_left _ hr
  | settle hm hs => exact mem_others.mpr ⟨hr, hS _ hs⟩

theorem Moves.kept (h : Moves S b b') (hr : r ∈ b.disk)
    (hS : ∀ t, S t → t.path ≠ some r.path) : r ∈ b'.disk := by
  induction h with
  | refl => exact hr
  | tail _ h ih => exact h.kept ih hS

/-- `r` has been written, and no other record has its number. -/
structure Only (r : Record P B) (b : Book P B) : Prop where
  written : r.number ∈ b.written
  copies : ∀ r' ∈ b.disk, r'.number = r.number → r' = r

theorem Sound.only (h : Sound b) {r : Record P B} (hr : r ∈ b.disk) : Only r b :=
  ⟨h.logged r hr, fun _ hr' he => h.unique_number hr' hr he⟩

theorem Only.move (h : Only r b) (hs : Sound b) (hm : Move S b b') : Only r b' := by
  cases hm with
  | shuffle => exact ⟨h.written, h.copies⟩
  | accept => exact ⟨h.written, h.copies⟩
  | @back rest path body n hmem fresh =>
    refine ⟨List.mem_append_left _ h.written, fun r' hr' he => ?_⟩
    rcases List.mem_append.mp hr' with hr' | hr'
    · exact h.copies r' hr' he
    · -- the number that is written now has not been written before
      rw [List.mem_singleton.mp hr'] at he
      have hn : n = r.number := he
      have hself : (⟨none, body, some n⟩ : Ticket P B) ∈ b.memory := hmem ▸ Multiset.mem_cons_self _ rest
      exact absurd (hn ▸ h.written) (hs.not_written hself rfl rfl)
  | settle => exact ⟨h.written, fun r' hr' he => h.copies r' (mem_others.mp hr').1 he⟩

/-- **No second copy** is ever written of a record. -/
theorem Only.moves (h : Only r b) (hs : Sound b) (hm : Moves S b b') : Only r b' := by
  have hboth : Sound b' ∧ Only r b' := by
    induction hm with
    | refl => exact ⟨hs, h⟩
    | tail _ hm ih => exact ⟨ih.1.move hm, ih.2.move ih.1 hm⟩
  exact hboth.2

omit [DecidableEq P] in
theorem Only.restart (h : Only r b) (hr : Restart b b') : Only r b' :=
  ⟨hr.written ▸ h.written, fun r' hr' he => h.copies r' (hr.disk.mem_iff.mp hr') he⟩

/-! ## A number that is settled -/

/-- The number has been given out, and nothing holds it any more. -/
structure Gone (n : Nat) (b : Book P B) : Prop where
  given : n < b.next
  memory : ∀ t ∈ b.memory, t.number ≠ some n
  disk : ∀ r ∈ b.disk, r.number ≠ n

variable {n : Nat}

/-- **What is gone does not come back**, by any move. -/
theorem Gone.move (h : Gone n b) (hm : Move S b b') : Gone n b' := by
  cases hm with
  | shuffle kept extra hk hx hmem =>
    subst hmem
    refine ⟨h.given, fun t ht => ?_, h.disk⟩
    rcases Multiset.mem_add.mp ht with ht | ht
    · exact h.memory t (Multiset.mem_of_le hk ht)
    · rw [(hx t ht).2]
      exact (Option.some_ne_none n).symm
  | accept body =>
    refine ⟨Nat.lt_succ_of_lt h.given, fun t ht => ?_, h.disk⟩
    rcases Multiset.mem_cons.mp ht with rfl | ht
    · -- the number that is given out now is another one
      exact fun he => Nat.ne_of_gt h.given (Option.some.inj he)
    · exact h.memory t ht
  | @back rest path body k hmem fresh =>
    have hk : k ≠ n := fun he =>
      h.memory _ (hmem ▸ Multiset.mem_cons_self _ rest) (congrArg some he)
    refine ⟨h.given, fun t ht => ?_, fun r hr => ?_⟩
    · rcases Multiset.mem_cons.mp ht with rfl | ht
      · exact fun he => hk (Option.some.inj he)
      · exact h.memory t (hmem ▸ Multiset.mem_cons_of_mem ht)
    · rcases List.mem_append.mp hr with hr | hr
      · exact h.disk r hr
      · rw [List.mem_singleton.mp hr]
        exact hk
  | @settle rest t hmem hs =>
    refine ⟨h.given, fun t' ht' => h.memory t' (hmem ▸ Multiset.mem_cons_of_mem ht'), fun r hr => ?_⟩
    exact h.disk r (mem_others.mp hr).1

theorem Gone.moves (h : Gone n b) (hm : Moves S b b') : Gone n b' := by
  induction hm with
  | refl => exact h
  | tail _ hm ih => exact ih.move hm

omit [DecidableEq P] in
/-- Nor by a restart: what is read back was on disk. -/
theorem Gone.restart (h : Gone n b) (hr : Restart b b') : Gone n b' := by
  have hdisk : ∀ r ∈ b'.disk, r.number ≠ n := fun r hmem => h.disk r (hr.disk.mem_iff.mp hmem)
  refine ⟨hr.next ▸ h.given, fun t ht => ?_, hdisk⟩
  obtain ⟨r, hmem, rfl⟩ := List.mem_map.mp (Multiset.mem_coe.mp (Multiset.mem_of_le hr.memory ht))
  exact fun he => hdisk r hmem (Option.some.inj he)

/-- A number in memory has been given out. -/
theorem Sound.given (h : Sound b) {t : Ticket P B} (ht : t ∈ b.memory) (hn : t.number = some n) :
    n < b.next := by
  have hone := h.once n
  have hsome : 1 ≤ b.written.count n + unbacked n b.memory := by
    cases hp : t.path with
    | none =>
      have hpos : unbacked n b.memory ≠ 0 := fun hzero => unbacked_zero.mp hzero t ht hp hn
      omega
    | some p =>
      obtain ⟨k, hk, hd⟩ := h.backed t ht p hp
      obtain rfl : n = k := Option.some.inj (hn.symm.trans hk)
      have hpos : 1 ≤ b.written.count n := List.one_le_count_iff.mpr (h.logged _ hd)
      omega
  by_contra hlt
  rw [if_neg hlt] at hone
  omega

/-- **A number has one ticket.** -/
theorem Sound.only_ticket (h : Sound b) {rest : Multiset (Ticket P B)} {t : Ticket P B}
    (hm : b.memory = t ::ₘ rest) (hn : t.number = some n) : ∀ t' ∈ rest, t'.number ≠ some n := by
  intro t' ht' hn'
  have ht : t ∈ b.memory := hm ▸ Multiset.mem_cons_self t rest
  have hmem' : t' ∈ b.memory := hm ▸ Multiset.mem_cons_of_mem ht'
  by_cases hw : n ∈ b.written
  · -- both name the record of the number
    obtain ⟨p, hp⟩ := Option.ne_none_iff_exists'.mp (h.names_record ht hn hw)
    obtain ⟨p', hp'⟩ := Option.ne_none_iff_exists'.mp (h.names_record hmem' hn' hw)
    obtain ⟨k, hk, hd⟩ := h.backed t ht p hp
    obtain ⟨k', hk', hd'⟩ := h.backed t' hmem' p' hp'
    obtain rfl : n = k := Option.some.inj (hn.symm.trans hk)
    obtain rfl : n = k' := Option.some.inj (hn'.symm.trans hk')
    have hsame : p = p' := congrArg Record.path (h.unique_number hd hd' rfl)
    exact h.only_owner hm hp t' ht' (hsame ▸ hp')
  · -- neither has been written, and only one may wait
    have hunbacked : ∀ u ∈ b.memory, u.number = some n → u.path = none := by
      intro u hu hun
      cases hp : u.path with
      | none => rfl
      | some p =>
        obtain ⟨k, hk, hd⟩ := h.backed u hu p hp
        obtain rfl : n = k := Option.some.inj (hun.symm.trans hk)
        exact absurd (h.logged _ hd) hw
    have hone := h.once n
    rw [hm, unbacked_cons, if_pos ⟨hunbacked t ht hn, hn⟩] at hone
    have hpos : unbacked n rest ≠ 0 := fun hzero =>
      unbacked_zero.mp hzero t' ht' (hunbacked t' hmem' hn') hn'
    split at hone <;> omega

/-- **Once its ticket is settled, nothing holds a number.** -/
theorem Sound.settled_gone (h : Sound b) {rest : Multiset (Ticket P B)} {t : Ticket P B}
    (hm : b.memory = t ::ₘ rest) (hn : t.number = some n) :
    Gone n { b with memory := rest, disk := others t b.disk } := by
  have ht : t ∈ b.memory := hm ▸ Multiset.mem_cons_self t rest
  refine ⟨h.given ht hn, h.only_ticket hm hn, fun r hr he => ?_⟩
  obtain ⟨hr, hpath⟩ := mem_others.mp hr
  obtain ⟨p, hp⟩ := Option.ne_none_iff_exists'.mp (h.names_record ht hn (he ▸ h.logged r hr))
  obtain ⟨k, hk, hd⟩ := h.backed t ht p hp
  obtain rfl : n = k := Option.some.inj (hn.symm.trans hk)
  have hsame : r.path = p := congrArg Record.path (h.unique_number hr hd he)
  exact hpath (hsame ▸ hp)

end Moves

end Tombstone.Ledger
