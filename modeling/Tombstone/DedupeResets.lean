import Tombstone.DedupeHistory

/- How often a signature is reported within one window. A check that finds the table full
   empties it, and a signature it held may be reported again before its window is over. One
   such reset costs a signature one early report, and two of them within a window cost it two:
   that is exactly when a signature is reported more than twice. -/
namespace Tombstone.DedupeCheck

variable {a b c r : DedupeCheck} {w : DedupeWindow} {key : Bytes} {since : Int}
  {mid rest : List DedupeCheck}

theorem allowed_iff (c : DedupeCheck) : c.allowed = true ↔ ∀ entry, ¬ c.HeldBy entry := by
  cases c.moves with
  | suppressed entry held decided _ =>
    rw [allowed, decided]
    exact ⟨fun h => absurd h Bool.false_ne_true, fun h => (h entry held).elim⟩
  | reported free decided _ =>
    rw [allowed, decided]
    exact ⟨fun _ => free, fun _ => rfl⟩

theorem allowed_of_untracked (h : c.signature ∉ c.table.recent.map Prod.fst) :
    c.allowed = true :=
  c.allowed_iff.mpr fun _ held => h (List.mem_map_of_mem held.1)

theorem Follows.window : ∀ (front : List DedupeCheck) {w : DedupeWindow},
    Follows w (front ++ c :: rest) → c.table.window = w.window
  | [], _, h => by rw [h.1]
  | d :: front, _, h => by
    rw [Follows.window front h.2, after_window d, h.1]

/-! ## Between two resets -/

/-- The table knows of a report of `key` at `since` or later. -/
def TrackedSince (w : DedupeWindow) (key : Bytes) (since : Int) : Prop :=
  ∃ entry, (key, entry) ∈ w.recent ∧ since ≤ entry.lastSent

theorem TrackedSince.reported (h : c.allowed = true) : TrackedSince c.after c.signature c.now := by
  cases c.moves with
  | suppressed entry held _ _ => exact (c.allowed_iff.mp h entry held).elim
  | reported _ _ tracks => exact ⟨⟨c.now, 0⟩, (tracks _ _).mpr (.inl ⟨rfl, rfl⟩), Int.le_refl _⟩

theorem TrackedSince.step (h : TrackedSince c.table key since) (hreset : ¬ c.Resets)
    (hnow : since ≤ c.now) : TrackedSince c.after key since := by
  obtain ⟨entry, hmem, hsince⟩ := h
  cases c.moves with
  | suppressed held hheld _ tracks =>
    by_cases hkey : key = c.signature
    · have hentry : held = entry := by
        have hlookup := DedupeWindow.lookup_iff.mpr hheld.1
        rwa [← hkey, DedupeWindow.lookup_iff.mpr hmem, Option.some.injEq, eq_comm] at hlookup
      exact ⟨_, (tracks _ _).mpr (.inl ⟨hkey, rfl⟩), hentry ▸ hsince⟩
    · exact ⟨entry, (tracks _ _).mpr (.inr ⟨hkey, hmem⟩), hsince⟩
  | reported _ _ tracks =>
    by_cases hkey : key = c.signature
    · exact ⟨_, (tracks _ _).mpr (.inl ⟨hkey, rfl⟩), hnow⟩
    · exact ⟨entry, (tracks _ _).mpr (.inr ⟨hkey, hreset, hmem⟩), hsince⟩

theorem TrackedSince.run : ∀ {mid : List DedupeCheck} {w : DedupeWindow},
    TrackedSince w key since → Follows w (mid ++ c :: rest) → (∀ m ∈ mid, ¬ m.Resets) →
      (∀ m ∈ mid, since ≤ m.now) → TrackedSince c.table key since
  | [], w, h, hrun, _, _ => by
    have htable : c.table = w := hrun.1
    exact htable ▸ h
  | m :: mid, w, h, hrun, hreset, hnow => by
    have htable : m.table = w := hrun.1
    have hm : m ∈ m :: mid := List.mem_cons_self
    exact ((htable ▸ h : TrackedSince m.table key since).step (hreset m hm) (hnow m hm)).run hrun.2
      (fun n hn => hreset n (List.mem_cons_of_mem m hn))
      (fun n hn => hnow n (List.mem_cons_of_mem m hn))

/-- Two reports of a signature within a window have a reset between them. -/
theorem reset_between (hrun : Follows w (a :: (mid ++ b :: rest))) (ha : a.allowed = true)
    (hb : b.allowed = true) (hsame : b.signature = a.signature)
    (hwindow : b.now - a.now < w.window) (hnow : ∀ m ∈ mid, a.now ≤ m.now) :
    ∃ m ∈ mid, m.Resets := by
  by_contra hnone
  obtain ⟨entry, hmem, hsince⟩ := (TrackedSince.reported ha).run hrun.2
    (fun m hm hreset => hnone ⟨m, hm, hreset⟩) hnow
  have hwin : b.table.window = w.window := Follows.window (a :: mid) hrun
  apply b.allowed_iff.mp hb entry
  rw [HeldBy, hsame, hwin]
  exact ⟨hmem, by omega⟩

/-- After a reset, the next check of a signature is a report. -/
theorem first_allowed : ∀ {mid : List DedupeCheck} {w : DedupeWindow},
    Follows w (mid ++ b :: rest) → b.signature ∉ w.recent.map Prod.fst →
      ∃ m ∈ mid ++ [b], m.signature = b.signature ∧ m.allowed = true
  | [], w, hrun, h => by
    have htable : b.table = w := hrun.1
    exact ⟨b, by simp, rfl, allowed_of_untracked (htable ▸ h)⟩
  | m :: mid, w, hrun, h => by
    have htable : m.table = w := hrun.1
    by_cases hsame : m.signature = b.signature
    · exact ⟨m, by simp, hsame, allowed_of_untracked (htable ▸ hsame ▸ h)⟩
    · have hnext : b.signature ∉ m.after.recent.map Prod.fst := by
        intro hmem
        obtain ⟨⟨key, entry⟩, he, hkey⟩ := List.mem_map.mp hmem
        have hmoves : key = m.signature ∨ (key, entry) ∈ m.table.recent := by
          cases m.moves with
          | suppressed _ _ _ tracks => exact ((tracks _ _).mp he).imp And.left And.right
          | reported _ _ tracks => exact ((tracks _ _).mp he).imp And.left fun h => h.2.2
        rcases hmoves with heq | hold
        · exact hsame (heq.symm.trans hkey)
        · exact h (htable ▸ hkey ▸ List.mem_map_of_mem hold)
      obtain ⟨n, hn, hfirst⟩ := first_allowed hrun.2 hnext
      exact ⟨n, List.mem_cons_of_mem m hn, hfirst⟩

theorem allowed_after_reset (hrun : Follows w (mid ++ b :: rest)) (hreset : ∃ m ∈ mid, m.Resets) :
    ∃ m ∈ mid ++ [b], m.signature = b.signature ∧ m.allowed = true := by
  obtain ⟨r, hr, hreset⟩ := hreset
  obtain ⟨front, back, rfl⟩ := List.append_of_mem hr
  rw [List.append_assoc, List.cons_append] at hrun
  by_cases hsame : r.signature = b.signature
  · exact ⟨r, by simp, hsame, allowed_of_untracked hreset.1⟩
  · have hnext : b.signature ∉ r.after.recent.map Prod.fst := by
      intro hmem
      obtain ⟨⟨key, entry⟩, he, hkey⟩ := List.mem_map.mp hmem
      cases r.moves with
      | suppressed _ held _ _ => exact hreset.1 (List.mem_map_of_mem held.1)
      | reported _ _ tracks =>
        rcases (tracks _ _).mp he with ⟨heq, -⟩ | ⟨-, hkept, -⟩
        · exact hsame (heq.symm.trans hkey)
        · exact hkept hreset
    obtain ⟨m, hm, hfirst⟩ := first_allowed hrun.append.2 hnext
    refine ⟨m, ?_, hfirst⟩
    rw [List.append_assoc]
    exact List.mem_append_right front (List.mem_cons_of_mem r hm)

/-! ## The documented bound -/

/-- A report of `signature` within the span. -/
def reportedIn (signature : Bytes) (first last : Int) (c : DedupeCheck) : Bool :=
  decide (c.signature = signature ∧ first ≤ c.now ∧ c.now ≤ last) && c.allowed

/-- Within any span shorter than the window, every signature is reported at most twice. -/
def BoundsRepeats (window : Int) (checks : List DedupeCheck) : Prop :=
  ∀ signature first last, last - first < window →
    checks.countP (reportedIn signature first last) ≤ 2

/-- A signature that is not held back is checked, and checked twice more within less than a
window, the table being reset before each of the two. -/
def ResetsTwice (window : Int) (checks : List DedupeCheck) : Prop :=
  ∃ front a mid b mid' c back, checks = front ++ a :: (mid ++ b :: (mid' ++ c :: back)) ∧
    b.signature = a.signature ∧ c.signature = a.signature ∧ c.now - a.now < window ∧
    (∀ entry, ¬ a.HeldBy entry) ∧ (∃ r ∈ mid, r.Resets) ∧ ∃ r ∈ mid', r.Resets

/-- Three of a list's elements, in order. -/
theorem three_of_countP {α : Type} {p : α → Bool} {l : List α} (h : 2 < l.countP p) :
    ∃ front a mid b mid' c back, l = front ++ a :: (mid ++ b :: (mid' ++ c :: back)) ∧
      p a = true ∧ p b = true ∧ p c = true := by
  rw [List.countP_eq_length_filter] at h
  obtain ⟨a, b, c, more, hfilter⟩ : ∃ a b c more, l.filter p = a :: b :: c :: more := by
    match hl : l.filter p, h with
    | a :: b :: c :: more, _ => exact ⟨a, b, c, more, rfl⟩
  obtain ⟨front, back₁, rfl, -, ha, hrest⟩ := List.filter_eq_cons_iff.mp hfilter
  obtain ⟨mid, back₂, rfl, -, hb, hrest⟩ := List.filter_eq_cons_iff.mp hrest
  obtain ⟨mid', back, rfl, -, hc, -⟩ := List.filter_eq_cons_iff.mp hrest
  exact ⟨front, a, mid, b, mid', c, back, rfl, ha, hb, hc⟩

theorem resetsTwice_of_three {window : Int} {checks : List DedupeCheck}
    (hrun : Follows w checks) (hwindow : w.window = window)
    (htimes : checks.Pairwise fun c d => c.now ≤ d.now) {signature : Bytes} {first last : Int}
    (hspan : last - first < window) (h : 2 < checks.countP (reportedIn signature first last)) :
    ResetsTwice window checks := by
  obtain ⟨front, a, mid, b, mid', c, back, rfl, ha, hb, hc⟩ := three_of_countP h
  simp only [reportedIn, Bool.and_eq_true, decide_eq_true_eq] at ha hb hc
  obtain ⟨⟨rfl, hafirst, -⟩, ha⟩ := ha
  obtain ⟨⟨hbsame, hbfirst, hblast⟩, hb⟩ := hb
  obtain ⟨⟨hcsame, -, hclast⟩, hc⟩ := hc
  have hrunb : Follows a.table (a :: (mid ++ b :: (mid' ++ c :: back))) :=
    ⟨rfl, hrun.append.2⟩
  have hrunc : Follows b.table (b :: (mid' ++ c :: back)) := ⟨rfl, hrunb.2.append.2⟩
  have hwina : a.table.window = window := (Follows.window front hrun).trans hwindow
  have hwinb : b.table.window = window := (Follows.window (a :: mid) hrunb).trans hwina
  obtain ⟨hordera, htail⟩ := List.pairwise_cons.mp (List.pairwise_append.mp htimes).2.1
  have horderb := (List.pairwise_cons.mp (List.pairwise_append.mp htail).2.1).1
  refine ⟨front, a, mid, b, mid', c, back, rfl, hbsame, hcsame, by omega, a.allowed_iff.mp ha,
    reset_between hrunb ha hb hbsame (by omega) fun m hm =>
      hordera m (by simp [hm]),
    reset_between hrunc hb hc (hcsame.trans hbsame.symm) (by omega) fun m hm =>
      horderb m (by simp [hm])⟩

/-- What stands between two checks is no earlier and no later. -/
theorem between_times {front between back : List DedupeCheck}
    (htimes : (front ++ a :: (between ++ c :: back)).Pairwise fun c d => c.now ≤ d.now) :
    ∀ m ∈ between ++ [c], a.now ≤ m.now ∧ m.now ≤ c.now := by
  obtain ⟨ha, hrest⟩ := List.pairwise_cons.mp (List.pairwise_append.mp htimes).2.1
  intro m hm
  refine ⟨ha m (by simpa using Or.imp_right Or.inl (by simpa using hm)), ?_⟩
  rcases List.mem_append.mp hm with hbetween | hlast
  · exact (List.pairwise_append.mp hrest).2.2 m hbetween c List.mem_cons_self
  · exact List.mem_singleton.mp hlast ▸ Int.le_refl _

theorem three_of_resetsTwice {window : Int} {checks : List DedupeCheck} (hrun : Follows w checks)
    (htimes : checks.Pairwise fun c d => c.now ≤ d.now) (h : ResetsTwice window checks) :
    ∃ signature first last, last - first < window ∧
      2 < checks.countP (reportedIn signature first last) := by
  obtain ⟨front, a, mid, b, mid', c, back, rfl, hb, hc, hspan, hfree, hmid, hmid'⟩ := h
  have hspans : ∀ m ∈ (mid ++ b :: mid') ++ [c], a.now ≤ m.now ∧ m.now ≤ c.now :=
    between_times (by simpa using htimes)
  have ha : reportedIn a.signature a.now c.now a = true := by
    have hlast := hspans b (by simp)
    rw [reportedIn, Bool.and_eq_true, decide_eq_true_eq]
    exact ⟨⟨rfl, Int.le_refl _, by omega⟩, a.allowed_iff.mpr hfree⟩
  have hfrom : ∀ m ∈ mid ++ b :: mid' ++ [c], m.signature = a.signature → m.allowed = true →
      reportedIn a.signature a.now c.now m = true := by
    intro m hm hsame hallowed
    rw [reportedIn, Bool.and_eq_true, decide_eq_true_eq]
    exact ⟨⟨hsame, hspans m hm⟩, hallowed⟩
  obtain ⟨m, hm, hsame, hallowed⟩ := allowed_after_reset hrun.append.2 hmid
  obtain ⟨n, hn, hsame', hallowed'⟩ := allowed_after_reset hrun.append.2.append.2 hmid'
  have hm' := hfrom m (by simp at hm ⊢; tauto) (hsame.trans hb) hallowed
  have hn' := hfrom n (by simp at hn ⊢; tauto) (hsame'.trans hc) hallowed'
  have hfirst : 0 < (mid ++ [b]).countP (reportedIn a.signature a.now c.now) :=
    List.countP_pos_iff.mpr ⟨m, hm, hm'⟩
  have hsecond : 0 < (mid' ++ [c]).countP (reportedIn a.signature a.now c.now) :=
    List.countP_pos_iff.mpr ⟨n, hn, hn'⟩
  refine ⟨a.signature, a.now, c.now, hspan, ?_⟩
  have hparts : front ++ a :: (mid ++ b :: (mid' ++ c :: back)) =
      front ++ ([a] ++ ((mid ++ [b]) ++ ((mid' ++ [c]) ++ back))) := by simp
  rw [hparts]
  simp only [List.countP_append] at hfirst hsecond ⊢
  rw [List.countP_singleton, if_pos ha]
  omega

/-- **Two resets within a window are the only way to a third report**: in a run of checks at
non-decreasing times, every signature is reported at most twice in any span shorter than the
window just when no signature is let through, reset, checked, reset and checked in such a span. -/
theorem boundsRepeats_iff (window : Int) (calls : List (Bytes × Int))
    (h : (calls.map Prod.snd).Pairwise (· ≤ ·)) :
    BoundsRepeats window ((DedupeWindow.fresh window).trail calls) ↔
      ¬ ResetsTwice window ((DedupeWindow.fresh window).trail calls) := by
  have hrun := DedupeWindow.follows_trail calls (.fresh window)
  have htimes := DedupeWindow.trail_times calls (.fresh window) h
  constructor
  · intro hbounds htwice
    obtain ⟨signature, first, last, hspan, hthree⟩ := three_of_resetsTwice hrun htimes htwice
    have htwo := hbounds signature first last hspan
    omega
  · intro hnone signature first last hspan
    by_contra hthree
    exact hnone (resetsTwice_of_three hrun rfl htimes hspan (Nat.not_le.mp hthree))

/-- The calls of a host with more signatures than the table tracks, one after the other, three
times around. -/
def crowd : List (Bytes × Int) :=
  let around := (List.range 64).map fun n => ([UInt8.ofNat n], (0 : Int))
  ([255], 0) :: around ++ ([255], 0) :: around ++ [([255], 0)]

theorem boundsRepeats_pair :
    BoundsRepeats 60 ((DedupeWindow.fresh 60).trail [([1], 0), ([1], 59)]) := by
  rw [boundsRepeats_iff 60 _ (by decide)]
  rintro ⟨front, a, mid, b, mid', c, back, hchecks, -⟩
  have hlength := congrArg List.length hchecks
  simp [DedupeWindow.trail] at hlength
  omega

/-- **A third report within no time at all.** -/
theorem crowd_exceeds :
    (crowd.map Prod.snd).Pairwise (· ≤ ·) ∧
      ¬ BoundsRepeats 60000000000 ((DedupeWindow.fresh 60000000000).trail crowd) := by
  have htimes : crowd.map Prod.snd = List.replicate 131 0 := by decide
  refine ⟨by rw [htimes]; exact List.pairwise_replicate.mpr (.inr (Int.le_refl 0)), fun h => ?_⟩
  have htwo := h [255] 0 0 (by decide)
  revert htwo
  decide +kernel

end Tombstone.DedupeCheck
