import Mathlib.Data.List.TakeWhile
import Tombstone.JsonRoundTrip

/- Reading a text that goes on.

   What the reader takes from the front of a text it also takes when the text goes on, unless it goes
   on with a byte of a number (`Extends`): string by string, item by item and value by value, at any
   greater depth (`value_extends`). So a text that somebody else wrote, with its blanks, is read as
   its value wherever it stands (`Decodes.reads`). -/
namespace Tombstone.Json

/-- What `p` reads from the front of a text, `q` reads when the text goes on. -/
def Extends {β : Type} (p q : Bytes → Option (β × Bytes)) : Prop :=
  ∀ bs x left rest, Stops rest → p bs = some (x, left) → q (bs ++ rest) = some (x, left ++ rest)

/-! ## Strings -/

section Strings

variable {bs left : Bytes} (rest : Bytes)

theorem codeUnit_append {n : Nat} (h : codeUnit bs = some (n, left)) :
    codeUnit (bs ++ rest) = some (n, left ++ rest) := by
  match bs with
  | [] | [_] | [_, _] | [_, _, _] => cases h
  | a :: b :: c :: d :: more =>
    simp only [List.cons_append]
    rw [codeUnit] at h ⊢
    split at h
    · obtain ⟨rfl, rfl⟩ := Prod.mk.inj (Option.some.inj h)
      rfl
    · cases h

theorem lowSurrogate_append {n : Nat} (h : lowSurrogate bs = some (n, left)) :
    lowSurrogate (bs ++ rest) = some (n, left ++ rest) := by
  match bs with
  | [] | [_] => cases h
  | b :: u :: more =>
    simp only [List.cons_append]
    rw [lowSurrogate] at h ⊢
    split at h
    · rename_i hescape
      obtain ⟨hunit, hlow⟩ := Option.filter_eq_some_iff.1 h
      rw [if_pos hescape, codeUnit_append rest hunit]
      exact Option.filter_eq_some_iff.2 ⟨rfl, hlow⟩
    · cases h

theorem unicodeEscape_append {text : Bytes} (h : unicodeEscape bs = some (text, left)) :
    unicodeEscape (bs ++ rest) = some (text, left ++ rest) := by
  obtain ⟨⟨n, more⟩, hunit, h⟩ := Option.bind_eq_some_iff.1 h
  rw [unicodeEscape, codeUnit_append rest hunit, Option.bind_some]
  dsimp only at h ⊢
  split at h
  · rename_i hscalar
    obtain ⟨rfl, rfl⟩ := Prod.mk.inj (Option.some.inj h)
    rw [if_pos hscalar]
  · rename_i hscalar
    split at h
    · rename_i hhigh
      obtain ⟨⟨low, more'⟩, hlow, heq⟩ := Option.map_eq_some_iff.1 h
      obtain ⟨rfl, rfl⟩ := Prod.mk.inj heq
      rw [if_neg hscalar, if_pos hhigh, lowSurrogate_append rest hlow, Option.map_some]
    · cases h

theorem char_append {text : Bytes} (h : char bs = some (text, left)) :
    char (bs ++ rest) = some (text, left ++ rest) := by
  match bs with
  | [] => cases h
  | c :: cs =>
    rw [List.cons_append]
    unfold char at h ⊢
    dsimp only at h ⊢
    split at h
    · cases h
    · rename_i hinside
      rw [if_neg hinside]
      split at h
      · rename_i hplain
        obtain ⟨rfl, rfl⟩ := Prod.mk.inj (Option.some.inj h)
        rw [if_pos hplain]
      · rename_i hescape
        rw [if_neg hescape]
        match cs with
        | [] => cases h
        | e :: es =>
          rw [List.cons_append]
          dsimp only at h ⊢
          split at h
          · rename_i hunit
            rw [if_pos hunit]
            exact unicodeEscape_append rest h
          · rename_i hshort
            obtain ⟨b, hb, heq⟩ := Option.map_eq_some_iff.1 h
            obtain ⟨rfl, rfl⟩ := Prod.mk.inj heq
            rw [if_neg hshort, hb, Option.map_some]

/-- **A string** is read up to its closing quote. -/
theorem chars_append {n m : Nat} (hn : n ≤ m) {text : Bytes} (h : chars n bs = some (text, left)) :
    chars m (bs ++ rest) = some (text, left ++ rest) := by
  induction n generalizing m bs text with
  | zero => cases h
  | succ n ih =>
    obtain ⟨k, rfl⟩ := Nat.exists_eq_add_of_lt hn
    rw [chars] at h ⊢
    split at h
    · rename_i hquote
      obtain ⟨cs, rfl⟩ := List.head?_eq_some_iff.1 hquote
      obtain ⟨rfl, rfl⟩ := Prod.mk.inj (Option.some.inj h)
      rfl
    · obtain ⟨⟨front, more⟩, hchar, h⟩ := Option.bind_eq_some_iff.1 h
      obtain ⟨⟨back, more'⟩, hmore, heq⟩ := Option.map_eq_some_iff.1 h
      obtain ⟨rfl, rfl⟩ := Prod.mk.inj heq
      have happend := char_append rest hchar
      rw [if_neg (head?_of_char happend), happend, Option.bind_some,
        ih (Nat.le_add_right n k) hmore, Option.map_some]

end Strings

/-! ## Items -/

section Items

variable {β : Type} {p q : Bytes → Option (β × Bytes)} {close : UInt8}

theorem items_extends (hpq : Extends p q) {n m : Nat} (hn : n ≤ m) :
    Extends (items p close n) (items q close m) := by
  intro bs xs left rest hrest h
  induction n generalizing m bs xs with
  | zero => cases h
  | succ n ih =>
    obtain ⟨k, rfl⟩ := Nat.exists_eq_add_of_lt hn
    rw [items] at h ⊢
    -- the item, and then the byte that follows it: either is read as it was
    obtain ⟨⟨x, more⟩, hx, h⟩ := Option.bind_eq_some_iff.1 h
    rw [hpq bs x more rest hrest hx, Option.bind_some]
    dsimp only at h ⊢
    cases hskip : skipWs more with
    | nil =>
      rw [hskip] at h
      cases h
    | cons c cs =>
      rw [hskip] at h
      rw [skipWs_append hskip]
      dsimp only at h ⊢
      split at h
      · rename_i hclose
        obtain ⟨rfl, rfl⟩ := Prod.mk.inj (Option.some.inj h)
        rw [if_pos hclose]
      · rename_i hclose
        split at h
        · rename_i hcomma
          obtain ⟨⟨ys, left'⟩, hys, heq⟩ := Option.map_eq_some_iff.1 h
          obtain ⟨rfl, rfl⟩ := Prod.mk.inj heq
          rw [if_neg hclose, if_pos hcomma, ih (Nat.le_add_right n k) cs ys hys, Option.map_some]
        · cases h

theorem list_extends (hpq : Extends p q) : Extends (list p close) (list q close) := by
  intro bs xs left rest hrest h
  rw [list] at h ⊢
  cases hskip : skipWs bs with
  | nil =>
    rw [hskip] at h
    cases h
  | cons c cs =>
    rw [hskip] at h
    rw [skipWs_append hskip]
    dsimp only at h ⊢
    split at h
    · rename_i hclose
      obtain ⟨rfl, rfl⟩ := Prod.mk.inj (Option.some.inj h)
      rw [if_pos hclose]
    · rename_i hclose
      -- a longer text gives the loop more fuel
      have hlength : bs.length ≤ (bs ++ rest).length := by simp
      rw [if_neg hclose]
      exact items_extends hpq hlength bs xs left rest hrest h

end Items

/-! ## Values -/

theorem member_extends {p q : Bytes → Option (Json × Bytes)} (hpq : Extends p q) :
    Extends (member p) (member q) := by
  intro bs x left rest hrest h
  rw [member] at h ⊢
  cases hskip : skipWs bs with
  | nil =>
    rw [hskip] at h
    cases h
  | cons c cs =>
    rw [hskip] at h
    rw [skipWs_append hskip]
    dsimp only at h ⊢
    split at h
    · cases h
    · rename_i hquote
      obtain ⟨⟨name, more⟩, hname, h⟩ := Option.bind_eq_some_iff.1 h
      have hlength : cs.length ≤ (cs ++ rest).length := by simp
      rw [if_neg hquote, chars_append rest hlength hname, Option.bind_some]
      dsimp only at h ⊢
      cases hcolon : skipWs more with
      | nil =>
        rw [hcolon] at h
        cases h
      | cons d ds =>
        rw [hcolon] at h
        rw [skipWs_append hcolon]
        dsimp only at h ⊢
        split at h
        · rename_i hd
          obtain ⟨⟨j, left'⟩, hj, heq⟩ := Option.map_eq_some_iff.1 h
          obtain ⟨rfl, rfl⟩ := Prod.mk.inj heq
          rw [if_pos hd, hpq ds j left' rest hrest hj, Option.map_some]
        · cases h

theorem word_extends (w : Bytes) (j : Json) : Extends (word w j) (word w j) := by
  intro bs x left rest _ h
  rw [word] at h
  split at h
  · rename_i hfront
    obtain ⟨rfl, rfl⟩ := Prod.mk.inj (Option.some.inj h)
    obtain ⟨more, rfl⟩ := List.isPrefixOf_iff_prefix.1 hfront
    rw [List.append_assoc, word_append, List.drop_left]
  · cases h

/-- **A value** is read as it is when the text goes on, and to any greater depth. -/
theorem value_extends {n m : Nat} (hn : n ≤ m) : Extends (value n) (value m) := by
  induction n generalizing m with
  | zero =>
    intro bs x left rest _ h
    cases h
  | succ n ih =>
    obtain ⟨k, rfl⟩ := Nat.exists_eq_add_of_lt hn
    have hdeeper := ih (Nat.le_add_right n k)
    -- each kind of value is told by its first byte, which is there already
    have hmap : ∀ {β : Type} {p q : Bytes → Option (β × Bytes)}, Extends p q → ∀ f : β → Json,
        Extends (fun bs => (p bs).map fun r => (f r.1, r.2)) (fun bs => (q bs).map fun r => (f r.1, r.2)) := by
      intro β p q hpq f bs x left rest hrest h
      obtain ⟨⟨y, left'⟩, hy, heq⟩ := Option.map_eq_some_iff.1 h
      obtain ⟨rfl, rfl⟩ := Prod.mk.inj heq
      dsimp only
      rw [hpq bs y left' rest hrest hy, Option.map_some]
    intro bs x left rest hrest h
    rw [value] at h ⊢
    cases hskip : skipWs bs with
    | nil =>
      rw [hskip] at h
      cases h
    | cons c cs =>
      rw [hskip] at h
      rw [skipWs_append hskip]
      dsimp only at h ⊢
      split at h
      · rename_i hstring
        obtain ⟨⟨text, left'⟩, htext, heq⟩ := Option.map_eq_some_iff.1 h
        obtain ⟨rfl, rfl⟩ := Prod.mk.inj heq
        have hlength : cs.length ≤ (cs ++ rest).length := by simp
        rw [if_pos hstring, chars_append rest hlength htext, Option.map_some]
      · rename_i hstring
        rw [if_neg hstring]
        split at h
        · rename_i hobject
          rw [if_pos hobject]
          exact hmap (list_extends (member_extends hdeeper)) .obj cs x left rest hrest h
        · rename_i hobject
          rw [if_neg hobject]
          split at h
          · rename_i harray
            rw [if_pos harray]
            exact hmap (list_extends hdeeper) .arr cs x left rest hrest h
          · rename_i harray
            rw [if_neg harray]
            split at h
            · rename_i ht
              rw [if_pos ht]
              exact word_extends _ _ (c :: cs) x left rest hrest h
            · rename_i ht
              rw [if_neg ht]
              split at h
              · rename_i hf
                rw [if_pos hf]
                exact word_extends _ _ (c :: cs) x left rest hrest h
              · rename_i hf
                rw [if_neg hf]
                split at h
                · rename_i hnull
                  rw [if_pos hnull]
                  exact word_extends _ _ (c :: cs) x left rest hrest h
                · rename_i hnull
                  have hnumber : Extends number number := fun _ _ _ _ hstop hread => (number_append hstop hread).1
                  rw [if_neg hnull]
                  exact hmap hnumber .num (c :: cs) x left rest hrest h

/-- What a value starts with does not close a list. -/
theorem value_head {n : Nat} {bs : Bytes} {r : Json × Bytes} (h : value n bs = some r) :
    ∃ c cs, skipWs bs = c :: cs ∧ c ≠ ch ']' ∧ c ≠ ch '\x7d' := by
  cases n with
  | zero => cases h
  | succ n =>
    rw [value] at h
    cases hskip : skipWs bs with
    | nil =>
      rw [hskip] at h
      cases h
    | cons c cs =>
      rw [hskip] at h
      refine ⟨c, cs, rfl, ?_, ?_⟩
      · rintro rfl
        cases h
      · rintro rfl
        cases h

section Texts

variable {text : Bytes} {j : Json}

theorem Decodes.head (h : Decodes text j) :
    ∃ c cs, skipWs text = c :: cs ∧ c ≠ ch ']' ∧ c ≠ ch '\x7d' := by
  obtain ⟨r, hr, -⟩ := Option.bind_eq_some_iff.1 h.parses
  exact value_head hr

/-- **A text is read as what it stands for** wherever it stands, up to the blanks at its end. -/
theorem Decodes.reads (h : Decodes text j) {n : Nat} (hn : text.length ≤ n) : ReadsAs (value n) text j := by
  obtain ⟨⟨j', blanks⟩, hread, hall⟩ := Option.bind_eq_some_iff.1 h.parses
  obtain ⟨hblanks, hj⟩ := Option.ite_none_right_eq_some.1 hall
  intro rest hrest
  refine ⟨blanks, hblanks, ?_⟩
  rw [← Option.some.inj hj]
  exact value_extends hn text j' blanks rest hrest hread

/-- A text that is read as a value stands for it. -/
theorem ReadsAs.decodes (h : ReadsAs (value text.length) text j) (hvalid : Utf8.Valid text) : Decodes text j := by
  obtain ⟨blanks, hblanks, hread⟩ := h [] Stops.nil
  rw [List.append_nil, List.append_nil] at hread
  refine ⟨hvalid, ?_⟩
  rw [parse, hread, Option.bind_some]
  exact if_pos hblanks

end Texts

end Tombstone.Json
