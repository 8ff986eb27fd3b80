import Mathlib.Data.List.Forall2
import Mathlib.Data.List.TakeWhile
import Tombstone.Json

/- Reading back what was written.

   A number that is followed by no further byte of a number is read whole (`number_append`),
   an escaped string up to its closing quote (`chars_quoted`), and items up to their closing
   byte (`list_texts`). So the reader gets back every value from its compact text
   (`parse_render`), and the text is UTF-8 (`render_valid`). -/
namespace Tombstone.Json

/-- The bytes of numbers. -/
def isNumberByte (c : UInt8) : Bool :=
  isDigit c || c == ch '-' || c == ch '+' || c == ch '.' || c == ch 'e' || c == ch 'E'

/-- No number goes on in this text. -/
def Stops (rest : Bytes) : Prop := ∀ c ∈ rest.head?, isNumberByte c = false

theorem Stops.nil : Stops [] := by
  intro c hc
  cases hc

theorem stops_cons {c : UInt8} {cs : Bytes} (h : isNumberByte c = false) : Stops (c :: cs) := by
  intro d hd
  rw [List.head?_cons, Option.mem_some_iff] at hd
  exact hd ▸ h

/-! ## Numbers -/

section Numbers

variable {bs x y rest : Bytes}

theorem isNumberByte_of_isDigit {c : UInt8} (h : isDigit c = true) : isNumberByte c = true := by
  simp [isNumberByte, h]

theorem takeWhile_append_stop {p : UInt8 → Bool} (hrest : ∀ c ∈ rest.head?, p c = false) (bs : Bytes) :
    (bs ++ rest).takeWhile p = bs.takeWhile p ∧ (bs ++ rest).dropWhile p = bs.dropWhile p ++ rest := by
  induction bs with
  | nil =>
    cases rest with
    | nil => exact ⟨rfl, rfl⟩
    | cons c cs =>
      have hc : p c = false := hrest c rfl
      simp [hc]
  | cons b bs ih =>
    cases hb : p b with
    | true => simp [hb, ih]
    | false => simp [hb]

theorem digits_append (hrest : Stops rest) (h : digits bs = some (x, y)) :
    digits (bs ++ rest) = some (x, y ++ rest) ∧ ∀ b ∈ x, isNumberByte b = true := by
  have hstop : ∀ c ∈ rest.head?, isDigit c = false := by
    intro c hc
    by_contra hdigit
    have := hrest c hc
    rw [isNumberByte_of_isDigit (by simpa using hdigit)] at this
    cases this
  obtain ⟨htake, hdrop⟩ := takeWhile_append_stop hstop bs
  unfold digits at h ⊢
  rw [htake, hdrop]
  split at h
  · cases h
  · rename_i hne
    obtain ⟨rfl, rfl⟩ := Prod.mk.inj (Option.some.inj h)
    refine ⟨if_neg hne, fun b hb => isNumberByte_of_isDigit ?_⟩
    exact List.all_eq_true.1 List.all_takeWhile b hb

theorem intPart_append (hrest : Stops rest) (h : intPart bs = some (x, y)) :
    intPart (bs ++ rest) = some (x, y ++ rest) ∧ ∀ b ∈ x, isNumberByte b = true := by
  unfold intPart at h
  split at h
  · rename_i hzero
    obtain ⟨rfl, rfl⟩ := Prod.mk.inj (Option.some.inj h)
    obtain ⟨cs, rfl⟩ := List.head?_eq_some_iff.1 hzero
    refine ⟨rfl, fun b hb => ?_⟩
    rw [List.mem_singleton.1 hb]
    rfl
  · rename_i hother
    obtain ⟨happend, hbytes⟩ := digits_append hrest h
    refine ⟨?_, hbytes⟩
    cases bs with
    | nil => cases h
    | cons b bs => exact (if_neg hother).trans happend

theorem fracPart_append (hrest : Stops rest) (h : fracPart bs = some (x, y)) :
    fracPart (bs ++ rest) = some (x, y ++ rest) ∧ ∀ b ∈ x, isNumberByte b = true := by
  cases bs with
  | nil =>
    obtain ⟨rfl, rfl⟩ := Prod.mk.inj (Option.some.inj h)
    refine ⟨?_, fun b hb => absurd hb List.not_mem_nil⟩
    -- what follows starts no fraction
    cases rest with
    | nil => rfl
    | cons c cs =>
      have hc : c ≠ ch '.' := by
        rintro rfl
        cases hrest _ rfl
      exact if_neg hc
  | cons c cs =>
    rw [fracPart] at h
    rw [List.cons_append, fracPart]
    split at h
    · rename_i hdot
      obtain ⟨⟨ds, more⟩, hdigits, heq⟩ := Option.map_eq_some_iff.1 h
      obtain ⟨rfl, rfl⟩ := Prod.mk.inj heq
      obtain ⟨happend, hbytes⟩ := digits_append hrest hdigits
      rw [if_pos hdot, happend]
      refine ⟨rfl, List.forall_mem_cons.2 ⟨?_, hbytes⟩⟩
      rw [hdot]
      rfl
    · rename_i hother
      obtain ⟨rfl, rfl⟩ := Prod.mk.inj (Option.some.inj h)
      exact ⟨if_neg hother, fun b hb => absurd hb List.not_mem_nil⟩

/-- A sign before further bytes. -/
theorem optionalByte_append {p : UInt8 → Bool} (hp : ∀ c, p c = true → isNumberByte c = true)
    (hne : bs ≠ []) (rest : Bytes) : optionalByte p (bs ++ rest) = ((optionalByte p bs).1, (optionalByte p bs).2 ++ rest)
      ∧ ∀ b ∈ (optionalByte p bs).1, isNumberByte b = true := by
  obtain ⟨c, cs, rfl⟩ := List.exists_cons_of_ne_nil hne
  rw [List.cons_append, optionalByte, optionalByte]
  split
  · rename_i hc
    refine ⟨rfl, fun b hb => ?_⟩
    rw [List.mem_singleton.1 hb]
    exact hp c hc
  · exact ⟨rfl, fun b hb => absurd hb List.not_mem_nil⟩

theorem expPart_append (hrest : Stops rest) (h : expPart bs = some (x, y)) :
    expPart (bs ++ rest) = some (x, y ++ rest) ∧ ∀ b ∈ x, isNumberByte b = true := by
  cases bs with
  | nil =>
    obtain ⟨rfl, rfl⟩ := Prod.mk.inj (Option.some.inj h)
    refine ⟨?_, fun b hb => absurd hb List.not_mem_nil⟩
    cases rest with
    | nil => rfl
    | cons c cs =>
      have hc : ¬ (c = ch 'e' ∨ c = ch 'E') := by
        rintro (rfl | rfl)
        · cases hrest _ rfl
        · cases hrest _ rfl
      exact if_neg hc
  | cons c cs =>
    rw [expPart] at h
    rw [List.cons_append, expPart]
    split at h
    · rename_i hexp
      obtain ⟨⟨ds, more⟩, hdigits, heq⟩ := Option.map_eq_some_iff.1 h
      obtain ⟨rfl, rfl⟩ := Prod.mk.inj heq
      -- there are digits, so a sign is not the last byte
      have hne : cs ≠ [] := by
        rintro rfl
        cases hdigits
      have hsign : ∀ d : UInt8, (d == ch '+' || d == ch '-') = true → isNumberByte d = true := by
        intro d hd
        rcases Bool.or_eq_true_iff.1 hd with hd | hd
        · rw [eq_of_beq hd]
          rfl
        · rw [eq_of_beq hd]
          rfl
      obtain ⟨hoptional, hsigned⟩ := optionalByte_append hsign hne rest
      obtain ⟨happend, hbytes⟩ := digits_append hrest hdigits
      rw [if_pos hexp, hoptional]
      dsimp only
      rw [happend]
      refine ⟨rfl, ?_⟩
      rw [List.cons_append]
      refine List.forall_mem_cons.2 ⟨?_, List.forall_mem_append.2 ⟨hsigned, hbytes⟩⟩
      rcases hexp with rfl | rfl
      · rfl
      · rfl
    · rename_i hother
      obtain ⟨rfl, rfl⟩ := Prod.mk.inj (Option.some.inj h)
      exact ⟨if_neg hother, fun b hb => absurd hb List.not_mem_nil⟩

/-- **A number is read whole**, whatever follows it that is no part of a number. -/
theorem number_append (hrest : Stops rest) (h : number bs = some (x, y)) :
    number (bs ++ rest) = some (x, y ++ rest) ∧ ∀ b ∈ x, isNumberByte b = true := by
  have hne : bs ≠ [] := by
    rintro rfl
    cases h
  have hminus : ∀ d : UInt8, (d == ch '-') = true → isNumberByte d = true := by
    intro d hd
    rw [eq_of_beq hd]
    rfl
  obtain ⟨hsign, hsignBytes⟩ := optionalByte_append hminus hne rest
  unfold number at h ⊢
  dsimp only at h ⊢
  rw [hsign]
  obtain ⟨⟨i, ri⟩, hint, h⟩ := Option.bind_eq_some_iff.1 h
  obtain ⟨⟨f, rf⟩, hfrac, h⟩ := Option.bind_eq_some_iff.1 h
  obtain ⟨⟨ex, re⟩, hexp, heq⟩ := Option.map_eq_some_iff.1 h
  obtain ⟨rfl, rfl⟩ := Prod.mk.inj heq
  obtain ⟨hint, hintBytes⟩ := intPart_append hrest hint
  obtain ⟨hfrac, hfracBytes⟩ := fracPart_append hrest hfrac
  obtain ⟨hexp, hexpBytes⟩ := expPart_append hrest hexp
  dsimp only at hfrac hexp ⊢
  rw [hint, Option.bind_some, hfrac, Option.bind_some, hexp, Option.map_some]
  refine ⟨rfl, ?_⟩
  simp only [List.forall_mem_append]
  exact ⟨⟨⟨hsignBytes, hintBytes⟩, hfracBytes⟩, hexpBytes⟩

theorem IsNumber.append {literal : Bytes} (h : IsNumber literal) (hrest : Stops rest) :
    number (literal ++ rest) = some (literal, rest) := (number_append hrest h).1

theorem IsNumber.bytes {literal : Bytes} (h : IsNumber literal) :
    ∀ b ∈ literal, isNumberByte b = true := (number_append Stops.nil h).2

theorem IsNumber.ne_nil {literal : Bytes} (h : IsNumber literal) : literal ≠ [] := by
  rintro rfl
  cases h

end Numbers

/-! ## Strings -/

variable {e : Escaping}

theorem head?_of_char {bs : Bytes} {r : Bytes × Bytes} (h : char bs = some r) :
    bs.head? ≠ some (ch '"') := by
  intro hquote
  obtain ⟨cs, rfl⟩ := List.head?_eq_some_iff.1 hquote
  have hnone : char (ch '"' :: cs) = none := by simp [char]
  rw [hnone] at h
  cases h

theorem Escaping.byte_ne_nil (e : Escaping) (c : UInt8) : e.byte c ≠ [] := by
  intro hnil
  have hreads := e.reads c []
  rw [hnil] at hreads
  cases hreads

theorem Escaping.length_le (e : Escaping) (text : Bytes) :
    text.length ≤ (text.flatMap e.byte).length := by
  induction text with
  | nil => exact Nat.le_refl _
  | cons c cs ih =>
    have hc := List.length_pos_iff.2 (e.byte_ne_nil c)
    rw [List.flatMap_cons, List.length_append, List.length_cons]
    omega

/-- **An escaped string reads back**, up to its closing quote. -/
theorem chars_escaped (text rest : Bytes) {fuel : Nat} (hfuel : text.length < fuel) :
    chars fuel (text.flatMap e.byte ++ ch '"' :: rest) = some (text, rest) := by
  induction text generalizing fuel with
  | nil =>
    obtain ⟨fuel, rfl⟩ := Nat.exists_eq_add_one.2 hfuel
    exact if_pos rfl
  | cons c cs ih =>
    obtain ⟨fuel, rfl⟩ := Nat.exists_eq_add_one.2 (Nat.zero_lt_of_lt hfuel)
    have hread := e.reads c (cs.flatMap e.byte ++ ch '"' :: rest)
    have hrest := ih (Nat.lt_of_succ_lt_succ hfuel)
    rw [List.flatMap_cons, List.append_assoc, chars, if_neg (head?_of_char hread), hread,
      Option.bind_some, hrest]
    rfl

/-- What is read behind the opening quote. -/
theorem chars_quoted (text rest : Bytes) :
    ∃ cs, quoted e text ++ rest = ch '"' :: cs ∧ chars cs.length cs = some (text, rest) := by
  refine ⟨text.flatMap e.byte ++ ch '"' :: rest, by simp [quoted], chars_escaped text rest ?_⟩
  have hlength := e.length_le text
  rw [List.length_append, List.length_cons]
  omega

/-! ## Items -/

section Items

variable {β : Type} {p : Bytes → Option (β × Bytes)} {close : UInt8} {text : β → Bytes} {xs : List β}

theorem skipWs_cons {c : UInt8} (h : isWs c = false) (cs : Bytes) : skipWs (c :: cs) = c :: cs := by
  simp [skipWs, h]

theorem skipWs_append {bs cs : Bytes} {c : UInt8} (h : skipWs bs = c :: cs) (rest : Bytes) :
    skipWs (bs ++ rest) = c :: (cs ++ rest) := by
  induction bs with
  | nil => cases h
  | cons b bs ih =>
    rw [skipWs, List.dropWhile_cons] at h
    rw [List.cons_append, skipWs, List.dropWhile_cons]
    split at h
    · rename_i hb
      rw [if_pos hb]
      exact ih h
    · rename_i hb
      obtain ⟨rfl, rfl⟩ := List.cons.inj h
      exact if_neg hb

/-- Blanks are passed over. -/
theorem skipWs_blanks {blanks : Bytes} (h : skipWs blanks = []) (rest : Bytes) :
    skipWs (blanks ++ rest) = skipWs rest :=
  List.dropWhile_append_of_pos (List.dropWhile_eq_nil_iff.1 h)

theorem commas_cons {t : Bytes} {ts : List Bytes} (h : ts ≠ []) :
    commas (t :: ts) = t ++ ch ',' :: commas ts := by
  cases ts with
  | nil => exact absurd rfl h
  | cons t' ts => rfl

/-- A further text at the end. -/
theorem commas_concat (ts : List Bytes) (t : Bytes) :
    commas (ts ++ [t]) = commas ts ++ (if ts = [] then [] else [ch ',']) ++ t := by
  induction ts with
  | nil => rfl
  | cons t' ts ih =>
    rw [List.cons_append, commas_cons (by simp), ih]
    cases ts with
    | nil => simp [commas]
    | cons t'' ts => simp [commas]

theorem length_le_commas {t : Bytes} {ts : List Bytes} (h : t ∈ ts) : t.length ≤ (commas ts).length := by
  induction ts with
  | nil => cases h
  | cons t' ts ih =>
    cases ts with
    | nil => exact List.mem_singleton.1 h ▸ Nat.le_refl _
    | cons t'' ts =>
      rw [commas_cons (List.cons_ne_nil _ _), List.length_append, List.length_cons]
      rcases List.mem_cons.1 h with rfl | h
      · omega
      · have := ih h
        omega

theorem count_le_commas (ts : List Bytes) : ts.length ≤ (commas ts).length + 1 := by
  induction ts with
  | nil => exact Nat.zero_le _
  | cons t ts ih =>
    cases ts with
    | nil => exact Nat.le_add_left _ _
    | cons t' ts =>
      rw [commas_cons (List.cons_ne_nil _ _)]
      simp only [List.length_append, List.length_cons] at ih ⊢
      omega

/-- A closing bracket or brace. -/
def Closes (c : UInt8) : Prop := c = ch ']' ∨ c = ch '\x7d'

theorem Closes.facts (h : Closes close) :
    isWs close = false ∧ isNumberByte close = false ∧ ch ',' ≠ close := by
  rcases h with rfl | rfl
  · decide
  · decide

/-- `p` reads this text as `x`, and leaves blanks. -/
def ReadsAs (p : Bytes → Option (β × Bytes)) (t : Bytes) (x : β) : Prop :=
  ∀ rest, Stops rest → ∃ blanks, skipWs blanks = [] ∧ p (t ++ rest) = some (x, blanks ++ rest)

theorem ReadsAs.of_read {t : Bytes} {x : β} (h : ∀ rest, Stops rest → p (t ++ rest) = some (x, rest)) :
    ReadsAs p t x := fun rest hrest => ⟨[], rfl, h rest hrest⟩

theorem items_texts (hclose : Closes close) {ts : List Bytes} (hp : List.Forall₂ (ReadsAs p) ts xs) (hne : xs ≠ [])
    (rest : Bytes) {fuel : Nat} (hfuel : xs.length ≤ fuel) :
    items p close fuel (commas ts ++ close :: rest) = some (xs, rest) := by
  obtain ⟨hws, hstop, hcomma⟩ := hclose.facts
  induction hp generalizing fuel with
  | nil => exact absurd rfl hne
  | @cons t x ts xs hx hp ih =>
    obtain ⟨fuel, rfl⟩ := Nat.exists_eq_add_one.2 (Nat.lt_of_lt_of_le (Nat.succ_pos _) hfuel)
    rw [items]
    cases hp with
    | nil =>
      obtain ⟨blanks, hblanks, hlast⟩ := hx (close :: rest) (stops_cons hstop)
      rw [commas, hlast, Option.bind_some, skipWs_blanks hblanks, skipWs_cons hws]
      exact if_pos rfl
    | @cons t' y ts ys hy hys =>
      obtain ⟨blanks, hblanks, hfirst⟩ := hx (ch ',' :: (commas (t' :: ts) ++ close :: rest)) (stops_cons rfl)
      have hrest := ih (List.cons_ne_nil _ _) (Nat.le_of_succ_le_succ hfuel)
      rw [commas_cons (List.cons_ne_nil _ _), List.append_assoc, List.cons_append, hfirst, Option.bind_some,
        skipWs_blanks hblanks, skipWs_cons rfl]
      dsimp only
      rw [if_neg hcomma, if_pos rfl, hrest]
      rfl

/-- **Items read back**, up to their closing byte, whatever blanks are behind them. -/
theorem list_texts (hclose : Closes close) {ts : List Bytes} (hp : List.Forall₂ (ReadsAs p) ts xs)
    (hhead : ∀ t ∈ ts, ∃ c cs, skipWs t = c :: cs ∧ c ≠ close) (rest : Bytes) :
    list p close (commas ts ++ close :: rest) = some (xs, rest) := by
  obtain ⟨hws, -⟩ := hclose.facts
  rw [list]
  cases hp with
  | nil =>
    rw [commas, List.nil_append, skipWs_cons hws]
    exact if_pos rfl
  | @cons t x ts xs hx hp =>
    obtain ⟨c, cs, ht, hc⟩ := hhead t List.mem_cons_self
    have hfuel : (x :: xs).length ≤ (commas (t :: ts) ++ close :: rest).length := by
      have hcount := count_le_commas (t :: ts)
      have hsame := hp.length_eq
      rw [List.length_append, List.length_cons (a := close)]
      simp only [List.length_cons] at hcount ⊢
      omega
    have hitems := items_texts hclose (.cons hx hp) (List.cons_ne_nil _ _) rest hfuel
    -- the first item does not start with the closing byte
    have hstarts : ∃ more, skipWs (commas (t :: ts) ++ close :: rest) = c :: more := by
      cases ts with
      | nil => exact ⟨_, skipWs_append ht _⟩
      | cons t' ts =>
        rw [commas_cons (List.cons_ne_nil _ _), List.append_assoc]
        exact ⟨_, skipWs_append ht _⟩
    obtain ⟨more, hmore⟩ := hstarts
    rw [hmore]
    dsimp only
    rw [if_neg hc]
    exact hitems

/-- Items without blanks. -/
theorem list_commas (hclose : Closes close)
    (hp : ∀ x ∈ xs, ∀ rest, Stops rest → p (text x ++ rest) = some (x, rest))
    (hhead : ∀ x ∈ xs, ∃ c cs, text x = c :: cs ∧ isWs c = false ∧ c ≠ close) (rest : Bytes) :
    list p close (commas (xs.map text) ++ close :: rest) = some (xs, rest) := by
  have hall : List.Forall₂ (ReadsAs p) (xs.map text) xs :=
    List.forall₂_map_left_iff.2 (List.forall₂_same.2 fun x hx => .of_read (hp x hx))
  refine list_texts hclose hall (fun t ht => ?_) rest
  obtain ⟨x, hx, rfl⟩ := List.mem_map.1 ht
  obtain ⟨c, cs, htext, hws, hc⟩ := hhead x hx
  exact ⟨c, cs, htext ▸ skipWs_cons hws cs, hc⟩

end Items

/-! ## Values -/

/-- The values whose numbers are numbers; their strings may be any bytes. -/
inductive Numeric : Json → Prop
  | null : Numeric null
  | bool (b : Bool) : Numeric (bool b)
  | num {literal : Bytes} : IsNumber literal → Numeric (num literal)
  | str (text : Bytes) : Numeric (str text)
  | arr {elements : List Json} : (∀ j ∈ elements, Numeric j) → Numeric (arr elements)
  | obj {members : List (Bytes × Json)} : (∀ m ∈ members, Numeric m.2) → Numeric (obj members)

theorem Wf.numeric {j : Json} (h : Wf j) : Numeric j := by
  induction h with
  | null => exact .null
  | bool b => exact .bool b
  | num hnum => exact .num hnum
  | str _ => exact .str _
  | arr _ ih => exact .arr ih
  | obj _ _ ih => exact .obj ih

theorem word_append {w : Bytes} {j : Json} (rest : Bytes) : word w j (w ++ rest) = some (j, rest) := by
  rw [word, if_pos (List.isPrefixOf_iff_prefix.2 (List.prefix_append w rest)), List.drop_left]

/-- What a number starts with tells it from the other values. -/
theorem numberByte_facts : ∀ c, isNumberByte c = true →
    (isWs c = false ∧ c ≠ ch ']' ∧ c ≠ ch '\x7d') ∧ (c ≠ ch '"' ∧ c ≠ ch '\x7b' ∧ c ≠ ch '[') ∧
      (c ≠ ch 't' ∧ c ≠ ch 'f' ∧ c ≠ ch 'n') ∧ c < 0x80 := by
  apply forall_byte
  decide +kernel

/-- What a value starts with is no blank, and nothing that closes a list. -/
theorem render_head {j : Json} (h : Numeric j) :
    ∃ c cs, render e j = c :: cs ∧ isWs c = false ∧ c ≠ ch ']' ∧ c ≠ ch '\x7d' := by
  cases h with
  | null =>
    rw [render]
    exact ⟨_, _, rfl, by decide⟩
  | bool b =>
    rw [render]
    cases b with
    | true => exact ⟨_, _, rfl, by decide⟩
    | false => exact ⟨_, _, rfl, by decide⟩
  | @num literal hnum =>
    obtain ⟨c, cs, rfl⟩ := List.exists_cons_of_ne_nil hnum.ne_nil
    rw [render]
    exact ⟨c, cs, rfl, (numberByte_facts c (hnum.bytes c List.mem_cons_self)).1⟩
  | str | arr | obj =>
    rw [render]
    exact ⟨_, _, rfl, by decide⟩

theorem render_arr_append (elements : List Json) (rest : Bytes) :
    render e (arr elements) ++ rest
      = ch '[' :: (commas (elements.map (render e)) ++ ch ']' :: rest) := by
  simp [render]

theorem render_obj_append (members : List (Bytes × Json)) (rest : Bytes) :
    render e (obj members) ++ rest = ch '\x7b' ::
      (commas (members.map fun m => memberText e m.1 (render e m.2)) ++ ch '\x7d' :: rest) := by
  simp [render]

/-- A member reads back where its value does. -/
theorem member_memberText {p : Bytes → Option (Json × Bytes)} {name text rest left : Bytes} {j : Json}
    (h : p (text ++ rest) = some (j, left)) :
    member p (memberText e name text ++ rest) = some ((name, j), left) := by
  obtain ⟨cs, hcs, hname⟩ := chars_quoted (e := e) name (ch ':' :: text ++ rest)
  have htext : memberText e name text ++ rest = ch '"' :: cs := by
    rw [← hcs, memberText, List.append_assoc]
  rw [htext, member, skipWs_cons rfl]
  dsimp only
  rw [if_neg (not_not_intro rfl), hname, Option.bind_some, List.cons_append, skipWs_cons rfl]
  dsimp only
  rw [if_pos rfl, h]
  rfl

/-- **Every value reads back** from its text, to any depth from the length of the text on. -/
theorem value_render {n : Nat} {j : Json} (hj : Numeric j) (hn : (render e j).length ≤ n) {rest : Bytes}
    (hrest : Stops rest) : value n (render e j ++ rest) = some (j, rest) := by
  induction n generalizing j rest with
  | zero =>
    obtain ⟨c, cs, hc, -⟩ := render_head (e := e) hj
    rw [hc] at hn
    cases hn
  | succ n ih =>
    cases hj with
    | null =>
      rw [render]
      exact word_append (w := lit "null") rest
    | bool b =>
      rw [render]
      cases b with
      | true => exact word_append (w := lit "true") rest
      | false => exact word_append (w := lit "false") rest
    | @num literal hnum =>
      obtain ⟨c, cs, rfl⟩ := List.exists_cons_of_ne_nil hnum.ne_nil
      obtain ⟨⟨hws, -⟩, ⟨hquote, hbrace, hbracket⟩, ⟨ht, hf, hnull⟩, -⟩ :=
        numberByte_facts c (hnum.bytes c List.mem_cons_self)
      have hread := hnum.append hrest
      rw [render, value]
      rw [List.cons_append] at hread ⊢
      rw [skipWs_cons hws]
      dsimp only
      rw [if_neg hquote, if_neg hbrace, if_neg hbracket, if_neg ht, if_neg hf, if_neg hnull, hread]
      rfl
    | str text =>
      obtain ⟨cs, hcs, hread⟩ := chars_quoted (e := e) text rest
      rw [render, hcs, value, skipWs_cons rfl]
      dsimp only
      rw [if_pos rfl, hread]
      rfl
    | @arr elements helements =>
      rw [← List.append_nil (render e _), render_arr_append] at hn
      -- every element is shorter than the array, so the depth is enough for it
      have hitems : list (value n) (ch ']') (commas (elements.map (render e)) ++ ch ']' :: rest)
          = some (elements, rest) := by
        apply list_commas (.inl rfl)
        · intro x hx rest' hrest'
          refine ih (helements x hx) ?_ hrest'
          have hle := length_le_commas (List.mem_map_of_mem (f := render e) hx)
          simp only [List.length_append, List.length_cons] at hn
          omega
        · intro x hx
          obtain ⟨c, cs, hc, hws, hbracket, -⟩ := render_head (e := e) (helements x hx)
          exact ⟨c, cs, hc, hws, hbracket⟩
      rw [render_arr_append, value, skipWs_cons rfl]
      dsimp only
      rw [if_neg (by decide), if_neg (by decide), if_pos rfl, hitems]
      rfl
    | @obj members hvalues =>
      rw [← List.append_nil (render e _), render_obj_append] at hn
      have hitems : list (member (value n)) (ch '\x7d')
          (commas (members.map fun m => memberText e m.1 (render e m.2)) ++ ch '\x7d' :: rest)
          = some (members, rest) := by
        apply list_commas (.inr rfl)
        · intro m hm rest' hrest'
          refine member_memberText (ih (hvalues m hm) ?_ hrest')
          have hle := length_le_commas
            (List.mem_map_of_mem (f := fun m => memberText e m.1 (render e m.2)) hm)
          simp only [List.length_append, List.length_cons, memberText] at hn hle
          omega
        · intro m hm
          exact ⟨_, _, rfl, by decide⟩
      rw [render_obj_append, value, skipWs_cons rfl]
      dsimp only
      rw [if_neg (by decide), if_pos rfl, hitems]
      rfl

/-- **The reader gets back every value** from its compact text. -/
theorem parse_render {j : Json} (hj : Numeric j) : parse (render e j) = some j := by
  have hread := value_render (e := e) hj (Nat.le_refl _) Stops.nil
  rw [List.append_nil] at hread
  rw [parse, hread, Option.bind_some]
  exact if_pos rfl

example : (parse (lit "[1, -2.5e3, true]")).isSome = true := by decide
example : (parse (lit "[1,]")).isSome = false := by decide
example : (parse (lit "[01]")).isSome = false := by decide

/-! ## UTF-8 -/

theorem Escaping.valid {text : Bytes} (h : Utf8.Valid text) : Utf8.Valid (text.flatMap e.byte) := by
  obtain ⟨cs, rfl⟩ := h
  induction cs with
  | nil => exact Utf8.Valid.nil
  | cons c cs ih =>
    rw [Utf8.encode_cons, List.flatMap_append]
    refine Utf8.Valid.append ?_ ih
    obtain ⟨b, tail, hc, hlen, -, htail⟩ := Utf8.encodeChar_shape c
    rcases Nat.lt_or_ge b.toNat 128 with hb | hb
    · -- a character of one byte
      have hnil : tail = [] := List.eq_nil_of_length_eq_zero (hlen.trans (if_pos hb))
      rw [hc, hnil, List.flatMap_singleton]
      exact Utf8.valid_of_ascii ((e.ascii b).1 hb)
    · have hsame : ∀ x ∈ b :: tail, e.byte x = [x] := by
        intro x hx
        rcases List.mem_cons.1 hx with rfl | hx
        · exact (e.ascii x).2 hb
        · exact (e.ascii x).2 (htail x hx).1
      rw [hc, List.flatMap_congr hsame, List.flatMap_singleton', ← hc]
      exact ⟨[c], (List.append_nil _).symm⟩

theorem quoted_valid {text : Bytes} (h : Utf8.Valid text) : Utf8.Valid (quoted e text) := by
  have hquote : Utf8.Valid [ch '"'] := Utf8.valid_literal rfl
  exact (hquote.append (Escaping.valid h)).append hquote

theorem commas_valid {ts : List Bytes} (h : ∀ t ∈ ts, Utf8.Valid t) : Utf8.Valid (commas ts) := by
  induction ts with
  | nil => exact Utf8.Valid.nil
  | cons t ts ih =>
    cases ts with
    | nil => exact h t List.mem_cons_self
    | cons t' ts =>
      have hcomma : Utf8.Valid [ch ','] := Utf8.valid_literal rfl
      have hrest := ih fun x hx => h x (List.mem_cons_of_mem t hx)
      exact (h t List.mem_cons_self).append (hcomma.append hrest)

theorem enclosed_valid {opening closing : UInt8} (hopening : opening < 0x80) (hclosing : closing < 0x80)
    {ts : List Bytes} (h : ∀ t ∈ ts, Utf8.Valid t) : Utf8.Valid (opening :: commas ts ++ [closing]) := by
  have hbyte : ∀ {c : UInt8}, c < 0x80 → Utf8.Valid [c] := fun hc =>
    Utf8.valid_of_ascii fun b hb => List.mem_singleton.1 hb ▸ hc
  exact ((hbyte hopening).append (commas_valid h)).append (hbyte hclosing)

/-- **The text of a value is UTF-8.** -/
theorem render_valid {j : Json} (hj : Wf j) : Utf8.Valid (render e j) := by
  induction hj with
  | null =>
    rw [render]
    exact Utf8.valid_literal rfl
  | bool b =>
    rw [render]
    cases b with
    | true | false => exact Utf8.valid_literal rfl
  | num hnum =>
    rw [render]
    exact Utf8.valid_of_ascii fun b hb => (numberByte_facts b (hnum.bytes b hb)).2.2.2
  | str htext =>
    rw [render]
    exact quoted_valid htext
  | @arr elements _ ih =>
    rw [render]
    refine enclosed_valid (by decide) (by decide) fun t ht => ?_
    obtain ⟨j, hj, rfl⟩ := List.mem_map.1 ht
    exact ih j hj
  | @obj members hnames _ ih =>
    have hcolon : Utf8.Valid [ch ':'] := Utf8.valid_literal rfl
    rw [render]
    refine enclosed_valid (by decide) (by decide) fun t ht => ?_
    obtain ⟨m, hm, rfl⟩ := List.mem_map.1 ht
    exact (quoted_valid (hnames m hm)).append (hcolon.append (ih m hm))

end Tombstone.Json
