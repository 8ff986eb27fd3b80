import Tombstone.BodySearch
import Tombstone.JsonRoundTrip

/- JSON texts as a server may write them, and what a search for a key does in one.

   White space may stand around every token, and a string is spelled by some body between its
   quotes: `spell` says by which one, so that the strings of a value can stand for bodies
   (`spell = id`) as well as for texts that are escaped in one way (`Laid`). The search looks
   at spellings only. It gets past a text in which no name is spelled so that it ends in the
   quoted key (`Laid.passes`), and stops at the value of the first member, at any depth, whose
   name is (`Laid.finds`). -/
namespace Tombstone.JsonText
open JsonScan StringTokens

/-! ## Texts -/

def Space (s : Bytes) : Prop := ∀ c ∈ s, isSpace c = true

instance (s : Bytes) : Decidable (Space s) :=
  decidable_of_iff (s.all isSpace = true) List.all_eq_true

/-- `t`, with white space around it. -/
def Padded (t p : Bytes) : Prop := ∃ s s', Space s ∧ Space s' ∧ p = s ++ t ++ s'

/-- A value, or what stands between the brackets of one that has elements or members. -/
inductive Part
  | value (j : Json)
  | elements (js : List Json)
  | members (ms : List (Bytes × Json))

/-- The texts of a value whose strings are spelled by `spell`. -/
inductive Laid (spell : Bytes → Bytes) : Part → Bytes → Prop
  | null : Laid spell (.value .null) (lit "null")
  | bool (b : Bool) : Laid spell (.value (.bool b)) (if b then lit "true" else lit "false")
  | num {literal : Bytes} : Json.IsNumber literal → Laid spell (.value (.num literal)) literal
  | str {text : Bytes} : Body (spell text) → Laid spell (.value (.str text)) (quoted (spell text))
  | emptyArr {s : Bytes} : Space s → Laid spell (.value (.arr [])) (ch '[' :: s ++ [ch ']'])
  | arr {js : List Json} {t : Bytes} :
      Laid spell (.elements js) t → Laid spell (.value (.arr js)) (ch '[' :: t ++ [ch ']'])
  | emptyObj {s : Bytes} : Space s → Laid spell (.value (.obj [])) (ch '\x7b' :: s ++ [ch '\x7d'])
  | obj {ms : List (Bytes × Json)} {t : Bytes} :
      Laid spell (.members ms) t → Laid spell (.value (.obj ms)) (ch '\x7b' :: t ++ [ch '\x7d'])
  | element {j : Json} {t p : Bytes} :
      Laid spell (.value j) t → Padded t p → Laid spell (.elements [j]) p
  | elements {j : Json} {js : List Json} {t p ts : Bytes} : Laid spell (.value j) t → Padded t p →
      Laid spell (.elements js) ts → Laid spell (.elements (j :: js)) (p ++ ch ',' :: ts)
  | member {name : Bytes} {j : Json} {n t p : Bytes} : Body (spell name) →
      Padded (quoted (spell name)) n → Laid spell (.value j) t → Padded t p →
      Laid spell (.members [(name, j)]) (n ++ ch ':' :: p)
  | members {name : Bytes} {j : Json} {ms : List (Bytes × Json)} {n t p ts : Bytes} :
      Body (spell name) → Padded (quoted (spell name)) n → Laid spell (.value j) t → Padded t p →
      Laid spell (.members ms) ts →
      Laid spell (.members ((name, j) :: ms)) (n ++ ch ':' :: (p ++ ch ',' :: ts))

mutual

/-- All members in a value, at any depth, in their order. -/
def allMembers : Json → List (Bytes × Json)
  | .arr js => elementMembers js
  | .obj ms => memberMembers ms
  | _ => []

def elementMembers : List Json → List (Bytes × Json)
  | [] => []
  | j :: js => allMembers j ++ elementMembers js

def memberMembers : List (Bytes × Json) → List (Bytes × Json)
  | [] => []
  | (name, j) :: ms => (name, j) :: (allMembers j ++ memberMembers ms)

end

def Part.all : Part → List (Bytes × Json)
  | .value j => allMembers j
  | .elements js => elementMembers js
  | .members ms => memberMembers ms

example : allMembers (.arr [.obj [(lit "a", .null)]]) = [(lit "a", .null)] := rfl

/-! ## What stands behind a value -/

/-- White space, and then what closes the value or separates it from the next. -/
def ValueEnds (rest : Bytes) : Prop :=
  ∀ c ∈ (skipSpace rest).head?, c = ch ',' ∨ c = ch '\x7d' ∨ c = ch ']'

variable {spell : Bytes → Bytes} {key name body rest s t p n : Bytes} {part : Part} {v : Json}

theorem skipSpace_space (hs : Space s) : skipSpace (s ++ rest) = skipSpace rest :=
  List.dropWhile_append_of_pos hs

theorem skipSpace_self {c : UInt8} (hc : isSpace c = false) : skipSpace (c :: rest) = c :: rest :=
  List.dropWhile_cons_of_neg (by rw [hc]; decide)

theorem not_quote_of_space (hs : Space s) : ch '"' ∉ s := by
  intro hquote
  exact absurd (hs _ hquote) (by decide)

theorem ValueEnds.nil : ValueEnds [] := nofun

theorem ValueEnds.space (h : ValueEnds rest) (hs : Space s) : ValueEnds (s ++ rest) := by
  rw [ValueEnds, skipSpace_space hs]
  exact h

theorem ValueEnds.of {c : UInt8} (hc : c = ch ',' ∨ c = ch '\x7d' ∨ c = ch ']') (rest : Bytes) :
    ValueEnds (c :: rest) := by
  have hspace : isSpace c = false := by
    rcases hc with rfl | rfl | rfl
    all_goals rfl
  rw [ValueEnds, skipSpace_self hspace]
  intro d hd
  rw [List.head?_cons, Option.mem_some_iff] at hd
  exact hd ▸ hc

theorem ValueEnds.not_colonNext (h : ValueEnds rest) : ¬ ColonNext rest := by
  intro hcolon
  have := h (ch ':') hcolon
  revert this
  decide

theorem ValueEnds.head (h : ValueEnds rest) :
    ∀ c ∈ rest.head?, isSpace c = true ∨ c ∈ punctuation := by
  intro c hc
  obtain ⟨cs, rfl⟩ := List.head?_eq_some_iff.1 hc
  cases hspace : isSpace c with
  | true => exact .inl rfl
  | false =>
    right
    have hends := h c (by rw [skipSpace_self hspace]; rfl)
    rcases hends with rfl | rfl | rfl
    all_goals decide

/-! ## Texts that a search gets past -/

/-- A search gets past this text, where a value may end. -/
def Passes (key t : Bytes) : Prop :=
  ∀ rest, ValueEnds rest → findQuoted (needle key) 0 (t ++ rest) = findQuoted (needle key) 0 rest

theorem passes_bare (h : ch '"' ∉ t) : Passes key t := fun _ _ => findQuoted_gap h

theorem passes_quoted (hkey : WordKey key) (hbody : Body body) : Passes key (quoted body) := by
  intro rest hrest
  exact findQuoted_body hkey.toPlainKey (hkey.not_bridge hrest.head) hbody fun _ => hrest.not_colonNext

theorem Passes.padded (h : Passes key t) (hp : Padded t p) : Passes key p := by
  intro rest hrest
  obtain ⟨s, s', hs, hs', rfl⟩ := hp
  rw [List.append_assoc, List.append_assoc, findQuoted_gap (not_quote_of_space hs),
    h _ (hrest.space hs'), findQuoted_gap (not_quote_of_space hs')]

/-- A text that a byte closes which is no quote. -/
theorem Passes.closed (h : Passes key t) {closing : UInt8}
    (hclosing : closing = ch ',' ∨ closing = ch '\x7d' ∨ closing = ch ']') (rest : Bytes) :
    findQuoted (needle key) 0 (t ++ closing :: rest) = findQuoted (needle key) 0 rest := by
  rw [h _ (.of hclosing rest), findQuoted_byte]
  rcases hclosing with rfl | rfl | rfl
  all_goals decide

theorem Passes.bracketed (h : Passes key t) {opening closing : UInt8} (hopening : opening ≠ ch '"')
    (hclosing : closing = ch ',' ∨ closing = ch '\x7d' ∨ closing = ch ']') :
    Passes key (opening :: t ++ [closing]) := by
  intro rest _
  rw [List.append_assoc, List.cons_append, List.singleton_append, findQuoted_byte hopening,
    h.closed hclosing]

/-- White space, and the colon behind a name. -/
theorem skipSpace_colon (hs : Space s) (rest : Bytes) : skipSpace (s ++ ch ':' :: rest) = ch ':' :: rest := by
  rw [skipSpace_space hs, skipSpace_self (by decide)]

/-- Another name. -/
theorem passes_name (hkey : WordKey key) (hbody : Body body) (hother : ¬ Names key body)
    (hn : Padded (quoted body) n) (rest : Bytes) :
    findQuoted (needle key) 0 (n ++ ch ':' :: rest) = findQuoted (needle key) 0 rest := by
  obtain ⟨s, s', hs, hs', rfl⟩ := hn
  have hhead : ∀ c ∈ (s' ++ ch ':' :: rest).head?, isSpace c = true ∨ c ∈ punctuation := by
    intro c hc
    cases s' with
    | nil =>
      obtain rfl : ch ':' = c := Option.some.inj hc
      right
      decide
    | cons d s' =>
      obtain rfl : d = c := Option.some.inj hc
      exact .inl (hs' d List.mem_cons_self)
  rw [List.append_assoc, List.append_assoc, findQuoted_gap (not_quote_of_space hs),
    findQuoted_body hkey.toPlainKey (hkey.not_bridge hhead) hbody fun h => absurd h hother,
    findQuoted_gap (not_quote_of_space hs'), findQuoted_byte (by decide)]

/-- **A name that names the key**: the search stops at its value. -/
theorem finds_name (hkey : PlainKey key) (hbody : Body body) (hnames : Names key body)
    (hn : Padded (quoted body) n) (rest : Bytes) :
    findQuoted (needle key) 0 (n ++ ch ':' :: rest) = some (skipSpace rest) := by
  obtain ⟨s, s', hs, hs', rfl⟩ := hn
  rw [List.append_assoc, List.append_assoc, findQuoted_gap (not_quote_of_space hs)]
  exact findQuoted_names hkey (skipSpace_colon hs' rest) hbody hnames

theorem not_space_number : ∀ c, Json.isNumberByte c = true → isSpace c = false :=
  fun c hc => (Json.numberByte_facts c hc).1.1

/-- A value starts with a byte that is no white space. -/
theorem Laid.head {j : Json} (h : Laid spell (.value j) t) :
    ∃ c cs, t = c :: cs ∧ isSpace c = false := by
  cases h with
  | null => exact ⟨_, _, rfl, by decide⟩
  | bool b =>
    cases b with
    | true => exact ⟨_, _, rfl, by decide⟩
    | false => exact ⟨_, _, rfl, by decide⟩
  | num hnumber =>
    obtain ⟨c, cs, rfl⟩ := List.exists_cons_of_ne_nil hnumber.ne_nil
    refine ⟨c, cs, rfl, ?_⟩
    exact not_space_number c (hnumber.bytes c List.mem_cons_self)
  | str _ => exact ⟨_, _, rfl, by decide⟩
  | emptyArr _ => exact ⟨_, _, rfl, by decide⟩
  | arr _ => exact ⟨_, _, rfl, by decide⟩
  | emptyObj _ => exact ⟨_, _, rfl, by decide⟩
  | obj _ => exact ⟨_, _, rfl, by decide⟩

theorem not_quote_number {literal : Bytes} (h : Json.IsNumber literal) : ch '"' ∉ literal := by
  intro hquote
  exact absurd (h.bytes _ hquote) (by decide)

/-- **A text in which no name names the key** is passed over. -/
theorem Laid.passes (hkey : WordKey key) (h : Laid spell part t)
    (hother : ∀ m ∈ part.all, ¬ Names key (spell m.1)) : Passes key t := by
  induction h with
  | null => exact passes_bare (by decide)
  | bool b =>
    cases b with
    | true => exact passes_bare (by decide)
    | false => exact passes_bare (by decide)
  | num hnumber => exact passes_bare (not_quote_number hnumber)
  | str hbody => exact passes_quoted hkey hbody
  | emptyArr hs =>
    exact (passes_bare (not_quote_of_space hs)).bracketed (by decide) (.inr (.inr rfl))
  | arr _ ih => exact (ih hother).bracketed (by decide) (.inr (.inr rfl))
  | emptyObj hs =>
    exact (passes_bare (not_quote_of_space hs)).bracketed (by decide) (.inr (.inl rfl))
  | obj _ ih => exact (ih hother).bracketed (by decide) (.inr (.inl rfl))
  | element _ hp ih => exact (ih (List.forall_mem_append.1 hother).1).padded hp
  | elements _ hp _ ih ihs =>
    obtain ⟨hvalue, hmore⟩ := List.forall_mem_append.1 hother
    intro rest hrest
    rw [List.append_assoc, List.cons_append, ((ih hvalue).padded hp).closed (.inl rfl),
      ihs hmore rest hrest]
  | member hbody hn _ hp ih =>
    obtain ⟨hname, hvalue⟩ := List.forall_mem_cons.1 hother
    intro rest hrest
    rw [List.append_assoc, List.cons_append, passes_name hkey hbody hname hn,
      (ih (List.forall_mem_append.1 hvalue).1).padded hp rest hrest]
  | members hbody hn _ hp _ ih ihs =>
    obtain ⟨hname, hmembers⟩ := List.forall_mem_cons.1 hother
    obtain ⟨hvalue, hmore⟩ := List.forall_mem_append.1 hmembers
    intro rest hrest
    rw [List.append_assoc, List.cons_append, passes_name hkey hbody hname hn, List.append_assoc,
      List.cons_append, ((ih hvalue).padded hp).closed (.inl rfl), ihs hmore rest hrest]

/-! ## Where a search stops -/

/-- A search stops at the text of a value, and behind that a value may end. -/
def Stops (spell : Bytes → Bytes) (key : Bytes) (v : Json) (t : Bytes) : Prop :=
  ∃ tv back, Laid spell (.value v) tv ∧ ∀ rest, ValueEnds rest →
    findQuoted (needle key) 0 (t ++ rest) = some (tv ++ (back ++ rest)) ∧ ValueEnds (back ++ rest)

/-- What stands in front, if the search gets past it, and what stands behind. -/
theorem Stops.within (h : Stops spell key v t) (front behind : Bytes)
    (hfront : ∀ rest, ValueEnds rest →
      findQuoted (needle key) 0 (front ++ (t ++ (behind ++ rest))) =
        findQuoted (needle key) 0 (t ++ (behind ++ rest)))
    (hbehind : ∀ rest, ValueEnds rest → ValueEnds (behind ++ rest)) :
    Stops spell key v (front ++ t ++ behind) := by
  obtain ⟨tv, back, hlaid, hfind⟩ := h
  refine ⟨tv, back ++ behind, hlaid, fun rest hrest => ?_⟩
  obtain ⟨hsearch, hends⟩ := hfind _ (hbehind rest hrest)
  rw [List.append_assoc, List.append_assoc, hfront rest hrest, hsearch, List.append_assoc]
  exact ⟨rfl, hends⟩

theorem Stops.padded (h : Stops spell key v t) (hp : Padded t p) : Stops spell key v p := by
  obtain ⟨s, s', hs, hs', rfl⟩ := hp
  exact h.within s s' (fun _ _ => findQuoted_gap (not_quote_of_space hs)) fun _ hrest => hrest.space hs'

/-- A list of items that starts with this one, and one that goes on behind it. -/
theorem Stops.first (h : Stops spell key v t) (hp : Padded t p) (ts : Bytes) :
    Stops spell key v (p ++ ch ',' :: ts) :=
  (h.padded hp).within [] (ch ',' :: ts) (fun _ _ => rfl) fun _ _ => .of (.inl rfl) _

theorem Stops.later {ts : Bytes} (h : Stops spell key v ts) (ht : Passes key t) (hp : Padded t p) :
    Stops spell key v (p ++ ch ',' :: ts) := by
  have hfront := h.within (p ++ [ch ',']) []
    (fun rest hrest => by
      rw [List.append_assoc, List.singleton_append]
      exact (ht.padded hp).closed (.inl rfl) _)
    fun _ hrest => hrest
  rw [List.append_nil, List.append_assoc, List.singleton_append] at hfront
  exact hfront

/-- Behind another name. -/
theorem Stops.named (h : Stops spell key v t) (hkey : WordKey key) (hbody : Body body)
    (hother : ¬ Names key body) (hn : Padded (quoted body) n) : Stops spell key v (n ++ ch ':' :: t) := by
  have hfront := h.within (n ++ [ch ':']) []
    (fun rest hrest => by
      rw [List.append_assoc, List.singleton_append]
      exact passes_name hkey hbody hother hn _)
    fun _ hrest => hrest
  rw [List.append_nil, List.append_assoc, List.singleton_append] at hfront
  exact hfront

/-- The member that is named. -/
theorem stops_own (hkey : PlainKey key) (hbody : Body body) (hnames : Names key body)
    (hn : Padded (quoted body) n) (hv : Laid spell (.value v) t) (hp : Padded t p) (behind : Bytes)
    (hbehind : ∀ rest, ValueEnds rest → ValueEnds (behind ++ rest)) :
    Stops spell key v (n ++ ch ':' :: (p ++ behind)) := by
  obtain ⟨s, s', hs, hs', rfl⟩ := hp
  refine ⟨t, s' ++ behind, hv, fun rest hrest => ⟨?_, ?_⟩⟩
  · obtain ⟨c, cs, rfl, hc⟩ := hv.head
    rw [List.append_assoc, List.cons_append, finds_name hkey hbody hnames hn]
    simp only [List.append_assoc, List.cons_append]
    rw [skipSpace_space hs, skipSpace_self hc]
  · rw [List.append_assoc]
    exact (hbehind rest hrest).space hs'

/-- The first member, at any depth, that a search for the key takes for its own. -/
def firstNamed (spell : Bytes → Bytes) (key : Bytes) (ms : List (Bytes × Json)) : Option Json :=
  (ms.find? fun m => decide (Names key (spell m.1))).map Prod.snd

theorem firstNamed_cons {name : Bytes} {j : Json} {ms : List (Bytes × Json)} :
    firstNamed spell key ((name, j) :: ms) =
      if Names key (spell name) then some j else firstNamed spell key ms := by
  unfold firstNamed
  by_cases h : Names key (spell name)
  · simp [h]
  · simp [h]

theorem firstNamed_append {ms ms' : List (Bytes × Json)} :
    firstNamed spell key (ms ++ ms') = (firstNamed spell key ms).or (firstNamed spell key ms') := by
  unfold firstNamed
  rw [List.find?_append]
  cases ms.find? fun m => decide (Names key (spell m.1)) with
  | none => rfl
  | some m => rfl

theorem firstNamed_none {ms : List (Bytes × Json)} (h : firstNamed spell key ms = none) :
    ∀ m ∈ ms, ¬ Names key (spell m.1) := by
  unfold firstNamed at h
  simpa using h

/-- **The first member that is named** is where the search stops. -/
theorem Laid.stops (hkey : WordKey key) (h : Laid spell part t)
    (hfirst : firstNamed spell key part.all = some v) : Stops spell key v t := by
  induction h with
  | null => cases hfirst
  | bool b => cases hfirst
  | num _ => cases hfirst
  | str _ => cases hfirst
  | emptyArr _ => cases hfirst
  | emptyObj _ => cases hfirst
  | arr _ ih =>
    exact (ih hfirst).within [ch '['] [ch ']'] (fun _ _ => findQuoted_byte (by decide))
      fun _ _ => .of (.inr (.inr rfl)) _
  | obj _ ih =>
    exact (ih hfirst).within [ch '\x7b'] [ch '\x7d'] (fun _ _ => findQuoted_byte (by decide))
      fun _ _ => .of (.inr (.inl rfl)) _
  | @element j t p hj hp ih =>
    have hall : (Part.elements [j]).all = (Part.value j).all := List.append_nil _
    rw [hall] at hfirst
    exact (ih hfirst).padded hp
  | @elements j js t p ts hj hp hjs ih ihs =>
    have hfirst : firstNamed spell key ((Part.value j).all ++ (Part.elements js).all) = some v := hfirst
    rw [firstNamed_append] at hfirst
    cases hown : firstNamed spell key (Part.value j).all with
    | some w =>
      rw [hown, Option.some_or, Option.some.injEq] at hfirst
      subst hfirst
      exact (ih hown).first hp ts
    | none =>
      rw [hown, Option.none_or] at hfirst
      exact (ihs hfirst).later (hj.passes hkey (firstNamed_none hown)) hp
  | @member name j n t p hbody hn hj hp ih =>
    have hfirst : firstNamed spell key ((name, j) :: ((Part.value j).all ++ [])) = some v := hfirst
    rw [firstNamed_cons, List.append_nil] at hfirst
    by_cases hnames : Names key (spell name)
    · rw [if_pos hnames, Option.some.injEq] at hfirst
      subst hfirst
      have hown := stops_own hkey.toPlainKey hbody hnames hn hj hp [] fun _ hrest => hrest
      rw [List.append_nil] at hown
      exact hown
    · rw [if_neg hnames] at hfirst
      exact ((ih hfirst).padded hp).named hkey hbody hnames hn
  | @members name j ms n t p ts hbody hn hj hp hms ih ihs =>
    have hfirst : firstNamed spell key
        ((name, j) :: ((Part.value j).all ++ (Part.members ms).all)) = some v := hfirst
    rw [firstNamed_cons] at hfirst
    by_cases hnames : Names key (spell name)
    · rw [if_pos hnames, Option.some.injEq] at hfirst
      subst hfirst
      exact stops_own hkey.toPlainKey hbody hnames hn hj hp (ch ',' :: ts) fun _ _ => .of (.inl rfl) _
    · rw [if_neg hnames, firstNamed_append] at hfirst
      apply Stops.named _ hkey hbody hnames hn
      cases hown : firstNamed spell key (Part.value j).all with
      | some w =>
        rw [hown, Option.some_or, Option.some.injEq] at hfirst
        subst hfirst
        exact (ih hown).first hp ts
      | none =>
        rw [hown, Option.none_or] at hfirst
        exact (ihs hfirst).later (hj.passes hkey (firstNamed_none hown)) hp

/-! ## In a whole text -/

theorem padded_self (t : Bytes) : Padded t t := ⟨[], [], nofun, nofun, by simp⟩

/-- **The value of the first member that is named.** -/
theorem Laid.findValueStart_some (hkey : WordKey key) {j : Json} (ht : Laid spell (.value j) t)
    {text : Bytes} (htext : Padded t text) (hfirst : firstNamed spell key (allMembers j) = some v) :
    ∃ tv back, Laid spell (.value v) tv ∧ findValueStart text key = some (tv ++ back) ∧
      ValueEnds back := by
  obtain ⟨tv, back, hlaid, hfind⟩ := (ht.stops hkey hfirst).padded htext
  obtain ⟨hsearch, hends⟩ := hfind [] .nil
  rw [List.append_nil] at hsearch hends
  rw [List.append_nil] at hsearch
  exact ⟨tv, back, hlaid, hsearch, hends⟩

theorem Laid.findValueStart_none (hkey : WordKey key) {j : Json} (ht : Laid spell (.value j) t)
    {text : Bytes} (htext : Padded t text) (hfirst : firstNamed spell key (allMembers j) = none) :
    findValueStart text key = none := by
  have h := (ht.passes hkey (firstNamed_none hfirst)).padded htext [] .nil
  rw [List.append_nil] at h
  exact h

end Tombstone.JsonText
