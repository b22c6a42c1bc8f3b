import Mathlib.Data.List.Forall2
import PolyLet.Proofs.Lexing.Words
import PolyLet.Proofs.Parsing.Reads

/-!
# Texts and the words they write

A text writes words if it is read as these words, whatever stands before it and whatever follows it.
Words of letters and digits need something between them: if the text ends with a character of a word,
then the text that follows must not start with one. Under this condition texts are put together, and
the words that they write are put together likewise.

## Main definitions

* `Spells s ws`: the text `s` is read as the words `ws`
* `Writes s ws`: so is `s` in front of a text that does not go on with its last word
* `Written P s v`: the text writes a phrase `P` of the value `v`

## Main results

* `Writes.append`, `Writes.separated`: texts one after the other
* `writes_name`, `writes_number`, `writes_spelling`: the texts of single words
* `Written.elems`, `Written.tuple`: texts with commas between them, and parentheses around these
-/

namespace PolyLet

variable {α : Type}

/-! ## Reading a text as words -/

/-- The text is read as these words, wherever it stands. -/
def Spells (s : String) (ws : List Word) : Prop :=
  ∀ start, ∃ ts, Lexes start s.toList ts [] ∧ words (significant ts) = ws

theorem spells_empty : Spells "" [] :=
  fun start => ⟨[endToken start], .done nofun, rfl⟩

theorem Spells.blank {s : String} {ws : List Word} (h : Spells s ws) : Spells (" " ++ s) ws := by
  intro start
  obtain ⟨ts, run, hts⟩ := h (start + byteLength " ".toList)
  rw [String.toList_append]
  exact ⟨ts, run.blanks (List.forall_mem_singleton.mpr rfl), hts⟩

theorem significant_cons {t : Token} (h : t.kind.isSpelled = true) (ts : List Token) :
    significant (t :: ts) = t :: significant ts := by
  simp only [TokenKind.isSpelled, Bool.and_eq_true] at h
  exact List.filter_cons_of_pos (Bool.and_eq_true_iff.mpr h.1)

theorem Spells.token {s : String} {ws : List Word} {kind : TokenKind} {c : Char} {cs : List Char}
    (hc : isBlank c = false) (hscan : scan c (cs ++ s.toList) = ⟨kind, c :: cs, s.toList, none⟩)
    (hkind : kind.isSpelled = true) (h : Spells s ws) :
    Spells (String.ofList (c :: cs) ++ s) (⟨kind, String.ofList (c :: cs)⟩ :: ws) := by
  intro start
  obtain ⟨ts, run, rfl⟩ := h (start + byteLength [] + byteLength (c :: cs))
  have hrun := @Lexes.token start [] c (cs ++ s.toList) ts [] nofun hc (by rwa [hscan])
  rw [hscan] at hrun
  rw [String.toList_append, String.toList_ofList]
  exact ⟨_, hrun, congrArg words (significant_cons hkind ts)⟩

/-! ## Writing words -/

/-- The text ends with a character that a word may have. -/
def endsWord (cs : List Char) : Bool :=
  cs.getLast?.any isNameRest

/-- The texts can stand next to each other: no word goes over from the first to the second. -/
def Joins (s t : String) : Prop :=
  endsWord s.toList = false ∨ startsWord t.toList = false

/-- In front of any text that it can stand next to, the text is read as these words. -/
structure Writes (s : String) (ws : List Word) : Prop where
  ne_nil : s.toList ≠ []
  spells : ∀ rest us, Joins s rest → Spells rest us → Spells (s ++ rest) (ws ++ us)

theorem startsWord_append {t : String} (ht : t.toList ≠ []) (u : String) :
    startsWord (t ++ u).toList = startsWord t.toList := by
  obtain ⟨c, cs, htcs⟩ := List.exists_cons_of_ne_nil ht
  rw [String.toList_append, htcs]
  rfl

theorem endsWord_append {t : String} (ht : t.toList ≠ []) (s : String) :
    endsWord (s ++ t).toList = endsWord t.toList := by
  rw [endsWord, endsWord, String.toList_append, List.getLast?_append,
    List.getLast?_eq_some_getLast ht, Option.some_or]

namespace Writes

variable {s m t : String} {ws ms us : List Word}

/-- What a whole text writes is what it is read as. -/
theorem toSpells (h : Writes s ws) : Spells s ws := by
  have hs := h.spells "" [] (.inr rfl) spells_empty
  rwa [String.append_empty, List.append_nil] at hs

/-- **Texts one after the other.** -/
theorem append (hs : Writes s ws) (ht : Writes t us) (h : Joins s t) :
    Writes (s ++ t) (ws ++ us) := by
  constructor
  · rw [String.toList_append]
    exact List.append_ne_nil_of_left_ne_nil hs.ne_nil _
  · intro rest vs hrest hvs
    rw [Joins, endsWord_append ht.ne_nil] at hrest
    rw [String.append_assoc, List.append_assoc]
    refine hs.spells _ _ ?_ (ht.spells rest vs hrest hvs)
    rwa [Joins, startsWord_append ht.ne_nil]

/-- Two texts with a third one between them that has no character of a word at its ends. -/
theorem separated (hs : Writes s ws) (hm : Writes m ms) (ht : Writes t us)
    (hstart : startsWord m.toList = false) (hend : endsWord m.toList = false) :
    Writes (s ++ m ++ t) (ws ++ ms ++ us) :=
  (hs.append hm (.inr hstart)).append ht (.inl (by rw [endsWord_append hm.ne_nil, hend]))

end Writes

/-! ## Single words -/

theorem writes_blank : Writes " " [] :=
  ⟨by decide, fun _ _ _ h => h.blank⟩

theorem writes_of_scan {s : String} {kind : TokenKind} {c : Char} {cs : List Char}
    (hs : s.toList = c :: cs) (hc : isBlank c = false) (hkind : kind.isSpelled = true)
    (hscan : ∀ rest, endsWord (c :: cs) = false ∨ startsWord rest = false →
      scan c (cs ++ rest) = ⟨kind, c :: cs, rest, none⟩) : Writes s [⟨kind, s⟩] := by
  constructor
  · rw [hs]
    exact List.cons_ne_nil c cs
  · intro rest us hrest hus
    rw [Joins, hs] at hrest
    have h := hus.token hc (hscan _ hrest) hkind
    rwa [← hs, String.ofList_toList] at h

/-- A text of characters that words may have can only stand next to a text that starts with none. -/
theorem startsWord_of_endsWord {c : Char} {cs rest : List Char}
    (hcs : ∀ d ∈ c :: cs, isNameRest d = true)
    (h : endsWord (c :: cs) = false ∨ startsWord rest = false) : startsWord rest = false := by
  refine h.resolve_left ?_
  rw [endsWord, List.getLast?_eq_some_getLast (List.cons_ne_nil c cs), Option.any_some,
    hcs _ (List.getLast_mem _)]
  exact Bool.noConfusion

theorem isSpelled_word (x : String) : ((TokenKind.ofKeyword? x).getD .name).isSpelled = true := by
  unfold TokenKind.ofKeyword?
  split <;> rfl

/-- Words of letters and digits: keywords and names. -/
theorem writes_word {s : String} {kind : TokenKind} {c : Char} {cs : List Char}
    (hs : s.toList = c :: cs) (hc : isNameStart c = true) (hcs : cs.all isNameRest = true)
    (hkind : (TokenKind.ofKeyword? s).getD .name = kind) : Writes s [⟨kind, s⟩] := by
  have hrest := isNameRest_of_isNameStart hc
  rw [← hkind]
  refine writes_of_scan hs (isBlank_eq_false_of_isNameRest hrest) (isSpelled_word s) fun rest h => ?_
  rw [List.all_eq_true] at hcs
  have hscan := scan_word hc hcs (startsWord_of_endsWord (List.forall_mem_cons.mpr ⟨hrest, hcs⟩) h)
  rwa [← hs, String.ofList_toList, hs] at hscan

theorem writes_name {x : String} (h : isName x = true) : Writes x [⟨.name, x⟩] := by
  simp only [isName, Bool.and_eq_true, decide_eq_true_eq] at h
  obtain ⟨⟨hc, hcs⟩, hkey⟩ := h
  cases hx : x.toList with
  | nil => simp [hx] at hc
  | cons c cs =>
    rw [hx] at hc hcs
    exact writes_word hx hc hcs (by rw [hkey, Option.getD_none])

/-- The digits of a number are read as this number. -/
theorem decimalValue_toString (n : Nat) : decimalValue (toString n).toList = n := by
  rw [Nat.toString_eq_ofList_toDigits, String.toList_ofList]
  have h := Nat.ofDigitChars_ten_toDigits (n := n)
  rwa [Nat.ofDigitChars_eq_foldl] at h

/-- A number is written with digits only, and with at least one. -/
theorem exists_digits_toString (n : Nat) :
    ∃ c cs, (toString n).toList = c :: cs ∧ ∀ d ∈ c :: cs, d.isDigit = true := by
  rw [Nat.toString_eq_ofList_toDigits, String.toList_ofList]
  cases hn : Nat.toDigits 10 n with
  | nil => exact absurd hn Nat.toDigits_ne_nil
  | cons c cs =>
    refine ⟨c, cs, rfl, fun d hd => ?_⟩
    rw [← hn] at hd
    exact Nat.isDigit_of_mem_toDigits (Nat.succ_pos 9) (Nat.le_refl 10) hd

theorem not_mem_toList_append {c : Char} {s t : String} (hs : c ∉ s.toList) (ht : c ∉ t.toList) :
    c ∉ (s ++ t).toList := by
  rw [String.toList_append, List.mem_append]
  exact not_or.mpr ⟨hs, ht⟩

/-- An integer is written with digits and a minus sign. -/
theorem not_mem_toString_int {c : Char} (hdigit : c.isDigit = false) (hminus : c ≠ '-') (n : Int) :
    c ∉ (toString n).toList := by
  have hnat (k : Nat) : c ∉ (toString k).toList := by
    obtain ⟨d, ds, hk, hdigits⟩ := exists_digits_toString k
    rw [hk]
    exact fun hmem => absurd (hdigits c hmem) (Bool.eq_false_iff.mp hdigit)
  cases n with
  | ofNat k => exact hnat k
  | negSucc k =>
    have hsign : c ∉ "-".toList := fun hmem => hminus (List.mem_singleton.mp hmem)
    exact not_mem_toList_append hsign (hnat (k + 1))

theorem writes_number {n : Nat} (h : n ≤ maxInteger) :
    Writes (toString n) [⟨.integer, toString n⟩] := by
  obtain ⟨c, cs, hn, hdigits⟩ := exists_digits_toString n
  rw [← decimalValue_toString n, hn] at h
  have hrest : ∀ d ∈ c :: cs, isNameRest d = true := fun d hd => isNameRest_of_isDigit (hdigits d hd)
  refine writes_of_scan hn (isBlank_eq_false_of_isNameRest (hrest c (List.mem_cons_self ..))) rfl ?_
  exact fun rest hr => scan_digits hdigits h (startsWord_of_endsWord hrest hr)

theorem writes_spelling (k : TokenKind) (h : k.isSpelled = true) :
    Writes k.spelling [⟨k, k.spelling⟩] := by
  cases k
  case lineComment | blockComment | endOfInput | invalid => cases h
  case integer => exact writes_number (Nat.zero_le maxInteger)
  case equals | openParen | closeParen | comma | arrow =>
    exact writes_of_scan rfl rfl rfl fun _ _ => rfl
  all_goals exact writes_word rfl rfl rfl rfl

/-- A word with a blank behind it. -/
theorem writes_before (k : TokenKind) (h : k.isSpelled = true) :
    Writes (k.spelling ++ " ") [⟨k, k.spelling⟩] :=
  (writes_spelling k h).append writes_blank (.inr rfl)

/-- A word between blanks. -/
theorem writes_between (k : TokenKind) (h : k.isSpelled = true) :
    Writes (" " ++ k.spelling ++ " ") [⟨k, k.spelling⟩] := by
  rw [String.append_assoc]
  exact writes_blank.append (writes_before k h) (.inl rfl)

theorem Writes.parens {s : String} {ws : List Word} (h : Writes s ws) : Writes ("(" ++ s ++ ")")
    (⟨.openParen, "("⟩ :: (ws ++ [⟨.closeParen, ")"⟩])) :=
  ((writes_spelling .openParen rfl).append h (.inl rfl)).append
    (writes_spelling .closeParen rfl) (.inr rfl)

/-! ## Texts of phrases -/

/-- The text writes a phrase `P` of the value `v`. -/
def Written (P : List Word → α → Prop) (s : String) (v : α) : Prop :=
  ∃ ws, Writes s ws ∧ P ws v

theorem Written.imp {P Q : List Word → α → Prop} {s : String} {v : α} (h : Written P s v)
    (hPQ : ∀ ws, P ws v → Q ws v) : Written Q s v := by
  obtain ⟨ws, hs, hv⟩ := h
  exact ⟨ws, hs, hPQ ws hv⟩

/-- **Texts with commas between them.** The first text writes a phrase `P`, and each of the others
follows a comma in a tail `T`. -/
theorem Written.elems {P : List Word → α → Prop} {T : List Word → List α → Prop} (nil : T [] [])
    (cons : ∀ {m ws us v vs}, m.kind = .comma → P ws v → T us vs → T (m :: (ws ++ us)) (v :: vs))
    {s : String} {v : α} {texts : List String} {vs : List α} (h : Written P s v)
    (hs : List.Forall₂ (Written P) texts vs) :
    ∃ ws us, Writes (", ".intercalate (s :: texts)) (ws ++ us) ∧ P ws v ∧ T us vs := by
  induction hs generalizing s v with
  | nil =>
    obtain ⟨ws, hws, hv⟩ := h
    refine ⟨ws, [], ?_, hv, nil⟩
    rwa [String.intercalate_singleton, List.append_nil]
  | cons ht _ ih =>
    obtain ⟨ws, hws, hv⟩ := h
    obtain ⟨ws', us', hws', hv', hus'⟩ := ih ht
    refine ⟨ws, ⟨.comma, ","⟩ :: (ws' ++ us'), ?_, hv, cons rfl hv' hus'⟩
    have hcomma : Writes ", " [⟨.comma, ","⟩] := writes_before .comma rfl
    have hall := hws.separated hcomma hws' rfl rfl
    rwa [List.append_assoc, ← String.intercalate_cons_cons] at hall

/-- Such texts in parentheses, where `A` has a rule for empty parentheses and one for the others. -/
theorem Written.tuple {P A : List Word → α → Prop} {T : List Word → List α → Prop}
    (ofElems : List α → α) (nil : T [] [])
    (cons : ∀ {m ws us v vs}, m.kind = .comma → P ws v → T us vs → T (m :: (ws ++ us)) (v :: vs))
    (unit : A [⟨.openParen, "("⟩, ⟨.closeParen, ")"⟩] (ofElems []))
    (parens : ∀ {ws us v vs}, P ws v → T us vs →
      A (⟨.openParen, "("⟩ :: (ws ++ (us ++ [⟨.closeParen, ")"⟩]))) (ofElems (v :: vs)))
    {texts : List String} {vs : List α} (h : List.Forall₂ (Written P) texts vs) :
    Written A ("(" ++ ", ".intercalate texts ++ ")") (ofElems vs) := by
  cases h with
  | nil =>
    refine ⟨_, ?_, unit⟩
    rw [String.intercalate_nil]
    exact (writes_spelling .openParen rfl).append (writes_spelling .closeParen rfl) (.inl rfl)
  | cons hv hvs =>
    obtain ⟨ws, us, hall, hP, hT⟩ := Written.elems nil cons hv hvs
    refine ⟨_, hall.parens, ?_⟩
    rw [List.append_assoc]
    exact parens hP hT

end PolyLet
