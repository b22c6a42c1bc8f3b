import PolyLet.Proofs.Lexing.Run

/-!
# Names, keywords and numbers

A name is a run of characters that a word may have, and a number is a run of digits. Each is scanned
as a whole and no further, as long as the text behind it does not go on with a character of a word.
Conversely, what is scanned as a name is one, and what is scanned as a number is not too large.

## Main definitions

* `isName x`: the text is a name
* `startsWord cs`: the text starts with a character that a word may have

## Main results

* `scan_word`, `scan_digits`: words and numbers are scanned as a whole
* `scan_cases`: which rule a token was scanned by
* `isName_of_scan`, `decimalValue_le_of_scan`: names and numbers that were scanned
-/

namespace PolyLet

/-- The text is a name: it starts like one, goes on like one, and is no keyword. -/
def isName (x : String) : Bool :=
  x.toList.head?.any isNameStart && x.toList.tail.all isNameRest &&
    decide (TokenKind.ofKeyword? x = none)

/-- The text starts with a character that a word may have. -/
def startsWord (cs : List Char) : Bool :=
  cs.head?.any isNameRest

/-! ## Classes of characters -/

theorem CharRange.first_le_of_covers {r : CharRange} {rs : List CharRange} {n : Nat}
    (h : covers (r :: rs) n = true) : r.first ≤ n := by
  rw [covers] at h
  split at h
  next => cases h
  next hn => exact Nat.le_of_not_lt hn

/-- Names start with no character below the first letter. -/
theorem isNameStart_le {c : Char} (h : isNameStart c = true) : 'A'.toNat ≤ c.toNat := by
  simp only [isNameStart, Bool.or_eq_true, decide_eq_true_eq] at h
  rcases h with h | rfl
  · exact CharRange.first_le_of_covers h
  · decide

theorem isNameRest_of_isNameStart {c : Char} (h : isNameStart c = true) : isNameRest c = true := by
  simp only [isNameStart, isNameRest, Bool.or_eq_true] at h ⊢
  exact h.imp .inl id

theorem isNameRest_of_isDigit {c : Char} (h : c.isDigit = true) : isNameRest c = true := by
  have hrange : CharRange.holds ⟨0x30, 0x39⟩ c.toNat = true := by
    simpa [CharRange.holds] using Char.isDigit_iff_toNat.mp h
  have hnum : isNumeric c = true := CharTable.holds_iff.mpr ⟨_, List.mem_cons_self, hrange⟩
  simp [isNameRest, hnum]

theorem isDigit_eq_false_of_isNameStart {c : Char} (h : isNameStart c = true) :
    c.isDigit = false := by
  rw [Bool.eq_false_iff]
  intro hc
  exact absurd (Nat.le_trans (isNameStart_le h) (Char.isDigit_iff_toNat.mp hc).2) (by decide)

/-- A character that a word may have is no blank. -/
theorem isBlank_eq_false_of_isNameRest {c : Char} (h : isNameRest c = true) :
    isBlank c = false := by
  rw [Bool.eq_false_iff]
  intro hb
  simp only [isBlank, Bool.or_eq_true, decide_eq_true_eq] at hb
  rcases hb with ((rfl | rfl) | rfl) | rfl <;> cases h

/-! ## Scanning words and numbers -/

theorem scan_of_isNameStart {c : Char} (h : isNameStart c = true) (cs : List Char) :
    scan c cs = scanWord c cs := by
  have hne {d : Char} (hd : isNameStart d = false) : c ≠ d := by
    rintro rfl
    exact absurd h (by simp [hd])
  rw [scan, if_neg (hne rfl), if_neg (hne rfl), if_neg (hne rfl), if_neg (hne rfl),
    if_neg (hne rfl), if_neg (hne rfl), if_neg (by simp [isDigit_eq_false_of_isNameStart h]),
    if_pos h]

theorem scan_of_isDigit {c : Char} (h : c.isDigit = true) (cs : List Char) :
    scan c cs = scanNumber (c :: cs) := by
  have hne {d : Char} (hd : d.isDigit = false) : c ≠ d := by
    rintro rfl
    exact absurd h (by simp [hd])
  rw [scan, if_neg (hne rfl), if_neg (hne rfl), if_neg (hne rfl), if_neg (hne rfl),
    if_neg (hne rfl), if_neg (hne rfl), if_pos h]

/-- A run of characters of one class ends where the text behind it does not start with one. -/
theorem takeWhile_append_of_head {p : Char → Bool} {cs rest : List Char}
    (hcs : ∀ c ∈ cs, p c = true) (h : rest.head?.any p = false) :
    (cs ++ rest).takeWhile p = cs ∧ (cs ++ rest).dropWhile p = rest := by
  have hrest : ∀ hl : 0 < rest.length, ¬p (rest.get ⟨0, hl⟩) = true := by
    intro hl hpc
    cases rest with
    | nil => cases hl
    | cons c rest => exact Bool.eq_false_iff.mp h hpc
  rw [List.takeWhile_append_of_pos hcs, List.dropWhile_append_of_pos hcs,
    List.takeWhile_eq_nil_iff.mpr hrest, List.dropWhile_eq_self_iff.mpr hrest, List.append_nil]
  exact ⟨rfl, rfl⟩

/-- Digits end where a word ends. -/
theorem head?_any_isDigit {rest : List Char} (h : startsWord rest = false) :
    rest.head?.any Char.isDigit = false := by
  cases rest with
  | nil => rfl
  | cons c rest =>
    refine Bool.eq_false_iff.mpr fun hc => ?_
    exact Bool.eq_false_iff.mp h (isNameRest_of_isDigit hc)

/-- **A word is scanned as a whole**, as a keyword or as a name. -/
theorem scan_word {c : Char} {cs rest : List Char} (hc : isNameStart c = true)
    (hcs : ∀ d ∈ cs, isNameRest d = true) (h : startsWord rest = false) :
    scan c (cs ++ rest) =
      ⟨(TokenKind.ofKeyword? (String.ofList (c :: cs))).getD .name, c :: cs, rest, none⟩ := by
  obtain ⟨ht, hd⟩ := takeWhile_append_of_head hcs h
  rw [scan_of_isNameStart hc, scanWord, ht, hd]

/-- **A number is scanned as a whole.** -/
theorem scan_digits {c : Char} {cs rest : List Char} (hcs : ∀ d ∈ c :: cs, d.isDigit = true)
    (hmax : decimalValue (c :: cs) ≤ maxInteger) (h : startsWord rest = false) :
    scan c (cs ++ rest) = ⟨.integer, c :: cs, rest, none⟩ := by
  obtain ⟨ht, hd⟩ := takeWhile_append_of_head hcs (head?_any_isDigit h)
  rw [scan_of_isDigit (hcs c (List.mem_cons_self ..)), scanNumber, ← List.cons_append, ht, hd,
    if_pos hmax]

/-! ## What was scanned -/

theorem scanDash_kind (cs : List Char) :
    (scanDash cs).kind ∈ [.arrow, .lineComment, .invalid] := by
  fun_cases scanDash cs <;> simp [Scanned.invalid]

theorem scanBrace_kind (cs : List Char) : (scanBrace cs).kind ∈ [.blockComment, .invalid] := by
  fun_cases scanBrace cs <;> simp [Scanned.invalid]

/-- A word is scanned as a keyword or a name, a number as an integer, and all else as one of the
other kinds. -/
theorem scan_cases (c : Char) (cs : List Char) :
    (isNameStart c = true ∧ scan c cs = scanWord c cs) ∨
      (c.isDigit = true ∧ scan c cs = scanNumber (c :: cs)) ∨
      (scan c cs).kind ∈ [.equals, .arrow, .openParen, .closeParen, .comma, .lineComment,
        .blockComment, .invalid] := by
  fun_cases scan c cs with
  | case1 | case2 | case3 | case4 | case9 => exact .inr (.inr (by simp [Scanned.invalid]))
  | case5 =>
    have hkind := scanDash_kind cs
    exact .inr (.inr (by grind))
  | case6 =>
    have hkind := scanBrace_kind cs
    exact .inr (.inr (by grind))
  | case7 _ _ _ _ _ _ hdigit => exact .inr (.inl ⟨hdigit, rfl⟩)
  | case8 _ _ _ _ _ _ _ hstart => exact .inl ⟨hstart, rfl⟩

theorem keyword_kind_ne {x : String} {kind : TokenKind} (h : TokenKind.ofKeyword? x = some kind) :
    kind ≠ .name ∧ kind ≠ .integer ∧ kind ≠ .endOfInput := by
  unfold TokenKind.ofKeyword? at h
  split at h <;> cases h <;> simp

theorem scanWord_kind (c : Char) (cs : List Char) : (scanWord c cs).kind =
    (TokenKind.ofKeyword? (String.ofList (scanWord c cs).text)).getD .name :=
  rfl

theorem scanNumber_kind (cs : List Char) :
    ((scanNumber cs).kind = .integer ∧ decimalValue (scanNumber cs).text ≤ maxInteger) ∨
      (scanNumber cs).kind = .invalid := by
  simp only [scanNumber]
  split
  next hmax => exact .inl ⟨rfl, hmax⟩
  next => exact .inr rfl

/-- The end of the input is not scanned. -/
theorem scan_kind_ne_endOfInput (c : Char) (cs : List Char) :
    (scan c cs).kind ≠ .endOfInput := by
  rcases scan_cases c cs with ⟨-, hs⟩ | ⟨-, hs⟩ | hk
  · rw [hs, scanWord_kind]
    cases hkey : TokenKind.ofKeyword? (String.ofList (scanWord c cs).text) with
    | none => exact nofun
    | some k => exact (keyword_kind_ne hkey).2.2
  · rw [hs]
    rcases scanNumber_kind (c :: cs) with ⟨hk, -⟩ | hk <;> rw [hk] <;> exact nofun
  · rintro h
    simp [h] at hk

/-- What is scanned as a name is one. -/
theorem isName_of_scan {c : Char} {cs : List Char} (h : (scan c cs).kind = .name) :
    isName (String.ofList (scan c cs).text) = true := by
  rcases scan_cases c cs with ⟨hc, hs⟩ | ⟨-, hs⟩ | hk
  · rw [hs, scanWord_kind] at h
    have hkey : TokenKind.ofKeyword? (String.ofList (scanWord c cs).text) = none := by
      cases hkey : TokenKind.ofKeyword? (String.ofList (scanWord c cs).text) with
      | none => rfl
      | some k =>
        rw [hkey, Option.getD_some] at h
        exact absurd h (keyword_kind_ne hkey).1
    have hrest : (cs.takeWhile isNameRest).all isNameRest = true := List.all_takeWhile
    rw [hs, isName, hkey, String.toList_ofList]
    simp [scanWord, hc, hrest]
  · rw [hs] at h
    rcases scanNumber_kind (c :: cs) with ⟨hk, -⟩ | hk <;> rw [hk] at h <;> cases h
  · simp [h] at hk

/-- What is scanned as an integer starts with a digit ... -/
theorem isDigit_of_scan {c : Char} {cs : List Char} (h : (scan c cs).kind = .integer) :
    c.isDigit = true := by
  rcases scan_cases c cs with ⟨-, hs⟩ | ⟨hc, -⟩ | hk
  · rw [hs, scanWord_kind] at h
    cases hkey : TokenKind.ofKeyword? (String.ofList (scanWord c cs).text) with
    | none =>
      rw [hkey] at h
      cases h
    | some k =>
      rw [hkey, Option.getD_some] at h
      exact absurd h (keyword_kind_ne hkey).2.1
  · exact hc
  · simp [h] at hk

/-- ... and is not too large. -/
theorem decimalValue_le_of_scan {c : Char} {cs : List Char} (h : (scan c cs).kind = .integer) :
    decimalValue (scan c cs).text ≤ maxInteger := by
  have hs := scan_of_isDigit (isDigit_of_scan h) cs
  rw [hs] at h ⊢
  rcases scanNumber_kind (c :: cs) with ⟨-, hmax⟩ | hk
  · exact hmax
  · rw [hk] at h
    cases h

end PolyLet
