import Lox.Token.Piece

/-!
What the pieces of a text are, said without the way in which they are found. A lexeme is a stretch
of text of a certain form: a mark, a word, a string, a number, a blank, a newline or a comment. At
each place of a text the piece that starts there is the longest lexeme that does; where there is
none, the piece is an open string that takes all that is left, or a single character that fits
nothing. There is one way only to cut a text like this.
-/

namespace Lox

/-! ### Lexemes -/

/-- The digits. -/
def IsDigit (c : Char) : Prop := '0' ≤ c ∧ c ≤ '9'

/-- The letters, and the underscore. -/
def IsLetter (c : Char) : Prop := ('a' ≤ c ∧ c ≤ 'z') ∨ ('A' ≤ c ∧ c ≤ 'Z') ∨ c = '_'

/-- A stretch of text has the form that a shape asks for. What follows it matters for a slash, which
is no mark in front of another slash, and for a comment, which goes on to the end of its line. -/
inductive Lexeme : Shape → List Char → List Char → Prop
  | mark {s : Symbol} {rest : List Char} : s ∈ Symbol.marks → s ≠ .slash →
    Lexeme (.mark s) s.spelling.toList rest
  | slash {rest : List Char} : rest.head? ≠ some '/' → Lexeme (.mark .slash) ['/'] rest
  | string {inside rest : List Char} : '"' ∉ inside →
    Lexeme .string ('"' :: (inside ++ ['"'])) rest
  | whole {digits rest : List Char} : digits ≠ [] → (∀ d ∈ digits, IsDigit d) →
    Lexeme .number digits rest
  | fraction {digits decimals rest : List Char} : digits ≠ [] → (∀ d ∈ digits, IsDigit d) →
    decimals ≠ [] → (∀ d ∈ decimals, IsDigit d) → Lexeme .number (digits ++ '.' :: decimals) rest
  | word {c : Char} {cs rest : List Char} : IsLetter c → (∀ d ∈ cs, IsLetter d ∨ IsDigit d) →
    Lexeme .word (c :: cs) rest
  | blank {c : Char} {rest : List Char} : c ∈ [' ', '\r', '\t'] → Lexeme .blank [c] rest
  | newline {rest : List Char} : Lexeme .newline ['\n'] rest
  | comment {inside rest : List Char} : '\n' ∉ inside → (∀ c, rest.head? = some c → c = '\n') →
    Lexeme .comment ('/' :: '/' :: inside) rest

/-- The pieces of a text: each is the longest lexeme at its place. Where no lexeme starts, the piece
is a string without an end, which runs to the end of the text, or one character. -/
inductive Cut : List Char → List Piece → Prop
  | done : Cut [] []
  | longest {shape : Shape} {text rest : List Char} {ps : List Piece} : Lexeme shape text rest →
    (∀ shape' text' rest', Lexeme shape' text' rest' → text' ++ rest' = text ++ rest →
      text'.length ≤ text.length) →
    Cut rest ps → Cut (text ++ rest) (⟨shape, text⟩ :: ps)
  | unexpected {c : Char} {rest : List Char} {ps : List Piece} : c ≠ '"' →
    (∀ shape text' rest', Lexeme shape text' rest' → text' ++ rest' ≠ c :: rest) →
    Cut rest ps → Cut (c :: rest) (⟨.unexpected, [c]⟩ :: ps)
  | unterminated {inside : List Char} : '"' ∉ inside →
    Cut ('"' :: inside) [⟨.unterminated, '"' :: inside⟩]

/-! ### Characters -/

theorem isDigit_iff {c : Char} : c.isDigit = true ↔ IsDigit c := by
  simp [Char.isDigit, IsDigit, Char.le_def]

theorem isWordStart_iff {c : Char} : isWordStart c = true ↔ IsLetter c := by
  have halpha : c.isAlpha = (c.isUpper || c.isLower) := rfl
  have hupper : c.isUpper = decide ('A' ≤ c ∧ c ≤ 'Z') := rfl
  have hlower : c.isLower = (decide ('a' ≤ c) && decide (c ≤ 'z')) := rfl
  simp only [isWordStart, halpha, hupper, hlower, IsLetter, Bool.or_eq_true, Bool.and_eq_true,
    decide_eq_true_eq]
  rw [or_assoc, or_left_comm]

theorem isWordPart_iff {c : Char} : isWordPart c = true ↔ IsLetter c ∨ IsDigit c := by
  simp [isWordPart, isWordStart_iff, isDigit_iff]

/-- A letter or digit begins nothing but a word or a number. -/
theorem not_special_of_isWordPart {c : Char} (h : isWordPart c = true) :
    singleMark? c = none ∧ extensibleMark? c = none ∧ c ≠ '/' ∧ isSeparator c = false ∧
      c ≠ '\n' ∧ c ≠ '"' := by
  refine ⟨?_, ?_, ?_, ?_, ?_, ?_⟩
  · unfold singleMark?
    split <;> first | rfl | exact absurd h (by decide)
  · unfold extensibleMark?
    split <;> first | rfl | exact absurd h (by decide)
  · rintro rfl
    exact absurd h (by decide)
  · simp only [isSeparator, Bool.or_eq_false_iff, decide_eq_false_iff_not]
    refine ⟨⟨?_, ?_⟩, ?_⟩ <;>
    · rintro rfl
      exact absurd h (by decide)
  · rintro rfl
    exact absurd h (by decide)
  · rintro rfl
    exact absurd h (by decide)

/-! ### Lengths -/

theorem spanLength_le (p : Char → Bool) (cs : List Char) : spanLength p cs ≤ cs.length :=
  (List.takeWhile_prefix p).length_le

theorem fractionLength_le (cs : List Char) : fractionLength cs ≤ cs.length := by
  unfold fractionLength
  split
  · next d ds =>
    have := spanLength_le Char.isDigit ds
    split
    · simp only [List.length_cons]
      omega
    · exact Nat.zero_le _
  · exact Nat.zero_le _

/-- A piece takes no more characters than there are. -/
theorem classify_le (c : Char) (cs : List Char) : (classify c cs).2 ≤ cs.length := by
  have hequal : ∀ d : Char, cs.head? = some d → 1 ≤ cs.length := by
    intro d hd
    cases cs with
    | nil => cases hd
    | cons d cs => simp
  -- the scanner looks for a mark, a slash, a blank, a newline, a quote, a digit and a letter
  unfold classify
  split
  · exact Nat.zero_le _
  split
  · split
    · next h => exact hequal _ h
    · exact Nat.zero_le _
  split
  · split
    · exact spanLength_le _ _
    · exact Nat.zero_le _
  split
  · exact Nat.zero_le _
  split
  · exact Nat.zero_le _
  split
  · dsimp only
    split
    · next h => exact h
    · exact spanLength_le _ _
  split
  · have hwhole := spanLength_le Char.isDigit cs
    have hfraction := fractionLength_le (cs.drop (spanLength Char.isDigit cs))
    rw [List.length_drop] at hfraction
    dsimp only
    omega
  split
  · exact spanLength_le _ _
  · exact Nat.zero_le _

/-- The first piece, and the pieces of what it leaves. -/
theorem pieces_cons (c : Char) (cs : List Char) : pieces (c :: cs) =
    ⟨(classify c cs).1, c :: cs.take (classify c cs).2⟩ :: pieces (cs.drop (classify c cs).2) := by
  rw [pieces]

/-! ### The first piece -/

variable {c : Char} {cs t rest : List Char} {shape : Shape}

theorem classify_extensible {short long : Symbol} (h : extensibleMark? c = some (short, long))
    (cs : List Char) : classify c cs =
      if cs.head? = some '=' then (.mark long, 1) else (.mark short, 0) := by
  have hsingle : singleMark? c = none := by
    unfold extensibleMark? at h
    split at h <;> first | rfl | cases h
  rw [classify, hsingle, h]

theorem classify_slash (cs : List Char) : classify '/' cs =
    if cs.head? = some '/' then (.comment, spanLength (· ≠ '\n') cs) else (.mark .slash, 0) := rfl

theorem classify_quote (cs : List Char) : classify '"' cs =
    if spanLength (· ≠ '"') cs < cs.length then (.string, spanLength (· ≠ '"') cs + 1)
    else (.unterminated, spanLength (· ≠ '"') cs) := rfl

/-- A numeral is its digits, and a fraction if one follows. -/
theorem classify_digit (h : c.isDigit = true) (cs : List Char) : classify c cs =
    (.number, spanLength Char.isDigit cs +
      fractionLength (cs.drop (spanLength Char.isDigit cs))) := by
  obtain ⟨hsingle, hextensible, hslash, hblank, hnewline, hquote⟩ :=
    not_special_of_isWordPart (c := c) (by simp [isWordPart, h])
  simp [classify, hsingle, hextensible, hslash, hblank, hnewline, hquote, h]

/-- A word goes on as long as there are letters and digits. -/
theorem classify_word (h : isWordStart c = true) (cs : List Char) :
    classify c cs = (.word, spanLength isWordPart cs) := by
  obtain ⟨hsingle, hextensible, hslash, hblank, hnewline, hquote⟩ :=
    not_special_of_isWordPart (c := c) (by simp [isWordPart, h])
  have hdigit : c.isDigit = false := by
    rw [Bool.eq_false_iff, Ne, isDigit_iff]
    rintro ⟨hlow, hhigh⟩
    simp only [Char.le_def, UInt32.le_iff_toNat_le] at hlow hhigh
    change 48 ≤ c.val.toNat at hlow
    change c.val.toNat ≤ 57 at hhigh
    rcases isWordStart_iff.1 h with ⟨hletter, -⟩ | ⟨hletter, -⟩ | rfl
    · change 97 ≤ c.val.toNat at hletter
      omega
    · change 65 ≤ c.val.toNat at hletter
      omega
    · exact absurd hhigh (by decide)
  simp [classify, hsingle, hextensible, hslash, hblank, hnewline, hquote, hdigit, h]

/-! ### Stretches -/

section Stretches

variable {p : Char → Bool}

/-- A stretch reaches at least as far as all characters pass the test. -/
theorem length_le_spanLength (h : ∀ d ∈ t, p d = true) (rest : List Char) :
    t.length ≤ spanLength p (t ++ rest) := by
  rw [spanLength, List.takeWhile_append_of_pos h, List.length_append]
  exact Nat.le_add_right _ _

/-- A stretch that passes a test ends in front of a character that fails it. -/
theorem spanLength_eq_length (h : ∀ d ∈ t, p d = true)
    (hrest : ∀ d, rest.head? = some d → p d = false) : spanLength p (t ++ rest) = t.length := by
  rw [spanLength, List.takeWhile_append_of_pos h]
  cases rest with
  | nil => simp
  | cons d rest => simp [hrest d rfl]

/-- Every text starts with a stretch that passes a test and ends in front of a character that fails
it. -/
theorem exists_stretch (p : Char → Bool) (cs : List Char) : ∃ t rest, cs = t ++ rest ∧
    (∀ d ∈ t, p d = true) ∧ ∀ d, rest.head? = some d → p d = false := by
  induction cs with
  | nil => exact ⟨[], [], by simp⟩
  | cons c cs ih =>
    obtain ⟨t, rest, rfl, ht, hrest⟩ := ih
    cases hc : p c with
    | false => exact ⟨[], c :: (t ++ rest), by simp [hc]⟩
    | true => exact ⟨c :: t, rest, rfl, by simpa [hc] using ht, hrest⟩

end Stretches

/-- A fraction is a point and the digits after it, at least one. -/
theorem fractionLength_cases (cs : List Char) : fractionLength cs = 0 ∨
    ∃ decimals rest, cs = '.' :: (decimals ++ rest) ∧ decimals ≠ [] ∧
      (∀ d ∈ decimals, d.isDigit = true) ∧ fractionLength cs = decimals.length + 1 := by
  unfold fractionLength
  split
  · next d cs =>
    cases hd : d.isDigit with
    | false => exact .inl (by simp)
    | true =>
      obtain ⟨t, rest, rfl, ht, hrest⟩ := exists_stretch Char.isDigit cs
      refine .inr ⟨d :: t, rest, rfl, by simp, by simpa [hd] using ht, ?_⟩
      rw [if_pos rfl, spanLength_eq_length ht hrest, List.length_cons]
      omega
  · exact .inl rfl

theorem length_le_fractionLength {decimals : List Char} (hne : decimals ≠ [])
    (h : ∀ d ∈ decimals, d.isDigit = true) (rest : List Char) :
    decimals.length + 1 ≤ fractionLength ('.' :: (decimals ++ rest)) := by
  obtain ⟨d, ds, rfl⟩ := List.exists_cons_of_ne_nil hne
  have hds := length_le_spanLength (fun e he => h e (List.mem_cons_of_mem d he)) rest
  simp only [List.cons_append, fractionLength, h d List.mem_cons_self, if_true, List.length_cons]
  omega

/-! ### Marks -/

theorem singleMark?_spelling {s : Symbol} (h : singleMark? c = some s) :
    s ∈ Symbol.marks ∧ s ≠ .slash ∧ s.spelling.toList = [c] := by
  unfold singleMark? at h
  split at h <;> cases h <;> exact ⟨by decide, by decide, rfl⟩

theorem extensibleMark?_spelling {short long : Symbol}
    (h : extensibleMark? c = some (short, long)) :
    (short ∈ Symbol.marks ∧ short ≠ .slash ∧ short.spelling.toList = [c]) ∧
      long ∈ Symbol.marks ∧ long ≠ .slash ∧ long.spelling.toList = [c, '='] := by
  unfold extensibleMark? at h
  split at h <;> cases h <;> exact ⟨⟨by decide, by decide, rfl⟩, by decide, by decide, rfl⟩

/-- Every mark but the slash is complete after one character, or is one that an equals sign may
extend, alone or extended. -/
theorem Symbol.mark_cases {s : Symbol} (h : s ∈ Symbol.marks) (hs : s ≠ .slash) :
    (∃ c, singleMark? c = some s ∧ s.spelling.toList = [c]) ∨
    (∃ c long, extensibleMark? c = some (s, long) ∧ s.spelling.toList = [c]) ∨
    ∃ c short, extensibleMark? c = some (short, s) ∧ s.spelling.toList = [c, '='] := by
  cases s <;> first
    | exact .inl ⟨_, rfl, rfl⟩
    | exact .inr (.inl ⟨_, _, rfl, rfl⟩)
    | exact .inr (.inr ⟨_, _, rfl, rfl⟩)
    | exact absurd rfl hs
    | exact absurd h (by decide)

/-! ### Lexemes and the first piece -/

theorem Lexeme.ne_nil {text : List Char} (h : Lexeme shape text rest) : text ≠ [] := by
  cases h with
  | mark h hs =>
    rcases Symbol.mark_cases h hs with ⟨c, -, heq⟩ | ⟨c, -, -, heq⟩ | ⟨c, -, -, heq⟩ <;> simp [heq]
  | whole hne _ => exact hne
  | fraction hne _ _ _ => simp
  | _ => simp

/-- The first piece of a text is a lexeme. -/
def FirstIsLexeme (c : Char) (cs : List Char) : Prop :=
  Lexeme (classify c cs).1 (c :: cs.take (classify c cs).2) (cs.drop (classify c cs).2)

theorem firstIsLexeme_single {s : Symbol} (h : singleMark? c = some s) (cs : List Char) :
    FirstIsLexeme c cs := by
  obtain ⟨hmark, hslash, hspelling⟩ := singleMark?_spelling h
  have hcut : classify c cs = (.mark s, 0) := by simp [classify, h]
  rw [FirstIsLexeme, hcut, List.take_zero, ← hspelling]
  exact .mark hmark hslash

theorem firstIsLexeme_extensible {short long : Symbol}
    (h : extensibleMark? c = some (short, long)) (cs : List Char) : FirstIsLexeme c cs := by
  obtain ⟨⟨hmark, hslash, hspelling⟩, hmark', hslash', hspelling'⟩ := extensibleMark?_spelling h
  rw [FirstIsLexeme, classify_extensible h]
  split
  · next hequal =>
    obtain ⟨rest, rfl⟩ := List.head?_eq_some_iff.1 hequal
    simp only [List.take_succ_cons, List.take_zero, ← hspelling']
    exact .mark hmark' hslash'
  · rw [List.take_zero, ← hspelling]
    exact .mark hmark hslash

/-- Two slashes begin a comment, one is a mark. -/
theorem firstIsLexeme_slash (cs : List Char) : FirstIsLexeme '/' cs := by
  rw [FirstIsLexeme, classify_slash]
  split
  · next hcomment =>
    obtain ⟨cs, rfl⟩ := List.head?_eq_some_iff.1 hcomment
    obtain ⟨t, rest, rfl, ht, hrest⟩ := exists_stretch (· ≠ '\n') cs
    have hspan : spanLength (· ≠ '\n') ('/' :: t ++ rest) = ('/' :: t).length :=
      spanLength_eq_length (by simpa using ht) hrest
    rw [← List.cons_append, hspan, List.take_left, List.drop_left]
    exact .comment (fun h => by simpa using ht _ h) fun d hd => by simpa using hrest d hd
  · next hslash => exact .slash hslash

/-- A string is closed, or takes all that is left. -/
theorem firstIsLexeme_quote (cs : List Char) : FirstIsLexeme '"' cs ∨
    classify '"' cs = (.unterminated, cs.length) ∧ '"' ∉ cs := by
  obtain ⟨t, rest, rfl, ht, hrest⟩ := exists_stretch (· ≠ '"') cs
  have hinside : '"' ∉ t := fun h => by simpa using ht _ h
  have hspan : spanLength (fun d => decide (d ≠ '"')) (t ++ rest) = t.length :=
    spanLength_eq_length ht hrest
  cases rest with
  | nil =>
    refine .inr ⟨?_, by simpa using hinside⟩
    rw [classify_quote, hspan, if_neg (by simp), List.append_nil]
  | cons d rest =>
    obtain rfl : d = '"' := by simpa using hrest d rfl
    left
    rw [FirstIsLexeme, classify_quote, hspan, if_pos (by simp), List.take_length_add_append,
      List.take_succ_cons, List.take_zero]
    exact .string hinside

theorem firstIsLexeme_digit (h : c.isDigit = true) (cs : List Char) : FirstIsLexeme c cs := by
  obtain ⟨t, rest, rfl, ht, hrest⟩ := exists_stretch Char.isDigit cs
  have hdigits : ∀ d ∈ c :: t, IsDigit d := by
    simpa [isDigit_iff] using And.intro h ht
  rw [FirstIsLexeme, classify_digit h, spanLength_eq_length ht hrest, List.drop_left]
  rcases fractionLength_cases rest with hzero | ⟨decimals, rest, rfl, hne, hdecimals, hlength⟩
  · rw [hzero, Nat.add_zero, List.take_left]
    exact .whole (by simp) hdigits
  · rw [hlength, List.take_length_add_append, List.take_succ_cons, List.take_left,
      ← List.cons_append]
    exact .fraction (by simp) hdigits hne fun d hd => isDigit_iff.1 (hdecimals d hd)

theorem firstIsLexeme_word (h : isWordStart c = true) (cs : List Char) : FirstIsLexeme c cs := by
  obtain ⟨t, rest, rfl, ht, hrest⟩ := exists_stretch isWordPart cs
  rw [FirstIsLexeme, classify_word h, spanLength_eq_length ht hrest, List.take_left,
    List.drop_left]
  exact .word (isWordStart_iff.1 h) fun d hd => isWordPart_iff.1 (ht d hd)

/-- The first piece is a lexeme, unless it is an open string that takes all that is left or a
character that begins nothing. -/
theorem classify_cases (c : Char) (cs : List Char) : FirstIsLexeme c cs ∨
    (classify c cs = (.unterminated, cs.length) ∧ c = '"' ∧ '"' ∉ cs) ∨
    (classify c cs = (.unexpected, 0) ∧ c ≠ '"') := by
  cases hsingle : singleMark? c with
  | some s => exact .inl (firstIsLexeme_single hsingle cs)
  | none =>
  cases hextensible : extensibleMark? c with
  | some marks => exact .inl (firstIsLexeme_extensible hextensible cs)
  | none =>
  by_cases hslash : c = '/'
  · subst hslash
    exact .inl (firstIsLexeme_slash cs)
  by_cases hquote : c = '"'
  · subst hquote
    rcases firstIsLexeme_quote cs with hlexeme | ⟨hcut, hinside⟩
    · exact .inl hlexeme
    · exact .inr (.inl ⟨hcut, rfl, hinside⟩)
  by_cases hdigit : c.isDigit = true
  · exact .inl (firstIsLexeme_digit hdigit cs)
  by_cases hword : isWordStart c = true
  · exact .inl (firstIsLexeme_word hword cs)
  by_cases hblank : isSeparator c = true
  · have hcut : classify c cs = (.blank, 0) := by
      simp [classify, hsingle, hextensible, hslash, hblank]
    rw [FirstIsLexeme, hcut]
    exact .inl (.blank (by simpa [isSeparator, or_assoc] using hblank))
  by_cases hnewline : c = '\n'
  · subst hnewline
    exact .inl .newline
  · refine .inr (.inr ⟨?_, hquote⟩)
    simp [classify, hsingle, hextensible, hslash, hquote, hdigit, hword, hblank, hnewline]

/-- A lexeme with which a text starts reaches no further than the first piece, and has its shape if
it reaches as far. -/
theorem Lexeme.within_first (h : Lexeme shape (c :: t) rest) :
    t.length ≤ (classify c (t ++ rest)).2 ∧
    (t.length = (classify c (t ++ rest)).2 → (classify c (t ++ rest)).1 = shape) ∧
    (classify c (t ++ rest)).1 ≠ .unexpected ∧ (classify c (t ++ rest)).1 ≠ .unterminated := by
  generalize htext : c :: t = text at h
  -- for each form of a lexeme, how far the scanner goes from its first character
  cases h with
  | mark h hs =>
    rcases Symbol.mark_cases h hs with ⟨d, hd, heq⟩ | ⟨d, long, hd, heq⟩ | ⟨d, short, hd, heq⟩
    · rw [heq] at htext
      cases htext
      simp [classify, hd]
    · rw [heq] at htext
      cases htext
      rw [List.nil_append, classify_extensible hd]
      split <;> simp
    · rw [heq] at htext
      cases htext
      simp [classify_extensible hd]
  | slash hslash =>
    cases htext
    simp [classify_slash, hslash]
  | @string inside _ hinside =>
    cases htext
    have hspan : spanLength (fun d => decide (d ≠ '"')) (inside ++ '"' :: rest) = inside.length :=
      spanLength_eq_length (fun d hd => by simpa using ne_of_mem_of_not_mem hd hinside) (by simp)
    simp only [List.append_assoc, List.singleton_append, classify_quote, hspan]
    simp
  | whole hne hdigits =>
    subst htext
    have hspan := length_le_spanLength
      (fun d hd => isDigit_iff.2 (hdigits d (List.mem_cons_of_mem c hd))) rest
    rw [classify_digit (isDigit_iff.2 (hdigits c List.mem_cons_self))]
    exact ⟨Nat.le_add_right_of_le hspan, by simp⟩
  | @fraction digits decimals _ hne hdigits hne' hdecimals =>
    obtain ⟨d, ds, rfl⟩ := List.exists_cons_of_ne_nil hne
    rw [List.cons_append, List.cons.injEq] at htext
    obtain ⟨rfl, rfl⟩ := htext
    have hspan : spanLength Char.isDigit (ds ++ '.' :: (decimals ++ rest)) = ds.length :=
      spanLength_eq_length
        (fun e he => isDigit_iff.2 (hdigits e (List.mem_cons_of_mem c he))) (by simp)
    have hfraction :=
      length_le_fractionLength hne' (fun d hd => isDigit_iff.2 (hdecimals d hd)) rest
    rw [classify_digit (isDigit_iff.2 (hdigits c List.mem_cons_self)), List.append_assoc,
      List.cons_append, hspan, List.drop_left]
    exact ⟨by simpa using hfraction, by simp⟩
  | word hletter hparts =>
    cases htext
    have hspan := length_le_spanLength (fun d hd => isWordPart_iff.2 (hparts d hd)) rest
    simp [classify_word (isWordStart_iff.2 hletter), hspan]
  | blank hblank =>
    cases htext
    simp only [List.mem_cons, List.not_mem_nil, or_false] at hblank
    rcases hblank with rfl | rfl | rfl <;>
      simp [classify, singleMark?, extensibleMark?, isSeparator]
  | newline =>
    cases htext
    simp [classify, singleMark?, extensibleMark?, isSeparator]
  | @comment inside _ hinside hrest =>
    cases htext
    have hspan : spanLength (fun d => decide (d ≠ '\n')) ('/' :: inside ++ rest) =
        ('/' :: inside).length := by
      refine spanLength_eq_length (fun d hd => ?_) fun d hd => by simpa using hrest d hd
      rcases List.mem_cons.1 hd with rfl | hd
      · decide
      · simpa using ne_of_mem_of_not_mem hd hinside
    rw [classify_slash, hspan, if_pos (by simp)]
    simp

/-! ### All pieces -/

/-- The pieces that are found are longest lexemes, open strings and single characters. -/
theorem cut_pieces (cs : List Char) : Cut cs (pieces cs) := by
  fun_induction pieces cs with
  | case1 => exact .done
  | case2 c cs cut ih =>
    have hfirst : cs.take cut.2 ++ cs.drop cut.2 = cs := List.take_append_drop _ _
    rcases classify_cases c cs with hlexeme | ⟨hcut, rfl, hinside⟩ | ⟨hcut, hquote⟩
    · have hcut := Cut.longest hlexeme (fun shape' text' rest' h heq => ?_) ih
      · rwa [List.cons_append, hfirst] at hcut
      · obtain ⟨d, t, rfl⟩ := List.exists_cons_of_ne_nil h.ne_nil
        rw [List.cons_append, List.cons_append, hfirst, List.cons.injEq] at heq
        obtain ⟨rfl, rfl⟩ := heq
        have hle := h.within_first.1
        have hshort := classify_le d (t ++ rest')
        simp only [List.length_cons, List.length_take]
        omega
    · simp only [cut, hcut, List.take_length, List.drop_length, pieces]
      exact .unterminated hinside
    · simp only [cut, hcut, List.take_zero, List.drop_zero] at ih ⊢
      refine .unexpected hquote (fun shape text rest h heq => ?_) ih
      obtain ⟨d, t, rfl⟩ := List.exists_cons_of_ne_nil h.ne_nil
      rw [List.cons_append, List.cons.injEq] at heq
      obtain ⟨rfl, rfl⟩ := heq
      exact h.within_first.2.2.1 (by rw [hcut])

/-- A text is cut in one way only. -/
theorem Cut.eq_pieces {ps : List Piece} (h : Cut cs ps) : ps = pieces cs := by
  induction h with
  | done => simp [pieces]
  | @longest shape text rest ps hlexeme hlongest _ ih =>
    obtain ⟨c, t, rfl⟩ := List.exists_cons_of_ne_nil hlexeme.ne_nil
    obtain ⟨hle, hshape, hunexpected, hopen⟩ := hlexeme.within_first
    have hshort := classify_le c (t ++ rest)
    have hfirst : FirstIsLexeme c (t ++ rest) := by
      rcases classify_cases c (t ++ rest) with h | ⟨hcut, -, -⟩ | ⟨hcut, -⟩
      · exact h
      · rw [hcut] at hopen
        exact absurd rfl hopen
      · rw [hcut] at hunexpected
        exact absurd rfl hunexpected
    -- the first piece is a lexeme, so it is no longer than the longest
    have hge := hlongest _ _ _ hfirst (by simp)
    have hlength : t.length = (classify c (t ++ rest)).2 := by
      simp only [List.length_cons, List.length_take] at hge
      omega
    rw [List.cons_append, pieces_cons, hshape hlength, ← hlength, List.take_left, List.drop_left,
      ih]
  | @unexpected c rest ps hquote hnone _ ih =>
    rcases classify_cases c rest with h | ⟨-, rfl, -⟩ | ⟨hcut, -⟩
    · exact absurd (by simp) (hnone _ _ _ h)
    · exact absurd rfl hquote
    · rw [pieces_cons, hcut, List.take_zero, List.drop_zero, ih]
  | @unterminated inside hinside =>
    have hspan : spanLength (fun d => decide (d ≠ '"')) (inside ++ []) = inside.length :=
      spanLength_eq_length (fun d hd => by simpa using ne_of_mem_of_not_mem hd hinside) (by simp)
    rw [List.append_nil] at hspan
    rw [pieces_cons, classify_quote, hspan, if_neg (Nat.lt_irrefl _), List.take_length,
      List.drop_length, pieces]

end Lox
