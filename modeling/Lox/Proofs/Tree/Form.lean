import Lox.Proofs.Token.LongestMatch
import Lox.Tree.Printer

/-!
Printed trees before they are laid out. A printed tree consists of words, of strings between quotes
and of lists of such. A word holds no blank, no newline, no parenthesis and no quote, and a string
holds no quote; all else may stand in a string. So a form can be read off its characters in one way
only, and where it ends needs no mark: what follows it begins with a blank, a newline or a closing
parenthesis, or is nothing.
-/

namespace Lox

/-- What is printed: a word, a string or a list. -/
inductive Form where
  | word (cs : List Char)
  | quoted (cs : List Char)
  | list (parts : List Form)

namespace Form

mutual

/-- The characters of a form. -/
def chars : Form → List Char
  | .word cs => cs
  | .quoted cs => '"' :: (cs ++ ['"'])
  | .list parts => '(' :: ([' '].intercalate (charsAll parts) ++ [')'])

/-- The characters of each of the forms. -/
def charsAll : List Form → List (List Char)
  | [] => []
  | f :: fs => f.chars :: charsAll fs

end

/-- The characters that separate, enclose or quote. -/
def marks : List Char := [' ', '\n', '(', ')', '"']

/-- The form can be told from what stands around it. -/
inductive Legible : Form → Prop
  | word {cs : List Char} : cs ≠ [] → (∀ c ∈ cs, c ∉ marks) → Legible (.word cs)
  | quoted {cs : List Char} : '"' ∉ cs → Legible (.quoted cs)
  | list {parts : List Form} : (∀ f ∈ parts, Legible f) → Legible (.list parts)

/-- Here a form may end: nothing follows, or a blank, a newline or a closing parenthesis. -/
def Ends (rest : List Char) : Prop := ∀ c, rest.head? = some c → c ∈ [' ', '\n', ')']

/-- Here a list of forms may end: nothing follows, or a closing parenthesis. -/
def Closes (rest : List Char) : Prop := ∀ c, rest.head? = some c → c = ')'

variable {f g : Form} {fs gs : List Form} {cs ds rest others : List Char} {separator : Char}

theorem Closes.ends (h : Closes rest) : Ends rest := by
  intro c hc
  simp [h c hc]

theorem closes_paren (rest : List Char) : Closes (')' :: rest) := by
  simp [Closes]

theorem closes_nil : Closes [] := by
  simp [Closes]

/-- The form, wherever it stands, is the only one with its characters, and ends where it ends. -/
def Readable (f : Form) : Prop := ∀ g rest others, Legible g → Ends rest → Ends others →
  f.chars ++ rest = g.chars ++ others → f = g ∧ rest = others

/-! ### Words and strings -/

/-- Two stretches up to the first character that fails a test. -/
theorem stretch_inj {p : Char → Bool} (hcs : ∀ c ∈ cs, p c = true) (hds : ∀ c ∈ ds, p c = true)
    (hrest : ∀ c, rest.head? = some c → p c = false)
    (hothers : ∀ c, others.head? = some c → p c = false) (h : cs ++ rest = ds ++ others) :
    cs = ds ∧ rest = others := by
  have hlength : cs.length = ds.length := by
    rw [← spanLength_eq_length hcs hrest, h, spanLength_eq_length hds hothers]
  exact List.append_inj h hlength

theorem word_inj (hcs : ∀ c ∈ cs, c ∉ marks) (hds : ∀ c ∈ ds, c ∉ marks) (hrest : Ends rest)
    (hothers : Ends others) (h : cs ++ rest = ds ++ others) : cs = ds ∧ rest = others := by
  have hends : ∀ {rest : List Char}, Ends rest →
      ∀ c, rest.head? = some c → decide (c ∉ marks) = false := by
    intro rest hrest c hc
    have hmem := hrest c hc
    simp only [List.mem_cons, List.not_mem_nil, or_false] at hmem
    rcases hmem with rfl | rfl | rfl <;> rfl
  exact stretch_inj (p := fun c => c ∉ marks) (by simpa using hcs) (by simpa using hds)
    (hends hrest) (hends hothers) h

theorem quoted_inj (hcs : '"' ∉ cs) (hds : '"' ∉ ds)
    (h : cs ++ '"' :: rest = ds ++ '"' :: others) : cs = ds ∧ rest = others := by
  have hinside : ∀ {cs : List Char}, '"' ∉ cs → ∀ c ∈ cs, decide (c ≠ '"') = true := by
    intro cs hcs c hc
    simpa using ne_of_mem_of_not_mem hc hcs
  obtain ⟨rfl, hrest⟩ := stretch_inj (hinside hcs) (hinside hds) (by simp) (by simp) h
  exact ⟨rfl, (List.cons.inj hrest).2⟩

/-! ### First characters -/

theorem chars_word_head (hne : cs ≠ []) (hcs : ∀ c ∈ cs, c ∉ marks) (rest : List Char) :
    ∃ c ds, (word cs).chars ++ rest = c :: ds ∧ c ∉ marks := by
  obtain ⟨c, cs, rfl⟩ := List.exists_cons_of_ne_nil hne
  exact ⟨c, cs ++ rest, by rw [chars, List.cons_append], hcs c List.mem_cons_self⟩

/-- No form begins with a closing parenthesis. -/
theorem Legible.not_closes (h : f.Legible) (rest : List Char) : ¬ Closes (f.chars ++ rest) := by
  intro hcloses
  cases h with
  | word hne hcs =>
    obtain ⟨c, ds, hchars, hc⟩ := chars_word_head hne hcs rest
    rw [hchars] at hcloses
    rw [hcloses c rfl] at hc
    exact hc (by decide)
  | quoted => exact absurd (hcloses '"' (by simp [chars])) (by decide)
  | list => exact absurd (hcloses '(' (by simp [chars])) (by decide)

/-! ### Lists -/

theorem charsAll_eq_map (fs : List Form) : charsAll fs = fs.map chars := by
  induction fs with
  | nil => rw [charsAll, List.map_nil]
  | cons f fs ih => rw [charsAll, List.map_cons, ih]

theorem intercalate_cons (separator : Char) (cs : List Char) (xs : List (List Char)) :
    [separator].intercalate (cs :: xs) = cs ++ xs.flatMap (separator :: ·) := by
  induction xs generalizing cs with
  | nil => simp
  | cons ds xs ih => simp [List.intercalate_cons_cons, ih]

/-- What follows the first of several forms. -/
theorem tail_inj (hseparator : separator ∈ [' ', '\n']) (hfs : ∀ f ∈ fs, Readable f)
    (hgs : ∀ g ∈ gs, Legible g) (hrest : Closes rest) (hothers : Closes others)
    (h : (fs.map chars).flatMap (separator :: ·) ++ rest =
      (gs.map chars).flatMap (separator :: ·) ++ others) : fs = gs ∧ rest = others := by
  have hopen : separator ≠ ')' := by
    rintro rfl
    exact absurd hseparator (by decide)
  have hends : ∀ {fs : List Form} {rest : List Char}, Closes rest →
      Ends ((fs.map chars).flatMap (separator :: ·) ++ rest) := by
    intro fs rest hrest
    cases fs with
    | nil => exact hrest.ends
    | cons f fs =>
      intro c hc
      simp only [List.map_cons, List.flatMap_cons, List.cons_append, List.head?_cons,
        Option.some.injEq] at hc
      subst hc
      simp only [List.mem_cons, List.not_mem_nil, or_false] at hseparator ⊢
      rcases hseparator with rfl | rfl <;> simp
  -- each form is read off in front of a separator, and the last one in front of what closes
  induction fs generalizing gs with
  | nil =>
    cases gs with
    | nil => exact ⟨rfl, h⟩
    | cons g gs =>
      subst h
      exact absurd (hrest separator (by simp)) hopen
  | cons f fs ih =>
    cases gs with
    | nil =>
      subst h
      exact absurd (hothers separator (by simp)) hopen
    | cons g gs =>
      rw [List.forall_mem_cons] at hfs hgs
      simp only [List.map_cons, List.flatMap_cons, List.cons_append, List.append_assoc,
        List.cons.injEq, true_and] at h
      obtain ⟨rfl, htail⟩ := hfs.1 g _ _ hgs.1 (hends hrest) (hends hothers) h
      obtain ⟨rfl, hrests⟩ := ih hfs.2 hgs.2 htail
      exact ⟨rfl, hrests⟩

/-- Several forms with single separators between them can be read off in one way only. -/
theorem joined_inj (hseparator : separator ∈ [' ', '\n']) (hfs : ∀ f ∈ fs, Legible f)
    (hreadable : ∀ f ∈ fs, Readable f) (hgs : ∀ g ∈ gs, Legible g) (hrest : Closes rest)
    (hothers : Closes others) (h : [separator].intercalate (charsAll fs) ++ rest =
      [separator].intercalate (charsAll gs) ++ others) : fs = gs ∧ rest = others := by
  rw [charsAll_eq_map, charsAll_eq_map] at h
  cases fs with
  | nil =>
    cases gs with
    | nil => exact ⟨rfl, h⟩
    | cons g gs =>
      rw [List.map_cons, intercalate_cons, List.append_assoc] at h
      change rest = _ at h
      rw [h] at hrest
      exact absurd hrest ((hgs g List.mem_cons_self).not_closes _)
  | cons f fs =>
    cases gs with
    | nil =>
      rw [List.map_cons, intercalate_cons, List.append_assoc] at h
      change _ = others at h
      rw [← h] at hothers
      exact absurd hothers ((hfs f List.mem_cons_self).not_closes _)
    | cons g gs =>
      -- with a separator in front of the first form as well, all forms are treated alike
      refine tail_inj hseparator hreadable hgs hrest hothers ?_
      simpa [intercalate_cons] using h

/-! ### Forms -/

/-- A form can be read off its characters in one way only. -/
theorem Legible.readable (h : f.Legible) : Readable f := by
  -- the first character tells words, strings and lists apart
  induction h with
  | @word cs hne hcs =>
    intro g rest others hg hrest hothers heq
    cases hg with
    | word _ hds =>
      rw [chars, chars] at heq
      obtain ⟨rfl, hrests⟩ := word_inj hcs hds hrest hothers heq
      exact ⟨rfl, hrests⟩
    | quoted | list =>
      obtain ⟨c, ds, hchars, hc⟩ := chars_word_head hne hcs rest
      rw [hchars, chars, List.cons_append, List.cons.injEq] at heq
      rw [heq.1] at hc
      exact absurd hc (by decide)
  | @quoted cs hcs =>
    intro g rest others hg hrest hothers heq
    cases hg with
    | word hne hds =>
      obtain ⟨c, ds, hchars, hc⟩ := chars_word_head hne hds others
      rw [hchars, chars, List.cons_append, List.cons.injEq] at heq
      rw [← heq.1] at hc
      exact absurd hc (by decide)
    | quoted hds =>
      simp only [chars, List.cons_append, List.append_assoc, List.nil_append, List.cons.injEq,
        true_and] at heq
      obtain ⟨rfl, hrests⟩ := quoted_inj hcs hds heq
      exact ⟨rfl, hrests⟩
    | list => simp [chars] at heq
  | @list fs hfs ih =>
    intro g rest others hg hrest hothers heq
    cases hg with
    | word hne hds =>
      obtain ⟨c, ds, hchars, hc⟩ := chars_word_head hne hds others
      rw [hchars, chars, List.cons_append, List.cons.injEq] at heq
      rw [← heq.1] at hc
      exact absurd hc (by decide)
    | quoted => simp [chars] at heq
    | list hgs =>
      simp only [chars, List.cons_append, List.append_assoc, List.nil_append, List.cons.injEq,
        true_and] at heq
      obtain ⟨rfl, hrests⟩ := joined_inj (by decide) hfs ih hgs (closes_paren rest)
        (closes_paren others) heq
      exact ⟨rfl, (List.cons.inj hrests).2⟩

/-- Forms that stand one below the other can be read off in one way only. -/
theorem lines_inj (hfs : ∀ f ∈ fs, Legible f) (hgs : ∀ g ∈ gs, Legible g)
    (h : ['\n'].intercalate (charsAll fs) = ['\n'].intercalate (charsAll gs)) : fs = gs := by
  have hsame : ['\n'].intercalate (charsAll fs) ++ [] = ['\n'].intercalate (charsAll gs) ++ [] := by
    rw [h]
  exact (joined_inj (by decide) hfs (fun f hf => (hfs f hf).readable) hgs closes_nil closes_nil
    hsame).1

end Form

end Lox
