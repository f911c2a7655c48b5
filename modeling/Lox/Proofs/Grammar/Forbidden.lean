import Lox.Proofs.Grammar.Completeness.Statement
import Lox.Proofs.Grammar.Else

/-!
What is forbidden but can be read. Whatever the lenient grammar derives is read as a whole: no
declaration is left out, and the errors are those of the derivation. They do not depend on the
derivation, although the tree does: an `else` may belong to more than one branch.
-/

namespace Lox.Grammar

variable {rule : ElseRule} {inside : Bool} {ts : List Token} {es : List ParseError}

/-! ### Lists that are too long -/

/-- The errors of the first name of a list and of those after it. -/
theorem map_drop_names (fault : ParseFault) (count : Nat) (t : Token) (names : List Token) :
    ((t :: names).drop (255 - count)).map (fun t => (⟨t, fault⟩ : ParseError)) =
      excess fault count [t] ++ (names.drop (255 - (count + 1))).map (⟨·, fault⟩) := by
  unfold excess
  split
  · next h =>
    simp [Nat.sub_eq_zero_of_le h, Nat.sub_eq_zero_of_le (Nat.le_succ_of_le h)]
  · next h =>
    have hone : 255 - count = 255 - (count + 1) + 1 := by omega
    simp [hone]

theorem Lenient.Separated.errors_eq {fault : ParseFault} {count : Nat} {names : List Token}
    (h : Lenient.Separated Lenient.Name fault count ts names es) :
    es = (names.drop (255 - count)).map (⟨·, fault⟩) := by
  induction h with
  | one hname =>
    obtain ⟨-⟩ := hname
    rw [map_drop_names, List.drop_nil, List.map_nil]
  | more hname _ _ ih =>
    obtain ⟨-⟩ := hname
    rw [map_drop_names, ih, List.append_nil]

/-- A list of parameters has one error for each parameter beyond the largest number. -/
theorem Lenient.Items.errors_eq {fault : ParseFault} {names : List Token}
    (h : Lenient.Items Lenient.Name fault ts names es) :
    es = (names.drop 255).map (⟨·, fault⟩) := by
  cases h with
  | none => rfl
  | some h => exact h.errors_eq

/-- Names with commas between them are a list of any items that a name can be. -/
theorem separated_names {α : Type} {Item : List Token → α → List ParseError → Prop}
    {item : Token → α} (hitem : ∀ t : Token, t.kind.isIdentifier = true → Item [t] (item t) [])
    (fault : ParseFault) {comma : Token} (hcomma : comma.is .comma = true) :
    ∀ (names : List Token) (count : Nat), names ≠ [] →
      (∀ t ∈ names, t.kind.isIdentifier = true) →
      Lenient.Separated Item fault count (names.intersperse comma) (names.map item)
        ((names.drop (255 - count)).map (⟨·, fault⟩))
  | [t], count, _, hnames => by
    rw [map_drop_names, List.drop_nil, List.map_nil]
    exact .one (hitem t (hnames t List.mem_cons_self))
  | t :: u :: names, count, _, hnames => by
    rw [List.forall_mem_cons] at hnames
    have hrest := separated_names hitem fault hcomma (u :: names) (count + 1) (by simp) hnames.2
    have hmore := Lenient.Separated.more (hitem t hnames.1) hcomma hrest
    rwa [map_drop_names, ← List.append_nil (excess ..)]

/-! ### Programs -/

/-- Moving an `else` to the nearest branch leaves the declarations where they are. -/
theorem Lenient.Declarations.nearest_length {inside : Bool} {ts : List Token} {ss : List Stmt}
    {es : List ParseError} (h : Lenient.Declarations rule inside ts ss es) :
    ∃ ss', Lenient.Declarations .nearest inside ts ss' es ∧ ss'.length = ss.length := by
  induction ss generalizing ts es with
  | nil =>
    cases h
    exact ⟨[], .nil, rfl⟩
  | cons s ss ih =>
    obtain _ | ⟨hs, hss⟩ := h
    obtain ⟨s', hs'⟩ := hs.nearest
    obtain ⟨ss', hss', hlength⟩ := ih hss
    exact ⟨s' :: ss', .cons hs' hss', by rw [List.length_cons, hlength, List.length_cons]⟩

/-- A list of tokens that the lenient grammar derives is read to its end. No declaration of the
derivation is left out, and the errors are those of the derivation: one for each item beyond the
largest number, one for each assignment to something other than a name, one for each `return`
outside every function. The tree is that of the derivation in which each `else` belongs to the
nearest branch; whichever branch it belongs to, the errors are the same. -/
theorem parse_lenient {ss : List Stmt} {eof : Token}
    (h : Lenient.Declarations rule false ts ss es) (heof : eof.isEnd = true) (rest : List Token) :
    ∃ ss', parse (ts ++ eof :: rest) = some ⟨ss', es⟩ ∧ ss'.length = ss.length ∧
      Lenient.Declarations .nearest false ts ss' es ∧
      ∀ {rule' : ElseRule} {us : List Stmt} {fs : List ParseError},
        Lenient.Declarations rule' false ts us fs → fs = es ∧ (rule' = .nearest → us = ss') := by
  obtain ⟨ss', hnearest, hlength⟩ := h.nearest_length
  have hparse : parse (ts ++ eof :: rest) = some ⟨ss', es⟩ := hnearest.parse_eq heof
  refine ⟨ss', hparse, hlength, hnearest, fun {rule' us fs} h' => ?_⟩
  -- what another derivation says is also what is read
  obtain ⟨us', hus'⟩ := h'.nearest
  have hus : parse (ts ++ eof :: rest) = some ⟨us', fs⟩ := hus'.parse_eq heof
  rw [hparse, Option.some.injEq, Parsed.mk.injEq] at hus
  refine ⟨hus.2.symm, ?_⟩
  rintro rfl
  have hread : parse (ts ++ eof :: rest) = some ⟨us, fs⟩ := h'.parse_eq heof
  rw [hparse, Option.some.injEq, Parsed.mk.injEq] at hread
  exact hread.1.symm

/-! ### All that is forbidden, in one program -/

/-- A symbol on the first line. -/
def symbolToken (s : Symbol) : Token := ⟨.symbol s, s.spelling, 1⟩

/-- A name on the first line. -/
def nameToken : Token := ⟨.identifier, "x", 1⟩

/-- A function that returns; a call, to which an assignment to a group is assigned; and a `return`
outside of the function. -/
def overfull (params arguments : List Token) : List Token :=
  [symbolToken .funWord, nameToken, symbolToken .leftParen] ++
    params.intersperse (symbolToken .comma) ++
    [symbolToken .rightParen, symbolToken .leftBrace, symbolToken .returnWord,
      symbolToken .semicolon, symbolToken .rightBrace, nameToken, symbolToken .leftParen] ++
    arguments.intersperse (symbolToken .comma) ++
    [symbolToken .rightParen, symbolToken .equal, symbolToken .leftParen, nameToken,
      symbolToken .rightParen, symbolToken .equal, nameToken, symbolToken .semicolon,
      symbolToken .returnWord, symbolToken .semicolon]

/-- The tree of that program: each assignment is replaced by its left side. -/
def overfullTree (params arguments : List Token) : List Stmt :=
  [.function nameToken params [.returns (symbolToken .returnWord) none],
    .expression (.call (.reference nameToken) (symbolToken .rightParen)
      (arguments.map .reference)),
    .returns (symbolToken .returnWord) none]

/-- The errors of that program. The inner assignment is read before the outer one. -/
def overfullErrors (params arguments : List Token) : List ParseError :=
  (params.drop 255).map (⟨·, .tooManyParameters⟩) ++
    (arguments.drop 255).map (⟨·, .tooManyArguments⟩) ++
    [⟨symbolToken .equal, .assignmentTarget⟩, ⟨symbolToken .equal, .assignmentTarget⟩,
      ⟨symbolToken .returnWord, .topLevelReturn⟩]

section

variable {params arguments : List Token}

theorem reference_phrase (t : Token) (h : t.kind.isIdentifier = true) :
    Lenient.Phrase .expression [t] (.reference t) [] :=
  .loosest (reference_lenient h)

/-- A call can stand before an equals sign. -/
theorem Lenient.Phrase.tiers {e : Expr} (h : Lenient.Phrase .call ts e es) :
    Lenient.Phrase (.tier .or) ts e es :=
  .operand (.operand (.operand (.operand (.operand (.operand (.callee h))))))

theorem return_derives (inside : Bool) :
    Lenient.Declaration .nearest inside ([symbolToken .returnWord] ++ [symbolToken .semicolon])
      (.returns (symbolToken .returnWord) none)
      (returnErrors inside (symbolToken .returnWord) ++ []) :=
  .statement (.returns rfl .none rfl)

theorem function_derives (hp : params ≠ [])
    (hparams : ∀ t ∈ params, t.kind.isIdentifier = true) :
    Lenient.Declaration .nearest false
      (symbolToken .funWord :: nameToken :: symbolToken .leftParen ::
        (params.intersperse (symbolToken .comma) ++ symbolToken .rightParen ::
          symbolToken .leftBrace :: ([symbolToken .returnWord, symbolToken .semicolon] ++
            [symbolToken .rightBrace])))
      (.function nameToken params [.returns (symbolToken .returnWord) none])
      ((params.drop 255).map (⟨·, .tooManyParameters⟩) ++ []) := by
  have hnames := separated_names (fun _ => Lenient.Name.name) .tooManyParameters
    (rfl : (symbolToken .comma).is .comma = true) params 0 hp hparams
  rw [List.map_id'] at hnames
  have hbody : Lenient.Declarations .nearest true
      [symbolToken .returnWord, symbolToken .semicolon]
      [.returns (symbolToken .returnWord) none] [] :=
    .cons (return_derives true) .nil
  exact .function rfl rfl rfl (.some hnames) rfl rfl hbody rfl

theorem assignment_derives (ha : arguments ≠ [])
    (harguments : ∀ t ∈ arguments, t.kind.isIdentifier = true) :
    Lenient.Phrase .expression
      ([nameToken] ++ symbolToken .leftParen ::
        (arguments.intersperse (symbolToken .comma) ++ [symbolToken .rightParen]) ++
          symbolToken .equal :: (symbolToken .leftParen ::
            ([nameToken] ++ [symbolToken .rightParen]) ++ symbolToken .equal :: [nameToken]))
      (.call (.reference nameToken) (symbolToken .rightParen) (arguments.map .reference))
      ((arguments.drop 255).map (⟨·, .tooManyArguments⟩) ++
        [⟨symbolToken .equal, .assignmentTarget⟩] ++
        [⟨symbolToken .equal, .assignmentTarget⟩]) := by
  have hnames := separated_names reference_phrase .tooManyArguments
    (rfl : (symbolToken .comma).is .comma = true) arguments 0 ha harguments
  have hopening : (symbolToken .leftParen).is .leftParen = true := rfl
  have hclosing : (symbolToken .rightParen).is .rightParen = true := rfl
  have hequals : (symbolToken .equal).is .equal = true := rfl
  have hname : nameToken.kind.isIdentifier = true := rfl
  have hcall := Lenient.Phrase.call (.primary (.reference hname)) hopening (.some hnames) hclosing
  have hgroup := Lenient.Phrase.group hopening (reference_phrase nameToken hname) hclosing
  have hinner := Lenient.Phrase.assign (Lenient.Phrase.primary hgroup).tiers hequals
    (reference_phrase nameToken hname)
  exact .assign hcall.tiers hequals hinner

theorem overfull_derives (hp : params ≠ [])
    (hparams : ∀ t ∈ params, t.kind.isIdentifier = true) (ha : arguments ≠ [])
    (harguments : ∀ t ∈ arguments, t.kind.isIdentifier = true) :
    Lenient.Declarations .nearest false (overfull params arguments)
      (overfullTree params arguments) (overfullErrors params arguments) := by
  have hassignment : Lenient.Declaration .nearest false _ _ _ :=
    .statement (.expression (assignment_derives ha harguments)
      (rfl : (symbolToken .semicolon).is .semicolon = true))
  have hall := Lenient.Declarations.cons (function_derives hp hparams)
    (.cons hassignment (.cons (return_derives false) .nil))
  simpa [overfull, overfullTree, overfullErrors, returnErrors] using hall

end

/-- With one parameter and two arguments too many. -/
theorem parse_lenient_overfull :
    let params := List.replicate 256 nameToken
    let arguments := List.replicate 257 nameToken
    Lenient.Declarations .nearest false (overfull params arguments)
      (overfullTree params arguments) (overfullErrors params arguments) ∧
    (overfullErrors params arguments).map (·.fault) =
      [.tooManyParameters, .tooManyArguments, .tooManyArguments, .assignmentTarget,
        .assignmentTarget, .topLevelReturn] ∧
    parse (overfull params arguments ++ [⟨.endOfText, "", 1⟩]) =
      some ⟨overfullTree params arguments, overfullErrors params arguments⟩ := by
  intro params arguments
  have hnames : ∀ n, ∀ t ∈ List.replicate n nameToken, t.kind.isIdentifier = true := by
    intro n t ht
    rw [List.eq_of_mem_replicate ht]
    rfl
  have hne : ∀ n, List.replicate (n + 1) nameToken ≠ [] := fun n => by simp
  have hderives := overfull_derives (hne 255) (hnames 256) (hne 256) (hnames 257)
  obtain ⟨ss, hparse, -, hnearest, hunique⟩ :=
    parse_lenient hderives (rfl : (⟨.endOfText, "", 1⟩ : Token).isEnd = true) []
  obtain ⟨-, htree⟩ := hunique hderives
  refine ⟨hderives, ?_, ?_⟩
  · simp only [params, arguments, overfullErrors, List.drop_replicate, List.map_replicate,
      List.map_append]
    rfl
  · rw [hparse, htree rfl]

end Lox.Grammar
