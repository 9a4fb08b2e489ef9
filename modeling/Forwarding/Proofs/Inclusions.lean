import Forwarding.Output
import Forwarding.Proofs.ParsedArtifacts
/-!
Inclusions. The index of some artifacts is a text of its own: a comment and one invocation for each
artifact, which includes the file of the artifact. Whatever characters the name of the file has, the
literal between the brackets says the name, so that the index, when it is read back, names the files
that are written next to it.
-/

namespace Forwarding

open Grammar Grammar.Parser Lexer Lexeme

/-- The file that an invocation of `include` names: what the literal says that is its only
argument. -/
def Token.included? : List Token → Option String
  | [ident "include", punct '!' _, opening .parenthesis, literal text, closing .parenthesis,
      punct ';' _] => Literal.text? text
  | _ => none

/-- The file that a declaration includes. -/
def Item.included? : Item → Option String
  | .other .unspecified [] tree => Token.included? tree.tokens
  | _ => none

namespace Artifact

/-- The tokens of an invocation that includes a file. -/
def inclusion (name : String) : List Token :=
  [.ident "include", .punct '!' false, .opening .parenthesis, .literal (Text.quoteName name),
    .closing .parenthesis, .punct ';' false]

/-- A line that includes a file. -/
def inclusionLine (name : String) : String :=
  "include!(" ++ Text.quoteName name ++ ");\n"

section Texts

theorem toList_inclusionLine (name : String) (rest : List Char) :
    (inclusionLine name).toList ++ rest = "include".toList ++ '!' :: '(' ::
      ((Text.quoteName name).toList ++ ')' :: ';' :: '\n' :: rest) := by
  have opened : "include!(".toList = "include".toList ++ ['!', '('] := by decide
  have closed : ");\n".toList = [')', ';', '\n'] := by decide
  rw [inclusionLine, String.toList_append, String.toList_append, opened, closed]
  simp only [List.append_assoc, List.cons_append, List.nil_append]

theorem toList_index (artifacts : List Artifact) :
    (index artifacts).toList =
      header.toList ++ '\n' :: artifacts.flatMap fun a => (inclusionLine a.fileName).toList := by
  rw [index, String.toList_append, String.toList_append, String.toList_join, List.flatMap_map,
    List.append_assoc]
  rfl

/-- The literal of a line ends at its closing bracket, whatever the name is. -/
theorem spells_inclusionLine (name : String) {rest : List Char} {tokens : List Token}
    (later : Spells [] rest tokens) :
    Spells [] ((inclusionLine name).toList ++ rest) (inclusion name ++ tokens) := by
  have literal := isLiteral_quoteName name
  have closed : Spells [] (')' :: ';' :: '\n' :: rest)
      (.closing .parenthesis :: .punct ';' false :: tokens) :=
    .token (.closing _ .parenthesis)
      (.token (.operator _ (by decide)) (.blank (by decide) later))
  have stops : Stops (')' :: ';' :: '\n' :: rest) := by
    intro c first
    cases first
    decide
  have said := Spells.token (.literal literal.filled (literal.skipped _ stops)) closed
  rw [Token.chars] at said
  have noComment :
      beginsComment ((Text.quoteName name).toList ++ ')' :: ';' :: '\n' :: rest) = false := by
    rw [Text.quoteName, String.toList_ofList, List.cons_append]
    exact beginsComment_cons (by decide) _
  have opened := Spells.token (.opening .parenthesis noComment) said
  rw [Token.chars, List.singleton_append] at opened
  have invoked := Spells.token (.operator _ (by decide : '!' ∈ operatorSymbols)) opened
  have ends (more : List Char) : EndsWord ('!' :: more) := by
    intro c first
    cases first
    decide
  have named : IsName "include" := by decide +kernel
  have worded := Spells.token (.word named (ends _)) invoked
  rw [toList_inclusionLine]
  exact worded

theorem included?_inclusion (name : String) : Token.included? (inclusion name) = some name :=
  Literal.text?_quoteName name

theorem isMatched_inclusion (name : String) : IsMatched (inclusion name) :=
  .leaf rfl (.leaf rfl (.group .parenthesis (.leaf rfl .nil) (.leaf rfl .nil)))

theorem spells_inclusions (artifacts : List Artifact) :
    Spells [] (artifacts.flatMap fun a => (inclusionLine a.fileName).toList)
      ((artifacts.map (·.fileName)).map inclusion).flatten := by
  induction artifacts with
  | nil => exact .done
  | cons a artifacts ih => exact spells_inclusionLine a.fileName ih

theorem lex_index (artifacts : List Artifact) :
    ∃ lexemes, lex (index artifacts).toList = .ok lexemes ∧
      Shows lexemes ((artifacts.map (·.fileName)).map inclusion).flatten := by
  have spelled := spells_inclusions artifacts
  have stays (fuel : Nat) :
      skipBlanks fuel (artifacts.flatMap fun a => (inclusionLine a.fileName).toList) =
        artifacts.flatMap fun a => (inclusionLine a.fileName).toList := by
    cases artifacts with
    | nil => cases fuel <;> rfl
    | cons a artifacts =>
      have begins : "include".toList = 'i' :: "nclude".toList := by decide
      rw [List.flatMap_cons, toList_inclusionLine, begins]
      exact skipBlanks_cons (by decide) fuel _
  rw [toList_index]
  refine lex_of_words (plain_header _).2 ?_
    (.flatten (List.forall_mem_map.mpr fun name _ => isMatched_inclusion name))
  rw [words_header stays]
  refine words_of_spells spelled ?_
  rw [List.length_append, List.length_cons]
  omega

end Texts

end Artifact

namespace Grammar.Parser

variable {g : Grammar} {inner after : List Token}

theorem passes_anyGroup {delimiter : Delimiter} (matched : IsMatched inner) :
    Passes anyGroup (.opening delimiter :: (inner ++ .closing delimiter :: after)) after
      fun found => found.1 = delimiter ∧
        found.2.tokens = .opening delimiter :: (inner ++ [.closing delimiter]) := by
  intro i none shown
  obtain ⟨body, start, stop, rest, same, inside, later⟩ := shown.exists_group matched
  refine ⟨⟨delimiter, .ofTokens (Lexeme.tokens (.group delimiter body start stop))⟩,
    { i with rest }, ?_, ⟨rfl, ?_⟩, none, later⟩
  · rw [anyGroup, reads_bind]
    refine ⟨i, i, reads_get.mpr ⟨rfl, rfl⟩, ?_⟩
    simp only [same, reads_bind, reads_skip]
    exact ⟨(), _, rfl, reads_pure.mpr ⟨rfl, rfl⟩⟩
  · rw [Tree.ofTokens, Tree.tokens, Tree.tokensOf_map_token, Lexeme.tokens, inside.tokensOf_eq]

/-- The invocation of a macro with a semicolon after its arguments. -/
theorem passes_macroItem {name : String} {delimiter : Delimiter}
    (begins : (Expectation.identifier :: pathWords).any
      (ahead (.ident name :: .punct '!' false :: .opening delimiter ::
        (inner ++ .closing delimiter :: .punct ';' false :: after))) = true)
    (noBrace : delimiter ≠ .brace) (matched : IsMatched inner) :
    Passes macroItem (.ident name :: .punct '!' false :: .opening delimiter ::
        (inner ++ .closing delimiter :: .punct ';' false :: after)) after fun tree =>
      tree.tokens = .ident name :: .punct '!' false :: .opening delimiter ::
        (inner ++ [.closing delimiter, .punct ';' false]) := by
  refine (passes_plainPath begins rfl).bindOf fun path named => ?_
  refine (takes_operator (by decide) (by decide)).passes_bind ?_
  refine passes_seesWord_bind.mpr (passes_peek_bind.mpr (passes_else (by exact Bool.false_ne_true)
    (passes_else (by exact Bool.false_ne_true) ?_)))
  refine (takes_pure _).passes_bind ((passes_anyGroup matched).bindOf fun found read => ?_)
  obtain ⟨rfl, body⟩ := read
  refine passes_else noBrace ((takes_operator (by decide) (by decide)).passes_bind
    ((takes_pure _).passes ?_))
  have bang : Token.operator "!" = [.punct '!' false] := rfl
  have semicolon : Token.operator ";" = [.punct ';' false] := rfl
  simp [Tree.tokens, Tree.tokensOf, named, body, Tree.tokens_operator, bang, semicolon]

theorem passes_itemOf_inclusion (name : String) :
    Passes (itemOf g) (Artifact.inclusion name ++ after) after
      (·.included? = Token.included? (Artifact.inclusion name)) := by
  have read : Passes macroItem (Artifact.inclusion name ++ after) after
      (·.tokens = Artifact.inclusion name) :=
    passes_macroItem rfl (by decide) (.leaf rfl .nil)
  refine passes_get_bind fun i _ _ => (takes_outerAttributes_none rfl).passes_bind
    (passes_get_bind fun start none shown => ?_)
  refine (takes_visibility_none rfl).passes_bind (passes_get_bind fun _ _ _ => ?_)
  refine (takes_beginsSignature (by decide)).passes_bind (passes_else (by decide) ?_)
  iterate 9 refine passes_seesWord_bind.mpr (passes_else (by exact Bool.false_ne_true) ?_)
  refine passes_seesWord_bind.mpr (passes_peek2_bind fun _ =>
    passes_else (by exact Bool.false_ne_true) ?_)
  refine passes_seesWord_bind.mpr (passes_seesWord_bind.mpr (passes_peek2_bind fun _ =>
    passes_else (by exact Bool.false_ne_true) ?_))
  refine passes_seesWord_bind.mpr (passes_seesWord_bind.mpr (passes_peek2_bind fun _ =>
    passes_else (by exact Bool.false_ne_true) ?_))
  refine passes_seesWord_bind.mpr (passes_else (by exact Bool.false_ne_true) ?_)
  refine passes_peekAny_bind.mpr (passes_if rfl ?_)
  refine passes_set_bind none shown fun _ => read.bindOf fun tree same => (takes_pure _).passes ?_
  have tokens : (Tree.seq (Attribute.outer [] ++ [tree])).tokens = Artifact.inclusion name := by
    simp [Attribute.outer, Tree.tokens, Tree.tokensOf, same]
  exact congrArg Token.included? tokens

theorem passes_file_inclusions {depth : Nat} (names : List String) :
    Passes (file (ofDepth (depth + 1))) (names.map Artifact.inclusion).flatten [] fun items =>
      items.map Item.included? = names.map some := by
  have noHash : ahead (names.map Artifact.inclusion).flatten (.operator "#") = false := by
    cases names <;> rfl
  have each : ∀ part ∈ names.map Artifact.inclusion, (IsMatched part ∧ part ≠ []) ∧
      ∀ rest, Passes (ofDepth (depth + 1)).item (part ++ rest) rest
        (·.included? = Token.included? part) :=
    List.forall_mem_map.mpr fun name _ =>
      ⟨⟨Artifact.isMatched_inclusion name, List.cons_ne_nil _ _⟩, fun _ =>
        passes_itemOf_inclusion name⟩
  refine (takes_innerAttributes_none (.inl noHash)).passes_bind
    ((passes_untilEnd_each each).mono fun items own => ?_)
  rw [map_eq_map_of_forall₂ own, List.map_map]
  refine List.map_congr_left fun name _ => ?_
  rw [Function.comp_apply, Artifact.included?_inclusion]

end Grammar.Parser

/-- The index of some artifacts, read back as a file, holds one invocation for each of them in their
order. The literals in it say the names of the files that are written beside the index. -/
theorem Artifact.parseFile_index (artifacts : List Artifact) :
    ∃ items, parseFile (index artifacts) = .ok items ∧
      items.map Item.included? = artifacts.map (some ·.fileName) ∧
      ∀ directory indexFile, ∃ files,
        Output.destinations directory indexFile artifacts =
            files ++ [⟨none, Path.join directory indexFile, index artifacts⟩] ∧
          files.map (some ·.path) = items.map (·.included?.map (Path.join directory)) := by
  obtain ⟨lexemes, lexed, shown⟩ := lex_index artifacts
  have plain : withoutPreamble (index artifacts).toList = (index artifacts).toList := by
    rw [toList_index]
    exact (plain_header _).1
  obtain ⟨items, parsed, included⟩ :=
    parseFile_of_passes plain lexed shown (passes_file_inclusions (artifacts.map (·.fileName)))
  rw [List.map_map] at included
  refine ⟨items, parsed, included, fun directory indexFile => ⟨_, rfl, ?_⟩⟩
  have paths := congrArg (List.map (Option.map (Path.join directory))) included
  rw [List.map_map, List.map_map] at paths
  rw [List.map_map]
  exact paths.symm

end Forwarding
