import Forwarding.Plan
import Forwarding.Proofs.Lexemes
import Forwarding.Proofs.Readers
import Forwarding.Proofs.Traversal
/-!
What an artifact declares. The file of a group begins with a struct, and the name of this struct is
the identifier that the group's name reads as.
-/

namespace Forwarding

namespace Grammar

theorem parseText_eq_ok_iff {α : Type} {p : Grammar → Parser α} {text : String} {value : α} :
    parseText p text = .ok value ↔
      ∃ lexemes, Lexer.lex text.toList = .ok lexemes ∧
        parseLexemes p lexemes Position.first = .ok value := by
  unfold parseText parseChars
  cases Lexer.lex text.toList <;> simp

theorem parseText_identifier_eq_ok_iff {text name : String} :
    parseText (fun _ => Parser.identifier) text = .ok name ↔
      isIdentifier name = true ∧
        ∃ place, Lexer.lex text.toList = .ok [.leaf (.ident name) place] := by
  rw [parseText_eq_ok_iff]
  simp only [parseLexemes, Parser.runAll_eq_ok_iff, Parser.reads_identifier]
  constructor
  · rintro ⟨lexemes, lexed, _, ⟨place, rest, rfl, rfl, allowed⟩, -, rfl⟩
    exact ⟨allowed, place, lexed⟩
  · rintro ⟨allowed, place, lexed⟩
    exact ⟨_, lexed, _, ⟨place, [], rfl, rfl, allowed⟩, rfl, rfl⟩

theorem isName_of_parseText_identifier {text name : String}
    (parsed : parseText (fun _ => Parser.identifier) text = .ok name) : Lexer.IsName name := by
  obtain ⟨-, place, lexed⟩ := parseText_identifier_eq_ok_iff.mp parsed
  exact Lexer.isName_of_lex lexed (by simp [Lexeme.tokensOf, Lexeme.tokens])

end Grammar

namespace Lexer

theorem takeLine_append {line : List Char} (noFeed : '\n' ∉ line) (noReturn : '\r' ∉ line)
    (rest : List Char) : takeLine (line ++ '\n' :: rest) = (line, '\n' :: rest) := by
  induction line with
  | nil => simp [takeLine]
  | cons c line ih =>
    rw [List.mem_cons, not_or] at noFeed noReturn
    have later := ih noFeed.2 noReturn.2
    rw [List.cons_append]
    unfold takeLine
    split
    · simp_all
    · simp_all
    · simp_all
    · simp_all

/-- Nothing but blanks and comments stands before the rest of a text. -/
theorem words_of_skipBlanks {fuel : Nat} {text rest : List Char}
    (skipped : skipBlanks text.length text = rest)
    (stays : skipBlanks rest.length rest = rest) : words (fuel + 1) text = words (fuel + 1) rest := by
  rw [words_succ, words_succ, skipped, stays]

theorem skipBlanks_line {text : List Char} (plain : isPlainLine text = true) (fuel : Nat) :
    skipBlanks (fuel + 1) text = skipBlanks fuel (takeLine text).2 := by
  rw [skipBlanks.eq_def]
  simp only [plain, if_true]

/-- The first line of a generated file is a comment. -/
theorem skipBlanks_header (fuel : Nat) (text : List Char) :
    skipBlanks (fuel + 1 + 1) (Artifact.header.toList ++ '\n' :: text) = skipBlanks fuel text := by
  have header : ∃ line, Artifact.header.toList = '/' :: '/' :: ' ' :: line := ⟨_, rfl⟩
  have line : takeLine (Artifact.header.toList ++ '\n' :: text) =
      (Artifact.header.toList, '\n' :: text) :=
    takeLine_append (by decide) (by decide) _
  have plain : isPlainLine (Artifact.header.toList ++ '\n' :: text) = true := by
    obtain ⟨line, same⟩ := header
    rw [same]
    simp [isPlainLine, startsWith, List.isPrefixOf]
  rw [skipBlanks_line plain, line, skipBlanks_blank (by decide)]

theorem words_header {fuel : Nat} {text : List Char}
    (stays : ∀ fuel, skipBlanks fuel text = text) :
    words (fuel + 1) (Artifact.header.toList ++ '\n' :: text) = words (fuel + 1) text := by
  have some : 0 < Artifact.header.toList.length := by decide
  have long : ∃ n, (Artifact.header.toList ++ '\n' :: text).length = n + 1 + 1 :=
    ⟨Artifact.header.toList.length + text.length - 1, by
      rw [List.length_append, List.length_cons]
      omega⟩
  obtain ⟨n, long⟩ := long
  refine words_of_skipBlanks ?_ (stays _)
  rw [long, skipBlanks_header, stays]

theorem words_header_blank {fuel : Nat} {c : Char} {text : List Char} (solid : isSolid c = true) :
    words (fuel + 1) (Artifact.header.toList ++ '\n' :: '\n' :: c :: text) =
      words (fuel + 1) (c :: text) := by
  have long : ∃ n, (Artifact.header.toList ++ '\n' :: '\n' :: c :: text).length = n + 1 + 1 + 1 :=
    ⟨_, by rw [List.length_append, List.length_cons, List.length_cons]; rfl⟩
  obtain ⟨n, long⟩ := long
  refine words_of_skipBlanks ?_ (skipBlanks_cons solid _ _)
  rw [long, skipBlanks_header, skipBlanks_blank (by decide), skipBlanks_cons solid]

end Lexer

/-- The name after the first word `struct` among some tokens. -/
def structName? (tokens : List Token) : Option String :=
  match tokens.dropWhile (· != .ident "struct") with
  | _ :: .ident name :: _ => some name
  | _ => none

/-- The name of the struct that an artifact declares. -/
def Artifact.declared? (a : Artifact) : Option String :=
  structName? (Lexer.words (a.contents.length + 1) a.contents.toList).1

theorem structName?_append {before after : List Token} {name : String}
    (absent : .ident "struct" ∉ before) :
    structName? (before ++ .ident "struct" :: .ident name :: after) = some name := by
  have passed : ∀ t ∈ before, (t != .ident "struct") = true := by
    intro t member
    rw [bne_iff_ne]
    rintro rfl
    exact absent member
  rw [structName?, List.dropWhile_append_of_pos passed]
  simp

theorem Token.renderChars_append (before : List Token) (a : Token) (after : List Token) :
    renderChars (before ++ a :: after) =
      renderChars (before ++ [a]) ++ (gap a after ++ renderChars after) := by
  induction before with
  | nil => rw [List.nil_append, List.nil_append, renderChars_cons, renderChars]
  | cons b before ih =>
    have same : gap b (before ++ a :: after) = gap b (before ++ [a]) := by
      cases before <;> rfl
    rw [List.cons_append, List.cons_append, renderChars_cons, renderChars_cons, ih, same]
    simp only [List.append_assoc]

namespace ForwardingType

open Lexer Token

theorem tokensOf_documented (line : String) :
    Tree.tokensOf (documented line) =
      [punct '#' false, opening .bracket, ident "doc", punct '=' false,
        literal (Text.quoteLiteral line), closing .bracket] := by
  rfl

/-- Tokens that may stand before the name of a struct. -/
structure Leads (tokens : List Token) : Prop where
  printable : Printable tokens
  absent : ident "struct" ∉ tokens

theorem Leads.append {before after : List Token} (first : Leads before) (last : Leads after) :
    Leads (before ++ after) where
  printable := first.printable.append last.printable
  absent := by
    rw [List.mem_append, not_or]
    exact ⟨first.absent, last.absent⟩

theorem leads_documented (line : String) : Leads (Tree.tokensOf (documented line)) := by
  rw [tokensOf_documented]
  refine ⟨?_, by simp⟩
  exact .operator (by decide) (.opening _ (.word (by decide) (.operator (by decide)
    (.literal (isLiteral_quoteLiteral line) (.closing _ .nil)))))

theorem leads_documentation (documentation : List String) :
    Leads (Tree.tokensOf (documentation.flatMap documented)) := by
  induction documentation with
  | nil => exact ⟨.nil, by simp [Tree.tokensOf]⟩
  | cons line rest ih =>
    rw [List.flatMap_cons, Tree.tokensOf_append]
    exact (leads_documented line).append ih

/-- The attribute of a struct and the words before its name. -/
def preamble : List Token :=
  [punct '#' false, opening .bracket, ident "allow", opening .parenthesis, ident "dead_code",
    closing .parenthesis, closing .bracket, ident "pub"]

theorem leads_preamble : Leads preamble := by
  refine ⟨?_, by decide⟩
  exact .operator (by decide) (.opening _ (.word (by decide) (.opening _
    (.word (by decide) (.closing _ (.closing _ (.word (by decide) .nil)))))))

theorem tokensOf_declaration (t : ForwardingType) (documentation : List String) :
    ∃ after, Tree.tokensOf (t.declaration documentation) =
      Tree.tokensOf (documentation.flatMap documented) ++ preamble ++
        ident "struct" :: ident t.name :: after := by
  refine ⟨Tree.tokensOf (angled t.declared ++ t.whereClause
    ++ [braced ([Tree.word "inner", Tree.operator ":"] ++ t.inner ++ [Tree.operator ","])]), ?_⟩
  simp only [declaration, Tree.tokensOf_append, List.append_assoc]
  rfl

theorem Leads.begins (documentation : List String) :
    ∃ rest, Tree.tokensOf (documentation.flatMap documented) ++ preamble =
      punct '#' false :: rest := by
  cases documentation with
  | nil => exact ⟨_, rfl⟩
  | cons line rest =>
    rw [List.flatMap_cons, Tree.tokensOf_append, tokensOf_documented]
    exact ⟨_, rfl⟩

end ForwardingType

namespace Artifact

open Lexer Token

theorem toList_layout (first : List Tree) (others : List (List Tree)) :
    ∃ more, (layout (first :: others)).toList =
      header.toList ++ '\n' :: '\n' :: (renderChars (Tree.tokensOf first) ++ '\n' :: more) := by
  refine ⟨(String.join (others.map fun part => "\n" ++ (Tree.seq part).render ++ "\n")).toList, ?_⟩
  simp [layout, Tree.render, Token.render, Tree.tokens]

/-- The first struct of a generated file is the one it is for. -/
theorem structName?_layout (t : ForwardingType) (named : IsName t.name)
    (documentation : List String) (others : List (List Tree)) {fuel : Nat}
    (enough : (layout (t.declaration documentation :: others)).toList.length < fuel + 1) :
    structName? (words (fuel + 1) (layout (t.declaration documentation :: others)).toList).1 =
      some t.name := by
  obtain ⟨after, tokens⟩ := t.tokensOf_declaration documentation
  obtain ⟨more, text⟩ := toList_layout (t.declaration documentation) others
  obtain ⟨rest, begins⟩ := ForwardingType.Leads.begins documentation
  have leads := (ForwardingType.leads_documentation documentation).append
    ForwardingType.leads_preamble
  generalize Tree.tokensOf (documentation.flatMap ForwardingType.documented)
    ++ ForwardingType.preamble = before at tokens begins leads
  -- the name is followed by a blank, so that it is read as it stands
  have printable : Printable (before ++ [ident "struct", ident t.name]) :=
    leads.printable.append (.word (by decide) (.word named .nil))
  have stops : Stops (gap (ident t.name) after ++ (renderChars after ++ '\n' :: more)) :=
    stops_after rfl fun c first => by cases first; decide
  have split : renderChars (Tree.tokensOf (t.declaration documentation)) ++ '\n' :: more =
      renderChars (before ++ [ident "struct", ident t.name]) ++
        (gap (ident t.name) after ++ (renderChars after ++ '\n' :: more)) := by
    have list : before ++ ident "struct" :: ident t.name :: after =
        (before ++ [ident "struct"]) ++ ident t.name :: after := by simp
    rw [tokens, list, renderChars_append]
    simp only [List.append_assoc, List.cons_append, List.nil_append]
  have spelled := printable.spells stops
  rw [← split] at spelled
  have first : ∃ text, renderChars (Tree.tokensOf (t.declaration documentation)) ++ '\n' :: more =
      '#' :: text := by
    rw [tokens, begins, List.cons_append, renderChars_cons]
    exact ⟨_, rfl⟩
  obtain ⟨body, first⟩ := first
  rw [first] at spelled
  rw [text, first] at enough ⊢
  have enough : ('#' :: body).length < fuel + 1 := by
    rw [List.length_append, List.length_cons, List.length_cons] at enough
    omega
  obtain ⟨fuel', -, read⟩ := spelled.words enough
  rw [words_header_blank (by decide), read]
  simp only [List.append_assoc, List.cons_append, List.nil_append]
  exact structName?_append leads.absent

theorem fragment_eq_ok_iff {α : Type} {group text : String} {p : Grammar → Grammar.Parser α}
    {value : α} : fragment group p text = .ok value ↔ Grammar.parseText p text = .ok value := by
  unfold fragment
  cases Grammar.parseText p text <;> simp

/-- The texts of a definition that a forwarding type is read from. -/
structure ReadsAs (group : String) (d : Definition) (t : ForwardingType) : Prop where
  name : Grammar.parseText (fun _ => Grammar.Parser.identifier) group = .ok t.name
  path : Grammar.parseText (fun g => Grammar.path g false) d.typePath = .ok t.winner
  constructor :
    Grammar.parseText (fun _ => Grammar.Parser.identifier) d.constructor = .ok t.constructor
  generics : ∃ generics, d.generics.mapM (parameter group) = .ok generics ∧
    t.declared = generics.map (·.1) ∧ t.arguments = generics.map (·.2)
  predicates : ∃ predicates,
    d.predicates.mapM (fragment group Grammar.wherePredicate) = .ok predicates ∧
      t.predicates = predicates.map WherePredicate.tree
  params : d.params.mapM (fun p => named group p.name p.shape.type) = .ok t.params
  properties : d.properties.mapM (fun p => named group p.2.name p.2.type) = .ok t.properties

theorem readsAs_of_read {group : String} {d : Definition} {t : ForwardingType}
    (succeeded : read group d = .ok t) : ReadsAs group d t := by
  unfold read at succeeded
  dsimp only [bind, Except.bind, pure, Except.pure] at succeeded
  -- one split for each text or list of texts, in the order in which they are read
  split at succeeded
  · cases succeeded
  rename_i name named
  split at succeeded
  · cases succeeded
  rename_i path given
  split at succeeded
  · cases succeeded
  rename_i constructor called
  split at succeeded
  · cases succeeded
  rename_i generics declared
  split at succeeded
  · cases succeeded
  rename_i predicates stated
  split at succeeded
  · cases succeeded
  rename_i params taken
  split at succeeded
  · cases succeeded
  rename_i properties kept
  cases succeeded
  exact ⟨fragment_eq_ok_iff.mp named, fragment_eq_ok_iff.mp given, fragment_eq_ok_iff.mp called,
    ⟨generics, declared, rfl, rfl⟩, ⟨predicates, stated, rfl⟩, taken, kept⟩

theorem named_eq_ok_iff {group name typeText : String} {entry : String × Tree} :
    named group name typeText = .ok entry ↔
      Grammar.parseText (fun _ => Grammar.Parser.identifier) name = .ok entry.1 ∧
        Grammar.parseText Grammar.type typeText = .ok entry.2 := by
  have word : identifier group name = .ok entry.1 ↔ _ := fragment_eq_ok_iff
  have kind : type group typeText = .ok entry.2 ↔ _ := fragment_eq_ok_iff
  rw [← word, ← kind]
  obtain ⟨found, tree⟩ := entry
  unfold named
  dsimp only [bind, Except.bind, pure, Except.pure]
  split
  · simp_all
  · split <;> simp_all

theorem ofResolution_ok {r : Resolution} {a : Artifact} (made : ofResolution r = .ok a) :
    ∃ t, read r.name r.winner = .ok t ∧
      a = ⟨r.name, fileNameOf r.name,
        layout [t.declaration (documentation r), t.inherent, t.dereferencing]⟩ := by
  unfold ofResolution at made
  cases succeeded : read r.name r.winner with
  | error failure =>
    rw [succeeded] at made
    cases made
  | ok t =>
    rw [succeeded] at made
    cases made
    exact ⟨t, rfl, rfl⟩

/-- An artifact declares the identifier that the name of its group reads as. -/
theorem declared?_ofResolution {r : Resolution} {a : Artifact} (made : ofResolution r = .ok a) :
    a.name = r.name ∧ a.fileName = r.name ++ ".rs" ∧ ∃ name, a.declared? = some name ∧
      Grammar.parseText (fun _ => Grammar.Parser.identifier) r.name = .ok name := by
  obtain ⟨t, succeeded, rfl⟩ := ofResolution_ok made
  have parsed := (readsAs_of_read succeeded).name
  exact ⟨rfl, rfl, t.name, structName?_layout t (Grammar.isName_of_parseText_identifier parsed) _ _
    (by rw [String.length_toList]; exact Nat.lt_succ_self _), parsed⟩

end Artifact

end Forwarding
