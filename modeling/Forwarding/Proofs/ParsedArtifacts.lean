import Forwarding.Proofs.Reparsing
import Forwarding.Proofs.Traversal
/-!
Artifacts that parse. The text of an artifact is lexed into what its parts are printed as, and the
names in it are those that the recorded names of the winner are read as. An artifact whose fragments
parse by themselves is therefore a file that parses, with an exception: behind the sign of a
reference no sum of bounds is read.
-/

namespace Forwarding

open Grammar Grammar.Parser Lexer

section Names

theorem Grammar.isIdentifier_of_parseText {text name : String}
    (parsed : parseText (fun _ => Parser.identifier) text = .ok name) : IsIdentifier name :=
  ⟨isName_of_parseText_identifier parsed, (parseText_identifier_eq_ok_iff.mp parsed).1⟩

theorem Grammar.isName_of_parseText_lifetime {text name : String}
    (parsed : parseText (fun _ => Parser.lifetime) text = .ok name) : IsName name := by
  obtain ⟨lexemes, lexed, read⟩ := parseText_eq_ok_iff.mp parsed
  obtain ⟨j, ran, -, -⟩ := runAll_eq_ok_iff.mp read
  obtain ⟨rest, dropped, -⟩ := reads_lifetime.mp ran
  obtain ⟨start, place, same⟩ := dropLifetime_eq_some_iff.mp dropped
  refine isName_of_lex lexed ?_
  rw [show lexemes = _ from same]
  simp [Lexeme.tokensOf, Lexeme.tokens]

namespace Artifact

variable {group : String} {d : Definition} {t : ForwardingType}

theorem parameter_ok {p : GenericParam} {entry : Tree × Tree}
    (made : parameter group p = .ok entry) :
    (∀ sign ∈ parameterSigns, ∀ more, BeginsParameter (entry.1.tokens ++ sign :: more)) ∧
      IsArgument entry.2.tokens := by
  unfold parameter at made
  cases declared : fragment group genericParameter p.declaration with
  | error failure =>
    rw [declared] at made
    cases made
  | ok q =>
    rw [declared] at made
    have begins : ∀ sign ∈ parameterSigns, ∀ more,
        BeginsParameter (q.tree.tokens ++ sign :: more) := by
      intro sign listed more
      obtain ⟨lexemes, -, read⟩ := parseText_eq_ok_iff.mp (fragment_eq_ok_iff.mp declared)
      obtain ⟨j, ran, -, -⟩ := runAll_eq_ok_iff.mp read
      exact beginsParameter_of_reads ran listed more
    dsimp only [bind, Except.bind] at made
    split at made
    · cases given : fragment group (fun _ => Parser.lifetime) p.name with
      | error failure =>
        rw [given] at made
        cases made
      | ok name =>
        rw [given] at made
        cases made
        exact ⟨begins, .inl ⟨name, isName_of_parseText_lifetime (fragment_eq_ok_iff.mp given), rfl⟩⟩
    · cases given : identifier group p.name with
      | error failure =>
        rw [given] at made
        cases made
      | ok name =>
        rw [given] at made
        cases made
        exact ⟨begins, .inr ⟨name, isIdentifier_of_parseText (fragment_eq_ok_iff.mp given), rfl⟩⟩

theorem isIdentifier_of_named {name type : String} {entry : String × Tree}
    (given : named group name type = .ok entry) : IsIdentifier entry.1 :=
  isIdentifier_of_parseText (named_eq_ok_iff.mp given).1

theorem ReadsAs.isWellNamed (reads : ReadsAs group d t) : t.IsWellNamed where
  name := isIdentifier_of_parseText reads.name
  constructor := isIdentifier_of_parseText reads.constructor
  params p member := by
    obtain ⟨_, -, given⟩ := exists_of_mem_right ((mapM_eq_ok_iff _ _ _).mp reads.params) member
    exact isIdentifier_of_named given
  properties p member := by
    obtain ⟨_, -, given⟩ := exists_of_mem_right ((mapM_eq_ok_iff _ _ _).mp reads.properties) member
    exact isIdentifier_of_named given
  arguments a member := by
    obtain ⟨generics, made, -, same⟩ := reads.generics
    rw [same] at member
    obtain ⟨entry, listed, rfl⟩ := List.mem_map.mp member
    obtain ⟨_, -, given⟩ := exists_of_mem_right ((mapM_eq_ok_iff _ _ _).mp made) listed
    exact (parameter_ok given).2
  declared p member := by
    obtain ⟨generics, made, same, -⟩ := reads.generics
    rw [same] at member
    obtain ⟨entry, listed, rfl⟩ := List.mem_map.mp member
    obtain ⟨_, -, given⟩ := exists_of_mem_right ((mapM_eq_ok_iff _ _ _).mp made) listed
    exact (parameter_ok given).1

end Artifact

end Names

section Checks

theorem eq_ok_of_toOption {ε α : Type} {outcome : Except ε α} {a : α}
    (same : outcome.toOption = some a) : outcome = .ok a := by
  cases outcome with
  | error failure => cases same
  | ok value => exact congrArg Except.ok (Option.some.inj same)

/-- Whether a text of some tokens parses by itself. -/
def Grammar.acceptsPrinted {α : Type} (p : Grammar → Parser α) (tokens : List Token) : Bool :=
  (parseChars p (Token.renderChars tokens)).isOk &&
    decide ((lex (Token.renderChars tokens)).toOption.map Lexeme.tokensOf = some tokens)

theorem Grammar.accepts_of_acceptsPrinted {α : Type} {p : Grammar → Parser α}
    {tokens : List Token} (checked : acceptsPrinted p tokens = true) : Accepts p tokens := by
  obtain ⟨parsed, lexed⟩ := Bool.and_eq_true_iff.mp checked
  obtain ⟨lexemes, same, own⟩ := Option.map_eq_some_iff.mp (of_decide_eq_true lexed)
  have text : (Token.render tokens).toList = Token.renderChars tokens := String.toList_ofList
  obtain ⟨a, parsed⟩ := exists_of_isOk parsed
  refine ⟨Token.render tokens, ⟨a, ?_⟩, lexemes, ?_, own⟩
  · rw [parseText, text, parsed]
  · rw [text, eq_ok_of_toOption same]

/-- Whether what is printed of some tokens is lexed again as they are. -/
def Grammar.readsBack (tokens : List Token) : Bool :=
  decide ((lex (Token.renderChars tokens)).toOption.map Lexeme.tokensOf = some tokens)

theorem Grammar.isLexable_of_readsBack {tokens : List Token} (checked : readsBack tokens = true) :
    Token.IsLexable tokens := by
  obtain ⟨lexemes, lexed, own⟩ := Option.map_eq_some_iff.mp (of_decide_eq_true checked)
  exact own ▸ isLexable_of_lex (eq_ok_of_toOption lexed)

/-- Whether a file of some tokens parses, wherever they stand in it. -/
def Grammar.acceptsFile (tokens : List Token) : Bool :=
  match balance none [] [] (tokens.map (·, Position.first)) with
  | .ok lexemes => (parseLexemes file lexemes .first).isOk
  | .error _ => false

namespace ForwardingType

/-- A check that what is printed of each fragment is lexed again as it is. -/
def readsBack (t : ForwardingType) : Bool :=
  Grammar.readsBack t.innerTokens
    && t.declared.all (fun p => Grammar.readsBack p.tokens)
    && t.predicates.all (fun p => Grammar.readsBack p.tokens)
    && t.params.all (fun p => Grammar.readsBack p.2.tokens)
    && t.properties.all fun p => Grammar.readsBack p.2.tokens

theorem isLexable_of_readsBack {t : ForwardingType} (checked : t.readsBack = true) :
    t.IsLexable := by
  simp only [readsBack, Bool.and_eq_true, List.all_eq_true] at checked
  obtain ⟨⟨⟨⟨inner, declared⟩, predicates⟩, params⟩, properties⟩ := checked
  exact ⟨Grammar.isLexable_of_readsBack inner,
    fun p member => Grammar.isLexable_of_readsBack (declared p member),
    fun p member => Grammar.isLexable_of_readsBack (predicates p member),
    fun p member => Grammar.isLexable_of_readsBack (params p member),
    fun p member => Grammar.isLexable_of_readsBack (properties p member)⟩

/-- A check that what is printed of each fragment parses by itself. -/
def acceptsPrinted (t : ForwardingType) : Bool :=
  Grammar.acceptsPrinted Grammar.type t.innerTokens
    && t.declared.all (fun p => Grammar.acceptsPrinted genericParameter p.tokens)
    && t.predicates.all (fun p => Grammar.acceptsPrinted wherePredicate p.tokens)
    && t.params.all (fun p => Grammar.acceptsPrinted Grammar.type p.2.tokens)
    && t.properties.all fun p =>
      Grammar.acceptsPrinted typeWithoutPlus p.2.tokens && !ahead p.2.tokens .lifetime

theorem isAccepted_of_acceptsPrinted {t : ForwardingType} (checked : t.acceptsPrinted = true) :
    t.IsAccepted := by
  simp only [acceptsPrinted, Bool.and_eq_true, List.all_eq_true, Bool.not_eq_true'] at checked
  obtain ⟨⟨⟨⟨inner, declared⟩, predicates⟩, params⟩, properties⟩ := checked
  exact ⟨accepts_of_acceptsPrinted inner,
    fun p member => accepts_of_acceptsPrinted (declared p member),
    fun p member => accepts_of_acceptsPrinted (predicates p member),
    fun p member => accepts_of_acceptsPrinted (params p member),
    fun p member => (properties p member).imp_left accepts_of_acceptsPrinted⟩

end ForwardingType

end Checks

/-- A text parses as a file when the reader of files passes over its tokens. -/
theorem Grammar.parseFile_of_passes {text : String} {lexemes : List Lexeme} {tokens : List Token}
    {known : List Item → Prop} (own : withoutPreamble text.toList = text.toList)
    (lexed : lex text.toList = .ok lexemes) (shown : Lexeme.Shows lexemes tokens)
    (passed : Passes (file (ofDepth (depthOf lexemes))) tokens [] known) :
    ∃ items, parseFile text = .ok items ∧ known items := by
  obtain ⟨found, j, ran, same, none, ended⟩ := passed ⟨lexemes, Position.first, .none⟩ rfl shown
  have empty : j.rest = [] := by
    cases rest : j.rest with
    | nil => rfl
    | cons lexeme others =>
      rw [rest] at ended
      cases ended
  refine ⟨found, ?_, same⟩
  rw [parseFile, own, parseChars, lexed]
  exact runAll_eq_ok_iff.mpr ⟨j, ran, none, empty⟩

/-- Lexemes with the same tokens parse as files together. -/
theorem Grammar.parseLexemes_file_of_shows {lexemes others : List Lexeme} {tokens : List Token}
    (shown : Lexeme.Shows lexemes tokens) (shown' : Lexeme.Shows others tokens)
    {stop : Position} {items : List Item} (parsed : parseLexemes file lexemes stop = .ok items) :
    ∃ items', parseLexemes file others stop = .ok items' := by
  have sized : depthOf lexemes = depthOf others := by
    rw [depthOf, depthOf, shown.sizeOf_eq, shown'.sizeOf_eq]
  have deeper := deeper_ofDepth sized.le
  have same : Follows .bare (List.Forall₂ fun a b => a.tree = b.tree)
      (file (ofDepth (depthOf lexemes))) (file (ofDepth (depthOf others))) :=
    same_bind (same_innerAttributes deeper) fun _ _ _ => same_untilEndOf (same_item deeper)
  have prolongs : Input.Prolongs [] ⟨lexemes, stop, none⟩ ⟨others, stop, none⟩ :=
    .of_alike (.of_shows shown shown') rfl
  obtain ⟨j, ran, nothing, empty⟩ := runAll_eq_ok_iff.mp parsed
  obtain ⟨items', l, ran', -, later⟩ := same.run prolongs ran
  refine ⟨items', runAll_eq_ok_iff.mpr ⟨l, ran', ?_, ?_⟩⟩
  · have leftover := later.leftover
    rw [nothing] at leftover
    exact Option.isNone_iff_eq_none.mp (Option.isSome_eq_false_iff.mp leftover.symm)
  · have rest := later.alike
    rw [empty] at rest
    exact List.eq_nil_of_length_eq_zero rest.length_eq.symm

/-- A text parses as a file exactly if its tokens do. -/
theorem Grammar.exists_parseFile_iff {text : String} {lexemes : List Lexeme} {tokens : List Token}
    (own : withoutPreamble text.toList = text.toList)
    (lexed : lex text.toList = .ok lexemes) (shown : Lexeme.Shows lexemes tokens) :
    (∃ items, parseFile text = .ok items) ↔ acceptsFile tokens = true := by
  have written : (tokens.map (·, Position.first)).map Prod.fst = tokens := by
    simp [Function.comp_def]
  obtain ⟨placed, shown', balanced⟩ := balance_of_shows shown written
  have whole := balanced [] [] []
  rw [List.append_nil, List.append_nil, balance, List.reverse_reverse] at whole
  rw [parseFile, own, parseChars, lexed, acceptsFile, whole]
  constructor
  · rintro ⟨items, parsed⟩
    obtain ⟨items', parsed⟩ := parseLexemes_file_of_shows shown shown' parsed
    exact congrArg Except.isOk parsed
  · intro accepted
    obtain ⟨items, parsed⟩ := exists_of_isOk accepted
    exact parseLexemes_file_of_shows shown' shown parsed

namespace Artifact

section Texts

/-- The characters of a part on lines of its own. -/
def partChars (part : List Tree) : List Char :=
  '\n' :: (Token.renderChars (Tree.tokensOf part) ++ ['\n'])

/-- The characters of a file with some parts. -/
def layoutChars (parts : List (List Tree)) : List Char :=
  header.toList ++ '\n' :: parts.flatMap partChars

theorem toList_layout_eq (parts : List (List Tree)) :
    (layout parts).toList = layoutChars parts := by
  have join : (String.join (parts.map fun part => "\n" ++ (Tree.seq part).render ++ "\n")).toList =
      parts.flatMap partChars := by
    induction parts with
    | nil => rfl
    | cons part parts ih =>
      rw [List.flatMap_cons, ← ih]
      simp [partChars, Tree.render, Token.render, Tree.tokens]
  rw [layout, String.toList_append, join]
  simp [layoutChars]

theorem spells_partChars {parts : List (List Tree)}
    (each : ∀ part ∈ parts, Token.IsLexable (Tree.tokensOf part)) :
    Spells [] (parts.flatMap partChars) (parts.map Tree.tokensOf).flatten := by
  induction parts with
  | nil => exact .done
  | cons part parts ih =>
    have later := ih fun p member => each p (List.mem_cons_of_mem _ member)
    have feed : Stops ('\n' :: parts.flatMap partChars) := by
      intro c first
      cases first
      decide
    have own := (each part List.mem_cons_self).printable.spells feed
    rw [List.flatMap_cons, partChars, List.cons_append, List.append_assoc]
    exact .blank (by decide) (own.append (.blank (by decide) later))

/-- A text with the first line of generated files has neither a mark nor an interpreter. -/
theorem plain_header (text : List Char) :
    withoutPreamble (header.toList ++ text) = header.toList ++ text ∧
      ((header.toList ++ text).head? == some byteOrderMark) = false := by
  have header : ∃ line, header.toList = '/' :: line := ⟨_, rfl⟩
  obtain ⟨line, header⟩ := header
  rw [header]
  exact ⟨rfl, rfl⟩

theorem withoutPreamble_layout (parts : List (List Tree)) :
    withoutPreamble (layout parts).toList = (layout parts).toList := by
  rw [toList_layout_eq]
  exact (plain_header _).1

/-- A file whose parts can be lexed, the first of them with an attribute at its beginning. -/
theorem lex_layoutChars {first : List Tree} {others : List (List Tree)}
    (each : ∀ part ∈ first :: others, Token.IsLexable (Tree.tokensOf part)) {tokens : List Token}
    (begins : Tree.tokensOf first = .punct '#' false :: tokens) :
    ∃ lexemes, lex (layoutChars (first :: others)) = .ok lexemes ∧
      Lexeme.Shows lexemes ((first :: others).map Tree.tokensOf).flatten := by
  obtain ⟨own, later⟩ := List.forall_mem_cons.mp each
  have spelled : Spells [] (Token.renderChars (Tree.tokensOf first)
      ++ '\n' :: others.flatMap partChars) ((first :: others).map Tree.tokensOf).flatten :=
    (own.printable.spells fun c first => by cases first; decide).append
      (.blank (by decide) (spells_partChars later))
  have sign : ∃ text, Token.renderChars (Tree.tokensOf first) = '#' :: text := by
    rw [begins, Token.renderChars_cons]
    exact ⟨_, rfl⟩
  obtain ⟨body, sign⟩ := sign
  have text : layoutChars (first :: others) =
      header.toList ++ '\n' :: '\n' :: '#' :: (body ++ '\n' :: others.flatMap partChars) := by
    rw [layoutChars, List.flatMap_cons, partChars, sign]
    simp
  have unmarked : ((layoutChars (first :: others)).head? == some byteOrderMark) = false :=
    (plain_header _).2
  rw [sign] at spelled
  refine lex_of_words unmarked ?_ (isLexable_flatten (List.forall_mem_map.mpr each)).matched
  rw [text, words_header_blank (by decide)]
  refine words_of_spells spelled ?_
  simp only [List.length_append, List.length_cons]
  omega

end Texts

variable {t : ForwardingType}

theorem begins_structAttributes (documentation : List String) (after : List Token) :
    ∃ more, (ForwardingType.structAttributes documentation).flatten ++ after =
      .punct '#' false :: .opening .bracket :: more := by
  cases documentation <;> exact ⟨_, rfl⟩

theorem isLexable_parts {documentation : List String}
    (each : ∀ part ∈ t.printedItems documentation, Token.IsLexable part) :
    ∀ part ∈ [t.declaration documentation, t.inherent, t.dereferencing],
      Token.IsLexable (Tree.tokensOf part) := by
  simp only [ForwardingType.printedItems, List.forall_mem_cons] at each ⊢
  obtain ⟨struct, inherent, reading, changing, -⟩ := each
  rw [t.tokensOf_struct, t.tokensOf_inherent, t.tokensOf_dereferencing]
  exact ⟨struct, inherent, reading.append changing, List.forall_mem_nil _⟩

/-- The text of a forwarding type is lexed into what is printed of it. -/
theorem lex_layout (named : t.IsWellNamed) (lexable : t.IsLexable) (documentation : List String) :
    ∃ lexemes,
      lex (layout [t.declaration documentation, t.inherent, t.dereferencing]).toList =
        .ok lexemes ∧ Lexeme.Shows lexemes (t.printedItems documentation).flatten := by
  obtain ⟨more, begins⟩ := begins_structAttributes documentation t.declarationTokens
  obtain ⟨lexemes, lexed, shown⟩ := lex_layoutChars (isLexable_parts fun part member =>
    (t.isLexable_printedItems named lexable documentation part member).1)
    ((t.tokensOf_struct documentation).trans begins)
  have whole : ([t.declaration documentation, t.inherent, t.dereferencing].map
      Tree.tokensOf).flatten = (t.printedItems documentation).flatten := by
    rw [ForwardingType.flatten_printedItems]
    simp
  rw [toList_layout_eq]
  exact ⟨lexemes, lexed, whole ▸ shown⟩

/-- The text of a forwarding type parses. -/
theorem parseFile_layout (named : t.IsWellNamed) (accepted : t.IsAccepted)
    (documentation : List String) :
    ∃ items, parseFile (layout [t.declaration documentation, t.inherent, t.dereferencing]) =
      .ok items := by
  have deep := t.isWithin_weight documentation
  have items := t.isLexable_printedItems named accepted.isLexable documentation
  obtain ⟨more, begins⟩ := begins_structAttributes documentation t.declarationTokens
  obtain ⟨lexemes, lexed, shown⟩ := lex_layout named accepted.isLexable documentation
  -- the grammar of a text is as deep as its weight allows for
  have depth : depthOf lexemes =
      4 * Token.weight (t.printedItems documentation).flatten + 8 := by
    rw [depthOf, shown.sizeOf_eq]
  have marked : ∃ more, (t.printedItems documentation).flatten =
      .punct '#' false :: .opening .bracket :: more := by
    rw [ForwardingType.printedItems, List.flatten_cons, begins]
    exact ⟨_, rfl⟩
  have passed : Passes (file (ofDepth (depthOf lexemes))) (t.printedItems documentation).flatten
      [] := by
    rw [depth]
    exact passes_file (fun part member => ⟨(items part member).imp_left (·.matched),
      t.passes_printedItems named accepted deep documentation part member⟩) marked
  obtain ⟨items, parsed, -⟩ := parseFile_of_passes (withoutPreamble_layout _) lexed shown passed
  exact ⟨items, parsed⟩

/-- An artifact parses when its fragments, as they are printed, parse by themselves and every
property has a type that a reference can be made to without brackets. -/
theorem parseFile_ofResolution {r : Resolution} {a : Artifact}
    (made : ofResolution r = .ok a) (read : Artifact.read r.name r.winner = .ok t)
    (accepted : t.IsAccepted) : ∃ items, parseFile a.contents = .ok items := by
  obtain ⟨_, same, rfl⟩ := ofResolution_ok made
  cases read.symm.trans same
  exact parseFile_layout (readsAs_of_read read).isWellNamed accepted _

theorem ofResolution_of_read {r : Resolution} (read : Artifact.read r.name r.winner = .ok t) :
    ofResolution r = .ok ⟨r.name, fileNameOf r.name,
      layout [t.declaration (documentation r), t.inherent, t.dereferencing]⟩ := by
  rw [ofResolution, read]
  rfl

/-- A unit with one struct of some parameters, which has the property `a` of some type. -/
def holding (params arguments type : String) : SourceUnit :=
  ⟨"src/lib.rs", ["crate"],
    "#[variant_merge(name=\"G\",priority=1)]pub struct H" ++ params ++ "\x7bpub a:" ++ type
      ++ "\x7dimpl" ++ params ++ " H" ++ arguments ++ "\x7bpub fn new(a:" ++ type
      ++ ")->Self\x7bH\x7ba\x7d\x7d\x7d"⟩

theorem parseFile_ofResolution_array :
    ∃ d t a, Scan.scan {} (holding "<T:Copy>" "<T>" "[T;4]") = .ok [d] ∧
      read d.name d = .ok t ∧ ofResolution ⟨d.name, d, []⟩ = .ok a ∧ t.IsAccepted ∧
        ∃ items, parseFile a.contents = .ok items := by
  have computed : (Scan.scan {} (holding "<T:Copy>" "<T>" "[T;4]")).toOption.map
      (·.map fun d => (read d.name d).toOption.map (·.acceptsPrinted)) = some [some true] := by
    rw [Scan.scan_of_hasChars (holding "<T:Copy>" "<T>" "[T;4]") (by repeat constructor)]
    decide +kernel
  obtain ⟨d, scanned, found⟩ := Scan.exists_single computed
  obtain ⟨t, succeeded, checked⟩ := Option.map_eq_some_iff.mp found
  have succeeded := eq_ok_of_toOption succeeded
  have accepted := ForwardingType.isAccepted_of_acceptsPrinted checked
  have made := ofResolution_of_read (r := ⟨d.name, d, []⟩) succeeded
  exact ⟨d, t, _, scanned, succeeded, made, accepted,
    parseFile_ofResolution made succeeded accepted⟩

/-- A property whose type is a sum of bounds is read back by itself, but not behind the sign of a
reference. -/
theorem parseFile_fails_sum :
    ∃ d a, Scan.scan {} (holding "" "" "dyn A+B") = .ok [d] ∧
      ofResolution ⟨d.name, d, []⟩ = .ok a ∧ ∀ items, parseFile a.contents ≠ .ok items := by
  have computed : (Scan.scan {} (holding "" "" "dyn A+B")).toOption.map
      (·.map fun d => (read d.name d).toOption.map fun t => (t.readsBack,
        acceptsFile (t.printedItems (documentation ⟨d.name, d, []⟩)).flatten)) =
          some [some (true, false)] := by
    rw [Scan.scan_of_hasChars (holding "" "" "dyn A+B") (by repeat constructor)]
    decide +kernel
  obtain ⟨d, scanned, found⟩ := Scan.exists_single computed
  obtain ⟨t, succeeded, checked⟩ := Option.map_eq_some_iff.mp found
  obtain ⟨lexable, refused⟩ := Prod.mk.inj checked
  have succeeded := eq_ok_of_toOption succeeded
  have named := (readsAs_of_read succeeded).isWellNamed
  obtain ⟨lexemes, lexed, shown⟩ :=
    lex_layout named (ForwardingType.isLexable_of_readsBack lexable) _
  refine ⟨d, _, scanned, ofResolution_of_read succeeded, fun items parsed => ?_⟩
  rw [(exists_parseFile_iff (withoutPreamble_layout _) lexed shown).mp ⟨items, parsed⟩] at refused
  cases refused

end Artifact

end Forwarding
