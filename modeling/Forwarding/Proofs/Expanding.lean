import Forwarding.Proofs.Declared
import Forwarding.Proofs.Displacement
import Forwarding.Proofs.Misplacement
import Forwarding.Proofs.Origin
/-!
Expansions and scans. An expansion of the attribute above a struct stops the build exactly when a scan
refuses the arguments or the form of the struct there. Both say the same, except that an expansion
calls a struct by its name with the mark of a raw identifier.
-/

namespace Forwarding

/-- Defects of an attribute's arguments and of the form of its struct. -/
def Defect.isOfForm : Defect → Bool
  | invalidAttribute .. => true
  | privateType _ => true
  | tupleStruct _ => true
  | _ => false

namespace Constructor

theorem find_error {type name : String} {blocks : List ImplItem} {defect : Defect}
    (failed : find type name blocks = .error defect) : defect.isOfForm = false := by
  unfold find at failed
  dsimp only at failed
  split at failed <;> cases failed <;> rfl

theorem names_error {type : String} {struct : StructItem} {k : Constructor} {defect : Defect}
    (failed : k.names type struct = .error defect) : defect.isOfForm = false := by
  unfold names at failed
  dsimp only at failed
  repeat' split at failed
  all_goals cases failed
  all_goals rfl

theorem paramOf_error {type constructor : String} {struct : Generics} {names : GenericNames}
    {index : Nat} {param : Parameter} {defect : Defect}
    (failed : paramOf type constructor struct names index param = .error defect) :
    defect.isOfForm = false := by
  unfold paramOf at failed
  repeat' split at failed
  all_goals cases failed
  all_goals rfl

theorem paramsFrom_error {type constructor : String} {struct : Generics} {names : GenericNames}
    {index : Nat} {params : List Parameter} {defect : Defect}
    (failed : paramsFrom type constructor struct names index params = .error defect) :
    defect.isOfForm = false := by
  induction params generalizing index with
  | nil => cases failed
  | cons param rest ih =>
    unfold paramsFrom at failed
    dsimp only [bind, Except.bind] at failed
    split at failed
    · rename_i given
      cases failed
      exact paramOf_error given
    split at failed
    · rename_i later
      cases failed
      exact ih later
    · cases failed

end Constructor

namespace Scan

variable {c : Conventions} {module : List String} {blocks : List ImplItem} {struct : StructItem}
  {arguments : Annotation} {location : Location} {defect : Defect}

theorem describe_error (exported : struct.visibility.isExported = true)
    (named : struct.fields.isPositional = false)
    (failed : describe c module blocks struct arguments location = .error defect) :
    defect.isOfForm = false := by
  unfold describe at failed
  dsimp only [bind, Except.bind, throw, throwThe, MonadExceptOf.throw] at failed
  rw [exported, named] at failed
  simp only [Bool.not_true, Bool.false_eq_true, if_false, pure, Except.pure] at failed
  split at failed
  · rename_i found
    cases failed
    exact Constructor.find_error found
  split at failed
  · rename_i found
    cases failed
    exact Constructor.names_error found
  split at failed
  · rename_i found
    cases failed
    exact Constructor.paramsFrom_error found
  repeat' split at failed
  all_goals cases failed
  all_goals rfl

theorem enclosed_inj (before after : String) {a b : String} :
    before ++ a ++ after = before ++ b ++ after ↔ a = b := by
  rw [String.append_left_inj, String.append_right_inj]

/-- An expansion names the struct with the mark of a raw identifier, a scan without it. -/
theorem describe_of_defect? {mark : String}
    (unfit : Expansion.defect? mark (.struct struct) = some defect) (c : Conventions)
    (module : List String) (blocks : List ImplItem) (arguments : Annotation) (location : Location) :
    ∃ other, describe c module blocks struct arguments location = .error other ∧
      other.isOfForm = true ∧ (∀ mark error, other ≠ .invalidAttribute mark error) ∧
      (defect.message = other.message ↔ unraw struct.name = struct.name) := by
  have hidden (a b : String) :
      (Defect.privateType a).message = (Defect.privateType b).message ↔ a = b :=
    enclosed_inj _ _
  have positional (a b : String) :
      (Defect.tupleStruct a).message = (Defect.tupleStruct b).message ↔ a = b :=
    enclosed_inj _ _
  by_cases exported : struct.visibility.isExported = true
  · by_cases tuple : struct.fields.isPositional = true
    · have same : defect = .tupleStruct struct.name := by
        simpa [Expansion.defect?, exported, tuple, eq_comm] using unfit
      refine ⟨.tupleStruct (unraw struct.name), ?_, rfl, nofun, ?_⟩
      · rw [describe, exported, tuple]
        rfl
      · rw [same, positional, eq_comm]
    · simp [Expansion.defect?, exported, tuple] at unfit
  · have same : defect = .privateType struct.name := by
      simpa [Expansion.defect?, exported, eq_comm] using unfit
    refine ⟨.privateType (unraw struct.name), ?_, rfl, nofun, ?_⟩
    · rw [Bool.not_eq_true] at exported
      rw [describe, exported]
      rfl
    · rw [same, hidden, eq_comm]

/-- What a finding says of the arguments of an attribute or the form of its struct, if it refuses
them. -/
def refused? : Finding → Option String
  | .error (.scan _ (.invalidAttribute _ error)) => some error.message
  | .error (.scan _ defect) => if defect.isOfForm then some defect.message else none
  | _ => none

theorem refused?_of_isOfForm (location : Location) (form : defect.isOfForm = true)
    (unlike : ∀ mark error, defect ≠ .invalidAttribute mark error) :
    refused? (.error (.scan location defect)) = some defect.message := by
  unfold refused?
  split
  · rename_i same
    cases same
    exact absurd rfl (unlike _ _)
  · rename_i same
    cases same
    exact if_pos form
  · rename_i other
    exact absurd rfl (other _ _)

theorem refused?_of_not_isOfForm (location : Location) (other : defect.isOfForm = false) :
    refused? (.error (.scan location defect)) = none := by
  cases defect <;> first | rfl | cases other

mutual

theorem mem_findingsOfItem {unit : SourceUnit} {module : List String} {blocks : List ImplItem}
    {item : Item} {site : Site} (member : site ∈ sitesOfItem module blocks item)
    (placed : ∀ inner ∈ item.withInner, ¬ inner.IsMisplaced c) {finding : Finding}
    (found : finding ∈ findingsOfStruct c unit site.module site.blocks site.struct) :
    finding ∈ findingsOfItem c unit module blocks item := by
  cases item with
  | struct declaration =>
    rw [List.mem_singleton.mp member] at found
    rw [findingsOfItem]
    exact found
  | implementation block => cases member
  | other kind attributes tree => cases member
  | module attributes before name content =>
    cases content with
    | none => cases member
    | some items =>
      rw [Item.withInner] at placed
      have free : misplaced? c unit attributes "a module" = none := by
        rw [misplaced?_eq_none_iff]
        intro mark inside marks
        exact placed _ List.mem_cons_self ⟨rfl, mark, inside, marks⟩
      rw [sitesOfItem] at member
      rw [findingsOfItem.eq_def]
      dsimp only
      rw [free]
      exact mem_findingsOfItems member (fun inner below => placed inner (List.mem_cons_of_mem _ below))
        found

theorem mem_findingsOfItems {unit : SourceUnit} {module : List String} {blocks : List ImplItem}
    {items : List Item} {site : Site} (member : site ∈ sitesOfItems module blocks items)
    (placed : ∀ inner ∈ Item.allOf items, ¬ inner.IsMisplaced c) {finding : Finding}
    (found : finding ∈ findingsOfStruct c unit site.module site.blocks site.struct) :
    finding ∈ findingsOfItems c unit module blocks items := by
  cases items with
  | nil => cases member
  | cons item rest =>
    rw [sitesOfItems] at member
    rw [Item.allOf] at placed
    rw [findingsOfItems]
    rcases List.mem_append.mp member with here | later
    · exact List.mem_append_left _ (mem_findingsOfItem here
        (fun inner inside => placed inner (List.mem_append_left _ inside)) found)
    · exact List.mem_append_right _ (mem_findingsOfItems later
        (fun inner inside => placed inner (List.mem_append_right _ inside)) found)

end

theorem sites_of_parseFile {unit : SourceUnit} {items : List Item}
    (parsed : Grammar.parseFile unit.text = .ok items) :
    sites unit = sitesOfItems unit.modulePath (blocksOf items) items := by
  rw [sites_eq, parsed, sitesOfRead]

/-- What is found of a struct is found in its unit, unless a declaration on the way to it carries a
misplaced attribute. -/
theorem mem_findings {unit : SourceUnit} {items : List Item} {site : Site}
    (parsed : Grammar.parseFile unit.text = .ok items) (member : site ∈ sites unit)
    (placed : ∀ item ∈ Item.allOf items, ¬ item.IsMisplaced c) {finding : Finding}
    (found : finding ∈ findingsOfStruct c unit site.module site.blocks site.struct) :
    finding ∈ findings c unit := by
  rw [sites_of_parseFile parsed] at member
  rw [findings_of_parseFile parsed]
  exact mem_findingsOfItems member placed found

/-- A failure before which nothing fails is the failure of the scan. -/
theorem scan_of_findings {unit : SourceUnit} {before after : List Finding} {failure : Failure}
    (all : findings c unit = before ++ .error failure :: after)
    (first : ∀ finding ∈ before, ∃ d, finding = .ok d) : scan c unit = .error failure := by
  rw [scan, mapM_eq_error_iff]
  exact ⟨before, _, after, all, first, rfl⟩

end Scan

namespace Expansion

open Grammar Scan

/-- A struct below the attribute: it carries the attribute once, with the tokens of some arguments in
brackets, and it has the name, the export and the sort of fields of a declared struct. -/
structure Carries (c : Conventions) (struct : StructItem) (mark : Attribute)
    (arguments : List Lexeme) (declared : StructItem) : Prop where
  once : struct.attributes.filter c.marks = [mark]
  listed : ∃ delimiter body stop, mark.body = .list delimiter body stop ∧
    Lexeme.Alike arguments body
  name : struct.name = declared.name
  exported : struct.visibility.isExported = declared.visibility.isExported
  positional : struct.fields.isPositional = declared.fields.isPositional

/-- Whether a struct below the attribute has the arguments and the form of a declared struct. -/
def carries (c : Conventions) (struct : StructItem) (arguments : List Lexeme)
    (declared : StructItem) : Bool :=
  match struct.attributes.filter c.marks with
  | [mark] =>
    match mark.body with
    | .list _ body _ => Lexeme.sameAll arguments body && struct.name == declared.name &&
      struct.visibility.isExported == declared.visibility.isExported &&
      struct.fields.isPositional == declared.fields.isPositional
    | _ => false
  | _ => false

theorem exists_carries {c : Conventions} {struct declared : StructItem} {arguments : List Lexeme}
    (checked : carries c struct arguments declared = true) :
    ∃ mark, Carries c struct mark arguments declared := by
  unfold carries at checked
  split at checked
  · rename_i mark once
    split at checked
    · rename_i delimiter body stop listed
      simp only [Bool.and_eq_true, beq_iff_eq] at checked
      obtain ⟨⟨⟨same, name⟩, exported⟩, positional⟩ := checked
      exact ⟨mark, once, ⟨delimiter, body, stop, listed, .of_sameAll _ _ same⟩, name, exported,
        positional⟩
    · cases checked
  · cases checked

/-- Whether a struct is below the attribute with the arguments, and an item is the struct. -/
def carriesItem (c : Conventions) (struct : StructItem) (arguments : List Lexeme) : Item → Bool
  | .struct declared => carries c struct arguments declared
  | _ => false

theorem exists_of_carriesItem {c : Conventions} {struct : StructItem} {arguments : List Lexeme}
    {item : Item} (checked : carriesItem c struct arguments item = true) :
    ∃ declared, item = .struct declared ∧ ∃ mark, Carries c struct mark arguments declared := by
  cases item with
  | struct declared => exact ⟨declared, rfl, exists_carries checked⟩
  | _ => cases checked

theorem defect?_eq_none_iff {mark : String} {struct : StructItem} :
    defect? mark (.struct struct) = none ↔
      struct.visibility.isExported = true ∧ struct.fields.isPositional = false := by
  unfold defect?
  cases exported : struct.visibility.isExported <;>
    cases positional : struct.fields.isPositional <;> simp [exported, positional]

theorem kept_struct (mark : String) {arguments lexemes : List Lexeme} {declared : StructItem}
    (read : parseLexemes Grammar.item lexemes Position.first = .ok (.struct declared)) :
    kept mark arguments lexemes =
      match parseLexemes (fun _ => Annotation.arguments) arguments Position.first with
      | .error error => .error (.unparsed error)
      | .ok _ =>
        match defect? mark (.struct declared) with
        | some defect => .error (.unfit defect)
        | none => .ok declared.tree := by
  have own : parse Grammar.item lexemes = .ok (.struct declared) := by simp only [parse, read]
  rw [kept, parse]
  cases parseLexemes (fun _ => Annotation.arguments) arguments Position.first with
  | error error => rfl
  | ok annotation =>
    simp only [bind, Except.bind, own]
    cases defect? mark (.struct declared) <;> rfl

/-- What the text of a declaration is replaced by. -/
def outcome : Except Refusal Tree → Tree
  | .ok tree => tree
  | .error refusal => stop refusal.message

theorem expand_of_lex {arguments declaration : String} {given lexemes : List Lexeme}
    (lexed : Lexer.lex arguments.toList = .ok given)
    (lexed' : Lexer.lex declaration.toList = .ok lexemes) :
    expand arguments declaration = .ok (outcome (kept ({} : Conventions).mark given lexemes)) := by
  rw [expand, lexed, lexed']
  dsimp only
  cases kept ({} : Conventions).mark given lexemes <;> rfl

theorem expand_of_refused {arguments declaration : String} {given lexemes : List Lexeme}
    (lexed : Lexer.lex arguments.toList = .ok given)
    (lexed' : Lexer.lex declaration.toList = .ok lexemes) {refusal : Refusal}
    (refused : kept ({} : Conventions).mark given lexemes = .error refusal) :
    expand arguments declaration = .ok (stop refusal.message) := by
  rw [expand_of_lex lexed lexed', refused]
  rfl

variable {c : Conventions} {struct declared : StructItem} {mark : Attribute}
  {arguments lexemes : List Lexeme}

/-- What an expansion of the attribute above a declared struct makes of it and what a scan of the
struct in its unit says if it refuses the arguments or the form. Both keep the struct, or both say
the same of the arguments, or both refuse the form and say the same unless the name is raw. -/
inductive Concurs (struct : StructItem) (tree : Tree) : Tree → Option String → Prop
  | kept : Concurs struct tree tree none
  | unparsed (said : String) : Concurs struct tree (stop said) (some said)
  | unfit {message said : String} (same : message = said ↔ unraw struct.name = struct.name) :
      Concurs struct tree (stop message) (some said)

theorem concurs_ofStruct (carries : Carries c struct mark arguments declared)
    (read : parseLexemes Grammar.item lexemes Position.first = .ok (.struct declared))
    (unit : SourceUnit) (module : List String) (blocks : List ImplItem) :
    Concurs struct declared.tree (outcome (kept c.mark arguments lexemes))
      (refused? (ofStruct c unit module blocks struct mark)) := by
  obtain ⟨delimiter, body, stop, listed, alike⟩ := carries.listed
  have given : Annotation.ofAttribute mark =
      parseLexemes (fun _ => Annotation.arguments) body stop := by
    unfold Annotation.ofAttribute
    rw [listed]
  have form : defect? c.mark (.struct declared) = defect? c.mark (.struct struct) := by
    unfold defect?
    dsimp only
    rw [carries.name, carries.exported, carries.positional]
  rw [kept_struct c.mark read, form, ofStruct, given]
  rcases Annotation.parseLexemes_displaced alike Position.first stop with
    ⟨values, first, second⟩ | ⟨error, error', first, second, same⟩
  · rw [first, second]
    dsimp only
    cases unfit : defect? c.mark (.struct struct) with
    | some defect =>
      obtain ⟨other, described, isForm, unlike, same⟩ := describe_of_defect? unfit c module blocks
        values (unit.location struct.nameStart)
      rw [described]
      dsimp only
      rw [refused?_of_isOfForm _ isForm unlike]
      exact .unfit same
    | none =>
      obtain ⟨exported, named⟩ := defect?_eq_none_iff.mp unfit
      cases described : describe c module blocks struct values
          (unit.location struct.nameStart) with
      | ok d => exact .kept
      | error defect =>
        dsimp only
        rw [refused?_of_not_isOfForm _ (describe_error exported named described)]
        exact .kept
  · rw [first, second]
    dsimp only [outcome, Refusal.message]
    rw [same.message]
    exact .unparsed _

/-- An expansion of the attribute with some arguments above a struct and a scan of a unit with the
struct below the attribute with these arguments. Unless a declaration carries a misplaced attribute,
the one finding of the struct is among those of the unit, and is the scan's failure when it is a
failure and no earlier finding is. -/
theorem expand_concurs {arguments declaration : String} {given : List Lexeme}
    {declared : StructItem} {unit : SourceUnit} {items : List Item} {site : Site} {mark : Attribute}
    (lexed : Lexer.lex arguments.toList = .ok given)
    (read : parseText Grammar.item declaration = .ok (.struct declared))
    (parsed : parseFile unit.text = .ok items) (member : site ∈ sites unit)
    (carried : Carries {} site.struct mark given declared) :
    ∃ tree found, expand arguments declaration = .ok tree ∧
      findingsOfStruct {} unit site.module site.blocks site.struct = [found] ∧
      Concurs site.struct declared.tree tree (refused? found) ∧
      ((∀ item ∈ Item.allOf items, ¬ item.IsMisplaced {}) →
        ∃ before after, findings {} unit = before ++ found :: after ∧
          ∀ failure, found = .error failure → (∀ finding ∈ before, ∃ d, finding = .ok d) →
            scan {} unit = .error failure) := by
  obtain ⟨lexemes, lexed', read'⟩ := parseText_eq_ok_iff.mp read
  have single : findingsOfStruct {} unit site.module site.blocks site.struct =
      [ofStruct {} unit site.module site.blocks site.struct mark] := by
    rw [findingsOfStruct, carried.once]
  refine ⟨_, _, expand_of_lex lexed lexed', single,
    concurs_ofStruct carried read' unit site.module site.blocks, fun placed => ?_⟩
  obtain ⟨before, after, all⟩ := List.append_of_mem
    (mem_findings parsed member placed (single ▸ List.mem_singleton_self _))
  refine ⟨before, after, all, ?_⟩
  rintro failure failed first
  rw [failed] at all
  exact scan_of_findings all first

theorem exists_ok_of_any {ε α : Type} {result : Except ε α} {p : α → Bool}
    (holds : result.toOption.any p = true) : ∃ value, result = .ok value ∧ p value = true := by
  cases result with
  | error => cases holds
  | ok value => exact ⟨value, rfl, holds⟩

/-- A unit with a struct that is not exported. -/
def hidden : SourceUnit :=
  ⟨"src/lib.rs", ["crate"], "#[variant_merge(name=\"G\")]struct H\x7ba:u8\x7d"⟩

theorem expand_concurs_hidden :
    ∃ given declared items site mark, Lexer.lex "name=\"G\"".toList = .ok given ∧
      parseText Grammar.item "struct H\x7ba:u8\x7d" = .ok (.struct declared) ∧
      parseFile hidden.text = .ok items ∧ site ∈ sites hidden ∧
      Carries {} site.struct mark given declared ∧
      ∃ tree found before after, expand "name=\"G\"" "struct H\x7ba:u8\x7d" = .ok tree ∧
        findingsOfStruct {} hidden site.module site.blocks site.struct = [found] ∧
        Concurs site.struct declared.tree tree (refused? found) ∧
        findings {} hidden = before ++ found :: after := by
  have computed : (Lexer.lex "name=\"G\"".toList).toOption.any (fun given =>
      (parseText Grammar.item "struct H\x7ba:u8\x7d").toOption.any fun item =>
        (parseFile hidden.text).toOption.any fun items =>
          (sites hidden).any (fun site => carriesItem {} site.struct given item) &&
            (Item.allOf items).all fun item => decide (¬ item.IsMisplaced {})) = true := by
    decide +kernel
  obtain ⟨given, lexed, computed⟩ := exists_ok_of_any computed
  obtain ⟨item, read, computed⟩ := exists_ok_of_any computed
  obtain ⟨items, parsed, computed⟩ := exists_ok_of_any computed
  obtain ⟨below, free⟩ := Bool.and_eq_true_iff.mp computed
  obtain ⟨site, member, checked⟩ := List.any_eq_true.mp below
  obtain ⟨declared, rfl, mark, carried⟩ := exists_of_carriesItem checked
  have placed (item : Item) (inside : item ∈ Item.allOf items) : ¬ item.IsMisplaced {} :=
    of_decide_eq_true (List.all_eq_true.mp free item inside)
  obtain ⟨tree, found, expanded, single, concurs, among⟩ :=
    expand_concurs lexed read parsed member carried
  obtain ⟨before, after, all, -⟩ := among placed
  exact ⟨given, declared, items, site, mark, lexed, read, parsed, member, carried, tree, found,
    before, after, expanded, single, concurs, all⟩

/-- A unit with a struct that is not exported and whose name is a keyword. -/
def hiddenKeyword : SourceUnit :=
  ⟨"src/lib.rs", ["crate"], "#[variant_merge(name=\"G\")]struct r#type\x7ba:u8\x7d"⟩

theorem expand_differs_keyword :
    ∃ message said, message ≠ said ∧
      (expand "name=\"G\"" "struct r#type\x7ba:u8\x7d").toOption.map Tree.render =
        some (stop message).render ∧
      (findings {} hiddenKeyword).map refused? = [some said] := by
  have computed : (Lexer.lex "name=\"G\"".toList).toOption.any (fun given =>
      (Lexer.lex "struct r#type\x7ba:u8\x7d".toList).toOption.any fun lexemes =>
        match kept ({} : Conventions).mark given lexemes with
        | .error refusal => refusal == .unfit (.privateType "r#type")
        | .ok _ => false) = true := by
    rw [HasChars.literal.toList_eq, HasChars.literal.toList_eq]
    decide +kernel
  have scanned : (findings {} hiddenKeyword).map refused? =
      [some "`type` must be declared `pub` or `pub(crate)` to be forwarded to"] := by
    rw [findings_of_hasChars hiddenKeyword .literal]
    decide +kernel
  obtain ⟨given, lexed, computed⟩ := exists_ok_of_any computed
  obtain ⟨lexemes, lexed', computed⟩ := exists_ok_of_any computed
  refine ⟨"`r#type` must be declared `pub` or `pub(crate)` to be forwarded to", _,
    by decide +kernel, ?_, scanned⟩
  cases made : kept ({} : Conventions).mark given lexemes with
  | ok tree =>
    rw [made] at computed
    cases computed
  | error refusal =>
    rw [made, beq_iff_eq] at computed
    rw [expand_of_refused lexed lexed' made, computed]
    rfl

end Expansion

end Forwarding
