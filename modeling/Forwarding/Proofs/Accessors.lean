import Forwarding.Proofs.Emission
/-!
The functions of a forwarding type: the constructor, two accessors of every property and the
function that gives the winner back. The scan rejects properties whose accessors would have the name
of each other or of the constructor. The constructor itself may have the name of an accessor that
changes a property, or that of the function which gives the winner back, and with the mark of a raw
identifier it may have the name of a property.
-/

namespace Forwarding

namespace Tree

/-- The name of the function that two neighbouring trees introduce. -/
def functionName? : Tree → Tree → Option String
  | token (.ident keyword), token (.ident name) => if keyword = "fn" then some name else none
  | _, _ => none

/-- The names of the functions that stand among some trees, in their order. -/
def functionNames : List Tree → List String
  | a :: b :: rest => (functionName? a b).toList ++ functionNames (b :: rest)
  | _ => []

@[simp]
theorem functionNames_group (delimiter : Delimiter) (children rest : List Tree) :
    functionNames (group delimiter children :: rest) = functionNames rest := by
  cases rest <;> rfl

@[simp]
theorem functionNames_operator (symbols : String) (rest : List Tree) :
    functionNames (operator symbols :: rest) = functionNames rest := by
  cases rest <;> rfl

@[simp]
theorem functionNames_cons_group (tree : Tree) (delimiter : Delimiter) (children rest : List Tree) :
    functionNames (tree :: group delimiter children :: rest) = functionNames rest := by
  have none : functionName? tree (group delimiter children) = none := by
    cases tree with
    | token t => cases t <;> rfl
    | _ => rfl
  rw [functionNames, none, functionNames_group]
  rfl

@[simp]
theorem functionNames_cons_operator (tree : Tree) (symbols : String) (rest : List Tree) :
    functionNames (tree :: operator symbols :: rest) = functionNames rest := by
  have none : functionName? tree (operator symbols) = none := by
    cases tree with
    | token t => cases t <;> rfl
    | _ => rfl
  rw [functionNames, none, functionNames_operator]
  rfl

theorem functionNames_word {keyword : String} (other : keyword ≠ "fn") (rest : List Tree) :
    functionNames (word keyword :: rest) = functionNames rest := by
  cases rest with
  | nil => rfl
  | cons tree rest =>
    have none : functionName? (word keyword) tree = none := by
      cases tree with
      | token t =>
        cases t with
        | ident name => exact if_neg other
        | _ => rfl
      | _ => rfl
    rw [functionNames, none]
    rfl

@[simp]
theorem functionNames_fn (name : String) (delimiter : Delimiter) (children rest : List Tree) :
    functionNames (word "fn" :: word name :: group delimiter children :: rest) =
      name :: functionNames rest := by
  have found : functionName? (word "fn") (word name) = some name := rfl
  rw [functionNames, found, functionNames_cons_group]
  rfl

theorem functionNames_separated (separator symbols : String) (trees rest : List Tree) :
    functionNames (separated (operator separator) trees ++ operator symbols :: rest) =
      functionNames rest := by
  fun_induction separated (operator separator) trees with
  | case1 => exact functionNames_operator symbols rest
  | case2 tree => exact functionNames_cons_operator tree symbols rest
  | case3 tree others _ ih =>
    rw [List.cons_append, List.cons_append, functionNames_cons_operator, ih]

end Tree

namespace ForwardingType

open Forwarding.Tree

variable (t : ForwardingType)

/-- What stands in the inherent impl block. -/
def members : List Tree :=
  t.constructorFunction ++ t.properties.flatMap (fun (name, type) => accessors name type)
    ++ t.unwrapping

/-- The inherent impl block up to what stands in it. -/
def inherentHead : List Tree :=
  marked [word "allow", parenthesized [word "dead_code", operator ",", word "clippy",
      operator "::", word "new_without_default"]]
    ++ [word "impl"] ++ angled t.declared ++ t.self ++ t.whereClause

theorem inherent_eq : t.inherent = t.inherentHead ++ [.group .brace t.members] := rfl

theorem functionNames_function (name : String) (params output rest : List Tree) :
    functionNames (word "pub" :: (function name params output ++ rest)) =
      name :: functionNames (output ++ rest) := by
  have split : word "pub" :: (function name params output ++ rest) =
      word "pub" :: word "fn" :: word name :: .group .parenthesis params :: operator "->" ::
        (output ++ rest) := by
    simp [function, parenthesized]
  rw [split, functionNames_word (by decide), functionNames_fn, functionNames_operator]

theorem functionNames_inner (children rest : List Tree) :
    functionNames (t.inner ++ braced children :: rest) = functionNames rest := by
  unfold inner angled listed braced
  split
  · exact functionNames_cons_group _ _ _ _
  · rw [List.cons_append, List.cons_append, functionNames_cons_operator, List.append_assoc,
      List.singleton_append, functionNames_separated, functionNames_group]

theorem functionNames_constructorFunction (rest : List Tree) :
    functionNames (t.constructorFunction ++ rest) = t.constructor :: functionNames rest := by
  unfold constructorFunction
  dsimp only
  rw [List.append_assoc, List.cons_append, functionNames_function, List.append_assoc,
    List.singleton_append, functionNames_word (by decide)]
  exact congrArg _ (functionNames_group _ _ rest)

theorem functionNames_accessors (name : String) (type : Tree) (rest : List Tree) :
    functionNames (accessors name type ++ rest) =
      name :: (unraw name ++ "_mut") :: functionNames rest := by
  have split : accessors name type ++ rest =
      word "pub" :: (function name [operator "&", word "self"] [operator "&", type] ++
        braced (operator "&" :: wrapped ++ [operator ".", word name]) :: word "pub" ::
          (function (unraw name ++ "_mut") [operator "&", word "mut", word "self"]
              [operator "&", word "mut", type] ++
            braced ([operator "&", word "mut"] ++ wrapped ++ [operator ".", word name]) ::
              rest)) := by
    simp [accessors]
  rw [split, functionNames_function]
  simp only [List.cons_append, List.nil_append, braced, functionNames_operator,
    functionNames_cons_group, functionNames_function,
    functionNames_word (show "mut" ≠ "fn" by decide)]

theorem functionNames_unwrapping : functionNames t.unwrapping = ["into_inner"] := by
  unfold unwrapping
  rw [List.cons_append, functionNames_function, functionNames_inner]
  rfl

/-- The functions of the inherent impl block. -/
theorem functionNames_members :
    functionNames t.members = t.constructor ::
      (t.properties.flatMap (fun (name, _) => [name, unraw name ++ "_mut"]) ++ ["into_inner"]) := by
  unfold members
  rw [List.append_assoc, functionNames_constructorFunction]
  congr 1
  induction t.properties with
  | nil => exact t.functionNames_unwrapping
  | cons entry rest ih =>
    rw [List.flatMap_cons, List.append_assoc, functionNames_accessors, ih, List.flatMap_cons]
    rfl

end ForwardingType

theorem Lexer.WordChars.append {chars more : List Char} (word : WordChars chars)
    (continues : more.all Text.isIdentContinue = true) : WordChars (chars ++ more) := by
  obtain ⟨begins, each⟩ := word
  exact ⟨begins, List.forall_mem_append.mpr ⟨each, List.all_eq_true.mp continues⟩⟩

theorem unraw_mutableName {name : String} (named : Lexer.IsName name) :
    unraw (mutableName (unraw name)) = mutableName (unraw name) := by
  refine Lexer.WordChars.unraw_eq ?_
  rw [mutableName, String.toList_append]
  exact named.wordChars_unraw.append (by decide)

theorem mutableName_ne {other : String} (ends : other.toList.getLast? ≠ some 't') (key : String) :
    mutableName key ≠ other := by
  rintro rfl
  rw [mutableName, String.toList_append, List.getLast?_append_of_ne_nil _ (by decide)] at ends
  exact ends rfl

/-- The accessors of properties have different names, and none has that of the function which gives
the winner back. -/
theorem nodup_accessors {keys : List String} (different : keys.Nodup) (kept : "into_inner" ∉ keys)
    (apart : ∀ key ∈ keys, ∀ other ∈ keys, other ≠ mutableName key) :
    (keys.flatMap (fun key => [key, mutableName key]) ++ ["into_inner"]).Nodup := by
  rw [List.nodup_append]
  refine ⟨List.nodup_flatMap.mpr ⟨fun key member => ?_, ?_⟩, List.nodup_singleton _, ?_⟩
  · have own := apart key member key member
    simpa using own
  · refine different.imp_of_mem fun {first second} inside present unequal => ?_
    have injective : mutableName first ≠ mutableName second :=
      fun same => unequal ((String.append_left_inj _).mp same)
    have before := apart first inside second present
    have after := apart second present first inside
    intro name
    simp only [List.mem_cons, List.not_mem_nil, or_false]
    rintro (rfl | rfl) (same | same)
    · exact unequal same
    · exact after same
    · exact before same.symm
    · exact injective same
  · intro name member other last
    obtain ⟨key, present, accessor⟩ := List.mem_flatMap.mp member
    rw [List.mem_singleton.mp last]
    simp only [List.mem_cons, List.not_mem_nil, or_false] at accessor
    rcases accessor with rfl | rfl
    · exact fun same => kept (same ▸ present)
    · exact mutableName_ne (by decide) key

theorem reservedAccessor?_eq_none_iff {constructor : String}
    {properties : List (String × Property)} :
    reservedAccessor? constructor properties = none ↔
      ∀ key ∈ properties.map Prod.fst, key ≠ constructor ∧ key ≠ "into_inner" ∧
        ∀ other ∈ properties.map Prod.fst, other ≠ mutableName key := by
  unfold reservedAccessor?
  rw [List.findSome?_eq_none_iff, List.forall_mem_map]
  refine forall₂_congr fun entry _ => ?_
  simp only [Bool.or_eq_true, beq_iff_eq, List.any_eq_true, List.forall_mem_map]
  constructor
  · intro free
    split at free
    · cases free
    · rename_i plain
      split at free
      · cases free
      · rename_i absent
        rw [not_or] at plain
        exact ⟨plain.1, plain.2, fun other present same => absent ⟨other, present, same⟩⟩
  · rintro ⟨own, kept, apart⟩
    rw [if_neg (not_or.mpr ⟨own, kept⟩),
      if_neg fun ⟨other, present, same⟩ => apart other present same]

/-- The names that functions of a forwarding type have beside that of the constructor. -/
def Definition.accessors (d : Definition) : List String :=
  d.properties.flatMap (fun (key, _) => [key, mutableName key]) ++ ["into_inner"]

namespace Artifact

theorem named_ok {group name typeText : String} {entry : String × Tree}
    (word : IsIdentifier name ∨ name = "_") (given : named group name typeText = .ok entry) :
    IsIdentifier name ∧ entry.1 = name ∧ Grammar.parseText Grammar.type typeText = .ok entry.2 := by
  obtain ⟨parsed, read⟩ := named_eq_ok_iff.mp given
  -- an underscore is not read back
  have identifier := word.resolve_right
    ((Grammar.parses_identifier_iff word).mp ⟨entry.1, parsed⟩)
  exact ⟨identifier,
    Except.ok.inj (parsed.symm.trans (Grammar.parseText_identifier identifier)), read⟩

end Artifact

namespace Scan.Site.Records

variable {c : Conventions} {site : Site} {o : Origin} {d : Definition} {module : List String}

theorem nodup_accessors (recorded : site.Records c o d) : d.accessors.Nodup := by
  have keys := (site.struct.keys_properties (o.constructor.values site.struct)).1
  rw [← recorded.properties] at keys
  have free := reservedAccessor?_eq_none_iff.mp recorded.free
  have listed : d.accessors =
      (d.properties.map Prod.fst).flatMap (fun key => [key, mutableName key]) ++
        ["into_inner"] := by
    rw [List.flatMap_map]
    rfl
  rw [listed]
  exact Forwarding.nodup_accessors keys (fun kept => (free _ kept).2.1 rfl)
    fun key member => (free key member).2.2

theorem constructor_eq (recorded : site.Records c o d) : d.constructor = c.constructor := by
  obtain ⟨-, found, -⟩ := Site.origin?_eq_some recorded.origin
  obtain ⟨-, -, -, same, -⟩ := Constructor.find_ok found
  exact recorded.constructor.trans same

/-- The name of a constructor is an identifier and reads as itself. -/
theorem reads_constructor (recorded : site.Records c o d) (named : site.IsNamed module)
    {group : String} {t : ForwardingType} (reads : Artifact.ReadsAs group d t) :
    t.constructor = d.constructor := by
  have identifier : IsIdentifier d.constructor :=
    recorded.constructor ▸ (recorded.signature_isNamed named).name
  exact Except.ok.inj (reads.constructor.symm.trans (Grammar.parseText_identifier identifier))

/-- The functions of a forwarding type have the names that the scan records. -/
theorem functionNames_members (recorded : site.Records c o d) (named : site.IsNamed module)
    {group : String} {t : ForwardingType} (reads : Artifact.ReadsAs group d t) :
    (Tree.functionNames t.members).map unraw = unraw c.constructor :: d.accessors := by
  have constructor : t.constructor = c.constructor :=
    (recorded.reads_constructor named reads).trans recorded.constructor_eq
  have keyed := (site.struct.keys_properties (o.constructor.values site.struct)).2
  rw [← recorded.properties] at keyed
  have entries := (mapM_eq_ok_iff _ _ _).mp reads.properties
  have related : List.Forall₂ (fun p entry => IsIdentifier p.2.name ∧ p.1 = unraw p.2.name ∧
      entry.1 = p.2.name) d.properties t.properties := by
    have both := (List.forall₂_and_left _ _).mpr ⟨fun p member =>
      And.intro (recorded.property_isNamed named p member) (keyed p member), entries⟩
    refine both.imp fun p entry ⟨⟨word, key⟩, given⟩ => ?_
    obtain ⟨identifier, name, -⟩ := Artifact.named_ok word given
    exact ⟨identifier, key, name⟩
  rw [ForwardingType.functionNames_members, List.map_cons, constructor, List.map_append,
    List.map_flatMap, Definition.accessors]
  congr 1
  refine congrArg (· ++ ["into_inner"]) ?_
  clear entries keyed
  generalize d.properties = properties, t.properties = found at related ⊢
  induction related with
  | nil => rfl
  | cons first _ ih =>
    obtain ⟨identifier, key, name⟩ := first
    rw [List.flatMap_cons, List.flatMap_cons, ih]
    refine congrArg (· ++ _) ?_
    change [unraw _, unraw _] = [_, mutableName _]
    rw [key, name]
    exact congrArg (fun other => [unraw _, other]) (unraw_mutableName identifier.1)

end Scan.Site.Records

namespace Artifact

/-- The functions of a forwarding type have different names exactly if the name of the constructor,
without the mark of a raw identifier, is not that of an accessor. -/
theorem nodup_functionNames_iff {c : Conventions} {unit : SourceUnit}
    {definitions : List Definition} {r : Resolution} {a : Artifact}
    (scanned : Scan.scan c unit = .ok definitions) (won : r.winner ∈ definitions)
    (made : ofResolution r = .ok a) :
    ∃ t, read r.name r.winner = .ok t ∧
      a.contents = layout [t.declaration (documentation r),
        t.inherentHead ++ [.group .brace t.members], t.dereferencing] ∧
      (Tree.functionNames t.members).map unraw = unraw c.constructor :: r.winner.accessors ∧
      (((Tree.functionNames t.members).map unraw).Nodup ↔
        unraw c.constructor ∉ r.winner.accessors) ∧
      (unraw c.constructor = c.constructor →
        (((Tree.functionNames t.members).map unraw).Nodup ↔ c.constructor ≠ "into_inner" ∧
          ∀ p ∈ r.winner.properties, c.constructor ≠ mutableName p.1)) ∧
      (c.constructor = ({} : Conventions).constructor →
        ((Tree.functionNames t.members).map unraw).Nodup) := by
  obtain ⟨t, succeeded, rfl⟩ := ofResolution_ok made
  obtain ⟨site, stands, o, recorded⟩ := Scan.exists_records scanned won
  have names := recorded.functionNames_members (Scan.isNamed_of_sites stands)
    (readsAs_of_read succeeded)
  have distinct : ((Tree.functionNames t.members).map unraw).Nodup ↔
      unraw c.constructor ∉ r.winner.accessors := by
    rw [names, List.nodup_cons]
    exact and_iff_left recorded.nodup_accessors
  have plain (unmarked : unraw c.constructor = c.constructor) :
      unraw c.constructor ∉ r.winner.accessors ↔ c.constructor ≠ "into_inner" ∧
        ∀ p ∈ r.winner.properties, c.constructor ≠ mutableName p.1 := by
    have free := reservedAccessor?_eq_none_iff.mp recorded.free
    rw [unmarked, Definition.accessors]
    simp only [List.mem_append, List.mem_flatMap, List.mem_cons, List.not_mem_nil, or_false]
    constructor
    · exact fun absent => ⟨fun same => absent (.inr same),
        fun p member same => absent (.inl ⟨p, member, .inr same⟩)⟩
    · rintro ⟨kept, apart⟩ (⟨p, member, same | same⟩ | same)
      · exact (free p.1 (List.mem_map_of_mem member)).1 same.symm
      · exact apart p member same
      · exact kept same
  refine ⟨t, succeeded, by rw [← t.inherent_eq], names, distinct,
    fun unmarked => distinct.trans (plain unmarked), ?_⟩
  intro conventional
  have unmarked : unraw c.constructor = c.constructor := by rw [conventional]; decide
  refine distinct.mpr ((plain unmarked).mpr ?_)
  rw [conventional]
  exact ⟨by decide, fun p _ => (mutableName_ne (by decide) p.1).symm⟩

/-- A unit with one struct, which has the property `a` and a constructor of some name. -/
def unitOf (constructor : String) : SourceUnit :=
  ⟨"src/lib.rs", ["crate"],
    "#[variant_merge(name=\"G\",priority=1)]pub struct H\x7bpub a:u8\x7dimpl H\x7bpub fn " ++
      constructor ++ "(a:u8)->Self\x7bH\x7ba\x7d\x7d\x7d"⟩

theorem nodup_functionNames_iff_new :
    ∃ definitions r a, Scan.scan {} (unitOf "new") = .ok definitions ∧ r.winner ∈ definitions ∧
      ofResolution r = .ok a ∧ ∃ t, read r.name r.winner = .ok t ∧
        (Tree.functionNames t.members).map unraw = ["new", "a", "a_mut", "into_inner"] ∧
          ((Tree.functionNames t.members).map unraw).Nodup := by
  have computed : (Scan.scan {} (unitOf "new")).toOption.map
      (·.map fun d => ((ofResolution ⟨"G", d, []⟩).isOk, d.accessors)) =
        some [(true, ["a", "a_mut", "into_inner"])] := by
    rw [Scan.scan_of_hasChars (unitOf "new") (by repeat constructor)]
    decide +kernel
  obtain ⟨d, scanned, found⟩ := Scan.exists_single computed
  obtain ⟨succeeds, accessors⟩ := Prod.mk.inj found
  obtain ⟨a, made⟩ := exists_of_isOk succeeds
  obtain ⟨t, read, -, names, -, -, distinct⟩ :=
    nodup_functionNames_iff scanned (List.mem_singleton_self d) made
  rw [accessors] at names
  exact ⟨[d], ⟨"G", d, []⟩, a, scanned, List.mem_singleton_self d, made, t, read, names,
    distinct rfl⟩

/-- A constructor with the name of an accessor stands beside it. -/
theorem functionNames_repeat :
    ∃ d t, Scan.scan { constructor := "a_mut" } (unitOf "a_mut") = .ok [d] ∧
      read d.name d = .ok t ∧
        Tree.functionNames t.members = ["a_mut", "a", "a_mut", "into_inner"] ∧
          ¬ ((Tree.functionNames t.members).map unraw).Nodup := by
  have computed : (Scan.scan { constructor := "a_mut" } (unitOf "a_mut")).toOption.map
      (·.map fun d => (read d.name d).toOption.map fun t => Tree.functionNames t.members) =
        some [some ["a_mut", "a", "a_mut", "into_inner"]] := by
    rw [Scan.scan_of_hasChars (unitOf "a_mut") (by repeat constructor)]
    decide +kernel
  obtain ⟨d, scanned, found⟩ := Scan.exists_single computed
  cases succeeded : read d.name d with
  | error failure =>
    rw [succeeded] at found
    cases found
  | ok t =>
    rw [succeeded] at found
    have names : Tree.functionNames t.members = ["a_mut", "a", "a_mut", "into_inner"] :=
      Option.some.inj found
    refine ⟨d, t, scanned, succeeded, names, ?_⟩
    rw [names]
    decide

end Artifact

end Forwarding
