import Forwarding.CommandLine
import Mathlib.Data.List.DropRight
import Mathlib.Data.List.Forall2
import Mathlib.Data.List.TakeWhile
/-!
Texts of source roots. A root is read back from its text exactly when its path has no equals sign and
is not empty, and no segment of its module is blank. The first equals sign ends the path; those after
it belong to the module, whose segments end at the first two colons that follow each other.
-/

namespace Forwarding

namespace Text

/-- A text is trimmed to nothing when it is blank. -/
theorem trim_eq_nil_iff {text : List Char} : trim text = [] ↔ ∀ c ∈ text, isBlank c = true := by
  have last : trim text = (text.dropWhile isBlank).rdropWhile isBlank := rfl
  rw [last, List.rdropWhile_eq_nil_iff]
  constructor
  · intro blank c member
    rw [← List.takeWhile_append_dropWhile (p := isBlank) (l := text), List.mem_append] at member
    rcases member with member | member
    · exact List.mem_takeWhile_imp member
    · exact blank c member
  · exact fun blank c member => blank c ((List.dropWhile_suffix isBlank).subset member)

theorem trim_trim (text : List Char) : trim (trim text) = trim text := by
  have last (text : List Char) : trim text = (text.dropWhile isBlank).rdropWhile isBlank := rfl
  have settled := List.dropWhile_eq_self_iff.mp (List.dropWhile_idempotent isBlank text)
  rw [last, last text]
  generalize text.dropWhile isBlank = body at settled
  have front : (body.rdropWhile isBlank).dropWhile isBlank = body.rdropWhile isBlank := by
    obtain ⟨blanks, split⟩ := List.rdropWhile_prefix isBlank body
    cases kept : body.rdropWhile isBlank with
    | nil => rfl
    | cons c rest =>
      rw [kept] at split
      subst split
      exact List.dropWhile_eq_self_iff.mpr fun _ => settled (Nat.succ_pos _)
  rw [front, List.rdropWhile_idempotent]

end Text

namespace ModulePath

/-- The segments of a text between pairs of colons, found from the left: a segment ends before the
first two colons that follow each other. -/
inductive Segments : List Char → List (List Char) → Prop
  | last {segment : List Char} (whole : ¬ [':', ':'] <:+: segment) : Segments segment [segment]
  | more {segment rest : List Char} {others : List (List Char)}
      (first : ¬ [':', ':'] <:+: segment ++ [':']) (later : Segments rest others) :
      Segments (segment ++ ':' :: ':' :: rest) (segment :: others)

theorem colons_cons {c : Char} {text : List Char} :
    ¬ [':', ':'] <:+: c :: text ↔
      ¬ (c = ':' ∧ text.head? = some ':') ∧ ¬ [':', ':'] <:+: text := by
  have second : [':'] <+: text ↔ text.head? = some ':' := by
    cases text <;> simp [List.cons_prefix_cons, eq_comm]
  rw [List.infix_cons_iff, List.cons_prefix_cons, second, not_or, eq_comm]

theorem splitAtColons_cons {c : Char} {text part : List Char} {parts : List (List Char)}
    (apart : ¬ (c = ':' ∧ text.head? = some ':')) (split : splitAtColons text = part :: parts) :
    splitAtColons (c :: text) = (c :: part) :: parts := by
  rw [splitAtColons.eq_def]
  split
  · rename_i same
    cases same
  · rename_i same
    cases same
    exact absurd ⟨rfl, rfl⟩ apart
  · rename_i same
    cases same
    rw [split]

theorem splitAtColons_append {segment : List Char} (first : ¬ [':', ':'] <:+: segment ++ [':'])
    (rest : List Char) :
    splitAtColons (segment ++ ':' :: ':' :: rest) = segment :: splitAtColons rest := by
  induction segment with
  | nil => rw [List.nil_append, splitAtColons]
  | cons c segment ih =>
    obtain ⟨apart, later⟩ := colons_cons.mp first
    refine splitAtColons_cons ?_ (ih later)
    cases segment <;> exact apart

theorem splitAtColons_eq_single {segment : List Char} (whole : ¬ [':', ':'] <:+: segment) :
    splitAtColons segment = [segment] := by
  induction segment with
  | nil => rfl
  | cons c segment ih =>
    obtain ⟨apart, later⟩ := colons_cons.mp whole
    exact splitAtColons_cons apart (ih later)

theorem Segments.cons {c : Char} {text part : List Char} {parts : List (List Char)}
    (given : Segments text (part :: parts)) (apart : ¬ (c = ':' ∧ text.head? = some ':')) :
    Segments (c :: text) ((c :: part) :: parts) := by
  cases given with
  | last whole => exact .last (colons_cons.mpr ⟨apart, whole⟩)
  | more first later =>
    have longer : ¬ [':', ':'] <:+: c :: part ++ [':'] := by
      refine colons_cons.mpr ⟨?_, first⟩
      cases part <;> exact apart
    exact .more longer later

theorem segments_splitAtColons (text : List Char) : Segments text (splitAtColons text) := by
  fun_induction splitAtColons text with
  | case1 => exact .last (by decide)
  | case2 rest ih =>
    have first : ¬ [':', ':'] <:+: [] ++ [':'] := by decide
    exact .more first ih
  | case3 c rest apart part parts split ih =>
    rw [split] at ih
    refine ih.cons ?_
    rintro ⟨rfl, first⟩
    obtain ⟨more, rfl⟩ := List.head?_eq_some_iff.mp first
    exact apart more rfl rfl
  | case4 c rest apart split ih =>
    rw [split] at ih
    cases ih

/-- A text has one list of segments, the one that it is split into. -/
theorem segments_iff {text : List Char} {segments : List (List Char)} :
    Segments text segments ↔ splitAtColons text = segments := by
  constructor
  · intro given
    induction given with
    | last whole => exact splitAtColons_eq_single whole
    | more first _ ih => rw [splitAtColons_append first, ih]
  · rintro rfl
    exact segments_splitAtColons text

theorem isMountable_iff {module : String} {segments : List (List Char)}
    (given : Segments module.toList segments) :
    SourceRoot.isMountable module = true ↔
      ∀ segment ∈ segments, ∃ c ∈ segment, Text.isBlank c = false := by
  rw [SourceRoot.isMountable, trimmedParts, segments_iff.mp given, List.all_map, List.all_eq_true]
  refine forall₂_congr fun segment _ => ?_
  simp [Text.trim_eq_nil_iff]

/-- A module without blank segments has a name for each of them. -/
theorem names_of_isMountable {module : String} {segments : List (List Char)}
    (given : Segments module.toList segments) (mountable : SourceRoot.isMountable module = true) :
    List.Forall₂ (fun segment name => name.toList = Text.trim segment ∧ name.toList ≠ [] ∧
      Text.trim name.toList = name.toList) segments (ofText module) := by
  have kept : (trimmedParts module).filter (fun part => !part.isEmpty) = trimmedParts module :=
    List.filter_eq_self.mpr (List.all_eq_true.mp mountable)
  rw [ofText, kept, trimmedParts, segments_iff.mp given, List.map_map, List.forall₂_map_right_iff,
    List.forall₂_same]
  intro segment member
  have filled : Text.trim segment ≠ [] := by
    obtain ⟨c, inside, solid⟩ := (isMountable_iff given).mp mountable segment member
    intro blank
    rw [Text.trim_eq_nil_iff.mp blank c inside] at solid
    cases solid
  simp [filled, Text.trim_trim]

end ModulePath

namespace SourceRoot

theorem cut_append {before : List Char} (noSign : '=' ∉ before) (after : List Char) :
    cut (before ++ '=' :: after) = (before, some after) := by
  induction before with
  | nil => rfl
  | cons c before ih =>
    rw [List.mem_cons, not_or] at noSign
    rw [List.cons_append, cut, ih noSign.2]
    simp [Ne.symm noSign.1]

theorem cut_of_not_mem {text : List Char} (noSign : '=' ∉ text) : cut text = (text, none) := by
  induction text with
  | nil => rfl
  | cons c text ih =>
    rw [List.mem_cons, not_or] at noSign
    rw [cut, ih noSign.2]
    simp [Ne.symm noSign.1]

/-- What is cut apart is the whole text, and its first part has no sign. -/
theorem append_cut (text : List Char) :
    '=' ∉ (cut text).1 ∧ text = (cut text).1 ++ ((cut text).2.map ('=' :: ·)).getD [] := by
  induction text with
  | nil => exact ⟨List.not_mem_nil, rfl⟩
  | cons c text ih =>
    rw [cut]
    split
    · rename_i sign
      obtain rfl : c = '=' := beq_iff_eq.mp sign
      exact ⟨List.not_mem_nil, rfl⟩
    · rename_i other
      refine ⟨?_, congrArg (c :: ·) ih.2⟩
      rw [List.mem_cons, not_or]
      exact ⟨fun same => other (beq_iff_eq.mpr same.symm), ih.1⟩

theorem cut_eq_some_iff {text path module : List Char} :
    cut text = (path, some module) ↔ '=' ∉ path ∧ text = path ++ '=' :: module := by
  constructor
  · intro same
    have split := append_cut text
    rwa [same] at split
  · rintro ⟨noSign, rfl⟩
    exact cut_append noSign module

theorem cut_eq_none_iff {text path : List Char} :
    cut text = (path, none) ↔ '=' ∉ path ∧ text = path := by
  constructor
  · intro same
    have split := append_cut text
    rw [same] at split
    exact ⟨split.1, split.2.trans (List.append_nil path)⟩
  · rintro ⟨noSign, rfl⟩
    exact cut_of_not_mem noSign

theorem ofText_eq_ok_iff_cut {text : String} {root : SourceRoot} :
    ofText text = .ok root ↔ root.path ≠ "" ∧ isMountable root.module = true ∧
      (cut text.toList = (root.path.toList, some root.module.toList) ∨
        (cut text.toList = (root.path.toList, none) ∧ root.module = "crate")) := by
  have checked (path : List Char) (module : String) :
      (if path.isEmpty then .error (.emptyPath text)
        else if !isMountable module then .error (.invalidModule text)
        else .ok ⟨String.ofList path, module⟩ : Except Refusal SourceRoot) = .ok root ↔
      root.path ≠ "" ∧ isMountable root.module = true ∧ path = root.path.toList ∧
        module = root.module := by
    split
    · rename_i empty
      refine iff_of_false nofun fun ⟨filled, _, same, _⟩ => filled ?_
      exact String.toList_eq_nil_iff.mp (same ▸ List.isEmpty_iff.mp empty)
    rename_i filled
    split
    · rename_i blank
      refine iff_of_false nofun fun ⟨_, mountable, _, same⟩ => ?_
      rw [same, mountable] at blank
      cases blank
    · rename_i mountable
      constructor
      · rintro ⟨⟩
        refine ⟨fun empty => filled ?_, by simpa using mountable, String.toList_ofList.symm, rfl⟩
        have none := congrArg String.toList empty
        rw [String.toList_ofList] at none
        exact List.isEmpty_iff.mpr none
      · rintro ⟨-, -, rfl, rfl⟩
        rw [String.ofList_toList]
  rw [ofText]
  rcases cut text.toList with ⟨path, module?⟩
  rw [checked]
  cases module? with
  | none =>
    have standard : "crate" = root.module ↔ root.module = "crate" := eq_comm
    simp [standard]
  | some module =>
    have spelled : String.ofList module = root.module ↔ module = root.module.toList := by
      rw [← String.toList_inj, String.toList_ofList]
    simp [spelled]

/-- A text is read as a root exactly when it is the text of the root, or its path alone where the
root is mounted at the crate. -/
theorem ofText_eq_ok_iff {text : String} {root : SourceRoot} :
    ofText text = .ok root ↔
      root.path ≠ "" ∧ '=' ∉ root.path.toList ∧ isMountable root.module = true ∧
        (text = root.render ∨ (text = root.path ∧ root.module = "crate")) := by
  have spelled : text = root.render ↔
      text.toList = root.path.toList ++ '=' :: root.module.toList := by
    rw [← String.toList_inj, render, String.toList_append, String.toList_append, List.append_assoc]
    rfl
  rw [ofText_eq_ok_iff_cut, cut_eq_some_iff, cut_eq_none_iff, spelled, String.toList_inj]
  tauto

/-- A root that differs from the one that its text is read as has another module. -/
theorem eq_of_ofText_render {root other : SourceRoot} (read : ofText root.render = .ok other)
    (same : other.module = root.module) : other = root := by
  obtain ⟨-, noSign, -, split⟩ := ofText_eq_ok_iff.mp read
  rcases split with split | ⟨split, -⟩
  · rw [render, render, same] at split
    have paths : root.path = other.path := by
      rw [String.append_assoc, String.append_assoc] at split
      exact (String.append_left_inj _).mp split
    obtain ⟨path, module⟩ := root
    obtain ⟨path', module'⟩ := other
    cases paths
    cases same
    rfl
  · rw [← split, render] at noSign
    simp at noSign

end SourceRoot

/-- The configuration of a command. -/
def Command.config : Command → Config
  | generate config => config
  | check config => config
  | plan config => config

namespace CommandLine

/-- Every root that has been given is read from a text. -/
def Given.IsRead (g : Given) : Prop :=
  ∀ root ∈ g.roots, ∃ text, SourceRoot.ofText text = .ok root

namespace Given

variable {g g' : Given}

theorem IsRead.set {value : String} {choice : Choice} (read : g.IsRead)
    (made : g.set value choice = .ok g') : g'.IsRead := by
  cases choice with
  | root =>
    cases given : SourceRoot.ofText value with
    | error refusal => simp [Given.set, given] at made
    | ok root =>
      obtain rfl : { g with roots := g.roots ++ [root] } = g' := by
        simpa [Given.set, given] using made
      intro other member
      rcases List.mem_append.mp member with member | member
      · exact read other member
      · rw [List.mem_singleton.mp member]
        exact ⟨value, given⟩
  -- no other option changes the roots
  | mark | constructor | indexFile =>
    rw [Given.set] at made
    split at made
    · cases made
    · cases made
      exact read
  | outDir =>
    rw [Given.set] at made
    split at made
    · cases made
    split at made
    · cases made
    · cases made
      exact read

theorem IsRead.settle {pending : Pending} (read : g.IsRead)
    (made : g.settle pending = .ok g') : g'.IsRead := by
  cases pending with
  | nothing =>
    cases made
    exact read
  | awaiting choice => cases made
  | valued choice value => exact read.set made

end Given

theorem bind_eq_ok_iff {ε α β : Type} {x : Except ε α} {f : α → Except ε β} {b : β} :
    (x >>= f) = .ok b ↔ ∃ a, x = .ok a ∧ f a = .ok b := by
  cases x with
  | error failure => exact iff_of_false nofun fun ⟨_, same, _⟩ => nomatch same
  | ok a => exact ⟨fun same => ⟨a, rfl, same⟩, fun ⟨_, same, later⟩ => by cases same; exact later⟩

theorem commonOption_ne_ok {α : Type} {name : String} {value : Option String} {a : α} :
    commonOption name value ≠ .ok a := by
  unfold commonOption
  split
  · split <;> nofun
  · nofun

theorem shortOption_ne_ok {α : Type} {letters : List Char} {a : α} :
    shortOption letters ≠ .ok a := by
  unfold shortOption
  split <;> nofun

theorem isRead_readOptions {verb : Verb} {g g' : Given} {pending : Pending} {args : List String}
    (read : g.IsRead) (made : readOptions verb g pending args = .ok g') : g'.IsRead := by
  induction args generalizing g pending with
  | nil => exact read.settle made
  | cons argument rest ih =>
    rw [readOptions.eq_def] at made
    dsimp only at made
    split at made
    · obtain ⟨_, -, thrown⟩ := bind_eq_ok_iff.mp made
      cases thrown
    split at made
    · split at made
      · exact read.settle made
      · cases made
    · split at made
      · obtain ⟨settled, first, more⟩ := bind_eq_ok_iff.mp made
        obtain ⟨set, second, later⟩ := bind_eq_ok_iff.mp more
        exact ih ((read.settle first).set second) later
      · obtain ⟨settled, first, later⟩ := bind_eq_ok_iff.mp made
        exact ih (read.settle first) later
      · exact absurd made commonOption_ne_ok
    · exact absurd made shortOption_ne_ok
    · split at made
      · exact ih read made
      · cases made

theorem roots_command {g : Given} {verb : Verb} {command : Command}
    (made : g.command verb = .ok command) : command.config.roots = g.roots := by
  unfold Given.command at made
  dsimp only at made
  split at made
  · cases made
  cases verb with
  | check | plan =>
    cases made
    rfl
  | generate =>
    dsimp only at made
    split at made
    · cases made
    · cases made
      rfl

/-- Every root of a command is read from a text. -/
theorem exists_ofText_of_parse {args : List String} {command : Command}
    (parsed : parse args = .ok command) :
    ∀ root ∈ command.config.roots, ∃ text, SourceRoot.ofText text = .ok root := by
  unfold parse at parsed
  split at parsed
  · cases parsed
  split at parsed
  · obtain ⟨g, options, made⟩ := bind_eq_ok_iff.mp parsed
    rw [roots_command made]
    exact isRead_readOptions (fun _ member => absurd member List.not_mem_nil) options
  split at parsed
  · cases parsed
  split at parsed
  · exact absurd parsed commonOption_ne_ok
  · exact absurd parsed shortOption_ne_ok
  · cases parsed
  · split at parsed
    · cases parsed
    · split at parsed <;> cases parsed

end CommandLine

namespace SourceRoot

/-- Whether two roots have paths of the same components and one module. -/
def Same (a b : SourceRoot) : Prop :=
  Path.same a.path b.path = true ∧ a.module = b.module

/-- The texts of roots and what is read from them. The path of a root is not looked into, and the
segments of its module are those between pairs of colons, each with a name of its own. -/
theorem ofText_render :
    (∀ (r : SourceRoot) segments, ModulePath.Segments r.module.toList segments →
      (ofText r.render = .ok r ↔ r.path ≠ "" ∧ '=' ∉ r.path.toList ∧
        ∀ segment ∈ segments, ∃ c ∈ segment, Text.isBlank c = false) ∧
      ((∃ read, ofText r.render = .ok read ∧ Same read r) ↔ ofText r.render = .ok r)) ∧
    (∀ text r segments, ofText text = .ok r → ModulePath.Segments r.module.toList segments →
      ofText r.render = .ok r ∧
      List.Forall₂ (fun segment name => name.toList = Text.trim segment ∧ name.toList ≠ [] ∧
        Text.trim name.toList = name.toList) segments (ModulePath.ofText r.module)) ∧
    ∀ args command, CommandLine.parse args = .ok command →
      ∀ root ∈ command.config.roots, ModulePath.ofText root.module ≠ [] := by
  have named {text : String} {r : SourceRoot} {segments : List (List Char)}
      (read : ofText text = .ok r) (given : ModulePath.Segments r.module.toList segments) :=
    ModulePath.names_of_isMountable given (ofText_eq_ok_iff.mp read).2.2.1
  refine ⟨fun r segments given => ⟨?_, ?_⟩, fun text r segments read given => ⟨?_, ?_⟩, ?_⟩
  · rw [ofText_eq_ok_iff, ModulePath.isMountable_iff given]
    exact ⟨fun ⟨filled, noSign, solid, _⟩ => ⟨filled, noSign, solid⟩,
      fun ⟨filled, noSign, solid⟩ => ⟨filled, noSign, solid, .inl rfl⟩⟩
  · constructor
    · rintro ⟨other, read, -, same⟩
      rwa [eq_of_ofText_render read same] at read
    · exact fun read => ⟨r, read, beq_self_eq_true _, rfl⟩
  · obtain ⟨filled, noSign, mountable, -⟩ := ofText_eq_ok_iff.mp read
    exact ofText_eq_ok_iff.mpr ⟨filled, noSign, mountable, .inl rfl⟩
  · exact named read given
  · intro args command parsed root member none
    obtain ⟨text, read⟩ := CommandLine.exists_ofText_of_parse parsed root member
    have split := ModulePath.segments_splitAtColons root.module.toList
    have names := named read split
    rw [none, List.forall₂_nil_right_iff] at names
    rw [names] at split
    generalize root.module.toList = chars at split
    cases split

/-- A root on a command line, with blanks, a sign and three colons in its module. -/
theorem ofText_render_colons :
    ∃ (r : SourceRoot) (segments : List (List Char)) (command : Command),
      ModulePath.Segments r.module.toList segments ∧ segments.length = 3 ∧
      ofText "src=crate:: \u3000a = b:::c" = .ok r ∧ ofText r.render = .ok r ∧
      (∀ segment ∈ segments, ∃ c ∈ segment, Text.isBlank c = false) ∧
      List.Forall₂ (fun segment name => name.toList = Text.trim segment ∧ name.toList ≠ [] ∧
        Text.trim name.toList = name.toList) segments (ModulePath.ofText r.module) ∧
      CommandLine.parse ["plan", "--root", "src=crate:: \u3000a = b:::c"] = .ok command ∧
      r ∈ command.config.roots ∧ ModulePath.ofText r.module ≠ [] := by
  let r : SourceRoot := ⟨"src", "crate:: \u3000a = b:::c"⟩
  have split := ModulePath.segments_splitAtColons r.module.toList
  have read : ofText "src=crate:: \u3000a = b:::c" = .ok r := by decide +kernel
  have parsed : CommandLine.parse ["plan", "--root", "src=crate:: \u3000a = b:::c"] =
      .ok (.plan { roots := [r] }) := by decide +kernel
  obtain ⟨printed, names⟩ := ofText_render.2.1 _ r _ read split
  exact ⟨r, _, _, split, by decide +kernel, read, printed,
    ((ofText_render.1 r _ split).1.mp printed).2.2, names, parsed, List.mem_singleton_self r,
    ofText_render.2.2 _ _ parsed r (List.mem_singleton_self r)⟩

end SourceRoot

end Forwarding
