import Forwarding.Proofs.ArtifactNames
import Forwarding.Proofs.Winners
/-!
What an artifact depends on. When definitions are left out and every name that still occurs keeps its
winner, the remaining definitions resolve to the remaining parts of their chains. The artifact of a
name then differs in the entries of its documentation alone, one for each definition of the chain.
-/

namespace Forwarding

namespace Resolution

/-- A resolution without the definitions that are not among some others. -/
def within (kept : List Definition) (r : Resolution) : Resolution :=
  { r with others := r.others.filter (· ∈ kept) }

theorem chain_within {kept : List Definition} {r : Resolution} (stays : r.winner ∈ kept) :
    (r.within kept).chain = r.chain.filter (· ∈ kept) := by
  simp [chain, within, stays]

theorem Fits.within {r : Resolution} (fits : r.Fits) (kept : List Definition) :
    (r.within kept).Fits :=
  fun member inside => fits member (List.mem_filter.mp inside).1

end Resolution

namespace Group

theorem Distinct.nodup {g : Group} (distinct : g.Distinct) : g.members.Nodup :=
  List.Pairwise.imp (fun apart same => apart (congrArg Definition.priority same)) distinct

/-- The groups of some of the definitions are those of the names that still occur. -/
theorem names_partition_of_sublist {kept definitions : List Definition}
    (part : kept.Sublist definitions) :
    (partition kept).map Group.name =
      ((partition definitions).map Group.name).filter (· ∈ kept.map Definition.name) := by
  have increasing : ∀ definitions, ((partition definitions).map Group.name).Pairwise (· < ·) :=
    fun definitions => List.pairwise_map.mpr (partition_ordered definitions)
  have nodup : ∀ definitions, ((partition definitions).map Group.name).Nodup :=
    fun definitions => (increasing definitions).imp ne_of_lt
  have perm : ((partition kept).map Group.name).Perm
      (((partition definitions).map Group.name).filter (· ∈ kept.map Definition.name)) := by
    rw [List.perm_ext_iff_of_nodup (nodup kept) ((nodup definitions).filter _)]
    intro name
    rw [List.mem_filter, mem_names_partition, mem_names_partition, decide_eq_true_iff,
      List.mem_map]
    constructor
    · rintro ⟨d, member, same⟩
      exact ⟨⟨d, part.subset member, same⟩, d, member, same⟩
    · exact fun occurs => occurs.2
  exact perm.eq_of_pairwise (fun a b _ _ below above => absurd above below.asymm)
    (increasing kept) ((increasing definitions).filter _)

/-- A group of some of the definitions has those of the whole group that are kept. -/
theorem members_of_sublist {kept definitions : List Definition} (part : kept.Sublist definitions)
    {g h : Group} (whole : g ∈ partition definitions) (rest : h ∈ partition kept)
    (same : h.name = g.name) : h.members.Sublist g.members := by
  rw [members_eq_filter whole, members_eq_filter rest, same]
  exact part.filter _

end Group

namespace Resolution

/-- The chain of some of the definitions is what is left of the whole chain. -/
theorem chain_rank_of_sublist {kept definitions : List Definition}
    (part : kept.Sublist definitions) {g h : Group} (whole : g ∈ Group.partition definitions)
    (rest : h ∈ Group.partition kept) (same : h.name = g.name) (distinct : g.Distinct) :
    (rank h).chain = (rank g).chain.filter (· ∈ kept) := by
  have members := Group.members_of_sublist part whole rest same
  have own : h.Distinct := List.Pairwise.sublist members distinct
  have perm : (rank h).chain.Perm ((rank g).chain.filter (· ∈ kept)) := by
    rw [List.perm_ext_iff_of_nodup ((chain_rank_perm h).nodup_iff.mpr own.nodup)
      (((chain_rank_perm g).nodup_iff.mpr distinct.nodup).filter _)]
    intro d
    rw [(chain_rank_perm h).mem_iff, List.mem_filter, (chain_rank_perm g).mem_iff,
      decide_eq_true_iff, Group.mem_members_iff rest, Group.mem_members_iff whole, same]
    constructor
    · rintro ⟨inside, named⟩
      exact ⟨⟨part.subset inside, named⟩, inside⟩
    · rintro ⟨⟨-, named⟩, inside⟩
      exact ⟨inside, named⟩
  refine perm.eq_of_pairwise (fun a b _ _ above below => ?_) (chain_rank_descends own)
    ((chain_rank_descends distinct).filter _)
  exact absurd above (Int64.lt_asymm below)

theorem rank_of_sublist {kept definitions : List Definition} (part : kept.Sublist definitions)
    {g h : Group} (whole : g ∈ Group.partition definitions) (rest : h ∈ Group.partition kept)
    (same : h.name = g.name) (distinct : g.Distinct) (stays : (rank g).winner ∈ kept) :
    rank h = (rank g).within kept := by
  have chains := chain_rank_of_sublist part whole rest same distinct
  rw [← chain_within stays] at chains
  obtain ⟨winners, others⟩ := List.cons.inj chains
  have names : (rank h).name = ((rank g).within kept).name := same
  generalize rank h = r at winners others names
  generalize (rank g).within kept = s at winners others names
  cases r
  cases s
  simp_all

end Resolution

/-- Lists with the same keys have the same values if elements with the same key do. -/
theorem map_eq_map_of_keys {α β κ γ : Type} {p : α → κ} {q : β → κ} {f : α → γ} {g : β → γ}
    {l : List α} {m : List β} (keys : l.map p = m.map q)
    (each : ∀ a ∈ l, ∀ b ∈ m, p a = q b → f a = g b) : l.map f = m.map g := by
  induction l generalizing m with
  | nil =>
    rw [List.map_nil, eq_comm, List.map_eq_nil_iff] at keys
    rw [keys]
    rfl
  | cons a l ih =>
    obtain ⟨b, m, rfl, first, others⟩ := List.map_eq_cons_iff.mp keys.symm
    rw [List.map_cons, List.map_cons, each a (by simp) b (by simp) first.symm,
      ih others.symm fun c inside d member =>
        each c (List.mem_cons_of_mem a inside) d (List.mem_cons_of_mem b member)]

namespace Plan

/-- What is left of some resolutions: those whose names still occur, with the definitions that are
kept. -/
def remaining (kept : List Definition) (resolutions : List Resolution) : List Resolution :=
  (resolutions.filter (·.name ∈ kept.map Definition.name)).map (Resolution.within kept)

/-- Some of the definitions resolve to what is left of the chains if every name keeps its winner. -/
theorem resolve_of_sublist {kept definitions : List Definition} {resolutions : List Resolution}
    (resolved : resolve definitions = .ok resolutions) (part : kept.Sublist definitions)
    (winners : ∀ r ∈ resolutions, r.name ∈ kept.map Definition.name → r.winner ∈ kept) :
    resolve kept = .ok (remaining kept resolutions) := by
  obtain ⟨rfl, distinct, fits⟩ := (resolve_eq_ok_iff definitions resolutions).mp resolved
  have names := Group.names_partition_of_sublist part
  have counterpart : ∀ h ∈ Group.partition kept, ∃ g ∈ Group.partition definitions,
      h.name = g.name := by
    intro h rest
    have named := List.mem_map_of_mem (f := Group.name) rest
    rw [names] at named
    obtain ⟨g, whole, same⟩ := List.mem_map.mp (List.mem_filter.mp named).1
    exact ⟨g, whole, same.symm⟩
  have ranked : ∀ h ∈ Group.partition kept, ∀ g ∈ Group.partition definitions,
      h.name = g.name → Resolution.rank h = (Resolution.rank g).within kept := by
    intro h rest g whole same
    have occurs : g.name ∈ kept.map Definition.name := by
      rw [← same, List.mem_map]
      exact (Group.mem_names_partition kept h.name).mp (List.mem_map_of_mem rest)
    exact Resolution.rank_of_sublist part whole rest same (distinct g whole)
      (winners _ (List.mem_map_of_mem whole) occurs)
  rw [resolve_eq_ok_iff]
  refine ⟨?_, fun h rest => ?_, fun h rest => ?_⟩
  · rw [remaining, List.filter_map, List.map_map, eq_comm]
    refine map_eq_map_of_keys (names.trans ?_) fun h rest g whole =>
      ranked h rest g (List.mem_filter.mp whole).1
    rw [List.filter_map]
    rfl
  · obtain ⟨g, whole, same⟩ := counterpart h rest
    exact List.Pairwise.sublist (Group.members_of_sublist part whole rest same) (distinct g whole)
  · obtain ⟨g, whole, same⟩ := counterpart h rest
    rw [ranked h rest g whole same]
    exact (fits g whole).within kept

end Plan

namespace Artifact

/-- What the documentation says of a definition in a chain. -/
def entry (note : String) (d : Definition) : String :=
  " - `" ++ d.typePath ++ "` (priority " ++ toString d.priority.toInt ++ note ++ ")"

/-- The entries of a chain, one for each definition. -/
def entries (r : Resolution) : List String :=
  entry ", selected" r.winner :: r.others.map (entry "")

/-- What the documentation says before the entries. -/
def heading (name : String) : List String :=
  [" Forwarding type for the `" ++ name ++ "` variant group.", "",
    " Resolved chain, highest priority first:", ""]

theorem documentation_eq (r : Resolution) : documentation r = heading r.name ++ entries r := rfl

/-- How lines of documentation stand in a file. -/
def documentationText (lines : List String) : String :=
  String.join (lines.map fun line => (Tree.seq (ForwardingType.documented line)).render ++ " ")

open Token in
/-- Lines of documentation stand one after another before what they belong to. -/
theorem renderChars_documented (lines : List String) (more : List Token) :
    renderChars (Tree.tokensOf (lines.flatMap ForwardingType.documented) ++ punct '#' false :: more) =
      (documentationText lines).toList ++ renderChars (punct '#' false :: more) := by
  induction lines with
  | nil => rfl
  | cons line rest ih =>
    -- the next line, or what the documentation belongs to, begins with a hash sign in any case
    have begins : ∃ after, Tree.tokensOf (rest.flatMap ForwardingType.documented) ++
        punct '#' false :: more = punct '#' false :: after := by
      cases rest with
      | nil => exact ⟨more, rfl⟩
      | cons next rest =>
        rw [List.flatMap_cons, Tree.tokensOf_append, ForwardingType.tokensOf_documented]
        exact ⟨_, rfl⟩
    obtain ⟨after, begins⟩ := begins
    have text : (documentationText (line :: rest)).toList =
        renderChars (Tree.tokensOf (ForwardingType.documented line)) ++ ' ' ::
          (documentationText rest).toList := by
      simp [documentationText, Tree.render, Token.render, Tree.tokens]
    have ends : Tree.tokensOf (ForwardingType.documented line) =
        [punct '#' false, opening .bracket, ident "doc", punct '=' false,
          literal (Text.quoteLiteral line)] ++ [closing .bracket] :=
      ForwardingType.tokensOf_documented line
    rw [List.flatMap_cons, Tree.tokensOf_append, List.append_assoc, text, List.append_assoc,
      List.cons_append, ← ih, begins, ends, List.append_assoc, List.singleton_append,
      renderChars_append]
    rfl

/-- The text of a struct is that of its documentation and that of the struct without any. -/
theorem render_declaration (t : ForwardingType) (lines : List String) :
    (Tree.seq (t.declaration lines)).render =
      documentationText lines ++ (Tree.seq (t.declaration [])).render := by
  have bare : ∃ more, Tree.tokensOf (t.declaration []) = .punct '#' false :: more := ⟨_, rfl⟩
  obtain ⟨more, bare⟩ := bare
  have split : Tree.tokensOf (t.declaration lines) =
      Tree.tokensOf (lines.flatMap ForwardingType.documented) ++ .punct '#' false :: more := by
    rw [← bare, ← Tree.tokensOf_append]
    simp [ForwardingType.declaration]
  apply String.toList_inj.mp
  simp only [Tree.render, Token.render, Tree.tokens, String.toList_append, String.toList_ofList]
  rw [split, bare, renderChars_documented]

/-- The text of a file before the entries. -/
def before (name : String) : String :=
  header ++ "\n" ++ "\n" ++ documentationText (heading name)

/-- The text of a file after the entries. -/
def after (t : ForwardingType) : String :=
  (Tree.seq (t.declaration [])).render ++ "\n" ++
    String.join ([t.inherent, t.dereferencing].map fun part =>
      "\n" ++ (Tree.seq part).render ++ "\n")

/-- The text of an artifact depends on the chain in its entries alone. -/
theorem layout_eq (t : ForwardingType) (r : Resolution) :
    layout [t.declaration (documentation r), t.inherent, t.dereferencing] =
      before r.name ++ documentationText (entries r) ++ after t := by
  have lines : documentationText (documentation r) =
      documentationText (heading r.name) ++ documentationText (entries r) := by
    rw [documentation_eq, documentationText, List.map_append]
    simp [documentationText]
  rw [layout, List.map_cons, String.join_cons, render_declaration, lines, before, after]
  simp only [String.append_assoc]

/-- Artifacts of the same text but for the entries, which are those of their own chains. -/
def AlikeButEntries (r s : Resolution) (a b : Artifact) : Prop :=
  a.name = r.name ∧ b.name = s.name ∧ a.fileName = b.fileName ∧
    ∃ before after, a.contents = before ++ documentationText (entries r) ++ after ∧
      b.contents = before ++ documentationText (entries s) ++ after

/-- Any chain below the winner gives the artifact but for the entries. -/
theorem ofResolution_of_same {r s : Resolution} {a : Artifact} (made : ofResolution r = .ok a)
    (names : s.name = r.name) (winners : s.winner = r.winner) :
    ∃ b, ofResolution s = .ok b ∧ AlikeButEntries r s a b := by
  obtain ⟨t, succeeded, rfl⟩ := ofResolution_ok made
  rw [← names, ← winners] at succeeded
  have built : ofResolution s = .ok ⟨s.name, fileNameOf s.name,
      layout [t.declaration (documentation s), t.inherent, t.dereferencing]⟩ := by
    rw [ofResolution, succeeded]
    rfl
  exact ⟨_, built, rfl, rfl, congrArg fileNameOf names.symm, before r.name, after t,
    layout_eq t r, names ▸ layout_eq t s⟩

end Artifact

namespace Plan

theorem name_mem_of_mem {definitions : List Definition} {resolutions : List Resolution}
    (resolved : resolve definitions = .ok resolutions) (name : String) :
    name ∈ resolutions.map Resolution.name ↔ ∃ d ∈ definitions, d.name = name := by
  obtain ⟨rfl, -, -⟩ := (resolve_eq_ok_iff definitions resolutions).mp resolved
  rw [List.map_map]
  exact Group.mem_names_partition definitions name

/-- Definitions below a winner, and the definitions of other names, have a part in the entries of
the documentation alone. -/
theorem artifacts_of_sublist {kept definitions : List Definition} {resolutions : List Resolution}
    {artifacts : List Artifact} (resolved : resolve definitions = .ok resolutions)
    (made : Artifact.ofResolutions resolutions = .ok artifacts) (part : kept.Sublist definitions)
    (winners : ∀ r ∈ resolutions, r.name ∈ kept.map Definition.name → r.winner ∈ kept) :
    ∃ rest files, resolve kept = .ok rest ∧ Artifact.ofResolutions rest = .ok files ∧
      (files.map Artifact.name).Nodup ∧
      (∀ name, name ∈ files.map Artifact.name ↔ ∃ d ∈ kept, d.name = name) ∧
      List.Forall₂ (fun s b => ∃ r ∈ resolutions, ∃ a ∈ artifacts,
        s.name = r.name ∧ s.winner = r.winner ∧ s.chain = r.chain.filter (· ∈ kept) ∧
          Artifact.AlikeButEntries r s a b) rest files := by
  have again := resolve_of_sublist resolved part winners
  have made := (mapM_eq_ok_iff _ _ _).mp made
  -- every chain that is left gives an artifact, since the whole chain does
  have each : ∀ s ∈ remaining kept resolutions, ∃ b, Artifact.ofResolution s = .ok b ∧
      ∃ r ∈ resolutions, ∃ a ∈ artifacts, s.name = r.name ∧ s.winner = r.winner ∧
        s.chain = r.chain.filter (· ∈ kept) ∧ Artifact.AlikeButEntries r s a b := by
    intro s member
    obtain ⟨r, occurs, rfl⟩ := List.mem_map.mp member
    obtain ⟨whole, named⟩ := List.mem_filter.mp occurs
    obtain ⟨a, file, given⟩ := exists_of_mem_left made whole
    obtain ⟨b, built, alike⟩ := Artifact.ofResolution_of_same given
      (s := r.within kept) rfl rfl
    exact ⟨b, built, r, whole, a, file, rfl, rfl,
      Resolution.chain_within (winners r whole (of_decide_eq_true named)), alike⟩
  obtain ⟨files, related⟩ := exists_forall₂ each
  have built := related.imp fun s b both => both.1
  refine ⟨_, files, again, (mapM_eq_ok_iff _ _ _).mpr built, ?_, fun name => ?_,
    related.imp fun s b both => both.2⟩
  · rw [map_name_artifacts built]
    exact nodup_names again
  · rw [map_name_artifacts built]
    exact name_mem_of_mem again name

/-- A definition with a constructor that takes nothing. -/
def plain (name typePath : String) (priority : Int64) : Definition :=
  ⟨name, priority, typePath, "new", [], [], [], [], .ofFile "src/lib.rs"⟩

/-- The definition in the middle of one chain and all of another name may be left out. -/
theorem artifacts_of_sublist_ends :
    ∃ rest files,
      resolve [plain "A" "crate::c" 1, plain "A" "crate::a" 3] = .ok rest ∧
        Artifact.ofResolutions rest = .ok files ∧ files.map Artifact.name = ["A"] ∧
          rest.map Resolution.chain = [[plain "A" "crate::a" 3, plain "A" "crate::c" 1]] := by
  have resolved : resolve [plain "A" "crate::c" 1, plain "B" "crate::d" 1, plain "A" "crate::b" 2,
      plain "A" "crate::a" 3] =
      .ok [⟨"A", plain "A" "crate::a" 3, [plain "A" "crate::b" 2, plain "A" "crate::c" 1]⟩,
        ⟨"B", plain "B" "crate::d" 1, []⟩] := by decide +kernel
  obtain ⟨artifacts, made⟩ : ∃ artifacts, Artifact.ofResolutions
      [⟨"A", plain "A" "crate::a" 3, [plain "A" "crate::b" 2, plain "A" "crate::c" 1]⟩,
        ⟨"B", plain "B" "crate::d" 1, []⟩] = .ok artifacts :=
    exists_of_isOk (by decide +kernel)
  have part : [plain "A" "crate::c" 1, plain "A" "crate::a" 3].Sublist
      [plain "A" "crate::c" 1, plain "B" "crate::d" 1, plain "A" "crate::b" 2,
        plain "A" "crate::a" 3] := by decide +kernel
  obtain ⟨rest, files, again, built, -⟩ := artifacts_of_sublist resolved made part (by decide +kernel)
  have found : resolve [plain "A" "crate::c" 1, plain "A" "crate::a" 3] =
      .ok [⟨"A", plain "A" "crate::a" 3, [plain "A" "crate::c" 1]⟩] := by decide +kernel
  obtain rfl := Except.ok.inj (found.symm.trans again)
  exact ⟨_, files, again, built, map_name_artifacts ((mapM_eq_ok_iff _ _ _).mp built), rfl⟩

end Plan

end Forwarding
