import Forwarding.Proofs.Location
import Forwarding.Proofs.Reaching
import Forwarding.Proofs.Sorting
import Mathlib.Data.List.Sort
/-!
Coverage. A discovery succeeds exactly when its roots exist and whatever they reach is text. Its
units are then one for each reached path, in the strict order of paths, with the module that the
first root to reach the path gives; roots that reach no common path may change places.
-/

namespace Forwarding

namespace Discovery

variable {files : FileTree} {root : SourceRoot} {path : String}

/-- Whether a root is the first of some roots to reach a path. -/
def IsFirst (files : FileTree) (path : String) (roots : List SourceRoot) (root : SourceRoot) :
    Prop :=
  ∃ before after, roots = before ++ root :: after ∧ Reached files path root ∧
    ∀ earlier ∈ before, ¬ Reached files path earlier

/-- The same roots in another order, where only roots that reach no common path have passed each
other. -/
inductive Rearranged (files : FileTree) : List SourceRoot → List SourceRoot → Prop
  | nil : Rearranged files [] []
  | cons (root : SourceRoot) {rest rest' : List SourceRoot} (others : Rearranged files rest rest') :
      Rearranged files (root :: rest) (root :: rest')
  | swap {a b : SourceRoot} (rest : List SourceRoot)
      (apart : ∀ path, ¬ (Reached files path a ∧ Reached files path b)) :
      Rearranged files (a :: b :: rest) (b :: a :: rest)
  | trans {roots between roots' : List SourceRoot} (first : Rearranged files roots between)
      (second : Rearranged files between roots') : Rearranged files roots roots'

section Order

variable {roots roots' rest : List SourceRoot} {a b : SourceRoot}

theorem isFirst_cons_iff : IsFirst files path (a :: rest) root ↔
    (Reached files path a ∧ root = a) ∨ (¬ Reached files path a ∧ IsFirst files path rest root) := by
  constructor
  · rintro ⟨before, after, all, reached, none⟩
    cases before with
    | nil =>
      obtain ⟨rfl, rfl⟩ := List.cons.inj all
      exact .inl ⟨reached, rfl⟩
    | cons first before =>
      obtain ⟨rfl, rfl⟩ := List.cons.inj all
      exact .inr ⟨none a List.mem_cons_self, before, after, rfl, reached,
        fun earlier member => none earlier (List.mem_cons_of_mem _ member)⟩
  · rintro (⟨reached, rfl⟩ | ⟨unreached, before, after, rfl, reached, none⟩)
    · exact ⟨[], rest, rfl, reached, nofun⟩
    · refine ⟨a :: before, after, rfl, reached, fun earlier member => ?_⟩
      rcases List.mem_cons.mp member with rfl | member
      · exact unreached
      · exact none earlier member

theorem IsFirst.unique (first : IsFirst files path roots a) (first' : IsFirst files path roots b) :
    a = b := by
  induction roots with
  | nil =>
    obtain ⟨before, after, all, -⟩ := first
    simp at all
  | cons root rest ih =>
    rcases isFirst_cons_iff.mp first with ⟨reached, rfl⟩ | ⟨unreached, later⟩ <;>
    rcases isFirst_cons_iff.mp first' with ⟨reached', rfl⟩ | ⟨unreached', later'⟩
    · rfl
    · exact absurd reached unreached'
    · exact absurd reached' unreached
    · exact ih later later'

theorem IsFirst.samePath {other : String} (first : IsFirst files path roots root)
    (one : SamePath path other) : IsFirst files other roots root := by
  obtain ⟨before, after, all, reached, none⟩ := first
  exact ⟨before, after, all, one.reached_iff.mp reached,
    fun earlier member reached => none earlier member (one.reached_iff.mpr reached)⟩

theorem Rearranged.symm (rearranged : Rearranged files roots roots') :
    Rearranged files roots' roots := by
  induction rearranged with
  | nil => exact .nil
  | cons root _ ih => exact .cons root ih
  | swap rest apart => exact .swap rest fun path both => apart path both.symm
  | trans _ _ ih ih' => exact .trans ih' ih

theorem Rearranged.perm (rearranged : Rearranged files roots roots') : roots.Perm roots' := by
  induction rearranged with
  | nil => exact .nil
  | cons root _ ih => exact ih.cons root
  | swap rest _ => exact .swap _ _ rest
  | trans _ _ ih ih' => exact ih.trans ih'

/-- Roots of which no two reach a common path may stand in any order. -/
theorem Rearranged.of_perm (perm : roots.Perm roots')
    (apart : roots.Pairwise fun a b => ∀ path, ¬ (Reached files path a ∧ Reached files path b)) :
    Rearranged files roots roots' := by
  induction perm with
  | nil => exact .nil
  | cons root _ ih => exact .cons root (ih (List.pairwise_cons.mp apart).2)
  | swap b a rest =>
    exact .swap rest ((List.pairwise_cons.mp apart).1 _ List.mem_cons_self)
  | trans first _ ih ih' =>
    refine .trans (ih apart) (ih' ((first.pairwise_iff ?_).mp apart))
    exact fun apart path both => apart path both.symm

theorem Rearranged.isFirst (rearranged : Rearranged files roots roots')
    (first : IsFirst files path roots root) : IsFirst files path roots' root := by
  induction rearranged with
  | nil => exact first
  | cons other _ ih =>
    rw [isFirst_cons_iff] at first ⊢
    exact first.imp_right fun ⟨unreached, later⟩ => ⟨unreached, ih later⟩
  | @swap a b rest apart =>
    have notBoth := apart path
    simp only [isFirst_cons_iff] at first ⊢
    -- at most one of the two reaches the path, and it is the first of them in both orders
    rcases first with ⟨reached, rfl⟩ | ⟨unreached, ⟨reached, rfl⟩ | ⟨unreached', later⟩⟩
    · exact .inr ⟨fun reached' => notBoth ⟨reached, reached'⟩, .inl ⟨reached, rfl⟩⟩
    · exact .inl ⟨reached, rfl⟩
    · exact .inr ⟨unreached', .inr ⟨unreached, later⟩⟩
  | trans _ _ ih ih' => exact ih' (ih first)

end Order

theorem byPath_ranking : IsRanking byPath where
  total a b := by
    have swap : Path.compare a.path b.path = (Path.compare b.path a.path).swap :=
      Std.OrientedCmp.eq_swap
    unfold byPath
    rw [swap]
    cases Path.compare b.path a.path <;> simp
  trans _ _ _ first second := Std.TransCmp.isLE_trans first second

theorem compare_eq_lt_of_byPath {a b : SourceUnit} (ordered : byPath a b = true)
    (apart : ¬ SamePath a.path b.path) : Path.compare a.path b.path = .lt := by
  unfold byPath at ordered
  cases compared : Path.compare a.path b.path with
  | lt => rfl
  | eq =>
    have tie : Path.compareComponents (Path.components a.path) (Path.components b.path) = .eq :=
      compared
    exact absurd (Std.LawfulEqCmp.eq_of_compare tie) apart
  | gt =>
    rw [compared] at ordered
    cases ordered

/-- Units are those that some roots reach: one for each path, in the strict order of paths, with the
text of the file and the module that the first root to reach the path gives. -/
structure Covers (files : FileTree) (roots : List SourceRoot) (units : List SourceUnit) : Prop where
  increasing : units.Pairwise fun a b => Path.compare a.path b.path = .lt
  paths : ∀ path, (∃ unit ∈ units, SamePath unit.path path) ↔
    ∃ root ∈ roots, Reached files path root
  first : ∀ unit ∈ units, ∃ root, IsFirst files unit.path roots root ∧
    Reaches files root unit.path unit.modulePath unit.text.toUTF8

section Units

variable {roots roots' : List SourceRoot} {units units' : List SourceUnit} {unit : SourceUnit}

theorem ReadOnce.exists_isFirst (proper : files.IsProper)
    (once : ReadOnce files SamePath roots units) (member : unit ∈ units) :
    ∃ root, IsFirst files unit.path roots root ∧
      ⟨unit.path, unit.modulePath⟩ ∈ mountings files root := by
  obtain ⟨before, root, after, all, mounted, none⟩ := once.first unit member
  refine ⟨root, ⟨before, after, all, (reached_iff proper).mpr ⟨_, mounted, rfl⟩, ?_⟩, mounted⟩
  intro earlier inside reached
  obtain ⟨file, mounted', one⟩ := (reached_iff proper).mp reached
  exact none earlier inside file mounted' one

theorem IsRead.reaches (proper : files.IsProper) (read : IsRead files unit)
    (mounted : ⟨unit.path, unit.modulePath⟩ ∈ mountings files root) :
    Reaches files root unit.path unit.modulePath unit.text.toUTF8 := by
  obtain ⟨bytes, held, decoded⟩ := read
  rw [fromUTF8?_eq_some_iff] at decoded
  exact (reaches_iff proper).mpr ⟨_, mounted, rfl, rfl, decoded ▸ held⟩

theorem ReadOnce.covers (proper : files.IsProper) (once : ReadOnce files SamePath roots units)
    (sorted : units.Pairwise fun a b => byPath a b = true) : Covers files roots units where
  increasing := sorted.imp₂ (fun _ _ => compare_eq_lt_of_byPath) once.apart
  paths path := by
    constructor
    · rintro ⟨unit, member, one⟩
      obtain ⟨root, ⟨before, after, rfl, reached, -⟩, -⟩ := once.exists_isFirst proper member
      exact ⟨root, by simp, one.reached_iff.mp reached⟩
    · rintro ⟨root, inside, reached⟩
      obtain ⟨file, mounted, one⟩ := (reached_iff proper).mp reached
      obtain ⟨unit, member, one'⟩ := once.complete root inside file mounted
      exact ⟨unit, member, one'.trans one⟩
  first unit member := by
    obtain ⟨root, first, mounted⟩ := once.exists_isFirst proper member
    exact ⟨root, first, (once.read unit member).reaches proper mounted⟩

/-- A file is among the units when it is what the first root to reach its path lists. -/
theorem ReadOnce.mem_of_isFirst (proper : files.IsProper)
    (once : ReadOnce files SamePath roots units) (first : IsFirst files unit.path roots root)
    (mounted : ⟨unit.path, unit.modulePath⟩ ∈ mountings files root) (read : IsRead files unit) :
    unit ∈ units := by
  obtain ⟨before, after, all, -⟩ := id first
  obtain ⟨other, member, one⟩ := once.complete root (by simp [all]) _ mounted
  obtain ⟨root', first', mounted'⟩ := once.exists_isFirst proper member
  obtain rfl := (first'.samePath one).unique first
  have same := eq_of_samePath proper mounted' mounted one
  rw [Mounted.mk.injEq] at same
  obtain ⟨bytes, held, decoded⟩ := read
  obtain ⟨bytes', held', decoded'⟩ := once.read other member
  rw [same.1, held, Except.ok.injEq] at held'
  rw [← held', decoded, Option.some.injEq] at decoded'
  have equal : other = unit := by
    cases other
    cases unit
    simp_all
  exact equal ▸ member

theorem ReadOnce.subset_of_rearranged (proper : files.IsProper)
    (once : ReadOnce files SamePath roots units) (once' : ReadOnce files SamePath roots' units')
    (rearranged : Rearranged files roots roots') : units ⊆ units' := by
  intro unit member
  obtain ⟨root, first, mounted⟩ := once.exists_isFirst proper member
  exact once'.mem_of_isFirst proper (rearranged.isFirst first) mounted (once.read unit member)

theorem Covers.eq_of_subset (covers : Covers files roots units)
    (covers' : Covers files roots' units') (left : units ⊆ units') (right : units' ⊆ units) :
    units = units' := by
  have : Std.Irrefl fun a b : SourceUnit => Path.compare a.path b.path = .lt := by
    refine ⟨fun a before => ?_⟩
    have self : Path.compare a.path a.path = .eq := Std.ReflCmp.compare_self
    rw [self] at before
    cases before
  have : Std.Antisymm fun a b : SourceUnit => Path.compare a.path b.path = .lt := by
    refine ⟨fun a b before after => ?_⟩
    have swap : Path.compare a.path b.path = (Path.compare b.path a.path).swap :=
      Std.OrientedCmp.eq_swap
    rw [swap, after] at before
    cases before
  exact List.Subset.antisymm_of_pairwise covers.increasing covers'.increasing left right

end Units

section Discoveries

variable {w w' : Workspace} {roots roots' : List SourceRoot} {units : List SourceUnit}

/-- A discovery succeeds exactly when the roots exist and whatever they reach is text. -/
theorem exists_run_discover_iff (proper : w.files.IsProper) :
    (∃ units w', (discover roots : Pass (StateM Workspace) _).run.run w = (.ok units, w')) ↔
      (∀ root ∈ roots, ∃ entry, w.files.find root.path = .ok entry) ∧
        ∀ root ∈ roots, ∀ path module bytes, Reaches w.files root path module bytes →
          ∃ text : String, text.toUTF8 = bytes := by
  constructor
  · rintro ⟨units, w', runs⟩
    have once := run_discover runs
    unfold discover at runs
    obtain ⟨all, between, reads, -⟩ := run_bind_inv runs
    refine ⟨exist_of_run_readRoots reads, fun root inside path module bytes reaches => ?_⟩
    -- the unit of the path has been read, from the place that any text of the path leads to
    obtain ⟨file, mounted, one, rfl, held⟩ := (reaches_iff proper).mp reaches
    obtain ⟨unit, member, one'⟩ := once.complete root inside file mounted
    obtain ⟨bytes', held', decoded⟩ := once.read unit member
    obtain ⟨place, leads, found⟩ := FileTree.exists_locate_of_read held
    obtain ⟨place', leads', found'⟩ := FileTree.exists_locate_of_read held'
    have same := samePlace_of_samePath leads' leads one'
    rw [SamePlace, leads, leads', Except.ok.injEq] at same
    rw [same, found, Option.some.injEq] at found'
    exact ⟨unit.text, found' ▸ fromUTF8?_eq_some_iff.mp decoded⟩
  · rintro ⟨exist, texts⟩
    have listed : ∀ root ∈ roots, ∀ file ∈ mountings w.files root,
        ∃ text : String, w.files.read file.path = .ok text.toUTF8 := by
      intro root inside file mounted
      obtain ⟨bytes, held⟩ := exists_read_of_mounted proper mounted
      obtain ⟨text, rfl⟩ := texts root inside _ _ _
        ((reaches_iff proper).mpr ⟨file, mounted, rfl, rfl, held⟩)
      exact ⟨text, held⟩
    obtain ⟨units, w', runs⟩ := exists_run_readRoots exist listed []
    exact ⟨sortBy byPath units, w', by unfold discover; rw [run_bind_ok runs]; rfl⟩

theorem run_discover_sorted
    (runs : (discover roots : Pass (StateM Workspace) _).run.run w = (.ok units, w')) :
    units.Pairwise fun a b => byPath a b = true := by
  unfold discover at runs
  obtain ⟨all, between, -, sorted⟩ := run_bind_inv runs
  cases sorted
  exact sortBy_pairwise byPath_ranking all

/-- Two roots of the tree that reach no common path. -/
def separate : List SourceRoot :=
  [⟨"src/flavor", "crate::flavor"⟩, ⟨"src/lib.rs", "crate"⟩]

end Discoveries

end Discovery

end Forwarding
