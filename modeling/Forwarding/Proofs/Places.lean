import Forwarding.Files.Tree
import Mathlib.Data.List.Basic
import Mathlib.Data.List.TakeWhile
/-!
Where paths lead. A path leads to the same place in every tree that has at least the same
directories, a name below a directory leads to the place below the place of the directory, and
slashes at the end of a path do not change where it leads.
-/

namespace Forwarding

section Splitting

variable {α : Type} [BEq α] {separator : α}

theorem splitAtEach_of_not_mem [LawfulBEq α] {l : List α} (absent : separator ∉ l) :
    splitAtEach separator l = [l] := by
  induction l with
  | nil => rfl
  | cons a rest ih =>
    have different : (a == separator) = false := by
      rw [beq_eq_false_iff_ne]
      intro same
      exact absent (same ▸ List.mem_cons_self)
    rw [splitAtEach, ih fun member => absent (List.mem_cons_of_mem a member), different]
    rfl

theorem splitAtEach_ne_nil (l : List α) : splitAtEach separator l ≠ [] := by
  cases l with
  | nil => exact List.cons_ne_nil _ _
  | cons a rest =>
    rw [splitAtEach]
    split
    · exact List.cons_ne_nil _ _
    · split <;> exact List.cons_ne_nil _ _

variable [LawfulBEq α]

theorem splitAtEach_append (l r : List α) :
    splitAtEach separator (l ++ separator :: r) =
      splitAtEach separator l ++ splitAtEach separator r := by
  induction l with
  | nil => simp [splitAtEach]
  | cons a rest ih =>
    rw [List.cons_append, splitAtEach, ih]
    by_cases same : a == separator
    · simp [splitAtEach, same]
    · cases parts : splitAtEach separator rest with
      | nil => exact absurd parts (splitAtEach_ne_nil rest)
      | cons first more => simp [splitAtEach, same, parts]

theorem splitAtEach_replicate (count : Nat) :
    splitAtEach separator (List.replicate count separator) = List.replicate (count + 1) [] := by
  induction count with
  | zero => rfl
  | succ count ih =>
    rw [List.replicate_succ, splitAtEach, ih]
    simp [List.replicate_succ]

end Splitting

namespace Path

theorem head?_of_single {name : String} (single : '/' ∉ name.toList) :
    (name.toList.head? == some '/') = false := by
  rw [beq_eq_false_iff_ne]
  intro same
  exact single (List.mem_of_mem_head? same)

theorem join_of_single {directory name : String} (given : directory ≠ "")
    (single : '/' ∉ name.toList) :
    (∃ above, directory.toList = above ++ ['/'] ∧
        (join directory name).toList = above ++ '/' :: name.toList) ∨
      (join directory name).toList = directory.toList ++ '/' :: name.toList := by
  have notEmpty : directory.isEmpty = false := by
    simpa using given
  unfold join
  rw [head?_of_single single, notEmpty, Bool.false_or]
  by_cases closed : directory.toList.getLast? = some '/'
  · obtain ⟨above, ends⟩ := List.getLast?_eq_some_iff.mp closed
    left
    refine ⟨above, ends, ?_⟩
    simp [ends]
  · right
    simp [closed]

theorem join_append {directory name : String} (suffix : String) (named : name ≠ "") :
    join directory name ++ suffix = join directory (name ++ suffix) := by
  have sameHead : (name ++ suffix).toList.head? = name.toList.head? := by
    rw [String.toList_append, List.head?_append_of_ne_nil]
    simpa using named
  unfold join
  rw [sameHead]
  split
  · rfl
  · split
    · rw [String.append_assoc]
    · rw [String.append_assoc]

end Path

namespace FileTree

/-- Whether there is a directory at a place. -/
def HasDirectory (t : FileTree) (place : List String) : Prop :=
  t.get? place = some .directory

/-- Whether every directory of `t` is one of `t'`. -/
def Grows (t t' : FileTree) : Prop :=
  ∀ place, t.HasDirectory place → t'.HasDirectory place

theorem Grows.trans {t t' t'' : FileTree} (first : t.Grows t') (second : t'.Grows t'') :
    t.Grows t'' :=
  fun place present => second place (first place present)

section Following

variable {t t' : FileTree} {place target : List String} {name : String}

theorem follow_eq_ok_iff :
    t.follow place name = .ok target ↔
      t.HasDirectory place ∧
        target = if name = "" ∨ name = "." then place
          else if name = ".." then place.dropLast
          else place ++ [name] := by
  unfold follow HasDirectory
  cases t.get? place with
  | none => simp
  | some entry =>
    cases entry with
    | file bytes => simp
    | directory =>
      simp only [Bool.or_eq_true, decide_eq_true_eq, Except.ok.injEq, true_and]
      exact eq_comm

theorem follow_grows (grows : t.Grows t') (leads : t.follow place name = .ok target) :
    t'.follow place name = .ok target := by
  obtain ⟨present, same⟩ := follow_eq_ok_iff.mp leads
  exact follow_eq_ok_iff.mpr ⟨grows place present, same⟩

theorem follow_nothing (t : FileTree) (place : List String) (name : String) :
    (t.follow place "" >>= fun here => t.follow here name) = t.follow place name := by
  unfold follow
  cases found : t.get? place with
  | none => rfl
  | some entry =>
    cases entry with
    | file bytes => rfl
    | directory => simp [bind, Except.bind, found]

theorem walk_grows (grows : t.Grows t') {names : List String}
    (leads : names.foldlM t.follow place = .ok target) :
    names.foldlM t'.follow place = .ok target := by
  induction names generalizing place with
  | nil => exact leads
  | cons name rest ih =>
    rw [List.foldlM_cons] at leads ⊢
    cases first : t.follow place name with
    | error error =>
      rw [first] at leads
      cases leads
    | ok next =>
      rw [first] at leads
      rw [follow_grows grows first]
      exact ih leads

theorem walk_nothing (count : Nat) (present : t.HasDirectory place) :
    (List.replicate count "").foldlM t.follow place = .ok place := by
  have stays : t.follow place "" = .ok place := follow_eq_ok_iff.mpr ⟨present, by simp⟩
  induction count with
  | zero => rfl
  | succ count ih =>
    rw [List.replicate_succ, List.foldlM_cons, stays]
    exact ih

theorem eq_of_walk_nothing {count : Nat}
    (leads : (List.replicate count "").foldlM t.follow place = .ok target) : target = place := by
  induction count with
  | zero => exact (Except.ok.inj leads).symm
  | succ count ih =>
    rw [List.replicate_succ, List.foldlM_cons] at leads
    cases first : t.follow place "" with
    | error error =>
      rw [first] at leads
      cases leads
    | ok next =>
      rw [first] at leads
      have stays : next = place := by simpa using (follow_eq_ok_iff.mp first).2
      subst stays
      exact ih leads

end Following

section Locating

variable {t t' : FileTree} {path : String} {place : List String}

theorem locate_of_relative (relative : path.toList ≠ []) (starts : path.toList.head? ≠ some '/') :
    t.locate path = (Path.parts path).foldlM t.follow [] := by
  have notEmpty : path.isEmpty = false := by
    simpa using relative
  have notAbsolute : (path.toList.head? == some '/') = false := by
    simpa using starts
  rw [locate, notEmpty, notAbsolute]
  rfl

theorem locate_of_absolute (absolute : path.toList = [] ∨ path.toList.head? = some '/') :
    t.locate path = .error .notFound := by
  unfold locate
  rcases absolute with empty | absolute
  · have isEmpty : path.isEmpty = true := by simpa using empty
    rw [isEmpty]
    rfl
  · rw [absolute]
    simp

theorem locate_eq_ok_iff :
    t.locate path = .ok place ↔
      path.toList ≠ [] ∧ path.toList.head? ≠ some '/' ∧
        (Path.parts path).foldlM t.follow [] = .ok place := by
  by_cases absolute : path.toList = [] ∨ path.toList.head? = some '/'
  · rw [locate_of_absolute absolute]
    rcases absolute with empty | absolute
    · simp [empty]
    · simp [absolute]
  · rw [not_or] at absolute
    rw [locate_of_relative absolute.1 absolute.2]
    simp [absolute.1, absolute.2]

/-- Paths lead on to the same places when directories are added. -/
theorem locate_grows (grows : t.Grows t') (leads : t.locate path = .ok place) :
    t'.locate path = .ok place := by
  obtain ⟨relative, starts, walked⟩ := locate_eq_ok_iff.mp leads
  exact locate_eq_ok_iff.mpr ⟨relative, starts, walk_grows grows walked⟩

/-- Whether a path leads to a directory. -/
def LeadsToDirectory (t : FileTree) (path : String) : Prop :=
  ∃ place, t.locate path = .ok place ∧ t.HasDirectory place

theorem LeadsToDirectory.grows (leads : t.LeadsToDirectory path) (grows : t.Grows t') :
    t'.LeadsToDirectory path := by
  obtain ⟨place, located, present⟩ := leads
  exact ⟨place, locate_grows grows located, grows place present⟩

theorem ne_empty_of_locate (leads : t.locate path = .ok place) : path ≠ "" := by
  rintro rfl
  cases leads

theorem locate_join (t : FileTree) {directory name : String} (given : directory ≠ "")
    (single : '/' ∉ name.toList) :
    t.locate (Path.join directory name) =
      (t.locate directory >>= fun here => t.follow here name) := by
  have named : (splitAtEach '/' name.toList).map String.ofList = [name] := by
    rw [splitAtEach_of_not_mem single]
    simp
  have nonempty : directory.toList ≠ [] := by
    simpa using given
  have sameHead : (Path.join directory name).toList.head? = directory.toList.head? := by
    rcases Path.join_of_single given single with ⟨above, ends, joined⟩ | joined
    · rw [joined, ends]
      cases above <;> rfl
    · rw [joined, List.head?_append_of_ne_nil _ nonempty]
  by_cases absolute : directory.toList.head? = some '/'
  · rw [locate_of_absolute (.inr absolute), locate_of_absolute (.inr (sameHead.trans absolute))]
    rfl
  · have relative : (Path.join directory name).toList ≠ [] := by
      intro empty
      rw [empty, List.head?_nil] at sameHead
      exact nonempty (List.head?_eq_none_iff.mp sameHead.symm)
    rw [locate_of_relative relative (sameHead ▸ absolute), locate_of_relative nonempty absolute]
    unfold Path.parts
    rcases Path.join_of_single given single with ⟨above, ends, joined⟩ | joined
    · rw [joined, ends, splitAtEach_append, splitAtEach_append, List.map_append, List.map_append,
        named, List.foldlM_append, List.foldlM_append]
      cases ((splitAtEach '/' above).map String.ofList).foldlM t.follow [] with
      | error error => rfl
      | ok here =>
        have skipped := follow_nothing t here name
        show [name].foldlM t.follow here =
          ([""].foldlM t.follow here >>= fun here => t.follow here name)
        simp only [List.foldlM_cons, List.foldlM_nil, bind_pure]
        exact skipped.symm
    · rw [joined, splitAtEach_append, List.map_append, named, List.foldlM_append]
      simp

theorem toList_withoutSlashes (path : String) :
    ∃ count, path.toList = (withoutSlashes path).toList ++ List.replicate count '/' := by
  have slashes := List.eq_replicate_of_mem (a := '/')
    (fun c (member : c ∈ path.toList.reverse.takeWhile (· == '/')) => by
      simpa using List.mem_takeWhile_imp member)
  refine ⟨(path.toList.reverse.takeWhile (· == '/')).length, ?_⟩
  have parted := congrArg List.reverse
    (List.takeWhile_append_dropWhile (p := (· == '/')) (l := path.toList.reverse))
  rw [List.reverse_append, List.reverse_reverse] at parted
  rw [withoutSlashes, String.toList_ofList, ← List.reverse_replicate, ← slashes]
  exact parted.symm

/-- Slashes at the end of a path do not change which directory it leads to. -/
theorem locate_withoutSlashes (present : t.HasDirectory place) :
    t.locate (withoutSlashes path) = .ok place ↔ t.locate path = .ok place := by
  obtain ⟨count, ends⟩ := toList_withoutSlashes path
  cases stem : (withoutSlashes path).toList with
  | nil =>
    have absolute : path.toList = [] ∨ path.toList.head? = some '/' := by
      rw [ends, stem]
      cases count <;> simp [List.replicate_succ]
    rw [locate_of_absolute (.inl stem), locate_of_absolute absolute]
  | cons c rest =>
    rw [stem] at ends
    have parts : Path.parts path =
        Path.parts (withoutSlashes path) ++ List.replicate count "" := by
      unfold Path.parts
      rw [stem, ends]
      cases count with
      | zero => simp
      | succ count =>
        rw [List.replicate_succ, splitAtEach_append, splitAtEach_replicate, List.map_append,
          List.map_replicate]
    rw [locate_eq_ok_iff, locate_eq_ok_iff, parts, stem, ends, List.foldlM_append]
    simp only [List.cons_append, List.head?_cons, ne_eq, reduceCtorEq, not_false_eq_true, true_and]
    refine and_congr_right ?_
    intro _
    cases (Path.parts (withoutSlashes path)).foldlM t.follow [] with
    | error error => simp [bind, Except.bind]
    | ok here =>
      constructor
      · intro leads
        rw [Except.ok.inj leads]
        exact walk_nothing count present
      · intro leads
        rw [eq_of_walk_nothing leads]

end Locating

end FileTree

end Forwarding
