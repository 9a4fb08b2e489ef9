import Forwarding.Proofs.Places
import Mathlib.Logic.Function.Basic
/-!
What operations do to the contents of files. An operation on a path whose place is known succeeds
exactly when no directory is in its way, and then changes the bytes at the places it names and no
directory.
-/

namespace Forwarding

namespace FileTree

/-- The bytes of the file at a place. -/
def bytes? (t : FileTree) (place : List String) : Option ByteArray :=
  match t.get? place with
  | some (.file bytes) => some bytes
  | _ => none

/-- The tree has become one with the same directories and with these contents of files. -/
structure Becomes (t t' : FileTree) (contents : List String → Option ByteArray) : Prop where
  directories : ∀ place, t'.HasDirectory place ↔ t.HasDirectory place
  bytes : t'.bytes? = contents

theorem Becomes.refl (t : FileTree) : t.Becomes t t.bytes? :=
  ⟨fun _ => Iff.rfl, rfl⟩

theorem Becomes.trans {t t' t'' : FileTree} {contents contents' : List String → Option ByteArray}
    (first : t.Becomes t' contents) (second : t'.Becomes t'' contents') :
    t.Becomes t'' contents' :=
  ⟨fun place => (second.directories place).trans (first.directories place), second.bytes⟩

theorem Becomes.grows {t t' : FileTree} {contents : List String → Option ByteArray}
    (becomes : t.Becomes t' contents) : t.Grows t' :=
  fun place present => (becomes.directories place).mpr present

variable {t : FileTree} {path : String} {place : List String} {bytes : ByteArray}

theorem bytes?_eq_some_iff : t.bytes? place = some bytes ↔ t.get? place = some (.file bytes) := by
  unfold bytes?
  split
  · rename_i found
    rw [found]
    simp
  · rename_i other
    constructor
    · intro none
      cases none
    · intro found
      exact absurd found (other bytes)

theorem bytes?_eq_none_of_directory (present : t.HasDirectory place) : t.bytes? place = none := by
  unfold bytes?
  rw [present]

theorem free_of_bytes? (held : t.bytes? place = some bytes) : ¬ t.HasDirectory place := by
  intro present
  rw [bytes?_eq_none_of_directory present] at held
  cases held

theorem ne_nil_of_free (free : ¬ t.HasDirectory place) : place ≠ [] := by
  intro top
  apply free
  rw [top, HasDirectory, get?]
  rfl

theorem get?_eq_of_bytes?_eq_none (none : t.bytes? place = .none) :
    t.get? place = .none ∨ t.HasDirectory place := by
  unfold bytes? at none
  unfold HasDirectory
  cases found : t.get? place with
  | none => exact .inl rfl
  | some entry =>
    cases entry with
    | directory => exact .inr rfl
    | file bytes =>
      rw [found] at none
      cases none

theorem put_becomes (free : ¬ t.HasDirectory place) (bytes : ByteArray) :
    t.Becomes (t.put place (.file bytes)) (Function.update t.bytes? place (some bytes)) := by
  have named := ne_nil_of_free free
  constructor
  · intro other
    unfold HasDirectory at free ⊢
    by_cases same : other = place
    · rw [same, get?_put_self t named]
      simp [free]
    · rw [get?_put_of_ne t same]
  · funext other
    by_cases same : other = place
    · rw [same, Function.update_self, bytes?_eq_some_iff, get?_put_self t named]
    · rw [Function.update_of_ne same, bytes?, bytes?, get?_put_of_ne t same]

theorem get?_erase_self (t : FileTree) (named : place ≠ []) : (t.erase place).get? place = none := by
  simp only [get?, named, if_false, erase, List.lookup_eq_none_iff]
  intro entry member
  have kept : entry.1 ≠ place := by simpa using (List.mem_filter.mp member).2
  simpa using kept.symm

theorem lookup_filter_of_ne {entries : List (List String × Entry)} {other : List String}
    (different : other ≠ place) :
    (entries.filter fun (key, _) => key != place).lookup other = entries.lookup other := by
  induction entries with
  | nil => rfl
  | cons entry rest ih =>
    obtain ⟨key, found⟩ := entry
    by_cases same : key = place
    · have passed : (other == place) = false := by simpa using different
      simp [same, List.lookup_cons, ih, passed]
    · simp [same, List.lookup_cons, ih]

theorem get?_erase_of_ne (t : FileTree) {other : List String} (different : other ≠ place) :
    (t.erase place).get? other = t.get? other := by
  unfold get? erase
  rw [lookup_filter_of_ne different]

theorem erase_becomes (free : ¬ t.HasDirectory place) :
    t.Becomes (t.erase place) (Function.update t.bytes? place none) := by
  have named := ne_nil_of_free free
  constructor
  · intro other
    unfold HasDirectory at free ⊢
    by_cases same : other = place
    · rw [same, get?_erase_self t named]
      simp [free]
    · rw [get?_erase_of_ne t same]
  · funext other
    by_cases same : other = place
    · rw [same, Function.update_self, bytes?, get?_erase_self t named]
    · rw [Function.update_of_ne same, bytes?, bytes?, get?_erase_of_ne t same]

section Operations

theorem find_of_leads (leads : t.locate path = .ok place) :
    t.find path = match t.get? place with
      | some entry => .ok entry
      | none => .error .notFound := by
  unfold find
  rw [leads]
  cases found : t.get? place <;> simp [bind, Except.bind, found] <;> rfl

theorem toOption_read (leads : t.locate path = .ok place) :
    (t.read path).toOption = t.bytes? place := by
  rw [read, find_of_leads leads, bytes?]
  cases t.get? place with
  | none => rfl
  | some entry => cases entry <;> rfl

theorem read_eq_ok_iff (leads : t.locate path = .ok place) :
    t.read path = .ok bytes ↔ t.bytes? place = some bytes := by
  rw [← toOption_read leads]
  cases t.read path <;> simp [Except.toOption]

theorem write_of_directory (leads : t.locate path = .ok place) (present : t.HasDirectory place)
    (bytes : ByteArray) : t.write path bytes = .error .isADirectory := by
  unfold write
  rw [leads]
  simp only [bind, Except.bind]
  rw [present]
  rfl

theorem write_of_free (leads : t.locate path = .ok place) (free : ¬ t.HasDirectory place)
    (bytes : ByteArray) : t.write path bytes = .ok (t.put place (.file bytes)) := by
  unfold write
  rw [leads]
  simp only [bind, Except.bind]
  split
  · rename_i present
    exact absurd present free
  · rfl

theorem remove_of_file (leads : t.locate path = .ok place) (held : t.bytes? place = some bytes) :
    t.remove path = .ok (t.erase place) := by
  unfold remove
  rw [leads]
  simp only [bind, Except.bind]
  rw [bytes?_eq_some_iff.mp held]
  rfl

theorem remove_of_none (leads : t.locate path = .ok place) (none : t.bytes? place = none) :
    ∃ error, t.remove path = .error error := by
  unfold remove
  rw [leads]
  simp only [bind, Except.bind]
  rcases get?_eq_of_bytes?_eq_none none with absent | present
  · rw [absent]
    exact ⟨_, rfl⟩
  · rw [present]
    exact ⟨_, rfl⟩

variable {source target : String} {origin : List String}

theorem move_of_free (fromOrigin : t.locate source = .ok origin)
    (leads : t.locate target = .ok place) (held : t.bytes? origin = some bytes)
    (free : ¬ t.HasDirectory place) (plain : endsInSlash target = false) :
    t.move source target = .ok ((t.erase origin).put place (.file bytes)) := by
  unfold move
  rw [fromOrigin, leads]
  simp only [bind, Except.bind]
  rw [bytes?_eq_some_iff.mp held, plain]
  simp only [Bool.false_eq_true, if_false]
  split
  · rename_i present
    exact absurd present free
  · rfl

theorem move_of_directory (fromOrigin : t.locate source = .ok origin)
    (leads : t.locate target = .ok place) (held : t.bytes? origin = some bytes)
    (present : t.HasDirectory place) : ∃ error, t.move source target = .error error := by
  unfold move
  rw [fromOrigin, leads]
  simp only [bind, Except.bind]
  rw [bytes?_eq_some_iff.mp held, present]
  cases endsInSlash target
  · exact ⟨_, rfl⟩
  · exact ⟨_, rfl⟩

theorem move_becomes (held : t.bytes? origin = some bytes) (free : ¬ t.HasDirectory place) :
    t.Becomes ((t.erase origin).put place (.file bytes))
      (Function.update (Function.update t.bytes? origin none) place (some bytes)) := by
  have erased := erase_becomes (free_of_bytes? held)
  have stillFree : ¬ (t.erase origin).HasDirectory place := by
    rw [erased.directories place]
    exact free
  have placed := put_becomes stillFree bytes
  rw [erased.bytes] at placed
  exact erased.trans placed

end Operations

end FileTree

end Forwarding
