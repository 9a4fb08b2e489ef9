/-!
Sorting lists, and finite sets of texts as sorted lists.
-/

namespace Forwarding

/-- Puts an element before the first one that is not smaller. -/
def insertBy {α : Type} (le : α → α → Bool) (a : α) : List α → List α
  | [] => [a]
  | b :: rest => if le a b then a :: b :: rest else b :: insertBy le a rest

/-- Sorts a list; elements that compare equal keep their order. -/
def sortBy {α : Type} (le : α → α → Bool) : List α → List α
  | [] => []
  | a :: rest => insertBy le a (sortBy le rest)

/-- Adds a text to a set of texts, which is a strictly increasing list. -/
def insertText (text : String) : List String → List String
  | [] => [text]
  | first :: rest =>
    if text < first then text :: first :: rest
    else if text = first then first :: rest
    else first :: insertText text rest

/-- The set of some texts. -/
def setOfTexts (texts : List String) : List String :=
  texts.foldr insertText []

theorem insertBy_perm {α : Type} (le : α → α → Bool) (a : α) (l : List α) :
    (insertBy le a l).Perm (a :: l) := by
  induction l with
  | nil => exact .refl _
  | cons b rest ih =>
    unfold insertBy
    split
    · exact .refl _
    · exact (ih.cons b).trans (.swap a b rest)

/-- Sorting neither loses nor adds an element. -/
theorem sortBy_perm {α : Type} (le : α → α → Bool) (l : List α) : (sortBy le l).Perm l := by
  induction l with
  | nil => exact .refl _
  | cons a rest ih => exact (insertBy_perm le a _).trans (ih.cons a)

theorem mem_insertText {text other : String} {set : List String} :
    other ∈ insertText text set ↔ other = text ∨ other ∈ set := by
  induction set with
  | nil => simp [insertText]
  | cons first rest ih =>
    unfold insertText
    split
    · simp
    · split
      · rename_i h
        subst h
        simp
      · simp [ih, or_left_comm]

theorem mem_setOfTexts {text : String} {texts : List String} :
    text ∈ setOfTexts texts ↔ text ∈ texts := by
  induction texts with
  | nil => simp [setOfTexts]
  | cons first rest ih =>
    have unfolded : setOfTexts (first :: rest) = insertText first (setOfTexts rest) := rfl
    rw [unfolded, mem_insertText, ih, List.mem_cons]

end Forwarding
