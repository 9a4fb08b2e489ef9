import Forwarding.Token.Literal
import Mathlib.Data.Nat.Digits.Defs
/-!
Magnitudes. The value of an integer literal is the number that its digits give in the base named by
its beginning, underscores and the suffix aside.
-/

namespace Forwarding

namespace Literal

/-- Whether a character is a digit of a base or an underscore. -/
def isDigitOf (base : Nat) (c : Char) : Bool :=
  c == '_' || (hexValue? c).any (· < base)

/-- The number that the digits of an integer literal give in the base that its beginning names.
Underscores and whatever follows the digits do not count. -/
def magnitude (spelling : String) : Nat :=
  let base := (radix spelling.toList).1
  let digits := (radix spelling.toList).2.takeWhile (isDigitOf base)
  Nat.ofDigits base (digits.filterMap hexValue?).reverse

theorem ten_le_of_hexValue? {c : Char} {digit : Nat} (value : hexValue? c = some digit)
    (letter : c.isDigit = false) : 10 ≤ digit := by
  simp only [hexValue?, letter, Bool.false_eq_true, if_false] at value
  split at value
  · cases value
    omega
  · split at value
    · cases value
      omega
    · cases value

theorem eq_of_stop {digits : Bool} {value n : Nat} {text suffix : List Char}
    (stop : (if digits then some (value, text) else none) = some (n, suffix)) : n = value := by
  split at stop
  · cases stop
    rfl
  · cases stop

theorem integerDigits_eq_some {base value n : Nat} {digits : Bool} {text suffix : List Char}
    (read : integerDigits base value digits text = some (n, suffix)) :
    n = ((text.takeWhile (isDigitOf base)).filterMap hexValue?).foldl
      (fun value digit => base * value + digit) value := by
  induction text generalizing value digits with
  | nil => exact eq_of_stop read
  | cons c rest ih =>
    rw [integerDigits] at read
    by_cases score : c = '_'
    · subst score
      rw [if_pos (beq_self_eq_true _)] at read
      rw [List.takeWhile_cons_of_pos rfl, List.filterMap_cons_none rfl]
      exact ih read
    rw [if_neg (by simpa using score)] at read
    cases hex : hexValue? c with
    | none =>
      have stops : ¬ isDigitOf base c = true := by simp [isDigitOf, score, hex]
      rw [List.takeWhile_cons_of_neg stops]
      rw [hex] at read
      dsimp only at read
      split at read
      · cases read
      · exact eq_of_stop read
    | some digit =>
      rw [hex] at read
      dsimp only at read
      by_cases counts : (c.isDigit || decide (10 < base)) = true
      · rw [if_pos counts] at read
        split at read
        · rename_i small
          have goes : isDigitOf base c = true := by simp [isDigitOf, hex, small]
          rw [List.takeWhile_cons_of_pos goes, List.filterMap_cons_some hex, List.foldl_cons]
          exact ih read
        · cases read
      · -- a letter is no digit of a base up to ten
        rw [if_neg counts] at read
        simp only [Bool.or_eq_true, not_or, Bool.not_eq_true, decide_eq_false_iff_not] at counts
        have large := ten_le_of_hexValue? hex counts.1
        have stops : ¬ isDigitOf base c = true := by
          simp [isDigitOf, score, hex]
          omega
        rw [List.takeWhile_cons_of_neg stops]
        split at read
        · cases read
        · exact eq_of_stop read

theorem integer?_eq_some {spelling : String} {n : Nat} {suffix : List Char}
    (read : integer? spelling = some (n, suffix)) : n = magnitude spelling := by
  unfold integer? at read
  split at read
  · cases read
  rename_i c rest same
  split at read
  · cases read
  dsimp only at read
  split at read
  · rename_i value tail digits
    split at read
    · cases read
      rw [integerDigits_eq_some digits, magnitude, same, Nat.ofDigits_eq_foldr, List.foldr_reverse]
      simp only [Nat.cast_id, Nat.add_comm]
    · cases read
  · cases read

end Literal

end Forwarding
