import Forwarding.Proofs.Literals
/-!
String literals. A text that is written as a string literal is read back, in either form: every
escape stands for the character that it was made for, and the literal ends at its closing quote.
-/

namespace Forwarding.Literal

/-- The result of reading a literal with a character more at its beginning. -/
def precede (c : Char) : Option (List Char × List Char) → Option (List Char × List Char) :=
  Option.map fun (value, after) => (c :: value, after)

theorem readQuoted_cons {reading : Reading} (next : Reading) (said : List Char) {c : Char}
    {rest : List Char} (goesOn : (c == '"' && reading.closes) = false)
    (step : read .text reading c = some (next, said)) :
    readQuoted .text reading (c :: rest) =
      (readQuoted .text next rest).map fun (value, after) => (said ++ value, after) := by
  rw [readQuoted, goesOn, step]
  rfl

theorem hexValue?_digitChar {n : Nat} (digit : n < 16) : hexValue? n.digitChar = some n := by
  revert n
  decide

theorem readQuoted_digit {n count value : Nat} {rest : List Char} (digit : n < 16)
    (few : count < 6) :
    readQuoted .text (.unicodeDigits count value) (n.digitChar :: rest) =
      readQuoted .text (.unicodeDigits (count + 1) (16 * value + n)) rest := by
  have apart : ∀ m < 16, Nat.digitChar m ≠ '_' ∧ Nat.digitChar m ≠ Char.ofNat 0x7d := by decide
  have step : read .text (.unicodeDigits count value) n.digitChar =
      some (.unicodeDigits (count + 1) (16 * value + n), []) := by
    have room : (count == 6) = false := by
      rw [beq_eq_false_iff_ne]
      omega
    simp [read, apart n digit, hexValue?_digitChar digit, room]
  rw [readQuoted_cons _ _ (by simp [Reading.closes]) step]
  cases readQuoted .text (.unicodeDigits (count + 1) (16 * value + n)) rest <;> rfl

/-- The digits of a number are read as the number. -/
theorem readQuoted_hexDigits (n : Nat) {count value : Nat} {rest : List Char}
    (few : count + (Text.hexDigits n).length ≤ 6) :
    readQuoted .text (.unicodeDigits count value) (Text.hexDigits n ++ rest) =
      readQuoted .text (.unicodeDigits (count + (Text.hexDigits n).length)
        (16 ^ (Text.hexDigits n).length * value + n)) rest := by
  unfold Text.hexDigits at *
  induction n using Nat.strongRecOn generalizing count value rest with
  | ind n ih =>
    by_cases small : n < 16
    · rw [Nat.toDigits_of_lt_base small] at few ⊢
      rw [List.singleton_append, readQuoted_digit small (Nat.lt_of_succ_le few)]
      rfl
    · have split := Nat.toDigits_of_base_le (b := 16) (n := n) (by decide) (by omega)
      have digit : n % 16 < 16 := Nat.mod_lt n (by decide)
      rw [split, List.length_append, List.length_singleton] at few ⊢
      rw [List.append_assoc, ih (n / 16) (by omega) (by omega), List.singleton_append,
        readQuoted_digit digit (by omega), Nat.add_assoc]
      have whole : 16 * (16 ^ (Nat.toDigits 16 (n / 16)).length * value + n / 16) + n % 16 =
          16 ^ ((Nat.toDigits 16 (n / 16)).length + 1) * value + n := by
        rw [Nat.pow_succ, Nat.mul_add, Nat.add_assoc, Nat.div_add_mod]
        congr 1
        rw [Nat.mul_comm _ 16, Nat.mul_assoc]
      rw [whole]

theorem isScalar_toNat (c : Char) : isScalar c.toNat = true := by
  have valid := c.valid
  change c.toNat < 0xd800 ∨ (0xdfff < c.toNat ∧ c.toNat < 0x110000) at valid
  simpa [isScalar] using valid

theorem length_hexDigits_toNat (c : Char) : (Text.hexDigits c.toNat).length ≤ 6 := by
  have bound : c.toNat < 16 ^ 6 := by
    have valid := c.valid
    change c.toNat < 0xd800 ∨ (0xdfff < c.toNat ∧ c.toNat < 0x110000) at valid
    omega
  exact (Nat.length_toDigits_le_iff (by decide) (by decide)).mpr bound

theorem readQuoted_codePoint (c : Char) (rest : List Char) :
    readQuoted .text .plain (Text.codePointEscape c ++ rest) =
      precede c (readQuoted .text .plain rest) := by
  have opened : readQuoted .text .plain (Text.codePointEscape c ++ rest) =
      readQuoted .text (.unicodeDigits 0 0) (Text.hexDigits c.toNat ++ Char.ofNat 0x7d :: rest) := by
    rw [Text.codePointEscape, List.append_assoc, List.append_assoc, List.cons_append,
      readQuoted_cons .backslash [] (by decide) (by decide),
      List.cons_append, readQuoted_cons .unicodeOpen [] (by decide) (by decide),
      List.cons_append,
      readQuoted_cons (.unicodeDigits 0 0) [] (by decide) (by decide)]
    simp
  have digits := Nat.length_toDigits_pos (b := 16) (n := c.toNat)
  have closed : read .text (.unicodeDigits (0 + (Text.hexDigits c.toNat).length)
      (16 ^ (Text.hexDigits c.toNat).length * 0 + c.toNat)) (Char.ofNat 0x7d) =
        some (.plain, [c]) := by
    have some? : 0 < (Text.hexDigits c.toNat).length := digits
    simp [read, isScalar_toNat, some?]
  rw [opened, readQuoted_hexDigits _ (by simpa using length_hexDigits_toNat c),
    readQuoted_cons _ _ (by simp [Reading.closes]) closed]
  rfl

/-- The escape of a character is read as the character. -/
theorem readQuoted_escapeChar (c : Char) (rest : List Char) :
    readQuoted .text .plain (Text.escapeChar c ++ rest) =
      precede c (readQuoted .text .plain rest) := by
  have escaped : ∀ letter : Char, read .text .backslash letter = some (.plain, [c]) →
      readQuoted .text .plain ('\\' :: letter :: rest) =
        precede c (readQuoted .text .plain rest) := by
    intro letter step
    have back : readQuoted .text .plain ('\\' :: letter :: rest) =
        readQuoted .text .backslash (letter :: rest) := by
      rw [readQuoted_cons .backslash [] (by decide) (by decide)]
      cases readQuoted .text .backslash (letter :: rest) <;> rfl
    rw [back, readQuoted_cons _ _ (by simp [Reading.closes]) step]
    rfl
  unfold Text.escapeChar
  split
  · rename_i same
    exact escaped 't' (by rw [beq_iff_eq.mp same]; decide)
  split
  · rename_i same
    exact escaped 'r' (by rw [beq_iff_eq.mp same]; decide)
  split
  · rename_i same
    exact escaped 'n' (by rw [beq_iff_eq.mp same]; decide)
  split
  · rename_i same
    exact escaped '"' (by rw [beq_iff_eq.mp same]; decide)
  split
  · rename_i same
    exact escaped '\\' (by rw [beq_iff_eq.mp same]; decide)
  split
  · rename_i zero
    have same : c = Char.ofNat 0 := by
      rw [← beq_iff_eq.mp zero, Char.ofNat_toNat]
    exact escaped '0' (by rw [same]; decide)
  split
  · rename_i noTab noReturn noFeed noQuote noBackslash _ _
    have step : read .text .plain c = some (.plain, [c]) := by
      simp_all [read, readPlain]
    rw [List.singleton_append, readQuoted_cons _ _ (by simp_all) step]
    rfl
  · exact readQuoted_codePoint c rest

/-- What is written as a string literal is read up to the closing quote. -/
theorem readQuoted_escapeLiteral (text rest : List Char) :
    readQuoted .text .plain (Text.escapeLiteral text ++ '"' :: rest) = some (text, rest) := by
  induction text with
  | nil => rfl
  | cons c text ih =>
    rw [Text.escapeLiteral, List.append_assoc]
    split
    · rename_i octal
      have same : c = Char.ofNat 0 := by
        rw [Bool.and_eq_true, beq_iff_eq] at octal
        rw [← octal.1, Char.ofNat_toNat]
      subst same
      simp only [List.cons_append, List.nil_append]
      rw [readQuoted_cons .backslash [] (by decide) (by decide),
        readQuoted_cons .hexFirst [] (by decide) (by decide),
        readQuoted_cons (.hexSecond 0) [] (by decide) (by decide),
        readQuoted_cons .plain [Char.ofNat 0] (by decide) (by decide), ih]
      rfl
    · rw [readQuoted_escapeChar, ih]
      rfl

theorem readQuoted_escapeName (name rest : List Char) :
    readQuoted .text .plain (Text.escapeName name ++ '"' :: rest) = some (name, rest) := by
  induction name with
  | nil => rfl
  | cons c name ih =>
    rw [Text.escapeName, List.flatMap_cons, ← Text.escapeName, List.append_assoc,
      readQuoted_escapeChar, ih]
    rfl

theorem string?_quoted {body value rest : List Char}
    (read : readQuoted .text .plain (body ++ '"' :: rest) = some (value, rest)) :
    string? ('"' :: body ++ ['"'] ++ rest) = some (.text, value, rest) := by
  have chars : '"' :: body ++ ['"'] ++ rest = '"' :: (body ++ '"' :: rest) := by simp
  rw [chars, string?]
  simp [readString, read]

/-- A literal says the file name that it is written for. -/
theorem text?_quoteName (name : String) : text? (Text.quoteName name) = some name := by
  have read := string?_quoted (readQuoted_escapeName name.toList [])
  rw [List.append_nil] at read
  rw [text?, Text.quoteName, String.toList_ofList, read]
  exact congrArg some String.ofList_toList

end Forwarding.Literal

namespace Forwarding.Lexer

theorem isLiteral_of_readQuoted {body value : List Char}
    (read : ∀ rest, Literal.readQuoted .text .plain (body ++ '"' :: rest) = some (value, rest)) :
    IsLiteral (String.ofList ('"' :: body ++ ['"'])) where
  filled := by
    rw [String.toList_ofList]
    exact List.cons_ne_nil _ _
  skipped := by
    intro rest stops
    rw [String.toList_ofList, Literal.skip?, Literal.string?_quoted (read rest)]
    exact congrArg some (Literal.Stops.skipSuffix stops)

theorem isLiteral_quoteLiteral (text : String) : IsLiteral (Text.quoteLiteral text) :=
  isLiteral_of_readQuoted (Literal.readQuoted_escapeLiteral text.toList)

theorem isLiteral_quoteName (name : String) : IsLiteral (Text.quoteName name) :=
  isLiteral_of_readQuoted (Literal.readQuoted_escapeName name.toList)

end Forwarding.Lexer
