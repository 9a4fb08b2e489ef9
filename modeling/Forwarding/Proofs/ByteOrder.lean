import Mathlib.Tactic.SplitIfs
/-!
Texts in order are in the order of their encoded bytes: comparing characters one by one gives the
same result as comparing the bytes of the encodings.
-/

namespace Forwarding

/-- The bytes of a text. -/
def bytesOf (text : String) : List UInt8 :=
  text.toUTF8.data.toList

theorem bytesOf_eq (text : String) : bytesOf text = text.toList.flatMap String.utf8EncodeChar := by
  rw [bytesOf, String.toUTF8_eq_toByteArray, ← String.utf8Encode_toList, List.utf8Encode,
    List.toList_data_toByteArray]

theorem byte_lt {m n : Nat} (less : m < n) (bound : n < 256) : UInt8.ofNat m < UInt8.ofNat n := by
  have below : m < 256 := by omega
  rw [UInt8.lt_iff_toNat_lt, UInt8.toNat_ofNat', UInt8.toNat_ofNat', Nat.mod_eq_of_lt bound,
    Nat.mod_eq_of_lt below]
  exact less

/-- The first bytes decide between two lists unless they are the same. -/
theorem byte_cons_lt {m n : Nat} {l k : List UInt8} (bound : n < 256)
    (order : m < n ∨ m = n ∧ l < k) : UInt8.ofNat m :: l < UInt8.ofNat n :: k := by
  rw [List.cons_lt_cons_iff]
  rcases order with less | ⟨rfl, rest⟩
  · exact .inl (byte_lt less bound)
  · exact .inr ⟨rfl, rest⟩

theorem byte_cons_lt_of_le {m n : Nat} {l k : List UInt8} (bound : n < 256) (order : m ≤ n)
    (rest : m = n → l < k) : UInt8.ofNat m :: l < UInt8.ofNat n :: k := by
  apply byte_cons_lt bound
  rcases Nat.lt_or_eq_of_le order with less | same
  · exact .inl less
  · exact .inr ⟨same, rest same⟩

/-- The encodings of different characters are in order however they are continued. -/
theorem encode_append_lt {c d : Char} (less : c < d) (l k : List UInt8) :
    String.utf8EncodeChar c ++ l < String.utf8EncodeChar d ++ k := by
  have values : c.val.toNat < d.val.toNat := less
  have limit : d.val.toNat < 0x110000 := by
    rcases d.valid with below | ⟨-, below⟩ <;> omega
  generalize cv : c.val.toNat = v at values
  generalize dv : d.val.toNat = w at values limit
  simp only [String.utf8EncodeChar, cv, dv]
  -- Encodings of different lengths differ in the first byte.
  split_ifs <;> simp only [List.cons_append]
  all_goals try exact byte_cons_lt (by omega) (.inl (by omega))
  · apply byte_cons_lt_of_le (by omega) (by omega)
    intro same
    exact byte_cons_lt (by omega) (.inl (by omega))
  · apply byte_cons_lt_of_le (by omega) (by omega)
    intro first
    apply byte_cons_lt_of_le (by omega) (by omega)
    intro second
    exact byte_cons_lt (by omega) (.inl (by omega))
  · apply byte_cons_lt_of_le (by omega) (by omega)
    intro first
    apply byte_cons_lt_of_le (by omega) (by omega)
    intro second
    apply byte_cons_lt_of_le (by omega) (by omega)
    intro third
    exact byte_cons_lt (by omega) (.inl (by omega))

theorem encode_lt {l k : List Char} (less : l < k) :
    l.flatMap String.utf8EncodeChar < k.flatMap String.utf8EncodeChar := by
  induction less with
  | nil =>
    rename_i c rest
    rw [List.flatMap_nil, List.flatMap_cons]
    cases encoded : String.utf8EncodeChar c with
    | nil => exact absurd encoded String.utf8EncodeChar_ne_nil
    | cons byte bytes => exact .nil
  | rel less => exact encode_append_lt less _ _
  | cons _ ih => exact List.append_left_lt ih

/-- Comparing texts by their characters is comparing them by their bytes. -/
theorem bytesOf_lt {a b : String} (less : a < b) : bytesOf a < bytesOf b := by
  rw [bytesOf_eq, bytesOf_eq]
  exact encode_lt less

end Forwarding
