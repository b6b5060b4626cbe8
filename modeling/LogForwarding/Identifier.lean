/-
# Identifiers made from names

Names in a topology are free text. A component of the agent is identified by a
key of ASCII lower-case letters, digits and underscores, and a secret by the
upper-case form of such a key inside the name of an environment variable.

Key definitions: `isIdChar`, `componentId`, `environmentId`,
`environmentReference`.
Key theorems: `isIdChar_of_mem_componentId`.
-/

namespace LogForwarding

/-- `c` may stand in a component id: it is an ASCII lower-case letter, an ASCII digit or an
underscore. -/
def isIdChar (c : Char) : Bool := c.isLower || c.isDigit || c == '_'

/-- The character that `c` becomes in a component id: ASCII letters lose their case, ASCII
digits stay, and all else becomes an underscore. -/
def idChar (c : Char) : Char := if c.isAlphanum then c.toLower else '_'

/-- The upper-case letters are the code points from 65 to 90. -/
theorem isUpper_iff {c : Char} : c.isUpper = true ↔ 65 ≤ c.val.toNat ∧ c.val.toNat ≤ 90 := by
  show decide ('A'.val ≤ c.val ∧ c.val ≤ 'Z'.val) = true ↔ _
  simp only [decide_eq_true_eq, UInt32.le_iff_toNat_le]
  exact Iff.rfl

/-- The lower-case letters are the code points from 97 to 122. -/
theorem isLower_iff {c : Char} : c.isLower = true ↔ 97 ≤ c.val.toNat ∧ c.val.toNat ≤ 122 := by
  show (decide ('a'.val ≤ c.val) && decide (c.val ≤ 'z'.val)) = true ↔ _
  simp only [Bool.and_eq_true, decide_eq_true_eq, UInt32.le_iff_toNat_le]
  exact Iff.rfl

/-- An upper-case letter becomes a lower-case one, and all else stays. -/
theorem isLower_toLower {c : Char} (h : c.isUpper = true) : c.toLower.isLower = true := by
  obtain ⟨hA, hZ⟩ := isUpper_iff.1 h
  have hshift : ('a'.val - 'A'.val).toNat = 32 := rfl
  have hval : c.toLower.val = c.val + ('a'.val - 'A'.val) := by
    unfold Char.toLower
    rw [dif_pos (of_decide_eq_true h)]
  rw [isLower_iff, hval, UInt32.toNat_add, hshift]
  omega

theorem toLower_of_not_isUpper {c : Char} (h : ¬ c.isUpper = true) : c.toLower = c := by
  unfold Char.toLower
  exact dif_neg fun hc => h (decide_eq_true hc)

/-- Every character becomes one that may stand in a component id. -/
theorem isIdChar_idChar (c : Char) : isIdChar (idChar c) = true := by
  unfold idChar
  split
  · rename_i h
    have hclass : (c.isUpper || c.isLower || c.isDigit) = true := h
    by_cases hu : c.isUpper = true
    · simp [isIdChar, isLower_toLower hu]
    · rw [toLower_of_not_isUpper hu]
      have hkept : (c.isLower || c.isDigit) = true := by simpa [hu] using hclass
      rw [isIdChar, hkept, Bool.true_or]
  · rfl

/-- The component id of `name`. -/
def componentId (name : String) : String := String.ofList (name.toList.map idChar)

/-- A component id consists of characters that may stand in one. -/
theorem isIdChar_of_mem_componentId {name : String} {c : Char}
    (h : c ∈ (componentId name).toList) : isIdChar c = true := by
  simp only [componentId, String.toList_ofList, List.mem_map] at h
  obtain ⟨d, _, rfl⟩ := h
  exact isIdChar_idChar d

/-- `s` with its ASCII letters in upper case. -/
def upperCase (s : String) : String := String.ofList (s.toList.map Char.toUpper)

/-- The part of a variable name that stands for `name`. Different names may share one. -/
def environmentId (name : String) : String := upperCase (componentId name)

/-- The reference by which the agent reads the value under `key` of the secret `secret` from its
environment. -/
def environmentReference (secret key : String) : String :=
  "$\x7bSECRET_" ++ environmentId secret ++ "_" ++ upperCase (componentId key) ++ "\x7d"

end LogForwarding
