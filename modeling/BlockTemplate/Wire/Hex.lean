import BlockTemplate.Wire.Bytes

/-!
# Hexadecimal text

Bytes as two digits each.  Digits are written in lower case and read in both;
reading stops in front of the first pair that is not two digits, and a last
character without a partner is not read.
-/

namespace BlockTemplate

def hexDigit (value : Nat) : Char :=
  Char.ofNat (if value < 10 then 48 + value else 87 + value)

def hexValue (digit : Char) : Option Nat :=
  let code := digit.toNat
  if 48 ≤ code ∧ code ≤ 57 then some (code - 48)
  else if 97 ≤ code ∧ code ≤ 102 then some (code - 87)
  else if 65 ≤ code ∧ code ≤ 70 then some (code - 55)
  else none

def toHex : Bytes → List Char
  | [] => []
  | byte :: rest =>
    hexDigit (byte.toNat / 16) :: hexDigit (byte.toNat % 16) :: toHex rest

def ofHex : List Char → Bytes
  | high :: low :: rest =>
    match hexValue high, hexValue low with
    | some first, some second =>
      BitVec.ofNat 8 (16 * first + second) :: ofHex rest
    | _, _ => []
  | _ => []

theorem hexValue_hexDigit {value : Nat} (small : value < 16) :
    hexValue (hexDigit value) = some value := by
  have digits : ∀ digit : Fin 16, hexValue (hexDigit digit) = some digit.val := by
    decide
  exact digits ⟨value, small⟩

theorem length_toHex (bytes : Bytes) :
    (toHex bytes).length = 2 * bytes.length := by
  induction bytes with
  | nil => rfl
  | cons byte bytes ih =>
      simp only [toHex, List.length_cons, ih]
      omega

theorem toHex_append (first second : Bytes) :
    toHex (first ++ second) = toHex first ++ toHex second := by
  induction first with
  | nil => rfl
  | cons byte first ih => simp only [List.cons_append, toHex, ih]

theorem ofHex_toHex_append (bytes : Bytes) (text : List Char) :
    ofHex (toHex bytes ++ text) = bytes ++ ofHex text := by
  induction bytes with
  | nil => rfl
  | cons byte bytes ih =>
      have small := byte.isLt
      have high := hexValue_hexDigit (show byte.toNat / 16 < 16 by omega)
      have low := hexValue_hexDigit (show byte.toNat % 16 < 16 by omega)
      have joined :
          BitVec.ofNat 8 (16 * (byte.toNat / 16) + byte.toNat % 16) = byte := by
        apply BitVec.eq_of_toNat_eq
        rw [BitVec.toNat_ofNat, Nat.div_add_mod]
        exact Nat.mod_eq_of_lt small
      simp only [toHex, List.cons_append, ofHex, high, low, joined, ih]

@[simp]
theorem ofHex_toHex (bytes : Bytes) : ofHex (toHex bytes) = bytes := by
  have read := ofHex_toHex_append bytes []
  have nothing : ofHex [] = [] := rfl
  rwa [nothing, List.append_nil, List.append_nil] at read

end BlockTemplate
