import Mathlib.Data.List.Basic
import Mathlib.Data.String.Basic

/-!
# Base64 with canonical padding

The standard alphabet, padded to a whole number of quanta. A text is decoded only where its padding closes
the last quantum and the bits the padding stands for are zero, so every octet sequence has one text
(`decode_encode`, `encode_decode`).
-/

namespace AhlMirror.Core.Base64

def alphabet : List Char := "ABCDEFGHIJKLMNOPQRSTUVWXYZabcdefghijklmnopqrstuvwxyz0123456789+/".toList

def digit (n : Nat) : Char := alphabet.getD n '='

def value (char : Char) : Option Nat := alphabet.findIdx? (· == char)

def octet (n : Nat) : UInt8 := UInt8.ofNat n

def encodeOctets : List UInt8 → List Char
  | a :: b :: c :: rest =>
    digit (a.toNat / 4) :: digit (a.toNat % 4 * 16 + b.toNat / 16) :: digit (b.toNat % 16 * 4 + c.toNat / 64) ::
      digit (c.toNat % 64) :: encodeOctets rest
  | [a, b] => [digit (a.toNat / 4), digit (a.toNat % 4 * 16 + b.toNat / 16), digit (b.toNat % 16 * 4), '=']
  | [a] => [digit (a.toNat / 4), digit (a.toNat % 4 * 16), '=', '=']
  | [] => []

def decodeChars : List Char → Option (List UInt8)
  | w :: x :: y :: z :: rest =>
    match value w, value x, value y, value z with
    | some p, some q, some r, some s =>
      (decodeChars rest).map fun octets =>
        octet (p * 4 + q / 16) :: octet (q % 16 * 16 + r / 4) :: octet (r % 4 * 64 + s) :: octets
    | some p, some q, some r, none =>
      if z = '=' ∧ rest = [] ∧ r % 4 = 0 then some [octet (p * 4 + q / 16), octet (q % 16 * 16 + r / 4)] else none
    | some p, some q, none, none =>
      if y = '=' ∧ z = '=' ∧ rest = [] ∧ q % 16 = 0 then some [octet (p * 4 + q / 16)] else none
    | _, _, _, _ => none
  | [] => some []
  | _ => none

def encode (octets : List UInt8) : String := String.ofList (encodeOctets octets)

def decode (text : String) : Option (List UInt8) := decodeChars text.toList

/-! ### Digits -/

theorem value_digit {n : Nat} (h : n < 64) : value (digit n) = some n := by
  have hall : ∀ n < 64, value (digit n) = some n := by decide +kernel
  exact hall n h

theorem digit_of_value {char : Char} {n : Nat} (h : value char = some n) : n < 64 ∧ digit n = char := by
  obtain ⟨hlt, hat, -⟩ := List.findIdx?_eq_some_iff_getElem.1 h
  have hlength : alphabet.length = 64 := by decide +kernel
  refine ⟨hlength ▸ hlt, ?_⟩
  unfold digit
  rw [List.getD_eq_getElem?_getD, List.getElem?_eq_getElem hlt]
  simpa using hat

theorem value_pad : value '=' = none := by decide +kernel

theorem octet_toNat (a : UInt8) {n : Nat} (h : n = a.toNat) : octet n = a := by
  rw [octet, h, UInt8.ofNat_toNat]

theorem toNat_octet {n : Nat} (h : n < 256) : (octet n).toNat = n := by
  rw [octet, UInt8.toNat_ofNat']
  omega

/-! ### Round trips -/

theorem decodeChars_encodeOctets (octets : List UInt8) : decodeChars (encodeOctets octets) = some octets := by
  induction octets using encodeOctets.induct with
  | case1 a b c rest ih =>
    have ha := a.toNat_lt
    have hb := b.toNat_lt
    have hc := c.toNat_lt
    rw [encodeOctets, decodeChars, value_digit (by omega), value_digit (by omega), value_digit (by omega),
      value_digit (by omega)]
    dsimp only
    rw [ih, octet_toNat a (by omega), octet_toNat b (by omega), octet_toNat c (by omega)]
    rfl
  | case2 a b =>
    have ha := a.toNat_lt
    have hb := b.toNat_lt
    rw [encodeOctets, decodeChars, value_digit (by omega), value_digit (by omega), value_digit (by omega), value_pad]
    dsimp only
    rw [if_pos ⟨rfl, rfl, by omega⟩, octet_toNat a (by omega), octet_toNat b (by omega)]
  | case3 a =>
    have ha := a.toNat_lt
    rw [encodeOctets, decodeChars, value_digit (by omega), value_digit (by omega), value_pad]
    dsimp only
    rw [if_pos ⟨rfl, rfl, rfl, by omega⟩, octet_toNat a (by omega)]
  | case4 => rfl

theorem encodeOctets_decodeChars : ∀ {text : List Char} {octets : List UInt8}, decodeChars text = some octets →
    encodeOctets octets = text
  | [], octets, h => by
    obtain rfl := Option.some.inj h
    rfl
  | [_], _, h => by cases h
  | [_, _], _, h => by cases h
  | [_, _, _], _, h => by cases h
  | w :: x :: y :: z :: rest, octets, h => by
    rw [decodeChars] at h
    split at h
    · -- a whole quantum
      rename_i p q r s hw hx hy hz
      obtain ⟨more, hmore, rfl⟩ := Option.map_eq_some_iff.1 h
      obtain ⟨hp, rfl⟩ := digit_of_value hw
      obtain ⟨hq, rfl⟩ := digit_of_value hx
      obtain ⟨hr, rfl⟩ := digit_of_value hy
      obtain ⟨hs, rfl⟩ := digit_of_value hz
      rw [encodeOctets, encodeOctets_decodeChars hmore, toNat_octet (by omega), toNat_octet (by omega),
        toNat_octet (by omega), show (p * 4 + q / 16) / 4 = p by omega,
        show (p * 4 + q / 16) % 4 * 16 + (q % 16 * 16 + r / 4) / 16 = q by omega,
        show (q % 16 * 16 + r / 4) % 16 * 4 + (r % 4 * 64 + s) / 64 = r by omega,
        show (r % 4 * 64 + s) % 64 = s by omega]
    · -- two octets and one pad
      rename_i p q r hw hx hy hz
      split_ifs at h with hpad
      obtain ⟨rfl, rfl, hzero⟩ := hpad
      obtain rfl := Option.some.inj h
      obtain ⟨hp, rfl⟩ := digit_of_value hw
      obtain ⟨hq, rfl⟩ := digit_of_value hx
      obtain ⟨hr, rfl⟩ := digit_of_value hy
      rw [encodeOctets, toNat_octet (by omega), toNat_octet (by omega), show (p * 4 + q / 16) / 4 = p by omega,
        show (p * 4 + q / 16) % 4 * 16 + (q % 16 * 16 + r / 4) / 16 = q by omega,
        show (q % 16 * 16 + r / 4) % 16 * 4 = r by omega]
    · -- one octet and two pads
      rename_i p q hw hx hy hz
      split_ifs at h with hpad
      obtain ⟨rfl, rfl, rfl, hzero⟩ := hpad
      obtain rfl := Option.some.inj h
      obtain ⟨hp, rfl⟩ := digit_of_value hw
      obtain ⟨hq, rfl⟩ := digit_of_value hx
      rw [encodeOctets, toNat_octet (by omega), show (p * 4 + q / 16) / 4 = p by omega,
        show (p * 4 + q / 16) % 4 * 16 = q by omega]
    · cases h

theorem decode_encode (octets : List UInt8) : decode (encode octets) = some octets := by
  rw [decode, encode, String.toList_ofList, decodeChars_encodeOctets]

theorem encode_decode {text : String} {octets : List UInt8} (h : decode text = some octets) : encode octets = text := by
  rw [encode, encodeOctets_decodeChars h, String.ofList_toList]

end AhlMirror.Core.Base64
