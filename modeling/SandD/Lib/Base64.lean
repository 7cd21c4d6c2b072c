import Mathlib.Data.List.Basic

/-!
# Base64

The engine `STANDARD`: the alphabet with `+` and `/`, canonical padding, and no stray bits.

* `encode`, `decode`; `decode_encode`: a round trip.
-/

namespace SandD.Base64

/-- The character of six bits. -/
def char (n : ℕ) : Char :=
  if n < 26 then Char.ofNat ('A'.toNat + n)
  else if n < 52 then Char.ofNat ('a'.toNat + (n - 26))
  else if n < 62 then Char.ofNat ('0'.toNat + (n - 52))
  else if n = 62 then '+'
  else '/'

/-- The six bits of a character of the alphabet. -/
def bits (c : Char) : Option ℕ :=
  if 'A' ≤ c ∧ c ≤ 'Z' then some (c.toNat - 'A'.toNat)
  else if 'a' ≤ c ∧ c ≤ 'z' then some (c.toNat - 'a'.toNat + 26)
  else if '0' ≤ c ∧ c ≤ '9' then some (c.toNat - '0'.toNat + 52)
  else if c = '+' then some 62
  else if c = '/' then some 63
  else none

/-- Three bytes are four characters. -/
def encodeChars : List UInt8 → List Char
  | [] => []
  | [a] => [char (a.toNat / 4), char (a.toNat % 4 * 16), '=', '=']
  | [a, b] =>
    [char (a.toNat / 4), char (a.toNat % 4 * 16 + b.toNat / 16), char (b.toNat % 16 * 4), '=']
  | a :: b :: c :: rest =>
    char (a.toNat / 4) :: char (a.toNat % 4 * 16 + b.toNat / 16) ::
      char (b.toNat % 16 * 4 + c.toNat / 64) :: char (c.toNat % 64) :: encodeChars rest

/-- Four characters are three bytes, or fewer at the end; the bits that are left over are zero. -/
def decodeChars : List Char → Option (List UInt8)
  | [] => some []
  | p :: q :: r :: s :: rest => do
    let p ← bits p
    let q ← bits q
    if s = '=' then
      if rest ≠ [] then none
      else if r = '=' then
        if q % 16 = 0 then some [.ofNat (p * 4 + q / 16)] else none
      else
        let r ← bits r
        if r % 4 = 0 then some [.ofNat (p * 4 + q / 16), .ofNat (q % 16 * 16 + r / 4)] else none
    else
      let r ← bits r
      let s ← bits s
      let bytes ← decodeChars rest
      some (.ofNat (p * 4 + q / 16) :: .ofNat (q % 16 * 16 + r / 4) ::
        .ofNat (r % 4 * 64 + s) :: bytes)
  | _ => none

def encode (bytes : List UInt8) : String := String.ofList (encodeChars bytes)

def decode (s : String) : Option (List UInt8) := decodeChars s.toList

theorem bits_char {n : ℕ} (hn : n < 64) : bits (char n) = some n := by
  have hall : ∀ n < 64, bits (char n) = some n := by decide
  exact hall n hn

theorem char_ne_pad {n : ℕ} (hn : n < 64) : char n ≠ '=' := by
  intro h
  have hbits := bits_char hn
  rw [h] at hbits
  cases hbits

theorem ofNat_eq {n : ℕ} {a : UInt8} (h : n = a.toNat) : UInt8.ofNat n = a := by
  rw [h]
  exact UInt8.ofNat_toNat

theorem decodeChars_encodeChars (bytes : List UInt8) :
    decodeChars (encodeChars bytes) = some bytes := by
  induction bytes using encodeChars.induct with
  | case1 => rfl
  | case2 a =>
    have ha := a.toNat_lt
    have hp : a.toNat / 4 < 64 := by omega
    have hq : a.toNat % 4 * 16 < 64 := by omega
    have hbyte : UInt8.ofNat (a.toNat / 4 * 4 + a.toNat % 4 * 16 / 16) = a :=
      ofNat_eq (by omega)
    have hrest : a.toNat % 4 * 16 % 16 = 0 := by omega
    simp only [encodeChars, decodeChars, bits_char hp, bits_char hq, Option.bind_eq_bind,
      Option.bind_some, if_true, hrest, hbyte, ne_eq, not_true_eq_false, if_false]
  | case3 a b =>
    have ha := a.toNat_lt
    have hb := b.toNat_lt
    have hp : a.toNat / 4 < 64 := by omega
    have hq : a.toNat % 4 * 16 + b.toNat / 16 < 64 := by omega
    have hr : b.toNat % 16 * 4 < 64 := by omega
    have hbyte : UInt8.ofNat (a.toNat / 4 * 4 + (a.toNat % 4 * 16 + b.toNat / 16) / 16) = a :=
      ofNat_eq (by omega)
    have hbyte' : UInt8.ofNat ((a.toNat % 4 * 16 + b.toNat / 16) % 16 * 16 +
        b.toNat % 16 * 4 / 4) = b := ofNat_eq (by omega)
    have hrest : b.toNat % 16 * 4 % 4 = 0 := by omega
    simp only [encodeChars, decodeChars, bits_char hp, bits_char hq, bits_char hr,
      Option.bind_eq_bind, Option.bind_some, if_true, hrest, hbyte, hbyte', ne_eq,
      not_true_eq_false, if_false, char_ne_pad hr]
  | case4 a b c rest ih =>
    have ha := a.toNat_lt
    have hb := b.toNat_lt
    have hc := c.toNat_lt
    have hp : a.toNat / 4 < 64 := by omega
    have hq : a.toNat % 4 * 16 + b.toNat / 16 < 64 := by omega
    have hr : b.toNat % 16 * 4 + c.toNat / 64 < 64 := by omega
    have hs : c.toNat % 64 < 64 := by omega
    have hbyte : UInt8.ofNat (a.toNat / 4 * 4 + (a.toNat % 4 * 16 + b.toNat / 16) / 16) = a :=
      ofNat_eq (by omega)
    have hbyte' : UInt8.ofNat ((a.toNat % 4 * 16 + b.toNat / 16) % 16 * 16 +
        (b.toNat % 16 * 4 + c.toNat / 64) / 4) = b := ofNat_eq (by omega)
    have hbyte'' : UInt8.ofNat ((b.toNat % 16 * 4 + c.toNat / 64) % 4 * 64 + c.toNat % 64) = c :=
      ofNat_eq (by omega)
    simp only [encodeChars, decodeChars, bits_char hp, bits_char hq, bits_char hr, bits_char hs,
      Option.bind_eq_bind, Option.bind_some, hbyte, hbyte', hbyte'', char_ne_pad hs, if_false, ih]

/-- **What was encoded is decoded.** -/
theorem decode_encode (bytes : List UInt8) : decode (encode bytes) = some bytes := by
  rw [decode, encode, String.toList_ofList]
  exact decodeChars_encodeChars bytes

example : encode [0, 1, 255, 254] = "AAH//g==" := by decide +kernel

end SandD.Base64
