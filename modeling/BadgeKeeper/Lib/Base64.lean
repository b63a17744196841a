import Mathlib.Tactic

/-!
Base64 in UTF-16 text. Three bytes are four digits of six bits; a last group of
one or two bytes is filled up with padding. The decoder passes over the units
that are neither digits nor padding, so a text may be broken into lines.
-/

namespace Base64

inductive Symbol where
  | digit (value : Fin 64)
  | pad
deriving DecidableEq

/-- The digit of the lowest six bits. -/
def digit (n : Nat) : Symbol := .digit (Fin.ofNat 64 n)

def Symbol.unit : Symbol → UInt16
  | .pad => 0x3D
  | .digit value =>
      if value.val < 26 then UInt16.ofNat (0x41 + value.val)
      else if value.val < 52 then UInt16.ofNat (0x61 + (value.val - 26))
      else if value.val < 62 then UInt16.ofNat (0x30 + (value.val - 52))
      else if value.val = 62 then 0x2B
      else 0x2F

/-- What a unit stands for, none for a unit outside the alphabet. -/
def symbol? (unit : UInt16) : Option Symbol :=
  if unit = 0x3D then some .pad
  else if 0x41 ≤ unit ∧ unit ≤ 0x5A then some (digit (unit.toNat - 0x41))
  else if 0x61 ≤ unit ∧ unit ≤ 0x7A then some (digit (unit.toNat - 0x61 + 26))
  else if 0x30 ≤ unit ∧ unit ≤ 0x39 then some (digit (unit.toNat - 0x30 + 52))
  else if unit = 0x2B then some (digit 62)
  else if unit = 0x2F then some (digit 63)
  else none

theorem symbol?_unit (symbol : Symbol) : symbol? symbol.unit = some symbol := by
  cases symbol with
  | pad => rfl
  | digit value => revert value; decide

/-- The symbols of bytes, three bytes at a time. -/
def symbols : List UInt8 → List Symbol
  | [] => []
  | [a] => [digit (a.toNat / 4), digit (a.toNat % 4 * 16), .pad, .pad]
  | [a, b] =>
      [digit (a.toNat / 4), digit (a.toNat % 4 * 16 + b.toNat / 16),
        digit (b.toNat % 16 * 4), .pad]
  | a :: b :: c :: rest =>
      digit (a.toNat / 4) :: digit (a.toNat % 4 * 16 + b.toNat / 16) ::
        digit (b.toNat % 16 * 4 + c.toNat / 64) :: digit (c.toNat % 64) :: symbols rest

/-- The first byte of a group, from its first two digits. -/
def firstByte (w x : Fin 64) : UInt8 := UInt8.ofNat (w.val * 4 + x.val / 16)

def secondByte (x y : Fin 64) : UInt8 := UInt8.ofNat (x.val % 16 * 16 + y.val / 4)

def thirdByte (y z : Fin 64) : UInt8 := UInt8.ofNat (y.val % 4 * 64 + z.val)

/-- The bytes of symbols. Groups are full, and only the last one is padded. -/
def bytes : List Symbol → Option (List UInt8)
  | [] => some []
  | [.digit w, .digit x, .pad, .pad] => some [firstByte w x]
  | [.digit w, .digit x, .digit y, .pad] => some [firstByte w x, secondByte x y]
  | .digit w :: .digit x :: .digit y :: .digit z :: rest =>
      (bytes rest).map fun more => firstByte w x :: secondByte x y :: thirdByte y z :: more
  | _ => none

section

variable (a b c : UInt8) (n : Nat)

theorem firstByte_digits (h : n < 16) :
    firstByte (Fin.ofNat 64 (a.toNat / 4)) (Fin.ofNat 64 (a.toNat % 4 * 16 + n)) = a := by
  have hsize := a.toNat_lt
  have hbyte : a.toNat / 4 % 64 * 4 + (a.toNat % 4 * 16 + n) % 64 / 16 = a.toNat := by omega
  rw [firstByte, Fin.val_ofNat, Fin.val_ofNat, hbyte, UInt8.ofNat_toNat]

theorem secondByte_digits (h : n < 4) :
    secondByte (Fin.ofNat 64 (a.toNat % 4 * 16 + b.toNat / 16))
      (Fin.ofNat 64 (b.toNat % 16 * 4 + n)) = b := by
  have hsize := b.toNat_lt
  have hbyte : (a.toNat % 4 * 16 + b.toNat / 16) % 64 % 16 * 16 +
      (b.toNat % 16 * 4 + n) % 64 / 4 = b.toNat := by omega
  rw [secondByte, Fin.val_ofNat, Fin.val_ofNat, hbyte, UInt8.ofNat_toNat]

theorem thirdByte_digits :
    thirdByte (Fin.ofNat 64 (b.toNat % 16 * 4 + c.toNat / 64))
      (Fin.ofNat 64 (c.toNat % 64)) = c := by
  have hsize := c.toNat_lt
  have hbyte : (b.toNat % 16 * 4 + c.toNat / 64) % 64 % 4 * 64 + c.toNat % 64 % 64 =
      c.toNat := by omega
  rw [thirdByte, Fin.val_ofNat, Fin.val_ofNat, hbyte, UInt8.ofNat_toNat]

end

/-- Group by group, the bytes of the symbols of some bytes are these bytes. -/
theorem bytes_symbols (data : List UInt8) : bytes (symbols data) = some data := by
  induction data using symbols.induct with
  | case1 => rfl
  | case2 a =>
      have hfirst := firstByte_digits a 0 (by omega)
      simp only [Nat.add_zero] at hfirst
      simp only [symbols, digit, bytes, hfirst]
  | case3 a b =>
      have hsize := b.toNat_lt
      have hfirst := firstByte_digits a (b.toNat / 16) (by omega)
      have hsecond := secondByte_digits a b 0 (by omega)
      simp only [Nat.add_zero] at hsecond
      simp only [symbols, digit, bytes, hfirst, hsecond]
  | case4 a b c rest ih =>
      have hlow := b.toNat_lt
      have hhigh := c.toNat_lt
      have hfirst := firstByte_digits a (b.toNat / 16) (by omega)
      have hsecond := secondByte_digits a b (c.toNat / 64) (by omega)
      have hthird := thirdByte_digits b c
      simp only [symbols, digit, bytes, ih, hfirst, hsecond, hthird, Option.map_some]

def known (unit : UInt16) : Bool := (symbol? unit).isSome

def encode (data : List UInt8) : List UInt16 := (symbols data).map Symbol.unit

/-- The text is that of the data, broken anywhere by unknown units. -/
def Holds (text : List UInt16) (data : List UInt8) : Prop := text.filter known = encode data

def decode (text : List UInt16) : Option (List UInt8) := bytes (text.filterMap symbol?)

theorem filterMap_filter_known (text : List UInt16) :
    (text.filter known).filterMap symbol? = text.filterMap symbol? := by
  rw [List.filterMap_filter]
  apply List.filterMap_congr
  intro unit _
  cases hsymbol : symbol? unit <;> simp [known, hsymbol]

theorem filterMap_encode (data : List UInt8) :
    (encode data).filterMap symbol? = symbols data := by
  have hback : symbol? ∘ Symbol.unit = some := funext symbol?_unit
  rw [encode, List.filterMap_map, hback, List.filterMap_some]

/-- Wherever the text of some data is broken, it is decoded to them. -/
theorem Holds.decode {text : List UInt16} {data : List UInt8} (h : Holds text data) :
    decode text = some data := by
  rw [Base64.decode, ← filterMap_filter_known, h, filterMap_encode, bytes_symbols]

end Base64
