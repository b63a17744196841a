import Mathlib.Tactic

/-!
Percent-encoding of bytes. Which bytes stand for themselves is a parameter: a
URL component has its own set, and all that decoding needs of the set is that
the percent sign is not in it.
-/

namespace Percent

def percent : UInt8 := 0x25

/-- A set of bytes that are left as they are. -/
structure Allowed where
  allows : UInt8 → Bool
  percent : allows Percent.percent = false

/-- The upper-case hexadecimal digit. -/
def hexDigit (n : Nat) : UInt8 := UInt8.ofNat (if n < 10 then 0x30 + n else 0x37 + n)

/-- The value of a hexadecimal digit of either case. -/
def hexValue (unit : UInt8) : Option Nat :=
  if 0x30 ≤ unit ∧ unit ≤ 0x39 then some (unit.toNat - 0x30)
  else if 0x41 ≤ unit ∧ unit ≤ 0x46 then some (unit.toNat - 0x37)
  else if 0x61 ≤ unit ∧ unit ≤ 0x66 then some (unit.toNat - 0x57)
  else none

def encodeByte (allowed : Allowed) (byte : UInt8) : List UInt8 :=
  if allowed.allows byte then [byte]
  else [percent, hexDigit (byte.toNat / 16), hexDigit (byte.toNat % 16)]

def encode (allowed : Allowed) (bytes : List UInt8) : List UInt8 :=
  bytes.flatMap (encodeByte allowed)

/-- The inverse, which refuses a percent sign without two digits behind it. -/
def decode : List UInt8 → Option (List UInt8)
  | [] => some []
  | unit :: rest =>
      if unit = percent then
        match rest with
        | high :: low :: rest =>
            match hexValue high, hexValue low with
            | some high, some low => (decode rest).map (UInt8.ofNat (16 * high + low) :: ·)
            | _, _ => none
        | _ => none
      else (decode rest).map (unit :: ·)

theorem hexValue_hexDigit {n : Nat} (h : n < 16) : hexValue (hexDigit n) = some n := by
  interval_cases n <;> rfl

variable (allowed : Allowed)

theorem decode_encodeByte_append (byte : UInt8) (rest : List UInt8) :
    decode (encodeByte allowed byte ++ rest) = (decode rest).map (byte :: ·) := by
  unfold encodeByte
  split
  · next hallowed =>
      have hbyte : byte ≠ percent := by
        rintro rfl
        rw [allowed.percent] at hallowed
        cases hallowed
      rw [List.singleton_append, decode.eq_def]
      simp only [if_neg hbyte]
  · have hsize := byte.toNat_lt
    have hhigh : byte.toNat / 16 < 16 := by omega
    have hlow : byte.toNat % 16 < 16 := by omega
    have hboth : 16 * (byte.toNat / 16) + byte.toNat % 16 = byte.toNat := by omega
    rw [decode.eq_def]
    simp only [List.cons_append, List.nil_append, if_true, hexValue_hexDigit hhigh,
      hexValue_hexDigit hlow, hboth, UInt8.ofNat_toNat]

/-- Encoded bytes are decoded to themselves. -/
theorem decode_encode (bytes : List UInt8) : decode (encode allowed bytes) = some bytes := by
  induction bytes with
  | nil => rfl
  | cons byte rest ih =>
      have hsplit : encode allowed (byte :: rest) =
          encodeByte allowed byte ++ encode allowed rest := rfl
      rw [hsplit, decode_encodeByte_append, ih]
      rfl

/-- A byte that is not allowed, not a digit and not the percent sign does not
occur in encoded bytes. -/
theorem not_mem_encode {unit : UInt8} (hunit : allowed.allows unit = false)
    (hpercent : unit ≠ percent) (hdigit : hexValue unit = none) (bytes : List UInt8) :
    unit ∉ encode allowed bytes := by
  have hhex {n : Nat} (h : n < 16) : unit ≠ hexDigit n := by
    rintro rfl
    rw [hexValue_hexDigit h] at hdigit
    cases hdigit
  intro hmem
  obtain ⟨byte, _, hbyte⟩ := List.mem_flatMap.mp hmem
  unfold encodeByte at hbyte
  split at hbyte
  · next hallowed =>
      rw [List.mem_singleton] at hbyte
      rw [hbyte, hallowed] at hunit
      cases hunit
  · have hsize := byte.toNat_lt
    simp only [List.mem_cons, List.not_mem_nil, or_false] at hbyte
    rcases hbyte with hsame | hsame | hsame
    · exact hpercent hsame
    · apply hhex _ hsame
      omega
    · apply hhex _ hsame
      omega

end Percent
