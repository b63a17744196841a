import Mathlib.Tactic

/-!
UTF-16 as a list of code units, with unpaired surrogates allowed, and its
partial translation to Unicode scalar values. `decode` fails exactly on the
lists that contain an unpaired surrogate, and on the others it inverts
`encode`.
-/

namespace Unicode

abbrev Utf16 := List UInt16

def isHighSurrogate (unit : UInt16) : Bool :=
  decide (0xD800 ≤ unit.toNat ∧ unit.toNat < 0xDC00)

def isLowSurrogate (unit : UInt16) : Bool :=
  decide (0xDC00 ≤ unit.toNat ∧ unit.toNat < 0xE000)

/-- One code unit inside the basic plane, a surrogate pair above it. -/
def encodeChar (c : Char) : Utf16 :=
  if c.toNat < 0x10000 then [UInt16.ofNat c.toNat]
  else
    [UInt16.ofNat (0xD800 + (c.toNat - 0x10000) / 0x400),
      UInt16.ofNat (0xDC00 + (c.toNat - 0x10000) % 0x400)]

def encode (text : List Char) : Utf16 := text.flatMap encodeChar

def combine (high low : UInt16) : Char :=
  Char.ofNat (0x10000 + (high.toNat - 0xD800) * 0x400 + (low.toNat - 0xDC00))

def decode : Utf16 → Option (List Char)
  | [] => some []
  | unit :: rest =>
      if isHighSurrogate unit then
        match rest with
        | [] => none
        | next :: rest =>
            if isLowSurrogate next then (decode rest).map (combine unit next :: ·)
            else none
      else if isLowSurrogate unit then none
      else (decode rest).map (Char.ofNat unit.toNat :: ·)

@[simp] theorem encode_nil : encode [] = [] := rfl

@[simp] theorem encode_cons (c : Char) (text : List Char) :
    encode (c :: text) = encodeChar c ++ encode text := rfl

private theorem scalar_bounds (c : Char) :
    c.toNat < 0xD800 ∨ (0xE000 ≤ c.toNat ∧ c.toNat < 0x110000) := by
  have hvalid : c.toNat.isValidChar := c.valid
  unfold Nat.isValidChar at hvalid
  omega

private theorem ofNat_toNat_of_lt {n : Nat} (h : n < 0x10000) :
    (UInt16.ofNat n).toNat = n := by
  simp only [UInt16.toNat_ofNat']
  omega

private theorem toNat_ofNat_of_valid {n : Nat} (h : n.isValidChar) :
    (Char.ofNat n).toNat = n := by
  rw [Char.ofNat, dif_pos h]
  rfl

/-- A code unit that is no surrogate stands for itself. -/
theorem decode_cons_plain {unit : UInt16} (rest : Utf16)
    (hhigh : isHighSurrogate unit = false) (hlow : isLowSurrogate unit = false) :
    decode (unit :: rest) = (decode rest).map (Char.ofNat unit.toNat :: ·) := by
  rw [decode.eq_def]
  simp [hhigh, hlow]

theorem decode_cons_low {unit : UInt16} (rest : Utf16)
    (hhigh : isHighSurrogate unit = false) (hlow : isLowSurrogate unit = true) :
    decode (unit :: rest) = none := by
  rw [decode.eq_def]
  simp [hhigh, hlow]

theorem decode_encodeChar_append (c : Char) (rest : Utf16) :
    decode (encodeChar c ++ rest) = (decode rest).map (c :: ·) := by
  have hc := scalar_bounds c
  by_cases hplane : c.toNat < 0x10000
  · have hunit : (UInt16.ofNat c.toNat).toNat = c.toNat := ofNat_toNat_of_lt hplane
    have hhigh : isHighSurrogate (UInt16.ofNat c.toNat) = false := by
      simp only [isHighSurrogate, hunit, decide_eq_false_iff_not]
      omega
    have hlow : isLowSurrogate (UInt16.ofNat c.toNat) = false := by
      simp only [isLowSurrogate, hunit, decide_eq_false_iff_not]
      omega
    simp only [encodeChar, hplane, if_true, List.cons_append, List.nil_append]
    rw [decode_cons_plain rest hhigh hlow, hunit, Char.ofNat_toNat]
  · have hhighNat : (UInt16.ofNat (0xD800 + (c.toNat - 0x10000) / 0x400)).toNat =
        0xD800 + (c.toNat - 0x10000) / 0x400 := ofNat_toNat_of_lt (by omega)
    have hlowNat : (UInt16.ofNat (0xDC00 + (c.toNat - 0x10000) % 0x400)).toNat =
        0xDC00 + (c.toNat - 0x10000) % 0x400 := ofNat_toNat_of_lt (by omega)
    have hhigh : isHighSurrogate
        (UInt16.ofNat (0xD800 + (c.toNat - 0x10000) / 0x400)) = true := by
      simp only [isHighSurrogate, hhighNat, decide_eq_true_eq]
      omega
    have hlow : isLowSurrogate
        (UInt16.ofNat (0xDC00 + (c.toNat - 0x10000) % 0x400)) = true := by
      simp only [isLowSurrogate, hlowNat, decide_eq_true_eq]
      omega
    have hcombine : combine (UInt16.ofNat (0xD800 + (c.toNat - 0x10000) / 0x400))
        (UInt16.ofNat (0xDC00 + (c.toNat - 0x10000) % 0x400)) = c := by
      have hsum : 0x10000 + (0xD800 + (c.toNat - 0x10000) / 0x400 - 0xD800) * 0x400 +
          (0xDC00 + (c.toNat - 0x10000) % 0x400 - 0xDC00) = c.toNat := by omega
      simp only [combine, hhighNat, hlowNat]
      rw [hsum, Char.ofNat_toNat]
    simp only [encodeChar, hplane, if_false, List.cons_append, List.nil_append,
      decode, hhigh, hlow, hcombine, if_true]

/-- An encoded prefix decodes to itself, whatever follows. -/
theorem decode_encode_append (text : List Char) (rest : Utf16) :
    decode (encode text ++ rest) = (decode rest).map (text ++ ·) := by
  induction text with
  | nil => simp
  | cons c text ih =>
      rw [encode_cons, List.append_assoc, decode_encodeChar_append, ih]
      simp [Function.comp_def]

theorem decode_encode (text : List Char) : decode (encode text) = some text := by
  simpa [decode] using decode_encode_append text []

private theorem encodeChar_plain {unit : UInt16}
    (hhigh : isHighSurrogate unit = false) (hlow : isLowSurrogate unit = false) :
    encodeChar (Char.ofNat unit.toNat) = [unit] := by
  have hlt := unit.toNat_lt
  simp only [isHighSurrogate, isLowSurrogate, decide_eq_false_iff_not] at hhigh hlow
  have hvalid : unit.toNat.isValidChar := by
    unfold Nat.isValidChar
    omega
  have hnat : (Char.ofNat unit.toNat).toNat = unit.toNat := by
    exact toNat_ofNat_of_valid hvalid
  simp [encodeChar, hnat, hlt]

private theorem encodeChar_combine {high low : UInt16}
    (hhigh : isHighSurrogate high = true) (hlow : isLowSurrogate low = true) :
    encodeChar (combine high low) = [high, low] := by
  simp only [isHighSurrogate, isLowSurrogate, decide_eq_true_eq] at hhigh hlow
  have hvalid : (0x10000 + (high.toNat - 0xD800) * 0x400 +
      (low.toNat - 0xDC00)).isValidChar := by
    unfold Nat.isValidChar
    omega
  have hnat : (combine high low).toNat =
      0x10000 + (high.toNat - 0xD800) * 0x400 + (low.toNat - 0xDC00) := by
    exact toNat_ofNat_of_valid hvalid
  have hplane : ¬ (combine high low).toNat < 0x10000 := by omega
  have hfirst : 0xD800 + ((combine high low).toNat - 0x10000) / 0x400 =
      high.toNat := by omega
  have hsecond : 0xDC00 + ((combine high low).toNat - 0x10000) % 0x400 =
      low.toNat := by omega
  simp only [encodeChar, hplane, if_false, hfirst, hsecond, UInt16.ofNat_toNat]

/-- Decoding loses nothing: what it yields encodes back to the same units. -/
theorem encode_of_decode {units : Utf16} {text : List Char}
    (h : decode units = some text) : encode text = units := by
  induction units using decode.induct generalizing text with
  | case1 =>
      cases h
      rfl
  | case2 unit hhigh =>
      simp [decode, hhigh] at h
  | case3 unit hhigh next rest hlow ih =>
      simp only [decode, hhigh, hlow, if_true, Option.map_eq_some_iff] at h
      obtain ⟨tail, htail, rfl⟩ := h
      rw [encode_cons, encodeChar_combine hhigh hlow, ih htail]
      rfl
  | case4 unit hhigh next rest hlow =>
      simp [decode, hhigh, hlow] at h
  | case5 unit rest hhigh hlow =>
      rw [Bool.not_eq_true] at hhigh
      rw [decode_cons_low rest hhigh hlow] at h
      cases h
  | case6 unit rest hhigh hlow ih =>
      rw [Bool.not_eq_true] at hhigh hlow
      rw [decode_cons_plain rest hhigh hlow, Option.map_eq_some_iff] at h
      obtain ⟨tail, htail, rfl⟩ := h
      rw [encode_cons, encodeChar_plain hhigh hlow, ih htail]
      rfl

/-- A code unit that is no surrogate cannot complete a pair, so a list splits
in front of it. -/
theorem decode_append_plain (units : Utf16) {unit : UInt16} (rest : Utf16)
    (hlow : isLowSurrogate unit = false) :
    decode (units ++ unit :: rest) =
      (decode units).bind fun text =>
        (decode (unit :: rest)).map (text ++ ·) := by
  induction units using decode.induct with
  | case1 => simp [decode]
  | case2 first hfirst =>
      simp [decode, hfirst, hlow]
  | case3 first hfirst next tail hnext ih =>
      simp only [List.cons_append, decode, hfirst, hnext, if_true]
      rw [ih]
      cases decode tail <;> simp [Function.comp_def]
  | case4 first hfirst next tail hnext =>
      simp [decode, hfirst, hnext]
  | case5 first tail hfirst hnext =>
      rw [Bool.not_eq_true] at hfirst
      rw [List.cons_append, decode_cons_low _ hfirst hnext,
        decode_cons_low _ hfirst hnext]
      rfl
  | case6 first tail hfirst hnext ih =>
      rw [Bool.not_eq_true] at hfirst hnext
      rw [List.cons_append, decode_cons_plain _ hfirst hnext, ih,
        decode_cons_plain _ hfirst hnext]
      cases decode tail <;> simp [Function.comp_def]

/-- No unpaired surrogate. -/
def WellFormed (units : Utf16) : Prop := (decode units).isSome

instance (units : Utf16) : Decidable (WellFormed units) :=
  inferInstanceAs (Decidable ((decode units).isSome = true))

def IsScalar (unit : UInt16) : Prop :=
  isHighSurrogate unit = false ∧ isLowSurrogate unit = false

instance (unit : UInt16) : Decidable (IsScalar unit) :=
  inferInstanceAs (Decidable (_ ∧ _))

theorem wellFormed_nil : WellFormed [] := rfl

theorem wellFormed_cons {unit : UInt16} (hunit : IsScalar unit) (rest : Utf16) :
    WellFormed (unit :: rest) ↔ WellFormed rest := by
  simp [WellFormed, decode_cons_plain rest hunit.1 hunit.2]

theorem wellFormed_append_cons (units : Utf16) {unit : UInt16} (hunit : IsScalar unit)
    (rest : Utf16) :
    WellFormed (units ++ unit :: rest) ↔ WellFormed units ∧ WellFormed rest := by
  rw [← wellFormed_cons hunit rest]
  simp only [WellFormed, decode_append_plain units rest hunit.2]
  cases decode units <;> simp

theorem wellFormed_encode (text : List Char) : WellFormed (encode text) := by
  rw [WellFormed, decode_encode]
  rfl

/-- Well-formed text in front changes nothing. -/
theorem wellFormed_append {front : Utf16} (hfront : WellFormed front) (rest : Utf16) :
    WellFormed (front ++ rest) ↔ WellFormed rest := by
  obtain ⟨text, htext⟩ := Option.isSome_iff_exists.mp hfront
  rw [← encode_of_decode htext]
  simp [WellFormed, decode_encode_append]

theorem wellFormed_of_scalars {units : Utf16} (h : ∀ unit ∈ units, IsScalar unit) :
    WellFormed units := by
  induction units with
  | nil => exact wellFormed_nil
  | cons unit units ih =>
      obtain ⟨hunit, hunits⟩ := List.forall_mem_cons.mp h
      exact (wellFormed_cons hunit units).mpr (ih hunits)

theorem wellFormed_intercalate {separator : UInt16} (hseparator : IsScalar separator)
    (parts : List Utf16) :
    WellFormed ([separator].intercalate parts) ↔ ∀ part ∈ parts, WellFormed part := by
  induction parts with
  | nil => simp [wellFormed_nil]
  | cons part parts ih =>
      cases parts with
      | nil => simp
      | cons next parts =>
          rw [List.intercalate_cons_cons, List.append_assoc, List.singleton_append,
            wellFormed_append_cons part hseparator, ih]
          simp

/-- The UTF-8 form of a text, if it has one. -/
def toUtf8 (units : Utf16) : Option (List UInt8) :=
  (decode units).map fun text => (String.ofList text).toUTF8.data.toList

def ofUtf8 (bytes : List UInt8) : Option Utf16 :=
  (String.fromUTF8? ⟨bytes.toArray⟩).map fun text => encode text.toList

theorem ofUtf8_of_toUtf8 {units : Utf16} {bytes : List UInt8} (h : toUtf8 units = some bytes) :
    ofUtf8 bytes = some units := by
  obtain ⟨text, hdecode, rfl⟩ := Option.map_eq_some_iff.mp h
  have hread : String.fromUTF8? (String.ofList text).toUTF8 = some (String.ofList text) := by
    simp only [String.fromUTF8?, String.toUTF8_eq_toByteArray]
    rw [dif_pos (String.ofList text).isValidUTF8]
    rfl
  have hdata : (⟨(String.ofList text).toUTF8.data.toList.toArray⟩ : ByteArray) =
      (String.ofList text).toUTF8 := rfl
  rw [ofUtf8, hdata, hread, Option.map_some, String.toList_ofList, encode_of_decode hdecode]

theorem toUtf8_of_wellFormed {units : Utf16} (h : WellFormed units) :
    ∃ bytes, toUtf8 units = some bytes := by
  obtain ⟨text, hdecode⟩ := Option.isSome_iff_exists.mp h
  exact ⟨_, by rw [toUtf8, hdecode]; rfl⟩

theorem toUtf8_of_not_wellFormed {units : Utf16} (h : ¬ WellFormed units) :
    toUtf8 units = none := by
  rw [toUtf8, Option.not_isSome_iff_eq_none.mp h, Option.map_none]

end Unicode
