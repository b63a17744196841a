import Mathlib.Data.List.TakeWhile
import BadgeKeeper.Lib.Json

/-!
The JSON text format, as a reader of UTF-16. A number is read as its token and
not interpreted. The lemmas are for text that was put together from templates:
a list of elements is read element by element, and text inserted between two
quotes is read back as itself exactly when it needed no escapes.
-/

namespace JsonText

open Unicode

variable {α β : Type}

def quote : UInt16 := 0x22

def backslash : UInt16 := 0x5C

def comma : UInt16 := 0x2C

def colon : UInt16 := 0x3A

def openBracket : UInt16 := 0x5B

def closeBracket : UInt16 := 0x5D

def openBrace : UInt16 := 0x7B

def closeBrace : UInt16 := 0x7D

def minus : UInt16 := 0x2D

/-- Space, tab, line feed and carriage return. -/
def isSpace (unit : UInt16) : Bool :=
  unit == 0x20 || unit == 0x09 || unit == 0x0A || unit == 0x0D

def skipSpace (text : Utf16) : Utf16 := text.dropWhile isSpace

def hexDigit? (unit : UInt16) : Option Nat :=
  if 0x30 ≤ unit ∧ unit ≤ 0x39 then some (unit.toNat - 0x30)
  else if 0x41 ≤ unit ∧ unit ≤ 0x46 then some (unit.toNat - 0x41 + 10)
  else if 0x61 ≤ unit ∧ unit ≤ 0x66 then some (unit.toNat - 0x61 + 10)
  else none

/-- The code unit that four hexadecimal digits denote. -/
def hexUnit? (a b c d : UInt16) : Option UInt16 := do
  let a ← hexDigit? a
  let b ← hexDigit? b
  let c ← hexDigit? c
  let d ← hexDigit? d
  return UInt16.ofNat (((a * 16 + b) * 16 + c) * 16 + d)

/-- The two-character escapes. -/
def escape? (unit : UInt16) : Option UInt16 :=
  if unit = quote ∨ unit = backslash ∨ unit = 0x2F then some unit
  else if unit = 0x62 then some 0x08
  else if unit = 0x66 then some 0x0C
  else if unit = 0x6E then some 0x0A
  else if unit = 0x72 then some 0x0D
  else if unit = 0x74 then some 0x09
  else none

/-- Read a string behind its opening quote, up to and with the closing one. -/
def string : Utf16 → Option (Utf16 × Utf16)
  | [] => none
  | unit :: rest =>
      if unit = quote then some ([], rest)
      else if unit = backslash then
        match rest with
        | [] => none
        | kind :: rest =>
            if kind = 0x75 then
              match rest with
              | a :: b :: c :: d :: rest => do
                  let unit ← hexUnit? a b c d
                  let (units, rest) ← string rest
                  return (unit :: units, rest)
              | _ => none
            else do
              let unit ← escape? kind
              let (units, rest) ← string rest
              return (unit :: units, rest)
      else if unit < 0x20 then none
      else do
        let (units, rest) ← string rest
        return (unit :: units, rest)

/-- Text that stands for itself between quotes. -/
def Plain (text : Utf16) : Prop :=
  ∀ unit ∈ text, unit ≠ quote ∧ unit ≠ backslash ∧ ¬ unit < 0x20

instance (text : Utf16) : Decidable (Plain text) :=
  List.decidableBAll (fun unit => unit ≠ quote ∧ unit ≠ backslash ∧ ¬ unit < 0x20) text

def isDigit (unit : UInt16) : Bool := decide (0x30 ≤ unit ∧ unit ≤ 0x39)

/-- Digits, signs, the decimal point and the exponent marks. -/
def isNumberUnit (unit : UInt16) : Bool :=
  isDigit unit || unit == minus || unit == 0x2B || unit == 0x2E ||
    unit == 0x65 || unit == 0x45

/-- At least one digit and nothing else. -/
def isDigits (token : Utf16) : Bool := token ≠ [] && token.all isDigit

def isExponent : Utf16 → Bool
  | [] => true
  | mark :: rest =>
      (mark == 0x65 || mark == 0x45) &&
        match rest with
        | [] => false
        | sign :: digits =>
            if sign = minus ∨ sign = 0x2B then isDigits digits else isDigits rest

/-- What may follow the integer part. -/
def isFraction : Utf16 → Bool
  | [] => true
  | point :: rest =>
      if point = 0x2E then
        isDigits (rest.takeWhile isDigit) && isExponent (rest.dropWhile isDigit)
      else isExponent (point :: rest)

def isMagnitude : Utf16 → Bool
  | [] => false
  | first :: rest =>
      if first = 0x30 then isFraction rest
      else isDigit first && isFraction (rest.dropWhile isDigit)

/-- A number of the format: an optional minus, an integer without leading
zeros, an optional fraction and an optional exponent. -/
def isNumeral (token : Utf16) : Bool :=
  match token with
  | [] => false
  | first :: rest => if first = minus then isMagnitude rest else isMagnitude token

/-- The longest run of number units has to be a number. -/
def number (text : Utf16) : Option (Utf16 × Utf16) :=
  let token := text.takeWhile isNumberUnit
  if isNumeral token then some (token, text.dropWhile isNumberUnit) else none

def literal {α : Type} (word : Utf16) (value : α) (text : Utf16) : Option (α × Utf16) :=
  if word.isPrefixOf text then some (value, text.drop word.length) else none

/-- At least one item, up to and with the closing unit. -/
def items {α : Type} (item : Utf16 → Option (α × Utf16)) (close : UInt16) :
    Nat → Utf16 → Option (List α × Utf16)
  | 0, _ => none
  | fuel + 1, text => do
      let (first, rest) ← item text
      match skipSpace rest with
      | [] => none
      | unit :: rest =>
          if unit = close then return ([first], rest)
          else if unit = comma then do
            let (others, rest) ← items item close fuel rest
            return (first :: others, rest)
          else none

/-- Items separated by commas, behind the opening unit. No more items are read
than there are units. -/
def sequence {α : Type} (item : Utf16 → Option (α × Utf16)) (close : UInt16)
    (text : Utf16) : Option (List α × Utf16) :=
  match skipSpace text with
  | [] => none
  | unit :: rest =>
      if unit = close then some ([], rest) else items item close text.length text

def expect (unit : UInt16) (text : Utf16) : Option Utf16 :=
  match skipSpace text with
  | [] => none
  | first :: rest => if first = unit then some rest else none

/-- A name, a colon and a value. -/
def member {α : Type} (value : Utf16 → Option (α × Utf16)) (text : Utf16) :
    Option ((Utf16 × α) × Utf16) := do
  let rest ← expect quote text
  let (name, rest) ← string rest
  let rest ← expect colon rest
  let (found, rest) ← value rest
  return ((name, found), rest)

/-- A value, with the depth of nesting bounded. -/
def value : Nat → Utf16 → Option (Json Utf16 × Utf16)
  | 0, _ => none
  | depth + 1, text =>
      match skipSpace text with
      | [] => none
      | unit :: rest =>
          if unit = quote then (string rest).map (Prod.map .string id)
          else if unit = openBracket then
            (sequence (value depth) closeBracket rest).map (Prod.map .array id)
          else if unit = openBrace then
            (sequence (member (value depth)) closeBrace rest).map (Prod.map .object id)
          else if isDigit unit ∨ unit = minus then
            (number (unit :: rest)).map (Prod.map .number id)
          else
            literal [0x74, 0x72, 0x75, 0x65] (.bool true) (unit :: rest) <|>
              literal [0x66, 0x61, 0x6C, 0x73, 0x65] (.bool false) (unit :: rest) <|>
              literal [0x6E, 0x75, 0x6C, 0x6C] .null (unit :: rest)

/-- A whole text: one value and space around it. Each level of nesting takes
up a unit, so the length bounds the depth. -/
def parse (text : Utf16) : Option (Json Utf16) := do
  let (json, rest) ← value (text.length + 1) text
  if skipSpace rest = [] then return json else none

/-- Parse UTF-8. -/
def parseUtf8 (bytes : ByteArray) : Option (Json Utf16) :=
  (String.fromUTF8? bytes).bind fun text => parse (encode text.toList)

theorem plain_nil : Plain [] := by
  intro unit hunit
  exact absurd hunit List.not_mem_nil

theorem plain_cons {unit : UInt16} {text : Utf16} :
    Plain (unit :: text) ↔
      (unit ≠ quote ∧ unit ≠ backslash ∧ ¬ unit < 0x20) ∧ Plain text := by
  simp [Plain]

theorem string_quote (rest : Utf16) : string (quote :: rest) = some ([], rest) := by
  rw [string.eq_def]
  rfl

theorem string_cons {unit : UInt16} (rest : Utf16)
    (hunit : unit ≠ quote ∧ unit ≠ backslash ∧ ¬ unit < 0x20) :
    string (unit :: rest) = (string rest).map fun read => (unit :: read.1, read.2) := by
  rw [string.eq_def]
  simp only [if_neg hunit.1, if_neg hunit.2.1, if_neg hunit.2.2]
  cases string rest <;> rfl

/-- Plain text is read as itself. -/
theorem string_plain {text : Utf16} (hplain : Plain text) (rest : Utf16) :
    string (text ++ quote :: rest) = some (text, rest) := by
  induction text with
  | nil => exact string_quote rest
  | cons unit text ih =>
      obtain ⟨hunit, htext⟩ := plain_cons.mp hplain
      rw [List.cons_append, string_cons _ hunit, ih htext]
      rfl

/-- What stands behind a backslash, and the code unit that it denotes. -/
inductive Escape : Utf16 → UInt16 → Prop where
  | single {kind value : UInt16} : escape? kind = some value → Escape [kind] value
  | hex {a b c d value : UInt16} :
      hexUnit? a b c d = some value → Escape [0x75, a, b, c, d] value

/-- The three ways to read a string. -/
theorem string_cons_eq_some {unit : UInt16} {text read rest : Utf16}
    (h : string (unit :: text) = some (read, rest)) :
    (unit = quote ∧ read = [] ∧ rest = text) ∨
      (unit = backslash ∧ ∃ first others tail value units, Escape (first :: others) value ∧
        text = first :: (others ++ tail) ∧ string tail = some (units, rest) ∧
        read = value :: units) ∨
      ((unit ≠ quote ∧ unit ≠ backslash ∧ ¬ unit < 0x20) ∧
        ∃ units, string text = some (units, rest) ∧ read = unit :: units) := by
  by_cases hquote : unit = quote
  · subst hquote
    rw [string_quote] at h
    cases h
    exact .inl ⟨rfl, rfl, rfl⟩
  by_cases hbackslash : unit = backslash
  · subst hbackslash
    rw [string.eq_def] at h
    simp only [if_neg hquote, if_true] at h
    refine .inr (.inl ⟨rfl, ?_⟩)
    cases text with
    | nil => cases h
    | cons kind text =>
        by_cases hhex : kind = 0x75
        · subst hhex
          simp only [if_true] at h
          match text with
          | a :: b :: c :: d :: tail =>
              obtain ⟨value, hvalue, h⟩ := Option.bind_eq_some_iff.mp h
              obtain ⟨⟨units, _⟩, hunits, h⟩ := Option.bind_eq_some_iff.mp h
              cases h
              exact ⟨_, _, tail, value, units, .hex hvalue, rfl, hunits, rfl⟩
        · simp only [if_neg hhex] at h
          obtain ⟨value, hvalue, h⟩ := Option.bind_eq_some_iff.mp h
          obtain ⟨⟨units, _⟩, hunits, h⟩ := Option.bind_eq_some_iff.mp h
          cases h
          exact ⟨_, _, text, value, units, .single hvalue, rfl, hunits, rfl⟩
  by_cases hcontrol : unit < 0x20
  · rw [string.eq_def] at h
    simp only [if_neg hquote, if_neg hbackslash, if_pos hcontrol] at h
    cases h
  · rw [string_cons text ⟨hquote, hbackslash, hcontrol⟩] at h
    obtain ⟨⟨units, _⟩, hunits, hread⟩ := Option.map_eq_some_iff.mp h
    cases hread
    exact .inr (.inr ⟨⟨hquote, hbackslash, hcontrol⟩, units, hunits, rfl⟩)

/-- A quote can only be the whole of an escape. -/
theorem Escape.quote_not_mem {first value : UInt16} {others : Utf16}
    (h : Escape (first :: others) value) :
    quote ∉ others ∧ (first = quote → others = [] ∧ value = quote) := by
  have hdigit : hexDigit? quote = none := by decide
  cases h with
  | single hvalue =>
      refine ⟨List.not_mem_nil, ?_⟩
      rintro rfl
      exact ⟨rfl, (Option.some.inj hvalue).symm⟩
  | hex hvalue =>
      refine ⟨?_, fun hquote => absurd hquote (by decide)⟩
      intro hmem
      obtain ⟨_, ha, hvalue⟩ := Option.bind_eq_some_iff.mp hvalue
      obtain ⟨_, hb, hvalue⟩ := Option.bind_eq_some_iff.mp hvalue
      obtain ⟨_, hc, hvalue⟩ := Option.bind_eq_some_iff.mp hvalue
      obtain ⟨_, hd, _⟩ := Option.bind_eq_some_iff.mp hvalue
      simp only [List.mem_cons, List.not_mem_nil, or_false] at hmem
      rcases hmem with rfl | rfl | rfl | rfl <;> simp_all

/-- A prefix without the separator ends in front of it. -/
theorem append_cons_eq_append {α : Type*} {separator : α} {text after part tail : List α}
    (h : text ++ separator :: after = part ++ tail) (hpart : separator ∉ part) :
    ∃ rest, text = part ++ rest ∧ tail = rest ++ separator :: after := by
  rcases List.append_eq_append_iff.mp h with ⟨more, hmore, hafter⟩ | ⟨rest, htext, htail⟩
  · cases more with
    | nil => exact ⟨[], by simpa using hmore.symm, hafter.symm⟩
    | cons first more =>
        cases hafter
        exact absurd (hmore ▸ List.mem_append_right _ List.mem_cons_self) hpart
  · exact ⟨rest, htext, htail⟩

theorem getLast?_quote_cons {text : Utf16} (hplain : Plain text) :
    ∃ last, last ≠ backslash ∧ (quote :: text).getLast? = some last := by
  have hfound := List.getLast?_eq_some_getLast (List.cons_ne_nil quote text)
  refine ⟨_, ?_, hfound⟩
  rcases List.mem_cons.mp (List.mem_of_getLast? hfound) with hquote | hmem
  · rw [hquote]
    decide
  · exact (hplain _ hmem).2.1

/-- What can be read from text between quotes: the text itself where it is
plain, and else something shorter, or something that does not end like it. -/
def ReadFrom (text read : Utf16) : Prop :=
  (Plain text ∧ read = text) ∨ read.length < text.length ∨
    (text.getLast? = some backslash ∧ ∃ last, last ≠ backslash ∧ read.getLast? = some last)

theorem ReadFrom.cons {unit : UInt16} {text read : Utf16}
    (hunit : unit ≠ quote ∧ unit ≠ backslash ∧ ¬ unit < 0x20) (h : ReadFrom text read) :
    ReadFrom (unit :: text) (unit :: read) := by
  rcases h with ⟨hplain, rfl⟩ | hshorter | ⟨hlast, last, hne, hread⟩
  · exact .inl ⟨plain_cons.mpr ⟨hunit, hplain⟩, rfl⟩
  · refine .inr (.inl ?_)
    simp only [List.length_cons]
    omega
  · refine .inr (.inr ⟨?_, last, hne, ?_⟩)
    · simp [List.getLast?_cons, hlast]
    · simp [List.getLast?_cons, hread]

/-- An escape turns at least two units into one. -/
theorem ReadFrom.escape {text read : Utf16} (h : ReadFrom text read) {front : Utf16}
    (hfront : 2 ≤ front.length) (value : UInt16) :
    ReadFrom (front ++ text) (value :: read) := by
  have hlength : (front ++ text).length = front.length + text.length := List.length_append
  rcases h with ⟨_, rfl⟩ | hshorter | ⟨hlast, last, hne, hread⟩
  · refine .inr (.inl ?_)
    rw [hlength, List.length_cons]
    omega
  · refine .inr (.inl ?_)
    rw [hlength, List.length_cons]
    omega
  · refine .inr (.inr ⟨?_, last, hne, ?_⟩)
    · simp [List.getLast?_append, hlast]
    · simp [List.getLast?_cons, hread]

/-- Text between quotes, when a second string literal follows. An unescaped
quote in it ends the reading early; a backslash in front of the closing quote
makes the reader run on, but only to the next quote. -/
theorem readFrom_of_string {text between tail read rest : Utf16} (hbetween : Plain between)
    (h : string (text ++ quote :: (between ++ quote :: tail)) = some (read, rest)) :
    ReadFrom text read := by
  -- an escape takes several units, so the induction is on the length
  induction hlength : text.length using Nat.strong_induction_on generalizing text read with
  | _ length ih =>
      subst hlength
      cases text with
      | nil =>
          rw [List.nil_append, string_quote] at h
          cases h
          exact .inl ⟨plain_nil, rfl⟩
      | cons unit text =>
          rcases string_cons_eq_some h with
            ⟨rfl, rfl, rfl⟩ |
            ⟨rfl, first, others, after, value, units, hescape, htext, hunits, rfl⟩ |
            ⟨hunit, units, hunits, rfl⟩
          · exact .inr (.inl (Nat.succ_pos _))
          · obtain ⟨hothers, hfirst⟩ := hescape.quote_not_mem
            cases text with
            | nil =>
                obtain ⟨rfl, hafter⟩ := List.cons.inj htext
                obtain ⟨rfl, rfl⟩ := hfirst rfl
                change between ++ quote :: tail = after at hafter
                rw [← hafter, string_plain hbetween] at hunits
                cases hunits
                exact .inr (.inr ⟨rfl, getLast?_quote_cons hbetween⟩)
            | cons kind text =>
                obtain ⟨_, htext⟩ := List.cons.inj htext
                obtain ⟨more, rfl, rfl⟩ := append_cons_eq_append htext hothers
                have hsmaller : more.length < (backslash :: kind :: (others ++ more)).length := by
                  simp only [List.length_cons, List.length_append]
                  omega
                have hfront : 2 ≤ (backslash :: kind :: others).length := by
                  simp only [List.length_cons]
                  omega
                exact (ih more.length hsmaller hunits rfl).escape hfront value
          · exact (ih text.length (Nat.lt_succ_self _) hunits rfl).cons hunit

/-- Text that is read back as itself needed no escapes. -/
theorem plain_of_string {text between tail rest : Utf16} (hbetween : Plain between)
    (h : string (text ++ quote :: (between ++ quote :: tail)) = some (text, rest)) :
    Plain text := by
  rcases readFrom_of_string hbetween h with
    ⟨hplain, _⟩ | hshorter | ⟨hlast, last, hne, hread⟩
  · exact hplain
  · omega
  · rw [hlast] at hread
    exact absurd (Option.some.inj hread).symm hne

theorem isNumberUnit_of_isDigit {unit : UInt16} (h : isDigit unit = true) :
    isNumberUnit unit = true := by
  simp [isNumberUnit, h]

theorem all_of_isDigits {token : Utf16} (h : isDigits token = true) :
    ∀ unit ∈ token, isNumberUnit unit = true := by
  simp only [isDigits, Bool.and_eq_true, List.all_eq_true] at h
  exact fun unit hunit => isNumberUnit_of_isDigit (h.2 unit hunit)

theorem all_of_isExponent {token : Utf16} (h : isExponent token = true) :
    ∀ unit ∈ token, isNumberUnit unit = true := by
  cases token with
  | nil => simp
  | cons mark rest =>
      simp only [isExponent, Bool.and_eq_true, Bool.or_eq_true, beq_iff_eq] at h
      obtain ⟨hmark, hrest⟩ := h
      have hmark' : isNumberUnit mark = true := by
        rcases hmark with rfl | rfl <;> decide
      cases rest with
      | nil => cases hrest
      | cons sign digits =>
          by_cases hsign : sign = minus ∨ sign = 0x2B
          · simp only [if_pos hsign] at hrest
            have hsign' : isNumberUnit sign = true := by
              rcases hsign with rfl | rfl <;> decide
            simpa [hmark', hsign'] using all_of_isDigits hrest
          · simp only [if_neg hsign] at hrest
            simpa [hmark'] using all_of_isDigits hrest

theorem all_of_dropWhile {token : Utf16}
    (h : ∀ unit ∈ token.dropWhile isDigit, isNumberUnit unit = true) :
    ∀ unit ∈ token, isNumberUnit unit = true := by
  intro unit hunit
  rw [← List.takeWhile_append_dropWhile (p := isDigit) (l := token)] at hunit
  rcases List.mem_append.mp hunit with hdigit | hrest
  · exact isNumberUnit_of_isDigit (List.mem_takeWhile_imp hdigit)
  · exact h unit hrest

theorem all_of_isFraction {token : Utf16} (h : isFraction token = true) :
    ∀ unit ∈ token, isNumberUnit unit = true := by
  cases token with
  | nil => simp
  | cons point rest =>
      by_cases hpoint : point = 0x2E
      · subst hpoint
        simp only [isFraction, if_true, Bool.and_eq_true] at h
        have hpoint' : isNumberUnit 0x2E = true := by decide
        simpa [hpoint'] using all_of_dropWhile (all_of_isExponent h.2)
      · simp only [isFraction, if_neg hpoint] at h
        exact all_of_isExponent h

theorem all_of_isMagnitude {token : Utf16} (h : isMagnitude token = true) :
    ∀ unit ∈ token, isNumberUnit unit = true := by
  cases token with
  | nil => simp
  | cons first rest =>
      by_cases hzero : first = 0x30
      · subst hzero
        simp only [isMagnitude, if_true] at h
        have hzero' : isNumberUnit 0x30 = true := by decide
        simpa [hzero'] using all_of_isFraction h
      · simp only [isMagnitude, if_neg hzero, Bool.and_eq_true] at h
        have hfirst := isNumberUnit_of_isDigit h.1
        simpa [hfirst] using all_of_dropWhile (all_of_isFraction h.2)

/-- A numeral starts with a digit or a minus and has number units only. -/
theorem isNumeral_units {token : Utf16} (h : isNumeral token = true) :
    (∃ first rest, token = first :: rest ∧ (isDigit first = true ∨ first = minus)) ∧
      ∀ unit ∈ token, isNumberUnit unit = true := by
  cases token with
  | nil => cases h
  | cons first rest =>
      by_cases hminus : first = minus
      · subst hminus
        simp only [isNumeral, if_true] at h
        have hminus' : isNumberUnit minus = true := by decide
        exact ⟨⟨_, _, rfl, .inr rfl⟩, by simpa [hminus'] using all_of_isMagnitude h⟩
      · simp only [isNumeral, if_neg hminus] at h
        refine ⟨⟨_, _, rfl, .inl ?_⟩, all_of_isMagnitude h⟩
        by_cases hzero : first = 0x30
        · subst hzero
          decide
        · simp only [isMagnitude, if_neg hzero, Bool.and_eq_true] at h
          exact h.1

theorem number_numeral {token : Utf16} (htoken : isNumeral token = true) {unit : UInt16}
    (hunit : isNumberUnit unit = false) (rest : Utf16) :
    number (token ++ unit :: rest) = some (token, unit :: rest) := by
  have hall := (isNumeral_units htoken).2
  have htake : (token ++ unit :: rest).takeWhile isNumberUnit = token := by
    rw [List.takeWhile_append_of_pos hall, List.takeWhile_cons_of_neg (by simp [hunit]),
      List.append_nil]
  have hdrop : (token ++ unit :: rest).dropWhile isNumberUnit = unit :: rest := by
    rw [List.dropWhile_append_of_pos hall, List.dropWhile_cons_of_neg (by simp [hunit])]
  simp only [number, htake, hdrop, htoken, if_true]

theorem skipSpace_cons {unit : UInt16} (h : isSpace unit = false) (rest : Utf16) :
    skipSpace (unit :: rest) = unit :: rest :=
  List.dropWhile_cons_of_neg (by simp [h])

theorem value_quote (depth : Nat) (rest : Utf16) :
    value (depth + 1) (quote :: rest) = (string rest).map (Prod.map .string id) := rfl

theorem value_openBracket (depth : Nat) (rest : Utf16) :
    value (depth + 1) (openBracket :: rest) =
      (sequence (value depth) closeBracket rest).map (Prod.map .array id) := rfl

theorem value_openBrace (depth : Nat) (rest : Utf16) :
    value (depth + 1) (openBrace :: rest) =
      (sequence (member (value depth)) closeBrace rest).map (Prod.map .object id) := rfl

theorem numeral_start {first : UInt16} (h : isDigit first = true ∨ first = minus) :
    isSpace first = false ∧ first ≠ quote ∧ first ≠ openBracket ∧ first ≠ openBrace := by
  have hdiffer (unit : UInt16) (hunit : ¬ (isDigit unit = true ∨ unit = minus)) :
      first ≠ unit := by
    rintro rfl
    exact hunit h
  refine ⟨?_, hdiffer _ (by decide), hdiffer _ (by decide), hdiffer _ (by decide)⟩
  simp only [isSpace, Bool.or_eq_false_iff, beq_eq_false_iff_ne]
  exact ⟨⟨⟨hdiffer _ (by decide), hdiffer _ (by decide)⟩, hdiffer _ (by decide)⟩,
    hdiffer _ (by decide)⟩

theorem value_numeral {token : Utf16} (htoken : isNumeral token = true) {unit : UInt16}
    (hunit : isNumberUnit unit = false) (depth : Nat) (rest : Utf16) :
    value (depth + 1) (token ++ unit :: rest) = some (.number token, unit :: rest) := by
  obtain ⟨⟨first, others, rfl, hfirst⟩, _⟩ := isNumeral_units htoken
  obtain ⟨hspace, hquote, hbracket, hbrace⟩ := numeral_start hfirst
  rw [List.cons_append, value, skipSpace_cons hspace]
  simp only [if_neg hquote, if_neg hbracket, if_neg hbrace, if_pos hfirst]
  rw [← List.cons_append, number_numeral htoken hunit]
  rfl

theorem expect_cons {unit : UInt16} (h : isSpace unit = false) (rest : Utf16) :
    expect unit (unit :: rest) = some rest := by
  simp [expect, skipSpace_cons h]

theorem expect_space {space : UInt16} (h : isSpace space = true) (unit : UInt16)
    (rest : Utf16) : expect unit (space :: rest) = expect unit rest := by
  simp only [expect, skipSpace, List.dropWhile_cons_of_pos h]

theorem member_space {value : Utf16 → Option (α × Utf16)} {space : UInt16}
    (h : isSpace space = true) (rest : Utf16) :
    member value (space :: rest) = member value rest := by
  simp only [member, expect_space h]

theorem member_plain {value : Utf16 → Option (α × Utf16)} {name : Utf16} (hname : Plain name)
    (rest : Utf16) :
    member value (quote :: (name ++ quote :: colon :: rest)) =
      (value rest).map fun read => ((name, read.1), read.2) := by
  have hquote : isSpace quote = false := by decide
  have hcolon : isSpace colon = false := by decide
  simp only [member, expect_cons hquote, string_plain hname, expect_cons hcolon,
    Option.bind_eq_bind, Option.bind_some]
  cases value rest <;> rfl

/-- A unit that can end a list of items. -/
structure Closes (close : UInt16) : Prop where
  not_space : isSpace close = false
  ne_comma : close ≠ comma

theorem closes_bracket : Closes closeBracket := ⟨rfl, by decide⟩

theorem closes_brace : Closes closeBrace := ⟨rfl, by decide⟩

section

variable {item : Utf16 → Option (α × Utf16)} {close : UInt16}

theorem items_close (hclose : Closes close) {text rest : Utf16} {first : α}
    (hitem : item text = some (first, close :: rest)) (fuel : Nat) :
    items item close (fuel + 1) text = some ([first], rest) := by
  simp [items, hitem, skipSpace_cons hclose.not_space]

theorem items_comma (hclose : Closes close) {text rest : Utf16} {first : α}
    (hitem : item text = some (first, comma :: rest)) (fuel : Nat) :
    items item close (fuel + 1) text =
      (items item close fuel rest).map fun read => (first :: read.1, read.2) := by
  have hspace : isSpace comma = false := by decide
  simp only [items, hitem, Option.bind_eq_bind, Option.bind_some, skipSpace_cons hspace,
    if_neg hclose.ne_comma.symm, if_true]
  cases items item close fuel rest <;> rfl

/-- Whatever is read starts with an item. -/
theorem items_head {fuel : Nat} {text rest : Utf16} {list : List α}
    (h : items item close fuel text = some (list, rest)) :
    ∃ first others after, item text = some (first, after) ∧ list = first :: others := by
  cases fuel with
  | zero => cases h
  | succ fuel =>
      obtain ⟨⟨first, after⟩, hitem, h⟩ := Option.bind_eq_some_iff.mp h
      refine ⟨first, ?_⟩
      cases hspace : skipSpace after with
      | nil => simp [hspace] at h
      | cons unit more =>
          simp only [hspace] at h
          split_ifs at h with hclose hcomma
          · cases h
            exact ⟨[], after, hitem, rfl⟩
          · obtain ⟨⟨others, _⟩, _, h⟩ := Option.bind_eq_some_iff.mp h
            cases h
            exact ⟨others, after, hitem, rfl⟩

/-- Items joined by commas are read one by one. -/
theorem items_intercalate (hclose : Closes close) {text : β → Utf16} {read : β → α}
    {list : List β} (hne : list ≠ [])
    (hitem : ∀ b ∈ list, ∀ rest, item (text b ++ rest) = some (read b, rest))
    {fuel : Nat} (hfuel : list.length ≤ fuel) (rest : Utf16) :
    items item close fuel ([comma].intercalate (list.map text) ++ close :: rest) =
      some (list.map read, rest) := by
  induction list generalizing fuel with
  | nil => exact absurd rfl hne
  | cons b list ih =>
      rw [List.length_cons] at hfuel
      obtain ⟨fuel, rfl⟩ : ∃ less, fuel = less + 1 := ⟨fuel - 1, by omega⟩
      have hfirst := hitem b List.mem_cons_self
      cases list with
      | nil => simpa using items_close hclose (hfirst (close :: rest)) fuel
      | cons next list =>
          have hrest := ih (List.cons_ne_nil _ _)
            (fun b hb => hitem b (List.mem_cons_of_mem _ hb)) (by omega : _ ≤ fuel)
          have htext : [comma].intercalate ((b :: next :: list).map text) ++ close :: rest =
              text b ++ comma ::
                ([comma].intercalate ((next :: list).map text) ++ close :: rest) := by
            simp [List.intercalate_cons_cons]
          rw [htext, items_comma hclose (hfirst _), hrest]
          rfl

theorem sequence_cons {unit : UInt16} (hspace : isSpace unit = false) (hunit : unit ≠ close)
    (rest : Utf16) :
    sequence item close (unit :: rest) = items item close (rest.length + 1) (unit :: rest) := by
  simp [sequence, skipSpace_cons hspace, hunit]

end

theorem length_le_intercalate (separator : UInt16) (parts : List Utf16) (last : UInt16) :
    parts.length ≤ ([separator].intercalate parts ++ [last]).length := by
  induction parts with
  | nil => simp
  | cons part parts ih =>
      cases parts with
      | nil => simp
      | cons next parts =>
          rw [List.intercalate_cons_cons]
          simp only [List.length_append, List.length_cons, List.length_nil] at ih ⊢
          omega

/-- Numerals are ASCII. -/
theorem isScalar_of_isNumberUnit {unit : UInt16} (h : isNumberUnit unit = true) :
    IsScalar unit := by
  have hascii : unit.toNat < 0x80 := by
    simp only [isNumberUnit, isDigit, Bool.or_eq_true, decide_eq_true_eq, beq_iff_eq] at h
    rcases h with ((((hdigit | rfl) | rfl) | rfl) | rfl) | rfl
    · exact Nat.lt_of_le_of_lt (UInt16.le_iff_toNat_le.mp hdigit.2) (by decide)
    all_goals decide
  constructor
  · simp only [isHighSurrogate, decide_eq_false_iff_not]
    omega
  · simp only [isLowSurrogate, decide_eq_false_iff_not]
    omega

theorem wellFormed_of_isNumeral {token : Utf16} (h : isNumeral token = true) :
    WellFormed token := by
  apply wellFormed_of_scalars
  intro unit hunit
  exact isScalar_of_isNumberUnit ((isNumeral_units h).2 unit hunit)

theorem parseUtf8_toUTF8 (text : List Char) :
    parseUtf8 (String.ofList text).toUTF8 = parse (encode text) := by
  have hread : String.fromUTF8? (String.ofList text).toUTF8 = some (String.ofList text) := by
    simp only [String.fromUTF8?, String.toUTF8_eq_toByteArray]
    rw [dif_pos (String.ofList text).isValidUTF8]
    rfl
  rw [parseUtf8, hread, Option.bind_some, String.toList_ofList]

end JsonText
