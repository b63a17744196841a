import BadgeKeeper.Lib.JsonText

/-!
A compact writer of JSON text, and that the reader inverts it. How a number is
written is a parameter. A string is escaped where the format demands it and
copied otherwise, so any string can be written; the written text has a UTF-8
form when its strings have one.
-/

open Unicode

namespace Json

variable {N M : Type}

mutual

/-- The same value with its numbers mapped. -/
def map (f : N → M) : Json N → Json M
  | .null => .null
  | .bool b => .bool b
  | .number n => .number (f n)
  | .string text => .string text
  | .array items => .array (mapItems f items)
  | .object members => .object (mapMembers f members)

def mapItems (f : N → M) : List (Json N) → List (Json M)
  | [] => []
  | item :: rest => map f item :: mapItems f rest

def mapMembers (f : N → M) : List (Utf16 × Json N) → List (Utf16 × Json M)
  | [] => []
  | (name, value) :: rest => (name, map f value) :: mapMembers f rest

end

theorem mapItems_eq (f : N → M) (items : List (Json N)) : mapItems f items = items.map (map f) := by
  induction items with
  | nil => rfl
  | cons item rest ih => rw [mapItems, ih, List.map_cons]

theorem mapMembers_eq (f : N → M) (members : List (Utf16 × Json N)) :
    mapMembers f members = members.map fun member => (member.1, member.2.map f) := by
  induction members with
  | nil => rfl
  | cons member rest ih => rw [mapMembers, ih, List.map_cons]

/-- All numbers of a value, and all its strings and names. -/
inductive All (onNumber : N → Prop) (onText : Utf16 → Prop) : Json N → Prop where
  | null : All onNumber onText .null
  | bool (b : Bool) : All onNumber onText (.bool b)
  | number {n : N} : onNumber n → All onNumber onText (.number n)
  | string {text : Utf16} : onText text → All onNumber onText (.string text)
  | array {items : List (Json N)} :
      (∀ item ∈ items, All onNumber onText item) → All onNumber onText (.array items)
  | object {members : List (Utf16 × Json N)} :
      (∀ member ∈ members, onText member.1) →
        (∀ member ∈ members, All onNumber onText member.2) →
          All onNumber onText (.object members)

/-- Mapping there and back. -/
theorem map_map_of_all {f : N → M} {g : M → N} {onText : Utf16 → Prop} {json : Json N}
    (h : json.All (fun n => g (f n) = n) onText) : (json.map f).map g = json := by
  induction h with
  | null => rfl
  | bool b => rfl
  | number hn => exact congrArg Json.number hn
  | string htext => rfl
  | array _ ih =>
      simp only [map, mapItems_eq, List.map_map]
      exact congrArg Json.array ((List.map_congr_left ih).trans (List.map_id _))
  | object _ _ ih =>
      simp only [map, mapMembers_eq, List.map_map]
      refine congrArg Json.object ((List.map_congr_left ?_).trans (List.map_id _))
      intro member hmember
      exact Prod.ext rfl (ih member hmember)

theorem All.imp {onNumber onNumber' : N → Prop} {onText onText' : Utf16 → Prop}
    (hnumber : ∀ n, onNumber n → onNumber' n) (htext : ∀ text, onText text → onText' text)
    {json : Json N} (h : json.All onNumber onText) : json.All onNumber' onText' := by
  induction h with
  | null => exact .null
  | bool b => exact .bool b
  | number hn => exact .number (hnumber _ hn)
  | string hstring => exact .string (htext _ hstring)
  | array _ ih => exact .array ih
  | object hnames _ ih => exact .object (fun member h => htext _ (hnames member h)) ih

theorem All.ofFields {onNumber : N → Prop} {onText : Utf16 → Prop}
    {fields : List (Utf16 × Option (Json N))}
    (h : ∀ field ∈ fields, onText field.1 ∧ ∀ value ∈ field.2, value.All onNumber onText) :
    (ofFields fields).All onNumber onText := by
  have hmember : ∀ member ∈ fields.filterMap fun field =>
      field.2.map fun value => (field.1, value), ∃ field ∈ fields,
        field.1 = member.1 ∧ member.2 ∈ field.2 := by
    intro member hmember
    obtain ⟨field, hfield, hvalue⟩ := List.mem_filterMap.mp hmember
    obtain ⟨value, hsome, rfl⟩ := Option.map_eq_some_iff.mp hvalue
    exact ⟨field, hfield, rfl, hsome⟩
  apply All.object
  · intro member hmem
    obtain ⟨field, hfield, hname, _⟩ := hmember member hmem
    rw [← hname]
    exact (h field hfield).1
  · intro member hmem
    obtain ⟨field, hfield, _, hvalue⟩ := hmember member hmem
    exact (h field hfield).2 member.2 hvalue

end Json

namespace JsonText

variable {N : Type} {α β : Type}

def hexDigit (n : Nat) : UInt16 := UInt16.ofNat (if n < 10 then 0x30 + n else 0x57 + n)

/-- A unit between quotes, escaped if it has to be. -/
def escapeUnit (unit : UInt16) : Utf16 :=
  if unit = quote ∨ unit = backslash then [backslash, unit]
  else if unit < 0x20 then
    [backslash, 0x75, 0x30, 0x30, hexDigit (unit.toNat / 16), hexDigit (unit.toNat % 16)]
  else [unit]

def printString (text : Utf16) : Utf16 := quote :: (text.flatMap escapeUnit ++ [quote])

mutual

def print (token : N → Utf16) : Json N → Utf16
  | .null => [0x6E, 0x75, 0x6C, 0x6C]
  | .bool true => [0x74, 0x72, 0x75, 0x65]
  | .bool false => [0x66, 0x61, 0x6C, 0x73, 0x65]
  | .number n => token n
  | .string text => printString text
  | .array items =>
      openBracket :: ([comma].intercalate (printItems token items) ++ [closeBracket])
  | .object members =>
      openBrace :: ([comma].intercalate (printMembers token members) ++ [closeBrace])

def printItems (token : N → Utf16) : List (Json N) → List Utf16
  | [] => []
  | item :: rest => print token item :: printItems token rest

def printMembers (token : N → Utf16) : List (Utf16 × Json N) → List Utf16
  | [] => []
  | (name, value) :: rest =>
      (printString name ++ colon :: print token value) :: printMembers token rest

end

theorem printItems_eq (token : N → Utf16) (items : List (Json N)) :
    printItems token items = items.map (print token) := by
  induction items with
  | nil => rfl
  | cons item rest ih => rw [printItems, ih, List.map_cons]

/-- A name and a value as they stand in an object. -/
def printMember (token : N → Utf16) (member : Utf16 × Json N) : Utf16 :=
  printString member.1 ++ colon :: print token member.2

theorem printMembers_eq (token : N → Utf16) (members : List (Utf16 × Json N)) :
    printMembers token members = members.map (printMember token) := by
  induction members with
  | nil => rfl
  | cons member rest ih => rw [printMembers, ih, List.map_cons, printMember]

theorem hexUnit?_hexDigit {unit : UInt16} (h : unit < 0x20) :
    hexUnit? 0x30 0x30 (hexDigit (unit.toNat / 16)) (hexDigit (unit.toNat % 16)) =
      some unit := by
  have hall : ∀ n : Fin 32, hexUnit? 0x30 0x30 (hexDigit (n.val / 16)) (hexDigit (n.val % 16)) =
      some (UInt16.ofNat n.val) := by
    decide
  have hsmall : unit.toNat < 32 := UInt16.lt_iff_toNat_lt.mp h
  have hunit := hall ⟨unit.toNat, hsmall⟩
  rwa [UInt16.ofNat_toNat] at hunit

theorem string_escapeUnit (unit : UInt16) (rest : Utf16) :
    string (escapeUnit unit ++ rest) =
      (string rest).map fun read => (unit :: read.1, read.2) := by
  unfold escapeUnit
  split
  · next hsimple =>
      have hescape : escape? unit = some unit := by
        rcases hsimple with rfl | rfl <;> rfl
      have hkind : unit ≠ 0x75 := by
        rcases hsimple with rfl | rfl <;> decide
      have hquote : backslash ≠ quote := by decide
      rw [List.cons_append, List.singleton_append, string.eq_def]
      simp only [if_neg hquote, if_true, if_neg hkind, hescape]
      cases string rest <;> rfl
  · next hsimple =>
      split
      · next hcontrol =>
          have hquote : backslash ≠ quote := by decide
          rw [string.eq_def]
          simp only [List.cons_append, List.nil_append, if_neg hquote, if_true,
            hexUnit?_hexDigit hcontrol]
          cases string rest <;> rfl
      · next hcontrol =>
          rw [not_or] at hsimple
          exact string_cons rest ⟨hsimple.1, hsimple.2, hcontrol⟩

/-- Every string is read back from its escaped form. -/
theorem string_printed (text rest : Utf16) :
    string (text.flatMap escapeUnit ++ quote :: rest) = some (text, rest) := by
  induction text with
  | nil => exact string_quote rest
  | cons unit text ih =>
      rw [List.flatMap_cons, List.append_assoc, string_escapeUnit, ih]
      rfl

theorem member_printed {value : Utf16 → Option (α × Utf16)} (name : Utf16) {text rest : Utf16}
    {found : α} (hvalue : value (text ++ rest) = some (found, rest)) :
    member value (printString name ++ colon :: text ++ rest) = some ((name, found), rest) := by
  have hquote : isSpace quote = false := by decide
  have hcolon : isSpace colon = false := by decide
  have htext : printString name ++ colon :: text ++ rest =
      quote :: (name.flatMap escapeUnit ++ quote :: (colon :: (text ++ rest))) := by
    simp [printString]
  simp only [htext, member, expect_cons hquote, string_printed, expect_cons hcolon, hvalue,
    Option.bind_eq_bind, Option.bind_some]
  rfl

/-- The units that a number does not run on into. -/
def Stops (rest : Utf16) : Prop := ∀ unit ∈ rest.head?, isNumberUnit unit = false

theorem stops_nil : Stops [] := by
  intro unit hunit
  cases hunit

theorem stops_cons {unit : UInt16} (h : isNumberUnit unit = false) (rest : Utf16) :
    Stops (unit :: rest) := by
  rintro _ ⟨⟩
  exact h

theorem value_numeral_stops {token rest : Utf16} (htoken : isNumeral token = true)
    (hrest : Stops rest) (depth : Nat) :
    value (depth + 1) (token ++ rest) = some (.number token, rest) := by
  cases rest with
  | cons unit rest => exact value_numeral htoken (hrest unit rfl) depth rest
  | nil =>
      obtain ⟨⟨first, others, rfl, hfirst⟩, hall⟩ := isNumeral_units htoken
      obtain ⟨hspace, hquote, hbracket, hbrace⟩ := numeral_start hfirst
      have htake := List.takeWhile_eq_self_iff.mpr hall
      have hdrop := List.dropWhile_eq_nil_iff.mpr hall
      rw [List.append_nil, value, skipSpace_cons hspace]
      simp only [if_neg hquote, if_neg hbracket, if_neg hbrace, if_pos hfirst, number, htake,
        hdrop, htoken, if_true]
      rfl

section

variable {item : Utf16 → Option (α × Utf16)} {close : UInt16}

/-- Items joined by commas, each of which is read in front of a comma or of the
closing unit. -/
theorem items_joined (hclose : Closes close) {text : β → Utf16} {read : β → α}
    {list : List β} (hne : list ≠ [])
    (hitem : ∀ b ∈ list, ∀ unit rest, unit = comma ∨ unit = close →
      item (text b ++ unit :: rest) = some (read b, unit :: rest))
    {fuel : Nat} (hfuel : list.length ≤ fuel) (rest : Utf16) :
    items item close fuel ([comma].intercalate (list.map text) ++ close :: rest) =
      some (list.map read, rest) := by
  induction list generalizing fuel with
  | nil => exact absurd rfl hne
  | cons b list ih =>
      rw [List.length_cons] at hfuel
      obtain ⟨fuel, rfl⟩ : ∃ less, fuel = less + 1 := ⟨fuel - 1, by omega⟩
      have hfirst := hitem b List.mem_cons_self
      cases list with
      | nil => simpa using items_close hclose (hfirst close rest (.inr rfl)) fuel
      | cons next list =>
          have hrest := ih (List.cons_ne_nil _ _)
            (fun b hb => hitem b (List.mem_cons_of_mem _ hb)) (by omega : _ ≤ fuel)
          have htext : [comma].intercalate ((b :: next :: list).map text) ++ close :: rest =
              text b ++ comma ::
                ([comma].intercalate ((next :: list).map text) ++ close :: rest) := by
            simp [List.intercalate_cons_cons]
          rw [htext, items_comma hclose (hfirst comma _ (.inl rfl)), hrest]
          rfl

theorem sequence_close (hclose : Closes close) (rest : Utf16) :
    sequence item close (close :: rest) = some ([], rest) := by
  simp [sequence, skipSpace_cons hclose.not_space]

/-- A sequence of items that do not start like its end. -/
theorem sequence_joined (hclose : Closes close) {text : β → Utf16} {read : β → α}
    {list : List β}
    (hstart : ∀ b ∈ list, ∃ first more, text b = first :: more ∧ isSpace first = false ∧
      first ≠ close)
    (hitem : ∀ b ∈ list, ∀ unit rest, unit = comma ∨ unit = close →
      item (text b ++ unit :: rest) = some (read b, unit :: rest)) (rest : Utf16) :
    sequence item close ([comma].intercalate (list.map text) ++ close :: rest) =
      some (list.map read, rest) := by
  cases list with
  | nil => exact sequence_close hclose rest
  | cons b list =>
      obtain ⟨first, more, htext, hspace, hdiffer⟩ := hstart b List.mem_cons_self
      have hhead : ∃ others, [comma].intercalate ((b :: list).map text) ++ close :: rest =
          first :: others := by
        cases list with
        | nil => exact ⟨_, by rw [List.map_singleton, List.intercalate_singleton, htext]; rfl⟩
        | cons next list =>
            exact ⟨_, by
              rw [List.map_cons, List.map_cons, List.intercalate_cons_cons, htext]
              rfl⟩
      obtain ⟨others, hothers⟩ := hhead
      have hlength := length_le_intercalate comma ((b :: list).map text) close
      have hfuel : (b :: list).length ≤ others.length + 1 := by
        have hall := congrArg List.length hothers
        simp only [List.length_append, List.length_cons, List.length_map, List.length_nil]
          at hall hlength ⊢
        omega
      rw [hothers, sequence_cons hspace hdiffer, ← hothers]
      exact items_joined hclose (List.cons_ne_nil _ _) hitem hfuel rest

end

theorem length_le_of_mem (separator : UInt16) {parts : List Utf16} {part : Utf16}
    (h : part ∈ parts) : part.length ≤ ([separator].intercalate parts).length := by
  induction parts with
  | nil => cases h
  | cons first parts ih =>
      cases parts with
      | nil =>
          rw [List.mem_singleton.mp h, List.intercalate_singleton]
      | cons next parts =>
          rw [List.intercalate_cons_cons, List.length_append, List.length_append]
          rcases List.mem_cons.mp h with rfl | hlater
          · omega
          · have hrest := ih hlater
            omega

theorem print_start {token : N → Utf16} {json : Json N}
    (h : json.All (fun n => isNumeral (token n) = true) fun _ => True) :
    ∃ first more, print token json = first :: more ∧ isSpace first = false ∧
      first ≠ closeBracket := by
  cases h with
  | null => exact ⟨_, _, rfl, rfl, by decide⟩
  | bool b => cases b <;> exact ⟨_, _, rfl, rfl, by decide⟩
  | number hn =>
      obtain ⟨⟨first, rest, htoken, hfirst⟩, _⟩ := isNumeral_units hn
      refine ⟨first, rest, htoken, (numeral_start hfirst).1, ?_⟩
      rintro rfl
      exact absurd hfirst (by decide)
  | string _ => exact ⟨_, _, rfl, rfl, by decide⟩
  | array _ => exact ⟨_, _, rfl, rfl, by decide⟩
  | object _ _ => exact ⟨_, _, rfl, rfl, by decide⟩

/-- A written value is read back, in front of anything that does not continue a
number. -/
theorem value_print {token : N → Utf16} {json : Json N}
    (h : json.All (fun n => isNumeral (token n) = true) fun _ => True) {depth : Nat}
    (hdepth : (print token json).length < depth) {rest : Utf16} (hrest : Stops rest) :
    value depth (print token json ++ rest) = some (json.map token, rest) := by
  have hseparator {close : UInt16} (hclose : isNumberUnit close = false) (unit : UInt16)
      (rest : Utf16) (hunit : unit = comma ∨ unit = close) : Stops (unit :: rest) := by
    rcases hunit with rfl | rfl
    · exact stops_cons (by decide) rest
    · exact stops_cons hclose rest
  obtain ⟨depth, rfl⟩ : ∃ less, depth = less + 1 := ⟨depth - 1, by omega⟩
  -- the induction is on the value; one level of the depth is spent on each bracket
  induction h generalizing depth rest with
  | null => rfl
  | bool b => cases b <;> rfl
  | number hn => exact value_numeral_stops hn hrest depth
  | @string text _ =>
      have hprint : print token (.string text) ++ rest =
          quote :: (text.flatMap escapeUnit ++ quote :: rest) := by
        simp [print, printString]
      rw [hprint, value_quote, string_printed]
      rfl
  | @array items hitems ih =>
      have hprint : print token (.array items) =
          openBracket :: ([comma].intercalate (items.map (print token)) ++ [closeBracket]) := by
        simp only [print, printItems_eq]
      have hitem : ∀ item ∈ items, ∀ unit more, unit = comma ∨ unit = closeBracket →
          value depth (print token item ++ unit :: more) =
            some (item.map token, unit :: more) := by
        intro item hmem unit more hunit
        have hlength := length_le_of_mem comma (List.mem_map_of_mem (f := print token) hmem)
        simp only [hprint, List.length_cons, List.length_append] at hdepth
        obtain ⟨less, rfl⟩ : ∃ less, depth = less + 1 := ⟨depth - 1, by omega⟩
        exact ih item hmem (hseparator (by decide) unit more hunit) less (by omega)
      have hread := sequence_joined closes_bracket
        (fun item hmem => print_start (hitems item hmem)) hitem rest
      rw [hprint, List.cons_append, List.append_assoc, List.singleton_append,
        value_openBracket, hread]
      simp only [Json.map, Json.mapItems_eq]
      rfl
  | @object members hnames hvalues ih =>
      have hprint : print token (.object members) =
          openBrace :: ([comma].intercalate (members.map (printMember token)) ++
            [closeBrace]) := by
        simp only [print, printMembers_eq]
      have hitem : ∀ entry ∈ members, ∀ unit more, unit = comma ∨ unit = closeBrace →
          member (value depth) (printMember token entry ++ unit :: more) =
            some ((entry.1, entry.2.map token), unit :: more) := by
        intro entry hmem unit more hunit
        have hlength := length_le_of_mem comma
          (List.mem_map_of_mem (f := printMember token) hmem)
        simp only [hprint, List.length_cons, List.length_append, printMember] at hdepth hlength
        obtain ⟨less, rfl⟩ : ∃ less, depth = less + 1 := ⟨depth - 1, by omega⟩
        have hvalue := ih entry hmem (hseparator (by decide) unit more hunit) less (by omega)
        exact member_printed entry.1 hvalue
      have hstart : ∀ entry ∈ members, ∃ first more, printMember token entry = first :: more ∧
          isSpace first = false ∧ first ≠ closeBrace :=
        fun entry _ => ⟨_, _, rfl, rfl, by decide⟩
      have hread := sequence_joined closes_brace hstart hitem rest
      rw [hprint, List.cons_append, List.append_assoc, List.singleton_append,
        value_openBrace, hread]
      simp only [Json.map, Json.mapMembers_eq]
      rfl

/-- The reader inverts the writer. -/
theorem parse_print {token : N → Utf16} {json : Json N}
    (h : json.All (fun n => isNumeral (token n) = true) fun _ => True) :
    parse (print token json) = some (json.map token) := by
  have hvalue := value_print h (Nat.lt_succ_self _) stops_nil
  rw [List.append_nil] at hvalue
  rw [parse, hvalue]
  rfl

theorem flatMap_escapeUnit_plain {text : Utf16} (h : Plain text) :
    text.flatMap escapeUnit = text := by
  induction text with
  | nil => rfl
  | cons unit text ih =>
      obtain ⟨⟨hquote, hbackslash, hcontrol⟩, htext⟩ := plain_cons.mp h
      have hunit : escapeUnit unit = [unit] := by
        simp [escapeUnit, hquote, hbackslash, hcontrol]
      rw [List.flatMap_cons, hunit, ih htext]
      rfl

/-- Only characters of ASCII are escaped, and by such characters. -/
theorem wellFormed_escapeChar (c : Char) : WellFormed ((encodeChar c).flatMap escapeUnit) := by
  by_cases hascii : c.toNat < 128
  · have hall : ∀ n : Fin 128, WellFormed (escapeUnit (UInt16.ofNat n.val)) := by
      decide
    have hunits : encodeChar c = [UInt16.ofNat c.toNat] := if_pos (by omega)
    rw [hunits, List.flatMap_singleton]
    exact hall ⟨c.toNat, hascii⟩
  · have hplain {n : Nat} (hlow : 128 ≤ n) (hhigh : n < 0x10000) :
        UInt16.ofNat n ≠ quote ∧ UInt16.ofNat n ≠ backslash ∧ ¬ UInt16.ofNat n < 0x20 := by
      have hn : (UInt16.ofNat n).toNat = n := by
        simp only [UInt16.toNat_ofNat']
        omega
      refine ⟨?_, ?_, ?_⟩
      · intro hsame
        rw [hsame, quote] at hn
        change 0x22 = n at hn
        omega
      · intro hsame
        rw [hsame, backslash] at hn
        change 0x5C = n at hn
        omega
      · rw [UInt16.lt_iff_toNat_lt, hn]
        change ¬ n < 0x20
        omega
    have hchar : Plain (encodeChar c) := by
      have hvalid := c.val.toNat_lt
      have hbound : c.toNat < 0x110000 := by
        rcases c.valid with hlow | hhigh
        · exact Nat.lt_of_lt_of_le hlow (by decide)
        · exact hhigh.2
      unfold encodeChar
      split
      · next hplane =>
          exact plain_cons.mpr ⟨hplain (by omega) hplane, plain_nil⟩
      · exact plain_cons.mpr ⟨hplain (by omega) (by omega),
          plain_cons.mpr ⟨hplain (by omega) (by omega), plain_nil⟩⟩
    rw [flatMap_escapeUnit_plain hchar]
    have hone := wellFormed_encode [c]
    rwa [encode_cons, encode_nil, List.append_nil] at hone

theorem wellFormed_printString {text : Utf16} (h : WellFormed text) :
    WellFormed (printString text) := by
  have hquote : IsScalar quote := by decide
  have hescaped : WellFormed (text.flatMap escapeUnit) := by
    obtain ⟨chars, hchars⟩ := Option.isSome_iff_exists.mp h
    rw [← encode_of_decode hchars]
    clear hchars h
    induction chars with
    | nil => exact wellFormed_nil
    | cons c chars ih =>
        rw [encode_cons, List.flatMap_append, wellFormed_append (wellFormed_escapeChar c)]
        exact ih
  rw [printString, wellFormed_cons hquote, wellFormed_append hescaped, wellFormed_cons hquote]
  exact wellFormed_nil

/-- The written text has a UTF-8 form. -/
theorem wellFormed_print {token : N → Utf16} {json : Json N}
    (h : json.All (fun n => isNumeral (token n) = true) WellFormed) :
    WellFormed (print token json) := by
  have hcomma : IsScalar comma := by decide
  have hcolon : IsScalar colon := by decide
  have hbrackets : (IsScalar openBracket ∧ IsScalar closeBracket) ∧
      IsScalar openBrace ∧ IsScalar closeBrace := by decide
  obtain ⟨⟨hopen, hclose⟩, hopenBrace, hcloseBrace⟩ := hbrackets
  induction h with
  | null => exact (by decide : WellFormed [0x6E, 0x75, 0x6C, 0x6C])
  | bool b =>
      cases b with
      | true => exact (by decide : WellFormed [0x74, 0x72, 0x75, 0x65])
      | false => exact (by decide : WellFormed [0x66, 0x61, 0x6C, 0x73, 0x65])
  | number hn => exact wellFormed_of_isNumeral hn
  | string htext => exact wellFormed_printString htext
  | array _ ih =>
      rw [print, wellFormed_cons hopen, printItems_eq, wellFormed_append_cons _ hclose,
        wellFormed_intercalate hcomma, List.forall_mem_map]
      exact ⟨ih, wellFormed_nil⟩
  | object hnames _ ih =>
      rw [print, wellFormed_cons hopenBrace, printMembers_eq,
        wellFormed_append_cons _ hcloseBrace, wellFormed_intercalate hcomma,
        List.forall_mem_map]
      refine ⟨?_, wellFormed_nil⟩
      intro member hmember
      rw [printMember, wellFormed_append_cons _ hcolon]
      exact ⟨wellFormed_printString (hnames member hmember), ih member hmember⟩

/-- Written as UTF-8 and parsed, a value comes back. -/
theorem parseUtf8_print {token : N → Utf16} {json : Json N}
    (h : json.All (fun n => isNumeral (token n) = true) WellFormed) :
    ∃ text, decode (print token json) = some text ∧
      parseUtf8 (String.ofList text).toUTF8 = some (json.map token) := by
  obtain ⟨text, htext⟩ := Option.isSome_iff_exists.mp (wellFormed_print h)
  refine ⟨text, htext, ?_⟩
  rw [parseUtf8_toUTF8, encode_of_decode htext]
  exact parse_print (h.imp (fun _ hn => hn) fun _ _ => trivial)

end JsonText
