import BadgeKeeper.Lib.Unicode

/-!
JSON values over an arbitrary type of numbers. Strings are UTF-16, since the
escapes of the text format denote UTF-16 code units. An object keeps its
members in text order, and reading a member takes the first one of that name.
-/

inductive Json (N : Type*) where
  | null
  | bool (value : Bool)
  | number (value : N)
  | string (value : Unicode.Utf16)
  | array (items : List (Json N))
  | object (members : List (Unicode.Utf16 × Json N))

namespace Json

variable {N : Type*}

/-- Whether the value has members to read. -/
def isObject : Json N → Bool
  | .object _ => true
  | _ => false

/-- The first member of that name, if the value is an object and has one. -/
def member? (json : Json N) (name : Unicode.Utf16) : Option (Json N) :=
  match json with
  | .object members => members.lookup name
  | _ => none

@[simp] theorem member?_object (members : List (Unicode.Utf16 × Json N))
    (name : Unicode.Utf16) : (Json.object members).member? name = members.lookup name :=
  rfl

/-- An object with the members that have a value. -/
def ofFields (fields : List (Unicode.Utf16 × Option (Json N))) : Json N :=
  .object (fields.filterMap fun field => field.2.map fun value => (field.1, value))

theorem member?_ofFields {fields : List (Unicode.Utf16 × Option (Json N))}
    (hdistinct : (fields.map Prod.fst).Nodup) (name : Unicode.Utf16) :
    (ofFields fields).member? name = (fields.lookup name).join := by
  simp only [ofFields, member?_object]
  induction fields with
  | nil => rfl
  | cons field rest ih =>
      obtain ⟨other, value⟩ := field
      obtain ⟨hfresh, hrest⟩ := List.nodup_cons.mp hdistinct
      have htail := ih hrest
      cases hsame : name == other with
      | false =>
          cases value <;> simp [List.lookup_cons, hsame, htail]
      | true =>
          obtain rfl := eq_of_beq hsame
          have hnone : rest.lookup name = none := by
            apply List.lookup_eq_none_iff.mpr
            intro entry hentry
            apply bne_iff_ne.mpr
            rintro rfl
            exact hfresh (List.mem_map.mpr ⟨entry, hentry, rfl⟩)
          cases value with
          | none => simp [htail, hnone]
          | some value => simp

end Json
