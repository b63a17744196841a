import Mathlib.Tactic
import BadgeKeeper.Lib.Json

/-!
Schemas of JSON values. A schema lists the members that a reader of a value
knows, with the schema of each; a value may have other members, and may lack
some. Pruning a value removes members from the objects that the schema
reaches: `keep` the members that the schema does not list, and `withoutNulls`
the listed ones that are null.
-/

namespace Json

open Unicode (Utf16)

variable {N : Type*}

def isNull : Json N → Bool
  | .null => true
  | _ => false

inductive Schema where
  | string
  /-- A number, or a boolean in its place. -/
  | number
  | list (element : Schema)
  | object (fields : List (Utf16 × Schema))

namespace Schema

mutual

/-- Whether a value is of the right type; a listed member may be absent or null. -/
def conforms : Schema → Json N → Bool
  | .string, .string _ => true
  | .number, .number _ | .number, .bool _ => true
  | .list element, .array items => items.all element.conforms
  | .object fields, .object members => conformsFields fields (.object members)
  | _, _ => false

def conformsFields : List (Utf16 × Schema) → Json N → Bool
  | [], _ => true
  | (name, schema) :: rest, json =>
      ((json.member? name).all fun value => value.isNull || schema.conforms value) &&
        conformsFields rest json

end

mutual

/-- Whether no listed member is null, at any depth. -/
def nullFree : Schema → Json N → Bool
  | .list element, .array items => items.all element.nullFree
  | .object fields, json => nullFreeFields fields json
  | _, _ => true

def nullFreeFields : List (Utf16 × Schema) → Json N → Bool
  | [], _ => true
  | (name, schema) :: rest, json =>
      ((json.member? name).all fun value => !value.isNull && schema.nullFree value) &&
        nullFreeFields rest json

end

mutual

/-- Remove members at every depth. Whether a member goes depends on whether the
schema lists it and on the value that its name reads as. -/
def prune (drop : Bool → Option (Json N) → Bool) : Schema → Json N → Json N
  | .list element, .array items => .array (items.map (element.prune drop))
  | .object fields, .object members =>
      .object ((members.filter fun member =>
          !drop (fields.lookup member.1).isSome (members.lookup member.1)).map
        fun member => (member.1, pruneField drop fields member.1 member.2))
  | _, json => json

def pruneField (drop : Bool → Option (Json N) → Bool) :
    List (Utf16 × Schema) → Utf16 → Json N → Json N
  | [], _, json => json
  | (name, schema) :: rest, key, json =>
      if key = name then schema.prune drop json else pruneField drop rest key json

end

/-- Only the members that the schema lists. -/
def keep : Schema → Json N → Json N := prune fun listed _ => !listed

/-- Without the listed members that are null. -/
def withoutNulls : Schema → Json N → Json N :=
  prune fun listed value => listed && value.any isNull

section

variable {drop : Bool → Option (Json N) → Bool} {fields : List (Utf16 × Schema)}
  {name : Utf16} {schema : Schema}

theorem pruneField_of_lookup (hfield : fields.lookup name = some schema) (json : Json N) :
    pruneField drop fields name json = schema.prune drop json := by
  induction fields with
  | nil => cases hfield
  | cons field rest ih =>
      obtain ⟨other, first⟩ := field
      rw [List.lookup_cons] at hfield
      by_cases hsame : name = other
      · rw [beq_iff_eq.mpr hsame] at hfield
        cases hfield
        simp only [pruneField, if_pos hsame]
      · rw [beq_eq_false_iff_ne.mpr hsame] at hfield
        simp only [pruneField, if_neg hsame]
        exact ih hfield

/-- Looking up in a list whose entries are selected by their keys. -/
theorem lookup_filter_map {κ α β : Type*} [BEq κ] [LawfulBEq κ] (selects : κ → Bool)
    (f : κ → α → β) (l : List (κ × α)) (key : κ) :
    ((l.filter fun entry => selects entry.1).map
        fun entry => (entry.1, f entry.1 entry.2)).lookup key =
      bif selects key then (l.lookup key).map (f key) else none := by
  induction l with
  | nil => simp
  | cons entry rest ih =>
      obtain ⟨other, value⟩ := entry
      cases hsame : key == other with
      | true =>
          obtain rfl := eq_of_beq hsame
          cases hselects : selects key with
          | true => simp [hselects]
          | false => simpa [hselects] using ih
      | false =>
          cases hother : selects other <;> simp [hother, List.lookup_cons, hsame, ih]

@[simp] theorem isObject_prune (json : Json N) :
    (schema.prune drop json).isObject = json.isObject := by
  cases schema <;> cases json <;> simp [prune, isObject]

theorem member?_prune (hfield : fields.lookup name = some schema) (json : Json N) :
    ((Schema.object fields).prune drop json).member? name =
      bif drop true (json.member? name) then none
      else (json.member? name).map (schema.prune drop) := by
  cases json with
  | object members =>
      have hprune : pruneField drop fields name = schema.prune drop :=
        funext (pruneField_of_lookup hfield)
      have hlookup := lookup_filter_map
        (fun key => !drop (fields.lookup key).isSome (members.lookup key))
        (pruneField drop fields) members name
      rw [hfield, hprune, Option.isSome_some, Bool.cond_not] at hlookup
      simp only [prune, member?]
      exact hlookup
  | null | bool _ | number _ | string _ | array _ =>
      simp only [prune, member?]
      cases drop true none <;> rfl

theorem prune_string (json : Json N) : Schema.string.prune drop json = json := by
  cases json <;> rfl

theorem prune_number (json : Json N) : Schema.number.prune drop json = json := by
  cases json <;> rfl

/-- Pruning neither makes a value null nor replaces null. -/
theorem isNull_prune (json : Json N) : (schema.prune drop json).isNull = json.isNull := by
  cases schema <;> cases json <;> simp [prune, isNull]

theorem keep_array (element : Schema) (items : List (Json N)) :
    (Schema.list element).keep (.array items) = .array (items.map element.keep) := by
  simp only [keep, prune]

theorem withoutNulls_array (element : Schema) (items : List (Json N)) :
    (Schema.list element).withoutNulls (.array items) =
      .array (items.map element.withoutNulls) := by
  simp only [withoutNulls, prune]

/-- Listed members are kept. -/
theorem member?_keep (hfield : fields.lookup name = some schema) (json : Json N) :
    ((Schema.object fields).keep json).member? name = (json.member? name).map schema.keep :=
  member?_prune hfield json

theorem member?_withoutNulls (hfield : fields.lookup name = some schema) (json : Json N) :
    ((Schema.object fields).withoutNulls json).member? name =
      bif (json.member? name).any isNull then none
      else (json.member? name).map schema.withoutNulls :=
  member?_prune hfield json

end

theorem conforms_object (fields : List (Utf16 × Schema)) (json : Json N) :
    (Schema.object fields).conforms json = (json.isObject && conformsFields fields json) := by
  cases json <;> simp [conforms, isObject]

theorem nullFree_object (fields : List (Utf16 × Schema)) (json : Json N) :
    (Schema.object fields).nullFree json = nullFreeFields fields json := by
  simp only [nullFree]

theorem conformsFields_append (first second : List (Utf16 × Schema)) (json : Json N) :
    conformsFields (first ++ second) json =
      (conformsFields first json && conformsFields second json) := by
  induction first with
  | nil => simp [conformsFields]
  | cons field rest ih => simp [conformsFields, ih, Bool.and_assoc]

theorem nullFreeFields_append (first second : List (Utf16 × Schema)) (json : Json N) :
    nullFreeFields (first ++ second) json =
      (nullFreeFields first json && nullFreeFields second json) := by
  induction first with
  | nil => simp [nullFreeFields]
  | cons field rest ih => simp [nullFreeFields, ih, Bool.and_assoc]

/-- The function only looks at members that the schema lists. -/
def Covers {α : Type*} (schema : Schema) (f : Json N → α) : Prop :=
  ∀ json, f (schema.keep json) = f json

theorem Covers.eq_of_keep_eq {α : Type*} {schema : Schema} {f : Json N → α}
    (h : schema.Covers f) {json json' : Json N} (hkeep : schema.keep json = schema.keep json') :
    f json = f json' := by
  rw [← h json, hkeep, h json']

/-- The function of one member only looks at what the schema keeps of it. -/
def MemberCovers {α : Type*} (schema : Schema) (f : Option (Json N) → α) : Prop :=
  ∀ member, f (member.map schema.keep) = f member

/-- The function only looks at these members of an object, whatever other
members the schema of the object lists. -/
def FieldsCover {α : Type*} (fields : List (Utf16 × Schema)) (f : Json N → α) : Prop :=
  ∀ rest, (Schema.object (fields ++ rest)).Covers f

theorem MemberCovers.string : MemberCovers (N := N) .string id := by
  intro member
  cases member with
  | none => rfl
  | some value => exact congrArg some (prune_string value)

theorem MemberCovers.number : MemberCovers (N := N) .number id := by
  intro member
  cases member with
  | none => rfl
  | some value => exact congrArg some (prune_number value)

namespace FieldsCover

variable {α β : Type*} {fields : List (Utf16 × Schema)} {schema : Schema} {f : Json N → α}

theorem nil : FieldsCover (N := N) [] isObject := by
  intro rest json
  exact isObject_prune json

/-- One more member. -/
theorem snoc {g : Option (Json N) → β} (h : FieldsCover fields f) (name : Utf16)
    (hfresh : fields.lookup name = none) (hmember : schema.MemberCovers g) :
    FieldsCover (fields ++ [(name, schema)]) fun json => (f json, g (json.member? name)) := by
  intro rest json
  have hlisted : (fields ++ (name, schema) :: rest).lookup name = some schema := by
    simp [List.lookup_append, hfresh]
  have hfirst := h ((name, schema) :: rest) json
  have hlast := hmember (json.member? name)
  rw [← member?_keep hlisted] at hlast
  rw [List.append_assoc, List.singleton_append]
  exact Prod.ext hfirst hlast

/-- A function of what is read. -/
theorem map (h : FieldsCover fields f) (g : α → β) :
    FieldsCover fields fun json => g (f json) := by
  intro rest json
  exact congrArg g (h rest json)

theorem covers (h : FieldsCover fields f) : (Schema.object fields).Covers f := by
  have hall := h []
  rw [List.append_nil] at hall
  exact hall

end FieldsCover

end Schema

end Json
