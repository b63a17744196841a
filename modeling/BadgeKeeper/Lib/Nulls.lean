import BadgeKeeper.Lib.Schema

/-!
When readers of JSON values take a null member for an absent one. A law of a
reader compares every conforming value with the same value without its nulls:
the latter is accepted, and the former is accepted and reads the same exactly
when it is clean. The law of a reader of objects is put together member by
member, so that a class extends the law of its superclass.
-/

namespace Json

open Unicode (Utf16)

/-- What a reader makes of an input and of the input without its nulls. -/
def TakesForAbsent {ι α : Type*} (accepts : ι → Bool) (read : ι → α) (without input : ι)
    (clean : Bool) : Prop :=
  accepts without = true ∧
    (accepts input = true ∧ read without = read input ↔ clean = true)

namespace TakesForAbsent

variable {ι κ α β : Type*} {accepts : ι → Bool} {read : ι → α} {without input : ι}
  {clean : Bool}

/-- Two readers of one input. -/
theorem and {accepts' : ι → Bool} {read' : ι → β} {clean' : Bool}
    (h : TakesForAbsent accepts read without input clean)
    (h' : TakesForAbsent accepts' read' without input clean') :
    TakesForAbsent (fun i => accepts i && accepts' i) (fun i => (read i, read' i))
      without input (clean && clean') := by
  obtain ⟨hwithout, hinput⟩ := h
  obtain ⟨hwithout', hinput'⟩ := h'
  constructor
  · simp only [hwithout, hwithout', Bool.and_self]
  · rw [Bool.and_eq_true, Bool.and_eq_true, ← hinput, ← hinput', Prod.mk.injEq]
    exact and_and_and_comm

/-- A reader of a part of the input. -/
theorem comap {f : κ → ι} {without input : κ}
    (h : TakesForAbsent accepts read (f without) (f input) clean) :
    TakesForAbsent (fun k => accepts (f k)) (fun k => read (f k)) without input clean :=
  h

/-- The reading under another form. -/
theorem map {f : α → β} (hf : f.Injective)
    (h : TakesForAbsent accepts read without input clean) :
    TakesForAbsent accepts (fun i => f (read i)) without input clean := by
  obtain ⟨hwithout, hinput⟩ := h
  refine ⟨hwithout, ?_⟩
  rw [hf.eq_iff]
  exact hinput

/-- A reader of lists, from that of their elements. -/
theorem list {removeNulls : ι → ι} {cleanElement : ι → Bool} {elements : List ι}
    (h : ∀ element ∈ elements,
      TakesForAbsent accepts read (removeNulls element) element (cleanElement element)) :
    TakesForAbsent (fun list => list.all accepts) (fun list => list.map read)
      (elements.map removeNulls) elements (elements.all cleanElement) := by
  induction elements with
  | nil => exact ⟨rfl, by simp⟩
  | cons element rest ih =>
      obtain ⟨hwithout, hinput⟩ := h element (List.mem_cons_self ..)
      have htail := ih fun other hother => h other (List.mem_cons_of_mem _ hother)
      obtain ⟨htailWithout, htailInput⟩ := htail
      constructor
      · simp only [List.map_cons, List.all_cons, hwithout, Bool.true_and]
        exact htailWithout
      · simp only [List.all_cons, List.map_cons, Bool.and_eq_true, List.cons.injEq]
        rw [← hinput, ← htailInput]
        exact and_and_and_comm

end TakesForAbsent

namespace Schema

variable {N α β : Type*} {schema : Schema} {fields : List (Utf16 × Schema)}

/-- A member as the object without nulls has it. -/
def presentMember (schema : Schema) (member : Option (Json N)) : Option (Json N) :=
  bif member.any isNull then none else member.map schema.withoutNulls

def memberConforms (schema : Schema) (member : Option (Json N)) : Bool :=
  member.all fun value => value.isNull || schema.conforms value

def memberNullFree (schema : Schema) (member : Option (Json N)) : Bool :=
  member.all fun value => !value.isNull && schema.nullFree value

@[simp] theorem presentMember_none : schema.presentMember (none : Option (Json N)) = none :=
  rfl

/-- The law of a reader of values. -/
def NullLaw (schema : Schema) (accepts : Json N → Bool) (read : Json N → α)
    (clean : Json N → Bool) : Prop :=
  ∀ json, schema.conforms json = true →
    TakesForAbsent accepts read (schema.withoutNulls json) json (clean json)

/-- The law of a reader of one member, absent or not. -/
def MemberNullLaw (schema : Schema) (accepts : Option (Json N) → Bool)
    (read : Option (Json N) → α) (clean : Option (Json N) → Bool) : Prop :=
  ∀ member, schema.memberConforms member = true →
    TakesForAbsent accepts read (schema.presentMember member) member (clean member)

/-- The law of a reader of some of an object's members; other listed members
lose their nulls as well. -/
def FieldsNullLaw (fields : List (Utf16 × Schema)) (accepts : Json N → Bool)
    (read : Json N → α) (clean : Json N → Bool) : Prop :=
  ∀ rest json, json.isObject = true → conformsFields fields json = true →
    TakesForAbsent accepts read ((Schema.object (fields ++ rest)).withoutNulls json) json
      (clean json)

/-- A reader of strings as they are. -/
theorem MemberNullLaw.string :
    MemberNullLaw (N := N) .string (fun _ => true) id (memberNullFree .string) := by
  intro member hconforms
  refine ⟨rfl, ?_⟩
  cases member with
  | none => simp [memberNullFree]
  | some json =>
      cases json <;>
        simp_all [presentMember, memberConforms, memberNullFree, withoutNulls, prune,
          nullFree, conforms, isNull]

/-- A reader of a member that does not accept null. -/
theorem NullLaw.member {accepts : Json N → Bool} {read : Json N → α}
    (h : NullLaw schema accepts read schema.nullFree) (hnull : accepts .null = false) :
    MemberNullLaw schema (fun member => member.all accepts) (fun member => member.map read)
      schema.memberNullFree := by
  intro member hconforms
  cases member with
  | none => exact ⟨rfl, by simp [memberNullFree]⟩
  | some json =>
      cases hjson : json.isNull with
      | true =>
          obtain rfl : json = .null := by
            cases json <;> simp_all [isNull]
          exact ⟨rfl, by simp [memberNullFree, hnull, isNull]⟩
      | false =>
          have hvalue : schema.conforms json = true := by
            simpa [memberConforms, hjson] using hconforms
          obtain ⟨hwithout, hinput⟩ := h json hvalue
          have hpresent : schema.presentMember (some json) = some (schema.withoutNulls json) := by
            simp [presentMember, hjson]
          rw [hpresent]
          refine ⟨hwithout, ?_⟩
          simp only [memberNullFree, Option.all_some, hjson, Bool.not_false, Bool.true_and,
            Option.map_some, Option.some.injEq]
          exact hinput

namespace FieldsNullLaw

variable {accepts : Json N → Bool} {read : Json N → α} {clean : Json N → Bool}
  {acceptsMember : Option (Json N) → Bool} {readMember : Option (Json N) → β}
  {cleanMember : Option (Json N) → Bool}

/-- A reader of no member. -/
theorem nil :
    FieldsNullLaw (N := N) [] isObject (fun _ => ()) (nullFreeFields []) := by
  intro rest json hobject _
  have hwithout : ((Schema.object rest).withoutNulls json).isObject = json.isObject :=
    isObject_prune json
  refine ⟨hwithout.trans hobject, ?_⟩
  simp [hobject, nullFreeFields]

/-- One more member. -/
theorem snoc (h : FieldsNullLaw fields accepts read clean) (name : Utf16)
    (hfresh : fields.lookup name = none)
    (hmember : MemberNullLaw schema acceptsMember readMember cleanMember) :
    FieldsNullLaw (fields ++ [(name, schema)])
      (fun json => accepts json && acceptsMember (json.member? name))
      (fun json => (read json, readMember (json.member? name)))
      (fun json => clean json && cleanMember (json.member? name)) := by
  intro rest json hobject hconforms
  simp only [conformsFields_append, conformsFields, Bool.and_true, Bool.and_eq_true] at hconforms
  obtain ⟨hfields, hlast⟩ := hconforms
  rw [List.append_assoc, List.singleton_append]
  have hlisted : (fields ++ (name, schema) :: rest).lookup name = some schema := by
    simp [List.lookup_append, hfresh]
  have hfirst := h ((name, schema) :: rest) json hobject hfields
  have hsecond := hmember (json.member? name) hlast
  rw [presentMember, ← member?_withoutNulls hlisted json] at hsecond
  exact hfirst.and hsecond.comap

/-- One more member, which must not be null at any depth. -/
theorem snoc_nullFree (h : FieldsNullLaw fields accepts read (nullFreeFields fields))
    (name : Utf16) (hfresh : fields.lookup name = none)
    (hmember : MemberNullLaw schema acceptsMember readMember schema.memberNullFree) :
    FieldsNullLaw (fields ++ [(name, schema)])
      (fun json => accepts json && acceptsMember (json.member? name))
      (fun json => (read json, readMember (json.member? name)))
      (nullFreeFields (fields ++ [(name, schema)])) := by
  intro rest json hobject hconforms
  have hsnoc := h.snoc name hfresh hmember rest json hobject hconforms
  rw [nullFreeFields_append]
  simpa [nullFreeFields, memberNullFree] using hsnoc

/-- One more string, which is read as it is. -/
theorem snoc_string (h : FieldsNullLaw fields accepts read (nullFreeFields fields))
    (name : Utf16) (hfresh : fields.lookup name = none) :
    FieldsNullLaw (fields ++ [(name, .string)]) accepts
      (fun json => (read json, json.member? name))
      (nullFreeFields (fields ++ [(name, .string)])) := by
  have hsnoc := h.snoc_nullFree name hfresh MemberNullLaw.string
  simpa using hsnoc

/-- The reading put together by `f`, which `g` takes apart. -/
theorem map (h : FieldsNullLaw fields accepts read clean) (f : α → β) (g : β → α)
    (hinverse : Function.LeftInverse g f) :
    FieldsNullLaw fields accepts (fun json => f (read json)) clean := by
  intro rest json hobject hconforms
  exact (h rest json hobject hconforms).map hinverse.injective

/-- A reader of all members of its schema. -/
theorem nullLaw (h : FieldsNullLaw fields accepts read clean) :
    NullLaw (.object fields) accepts read clean := by
  intro json hconforms
  rw [conforms_object, Bool.and_eq_true] at hconforms
  have hall := h [] json hconforms.1 hconforms.2
  rw [List.append_nil] at hall
  exact hall

end FieldsNullLaw

/-- A reader of all members of its schema, none of which may be null. -/
theorem FieldsNullLaw.nullLaw_nullFree {accepts : Json N → Bool} {read : Json N → α}
    (h : FieldsNullLaw fields accepts read (nullFreeFields fields)) :
    NullLaw (.object fields) accepts read (nullFree (.object fields)) := by
  intro json hconforms
  rw [nullFree_object]
  exact h.nullLaw json hconforms

end Schema

end Json
