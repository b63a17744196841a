import BadgeKeeper.Lib.Schema
import BadgeKeeper.Decoding

/-!
The schema of each decoder: the members that it reads from the response, by
name and with their types. A class that extends another one reads the members
of its superclass from the same object. No decoder looks at anything else, so
members of other names can be added to any of the objects.
-/

namespace BadgeKeeper

open JSONObject
open Json (Schema)

def BKReward.schema : Schema := .object [(ns "Name", .string), (ns "Value", .number)]

def BKAchievement.fields : List (NSString × Schema) :=
  [(ns "DisplayName", .string), (ns "Description", .string), (ns "UnlockedIcon", .string),
    (ns "LockedIcon", .string)]

def BKAchievement.schema : Schema := .object fields

def BKUserAchievement.fields : List (NSString × Schema) :=
  BKAchievement.fields ++ [(ns "IsUnlocked", .number)]

def BKUserAchievement.schema : Schema := .object fields

def BKUnlockedAchievement.fields : List (NSString × Schema) :=
  BKUserAchievement.fields ++ [(ns "Rewards", .list BKReward.schema)]

def BKUnlockedAchievement.schema : Schema := .object fields

def BKProject.schema : Schema :=
  .object [(ns "Title", .string), (ns "Description", .string), (ns "Icon", .string),
    (ns "Achievements", .list BKAchievement.schema)]

def BKApiResponseError.schema : Schema :=
  .object [(ns "Code", .number), (ns "Message", .string)]

def BKApiResponse.fields : List (NSString × Schema) :=
  [(ns "Error", BKApiResponseError.schema)]

def BKApiResponse.schema : Schema := .object fields

def BKApiResponseGetProjectAchievements.schema : Schema :=
  .object (BKApiResponse.fields ++ [(ns "Result", BKProject.schema)])

def BKApiResponseGetUserAchievements.schema : Schema :=
  .object (BKApiResponse.fields ++ [(ns "Result", .list BKUserAchievement.schema)])

def BKApiResponseSetUserChanges.schema : Schema :=
  .object (BKApiResponse.fields ++ [(ns "Result", .list BKUnlockedAchievement.schema)])

section

variable {α : Type} {schema : Schema} {shape : JSONObject → Bool} {read : JSONObject → α}

theorem unlessNull_some (json : JSONObject) :
    unlessNull (some json) = bif json.isNull then none else some json := by
  cases json <;> rfl

theorem unlessNull_map_keep (schema : Schema) (member : Option JSONObject) :
    unlessNull (member.map schema.keep) = (unlessNull member).map schema.keep := by
  cases member with
  | none => rfl
  | some json =>
      have hnull : (schema.keep json).isNull = json.isNull := Schema.isNull_prune json
      rw [Option.map_some, unlessNull_some, unlessNull_some, hnull]
      cases json.isNull <;> rfl

/-- A member that is compared with `NSNull` first. -/
theorem guarded_covers {f : Option JSONObject → α} (h : schema.MemberCovers f) :
    schema.MemberCovers fun member => f (unlessNull member) := by
  intro member
  have hmember := h (unlessNull member)
  rw [← unlessNull_map_keep] at hmember
  exact hmember

theorem object_covers (h : schema.Covers fun json => (shape json, read json)) :
    schema.MemberCovers fun member => (member.all shape, member.map read) := by
  intro member
  cases member with
  | none => rfl
  | some json =>
      obtain ⟨hshape, hread⟩ := Prod.mk.inj (h json)
      simp only [Option.map_some, Option.all_some, hshape, hread]

theorem list_covers (h : schema.Covers fun json => (shape json, read json)) :
    (Schema.list schema).MemberCovers fun member =>
      (listShape shape member, (items member).map read) := by
  intro member
  rcases member with _ | _ | _ | _ | _ | list | members
  case some.array =>
    have hshape : shape ∘ schema.keep = shape :=
      funext fun json => (Prod.mk.inj (h json)).1
    have hread : read ∘ schema.keep = read :=
      funext fun json => (Prod.mk.inj (h json)).2
    rw [Option.map_some, Schema.keep_array]
    simp only [listShape, items, List.all_map, List.map_map, hshape, hread]
  all_goals rfl

/-- A decoder is covered when what it accepts and what it reads are. -/
theorem covers_of_decodes {f : JSONObject → Except NSException α}
    (hdecodes : Decodes f shape read .unrecognizedSelector)
    (h : schema.Covers fun json => (shape json, read json)) : schema.Covers f := by
  intro json
  obtain ⟨hshape, hread⟩ := Prod.mk.inj (h json)
  rw [hdecodes, hdecodes, hshape, hread]

end

theorem BKAchievement.covers :
    Schema.FieldsCover fields fun json => (json.isObject, BKAchievement.read json) := by
  have hfields := Schema.FieldsCover.nil (N := NSNumber)
    |>.snoc (ns "DisplayName") rfl .string
    |>.snoc (ns "Description") rfl .string
    |>.snoc (ns "UnlockedIcon") rfl .string
    |>.snoc (ns "LockedIcon") rfl .string
  have hread := hfields.map fun members =>
    (members.1.1.1.1,
      BKAchievement.mk members.1.1.1.2 members.1.1.2 members.1.2 members.2)
  exact hread

theorem BKProject.covers : schema.Covers fun json => (shape json, read json) := by
  have hfields := Schema.FieldsCover.nil (N := NSNumber)
    |>.snoc (ns "Title") rfl .string
    |>.snoc (ns "Description") rfl .string
    |>.snoc (ns "Icon") rfl .string
    |>.snoc (ns "Achievements") rfl (list_covers BKAchievement.covers.covers)
  have hread := hfields.map fun members =>
    (members.1.1.1.1 && members.2.1,
      BKProject.mk members.1.1.1.2 members.1.1.2 members.1.2 members.2.2)
  exact hread.covers

section

variable [NumberFormat]

theorem BKReward.covers : schema.Covers fun json => (shape json, read json) := by
  have hfields := Schema.FieldsCover.nil (N := NSNumber)
    |>.snoc (ns "Name") rfl .string
    |>.snoc (ns "Value") rfl .number
  have hread := hfields.map fun members =>
    (members.1.1 && convertible members.2,
      BKReward.mk members.1.2 (readDouble members.2))
  exact hread.covers

theorem BKUserAchievement.covers :
    Schema.FieldsCover fields fun json => (shape json, read json) := by
  have hfields := BKAchievement.covers
    |>.snoc (ns "IsUnlocked") rfl .number
  have hread := hfields.map fun members =>
    (members.1.1 && convertible members.2,
      BKUserAchievement.mk members.1.2 (readBool members.2))
  exact hread

theorem BKUnlockedAchievement.covers :
    Schema.FieldsCover fields fun json => (shape json, read json) := by
  have hfields := BKUserAchievement.covers
    |>.snoc (ns "Rewards") rfl (list_covers BKReward.covers)
  have hread := hfields.map fun members =>
    (members.1.1 && members.2.1, BKUnlockedAchievement.mk members.1.2 members.2.2)
  exact hread

theorem BKApiResponseError.covers : schema.Covers fun json => (shape json, read json) := by
  have hfields := Schema.FieldsCover.nil (N := NSNumber)
    |>.snoc (ns "Code") rfl .number
    |>.snoc (ns "Message") rfl .string
  have hread := hfields.map fun members =>
    (members.1.1 && convertible members.1.2,
      BKApiResponseError.mk (readInt members.1.2) members.2)
  exact hread.covers

theorem BKApiResponse.covers :
    Schema.FieldsCover fields fun json => (shape json, read json) := by
  have hfields := Schema.FieldsCover.nil (N := NSNumber)
    |>.snoc (ns "Error") rfl (guarded_covers (object_covers BKApiResponseError.covers))
  have hread := hfields.map fun members =>
    (members.1 && members.2.1, BKApiResponse.mk members.2.2)
  exact hread

theorem BKApiResponseGetProjectAchievements.covers_initWithJSON :
    schema.Covers initWithJSON := by
  have hfields := BKApiResponse.covers
    |>.snoc (ns "Result") rfl (guarded_covers (object_covers BKProject.covers))
  have hread := hfields.map fun members =>
    (members.1.1 && members.2.1,
      BKApiResponseGetProjectAchievements.mk members.1.2 members.2.2)
  exact covers_of_decodes decodes_initWithJSON hread.covers

theorem BKApiResponseGetUserAchievements.covers_initWithJSON :
    schema.Covers initWithJSON := by
  have hfields := BKApiResponse.covers
    |>.snoc (ns "Result") rfl
      (guarded_covers (list_covers BKUserAchievement.covers.covers))
  have hread := hfields.map fun members =>
    (members.1.1 && members.2.1,
      BKApiResponseGetUserAchievements.mk members.1.2 members.2.2)
  exact covers_of_decodes decodes_initWithJSON hread.covers

theorem BKApiResponseSetUserChanges.covers_initWithJSON : schema.Covers initWithJSON := by
  have hfields := BKApiResponse.covers
    |>.snoc (ns "Result") rfl
      (guarded_covers (list_covers BKUnlockedAchievement.covers.covers))
  have hread := hfields.map fun members =>
    (members.1.1 && members.2.1,
      BKApiResponseSetUserChanges.mk members.1.2 members.2.2)
  exact covers_of_decodes decodes_initWithJSON hread.covers

end

end BadgeKeeper
