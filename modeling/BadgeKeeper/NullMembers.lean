import BadgeKeeper.Lib.Nulls
import BadgeKeeper.Schemas

/-!
Null members of responses. The decoders compare only the `Error` and `Result`
members of a response with `NSNull`. Any other null member is copied into the
model object as `NSNull`, or raises where it is sent a conversion message or
enumerated; a response is read as if its null members were absent exactly when
it has no null member but these two.
-/

namespace BadgeKeeper

open JSONObject
open Json (Schema TakesForAbsent)
open Json.Schema

section

variable {α : Type} {schema : Schema} {shape : JSONObject → Bool} {read : JSONObject → α}

/-- `NSNull` answers no conversion message. -/
theorem number_nullLaw (read : Option JSONObject → α) :
    MemberNullLaw .number convertible read (memberNullFree .number) := by
  intro member hconforms
  cases member with
  | none => exact ⟨rfl, by simp [memberNullFree, convertible]⟩
  | some json =>
      cases json with
      | null => exact ⟨rfl, by simp [memberNullFree, convertible, Json.isNull]⟩
      | number n => exact ⟨rfl, iff_of_true ⟨rfl, rfl⟩ rfl⟩
      | bool b => exact ⟨rfl, iff_of_true ⟨rfl, rfl⟩ rfl⟩
      | string _ | array _ | object _ => cases hconforms

/-- `NSNull` cannot be enumerated. -/
theorem list_nullLaw (h : schema.NullLaw shape read schema.nullFree) :
    MemberNullLaw (.list schema) (listShape shape) (fun member => (items member).map read)
      (memberNullFree (.list schema)) := by
  intro member hconforms
  cases member with
  | none => exact ⟨rfl, by simp [memberNullFree, listShape]⟩
  | some json =>
      cases json with
      | null => exact ⟨rfl, by simp [memberNullFree, listShape, Json.isNull]⟩
      | array list =>
          have helements : list.all schema.conforms = true := by
            simpa [memberConforms, conforms, Json.isNull] using hconforms
          have hlist := TakesForAbsent.list fun element helement =>
            h element (List.all_eq_true.mp helements element helement)
          have hpresent : (Schema.list schema).presentMember (some (.array list)) =
              some (.array (list.map schema.withoutNulls)) :=
            congrArg some (withoutNulls_array schema list)
          have hclean : memberNullFree (.list schema) (some (.array list)) =
              list.all schema.nullFree := by
            simp [memberNullFree, nullFree, Json.isNull]
          rw [hpresent, hclean]
          exact hlist
      | number _ | bool _ | string _ | object _ => cases hconforms

/-- A member that is compared with `NSNull` first. -/
theorem guarded_nullLaw {accepts : Option JSONObject → Bool}
    {read : Option JSONObject → α} (h : schema.MemberNullLaw accepts read schema.memberNullFree) :
    schema.MemberNullLaw (fun member => accepts (unlessNull member))
      (fun member => read (unlessNull member))
      (fun member => (unlessNull member).all schema.nullFree) := by
  intro member hconforms
  have habsent := h none rfl
  cases member with
  | none => exact habsent
  | some json =>
      cases hnull : json.isNull with
      | true =>
          obtain rfl : json = .null := by
            cases json <;> simp_all [Json.isNull]
          exact habsent
      | false =>
          have hpresent : unlessNull (schema.presentMember (some json)) =
              schema.presentMember (some json) := by
            have hwithout : (schema.withoutNulls json).isNull = json.isNull :=
              isNull_prune json
            simp [presentMember, hnull, unlessNull_some, hwithout]
          have hsame : unlessNull (some json) = some json := by
            simp [unlessNull_some, hnull]
          have hclean : (unlessNull (some json)).all schema.nullFree =
              schema.memberNullFree (some json) := by
            simp [memberNullFree, hnull, hsame]
          apply TakesForAbsent.comap
          dsimp only
          rw [hclean, hpresent, hsame]
          exact h (some json) hconforms

end

theorem BKAchievement.nullLaw :
    FieldsNullLaw fields Json.isObject BKAchievement.read (nullFreeFields fields) := by
  have hfields := FieldsNullLaw.nil (N := NSNumber)
    |>.snoc_string (ns "DisplayName") rfl
    |>.snoc_string (ns "Description") rfl
    |>.snoc_string (ns "UnlockedIcon") rfl
    |>.snoc_string (ns "LockedIcon") rfl
  have hread := hfields.map
    (fun members =>
      BKAchievement.mk members.1.1.1.2 members.1.1.2 members.1.2 members.2)
    (fun achievement =>
      (((((), achievement.displayName), achievement.desc), achievement.iconUnlocked),
        achievement.iconLocked))
    fun _ => rfl
  exact hread

theorem BKProject.nullLaw : schema.NullLaw shape read schema.nullFree := by
  have hfields := FieldsNullLaw.nil
    |>.snoc_string (ns "Title") rfl
    |>.snoc_string (ns "Description") rfl
    |>.snoc_string (ns "Icon") rfl
    |>.snoc_nullFree (ns "Achievements") rfl
      (list_nullLaw BKAchievement.nullLaw.nullLaw_nullFree)
  have hread := hfields.map
    (fun members => BKProject.mk members.1.1.1.2 members.1.1.2 members.1.2 members.2)
    (fun project =>
      (((((), project.title), project.desc), project.icon), project.achievements))
    fun _ => rfl
  exact hread.nullLaw_nullFree

section

variable [NumberFormat]

theorem BKReward.nullLaw : schema.NullLaw shape read schema.nullFree := by
  have hfields := FieldsNullLaw.nil
    |>.snoc_string (ns "Name") rfl
    |>.snoc_nullFree (ns "Value") rfl (number_nullLaw readDouble)
  have hread := hfields.map (fun members => BKReward.mk members.1.2 members.2)
    (fun reward => (((), reward.name), reward.value)) fun _ => rfl
  exact hread.nullLaw_nullFree

/-- The superclass reads its members from the same object. -/
theorem BKUserAchievement.nullLaw :
    FieldsNullLaw fields shape read (nullFreeFields fields) := by
  have hfields := BKAchievement.nullLaw
    |>.snoc_nullFree (ns "IsUnlocked") rfl (number_nullLaw readBool)
  have hread := hfields.map (fun members => BKUserAchievement.mk members.1 members.2)
    (fun achievement => (achievement.toBKAchievement, achievement.isUnlocked)) fun _ => rfl
  exact hread

theorem BKUnlockedAchievement.nullLaw :
    FieldsNullLaw fields shape read (nullFreeFields fields) := by
  have hfields := BKUserAchievement.nullLaw
    |>.snoc_nullFree (ns "Rewards") rfl (list_nullLaw BKReward.nullLaw)
  have hread := hfields.map (fun members => BKUnlockedAchievement.mk members.1 members.2)
    (fun achievement => (achievement.toBKUserAchievement, achievement.rewards)) fun _ => rfl
  exact hread

theorem BKApiResponseError.nullLaw : schema.NullLaw shape read schema.nullFree := by
  have hfields := FieldsNullLaw.nil
    |>.snoc_nullFree (ns "Code") rfl (number_nullLaw readInt)
    |>.snoc_string (ns "Message") rfl
  have hread := hfields.map (fun members => BKApiResponseError.mk members.1.2 members.2)
    (fun error => (((), error.code), error.message)) fun _ => rfl
  exact hread.nullLaw_nullFree

theorem BKApiResponse.nullLaw :
    FieldsNullLaw fields shape read
      (fun json => (errorOf json).all BKApiResponseError.schema.nullFree) := by
  have hfields := FieldsNullLaw.nil
    |>.snoc (ns "Error") rfl (guarded_nullLaw (BKApiResponseError.nullLaw.member rfl))
  have hread := hfields.map (fun members => BKApiResponse.mk members.2)
    (fun response => ((), response.error)) fun _ => rfl
  exact hread

/-- A response without a null member below its `Error` and `Result`; these two
may be null themselves. -/
def nullFreeResponse (result : Schema) (json : JSONObject) : Bool :=
  (errorOf json).all BKApiResponseError.schema.nullFree && (resultOf json).all result.nullFree

theorem BKApiResponseGetProjectAchievements.nullLaw :
    schema.NullLaw shape read (nullFreeResponse BKProject.schema) := by
  have hfields := BKApiResponse.nullLaw
    |>.snoc (ns "Result") rfl (guarded_nullLaw (BKProject.nullLaw.member rfl))
  have hread := hfields.map
    (fun members => BKApiResponseGetProjectAchievements.mk members.1 members.2)
    (fun response => (response.toBKApiResponse, response.project)) fun _ => rfl
  exact hread.nullLaw

theorem BKApiResponseGetUserAchievements.nullLaw :
    schema.NullLaw shape read (nullFreeResponse (.list BKUserAchievement.schema)) := by
  have hfields := BKApiResponse.nullLaw
    |>.snoc (ns "Result") rfl
      (guarded_nullLaw (list_nullLaw BKUserAchievement.nullLaw.nullLaw_nullFree))
  have hread := hfields.map
    (fun members => BKApiResponseGetUserAchievements.mk members.1 members.2)
    (fun response => (response.toBKApiResponse, response.achievements)) fun _ => rfl
  exact hread.nullLaw

theorem BKApiResponseSetUserChanges.nullLaw :
    schema.NullLaw shape read (nullFreeResponse (.list BKUnlockedAchievement.schema)) := by
  have hfields := BKApiResponse.nullLaw
    |>.snoc (ns "Result") rfl
      (guarded_nullLaw (list_nullLaw BKUnlockedAchievement.nullLaw.nullLaw_nullFree))
  have hread := hfields.map (fun members => BKApiResponseSetUserChanges.mk members.1 members.2)
    (fun response => (response.toBKApiResponse, response.achievements)) fun _ => rfl
  exact hread.nullLaw

end

/-- The decoder raises nothing, and answers what it answers for the value
without its null members. -/
def ReadsNullsAsAbsent {α : Type} (decode : JSONObject → Except NSException α)
    (schema : Schema) (json : JSONObject) : Prop :=
  ∃ value, decode json = .ok value ∧ decode (schema.withoutNulls json) = .ok value

theorem readsNullsAsAbsent_iff {α : Type} {decode : JSONObject → Except NSException α}
    {shape : JSONObject → Bool} {read : JSONObject → α} {schema : Schema}
    {clean : JSONObject → Bool}
    (hdecodes : Decodes decode shape read .unrecognizedSelector)
    (hlaw : schema.NullLaw shape read clean) (json : JSONObject)
    (hconforms : schema.conforms json = true) :
    ReadsNullsAsAbsent decode schema json ↔ clean json = true := by
  obtain ⟨hwithout, hinput⟩ := hlaw json hconforms
  rw [← hinput]
  unfold ReadsNullsAsAbsent
  simp only [hdecodes.eq_ok_iff]
  constructor
  · rintro ⟨value, ⟨hshape, hread⟩, _, hreadWithout⟩
    exact ⟨hshape, hreadWithout.trans hread.symm⟩
  · rintro ⟨hshape, hread⟩
    exact ⟨read json, ⟨hshape, rfl⟩, hwithout, hread⟩

section

variable [NumberFormat]

/-- Every response decoder, and that of the `Error` member, takes the null
members of a conforming value for absent exactly when it has none but `Error`
and `Result`. -/
theorem nulls_read_as_absent_iff (json : JSONObject) :
    (BKApiResponseError.schema.conforms json = true →
      (ReadsNullsAsAbsent BKApiResponseError.initWithJSON BKApiResponseError.schema json ↔
        BKApiResponseError.schema.nullFree json = true)) ∧
    (BKApiResponse.schema.conforms json = true →
      (ReadsNullsAsAbsent BKApiResponse.initWithJSON BKApiResponse.schema json ↔
        (errorOf json).all BKApiResponseError.schema.nullFree = true)) ∧
    (BKApiResponseGetProjectAchievements.schema.conforms json = true →
      (ReadsNullsAsAbsent BKApiResponseGetProjectAchievements.initWithJSON
          BKApiResponseGetProjectAchievements.schema json ↔
        nullFreeResponse BKProject.schema json = true)) ∧
    (BKApiResponseGetUserAchievements.schema.conforms json = true →
      (ReadsNullsAsAbsent BKApiResponseGetUserAchievements.initWithJSON
          BKApiResponseGetUserAchievements.schema json ↔
        nullFreeResponse (.list BKUserAchievement.schema) json = true)) ∧
    (BKApiResponseSetUserChanges.schema.conforms json = true →
      (ReadsNullsAsAbsent BKApiResponseSetUserChanges.initWithJSON
            BKApiResponseSetUserChanges.schema json ↔
          nullFreeResponse (.list BKUnlockedAchievement.schema) json = true) ∧
        (ReadsNullsAsAbsent BKApiResponseIncrementUserChanges.initWithJSON
            BKApiResponseSetUserChanges.schema json ↔
          nullFreeResponse (.list BKUnlockedAchievement.schema) json = true)) := by
  refine ⟨?_, ?_, ?_, ?_, ?_⟩
  · exact readsNullsAsAbsent_iff BKApiResponseError.decodes_initWithJSON
      BKApiResponseError.nullLaw json
  · exact readsNullsAsAbsent_iff BKApiResponse.decodes_initWithJSON
      BKApiResponse.nullLaw.nullLaw json
  · exact readsNullsAsAbsent_iff BKApiResponseGetProjectAchievements.decodes_initWithJSON
      BKApiResponseGetProjectAchievements.nullLaw json
  · exact readsNullsAsAbsent_iff BKApiResponseGetUserAchievements.decodes_initWithJSON
      BKApiResponseGetUserAchievements.nullLaw json
  · intro hconforms
    have hset := readsNullsAsAbsent_iff BKApiResponseSetUserChanges.decodes_initWithJSON
      BKApiResponseSetUserChanges.nullLaw json hconforms
    exact ⟨hset, hset⟩

end

/-- A response whose two members are null. -/
def nullResponse : JSONObject := .object [(ns "Error", .null), (ns "Result", .null)]

/-- A user's only achievement, with a null flag. -/
def nullUnlocked : JSONObject :=
  .object [(ns "Result", .array [.object [(ns "IsUnlocked", .null)]])]

/-- A project with a null title. -/
def nullTitle : JSONObject :=
  .object [(ns "Result", .object [(ns "Title", .null)])]

/-- The guarded members may be null, the flag of an achievement may not. -/
theorem nulls_read_as_absent_iff_guarded :
    letI := NumberFormat.numerals
    (ReadsNullsAsAbsent BKApiResponseError.initWithJSON BKApiResponseError.schema
        nullResponse ∧
      ReadsNullsAsAbsent BKApiResponse.initWithJSON BKApiResponse.schema nullResponse ∧
      ReadsNullsAsAbsent BKApiResponseGetProjectAchievements.initWithJSON
        BKApiResponseGetProjectAchievements.schema nullResponse ∧
      ReadsNullsAsAbsent BKApiResponseGetUserAchievements.initWithJSON
        BKApiResponseGetUserAchievements.schema nullResponse ∧
      ReadsNullsAsAbsent BKApiResponseSetUserChanges.initWithJSON
        BKApiResponseSetUserChanges.schema nullResponse) ∧
    ¬ReadsNullsAsAbsent BKApiResponseGetUserAchievements.initWithJSON
      BKApiResponseGetUserAchievements.schema nullUnlocked := by
  obtain ⟨herror, hbase, hproject, huser, hset⟩ :=
    @nulls_read_as_absent_iff NumberFormat.numerals nullResponse
  refine ⟨⟨(herror rfl).mpr rfl, (hbase rfl).mpr rfl, (hproject rfl).mpr rfl,
    (huser rfl).mpr rfl, (hset rfl).1.mpr rfl⟩, ?_⟩
  intro hreads
  obtain ⟨_, _, _, huser, _⟩ := @nulls_read_as_absent_iff NumberFormat.numerals nullUnlocked
  have hclean := (huser rfl).mp hreads
  cases hclean

/-- A null flag raises, and a null title is not an absent title. -/
theorem null_members_not_absent :
    letI := NumberFormat.numerals
    (BKApiResponseGetUserAchievements.schema.conforms nullUnlocked = true ∧
      BKApiResponseGetUserAchievements.initWithJSON nullUnlocked =
        .error .unrecognizedSelector) ∧
    (BKApiResponseGetProjectAchievements.schema.conforms nullTitle = true ∧
      ¬ReadsNullsAsAbsent BKApiResponseGetProjectAchievements.initWithJSON
        BKApiResponseGetProjectAchievements.schema nullTitle) := by
  refine ⟨⟨rfl, rfl⟩, rfl, ?_⟩
  rintro ⟨value, hread, hwithout⟩
  -- the copy of the null title is `NSNull`, which is not nil
  have htitle : value.project.map BKProject.title = some (some .null) := by
    cases hread
    rfl
  have habsent : value.project.map BKProject.title = some none := by
    cases hwithout
    rfl
  rw [htitle] at habsent
  cases habsent

end BadgeKeeper
