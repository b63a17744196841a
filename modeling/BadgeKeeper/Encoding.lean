import BadgeKeeper.Schemas

/-!
A reference encoder for the responses, and that decoding inverts it. The
encoder writes each model object with the member names that its decoder reads
and leaves absent members out; how a double becomes a JSON number is a
parameter. Members of other names make no difference.
-/

namespace BadgeKeeper

open JSONObject
open Json (Schema ofFields)

def BKAchievement.members (achievement : BKAchievement) :
    List (NSString × Option JSONObject) :=
  [(ns "DisplayName", achievement.displayName), (ns "Description", achievement.desc),
    (ns "UnlockedIcon", achievement.iconUnlocked), (ns "LockedIcon", achievement.iconLocked)]

def BKUserAchievement.members (achievement : BKUserAchievement) :
    List (NSString × Option JSONObject) :=
  achievement.toBKAchievement.members ++
    [(ns "IsUnlocked", some (.bool achievement.isUnlocked))]

def BKReward.members (box : Double → NSNumber) (reward : BKReward) :
    List (NSString × Option JSONObject) :=
  [(ns "Name", reward.name), (ns "Value", some (.number (box reward.value)))]

def BKUnlockedAchievement.members (box : Double → NSNumber)
    (achievement : BKUnlockedAchievement) : List (NSString × Option JSONObject) :=
  achievement.toBKUserAchievement.members ++
    [(ns "Rewards", some (.array (achievement.rewards.map fun reward =>
      ofFields (reward.members box))))]

def BKProject.members (project : BKProject) : List (NSString × Option JSONObject) :=
  [(ns "Title", project.title), (ns "Description", project.desc), (ns "Icon", project.icon),
    (ns "Achievements", some (.array (project.achievements.map fun achievement =>
      ofFields achievement.members)))]

/-- A response with this `Result` and without an `Error`. -/
def encodeResponse (result : JSONObject) : JSONObject :=
  ofFields [(ns "Result", some result)]

def encodeProject (project : BKProject) : JSONObject :=
  encodeResponse (ofFields project.members)

def encodeUserAchievements (list : List BKUserAchievement) : JSONObject :=
  encodeResponse (.array (list.map fun achievement => ofFields achievement.members))

def encodeUnlockedAchievements (box : Double → NSNumber)
    (list : List BKUnlockedAchievement) : JSONObject :=
  encodeResponse (.array (list.map fun achievement => ofFields (achievement.members box)))

/-- No class of the hierarchy reads a name that one of its superclasses reads. -/
theorem BKUnlockedAchievement.fields_nodup : (fields.map Prod.fst).Nodup := by
  decide

theorem BKUserAchievement.fields_nodup : (fields.map Prod.fst).Nodup := by
  have hall := BKUnlockedAchievement.fields_nodup
  rw [BKUnlockedAchievement.fields, List.map_append] at hall
  exact hall.of_append_left

theorem BKAchievement.fields_nodup : (fields.map Prod.fst).Nodup := by
  have hall := BKUserAchievement.fields_nodup
  rw [BKUserAchievement.fields, List.map_append] at hall
  exact hall.of_append_left

theorem BKAchievement.members_nodup (achievement : BKAchievement) :
    (achievement.members.map Prod.fst).Nodup :=
  BKAchievement.fields_nodup

theorem BKUserAchievement.members_nodup (achievement : BKUserAchievement) :
    (achievement.members.map Prod.fst).Nodup :=
  BKUserAchievement.fields_nodup

theorem BKUnlockedAchievement.members_nodup (box : Double → NSNumber)
    (achievement : BKUnlockedAchievement) :
    ((achievement.members box).map Prod.fst).Nodup :=
  BKUnlockedAchievement.fields_nodup

theorem BKReward.members_nodup (box : Double → NSNumber) (reward : BKReward) :
    ((reward.members box).map Prod.fst).Nodup := by
  change [ns "Name", ns "Value"].Nodup
  decide

theorem BKProject.members_nodup (project : BKProject) :
    (project.members.map Prod.fst).Nodup := by
  change [ns "Title", ns "Description", ns "Icon", ns "Achievements"].Nodup
  decide

/-- The four members of an achievement, also where a subclass adds its own. -/
theorem BKAchievement.read_ofFields (achievement : BKAchievement)
    {rest : List (NSString × Option JSONObject)}
    (hdistinct : ((achievement.members ++ rest).map Prod.fst).Nodup) :
    read (ofFields (achievement.members ++ rest)) = achievement := by
  unfold read
  simp only [Json.member?_ofFields hdistinct]
  rfl

theorem BKAchievement.read_members (achievement : BKAchievement) :
    read (ofFields achievement.members) = achievement := by
  have hread := @BKAchievement.read_ofFields achievement []
  rw [List.append_nil] at hread
  exact hread achievement.members_nodup

theorem BKProject.shape_members (project : BKProject) :
    shape (ofFields project.members) = true := by
  unfold shape
  rw [Json.member?_ofFields project.members_nodup]
  change (true && (project.achievements.map fun achievement =>
    ofFields achievement.members).all Json.isObject) = true
  rw [Bool.true_and, List.all_map]
  exact List.all_eq_true.mpr fun _ _ => rfl

theorem BKProject.read_members (project : BKProject) :
    read (ofFields project.members) = project := by
  have hlist : (project.achievements.map fun achievement =>
      ofFields achievement.members).map BKAchievement.read = project.achievements := by
    rw [List.map_map]
    exact List.map_id'' BKAchievement.read_members _
  unfold read
  simp only [Json.member?_ofFields project.members_nodup]
  change BKProject.mk project.title project.desc project.icon
    ((project.achievements.map fun achievement =>
      ofFields achievement.members).map BKAchievement.read) = project
  rw [hlist]

section

variable [NumberFormat]

omit [NumberFormat] in
theorem BKUserAchievement.shape_ofFields (achievement : BKUserAchievement)
    {rest : List (NSString × Option JSONObject)}
    (hdistinct : ((achievement.members ++ rest).map Prod.fst).Nodup) :
    shape (ofFields (achievement.members ++ rest)) = true := by
  unfold shape
  rw [Json.member?_ofFields hdistinct]
  rfl

theorem BKUserAchievement.read_ofFields (achievement : BKUserAchievement)
    {rest : List (NSString × Option JSONObject)}
    (hdistinct : ((achievement.members ++ rest).map Prod.fst).Nodup) :
    read (ofFields (achievement.members ++ rest)) = achievement := by
  have hsuper : BKAchievement.read (ofFields (achievement.members ++ rest)) =
      achievement.toBKAchievement := by
    unfold members at hdistinct ⊢
    rw [List.append_assoc] at hdistinct ⊢
    exact BKAchievement.read_ofFields _ hdistinct
  unfold read
  rw [hsuper, Json.member?_ofFields hdistinct]
  rfl

omit [NumberFormat] in
theorem BKUserAchievement.shape_members (achievement : BKUserAchievement) :
    shape (ofFields achievement.members) = true := by
  have hshape := @BKUserAchievement.shape_ofFields achievement []
  rw [List.append_nil] at hshape
  exact hshape achievement.members_nodup

theorem BKUserAchievement.read_members (achievement : BKUserAchievement) :
    read (ofFields achievement.members) = achievement := by
  have hread := @BKUserAchievement.read_ofFields _ achievement []
  rw [List.append_nil] at hread
  exact hread achievement.members_nodup

variable {box : Double → NSNumber}

omit [NumberFormat] in
theorem BKReward.shape_members (reward : BKReward) :
    shape (ofFields (reward.members box)) = true := by
  unfold shape
  rw [Json.member?_ofFields (reward.members_nodup box)]
  rfl

theorem BKReward.read_members {reward : BKReward}
    (hvalue : (box reward.value).doubleValue = reward.value) :
    read (ofFields (reward.members box)) = reward := by
  unfold read
  simp only [Json.member?_ofFields (reward.members_nodup box)]
  change BKReward.mk reward.name (box reward.value).doubleValue = reward
  rw [hvalue]

omit [NumberFormat] in
theorem BKUnlockedAchievement.shape_members (achievement : BKUnlockedAchievement) :
    shape (ofFields (achievement.members box)) = true := by
  have hsuper : BKUserAchievement.shape (ofFields (achievement.members box)) = true :=
    BKUserAchievement.shape_ofFields _ (achievement.members_nodup box)
  unfold shape
  rw [hsuper, Json.member?_ofFields (achievement.members_nodup box), Bool.true_and]
  change (achievement.rewards.map fun reward =>
    ofFields (reward.members box)).all BKReward.shape = true
  rw [List.all_map]
  exact List.all_eq_true.mpr fun reward _ => reward.shape_members

theorem BKUnlockedAchievement.read_members {achievement : BKUnlockedAchievement}
    (hvalues : ∀ reward ∈ achievement.rewards,
      (box reward.value).doubleValue = reward.value) :
    read (ofFields (achievement.members box)) = achievement := by
  have hsuper : BKUserAchievement.read (ofFields (achievement.members box)) =
      achievement.toBKUserAchievement :=
    BKUserAchievement.read_ofFields _ (achievement.members_nodup box)
  have hrewards : (achievement.rewards.map fun reward =>
      ofFields (reward.members box)).map BKReward.read = achievement.rewards := by
    rw [List.map_map]
    refine (List.map_congr_left ?_).trans (List.map_id _)
    intro reward hreward
    exact BKReward.read_members (hvalues reward hreward)
  unfold read
  rw [hsuper, Json.member?_ofFields (achievement.members_nodup box)]
  change BKUnlockedAchievement.mk achievement.toBKUserAchievement
    ((achievement.rewards.map fun reward =>
      ofFields (reward.members box)).map BKReward.read) = achievement
  rw [hrewards]

omit [NumberFormat] in
theorem resultOf_encodeResponse {result : JSONObject} (hresult : result.isNull = false) :
    resultOf (encodeResponse result) = some result := by
  have hmember : (encodeResponse result).member? (ns "Result") = some result := rfl
  rw [resultOf, hmember, unlessNull_some, hresult]
  rfl

omit [NumberFormat] in
theorem BKApiResponse.shape_encodeResponse (result : JSONObject) :
    shape (encodeResponse result) = true := rfl

theorem BKApiResponse.read_encodeResponse (result : JSONObject) :
    read (encodeResponse result) = ⟨none⟩ := rfl

theorem decode_encodeProject (project : BKProject) :
    BKApiResponseGetProjectAchievements.initWithJSON (encodeProject project) =
      .ok { error := none, project := some project } := by
  apply BKApiResponseGetProjectAchievements.decodes_initWithJSON.eq_ok_iff.mpr
  unfold encodeProject BKApiResponseGetProjectAchievements.shape
    BKApiResponseGetProjectAchievements.read
  rw [resultOf_encodeResponse rfl, BKApiResponse.shape_encodeResponse,
    BKApiResponse.read_encodeResponse]
  refine ⟨project.shape_members, ?_⟩
  rw [Option.map_some, project.read_members]

theorem decode_encodeUserAchievements (list : List BKUserAchievement) :
    BKApiResponseGetUserAchievements.initWithJSON (encodeUserAchievements list) =
      .ok { error := none, achievements := list } := by
  apply BKApiResponseGetUserAchievements.decodes_initWithJSON.eq_ok_iff.mpr
  unfold encodeUserAchievements BKApiResponseGetUserAchievements.shape
    BKApiResponseGetUserAchievements.read
  rw [resultOf_encodeResponse rfl, BKApiResponse.shape_encodeResponse,
    BKApiResponse.read_encodeResponse]
  simp only [listShape, items, List.all_map, List.map_map, Bool.true_and]
  constructor
  · exact List.all_eq_true.mpr fun achievement _ => achievement.shape_members
  · exact congrArg (BKApiResponseGetUserAchievements.mk ⟨none⟩)
      (List.map_id'' BKUserAchievement.read_members list)

theorem decode_encodeUnlockedAchievements {list : List BKUnlockedAchievement}
    (hvalues : ∀ achievement ∈ list, ∀ reward ∈ achievement.rewards,
      (box reward.value).doubleValue = reward.value) :
    BKApiResponseSetUserChanges.initWithJSON (encodeUnlockedAchievements box list) =
      .ok { error := none, achievements := list } := by
  apply BKApiResponseSetUserChanges.decodes_initWithJSON.eq_ok_iff.mpr
  unfold encodeUnlockedAchievements BKApiResponseSetUserChanges.shape
    BKApiResponseSetUserChanges.read
  rw [resultOf_encodeResponse rfl, BKApiResponse.shape_encodeResponse,
    BKApiResponse.read_encodeResponse]
  simp only [listShape, items, List.all_map, List.map_map, Bool.true_and]
  constructor
  · exact List.all_eq_true.mpr fun achievement _ => achievement.shape_members
  · apply congrArg (BKApiResponseSetUserChanges.mk ⟨none⟩)
    refine (List.map_congr_left ?_).trans (List.map_id _)
    intro achievement hmem
    exact BKUnlockedAchievement.read_members (hvalues achievement hmem)

/-- Each decoder reads the encoded value, of any length and nesting, from its
encoding and from every response that differs from the encoding only in
members that the schema of the decoder does not list. -/
theorem responses_decode_encoding
    (hbox : ∀ d : Double, d.isFinite = true → (box d).doubleValue = d) (json : JSONObject) :
    (∀ project : BKProject,
      BKApiResponseGetProjectAchievements.schema.keep json =
          BKApiResponseGetProjectAchievements.schema.keep (encodeProject project) →
        BKApiResponseGetProjectAchievements.initWithJSON json =
          .ok { error := none, project := some project }) ∧
    (∀ list : List BKUserAchievement,
      BKApiResponseGetUserAchievements.schema.keep json =
          BKApiResponseGetUserAchievements.schema.keep (encodeUserAchievements list) →
        BKApiResponseGetUserAchievements.initWithJSON json =
          .ok { error := none, achievements := list }) ∧
    ∀ list : List BKUnlockedAchievement,
      (∀ achievement ∈ list, ∀ reward ∈ achievement.rewards,
        reward.value.isFinite = true) →
      BKApiResponseSetUserChanges.schema.keep json =
          BKApiResponseSetUserChanges.schema.keep (encodeUnlockedAchievements box list) →
        BKApiResponseSetUserChanges.initWithJSON json =
            .ok { error := none, achievements := list } ∧
          BKApiResponseIncrementUserChanges.initWithJSON json =
            .ok { error := none, achievements := list } := by
  refine ⟨?_, ?_, ?_⟩
  · intro project hkeep
    rw [BKApiResponseGetProjectAchievements.covers_initWithJSON.eq_of_keep_eq hkeep]
    exact decode_encodeProject project
  · intro list hkeep
    rw [BKApiResponseGetUserAchievements.covers_initWithJSON.eq_of_keep_eq hkeep]
    exact decode_encodeUserAchievements list
  · intro list hfinite hkeep
    have hset : BKApiResponseSetUserChanges.initWithJSON json =
        .ok { error := none, achievements := list } := by
      rw [BKApiResponseSetUserChanges.covers_initWithJSON.eq_of_keep_eq hkeep]
      apply decode_encodeUnlockedAchievements
      intro achievement hmem reward hreward
      exact hbox reward.value (hfinite achievement hmem reward hreward)
    exact ⟨hset, hset⟩

end

/-- An achievement without a description and with one reward. -/
def goldAchievement : BKUnlockedAchievement where
  displayName := some (.string (ns "Gold"))
  desc := none
  iconUnlocked := none
  iconLocked := none
  isUnlocked := true
  rewards := [⟨some (.string (ns "coins")), Double.one⟩]

/-- Its response with further members, two of them with names that are read
from other objects. -/
def goldResponse : JSONObject :=
  .object [(ns "Version", .null),
    (ns "Result", .array [.object
      [(ns "DisplayName", .string (ns "Gold")), (ns "Title", .bool false),
        (ns "IsUnlocked", .bool true),
        (ns "Rewards", .array [.object
          [(ns "Result", .null), (ns "Name", .string (ns "coins")),
            (ns "Value", .number ⟨1, Double.one, true⟩)]])]])]

theorem responses_decode_encoding_gold :
    letI := NumberFormat.numerals
    BKApiResponseSetUserChanges.initWithJSON goldResponse =
        .ok { error := none, achievements := [goldAchievement] } ∧
      BKApiResponseIncrementUserChanges.initWithJSON goldResponse =
        .ok { error := none, achievements := [goldAchievement] } :=
  letI := NumberFormat.numerals
  (@responses_decode_encoding _ (fun d => ⟨if d = Double.one then 1 else 0, d, d ≠ Double.zero⟩)
    (fun _ _ => rfl) goldResponse).2.2 [goldAchievement]
    (by decide) rfl

end BadgeKeeper
