import BadgeKeeper.Lib.Decode
import BadgeKeeper.Responses

/-!
What the decoders accept and read. Each decoder raises exactly on the values
that do not have its shape, always because a message meets a class that does
not implement it, and reads a pure function of the members otherwise. Members
of other names play no role.
-/

namespace BadgeKeeper

namespace JSONObject

/-- nil, a number, a boolean or a string: what answers a conversion message. -/
def convertible : Option JSONObject → Bool
  | none | some (.number _) | some (.bool _) | some (.string _) => true
  | some .null | some (.array _) | some (.object _) => false

/-- The elements of an array, and of nothing else. -/
def items : Option JSONObject → List JSONObject
  | some (.array items) => items
  | _ => []

/-- What a loop over elements of one shape accepts: nil, an array of such
elements, or a dictionary without members. -/
def listShape (shape : JSONObject → Bool) : Option JSONObject → Bool
  | none => true
  | some (.array items) => items.all shape
  | some (.object members) => members.isEmpty
  | some _ => false

theorem decodes_subscript (key : NSString) :
    Decodes (fun json : JSONObject => json.subscript key) Json.isObject
      (fun json => json.member? key) .unrecognizedSelector := by
  intro json
  cases json <;> rfl

theorem subscript_bind {β : Type} (json : JSONObject) (key : NSString)
    (k : Option JSONObject → Except NSException β) :
    (json.subscript key >>= k) =
      bif json.isObject then k (json.member? key) else .error .unrecognizedSelector :=
  (decodes_subscript key).bind json k

/-- A loop over a member: the keys of a dictionary are strings, which no
element decoder accepts. -/
theorem decodes_list {β : Type} {f : JSONObject → Except NSException β}
    {shape : JSONObject → Bool} {read : JSONObject → β}
    (h : Decodes f shape read .unrecognizedSelector)
    (hstring : ∀ string, shape (.string string) = false) :
    Decodes (fun receiver => enumerate receiver >>= fun list => list.mapM f)
      (listShape shape) (fun receiver => (items receiver).map read)
      .unrecognizedSelector := by
  intro receiver
  cases receiver with
  | none => rfl
  | some json =>
      cases json with
      | array list => exact h.list list
      | object members =>
          refine (h.list (members.map fun member => .string member.1)).trans ?_
          cases members with
          | nil => rfl
          | cons member rest => simp [listShape, hstring]
      | null | bool _ | number _ | string _ => rfl

theorem enumerate_bind {β γ : Type} {f : JSONObject → Except NSException β}
    {shape : JSONObject → Bool} {read : JSONObject → β}
    (h : Decodes f shape read .unrecognizedSelector)
    (hstring : ∀ string, shape (.string string) = false)
    (receiver : Option JSONObject) (k : List β → Except NSException γ) :
    (enumerate receiver >>= fun list => list.mapM f >>= k) =
      bif listShape shape receiver then k ((items receiver).map read)
      else .error .unrecognizedSelector := by
  rw [← bind_assoc]
  exact (decodes_list h hstring).bind receiver k

section

variable [NumberFormat]

/-- The double that a conversion message answers. -/
def readDouble (receiver : Option JSONObject) : Double :=
  match doubleValue receiver with
  | .ok value => value
  | .error _ => Double.zero

def readBool (receiver : Option JSONObject) : Bool :=
  match boolValue receiver with
  | .ok value => value
  | .error _ => false

def readInt (receiver : Option JSONObject) : Int32 :=
  match intValue receiver with
  | .ok value => value
  | .error _ => 0

theorem decodes_doubleValue :
    Decodes doubleValue convertible readDouble .unrecognizedSelector := by
  intro receiver
  rcases receiver with _ | _ | _ | _ | _ | _ | _ <;> rfl

theorem decodes_boolValue :
    Decodes boolValue convertible readBool .unrecognizedSelector := by
  intro receiver
  rcases receiver with _ | _ | _ | _ | _ | _ | _ <;> rfl

theorem decodes_intValue :
    Decodes intValue convertible readInt .unrecognizedSelector := by
  intro receiver
  rcases receiver with _ | _ | _ | _ | _ | _ | _ <;> rfl

end

end JSONObject

open JSONObject

def BKAchievement.read (json : JSONObject) : BKAchievement where
  displayName := json.member? (ns "DisplayName")
  desc := json.member? (ns "Description")
  iconUnlocked := json.member? (ns "UnlockedIcon")
  iconLocked := json.member? (ns "LockedIcon")

theorem BKAchievement.decodes_initWithJSON :
    Decodes initWithJSON Json.isObject read .unrecognizedSelector := by
  intro json
  cases json <;> rfl

def BKProject.shape (json : JSONObject) : Bool :=
  json.isObject && listShape Json.isObject (json.member? (ns "Achievements"))

def BKProject.read (json : JSONObject) : BKProject where
  title := json.member? (ns "Title")
  desc := json.member? (ns "Description")
  icon := json.member? (ns "Icon")
  achievements := (items (json.member? (ns "Achievements"))).map BKAchievement.read

theorem BKProject.decodes_initWithJSON :
    Decodes initWithJSON shape read .unrecognizedSelector := by
  intro json
  simp only [initWithJSON, subscript_bind,
    enumerate_bind BKAchievement.decodes_initWithJSON (fun _ => rfl), shape]
  cases json.isObject <;> cases listShape Json.isObject (json.member? (ns "Achievements")) <;>
    rfl

section

variable [NumberFormat]

def BKReward.shape (json : JSONObject) : Bool :=
  json.isObject && convertible (json.member? (ns "Value"))

def BKReward.read (json : JSONObject) : BKReward where
  name := json.member? (ns "Name")
  value := readDouble (json.member? (ns "Value"))

theorem BKReward.decodes_initWithJSON :
    Decodes initWithJSON shape read .unrecognizedSelector := by
  intro json
  have hvalue := decodes_doubleValue.bind (json.member? (ns "Value"))
    fun value => .ok ({ name := json.member? (ns "Name"), value := value } : BKReward)
  simp only [initWithJSON, subscript_bind, shape]
  cases json.isObject with
  | false => rfl
  | true => exact hvalue

def BKUserAchievement.shape (json : JSONObject) : Bool :=
  json.isObject && convertible (json.member? (ns "IsUnlocked"))

def BKUserAchievement.read (json : JSONObject) : BKUserAchievement :=
  { BKAchievement.read json with isUnlocked := readBool (json.member? (ns "IsUnlocked")) }

theorem BKUserAchievement.decodes_initWithJSON :
    Decodes initWithJSON shape read .unrecognizedSelector := by
  intro json
  have hunlocked := decodes_boolValue.bind (json.member? (ns "IsUnlocked"))
    fun isUnlocked =>
      .ok ({ BKAchievement.read json with isUnlocked := isUnlocked } : BKUserAchievement)
  simp only [initWithJSON, shape]
  rw [BKAchievement.decodes_initWithJSON json]
  simp only [subscript_bind]
  cases json.isObject with
  | false => rfl
  | true => exact hunlocked

def BKUnlockedAchievement.shape (json : JSONObject) : Bool :=
  BKUserAchievement.shape json && listShape BKReward.shape (json.member? (ns "Rewards"))

def BKUnlockedAchievement.read (json : JSONObject) : BKUnlockedAchievement :=
  { BKUserAchievement.read json with
    rewards := (items (json.member? (ns "Rewards"))).map BKReward.read }

theorem BKUnlockedAchievement.decodes_initWithJSON :
    Decodes initWithJSON shape read .unrecognizedSelector := by
  intro json
  simp only [initWithJSON, shape, subscript_bind,
    enumerate_bind BKReward.decodes_initWithJSON (fun _ => rfl)]
  rw [BKUserAchievement.decodes_initWithJSON json]
  cases hobject : json.isObject with
  | false => simp [BKUserAchievement.shape, hobject, bind, Except.bind]
  | true =>
      cases BKUserAchievement.shape json <;>
        cases listShape BKReward.shape (json.member? (ns "Rewards")) <;> rfl

/-- The `Error` member of a response, absent when it is null. -/
def errorOf (json : JSONObject) : Option JSONObject :=
  unlessNull (json.member? (ns "Error"))

def resultOf (json : JSONObject) : Option JSONObject :=
  unlessNull (json.member? (ns "Result"))

def BKApiResponseError.shape (json : JSONObject) : Bool :=
  json.isObject && convertible (json.member? (ns "Code"))

def BKApiResponseError.read (json : JSONObject) : BKApiResponseError where
  code := readInt (json.member? (ns "Code"))
  message := json.member? (ns "Message")

theorem BKApiResponseError.decodes_initWithJSON :
    Decodes initWithJSON shape read .unrecognizedSelector := by
  intro json
  have hcode := decodes_intValue.bind (json.member? (ns "Code"))
    fun code =>
      .ok ({ code := code, message := json.member? (ns "Message") } : BKApiResponseError)
  simp only [initWithJSON, subscript_bind, shape]
  cases json.isObject with
  | false => rfl
  | true => exact hcode

def BKApiResponse.shape (json : JSONObject) : Bool :=
  json.isObject && (errorOf json).all BKApiResponseError.shape

def BKApiResponse.read (json : JSONObject) : BKApiResponse where
  error := (errorOf json).map BKApiResponseError.read

theorem BKApiResponse.decodes_initWithJSON :
    Decodes initWithJSON shape read .unrecognizedSelector := by
  intro json
  simp only [initWithJSON, subscript_bind, shape, errorOf, read]
  cases json.isObject with
  | false => rfl
  | true =>
      cases unlessNull (json.member? (ns "Error")) with
      | none => rfl
      | some error =>
          simp only [cond_true, Option.all_some, Bool.true_and, Option.map_some]
          rw [BKApiResponseError.decodes_initWithJSON error]
          cases BKApiResponseError.shape error <;> rfl

def BKApiResponseGetProjectAchievements.shape (json : JSONObject) : Bool :=
  BKApiResponse.shape json && (resultOf json).all BKProject.shape

def BKApiResponseGetProjectAchievements.read (json : JSONObject) :
    BKApiResponseGetProjectAchievements :=
  { BKApiResponse.read json with project := (resultOf json).map BKProject.read }

theorem BKApiResponseGetProjectAchievements.decodes_initWithJSON :
    Decodes initWithJSON shape read .unrecognizedSelector := by
  intro json
  simp only [initWithJSON, subscript_bind, shape, resultOf, read]
  rw [BKApiResponse.decodes_initWithJSON json]
  cases hobject : json.isObject with
  | false => simp [BKApiResponse.shape, hobject, bind, Except.bind]
  | true =>
      cases BKApiResponse.shape json with
      | false => rfl
      | true =>
          cases unlessNull (json.member? (ns "Result")) with
          | none => rfl
          | some result =>
              simp only [cond_true, Option.all_some, Bool.true_and, Option.map_some]
              rw [BKProject.decodes_initWithJSON result]
              cases BKProject.shape result <;> rfl

def BKApiResponseGetUserAchievements.shape (json : JSONObject) : Bool :=
  BKApiResponse.shape json && listShape BKUserAchievement.shape (resultOf json)

def BKApiResponseGetUserAchievements.read (json : JSONObject) :
    BKApiResponseGetUserAchievements :=
  { BKApiResponse.read json with
    achievements := (items (resultOf json)).map BKUserAchievement.read }

theorem BKApiResponseGetUserAchievements.decodes_initWithJSON :
    Decodes initWithJSON shape read .unrecognizedSelector := by
  intro json
  simp only [initWithJSON, subscript_bind, shape, resultOf, read,
    enumerate_bind BKUserAchievement.decodes_initWithJSON (fun _ => rfl)]
  rw [BKApiResponse.decodes_initWithJSON json]
  cases hobject : json.isObject with
  | false => simp [BKApiResponse.shape, hobject, bind, Except.bind]
  | true =>
      cases BKApiResponse.shape json <;>
        cases listShape BKUserAchievement.shape (unlessNull (json.member? (ns "Result"))) <;>
        rfl

def BKApiResponseSetUserChanges.shape (json : JSONObject) : Bool :=
  BKApiResponse.shape json && listShape BKUnlockedAchievement.shape (resultOf json)

def BKApiResponseSetUserChanges.read (json : JSONObject) : BKApiResponseSetUserChanges :=
  { BKApiResponse.read json with
    achievements := (items (resultOf json)).map BKUnlockedAchievement.read }

theorem BKApiResponseSetUserChanges.decodes_initWithJSON :
    Decodes initWithJSON shape read .unrecognizedSelector := by
  intro json
  simp only [initWithJSON, subscript_bind, shape, resultOf, read,
    enumerate_bind BKUnlockedAchievement.decodes_initWithJSON (fun _ => rfl)]
  rw [BKApiResponse.decodes_initWithJSON json]
  cases hobject : json.isObject with
  | false => simp [BKApiResponse.shape, hobject, bind, Except.bind]
  | true =>
      cases BKApiResponse.shape json <;>
        cases listShape BKUnlockedAchievement.shape
          (unlessNull (json.member? (ns "Result"))) <;>
        rfl

end

end BadgeKeeper
