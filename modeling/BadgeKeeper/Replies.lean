import BadgeKeeper.Encoding
import BadgeKeeper.Isolation
import BadgeKeeper.Dispatch
import BadgeKeeper.Wire
import BadgeKeeper.Sending
import BadgeKeeper.Lib.JsonPrint

/-!
The way of a reply from the values of a server to the caller. The server writes
its answer as JSON text, the handler of the data task parses the bytes and
decodes the objects, and the caller gets a list of achievements or an error.
How numbers are written and read is a parameter. Whatever is prepared, sent and
answered meanwhile, the callbacks and the reward table are what the replies say.
-/

namespace BadgeKeeper

open JSONObject JsonText
open Json (ofFields)
open Unicode (WellFormed)

/-- Numbers in a response: the object for a double or an integer, how the server
writes an object, and how `NSJSONSerialization` reads a number. -/
structure JSONNumbers where
  ofDouble : Double → NSNumber
  ofInt : Int32 → NSNumber
  write : NSNumber → NSString
  read : NSString → NSNumber

namespace JSONNumbers

variable (numbers : JSONNumbers)

/-- The number is written as one of the format and read back. -/
def Carries (n : NSNumber) : Prop :=
  isNumeral (numbers.write n) = true ∧ numbers.read (numbers.write n) = n

/-- What the client and the server rely on. -/
structure Faithful : Prop where
  double : ∀ d : Double, d.isFinite = true →
    numbers.Carries (numbers.ofDouble d) ∧ (numbers.ofDouble d).doubleValue = d
  int : ∀ n : Int32, numbers.Carries (numbers.ofInt n) ∧ (numbers.ofInt n).intValue = n

/-- Everything in the value can be written. -/
def Writes (json : JSONObject) : Prop := json.All numbers.Carries WellFormed

end JSONNumbers

/-- The completion with these data, as the handler of `sendRequest` sees it after
the parser; `reason` describes the error of data that do not parse. -/
def Completion.ofData (numbers : JSONNumbers) (reason : NSString) (data : ByteArray) :
    Completion :=
  match parseUtf8 data with
  | none => .unparsable reason
  | some value => .json (value.map numbers.read)

/-- What a server says to a request that it has read. -/
inductive Answer where
  | project (project : BKProject)
  | user (list : List BKUserAchievement)
  | unlocked (list : List BKUnlockedAchievement)
  | refusal (code : Int32) (message : NSString)

/-- The error object of a refusal. -/
def refusalMembers (numbers : JSONNumbers) (code : Int32) (message : NSString) :
    List (NSString × Option JSONObject) :=
  [(ns "Code", some (.number (numbers.ofInt code))), (ns "Message", some (.string message))]

def Answer.json (numbers : JSONNumbers) : Answer → JSONObject
  | .project sent => encodeProject sent
  | .user list => encodeUserAchievements list
  | .unlocked list => encodeUnlockedAchievements numbers.ofDouble list
  | .refusal code message =>
      ofFields [(ns "Error", some (ofFields (refusalMembers numbers code message)))]

/-- The bytes of the response, none if its text has no UTF-8 form. -/
def Answer.data (numbers : JSONNumbers) (answer : Answer) : ByteArray :=
  (dataUsingEncoding (print numbers.write (answer.json numbers))).getD ByteArray.empty

/-- The answer is of the kind that the operation asks for; any operation may be
refused. -/
def Answer.Fits : Answer → InternalCallback → Prop
  | .project _, .getProjectAchievements => True
  | .user _, .getUserAchievements => True
  | .unlocked _, .setUserChanges _ | .unlocked _, .incrementUserChanges _ => True
  | .refusal _ _, _ => True
  | _, _ => False

theorem Answer.fits_project {sent : BKProject} {internalCallback : InternalCallback} :
    (Answer.project sent).Fits internalCallback ↔
      internalCallback = .getProjectAchievements := by
  cases internalCallback <;> simp [Fits]

theorem Answer.fits_user {list : List BKUserAchievement} {internalCallback : InternalCallback} :
    (Answer.user list).Fits internalCallback ↔ internalCallback = .getUserAchievements := by
  cases internalCallback <;> simp [Fits]

theorem Answer.fits_unlocked {list : List BKUnlockedAchievement}
    {internalCallback : InternalCallback} :
    (Answer.unlocked list).Fits internalCallback ↔
      internalCallback = .setUserChanges internalCallback.user ∨
        internalCallback = .incrementUserChanges internalCallback.user := by
  cases internalCallback <;> simp [Fits, InternalCallback.user]

/-- What reaches the handler of a data task. -/
inductive Reply where
  | answer (answer : Answer)
  /-- Data that are no JSON text. -/
  | garbled (data : ByteArray)
  /-- A transport error. -/
  | offline (localizedDescription : NSString)

def Reply.completion (numbers : JSONNumbers) (reason : NSString) : Reply → Completion
  | .answer said => .ofData numbers reason (said.data numbers)
  | .garbled data => .ofData numbers reason data
  | .offline localizedDescription => .error localizedDescription

/-- The callback that the reply stands for. -/
def Reply.callback (reason : NSString) (call : Call) : Reply → Option Callback
  | .answer (.project sent) => call.onSuccess (.project (some sent.achievements))
  | .answer (.user list) => call.onSuccess (.user list)
  | .answer (.unlocked list) => call.onSuccess (.unlocked list)
  | .answer (.refusal code message) => call.onFailure code (some (.string message))
  | .garbled _ => call.onFailure PARSING_JSON_ERROR (some (.string reason))
  | .offline localizedDescription =>
      call.onFailure INTERNAL_SERVER_ERROR (some (.string localizedDescription))

def Reply.unlocked : Reply → List BKUnlockedAchievement
  | .answer (.unlocked list) => list
  | _ => []

/-- The rows that the reply adds to the reward table. -/
def Reply.rows (user : Option NSString) (reply : Reply) : List BKEntityReward :=
  (rewardsOf reply.unlocked).map (BKReward.row user)

section

variable (numbers : JSONNumbers)

def BKAchievement.Sendable (achievement : BKAchievement) : Prop :=
  ∀ member ∈ achievement.members, ∀ value ∈ member.2, numbers.Writes value

/-- The name can also be stored. -/
structure BKReward.Sendable (reward : BKReward) : Prop where
  name : ∀ value ∈ reward.name, numbers.Writes value
  storable : storable reward.name = true
  finite : reward.value.isFinite = true

structure BKProject.Sendable (project : BKProject) : Prop where
  texts : ∀ text ∈ [project.title, project.desc, project.icon],
    ∀ value ∈ text, numbers.Writes value
  achievements : ∀ achievement ∈ project.achievements, achievement.Sendable numbers

structure BKUnlockedAchievement.Sendable (achievement : BKUnlockedAchievement) : Prop where
  toBKAchievement : achievement.toBKAchievement.Sendable numbers
  rewards : ∀ reward ∈ achievement.rewards, reward.Sendable numbers

def Answer.Sendable : Answer → Prop
  | .project sent => sent.Sendable numbers
  | .user list => ∀ achievement ∈ list, achievement.toBKAchievement.Sendable numbers
  | .unlocked list => ∀ achievement ∈ list, achievement.Sendable numbers
  | .refusal _ message => WellFormed message

/-- A reply that an operation may get: an answer of the right kind whose values
can be sent, or one of the two errors. -/
def Reply.Proper (internalCallback : InternalCallback) : Reply → Prop
  | .answer said => said.Sendable numbers ∧ said.Fits internalCallback
  | .garbled data => parseUtf8 data = none
  | .offline _ => True

end

section

variable {numbers : JSONNumbers}

/-- Members that can be written. -/
def JSONNumbers.WritesFields (numbers : JSONNumbers)
    (fields : List (NSString × Option JSONObject)) : Prop :=
  ∀ field ∈ fields, WellFormed field.1 ∧ ∀ value ∈ field.2, numbers.Writes value

theorem writesFields_cons (name : String) {value : Option JSONObject}
    {rest : List (NSString × Option JSONObject)}
    (hvalue : ∀ json ∈ value, numbers.Writes json) (hrest : numbers.WritesFields rest) :
    numbers.WritesFields ((ns name, value) :: rest) :=
  List.forall_mem_cons.mpr ⟨⟨wellFormed_ns name, hvalue⟩, hrest⟩

theorem writesFields_nil : numbers.WritesFields [] := List.forall_mem_nil _

theorem writesFields_append {fields rest : List (NSString × Option JSONObject)}
    (hfields : numbers.WritesFields fields) (hrest : numbers.WritesFields rest) :
    numbers.WritesFields (fields ++ rest) :=
  List.forall_mem_append.mpr ⟨hfields, hrest⟩

theorem writes_list {α : Type} {encode : α → JSONObject} {list : List α}
    (h : ∀ a ∈ list, numbers.Writes (encode a)) :
    ∀ json ∈ some (Json.array (list.map encode)), numbers.Writes json := by
  rintro _ ⟨⟩
  apply Json.All.array
  intro item hitem
  obtain ⟨a, ha, rfl⟩ := List.mem_map.mp hitem
  exact h a ha

theorem writes_some {json : JSONObject} (h : numbers.Writes json) :
    ∀ value ∈ some json, numbers.Writes value := by
  rintro _ ⟨⟩
  exact h

theorem BKAchievement.writesFields {achievement : BKAchievement}
    (h : achievement.Sendable numbers) : numbers.WritesFields achievement.members := by
  obtain ⟨hname, hdesc, hunlocked, hlocked, _⟩ := by
    simpa only [Sendable, members, List.forall_mem_cons] using h
  exact writesFields_cons _ hname (writesFields_cons _ hdesc
    (writesFields_cons _ hunlocked (writesFields_cons _ hlocked writesFields_nil)))

theorem BKUserAchievement.writesFields {achievement : BKUserAchievement}
    (h : achievement.toBKAchievement.Sendable numbers) :
    numbers.WritesFields achievement.members := by
  apply writesFields_append (BKAchievement.writesFields h)
  exact writesFields_cons _ (writes_some (.bool _)) writesFields_nil

theorem BKReward.writesFields (hnumbers : numbers.Faithful) {reward : BKReward}
    (h : reward.Sendable numbers) :
    numbers.WritesFields (reward.members numbers.ofDouble) :=
  writesFields_cons _ h.name
    (writesFields_cons _ (writes_some (.number (hnumbers.double _ h.finite).1))
      writesFields_nil)

theorem BKUnlockedAchievement.writesFields (hnumbers : numbers.Faithful)
    {achievement : BKUnlockedAchievement} (h : achievement.Sendable numbers) :
    numbers.WritesFields (achievement.members numbers.ofDouble) := by
  apply writesFields_append (BKUserAchievement.writesFields h.toBKAchievement)
  refine writesFields_cons _ (writes_list ?_) writesFields_nil
  intro reward hreward
  exact .ofFields (BKReward.writesFields hnumbers (h.rewards reward hreward))

theorem BKProject.writesFields {project : BKProject} (h : project.Sendable numbers) :
    numbers.WritesFields project.members := by
  obtain ⟨htitle, hdesc, hicon, _⟩ := by
    simpa only [List.forall_mem_cons] using h.texts
  refine writesFields_cons _ htitle (writesFields_cons _ hdesc (writesFields_cons _ hicon
    (writesFields_cons _ (writes_list ?_) writesFields_nil)))
  intro achievement hmem
  exact .ofFields (BKAchievement.writesFields (h.achievements achievement hmem))

theorem writes_encodeResponse {result : JSONObject}
    (h : ∀ json ∈ some result, numbers.Writes json) : numbers.Writes (encodeResponse result) :=
  .ofFields (writesFields_cons _ h writesFields_nil)

/-- Every answer that can be sent has a text. -/
theorem Answer.writes_json (hnumbers : numbers.Faithful) {answer : Answer}
    (h : answer.Sendable numbers) : numbers.Writes (answer.json numbers) := by
  cases answer with
  | project project =>
      exact writes_encodeResponse (writes_some (.ofFields (BKProject.writesFields h)))
  | user list =>
      apply writes_encodeResponse
      apply writes_list
      intro achievement hmem
      exact .ofFields (BKUserAchievement.writesFields (h achievement hmem))
  | unlocked list =>
      apply writes_encodeResponse
      apply writes_list
      intro achievement hmem
      exact .ofFields (BKUnlockedAchievement.writesFields hnumbers (h achievement hmem))
  | refusal code message =>
      have hcode : numbers.WritesFields (refusalMembers numbers code message) :=
        writesFields_cons _ (writes_some (.number (hnumbers.int code).1))
          (writesFields_cons _ (writes_some (.string h)) writesFields_nil)
      exact .ofFields (writesFields_cons _ (writes_some (.ofFields hcode)) writesFields_nil)

/-- The handler gets back the objects that the server wrote. -/
theorem Answer.completion_data (hnumbers : numbers.Faithful) (reason : NSString)
    {answer : Answer} (h : answer.Sendable numbers) :
    Completion.ofData numbers reason (answer.data numbers) =
      .json (answer.json numbers) := by
  have hwrites := answer.writes_json hnumbers h
  obtain ⟨text, htext, hparse⟩ := parseUtf8_print
    (hwrites.imp (fun _ hnumber => hnumber.1) fun _ hstring => hstring)
  have hback : ((answer.json numbers).map numbers.write).map numbers.read =
      answer.json numbers :=
    Json.map_map_of_all (hwrites.imp (fun _ hnumber => hnumber.2) fun _ hstring => hstring)
  rw [data, dataUsingEncoding, htext, Option.map_some, Option.getD_some, Completion.ofData,
    hparse]
  exact congrArg Completion.json hback

end

section

variable [NumberFormat] {numbers : JSONNumbers} {reason : NSString}

theorem initWithJSON_refusal (hnumbers : numbers.Faithful) (code : Int32) (message : NSString) :
    BKApiResponse.initWithJSON ((Answer.refusal code message).json numbers) =
      .ok { error := some { code := code, message := some (.string message) } } := by
  apply BKApiResponse.decodes_initWithJSON.eq_ok_iff.mpr
  refine ⟨rfl, ?_⟩
  have hread : BKApiResponse.read ((Answer.refusal code message).json numbers) =
      { error := some {
          code := (numbers.ofInt code).intValue
          message := some (.string message) } } := rfl
  rw [hread, (hnumbers.int code).2]

/-- An answer without an error is decoded by the class of the operation. -/
theorem reaction_encodeResponse (task : DataTask) (result : JSONObject) :
    task.reaction (.json (encodeResponse result)) =
      task.internalCallback.reaction task.call (encodeResponse result) := by
  have hdecode : BKApiResponse.initWithJSON (encodeResponse result) = .ok { error := none } :=
    BKApiResponse.decodes_initWithJSON.eq_ok_iff.mpr ⟨rfl, rfl⟩
  rw [DataTask.reaction, hdecode]
  rfl

/-- A proper reply is decoded, and the reaction is what it stands for. -/
theorem Reply.reaction_completion (hnumbers : numbers.Faithful) (reason : NSString)
    {task : DataTask} {reply : Reply} (hproper : reply.Proper numbers task.internalCallback) :
    ∃ user, task.reaction (reply.completion numbers reason) =
        .ok ⟨user, reply.unlocked, reply.callback reason task.call⟩ ∧
      (user = task.internalCallback.user ∨ reply.unlocked = []) := by
  cases reply with
  | offline localizedDescription => exact ⟨none, rfl, .inr rfl⟩
  | garbled data =>
      have hcompletion : completion numbers reason (.garbled data) = .unparsable reason := by
        rw [completion, Completion.ofData, hproper]
      exact ⟨none, congrArg task.reaction hcompletion, .inr rfl⟩
  | answer answer =>
      obtain ⟨hsendable, hfits⟩ := hproper
      rw [completion, Answer.completion_data hnumbers reason hsendable]
      cases answer with
      | refusal code message =>
          refine ⟨none, ?_, .inr rfl⟩
          rw [DataTask.reaction, initWithJSON_refusal hnumbers]
          rfl
      | project project =>
          have hdecode := decode_encodeProject project
          rw [encodeProject] at hdecode
          refine ⟨none, (reaction_encodeResponse task _).trans ?_, .inr rfl⟩
          rw [Answer.fits_project.mp hfits, InternalCallback.reaction, hdecode]
          rfl
      | user list =>
          have hdecode := decode_encodeUserAchievements list
          rw [encodeUserAchievements] at hdecode
          refine ⟨none, (reaction_encodeResponse task _).trans ?_, .inr rfl⟩
          rw [Answer.fits_user.mp hfits, InternalCallback.reaction, hdecode]
          rfl
      | unlocked list =>
          have hvalues : ∀ achievement ∈ list, ∀ reward ∈ achievement.rewards,
              (numbers.ofDouble reward.value).doubleValue = reward.value := by
            intro achievement hmem reward hreward
            have hfinite := ((hsendable achievement hmem).rewards reward hreward).finite
            exact (hnumbers.double _ hfinite).2
          have hdecode := decode_encodeUnlockedAchievements hvalues
          rw [encodeUnlockedAchievements] at hdecode
          refine ⟨task.internalCallback.user, (reaction_encodeResponse task _).trans ?_, .inl rfl⟩
          rcases Answer.fits_unlocked.mp hfits with hblock | hblock
          · rw [hblock, InternalCallback.reaction, hdecode]
            rfl
          · rw [hblock, InternalCallback.reaction, hdecode]
            rfl

omit [NumberFormat] in
/-- The rewards of a proper reply can be stored. -/
theorem Reply.storable_unlocked {internalCallback : InternalCallback} {reply : Reply}
    (hproper : reply.Proper numbers internalCallback) :
    ∀ reward ∈ rewardsOf reply.unlocked, storable reward.name = true := by
  intro reward hreward
  obtain ⟨achievement, hmem, howned⟩ := List.mem_flatMap.mp hreward
  cases reply with
  | answer answer =>
      cases answer with
      | unlocked list => exact ((hproper.1 achievement hmem).rewards reward howned).storable
      | project _ | user _ | refusal _ _ => exact absurd hmem List.not_mem_nil
  | garbled _ | offline _ => exact absurd hmem List.not_mem_nil

/-- The handler accepts a proper reply, calls back what it stands for and saves
its rows. -/
theorem Reply.readReaction_completion (hnumbers : numbers.Faithful) (reason : NSString)
    {task : DataTask} {reply : Reply} (hproper : reply.Proper numbers task.internalCallback) :
    let completion := reply.completion numbers reason
    task.shape completion = true ∧
      (∀ reward ∈ rewardsOf (task.readReaction completion).unlocked,
        storable reward.name = true) ∧
      (task.readReaction completion).callback = reply.callback reason task.call ∧
      (rewardsOf (task.readReaction completion).unlocked).map
          (BKReward.row (task.readReaction completion).user) =
        reply.rows task.internalCallback.user := by
  obtain ⟨user, hreaction, huser⟩ := reply.reaction_completion hnumbers reason hproper
  obtain ⟨hshape, hread⟩ := task.decodes_reaction.eq_ok_iff.mp hreaction
  refine ⟨hshape, ?_, by rw [hread], ?_⟩
  · rw [hread]
    exact Reply.storable_unlocked hproper
  · rw [hread, Reply.rows]
    rcases huser with rfl | hnothing
    · rfl
    · rw [hnothing]
      rfl

variable {w : World}

/-- The replies to these requests arriving one after another. -/
def arrivals (numbers : JSONNumbers) (reason : NSString) (reply : Nat → Reply)
    (order : List DataTask) : List Event :=
  order.map fun task =>
    .complete task.call.id ((reply task.call.id).completion numbers reason)

/-- One reply reaches its request. -/
theorem World.step_arrival (hw : w.Consistent) (hnumbers : numbers.Faithful)
    (reason : NSString) {task : DataTask} (htask : task ∈ w.session) {reply : Reply}
    (hproper : reply.Proper numbers task.internalCallback) :
    ∃ next, w.step (.complete task.call.id (reply.completion numbers reason)) = some next ∧
      w.session.Perm (task :: next.session) ∧
      next.callbacks = w.callbacks ++ (reply.callback reason task.call).toList ∧
      next.realm.rows = w.realm.rows ++ reply.rows task.internalCallback.user := by
  have hfind := World.find_session hw.ledger htask
  obtain ⟨hshape, hstorable, hcallback, hrows⟩ :=
    Reply.readReaction_completion hnumbers reason hproper
  refine ⟨_, (step_complete_idle hw.realm).mpr ⟨task, hfind, hshape, hstorable, rfl⟩,
    perm_of_find?_eq_some hfind, ?_, ?_⟩
  · rw [hcallback]
  · rw [hrows, hw.realm]
    rfl

theorem World.run_arrivals (hw : w.Consistent) (hnumbers : numbers.Faithful)
    (reason : NSString) {reply : Nat → Reply} {order : List DataTask} (horder : order.Perm w.session)
    (hproper : ∀ task ∈ order, (reply task.call.id).Proper numbers task.internalCallback) :
    ∃ final, w.run (arrivals numbers reason reply order) = some final ∧ final.session = [] ∧
      final.callbacks = w.callbacks ++ order.flatMap (fun task =>
        ((reply task.call.id).callback reason task.call).toList) ∧
      final.realm.rows = w.realm.rows ++ order.flatMap fun task =>
        (reply task.call.id).rows task.internalCallback.user := by
  induction order generalizing w with
  | nil => exact ⟨w, rfl, horder.symm.eq_nil, by simp, by simp⟩
  | cons task order ih =>
      obtain ⟨hfirst, hlater⟩ := List.forall_mem_cons.mp hproper
      obtain ⟨next, hstep, hsession, hcallbacks, hrows⟩ :=
        World.step_arrival hw hnumbers reason (horder.mem_iff.mp List.mem_cons_self) hfirst
      obtain ⟨final, hrun, hempty, hcalled, hsaved⟩ :=
        ih (World.step_consistent hw hstep) (horder.trans hsession).cons_inv hlater
      refine ⟨final, Machine.run_cons_eq_some.mpr ⟨next, hstep, hrun⟩, hempty, ?_, ?_⟩
      · rw [hcalled, hcallbacks, List.append_assoc, List.flatMap_cons]
      · rw [hsaved, hrows, List.append_assoc, List.flatMap_cons]

/-- In every reachable world the replies to the requests in flight can arrive in
any order: none of them raises, nothing stays in flight, and the callbacks and
the reward table grow by what the replies stand for, in that order. -/
theorem replies_drain (hnumbers : numbers.Faithful) (reason : NSString) {es : List Event}
    (hrun : World.initial.run es = some w) {reply : Nat → Reply}
    (hproper : ∀ task ∈ w.session,
      (reply task.call.id).Proper numbers task.internalCallback)
    {order : List DataTask} (horder : order.Perm w.session) :
    ∃ final, w.run (arrivals numbers reason reply order) = some final ∧ final.session = [] ∧
      final.callbacks = w.callbacks ++ order.flatMap (fun task =>
        ((reply task.call.id).callback reason task.call).toList) ∧
      final.realm.rows = w.realm.rows ++ order.flatMap fun task =>
        (reply task.call.id).rows task.internalCallback.user :=
  World.run_arrivals (World.run_consistent World.initial_consistent hrun) hnumbers reason
    horder fun task htask => hproper task (horder.mem_iff.mp htask)

end

/-- A number in one natural number. -/
def NSNumber.code (n : NSNumber) : Nat :=
  (n.intValue.toUInt32.toNat * 2 ^ 64 + n.doubleValue.bits.toNat) * 2 + n.boolValue.toNat

def NSNumber.ofCode (code : Nat) : NSNumber where
  intValue := (UInt32.ofNat (code / 2 ^ 65)).toInt32
  doubleValue := ⟨UInt64.ofNat (code / 2)⟩
  boolValue := code % 2 == 1

theorem NSNumber.ofCode_code (n : NSNumber) : ofCode n.code = n := by
  obtain ⟨int, ⟨bits⟩, bool⟩ := n
  have hint := int.toUInt32.toNat_lt
  have hbits := bits.toNat_lt
  have hbool : bool.toNat < 2 := bool.toNat_lt
  have hhigh : code ⟨int, ⟨bits⟩, bool⟩ / 2 ^ 65 = int.toUInt32.toNat := by
    simp only [code]
    omega
  have hmiddle : UInt64.ofNat (code ⟨int, ⟨bits⟩, bool⟩ / 2) = bits := by
    apply UInt64.toNat_inj.mp
    simp only [code, UInt64.toNat_ofNat']
    omega
  have hlow : (code ⟨int, ⟨bits⟩, bool⟩ % 2 == 1) = bool := by
    have hparity : code ⟨int, ⟨bits⟩, bool⟩ % 2 = bool.toNat := by
      simp only [code]
      omega
    rw [hparity]
    cases bool <;> rfl
  simp only [ofCode, hhigh, hmiddle, hlow, UInt32.ofNat_toNat, Int32.toInt32_toUInt32]

def NSNumber.one : NSNumber := ⟨1, Double.one, true⟩

/-- One is written as itself and any other number as a one before the digits of
its successor, lowest first. -/
def JSONNumbers.numerals : JSONNumbers where
  ofDouble d := ⟨if d = Double.one then 1 else 0, d, d ≠ Double.zero⟩
  ofInt n := ⟨n, if n = 1 then Double.one else Double.zero, n ≠ 0⟩
  write n :=
    if n = NSNumber.one then ns "1"
    else 0x31 :: (Nat.digits 10 (n.code + 1)).map fun digit => UInt16.ofNat (0x30 + digit)
  read token :=
    if token = ns "1" then NSNumber.one
    else .ofCode (Nat.ofDigits 10 (token.tail.map fun unit => unit.toNat - 0x30) - 1)

theorem carries_numerals (n : NSNumber) : JSONNumbers.numerals.Carries n := by
  have hdigits : ∀ digit ∈ Nat.digits 10 (n.code + 1), digit < 10 :=
    fun digit hdigit => Nat.digits_lt_base (by omega) hdigit
  by_cases hone : n = NSNumber.one
  · rw [hone]
    exact ⟨by decide, rfl⟩
  · have hwrite : JSONNumbers.numerals.write n = 0x31 ::
        (Nat.digits 10 (n.code + 1)).map fun digit => UInt16.ofNat (0x30 + digit) :=
      if_neg hone
    have hother : JSONNumbers.numerals.write n ≠ ns "1" := by
      rw [hwrite]
      intro hsame
      have hempty := List.map_eq_nil_iff.mp (List.cons.inj hsame).2
      exact absurd (Nat.digits_eq_nil_iff_eq_zero.mp hempty) (by omega)
    have hback : ((Nat.digits 10 (n.code + 1)).map fun digit =>
        UInt16.ofNat (0x30 + digit)).map (fun unit => unit.toNat - 0x30) =
          Nat.digits 10 (n.code + 1) := by
      rw [List.map_map]
      exact (List.map_congr_left fun digit hdigit =>
        toNat_digit (hdigits digit hdigit)).trans (List.map_id _)
    constructor
    · rw [hwrite]
      apply isNumeral_one_cons
      intro unit hunit
      obtain ⟨digit, hdigit, rfl⟩ := List.mem_map.mp hunit
      exact isDigit_ofNat (hdigits digit hdigit)
    · have hread : JSONNumbers.numerals.read (JSONNumbers.numerals.write n) =
          .ofCode (Nat.ofDigits 10 ((JSONNumbers.numerals.write n).tail.map fun unit =>
            unit.toNat - 0x30) - 1) := if_neg hother
      rw [hread, hwrite, List.tail_cons, hback, Nat.ofDigits_digits, Nat.add_sub_cancel]
      exact n.ofCode_code

theorem numerals_carry : JSONNumbers.numerals.Faithful where
  double _ _ := ⟨carries_numerals _, rfl⟩
  int _ := ⟨carries_numerals _, rfl⟩

/-- The increment of one user is rewarded, and the question after the
achievements is refused. -/
def rewardOrRefusal : Nat → Reply
  | 0 => .answer (.unlocked [goldAchievement])
  | _ => .answer (.refusal 1 (ns "denied"))

def twoQuestions : List Event :=
  [.setUserId (some (ns "ann")),
    .prepare .increment Double.one (ns "gold"),
    .flush .increment .active ⟨0, true, true⟩,
    .getUserAchievements ⟨1, true, true⟩]

theorem sendable_text {numbers : JSONNumbers} (text : String) :
    ∀ value ∈ some (Json.string (ns text)), numbers.Writes value :=
  writes_some (.string (wellFormed_ns text))

theorem sendable_absent {numbers : JSONNumbers} :
    ∀ value ∈ (none : Option JSONObject), numbers.Writes value := by
  intro value hvalue
  cases hvalue

theorem sendable_goldAchievement :
    ∀ achievement ∈ [goldAchievement], achievement.Sendable JSONNumbers.numerals := by
  intro achievement hmem
  rw [List.mem_singleton.mp hmem]
  refine ⟨?_, ?_⟩
  · simp only [BKAchievement.Sendable, BKAchievement.members, List.forall_mem_cons]
    exact ⟨sendable_text "Gold", sendable_absent, sendable_absent, sendable_absent,
      List.forall_mem_nil _⟩
  · intro reward hreward
    rw [List.mem_singleton.mp hreward]
    exact ⟨sendable_text "coins", rfl, rfl⟩

theorem proper_reward (user : Option NSString) :
    (rewardOrRefusal 0).Proper .numerals (.incrementUserChanges user) :=
  ⟨sendable_goldAchievement, trivial⟩

theorem proper_refusal :
    (rewardOrRefusal 1).Proper .numerals .getUserAchievements :=
  ⟨wellFormed_ns "denied", trivial⟩

theorem proper_twoQuestions {requests : List DataTask}
    (h : (requests.map fun task => (task.call.id, task.internalCallback)) =
      [(0, .incrementUserChanges (some (ns "ann"))), (1, .getUserAchievements)]) :
    ∀ task ∈ requests, (rewardOrRefusal task.call.id).Proper .numerals task.internalCallback := by
  intro task htask
  have hmem : (task.call.id, task.internalCallback) ∈
      requests.map fun task => (task.call.id, task.internalCallback) :=
    List.mem_map_of_mem htask
  rw [h, List.mem_cons, List.mem_singleton] at hmem
  rcases hmem with hfirst | hsecond
  · obtain ⟨hid, hblock⟩ := Prod.ext_iff.mp hfirst
    rw [show task.call.id = 0 from hid, show task.internalCallback = _ from hblock]
    exact proper_reward _
  · obtain ⟨hid, hblock⟩ := Prod.ext_iff.mp hsecond
    rw [show task.call.id = 1 from hid, show task.internalCallback = _ from hblock]
    exact proper_refusal

theorem replies_drain_two_questions :
    letI := NumberFormat.numerals
    ∃ w final, World.initial.run twoQuestions = some w ∧
      w.run (arrivals .numerals (ns "bad data") rewardOrRefusal w.session.reverse) =
        some final ∧ final.session = [] ∧
      final.callbacks = w.callbacks ++ w.session.reverse.flatMap (fun task =>
        ((rewardOrRefusal task.call.id).callback (ns "bad data") task.call).toList) ∧
      final.realm.rows = w.realm.rows ++ w.session.reverse.flatMap fun task =>
        (rewardOrRefusal task.call.id).rows task.internalCallback.user :=
  letI := NumberFormat.numerals
  have hrun : World.initial.run twoQuestions = some _ := rfl
  ⟨_, (replies_drain numerals_carry (ns "bad data") hrun (proper_twoQuestions rfl)
    (List.reverse_perm _)).imp fun _ hfinal => ⟨hrun, hfinal⟩⟩

end BadgeKeeper
