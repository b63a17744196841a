import BadgeKeeper.Reactions
import BadgeKeeper.Conservation

/-!
Saving rewards. The loop over achievements and rewards is one loop over the
rewards of the response, each saved in a transaction of its own: what is
committed are the rewards before the first one that fails, and a failure
leaves its transaction open. A client that starts with an idle store keeps it
idle, so over a run the reward table is what the change responses delivered.
-/

namespace BadgeKeeper

open RLMRealm JSONObject

/-- The rewards of a response, in the order of the two loops. -/
def rewardsOf (list : List BKUnlockedAchievement) : List BKReward :=
  list.flatMap BKUnlockedAchievement.rewards

/-- Whether a name can be stored in a string column. -/
def storable : Option JSONObject → Bool
  | none | some .null | some (.string _) => true
  | _ => false

/-- The string column of a name that can be stored. -/
def column : Option JSONObject → Option NSString
  | some (.string string) => some string
  | _ => none

theorem decodes_stringColumn :
    Decodes stringColumn storable column .unrecognizedSelector := by
  intro name
  rcases name with _ | _ | _ | _ | _ | _ | _ <;> rfl

/-- The row that a reward of a user is stored as. -/
def BKReward.row (user : Option NSString) (reward : BKReward) : BKEntityReward where
  name := column reward.name
  user := user
  value := reward.value

/-- Whether saving the reward raises: on its own name, or by the environment's
choice for its `addObject:` or its commit. -/
def BKReward.fails (faults : List Bool) (reward : BKReward) : Bool :=
  faults.headD false || !storable reward.name || faults.tail.headD false

/-- The rewards before the first one that fails; each takes two of the
environment's choices. -/
def beforeFailure : List Bool → List BKReward → List BKReward
  | _, [] => []
  | faults, reward :: rest =>
      if reward.fails faults then [] else reward :: beforeFailure faults.tail.tail rest

def saveReward (user : Option NSString) (reward : BKReward) : Storage Unit :=
  BKEntityStorage.saveRewardValueForName reward.name reward.value user

theorem saveRewardsForUser_eq (user : Option NSString) (list : List BKUnlockedAchievement) :
    saveRewardsForUser user list = (rewardsOf list).forM (saveReward user) := by
  have hloop : saveRewardsForUser user list =
      list.forM fun achievement => achievement.rewards.forM (saveReward user) := by
    have hinner (achievement : BKUnlockedAchievement) :
        (if 0 < achievement.rewards.length then
            achievement.rewards.forM fun reward =>
              BKEntityStorage.saveRewardValueForName reward.name reward.value user
          else pure ()) = achievement.rewards.forM (saveReward user) := by
      cases achievement.rewards <;> rfl
    simp only [saveRewardsForUser, hinner]
    cases list <;> rfl
  rw [hloop]
  clear hloop
  induction list with
  | nil => rfl
  | cons achievement rest ih =>
      simp only [rewardsOf, List.flatMap_cons, List.forM_eq_forM, List.forM_cons,
        List.forM_append] at ih ⊢
      rw [ih]

section

variable (realm : RLMRealm)

theorem fault_run :
    fault.run realm =
      bif realm.faults.headD false then
        .error .realm { realm with faults := realm.faults.tail }
      else .ok () { realm with faults := realm.faults.tail } := by
  obtain ⟨rows, written, inWriteTransaction, faults⟩ := realm
  rcases faults with _ | ⟨_ | _, rest⟩ <;> rfl

theorem addObject_run (name : Option JSONObject) (user : Option NSString)
    (value : Double) :
    (RLMRealm.addObject name user value).run realm =
      bif realm.faults.headD false then
        .error .realm { realm with faults := realm.faults.tail }
      else bif storable name then
        .ok ()
          { realm with
            written := realm.written ++ [⟨column name, user, value⟩]
            faults := realm.faults.tail }
      else .error .unrecognizedSelector { realm with faults := realm.faults.tail } := by
  simp only [RLMRealm.addObject, EStateM.run_bind, fault_run, decodes_stringColumn name]
  cases realm.faults.headD false <;> cases storable name <;> rfl

theorem commitWriteTransaction_run :
    commitWriteTransaction.run realm =
      bif realm.faults.headD false then
        .error .realm { realm with faults := realm.faults.tail }
      else
        .ok () ⟨realm.rows ++ realm.written, [], false, realm.faults.tail⟩ := by
  simp only [commitWriteTransaction, EStateM.run_bind, fault_run]
  cases realm.faults.headD false <;> rfl

theorem beginWriteTransaction_run :
    beginWriteTransaction.run realm =
      bif realm.inWriteTransaction then .error .realm realm
      else .ok () { realm with inWriteTransaction := true, written := [] } := by
  obtain ⟨rows, written, inWriteTransaction, faults⟩ := realm
  cases inWriteTransaction <;> rfl

variable {realm} (user : Option NSString) (reward : BKReward)

/-- A save that goes through commits one row and closes its transaction. -/
theorem saveReward_run_ok (hclosed : realm.inWriteTransaction = false)
    (hgood : reward.fails realm.faults = false) :
    (saveReward user reward).run realm =
      .ok () ⟨realm.rows ++ [reward.row user], [], false, realm.faults.tail.tail⟩ := by
  simp only [BKReward.fails, Bool.or_eq_false_iff, Bool.not_eq_false'] at hgood
  obtain ⟨⟨hadd, hname⟩, hcommit⟩ := hgood
  simp only [saveReward, BKEntityStorage.saveRewardValueForName, EStateM.run_bind,
    beginWriteTransaction_run, addObject_run, commitWriteTransaction_run, hclosed, hadd,
    hname, hcommit, cond_false, cond_true, BKReward.row, List.nil_append]

/-- A save that fails commits nothing and leaves its transaction open. -/
theorem saveReward_run_error (hclosed : realm.inWriteTransaction = false)
    (hbad : reward.fails realm.faults = true) :
    ∃ exception final, (saveReward user reward).run realm = .error exception final ∧
      final.rows = realm.rows ∧ final.inWriteTransaction = true := by
  cases hadd : realm.faults.headD false with
  | true =>
      refine ⟨.realm, ⟨realm.rows, [], true, realm.faults.tail⟩, ?_, rfl, rfl⟩
      simp only [saveReward, BKEntityStorage.saveRewardValueForName, EStateM.run_bind,
        beginWriteTransaction_run, addObject_run, hclosed, hadd, cond_false, cond_true]
  | false =>
      cases hname : storable reward.name with
      | false =>
          refine ⟨.unrecognizedSelector, ⟨realm.rows, [], true, realm.faults.tail⟩, ?_,
            rfl, rfl⟩
          simp only [saveReward, BKEntityStorage.saveRewardValueForName, EStateM.run_bind,
            beginWriteTransaction_run, addObject_run, hclosed, hadd, hname, cond_false]
      | true =>
          have hcommit : realm.faults.tail.headD false = true := by
            simpa only [BKReward.fails, hadd, hname, Bool.not_true, Bool.or_false,
              Bool.false_or] using hbad
          refine ⟨.realm,
            ⟨realm.rows, [reward.row user], true, realm.faults.tail.tail⟩, ?_, rfl, rfl⟩
          simp only [saveReward, BKEntityStorage.saveRewardValueForName, EStateM.run_bind,
            beginWriteTransaction_run, addObject_run, commitWriteTransaction_run, hclosed,
            hadd, hname, hcommit, cond_false, cond_true, BKReward.row, List.nil_append]

/-- No save begins while a transaction is open. -/
theorem saveReward_run_open (hopen : realm.inWriteTransaction = true) :
    (saveReward user reward).run realm = .error .realm realm := by
  simp only [saveReward, BKEntityStorage.saveRewardValueForName, EStateM.run_bind,
    beginWriteTransaction_run, hopen, cond_true]

end

/-- What the loop does to the store, whatever fails in it. -/
theorem saveRewards_run (user : Option NSString) (rewards : List BKReward)
    {realm : RLMRealm} (hclosed : realm.inWriteTransaction = false) :
    ∃ final,
      (((rewards.forM (saveReward user)).run realm = .ok () final ∧
            beforeFailure realm.faults rewards = rewards ∧
            final.inWriteTransaction = false) ∨
          ∃ exception, (rewards.forM (saveReward user)).run realm = .error exception final ∧
            (beforeFailure realm.faults rewards).length < rewards.length ∧
            final.inWriteTransaction = true) ∧
        final.rows = realm.rows ++
          (beforeFailure realm.faults rewards).map (BKReward.row user) := by
  induction rewards generalizing realm with
  | nil => exact ⟨realm, .inl ⟨rfl, rfl, hclosed⟩, by simp [beforeFailure]⟩
  | cons reward rest ih =>
      have hrun : ((reward :: rest).forM (saveReward user)).run realm =
          ((saveReward user reward) >>= fun _ => rest.forM (saveReward user)).run realm :=
        rfl
      rw [hrun, EStateM.run_bind]
      cases hfails : reward.fails realm.faults with
      | true =>
          obtain ⟨exception, final, herror, hrows, hopen⟩ :=
            saveReward_run_error user reward hclosed hfails
          refine ⟨final, .inr ⟨exception, by rw [herror], ?_, hopen⟩, ?_⟩
          · simp [beforeFailure, hfails]
          · simp [beforeFailure, hfails, hrows]
      | false =>
          have hone := saveReward_run_ok user reward hclosed hfails
          have hnext : (⟨realm.rows ++ [reward.row user], [], false,
              realm.faults.tail.tail⟩ : RLMRealm).inWriteTransaction = false := rfl
          obtain ⟨final, hcases, hrows⟩ := ih hnext
          rw [hone]
          refine ⟨final, ?_, by simp [beforeFailure, hfails, hrows]⟩
          rcases hcases with ⟨hok, hall, hdone⟩ | ⟨exception, herror, hshort, hopen⟩
          · exact .inl ⟨hok, by simpa [beforeFailure, hfails] using hall, hdone⟩
          · exact .inr ⟨exception, herror, by simpa [beforeFailure, hfails] using hshort,
              hopen⟩

/-- The rewards before the first failure are committed, and only these. A
failure leaves the store with an open transaction, so that every later save of
a reward raises and commits nothing. -/
theorem saved_rewards_before_failure (user : Option NSString)
    (list : List BKUnlockedAchievement) {realm : RLMRealm}
    (hclosed : realm.inWriteTransaction = false) :
    ∃ final,
      (((saveRewardsForUser user list).run realm = .ok () final ∧
            beforeFailure realm.faults (rewardsOf list) = rewardsOf list ∧
            final.inWriteTransaction = false) ∨
          ∃ exception, (saveRewardsForUser user list).run realm = .error exception final ∧
            (beforeFailure realm.faults (rewardsOf list)).length < (rewardsOf list).length ∧
            final.inWriteTransaction = true ∧
            ∀ user' list', rewardsOf list' ≠ [] →
              (saveRewardsForUser user' list').run final = .error .realm final) ∧
        final.rows = realm.rows ++
          (beforeFailure realm.faults (rewardsOf list)).map (BKReward.row user) := by
  simp only [saveRewardsForUser_eq]
  obtain ⟨final, hcases, hrows⟩ := saveRewards_run user (rewardsOf list) hclosed
  refine ⟨final, ?_, hrows⟩
  rcases hcases with hok | ⟨exception, herror, hshort, hopen⟩
  · exact .inl hok
  · refine .inr ⟨exception, herror, hshort, hopen, ?_⟩
    intro user' list' hsome
    obtain ⟨reward, rest, hcons⟩ := List.exists_cons_of_ne_nil hsome
    have hrun : ((reward :: rest).forM (saveReward user')).run final =
        ((saveReward user' reward) >>= fun _ => rest.forM (saveReward user')).run final :=
      rfl
    rw [hcons, hrun, EStateM.run_bind, saveReward_run_open user' reward hopen]

/-- An achievement with two rewards of one coin. -/
def twoCoins : BKUnlockedAchievement where
  displayName := none
  desc := none
  iconUnlocked := none
  iconLocked := none
  isUnlocked := true
  rewards :=
    [⟨some (.string (ns "coins")), Double.one⟩, ⟨some (.string (ns "coins")), Double.one⟩]

theorem saved_rewards_before_failure_two_coins :
    ∃ final,
      (((saveRewardsForUser (some (ns "ann")) [twoCoins]).run RLMRealm.empty =
              .ok () final ∧
            beforeFailure [] (rewardsOf [twoCoins]) = rewardsOf [twoCoins] ∧
            final.inWriteTransaction = false) ∨
          ∃ exception, (saveRewardsForUser (some (ns "ann")) [twoCoins]).run RLMRealm.empty =
              .error exception final ∧
            (beforeFailure [] (rewardsOf [twoCoins])).length <
              (rewardsOf [twoCoins]).length ∧
            final.inWriteTransaction = true ∧
            ∀ user' list', rewardsOf list' ≠ [] →
              (saveRewardsForUser user' list').run final = .error .realm final) ∧
        final.rows = [] ++
          (beforeFailure [] (rewardsOf [twoCoins])).map (BKReward.row (some (ns "ann"))) :=
  saved_rewards_before_failure (some (ns "ann")) [twoCoins] rfl

/-- When the second of two saves fails, the first reward stays in the table and
the transaction of the second stays open. -/
theorem second_save_fails :
    ∃ realm exception final, realm.inWriteTransaction = false ∧
      (saveRewardsForUser (some (ns "ann")) [twoCoins]).run realm =
        .error exception final ∧
      final.rows.length = realm.rows.length + 1 ∧ final.inWriteTransaction = true :=
  ⟨{ RLMRealm.empty with faults := [false, false, true] }, _, _, rfl, rfl, rfl, rfl⟩

/-- A store that has not been left in the middle of a transaction, and whose
coming calls do not fail. -/
def RLMRealm.idle (rows : List BKEntityReward) : RLMRealm := ⟨rows, [], false, []⟩

/-- On an idle store only a name that cannot be stored makes the loop fail. -/
theorem saveRewards_idle (user : Option NSString) (rewards : List BKReward)
    (rows : List BKEntityReward) (final : RLMRealm) :
    (rewards.forM (saveReward user)).run (RLMRealm.idle rows) = .ok () final ↔
      (∀ reward ∈ rewards, storable reward.name = true) ∧
        final = RLMRealm.idle (rows ++ rewards.map (BKReward.row user)) := by
  induction rewards generalizing rows with
  | nil =>
      change EStateM.Result.ok () (RLMRealm.idle rows) = .ok () final ↔ _
      rw [List.map_nil, List.append_nil]
      constructor
      · rintro ⟨⟩
        exact ⟨List.forall_mem_nil _, rfl⟩
      · rintro ⟨_, rfl⟩
        rfl
  | cons reward rest ih =>
      have hrun : ((reward :: rest).forM (saveReward user)).run (RLMRealm.idle rows) =
          ((saveReward user reward) >>= fun _ => rest.forM (saveReward user)).run
            (RLMRealm.idle rows) := rfl
      have hfails : reward.fails (RLMRealm.idle rows).faults = !storable reward.name := by
        change (false || !storable reward.name || false) = _
        rw [Bool.false_or, Bool.or_false]
      rw [hrun, EStateM.run_bind]
      cases hname : storable reward.name with
      | true =>
          have hone : (saveReward user reward).run (RLMRealm.idle rows) =
              .ok () (RLMRealm.idle (rows ++ [reward.row user])) :=
            saveReward_run_ok user reward rfl (by rw [hfails, hname]; rfl)
          rw [hone]
          simp only [ih, List.forall_mem_cons, hname, true_and, List.map_cons,
            List.append_assoc, List.singleton_append]
      | false =>
          obtain ⟨exception, stuck, herror, _⟩ :=
            saveReward_run_error user reward rfl (by rw [hfails, hname]; rfl)
          rw [herror]
          simp only [List.forall_mem_cons, hname, Bool.false_eq_true, false_and,
            reduceCtorEq]

section

variable [NumberFormat] {w : World}

/-- The rows that a response without an error delivers for a user. -/
def deliveredRewards (user : Option NSString) (json : JSONObject) : List BKEntityReward :=
  match errorOf json with
  | some _ => []
  | none =>
      (items (resultOf json)).flatMap fun achievement =>
        (items (achievement.member? (ns "Rewards"))).map fun reward =>
          { name := column (reward.member? (ns "Name"))
            user := user
            value := readDouble (reward.member? (ns "Value")) }

/-- What a completion delivers: nothing unless it answers a change request,
whose user the rewards are for. -/
def DataTask.delivered (task : DataTask) : Completion → List BKEntityReward
  | .json value =>
      match task.request.channel? with
      | some (_, user) => deliveredRewards (some user) value
      | none => []
  | .error _ | .unparsable _ => []

theorem rewardsOf_read (user : Option NSString) (result : Option JSONObject) :
    (rewardsOf ((items result).map BKUnlockedAchievement.read)).map (BKReward.row user) =
      (items result).flatMap fun achievement =>
        (items (achievement.member? (ns "Rewards"))).map fun reward =>
          { name := column (reward.member? (ns "Name"))
            user := user
            value := readDouble (reward.member? (ns "Value")) } := by
  simp [rewardsOf, List.flatMap_map, List.map_flatMap, BKUnlockedAchievement.read,
    BKReward.read, BKReward.row, Function.comp_def]

/-- What the handler saves is what the completion delivers. -/
theorem readReaction_rows {task : DataTask}
    (hcaptured : task.internalCallback = task.request.internalCallback)
    (howned : task.request.pairs?.isSome = task.request.channel?.isSome)
    (completion : Completion) :
    (rewardsOf (task.readReaction completion).unlocked).map
        (BKReward.row (task.readReaction completion).user) =
      task.delivered completion := by
  cases completion with
  | error _ => rfl
  | unparsable _ => rfl
  | json value =>
      cases herror : errorOf value with
      | some error =>
          have hreaction : (task.readReaction (.json value)).unlocked = [] := by
            simp only [DataTask.readReaction, herror]
            rfl
          rw [hreaction]
          cases hchannel : task.request.channel? <;>
            simp [rewardsOf, DataTask.delivered, deliveredRewards, hchannel, herror]
      | none =>
          simp only [DataTask.readReaction, herror, hcaptured]
          cases hrequest : task.request with
          | getProjectAchievements projectId shouldLoadIcons =>
              simp only [DataTask.delivered, hrequest, BKApiRequest.channel?]
              rfl
          | getUserAchievements projectId userId shouldLoadIcons =>
              simp only [DataTask.delivered, hrequest, BKApiRequest.channel?]
              rfl
          | setUserChanges projectId userId pairs =>
              obtain ⟨user, rfl⟩ : ∃ user, userId = some user := by
                simpa [hrequest, BKApiRequest.pairs?, BKApiRequest.channel?,
                  Option.isSome_iff_exists] using howned
              simp only [DataTask.delivered, hrequest, BKApiRequest.channel?,
                Option.map_some, deliveredRewards, herror]
              exact rewardsOf_read (some user) (resultOf value)
          | incrementUserChanges projectId userId pairs =>
              obtain ⟨user, rfl⟩ : ∃ user, userId = some user := by
                simpa [hrequest, BKApiRequest.pairs?, BKApiRequest.channel?,
                  Option.isSome_iff_exists] using howned
              simp only [DataTask.delivered, hrequest, BKApiRequest.channel?,
                Option.map_some, deliveredRewards, herror]
              exact rewardsOf_read (some user) (resultOf value)

/-- A completion of a client whose store is idle: the response has the right
shape, every name of a reward can be stored, and the rows are appended. -/
theorem step_complete_idle {w' : World} {rows : List BKEntityReward} {id : Nat}
    {completion : Completion} (hidle : w.realm = RLMRealm.idle rows) :
    w.step (.complete id completion) = some w' ↔
      ∃ task, w.session.find? (fun task => task.call.id = id) = some task ∧
        task.shape completion = true ∧
        (∀ reward ∈ rewardsOf (task.readReaction completion).unlocked,
          storable reward.name = true) ∧
        w' = { w with
          realm := RLMRealm.idle (rows ++
            (rewardsOf (task.readReaction completion).unlocked).map
              (BKReward.row (task.readReaction completion).user))
          session := w.session.eraseP fun task => task.call.id = id
          completed := w.completed ++ [(task, completion)]
          callbacks := w.callbacks ++ (task.readReaction completion).callback.toList } := by
  simp only [step_complete_eq_some, hidle, saveRewardsForUser_eq, saveRewards_idle]
  constructor
  · rintro ⟨task, reaction, realm, htask, hreaction, ⟨hnames, rfl⟩, rfl⟩
    obtain ⟨hshape, rfl⟩ := task.decodes_reaction.eq_ok_iff.mp hreaction
    exact ⟨task, htask, hshape, hnames, rfl⟩
  · rintro ⟨task, htask, hshape, hnames, rfl⟩
    exact ⟨task, _, _, htask, task.decodes_reaction.of_shape hshape, ⟨hnames, rfl⟩, rfl⟩

/-- The rows that the completions of a world have delivered. -/
def World.deliveredRows (w : World) : List BKEntityReward :=
  w.completed.flatMap fun entry => entry.1.delivered entry.2

theorem World.step_realm {w' : World} {e : Event} (hled : w.Ledger)
    (hidle : w.realm = RLMRealm.idle w.deliveredRows) (hstep : w.step e = some w') :
    w'.realm = RLMRealm.idle w'.deliveredRows := by
  by_cases hcomplete : ∃ id completion, e = .complete id completion
  · obtain ⟨id, completion, rfl⟩ := hcomplete
    obtain ⟨task, htask, _, _, rfl⟩ := (step_complete_idle hidle).mp hstep
    have hsent : task ∈ w.requests :=
      hled.conserved.mem_iff.mpr (List.mem_append_left _ (List.mem_of_find?_eq_some htask))
    have hrows := readReaction_rows (hled.captured task hsent) (hled.owned task hsent)
      completion
    rw [hrows]
    simp [World.deliveredRows]
  · obtain ⟨hrealm, hcompleted, _⟩ := World.step_frame hstep
      fun id completion heq => hcomplete ⟨id, completion, heq⟩
    rw [hrealm, hidle, World.deliveredRows, World.deliveredRows, hcompleted]

end

end BadgeKeeper
