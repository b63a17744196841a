import BadgeKeeper.Rewards

/-!
Which completions are dispatched. The handler of a data task runs to its end,
and then invokes exactly one callback, precisely on the completions whose
classes meet the messages the decoders send: a transport error and data that
does not parse always do, a response has to be an object with an acceptable
`Error`, and without an error the `Result` must suit the operation.
-/

namespace BadgeKeeper

open JSONObject

section

variable [NumberFormat]

/-- With both blocks supplied, every reaction ends with a callback of its call. -/
theorem readReaction_callback {task : DataTask} (hsuccess : task.call.success = true)
    (hfailure : task.call.failure = true) (completion : Completion) :
    ∃ callback, (task.readReaction completion).callback = some callback ∧
      callback.call = task.call.id := by
  cases completion with
  | error localizedDescription =>
      exact ⟨_, if_pos hfailure, rfl⟩
  | unparsable localizedDescription =>
      exact ⟨_, if_pos hfailure, rfl⟩
  | json value =>
      cases herror : errorOf value with
      | some error =>
          simp only [DataTask.readReaction, herror]
          exact ⟨_, if_pos hfailure, rfl⟩
      | none =>
          simp only [DataTask.readReaction, herror]
          exact ⟨_, if_pos hsuccess, rfl⟩

/-- A task in flight is the one that its identity finds. -/
theorem World.find_session {w : World} (hled : w.Ledger) {task : DataTask}
    (htask : task ∈ w.session) :
    w.session.find? (fun other => other.call.id = task.call.id) = some task := by
  have hdistinct : (w.session.map fun task => task.call.id).Nodup :=
    (List.nodup_append.mp hled.ids_nodup).1
  obtain ⟨found, hfound⟩ : ∃ found,
      w.session.find? (fun other => other.call.id = task.call.id) = some found := by
    apply Option.isSome_iff_exists.mp
    exact List.find?_isSome.mpr ⟨task, htask, by simp⟩
  have hid : found.call.id = task.call.id := by
    simpa using List.find?_some hfound
  have hsame : found = task :=
    List.inj_on_of_nodup_map hdistinct (List.mem_of_find?_eq_some hfound) htask hid
  rw [hfound, hsame]

end

end BadgeKeeper
