import BadgeKeeper.Lib.Pointwise
import BadgeKeeper.Body
import BadgeKeeper.Rewards

/-!
Users do not interfere. Seen from one user, a run of the client is the same as
the run without the steps that concern other users: without values prepared
and requests made for them, and without the completions of their requests. The
two runs allocate different arrays and pair objects, so they are compared by
the keys and values that wait, by the requests on the wire and by the
completions, from which the callbacks and the reward table follow.
-/

namespace BadgeKeeper

open Pointwise

/-- Whether a request is made for this user, or for no user. -/
def BKApiRequest.concerns (user : NSString) : BKApiRequest → Bool
  | .getProjectAchievements _ _ => true
  | .getUserAchievements _ userId _ | .setUserChanges _ userId _
  | .incrementUserChanges _ userId _ => userId = some user

/-- Whether a request changes values of this user. -/
def BKApiRequest.changes (user : NSString) (request : BKApiRequest) : Bool :=
  request.channel?.any fun channel => channel.2 = user

/-- Whether an event concerns another user: a value prepared while another
user is active, a request made for another user, or its completion. -/
def Event.concernsOther (user : NSString) (w : World) : Event → Bool
  | .prepare _ _ _ | .getUserAchievements _ => w.userId ≠ some user
  | .flush _ target _ => target.resolve w ≠ some user
  | .complete call _ =>
      match w.session.find? fun task => task.call.id = call with
      | none => false
      | some task => !task.request.concerns user
  | .setProjectId _ | .setUserId _ | .setShouldLoadIcons _
  | .getProjectAchievements _ => false

/-- The same request of the same call, up to where its pairs are stored. -/
structure SameTask (task task' : DataTask) : Prop where
  call : task.call = task'.call
  urlRequest : task.urlRequest = task'.urlRequest
  internalCallback : task.internalCallback = task'.internalCallback
  channel : task.request.channel? = task'.request.channel?

section

variable [NumberFormat]

/-- The invariants of every reachable world, with the callbacks and the reward
table as functions of the completions. -/
structure World.Consistent (w : World) : Prop where
  inv : w.Inv
  ledger : w.Ledger
  fresh : w.Fresh
  realm : w.realm = RLMRealm.idle w.deliveredRows
  callbacks : w.callbacks = w.completed.flatMap fun entry =>
    (entry.1.readReaction entry.2).callback.toList

theorem World.initial_consistent : World.initial.Consistent :=
  ⟨World.initial_inv, World.initial_ledger, World.initial_fresh, rfl, rfl⟩

theorem World.step_callbacks {w w' : World} {e : Event}
    (hidle : w.realm = RLMRealm.idle w.deliveredRows)
    (hcallbacks : w.callbacks = w.completed.flatMap fun entry =>
      (entry.1.readReaction entry.2).callback.toList)
    (hstep : w.step e = some w') :
    w'.callbacks = w'.completed.flatMap fun entry =>
      (entry.1.readReaction entry.2).callback.toList := by
  by_cases hcomplete : ∃ id completion, e = .complete id completion
  · obtain ⟨id, completion, rfl⟩ := hcomplete
    obtain ⟨task, _, _, _, rfl⟩ := (step_complete_idle hidle).mp hstep
    simp [hcallbacks]
  · obtain ⟨_, hcompleted, hcalled⟩ := World.step_frame hstep
      fun id completion heq => hcomplete ⟨id, completion, heq⟩
    rw [hcalled, hcallbacks, hcompleted]

theorem World.step_consistent {w w' : World} {e : Event} (hw : w.Consistent)
    (hstep : w.step e = some w') : w'.Consistent where
  inv := (World.step_refines hw.inv hstep).1
  ledger := World.step_ledger hw.inv hw.ledger hstep
  fresh := World.step_fresh hw.inv hw.fresh hstep
  realm := World.step_realm hw.ledger hw.realm hstep
  callbacks := World.step_callbacks hw.realm hw.callbacks hstep

theorem World.run_consistent {w w' : World} {es : List Event} (hw : w.Consistent)
    (hrun : w.run es = some w') : w'.Consistent :=
  Machine.run_invariant (fun _ _ _ => World.step_consistent) hw hrun

/-- The second world is the first one as this user sees it. -/
structure Agree (user : NSString) (w w' : World) : Prop where
  left : w.Consistent
  right : w'.Consistent
  projectId : w.projectId = w'.projectId
  userId : w.userId = w'.userId
  shouldLoadIcons : w.shouldLoadIcons = w'.shouldLoadIcons
  pending : ∀ kind,
    (w.pending kind user).map BKPair.entry = (w'.pending kind user).map BKPair.entry
  calls : w'.calls ⊆ w.calls
  session : List.Forall₂ SameTask
    (w.session.filter fun task => task.request.concerns user) w'.session
  requests : List.Forall₂ SameTask
    (w.requests.filter fun task => task.request.concerns user) w'.requests
  completed : List.Forall₂ (fun entry entry' => SameTask entry.1 entry'.1 ∧
      entry.2 = entry'.2)
    (w.completed.filter fun entry => entry.1.request.concerns user) w'.completed

theorem Agree.initial (user : NSString) : Agree user World.initial World.initial := by
  refine ⟨World.initial_consistent, World.initial_consistent, rfl, rfl, rfl, fun _ => rfl,
    List.Subset.refl _, ?_, ?_, ?_⟩ <;> exact .nil

section

variable {user : NSString} {w w' next next' : World}

/-- A request for another user goes out on the left. -/
theorem Agree.resume_hidden {task : DataTask} (h : Agree user w w')
    (hhidden : task.request.concerns user = false) (hnext : next.Consistent)
    (hprojectId : next.projectId = w.projectId) (huserId : next.userId = w.userId)
    (hicons : next.shouldLoadIcons = w.shouldLoadIcons)
    (hpending : ∀ kind, next.pending kind user = w.pending kind user)
    (hcalls : w.calls ⊆ next.calls) (hsession : next.session = w.session ++ [task])
    (hrequests : next.requests = w.requests ++ [task])
    (hcompleted : next.completed = w.completed) : Agree user next w' where
  left := hnext
  right := h.right
  projectId := hprojectId.trans h.projectId
  userId := huserId.trans h.userId
  shouldLoadIcons := hicons.trans h.shouldLoadIcons
  pending kind := by rw [hpending, h.pending]
  calls := List.Subset.trans h.calls hcalls
  session := by simpa [hsession, hhidden] using h.session
  requests := by simpa [hrequests, hhidden] using h.requests
  completed := by simpa [hcompleted] using h.completed

theorem Agree.hidden_prepare {kind : Kind} {value : Double} {key : NSString}
    (h : Agree user w w') (hstep : w.step (.prepare kind value key) = some next)
    (hother : w.userId ≠ some user) : Agree user next w' := by
  have hnext := World.step_consistent h.left hstep
  obtain ⟨active, hactive, rfl⟩ := step_prepare_eq_some.mp hstep
  have hne : user ≠ active := by
    rintro rfl
    exact hother hactive
  have hpending (other : Kind) :
      (w.afterPrepare kind active ⟨w.allocated, key, value⟩).pending other user =
        w.pending other user := by
    rw [World.pending_afterPrepare h.left.inv, if_neg (fun hsame => hne hsame.2)]
  obtain ⟨_, _, _, heq⟩ := w.afterPrepare_eq kind active ⟨w.allocated, key, value⟩
  rw [heq] at hnext hpending ⊢
  exact ⟨hnext, h.right, h.projectId, h.userId, h.shouldLoadIcons,
    fun other => by rw [hpending, h.pending], h.calls, h.session, h.requests, h.completed⟩

theorem Agree.hidden_flush {kind : Kind} {target : FlushTarget} {call : Call}
    (h : Agree user w w') (hstep : w.step (.flush kind target call) = some next)
    (hother : target.resolve w ≠ some user) : Agree user next w' := by
  have hnext := World.step_consistent h.left hstep
  have hcalls : w.calls ⊆ w.calls ++ [call.id] := List.subset_append_left _ _
  obtain ⟨_, ⟨_, rfl⟩ | ⟨other, array, hresolve, _, _, rfl⟩⟩ := step_flush_eq_some.mp hstep
  · exact ⟨hnext, h.right, h.projectId, h.userId, h.shouldLoadIcons, h.pending,
      List.Subset.trans h.calls hcalls, h.session, h.requests, h.completed⟩
  · have hne : user ≠ other := by
      rintro rfl
      exact hother hresolve
    have hpending (kind' : Kind) :
        ((w.register call).afterFlush kind other array call).pending kind' user =
          w.pending kind' user := by
      rw [World.pending_afterFlush (h.left.inv.register call),
        if_neg (fun hsame => hne hsame.2)]
      rfl
    have hhidden : ((w.register call).flushTask kind other array
        call).request.concerns user = false := by
      cases kind <;>
        simp [World.flushTask, Kind.request, BKApiRequest.concerns, hne.symm]
    obtain ⟨_, _, _, heq⟩ := (w.register call).afterFlush_eq kind other array call
    rw [heq] at hnext hpending ⊢
    exact h.resume_hidden hhidden hnext rfl rfl rfl hpending hcalls rfl rfl rfl

theorem Agree.hidden_complete {id : Nat} {completion : Completion} (h : Agree user w w')
    (hstep : w.step (.complete id completion) = some next)
    (hother : Event.concernsOther user w (.complete id completion) = true) :
    Agree user next w' := by
  have hnext := World.step_consistent h.left hstep
  obtain ⟨task, hfind, _, _, rfl⟩ := (step_complete_idle h.left.realm).mp hstep
  have hhidden : task.request.concerns user = false := by
    simpa [Event.concernsOther, hfind] using hother
  have hview : (w.session.eraseP fun task => task.call.id = id).filter
      (fun task => task.request.concerns user) =
        w.session.filter fun task => task.request.concerns user :=
    filter_eraseP_of_hidden hfind hhidden
  refine ⟨hnext, h.right, h.projectId, h.userId, h.shouldLoadIcons, h.pending, h.calls,
    ?_, h.requests, ?_⟩
  · exact hview ▸ h.session
  · simpa [hhidden] using h.completed

theorem Agree.hidden {e : Event} (h : Agree user w w') (hstep : w.step e = some next)
    (hother : e.concernsOther user w = true) : Agree user next w' := by
  cases e with
  | prepare kind value key =>
      exact h.hidden_prepare hstep (by simpa [Event.concernsOther] using hother)
  | flush kind target call =>
      exact h.hidden_flush hstep (by simpa [Event.concernsOther] using hother)
  | getUserAchievements call =>
      have hnext := World.step_consistent h.left hstep
      obtain ⟨_, rfl⟩ := step_getUserAchievements_eq_some.mp hstep
      have hhidden : (BKApiRequest.getUserAchievements w.projectId w.userId
          w.shouldLoadIcons).concerns user = false := by
        simpa [Event.concernsOther, BKApiRequest.concerns] using hother
      exact h.resume_hidden hhidden hnext rfl rfl rfl (fun _ => rfl)
        (List.subset_append_left _ _) rfl rfl rfl
  | complete id completion => exact h.hidden_complete hstep hother
  | setProjectId _ | setUserId _ | setShouldLoadIcons _ | getProjectAchievements _ =>
      simp [Event.concernsOther] at hother

/-- Related requests for this user go out on both sides. -/
theorem Agree.resume_shown {task task' : DataTask} (h : Agree user w w')
    (hshown : task.request.concerns user = true) (hsame : SameTask task task')
    (hnext : next.Consistent) (hnext' : next'.Consistent)
    (hprojectId : next.projectId = next'.projectId) (huserId : next.userId = next'.userId)
    (hicons : next.shouldLoadIcons = next'.shouldLoadIcons)
    (hpending : ∀ kind, (next.pending kind user).map BKPair.entry =
      (next'.pending kind user).map BKPair.entry)
    (hcalls : next'.calls ⊆ next.calls) (hsession : next.session = w.session ++ [task])
    (hsession' : next'.session = w'.session ++ [task'])
    (hrequests : next.requests = w.requests ++ [task])
    (hrequests' : next'.requests = w'.requests ++ [task'])
    (hcompleted : next.completed = w.completed)
    (hcompleted' : next'.completed = w'.completed) : Agree user next next' where
  left := hnext
  right := hnext'
  projectId := hprojectId
  userId := huserId
  shouldLoadIcons := hicons
  pending := hpending
  calls := hcalls
  session := by
    rw [hsession, hsession', List.filter_append, List.filter_singleton, hshown]
    exact List.rel_append h.session (.cons hsame .nil)
  requests := by
    rw [hrequests, hrequests', List.filter_append, List.filter_singleton, hshown]
    exact List.rel_append h.requests (.cons hsame .nil)
  completed := by simpa only [hcompleted, hcompleted'] using h.completed

theorem Agree.calls_append (h : Agree user w w') (id : Nat) :
    w'.calls ++ [id] ⊆ w.calls ++ [id] := by
  intro other hother
  rcases List.mem_append.mp hother with hold | hnew
  · exact List.mem_append_left _ (h.calls hold)
  · exact List.mem_append_right _ hnew

/-- Flushes of arrays with the same keys and values send the same request. -/
theorem flushTask_same {kind : Kind} {array array' : Heap.Ref} (call : Call)
    (hprojectId : w.projectId = w'.projectId)
    (hentries : (w.arrays.get array).map BKPair.entry =
      (w'.arrays.get array').map BKPair.entry)
    (hdistinct : ((w.arrays.get array).map BKPair.object).Nodup)
    (hdistinct' : ((w'.arrays.get array').map BKPair.object).Nodup) :
    SameTask (w.flushTask kind user array call) (w'.flushTask kind user array' call) := by
  have hbody : BKApiRequest.pairsBody (w.arrays.get array) =
      BKApiRequest.pairsBody (w'.arrays.get array') := by
    rw [pairsBody_eq hdistinct, pairsBody_eq hdistinct', hentries]
  have hget : (kind.handOver w.arrays array).1.get (kind.handOver w.arrays array).2 =
      w.arrays.get array := Kind.get_handedOver w.arrays
  have hget' : (kind.handOver w'.arrays array').1.get (kind.handOver w'.arrays array').2 =
      w'.arrays.get array' := Kind.get_handedOver w'.arrays
  refine ⟨rfl, ?_, by cases kind <;> rfl, by cases kind <;> rfl⟩
  cases kind with
  | post =>
      simp only [World.flushTask, Kind.request, urlRequestFor, BKApiRequest.body, hget, hget',
        hbody, hprojectId]
      rfl
  | increment =>
      simp only [World.flushTask, Kind.request, urlRequestFor, BKApiRequest.body, hget, hget',
        hbody, hprojectId]
      rfl

theorem Agree.kept_prepare {kind : Kind} {value : Double} {key : NSString}
    (h : Agree user w w') (hstep : w.step (.prepare kind value key) = some next)
    (hkept : w.userId = some user) :
    ∃ next', w'.step (.prepare kind value key) = some next' ∧ Agree user next next' := by
  have hstep' : w'.step (.prepare kind value key) =
      some (w'.afterPrepare kind user ⟨w'.allocated, key, value⟩) :=
    step_prepare_eq_some.mpr ⟨user, h.userId ▸ hkept, rfl⟩
  have hnext := World.step_consistent h.left hstep
  have hnext' := World.step_consistent h.right hstep'
  obtain ⟨active, hactive, rfl⟩ := step_prepare_eq_some.mp hstep
  rw [hkept] at hactive
  cases hactive
  refine ⟨_, hstep', ?_⟩
  have hpending (other : Kind) :
      ((w.afterPrepare kind user ⟨w.allocated, key, value⟩).pending other user).map
          BKPair.entry =
        ((w'.afterPrepare kind user ⟨w'.allocated, key, value⟩).pending other user).map
          BKPair.entry := by
    rw [World.pending_afterPrepare h.left.inv, World.pending_afterPrepare h.right.inv]
    split_ifs
    · rw [List.map_append, List.map_append, h.pending]
      rfl
    · exact h.pending other
  obtain ⟨_, _, _, heq⟩ := w.afterPrepare_eq kind user ⟨w.allocated, key, value⟩
  obtain ⟨_, _, _, heq'⟩ := w'.afterPrepare_eq kind user ⟨w'.allocated, key, value⟩
  rw [heq] at hnext hpending ⊢
  rw [heq'] at hnext' hpending ⊢
  exact ⟨hnext, hnext', h.projectId, h.userId, h.shouldLoadIcons, hpending, h.calls,
    h.session, h.requests, h.completed⟩

/-- A flush of waiting values sends the same entries on both sides. -/
theorem Agree.kept_send {kind : Kind} {target : FlushTarget} {call : Call}
    {array : Heap.Ref} (h : Agree user w w') (hfresh : call.id ∉ w'.calls)
    (hresolve : target.resolve w' = some user)
    (hentry : (w.dictionary kind).lookup user = some array) (hget : w.arrays.get array ≠ [])
    (hnext : ((w.register call).afterFlush kind user array call).Consistent) :
    ∃ next', w'.step (.flush kind target call) = some next' ∧
      Agree user ((w.register call).afterFlush kind user array call) next' := by
  have hwaiting := World.pending_of_lookup hentry
  have hsome : w'.pending kind user ≠ [] := by
    intro hempty
    have hentries := h.pending kind
    rw [hempty, hwaiting] at hentries
    exact hget (List.map_eq_nil_iff.mp hentries)
  obtain ⟨array', hentry', hget'⟩ := World.exists_array hsome
  have hwaiting' := World.pending_of_lookup hentry'
  have hentries : (w.arrays.get array).map BKPair.entry =
      (w'.arrays.get array').map BKPair.entry := by
    rw [← hwaiting, ← hwaiting', h.pending]
  have hstep' : w'.step (.flush kind target call) =
      some ((w'.register call).afterFlush kind user array' call) :=
    step_flush_eq_some.mpr ⟨hfresh, .inr ⟨user, array', hresolve, hentry', hget', rfl⟩⟩
  have hsame : SameTask ((w.register call).flushTask kind user array call)
      ((w'.register call).flushTask kind user array' call) :=
    flushTask_same call (h.projectId : (w.register call).projectId = _) hentries
      (hwaiting ▸ h.left.fresh.pending kind user)
      (hwaiting' ▸ h.right.fresh.pending kind user)
  have hshown : ((w.register call).flushTask kind user array
      call).request.concerns user = true := by
    cases kind <;> simp [World.flushTask, Kind.request, BKApiRequest.concerns]
  have hpending (other : Kind) :
      (((w.register call).afterFlush kind user array call).pending other user).map
          BKPair.entry =
        (((w'.register call).afterFlush kind user array' call).pending other user).map
          BKPair.entry := by
    rw [World.pending_afterFlush (h.left.inv.register call),
      World.pending_afterFlush (h.right.inv.register call)]
    split_ifs
    · rfl
    · exact h.pending other
  have hnext' := World.step_consistent h.right hstep'
  refine ⟨_, hstep', ?_⟩
  obtain ⟨_, _, _, heq⟩ := (w.register call).afterFlush_eq kind user array call
  obtain ⟨_, _, _, heq'⟩ := (w'.register call).afterFlush_eq kind user array' call
  rw [heq] at hnext hpending ⊢
  rw [heq'] at hnext' hpending ⊢
  exact h.resume_shown hshown hsame hnext hnext' h.projectId h.userId h.shouldLoadIcons
    hpending (h.calls_append call.id) rfl rfl rfl rfl rfl rfl

theorem Agree.kept_flush {kind : Kind} {target : FlushTarget} {call : Call}
    (h : Agree user w w') (hstep : w.step (.flush kind target call) = some next)
    (hkept : target.resolve w = some user) :
    ∃ next', w'.step (.flush kind target call) = some next' ∧ Agree user next next' := by
  have hresolve' : target.resolve w' = some user := by
    cases target with
    | active => exact h.userId.symm.trans hkept
    | user userId => exact hkept
  have hnext := World.step_consistent h.left hstep
  obtain ⟨hfresh, hcases⟩ := step_flush_eq_some.mp hstep
  have hfresh' : call.id ∉ w'.calls := fun hmem => hfresh (h.calls hmem)
  rcases hcases with ⟨hnothing, rfl⟩ | ⟨other, array, hresolve, hentry, hget, rfl⟩
  · have hnothing' : w'.pending kind user = [] := by
      have hentries := h.pending kind
      rw [hnothing user hkept] at hentries
      exact List.map_eq_nil_iff.mp hentries.symm
    have hstep' : w'.step (.flush kind target call) = some (w'.register call) := by
      refine step_flush_eq_some.mpr ⟨hfresh', .inl ⟨fun other hother => ?_, rfl⟩⟩
      rw [hresolve'] at hother
      cases hother
      exact hnothing'
    exact ⟨_, hstep', hnext, World.step_consistent h.right hstep', h.projectId, h.userId,
      h.shouldLoadIcons, h.pending, h.calls_append call.id, h.session, h.requests,
      h.completed⟩
  · rw [hkept] at hresolve
    cases hresolve
    exact h.kept_send hfresh' hresolve' hentry hget hnext

omit [NumberFormat] in
theorem SameTask.shape_eq {task task' : DataTask} (h : SameTask task task')
    (completion : Completion) : task.shape completion = task'.shape completion := by
  cases completion <;> simp only [DataTask.shape, h.internalCallback]

theorem SameTask.readReaction_eq {task task' : DataTask} (h : SameTask task task')
    (completion : Completion) :
    task.readReaction completion = task'.readReaction completion := by
  cases completion <;>
    simp only [DataTask.readReaction, DataTask.failure, h.internalCallback, h.call]

theorem Agree.kept_complete {id : Nat} {completion : Completion} (h : Agree user w w')
    (hstep : w.step (.complete id completion) = some next)
    (hkept : Event.concernsOther user w (.complete id completion) = false) :
    ∃ next', w'.step (.complete id completion) = some next' ∧ Agree user next next' := by
  have hnext := World.step_consistent h.left hstep
  obtain ⟨task, hfind, hshape, hnames, rfl⟩ := (step_complete_idle h.left.realm).mp hstep
  have hshown : task.request.concerns user = true := by
    simpa [Event.concernsOther, hfind] using hkept
  obtain ⟨hview, herase⟩ : (w.session.filter fun task =>
          task.request.concerns user).find? (fun task => task.call.id = id) = some task ∧
      (w.session.eraseP fun task => task.call.id = id).filter
          (fun task => task.request.concerns user) =
        (w.session.filter fun task => task.request.concerns user).eraseP
          fun task => task.call.id = id :=
    filter_eraseP_of_shown hfind hshown
  obtain ⟨task', hfind', hsame, hsession⟩ : ∃ task',
      w'.session.find? (fun task => task.call.id = id) = some task' ∧ SameTask task task' ∧
        List.Forall₂ SameTask ((w.session.filter fun task =>
            task.request.concerns user).eraseP fun task => task.call.id = id)
          (w'.session.eraseP fun task => task.call.id = id) :=
    find_of_related (fun first second hfirst => by rw [hfirst.call]) h.session hview
  have hstep' := (step_complete_idle h.right.realm).mpr
    ⟨task', hfind', hsame.shape_eq completion ▸ hshape,
      hsame.readReaction_eq completion ▸ hnames, rfl⟩
  refine ⟨_, hstep', hnext, World.step_consistent h.right hstep', h.projectId, h.userId,
    h.shouldLoadIcons, h.pending, h.calls, ?_, h.requests, ?_⟩
  · exact herase ▸ hsession
  · change List.Forall₂ _ ((w.completed ++ [(task, completion)]).filter _) _
    rw [List.filter_append, List.filter_singleton, hshown]
    exact List.rel_append h.completed (.cons ⟨hsame, rfl⟩ .nil)

/-- A get request of the same user and project goes out on both sides. -/
theorem Agree.kept_get {request : BKApiRequest} {call : Call} (h : Agree user w w')
    (hbody : ∀ arrays, request.body arrays = none)
    (hshown : request.concerns user = true)
    (hnext : ((w.register call).resume
      (w.dataTask request request.internalCallback call)).Consistent)
    (hnext' : ((w'.register call).resume
      (w'.dataTask request request.internalCallback call)).Consistent) :
    Agree user ((w.register call).resume (w.dataTask request request.internalCallback call))
      ((w'.register call).resume (w'.dataTask request request.internalCallback call)) := by
  have hsame : SameTask (w.dataTask request request.internalCallback call)
      (w'.dataTask request request.internalCallback call) := by
    refine ⟨rfl, ?_, rfl, rfl⟩
    simp only [World.dataTask, urlRequestFor, hbody]
  exact h.resume_shown hshown hsame hnext hnext' h.projectId h.userId h.shouldLoadIcons
    h.pending (h.calls_append call.id) rfl rfl rfl rfl rfl rfl

theorem Agree.kept {e : Event} (h : Agree user w w') (hstep : w.step e = some next)
    (hkept : e.concernsOther user w = false) :
    ∃ next', w'.step e = some next' ∧ Agree user next next' := by
  have hnext := World.step_consistent h.left hstep
  cases e with
  | setProjectId projectId =>
      have hstep' : w'.step (.setProjectId projectId) =
          some { w' with projectId := projectId } := rfl
      cases hstep
      exact ⟨_, hstep', hnext, World.step_consistent h.right hstep', rfl, h.userId,
        h.shouldLoadIcons, h.pending, h.calls, h.session, h.requests, h.completed⟩
  | setUserId userId =>
      have hstep' : w'.step (.setUserId userId) = some { w' with userId := userId } := rfl
      cases hstep
      exact ⟨_, hstep', hnext, World.step_consistent h.right hstep', h.projectId, rfl,
        h.shouldLoadIcons, h.pending, h.calls, h.session, h.requests, h.completed⟩
  | setShouldLoadIcons shouldLoadIcons =>
      have hstep' : w'.step (.setShouldLoadIcons shouldLoadIcons) =
          some { w' with shouldLoadIcons := shouldLoadIcons } := rfl
      cases hstep
      exact ⟨_, hstep', hnext, World.step_consistent h.right hstep', h.projectId, h.userId,
        rfl, h.pending, h.calls, h.session, h.requests, h.completed⟩
  | prepare kind value key =>
      exact h.kept_prepare hstep (by simpa [Event.concernsOther] using hkept)
  | flush kind target call =>
      exact h.kept_flush hstep (by simpa [Event.concernsOther] using hkept)
  | getProjectAchievements call =>
      obtain ⟨hfresh, rfl⟩ := step_getProjectAchievements_eq_some.mp hstep
      have hstep' := step_getProjectAchievements_eq_some.mpr
        ⟨fun hmem => hfresh (h.calls hmem), rfl⟩
      refine ⟨_, hstep', ?_⟩
      rw [← h.projectId, ← h.shouldLoadIcons] at hstep' ⊢
      exact h.kept_get (fun _ => rfl) rfl hnext (World.step_consistent h.right hstep')
  | getUserAchievements call =>
      obtain ⟨hfresh, rfl⟩ := step_getUserAchievements_eq_some.mp hstep
      have hstep' := step_getUserAchievements_eq_some.mpr
        ⟨fun hmem => hfresh (h.calls hmem), rfl⟩
      refine ⟨_, hstep', ?_⟩
      rw [← h.projectId, ← h.userId, ← h.shouldLoadIcons] at hstep' ⊢
      have hshown : (BKApiRequest.getUserAchievements w.projectId w.userId
          w.shouldLoadIcons).concerns user = true := by
        simpa [Event.concernsOther, BKApiRequest.concerns] using hkept
      exact h.kept_get (fun _ => rfl) hshown hnext (World.step_consistent h.right hstep')
  | complete id completion => exact h.kept_complete hstep hkept

/-- The set and increment requests sent for this user, as they are on the wire. -/
def World.sentFor (w : World) (user : NSString) : List NSMutableURLRequest :=
  (w.requests.filter fun task => task.request.changes user).map DataTask.urlRequest

/-- The callbacks of this user's flushes. -/
def World.callbacksFor (w : World) (user : NSString) : List Callback :=
  w.callbacks.filter fun callback =>
    (w.requests.filter fun task => task.request.changes user).any fun task =>
      task.call.id = callback.call

omit [NumberFormat] in
theorem concerns_of_changes {request : BKApiRequest} (h : request.changes user = true) :
    request.concerns user = true := by
  cases request with
  | getProjectAchievements _ _ => rfl
  | getUserAchievements _ _ _ => simp [BKApiRequest.changes, BKApiRequest.channel?] at h
  | setUserChanges projectId userId _ =>
      cases userId <;>
        simp_all [BKApiRequest.changes, BKApiRequest.channel?, BKApiRequest.concerns]
  | incrementUserChanges projectId userId _ =>
      cases userId <;>
        simp_all [BKApiRequest.changes, BKApiRequest.channel?, BKApiRequest.concerns]

omit [NumberFormat] in
theorem SameTask.changes_eq {task task' : DataTask} (h : SameTask task task')
    (user : NSString) : task.request.changes user = task'.request.changes user := by
  simp only [BKApiRequest.changes, h.channel]

omit [NumberFormat] in
/-- A view of the change requests, within those that concern the user. -/
theorem filter_concerns_changes {α : Type} (request : α → BKApiRequest) (l : List α) :
    (l.filter fun a => (request a).concerns user).filter
        (fun a => (request a).changes user) =
      l.filter fun a => (request a).changes user := by
  rw [List.filter_filter]
  apply List.filter_congr
  intro a _
  cases hchanges : (request a).changes user with
  | true => simp [concerns_of_changes hchanges]
  | false => rfl

omit [NumberFormat] in
theorem Call.onFailure_call {call : Call} {code : Int32} {message : Option JSONObject}
    {callback : Callback} (h : callback ∈ call.onFailure code message) :
    callback.call = call.id := by
  unfold Call.onFailure at h
  split_ifs at h
  · cases h
    rfl
  · cases h

omit [NumberFormat] in
theorem Call.onSuccess_call {call : Call} {achievements : Achievements}
    {callback : Callback} (h : callback ∈ call.onSuccess achievements) :
    callback.call = call.id := by
  unfold Call.onSuccess at h
  split_ifs at h
  · cases h
    rfl
  · cases h

theorem readReaction_call {task : DataTask} {completion : Completion} {callback : Callback}
    (h : callback ∈ (task.readReaction completion).callback.toList) :
    callback.call = task.call.id := by
  rw [Option.mem_toList] at h
  cases completion with
  | error _ => exact Call.onFailure_call h
  | unparsable _ => exact Call.onFailure_call h
  | json value =>
      cases herror : errorOf value with
      | some error =>
          simp only [DataTask.readReaction, herror] at h
          exact Call.onFailure_call h
      | none =>
          simp only [DataTask.readReaction, herror] at h
          exact Call.onSuccess_call h

/-- A selection of the callbacks that is decided by their completions. -/
theorem World.callbacks_filter (hw : w.Consistent) {selects : Callback → Bool}
    {view : DataTask × Completion → Bool}
    (hview : ∀ entry ∈ w.completed, ∀ callback ∈
      (entry.1.readReaction entry.2).callback.toList, selects callback = view entry) :
    w.callbacks.filter selects =
      (w.completed.filter view).flatMap fun entry =>
        (entry.1.readReaction entry.2).callback.toList := by
  rw [hw.callbacks, List.filter_flatMap, ← @flatMap_filter_of_nil _ _ view]
  · apply List.flatMap_congr
    intro entry hentry
    obtain ⟨hcompleted, hshown⟩ := List.mem_filter.mp hentry
    apply List.filter_eq_self.mpr
    intro callback hcallback
    rw [hview entry hcompleted callback hcallback]
    exact hshown
  · intro entry hentry hhidden
    apply List.filter_eq_nil_iff.mpr
    intro callback hcallback
    rw [hview entry hentry callback hcallback, hhidden]
    simp

/-- Completed requests have been sent. -/
theorem World.Ledger.sent_of_completed (hled : w.Ledger) {entry : DataTask × Completion}
    (hentry : entry ∈ w.completed) : entry.1 ∈ w.requests :=
  hled.conserved.mem_iff.mpr (List.mem_append_right _ (List.mem_map_of_mem hentry))

theorem World.callbacksFor_eq (hw : w.Consistent) (user : NSString) :
    w.callbacksFor user =
      (w.completed.filter fun entry => entry.1.request.changes user).flatMap fun entry =>
        (entry.1.readReaction entry.2).callback.toList := by
  apply World.callbacks_filter hw
  intro entry hentry callback hcallback
  have hsent := hw.ledger.sent_of_completed hentry
  rw [readReaction_call hcallback]
  cases hchanges : entry.1.request.changes user with
  | true =>
      apply List.any_eq_true.mpr
      exact ⟨entry.1, List.mem_filter.mpr ⟨hsent, hchanges⟩, by simp⟩
  | false =>
      apply List.any_eq_false.mpr
      intro task htask hid
      obtain ⟨htask', hchanges'⟩ := List.mem_filter.mp htask
      have hsame : task = entry.1 :=
        List.inj_on_of_nodup_map hw.ledger.distinct htask' hsent (by simpa using hid)
      rw [hsame, hchanges] at hchanges'
      cases hchanges'

theorem delivered_user {task : DataTask} {completion : Completion} {row : BKEntityReward}
    (hrow : row ∈ task.delivered completion) (huser : row.user = some user) :
    task.request.changes user = true := by
  cases completion with
  | error _ => exact absurd hrow List.not_mem_nil
  | unparsable _ => exact absurd hrow List.not_mem_nil
  | json value =>
      cases hchannel : task.request.channel? with
      | none => simp [DataTask.delivered, hchannel] at hrow
      | some channel =>
          simp only [DataTask.delivered, hchannel, deliveredRewards] at hrow
          split at hrow
          · exact absurd hrow List.not_mem_nil
          · obtain ⟨achievement, _, hreward⟩ := List.mem_flatMap.mp hrow
            obtain ⟨reward, _, rfl⟩ := List.mem_map.mp hreward
            simpa [BKApiRequest.changes, hchannel] using huser

theorem World.rowsFor_eq (hw : w.Consistent) (name : Option NSString) (user : NSString) :
    w.realm.rows.filter (fun row => row.name = name ∧ row.user = some user) =
      (w.completed.filter fun entry => entry.1.request.changes user).flatMap fun entry =>
        (entry.1.delivered entry.2).filter fun row =>
          row.name = name ∧ row.user = some user := by
  have hrows : w.realm.rows = w.deliveredRows := congrArg RLMRealm.rows hw.realm
  rw [hrows, World.deliveredRows, List.filter_flatMap, flatMap_filter_of_nil]
  intro entry _ hchanges
  apply List.filter_eq_nil_iff.mpr
  intro row hrow hselected
  simp only [decide_eq_true_eq] at hselected
  rw [delivered_user hrow hselected.2] at hchanges
  cases hchanges

/-- Related worlds are the same to the user. -/
theorem Agree.observations (h : Agree user w w') :
    w.sentFor user = w'.sentFor user ∧
      (∀ kind, (w.pending kind user).map BKPair.entry =
        (w'.pending kind user).map BKPair.entry) ∧
      w.callbacksFor user = w'.callbacksFor user ∧
      ∀ name, w.realm.rows.filter (fun row => row.name = name ∧ row.user = some user) =
        w'.realm.rows.filter fun row => row.name = name ∧ row.user = some user := by
  refine ⟨?_, h.pending, ?_, ?_⟩
  · rw [World.sentFor, ← filter_concerns_changes DataTask.request]
    exact map_filter_of_related (fun _ _ hsame => hsame.changes_eq user)
      (fun _ _ hsame => hsame.urlRequest) h.requests
  · rw [World.callbacksFor_eq h.left, World.callbacksFor_eq h.right,
      ← filter_concerns_changes fun entry : DataTask × Completion => entry.1.request]
    refine flatMap_filter_of_related (fun _ _ hsame => hsame.1.changes_eq user) ?_ h.completed
    rintro ⟨task, completion⟩ ⟨task', _⟩ ⟨hsame, rfl⟩
    rw [hsame.readReaction_eq completion]
  · intro name
    rw [World.rowsFor_eq h.left, World.rowsFor_eq h.right,
      ← filter_concerns_changes fun entry : DataTask × Completion => entry.1.request]
    refine flatMap_filter_of_related (fun _ _ hsame => hsame.1.changes_eq user) ?_ h.completed
    rintro ⟨task, completion⟩ ⟨task', _⟩ ⟨hsame, rfl⟩
    cases completion <;> simp only [DataTask.delivered, hsame.channel]

end

/-- The run of one user: the steps that concern another user left out. -/
def runOf (user : NSString) (es : List Event) : List Event :=
  Machine.purge World.step (fun w e => e.concernsOther user w) World.initial es

/-- Leaving out every step that concerns other users changes nothing for a
user: not the requests sent, not the values waiting, not the callbacks, not
the rewards read. -/
theorem users_do_not_interfere (user : NSString) {es : List Event} {w : World}
    (hrun : World.initial.run es = some w) :
    ∃ w', World.initial.run (runOf user es) = some w' ∧
      w.sentFor user = w'.sentFor user ∧
      (∀ kind, (w.pending kind user).map BKPair.entry =
        (w'.pending kind user).map BKPair.entry) ∧
      w.callbacksFor user = w'.callbacksFor user ∧
      ∀ name, ∃ rewards,
        (readRewardValuesForName name (some user)).run w = .ok (true, rewards) w ∧
        (readRewardValuesForName name (some user)).run w' = .ok (true, rewards) w' := by
  obtain ⟨w', hrun', hagree⟩ := @Machine.unwinding _ _ World.step
    (fun w e => e.concernsOther user w) (Agree user) (fun _ _ _ _ => Agree.hidden)
    (fun _ _ _ _ => Agree.kept) _ _ _ _ (Agree.initial user) hrun
  obtain ⟨hsent, hpending, hcallbacks, hrows⟩ := hagree.observations
  refine ⟨w', hrun', hsent, hpending, hcallbacks, ?_⟩
  intro name
  refine ⟨_, rfl, ?_⟩
  rw [hrows name]
  rfl

end

/-- Ann's run with Bob's value, flush and completion in between. -/
def interleaved : List Event :=
  [.setProjectId (some (ns "p")),
    .setUserId (some (ns "ann")),
    .prepare .post Double.one (ns "gold"),
    .setUserId (some (ns "bob")),
    .prepare .post Double.zero (ns "gold"),
    .flush .post .active ⟨0, true, true⟩,
    .flush .post (.user (some (ns "ann"))) ⟨1, true, true⟩,
    .complete 0 (.error (ns "offline")),
    .complete 1 (.json (.object []))]

theorem users_do_not_interfere_interleaved :
    letI := NumberFormat.numerals
    ∃ w, World.initial.run interleaved = some w ∧
      ∃ w', World.initial.run (runOf (ns "ann") interleaved) = some w' ∧
        w.sentFor (ns "ann") = w'.sentFor (ns "ann") ∧
        (∀ kind, (w.pending kind (ns "ann")).map BKPair.entry =
          (w'.pending kind (ns "ann")).map BKPair.entry) ∧
        w.callbacksFor (ns "ann") = w'.callbacksFor (ns "ann") ∧
        ∀ name, ∃ rewards,
          (readRewardValuesForName name (some (ns "ann"))).run w = .ok (true, rewards) w ∧
          (readRewardValuesForName name (some (ns "ann"))).run w' =
            .ok (true, rewards) w' :=
  letI := NumberFormat.numerals
  (Option.isSome_iff_exists.mp (by decide +kernel)).imp fun _ hrun =>
    ⟨hrun, users_do_not_interfere (ns "ann") hrun⟩

end BadgeKeeper
