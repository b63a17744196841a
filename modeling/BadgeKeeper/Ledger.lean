import BadgeKeeper.Refinement

/-!
Bookkeeping of calls and requests. Every request belongs to one registered
call, is either in flight or completed, and keeps on the wire what its array
of pairs says. The success block captured the user of the request.
-/

namespace BadgeKeeper

/-- The block that the operation building this request passes to `sendPacket`. -/
def BKApiRequest.internalCallback : BKApiRequest → InternalCallback
  | .getProjectAchievements _ _ => .getProjectAchievements
  | .getUserAchievements _ _ _ => .getUserAchievements
  | .setUserChanges _ userId _ => .setUserChanges userId
  | .incrementUserChanges _ userId _ => .incrementUserChanges userId

/-- In flight, a request is still to be completed; the rest has completed. -/
structure World.Ledger [NumberFormat] (w : World) : Prop where
  conserved : w.requests.Perm (w.session ++ w.completed.map Prod.fst)
  distinct : (w.requests.map fun task => task.call.id).Nodup
  registered : ∀ task ∈ w.requests, task.call.id ∈ w.calls
  wire : ∀ task ∈ w.requests, task.urlRequest = urlRequestFor w.arrays task.request
  captured : ∀ task ∈ w.requests,
    task.internalCallback = task.request.internalCallback
  owned : ∀ task ∈ w.requests, task.request.pairs?.isSome = task.request.channel?.isSome

/-- No identity occurs twice among the requests in flight and the completed ones. -/
theorem World.Ledger.ids_nodup [NumberFormat] {w : World} (hled : w.Ledger) :
    (w.session.map (fun task => task.call.id) ++
      w.completed.map fun entry => entry.1.call.id).Nodup := by
  have hall := (hled.conserved.map fun task => task.call.id).nodup_iff.mp hled.distinct
  rwa [List.map_append, List.map_map] at hall

/-- Taking the first match out of a list. -/
theorem perm_of_find?_eq_some {α : Type*} {p : α → Bool} {l : List α} {a : α}
    (h : l.find? p = some a) : l.Perm (a :: l.eraseP p) := by
  induction l with
  | nil => simp at h
  | cons b rest ih =>
      cases hb : p b with
      | true =>
          rw [List.find?_cons_of_pos hb] at h
          cases h
          simp [hb]
      | false =>
          rw [List.find?_cons_of_neg (by simp [hb])] at h
          rw [List.eraseP_cons_of_neg (by simp [hb])]
          exact ((ih h).cons b).trans (.swap a b _)

section

variable [NumberFormat] {w : World}

theorem World.initial_ledger : World.initial.Ledger := by
  constructor <;> simp [World.initial]

/-- The URL request only depends on the contents of the request's own array. -/
theorem urlRequestFor_congr {arrays arrays' : Heap BKPair} {request : BKApiRequest}
    (hcontents : ∀ array, request.pairs? = some array →
      arrays'.get array = arrays.get array) :
    urlRequestFor arrays' request = urlRequestFor arrays request := by
  have hbody : request.body arrays' = request.body arrays := by
    cases request with
    | getProjectAchievements => rfl
    | getUserAchievements => rfl
    | setUserChanges projectId userId pairs =>
        simp [BKApiRequest.body, hcontents pairs rfl]
    | incrementUserChanges projectId userId pairs =>
        simp [BKApiRequest.body, hcontents pairs rfl]
  simp only [urlRequestFor, hbody]

/-- Events that only change the heap, without touching a request's array. -/
theorem World.ledger_congr {w' : World} (hled : w.Ledger)
    (hcontents : ∀ task ∈ w.requests, ∀ array, task.request.pairs? = some array →
      w'.arrays.get array = w.arrays.get array)
    (hsession : w'.session = w.session) (hrequests : w'.requests = w.requests)
    (hcompleted : w'.completed = w.completed) (hcalls : w.calls ⊆ w'.calls) :
    w'.Ledger := by
  constructor
  · simpa only [hsession, hrequests, hcompleted] using hled.conserved
  · simpa only [hrequests] using hled.distinct
  · intro task htask
    rw [hrequests] at htask
    exact hcalls (hled.registered task htask)
  · intro task htask
    rw [hrequests] at htask
    rw [hled.wire task htask]
    exact (urlRequestFor_congr (hcontents task htask)).symm
  · simpa only [hrequests] using hled.captured
  · simpa only [hrequests] using hled.owned

/-- Resuming the task of a fresh call. -/
theorem World.resume_ledger {task : DataTask} (hled : w.Ledger)
    (hfresh : task.call.id ∉ w.calls)
    (hwire : task.urlRequest = urlRequestFor w.arrays task.request)
    (hcaptured : task.internalCallback = task.request.internalCallback)
    (howned : task.request.pairs?.isSome = task.request.channel?.isSome) :
    ((w.register task.call).resume task).Ledger := by
  have hmem {other : DataTask} (hother : other ∈ w.requests ++ [task]) :
      other ∈ w.requests ∨ other = task := by
    simpa using hother
  constructor
  · have hmove : (w.session ++ w.completed.map Prod.fst ++ [task]).Perm
        (w.session ++ [task] ++ w.completed.map Prod.fst) := by
      rw [List.append_assoc, List.append_assoc]
      exact List.Perm.append_left _ List.perm_append_comm
    exact (hled.conserved.append_right [task]).trans hmove
  · change ((w.requests ++ [task]).map fun task => task.call.id).Nodup
    rw [List.map_append, List.nodup_append]
    refine ⟨hled.distinct, by simp, ?_⟩
    intro id hid other hother
    simp only [List.map_cons, List.map_nil, List.mem_singleton] at hother
    subst hother
    rintro rfl
    obtain ⟨found, hfound, heq⟩ := List.mem_map.mp hid
    exact hfresh (heq ▸ hled.registered found hfound)
  · intro other hother
    change other.call.id ∈ w.calls ++ [task.call.id]
    rcases hmem hother with hold | rfl
    · exact List.mem_append_left _ (hled.registered other hold)
    · simp
  · intro other hother
    rcases hmem hother with hold | rfl
    · exact hled.wire other hold
    · exact hwire
  · intro other hother
    rcases hmem hother with hold | rfl
    · exact hled.captured other hold
    · exact hcaptured
  · intro other hother
    rcases hmem hother with hold | rfl
    · exact hled.owned other hold
    · exact howned

theorem World.afterPrepare_ledger (hinv : w.Inv) (hled : w.Ledger) (kind : Kind)
    (user : NSString) (pair : BKPair) : (w.afterPrepare kind user pair).Ledger := by
  have hcontents : ∀ task ∈ w.requests, ∀ array, task.request.pairs? = some array →
      (w.afterPrepare kind user pair).arrays.get array = w.arrays.get array := by
    intro task htask array harray
    exact World.get_afterPrepare (hinv.sentLive task htask array harray)
      (hinv.detached task htask array harray kind user)
  obtain ⟨arrays, post, increment, heq⟩ := w.afterPrepare_eq kind user pair
  rw [heq] at hcontents ⊢
  exact World.ledger_congr hled hcontents rfl rfl rfl (List.Subset.refl _)

/-- A flush takes an array out of the dictionary and resumes a task for it. -/
theorem World.afterFlush_ledger (hinv : w.Inv) (hled : w.Ledger) (kind : Kind)
    (user : NSString) (array : Heap.Ref) {call : Call} (hfresh : call.id ∉ w.calls) :
    ((w.register call).afterFlush kind user array call).Ledger := by
  let moved : World :=
    { w.setDictionary kind ((w.dictionary kind).erase user) with
      arrays := (kind.handOver w.arrays array).1 }
  obtain ⟨post, increment, hset⟩ :=
    w.setDictionary_eq kind ((w.dictionary kind).erase user)
  have hmoved : moved.Ledger := by
    refine World.ledger_congr hled ?_ ?_ ?_ ?_ ?_
    · intro task htask found hfound
      exact Kind.get_handOver w.arrays (hinv.sentLive task htask found hfound)
    all_goals simp [moved, hset]
  have hafter : (w.register call).afterFlush kind user array call =
      (moved.register call).resume (w.flushTask kind user array call) := by
    cases kind <;> rfl
  rw [hafter]
  apply World.resume_ledger hmoved
  · change call.id ∉ moved.calls
    simpa [moved, hset] using hfresh
  · rfl
  · cases kind <;> rfl
  · cases kind <;> rfl

/-- Every client event keeps the bookkeeping. -/
theorem World.step_ledger {w' : World} {e : Event} (hinv : w.Inv) (hled : w.Ledger)
    (hstep : w.step e = some w') : w'.Ledger := by
  cases e with
  | setProjectId _ | setUserId _ | setShouldLoadIcons _ =>
      cases hstep
      exact World.ledger_congr hled (fun _ _ _ _ => rfl) rfl rfl rfl (List.Subset.refl _)
  | prepare kind value key =>
      obtain ⟨user, _, rfl⟩ := step_prepare_eq_some.mp hstep
      exact World.afterPrepare_ledger hinv hled kind user _
  | flush kind target call =>
      obtain ⟨hfresh, ⟨_, rfl⟩ | ⟨user, array, _, _, _, rfl⟩⟩ :=
        step_flush_eq_some.mp hstep
      · exact World.ledger_congr hled (fun _ _ _ _ => rfl) rfl rfl rfl
          (List.subset_append_left _ _)
      · exact World.afterFlush_ledger hinv hled kind user array hfresh
  | getProjectAchievements call =>
      obtain ⟨hfresh, rfl⟩ := step_getProjectAchievements_eq_some.mp hstep
      exact World.resume_ledger hled hfresh rfl rfl rfl
  | getUserAchievements call =>
      obtain ⟨hfresh, rfl⟩ := step_getUserAchievements_eq_some.mp hstep
      exact World.resume_ledger hled hfresh rfl rfl rfl
  | complete id completion =>
      obtain ⟨task, reaction, realm, htask, _, _, rfl⟩ := step_complete_eq_some.mp hstep
      refine ⟨?_, hled.distinct, hled.registered, hled.wire, hled.captured, hled.owned⟩
      have htaken : (w.session ++ w.completed.map Prod.fst).Perm
          ((task :: w.session.eraseP fun task => task.call.id = id) ++
            w.completed.map Prod.fst) :=
        (perm_of_find?_eq_some htask).append_right _
      have hmoved : ((task :: w.session.eraseP fun task => task.call.id = id) ++
            w.completed.map Prod.fst).Perm
          ((w.session.eraseP fun task => task.call.id = id) ++
            (w.completed ++ [(task, completion)]).map Prod.fst) := by
        rw [List.map_append, ← List.append_assoc, List.cons_append]
        exact (List.perm_append_singleton _ _).symm
      exact hled.conserved.trans (htaken.trans hmoved)

end

end BadgeKeeper
