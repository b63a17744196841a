import BadgeKeeper.Conservation

/-!
The body of a change request. The loop compares each pair with the last one by
identity, which leaves out the separator in the right place as long as no pair
object occurs twice in the array. Pairs are allocated afresh when they are
prepared, so this holds of every array of every run, and the body only depends
on the keys and values.
-/

namespace BadgeKeeper

variable [NumberFormat]

/-- The array element for a key and a value. -/
def entryNode (entry : NSString × Double) : NSString :=
  ns "\x7b\"Key\":\"" ++ entry.1 ++ ns "\", \"Value\":" ++
    NumberFormat.description entry.2 ++ ns "\x7d"

/-- The elements in brackets, separated by commas. -/
def entriesBody (entries : List (NSString × Double)) : NSString :=
  ns "[" ++ (ns ",").intercalate (entries.map entryNode) ++ ns "]"

theorem node_eq (pair : BKPair) : BKApiRequest.node pair = entryNode pair.entry := rfl

/-- The loop over a suffix of the array whose pairs are different objects. -/
theorem foldl_appendNode (pairs : List BKPair) {rest : List BKPair} (hrest : rest ≠ [])
    (hlast : rest.getLast? = pairs.getLast?) (hdistinct : (rest.map BKPair.object).Nodup)
    (body : NSString) :
    rest.foldl (BKApiRequest.appendNode pairs) body =
      body ++ (ns ",").intercalate (rest.map BKApiRequest.node) := by
  induction rest generalizing body with
  | nil => exact absurd rfl hrest
  | cons pair rest ih =>
      cases rest with
      | nil =>
          have hsame : pairs.getLast?.map BKPair.object = some pair.object := by
            rw [← hlast]
            rfl
          simp [BKApiRequest.appendNode, hsame]
      | cons next rest =>
          have hnext : (next :: rest).getLast? = pairs.getLast? := by
            rw [← hlast, List.getLast?_cons_cons]
          have hdiffer : pairs.getLast?.map BKPair.object ≠ some pair.object := by
            obtain ⟨last, hfound⟩ := Option.ne_none_iff_exists'.mp
              (mt List.getLast?_eq_none_iff.mp (List.cons_ne_nil next rest))
            rw [← hnext, hfound, Option.map_some]
            intro hobject
            have hmem : last.object ∈ (next :: rest).map BKPair.object :=
              List.mem_map_of_mem (List.mem_of_getLast? hfound)
            rw [Option.some.inj hobject] at hmem
            exact (List.nodup_cons.mp hdistinct).1 hmem
          have hstep : BKApiRequest.appendNode pairs body pair =
              body ++ BKApiRequest.node pair ++ ns "," := if_pos hdiffer
          rw [List.foldl_cons, hstep,
            ih (List.cons_ne_nil _ _) hnext (List.nodup_cons.mp hdistinct).2]
          simp [List.intercalate_cons_cons]

theorem pairsBody_eq {pairs : List BKPair} (hdistinct : (pairs.map BKPair.object).Nodup) :
    BKApiRequest.pairsBody pairs = entriesBody (pairs.map BKPair.entry) := by
  by_cases hempty : pairs = []
  · subst hempty
    rfl
  · have hloop := foldl_appendNode pairs hempty rfl hdistinct (ns "[")
    have hnodes : pairs.map BKApiRequest.node = (pairs.map BKPair.entry).map entryNode := by
      simp [Function.comp_def, node_eq]
    rw [BKApiRequest.pairsBody, hloop, hnodes, entriesBody]

/-- No pair object occurs twice in a waiting or a sent array, and the waiting
ones have been allocated. -/
structure World.Fresh (w : World) : Prop where
  pending : ∀ kind user, ((w.pending kind user).map BKPair.object).Nodup
  allocated : ∀ kind user, ∀ pair ∈ w.pending kind user, pair.object < w.allocated
  sent : ∀ task ∈ w.requests, ((w.contents task).map BKPair.object).Nodup

section

variable {w : World}

omit [NumberFormat] in
theorem World.initial_fresh : World.initial.Fresh := by
  refine ⟨?_, ?_, ?_⟩
  · intro kind user
    cases kind <;> exact List.nodup_nil
  · intro kind user pair hpair
    cases kind <;> exact absurd hpair (List.not_mem_nil)
  · intro task htask
    exact absurd htask (List.not_mem_nil)

omit [NumberFormat] in
theorem World.fresh_congr {w' : World} (hfresh : w.Fresh)
    (harrays : w'.arrays = w.arrays) (hpost : w'.postValues = w.postValues)
    (hincrement : w'.incrementValues = w.incrementValues)
    (hallocated : w'.allocated = w.allocated)
    (hrequests : ∀ task ∈ w'.requests, task ∈ w.requests ∨ task.request.pairs? = none) :
    w'.Fresh := by
  have hpending := World.pending_congr harrays hpost hincrement
  have hcontents (task : DataTask) : w'.contents task = w.contents task := by
    simp [World.contents, harrays]
  refine ⟨?_, ?_, ?_⟩
  · simpa only [hpending] using hfresh.pending
  · simpa only [hpending, hallocated] using hfresh.allocated
  · intro task htask
    rw [hcontents]
    rcases hrequests task htask with hold | hnone
    · exact hfresh.sent task hold
    · simp [World.contents, hnone]

omit [NumberFormat] in
theorem World.Fresh.register (hfresh : w.Fresh) (call : Call) : (w.register call).Fresh :=
  World.fresh_congr hfresh rfl rfl rfl rfl fun _ htask => .inl htask

omit [NumberFormat] in
theorem World.afterPrepare_fresh (hinv : w.Inv) (hfresh : w.Fresh) (kind : Kind)
    (user : NSString) (key : NSString) (value : Double) :
    (w.afterPrepare kind user ⟨w.allocated, key, value⟩).Fresh := by
  have hallocated : (w.afterPrepare kind user ⟨w.allocated, key, value⟩).allocated =
      w.allocated + 1 := by
    obtain ⟨_, _, _, heq⟩ := w.afterPrepare_eq kind user ⟨w.allocated, key, value⟩
    rw [heq]
  refine ⟨?_, ?_, ?_⟩
  · intro other user'
    rw [World.pending_afterPrepare hinv]
    split_ifs
    · rw [List.map_append, List.nodup_append]
      refine ⟨hfresh.pending kind user, by simp, ?_⟩
      intro object hobject last hlast
      obtain ⟨pair, hpair, rfl⟩ := List.mem_map.mp hobject
      rw [List.map_singleton, List.mem_singleton] at hlast
      subst hlast
      apply Nat.ne_of_lt
      exact hfresh.allocated kind user pair hpair
    · exact hfresh.pending other user'
  · intro other user' pair hpair
    rw [World.pending_afterPrepare hinv] at hpair
    rw [hallocated]
    split_ifs at hpair
    · rcases List.mem_append.mp hpair with hold | hnew
      · have hbefore := hfresh.allocated kind user pair hold
        omega
      · rw [List.mem_singleton.mp hnew]
        apply Nat.lt_succ_self
    · have hbefore := hfresh.allocated other user' pair hpair
      omega
  · intro task htask
    rw [World.requests_afterPrepare] at htask
    rw [World.contents_afterPrepare hinv htask]
    exact hfresh.sent task htask

theorem World.afterFlush_fresh (hinv : w.Inv) (hfresh : w.Fresh) {kind : Kind}
    {user : NSString} {array : Heap.Ref} (call : Call)
    (hentry : (w.dictionary kind).lookup user = some array) :
    (w.afterFlush kind user array call).Fresh := by
  have hallocated : (w.afterFlush kind user array call).allocated = w.allocated := by
    cases kind <;> rfl
  refine ⟨?_, ?_, ?_⟩
  · intro other user'
    rw [World.pending_afterFlush hinv]
    split_ifs
    · exact List.nodup_nil
    · exact hfresh.pending other user'
  · intro other user' pair hpair
    rw [World.pending_afterFlush hinv] at hpair
    rw [hallocated]
    split_ifs at hpair
    · exact absurd hpair List.not_mem_nil
    · exact hfresh.allocated other user' pair hpair
  · intro task htask
    rw [World.requests_afterFlush] at htask
    rcases List.mem_append.mp htask with hold | hnew
    · rw [World.contents_afterFlush hinv hold]
      exact hfresh.sent task hold
    · rw [List.mem_singleton.mp hnew, World.contents_flushTask]
      rw [← World.pending_of_lookup hentry]
      exact hfresh.pending kind user

/-- Every client event keeps the identities apart. -/
theorem World.step_fresh {w' : World} {e : Event} (hinv : w.Inv) (hfresh : w.Fresh)
    (hstep : w.step e = some w') : w'.Fresh := by
  cases e with
  | setProjectId _ | setUserId _ | setShouldLoadIcons _ =>
      cases hstep
      exact World.fresh_congr hfresh rfl rfl rfl rfl fun _ htask => .inl htask
  | prepare kind value key =>
      obtain ⟨user, _, rfl⟩ := step_prepare_eq_some.mp hstep
      exact World.afterPrepare_fresh hinv hfresh kind user key value
  | flush kind target call =>
      obtain ⟨_, ⟨_, rfl⟩ | ⟨user, array, _, hentry, _, rfl⟩⟩ := step_flush_eq_some.mp hstep
      · exact hfresh.register call
      · exact World.afterFlush_fresh (hinv.register call) (hfresh.register call) call hentry
  | getProjectAchievements call =>
      obtain ⟨_, rfl⟩ := step_getProjectAchievements_eq_some.mp hstep
      refine World.fresh_congr hfresh rfl rfl rfl rfl fun task htask => ?_
      rcases List.mem_append.mp htask with hold | hnew
      · exact .inl hold
      · exact .inr (by rw [List.mem_singleton.mp hnew]; rfl)
  | getUserAchievements call =>
      obtain ⟨_, rfl⟩ := step_getUserAchievements_eq_some.mp hstep
      refine World.fresh_congr hfresh rfl rfl rfl rfl fun task htask => ?_
      rcases List.mem_append.mp htask with hold | hnew
      · exact .inl hold
      · exact .inr (by rw [List.mem_singleton.mp hnew]; rfl)
  | complete id completion =>
      obtain ⟨_, _, _, _, _, _, rfl⟩ := step_complete_eq_some.mp hstep
      exact World.fresh_congr hfresh rfl rfl rfl rfl fun _ htask => .inl htask

theorem World.reachable_fresh {es : List Event} (hrun : World.initial.run es = some w) :
    w.Fresh := by
  have hsound := @Machine.run_invariant _ _ World.step (fun w => w.Inv ∧ w.Fresh)
    (fun _ _ _ hbefore hstep => ⟨(World.step_refines hbefore.1 hstep).1,
      World.step_fresh hbefore.1 hbefore.2 hstep⟩)
    _ _ _ ⟨World.initial_inv, World.initial_fresh⟩ hrun
  exact hsound.2

/-- The body of every change request that a run sends joins the nodes of its
pairs with single commas, and is what the URL request carries. -/
theorem sent_body_eq_join {es : List Event} (hrun : World.initial.run es = some w)
    {task : DataTask} (htask : task ∈ w.requests) (hchange : task.request.pairs?.isSome) :
    let joined := ns "[" ++
      (ns ",").intercalate ((w.contents task).map BKApiRequest.node) ++ ns "]"
    task.request.body w.arrays = some joined ∧
      task.urlRequest.HTTPBody = dataUsingEncoding joined := by
  intro joined
  obtain ⟨_, hled⟩ := World.reachable_sound hrun
  have hdistinct := (World.reachable_fresh hrun).sent task htask
  obtain ⟨array, harray⟩ := Option.isSome_iff_exists.mp hchange
  have hcontents : w.contents task = w.arrays.get array := by
    simp only [World.contents, harray]
  have hloop : task.request.body w.arrays =
      some (BKApiRequest.pairsBody (w.contents task)) := by
    rw [hcontents]
    cases hrequest : task.request <;> rw [hrequest] at harray <;> cases harray <;> rfl
  have hjoin : BKApiRequest.pairsBody (w.contents task) = joined := by
    rw [pairsBody_eq hdistinct, entriesBody, List.map_map]
    rfl
  have hbody : task.request.body w.arrays = some joined := hjoin ▸ hloop
  refine ⟨hbody, ?_⟩
  rw [hled.wire task htask, urlRequestFor, hbody]

end

/-- Equal keys and values in one batch, also as its last pairs. -/
def repeatedPairs : List Event :=
  [.setUserId (some (ns "ann")),
    .prepare .increment Double.one (ns "wins"),
    .prepare .increment Double.one (ns "wins"),
    .flush .increment .active ⟨0, true, true⟩]

omit [NumberFormat] in
theorem sent_body_eq_join_repeated :
    letI := NumberFormat.numerals
    ∃ w task, World.initial.run repeatedPairs = some w ∧ task ∈ w.requests ∧
      let joined := ns "[" ++
        (ns ",").intercalate ((w.contents task).map BKApiRequest.node) ++ ns "]"
      task.request.body w.arrays = some joined ∧
        task.urlRequest.HTTPBody = dataUsingEncoding joined :=
  letI := NumberFormat.numerals
  ⟨_, _, rfl, List.mem_singleton_self _,
    @sent_body_eq_join _ _ repeatedPairs rfl _ (List.mem_singleton_self _) rfl⟩

end BadgeKeeper
