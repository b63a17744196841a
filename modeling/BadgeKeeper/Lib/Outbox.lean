import Mathlib.Tactic

/-!
A keyed outbox. Items are put into a channel and wait there; a flush of a
channel sends everything that waits in it as one batch, and sends nothing when
nothing waits. The conservation law says that for each channel the batches
sent so far, followed by what still waits, are exactly what was put there, in
order.
-/

namespace Outbox

variable {K α : Type*}

structure State (K α : Type*) where
  pending : K → List α
  sent : List (K × List α)

inductive Op (K α : Type*) where
  | put (channel : K) (item : α)
  | flush (channel : K)

/-- The items of one channel's batches, in sending order. -/
def sentTo [DecidableEq K] (channel : K) (sent : List (K × List α)) : List α :=
  (sent.filter fun batch => batch.1 = channel).flatMap Prod.snd

section

variable [DecidableEq K]

def step (s : State K α) : Op K α → State K α
  | .put channel item =>
      { s with
        pending := Function.update s.pending channel (s.pending channel ++ [item]) }
  | .flush channel =>
      if s.pending channel = [] then s
      else
        { pending := Function.update s.pending channel []
          sent := s.sent ++ [(channel, s.pending channel)] }

/-- What one operation adds to a channel. -/
def Op.puts (channel : K) : Op K α → List α
  | .put target item => if target = channel then [item] else []
  | .flush _ => []

@[simp] theorem sentTo_nil (channel : K) :
    sentTo channel ([] : List (K × List α)) = [] := rfl

@[simp] theorem sentTo_append (channel : K) (first second : List (K × List α)) :
    sentTo channel (first ++ second) =
      sentTo channel first ++ sentTo channel second := by
  simp [sentTo]

theorem sentTo_singleton (channel : K) (batch : K × List α) :
    sentTo channel [batch] = if batch.1 = channel then batch.2 else [] := by
  by_cases h : batch.1 = channel <;> simp [sentTo, h]

/-- Everything a channel has taken in: sent first, then waiting. -/
def taken (s : State K α) (channel : K) : List α :=
  sentTo channel s.sent ++ s.pending channel

theorem step_taken (s : State K α) (op : Op K α) (channel : K) :
    taken (step s op) channel = taken s channel ++ op.puts channel := by
  cases op with
  | put target item =>
      by_cases h : target = channel
      · subst target
        simp [taken, step, Op.puts]
      · have hne : channel ≠ target := fun heq => h heq.symm
        simp [taken, step, Op.puts, h, Function.update_of_ne hne]
  | flush target =>
      by_cases hempty : s.pending target = []
      · simp [taken, step, Op.puts, hempty]
      · by_cases h : target = channel
        · subst target
          simp [taken, step, Op.puts, hempty, sentTo_singleton]
        · have hne : channel ≠ target := fun heq => h heq.symm
          simp [taken, step, Op.puts, hempty, h, sentTo_singleton,
            Function.update_of_ne hne]

/-- Conservation over any sequence of operations. -/
theorem run_taken (s : State K α) (ops : List (Op K α)) (channel : K) :
    taken (ops.foldl step s) channel =
      taken s channel ++ ops.flatMap (Op.puts channel) := by
  induction ops generalizing s with
  | nil => simp
  | cons op rest ih =>
      simp only [List.foldl_cons, List.flatMap_cons]
      rw [ih, step_taken, List.append_assoc]

/-- What waits in a channel while nothing flushes it. -/
theorem step_pending (s : State K α) {op : Op K α} {channel : K} (h : op ≠ .flush channel) :
    (step s op).pending channel = s.pending channel ++ op.puts channel := by
  cases op with
  | put target item =>
      by_cases hsame : target = channel
      · subst target
        simp [step, Op.puts]
      · have hne : channel ≠ target := fun heq => hsame heq.symm
        simp [step, Op.puts, hsame, Function.update_of_ne hne]
  | flush target =>
      have hne : channel ≠ target := by
        rintro rfl
        exact h rfl
      by_cases hempty : s.pending target = []
      · simp [step, Op.puts, hempty]
      · simp [step, Op.puts, hempty, Function.update_of_ne hne]

theorem run_pending (s : State K α) {ops : List (Op K α)} {channel : K}
    (h : ∀ op ∈ ops, op ≠ .flush channel) :
    (ops.foldl step s).pending channel = s.pending channel ++ ops.flatMap (Op.puts channel) := by
  induction ops generalizing s with
  | nil => simp
  | cons op rest ih =>
      obtain ⟨hop, hrest⟩ := List.forall_mem_cons.mp h
      rw [List.foldl_cons, List.flatMap_cons, ih (step s op) hrest, step_pending s hop,
        List.append_assoc]

/-- A put into an outbox where nothing waits, flushed at once. -/
theorem put_flush (s : State K α) (hidle : s.pending = fun _ => []) (channel : K) (item : α) :
    step (step s (.put channel item)) (.flush channel) =
      { s with sent := s.sent ++ [(channel, [item])] } := by
  simp [step, hidle]

/-- No flush ever sends an empty batch. -/
theorem step_sent_nonempty (s : State K α) (op : Op K α)
    (hsent : ∀ batch ∈ s.sent, batch.2 ≠ []) :
    ∀ batch ∈ (step s op).sent, batch.2 ≠ [] := by
  cases op with
  | put target item => exact hsent
  | flush target =>
      by_cases hempty : s.pending target = []
      · simpa [step, hempty] using hsent
      · intro batch hbatch
        simp only [step, hempty, if_false, List.mem_append,
          List.mem_singleton] at hbatch
        rcases hbatch with hold | rfl
        · exact hsent batch hold
        · exact hempty

end

end Outbox
