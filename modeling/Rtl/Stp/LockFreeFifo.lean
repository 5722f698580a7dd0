import Mathlib.Data.List.Nodup
import Rtl.Stp.LockFreeOrder

/-! # The lock-free queue is first in, first out

A pop has a ticket from the moment it moves the head until it returns: the place of its
value among the values taken so far. Tickets are never given twice, so that the results of
the pops are the taken values, each at most once.
-/

namespace Rtl.Stp

open Rtl.Base

variable {τ : Type*}

/-! ## Tickets -/

def LfqPc.ticket : LfqPc τ → Option Nat
  | .popReadValue _ _ ticket => some ticket
  | .popDelete _ _ ticket => some ticket
  | _ => none

def LfqOutput.ticket : LfqOutput τ → Option Nat
  | .popped ticket _ => some ticket
  | _ => none

/-- What a step of a thread does to its ticket: it takes a value and gets the next ticket,
or it keeps what it has, or it returns with it. -/
inductive TicketMove (s s' : LfqShared τ) (pc pc' : LfqPc τ) (o : LfqOutput τ) : Prop where
  | takes (v : Option τ) (taken : s'.taken = s.taken ++ [v]) (before : pc.ticket = none)
      (after : pc'.ticket = some s.taken.length) (quiet : o.ticket = none)
  | keeps (taken : s'.taken = s.taken) (same : pc'.ticket = pc.ticket) (quiet : o.ticket = none)
  | gives (curHead ticket : Nat) (data : Option τ) (taken : s'.taken = s.taken)
      (before : pc = .popDelete curHead data ticket) (after : pc'.ticket = none)
      (returns : o = .popped ticket data)

theorem taken_casTail (s : LfqShared τ) (weak : Bool) (a b : Nat) :
    (s.casTail weak a b).taken = s.taken := by
  unfold LfqShared.casTail
  split <;> rfl

theorem ticketMove_of_step {s s' : LfqShared τ} {weak : Bool} {stale : Stale τ} {pc pc' : LfqPc τ}
    {o : LfqOutput τ} (step : s.step weak stale pc = some (s', pc', o)) :
    TicketMove s s' pc pc' o := by
  cases pc with
  | idle => cases step
  | loadTail | loadNext | popLoadHead | popLoadTail =>
      cases step
      exact .keeps rfl rfl rfl
  | helpTail | popHelpTail | casTail =>
      cases step
      exact .keeps (taken_casTail ..) rfl rfl
  | reloadTail n curTail curTailNext =>
      simp only [LfqShared.step] at step
      split at step
      · cases step
        exact .keeps rfl rfl rfl
      · cases curTailNext <;> cases step <;> exact .keeps rfl rfl rfl
  | casNext n curTail =>
      simp only [LfqShared.step] at step
      split at step <;> cases step <;> exact .keeps rfl rfl rfl
  | popLoadNext curHead curTail =>
      cases curHead with
      | none => cases step
      | some h =>
          simp only [LfqShared.step] at step
          split at step
          · split at step <;> cases step <;> exact .keeps rfl rfl rfl
          · cases step
            exact .keeps rfl rfl rfl
  | popCasHead curHead headNext =>
      simp only [LfqShared.step] at step
      split at step
      · cases step
        exact .takes _ rfl rfl rfl rfl
      · cases step
        exact .keeps rfl rfl rfl
  | popReadValue curHead headNext ticket =>
      cases headNext with
      | none => cases step
      | some n =>
          cases step
          exact .keeps rfl rfl rfl
  | popDelete curHead data ticket =>
      cases step
      exact .gives curHead ticket data rfl rfl rfl rfl

/-- The values taken so far stay where they are. -/
theorem TicketMove.taken_at {s s' : LfqShared τ} {pc pc' : LfqPc τ} {o : LfqOutput τ}
    (move : TicketMove s s' pc pc' o) {i : Nat} {v : Option τ} (old : s.taken[i]? = some v) :
    s'.taken[i]? = some v := by
  cases move with
  | takes w taken _ _ _ =>
      rw [taken]
      exact concat_at.mpr (.inl old)
  | keeps taken _ _ | gives _ _ _ taken _ _ _ =>
      rw [taken]
      exact old

/-- A ticket comes into being when its value is taken, and is then with the pop or with
its caller. -/
theorem TicketMove.count {s s' : LfqShared τ} {pc pc' : LfqPc τ} {o : LfqOutput τ}
    (move : TicketMove s s' pc pc' o) (i : Nat) :
    (o.ticket == some i).toNat + (pc'.ticket == some i).toNat + (decide (i < s.taken.length)).toNat =
      (pc.ticket == some i).toNat + (decide (i < s'.taken.length)).toNat := by
  cases move with
  | takes v taken before after quiet =>
      rw [before, after, quiet, taken, List.length_append]
      rcases Nat.lt_trichotomy i s.taken.length with lt | rfl | gt
      · have other : s.taken.length ≠ i := by omega
        have later : i < s.taken.length + 1 := by omega
        simp [lt, later, other]
      · simp
      · have other : s.taken.length ≠ i := by omega
        have out : ¬ i < s.taken.length + 1 := by omega
        have out' : ¬ i < s.taken.length := by omega
        simp [out, out', other]
  | keeps taken same quiet => simp [taken, same, quiet]
  | gives curHead ticket data taken before after returns =>
      rw [taken, before, after, returns]
      simp [LfqPc.ticket, LfqOutput.ticket]

/-! ## Whole runs -/

namespace LockFreeQueue

/-- Every event moves one thread. -/
theorem next_ticketMove {q q' : LockFreeQueue τ} {e : LfqEvent τ} {o : LfqOutput τ}
    (h : q.next e = some (q', o)) :
    ∃ t pc pc', q.threads[t]? = some pc ∧ q'.threads = q.threads.set t pc' ∧
      TicketMove q.shared q'.shared pc pc' o := by
  cases e with
  | push t value a =>
      simp only [next] at h
      split at h
      · next found =>
          split at h
          · cases h
          · next step =>
              cases h
              exact ⟨t, _, _, found, rfl, .keeps (LfqShared.allocate_spec step).2.2.2.2.2.2 rfl rfl⟩
      · cases h
  | pop t =>
      simp only [next] at h
      split at h
      · next found =>
          cases h
          exact ⟨t, _, _, found, rfl, .keeps rfl rfl rfl⟩
      · cases h
  | step t weak stale =>
      simp only [next] at h
      split at h
      · cases h
      · next found =>
          split at h
          · cases h
          · next step =>
              cases h
              exact ⟨t, _, _, found, rfl, ticketMove_of_step step⟩

def tickets (ts : List (Transition (LockFreeQueue τ) (LfqEvent τ) (LfqOutput τ))) : List Nat :=
  ts.filterMap (·.output.ticket)

theorem count_tickets_concat (ts : List (Transition (LockFreeQueue τ) (LfqEvent τ) (LfqOutput τ)))
    (q q' : LockFreeQueue τ) (e : LfqEvent τ) (o : LfqOutput τ) (i : Nat) :
    (tickets (ts ++ [⟨q, e, o, q'⟩])).count i = (tickets ts).count i + (o.ticket == some i).toNat := by
  simp only [tickets, List.filterMap_append, List.count_append, List.filterMap_cons, List.filterMap_nil]
  cases o.ticket with
  | none => simp
  | some j => by_cases same : j = i <;> simp [same]

/-- Each place among the takes has one ticket, with a pop or with its caller, and the
caller has got the value of that place. -/
structure Ledger (ts : List (Transition (LockFreeQueue τ) (LfqEvent τ) (LfqOutput τ)))
    (q : LockFreeQueue τ) : Prop where
  good : ∃ h rest, Good q h rest
  once : ∀ i, (tickets ts).count i + q.threads.countP (·.ticket == some i) =
    (decide (i < q.shared.taken.length)).toNat
  values : ∀ t ∈ ts, ∀ i v, t.output = .popped i v → q.shared.taken[i]? = some v

theorem ledger_start (threads : Nat) : Ledger [] (start threads : LockFreeQueue τ) := by
  refine ⟨⟨0, [], good_start threads⟩, ?_, by simp⟩
  intro i
  have idle : (List.replicate threads (.idle : LfqPc τ)).countP (·.ticket == some i) = 0 := by
    simp [List.countP_replicate, LfqPc.ticket]
  simpa [tickets, start, LfqShared.start] using idle

theorem Ledger.next {ts : List (Transition (LockFreeQueue τ) (LfqEvent τ) (LfqOutput τ))}
    {q q' : LockFreeQueue τ} {e : LfqEvent τ} {o : LfqOutput τ} (ledger : Ledger ts q)
    (guard : q.deletesHeld e = false) (h : q.next e = some (q', o)) :
    Ledger (ts ++ [⟨q, e, o, q'⟩]) q' := by
  obtain ⟨t, pc, pc', found, threads, move⟩ := next_ticketMove h
  refine ⟨good_step ledger.good guard h, ?_, ?_⟩
  · intro i
    have set := countP_set_at (·.ticket == some i) pc' found
    have count := move.count i
    have before := ledger.once i
    rw [count_tickets_concat, threads]
    omega
  · intro u mem i v popped
    rcases List.mem_append.mp mem with old | new
    · exact move.taken_at (ledger.values u old i v popped)
    · obtain rfl := List.mem_singleton.mp new
      obtain ⟨head, rest, good⟩ := ledger.good
      cases move with
      | takes _ _ _ _ quiet | keeps _ _ quiet =>
          simp only at popped
          rw [popped] at quiet
          cases quiet
      | gives curHead ticket data taken before after returns =>
          obtain ⟨rfl, rfl⟩ := LfqOutput.popped.inj (returns.symm.trans popped)
          have seen := good.seen t pc found
          rw [before] at seen
          rw [taken]
          exact seen.2

theorem ledger_of_run {ts : List (Transition (LockFreeQueue τ) (LfqEvent τ) (LfqOutput τ))}
    {n : Nat} {q : LockFreeQueue τ} (run : (lockFreeQueueMachine τ).Run (.start n) ts q)
    (guard : ∀ t ∈ ts, t.before.deletesHeld t.event = false) : Ledger ts q := by
  revert guard
  refine run.history (H := fun ts q => (∀ t ∈ ts, t.before.deletesHeld t.event = false) → Ledger ts q)
    (fun _ => ledger_start n) ?_
  intro ts q e q' o ledger h guard
  have before := ledger fun t mem => guard t (List.mem_append_left _ mem)
  exact before.next (guard ⟨q, e, o, q'⟩ (by simp)) h

/-- As long as no pop deletes a node whose address another call in progress still holds, no
call follows a pointer to a deleted node, and the queue is first in, first out: the values
taken and the values from the head's successor on are the values linked, in that order,
and the pops return the values taken, each at most once. -/
theorem lock_free_fifo {ts : List (Transition (LockFreeQueue τ) (LfqEvent τ) (LfqOutput τ))}
    {n : Nat} {q : LockFreeQueue τ} (run : (lockFreeQueueMachine τ).Run (.start n) ts q)
    (guard : ∀ t ∈ ts, t.before.deletesHeld t.event = false) :
    q.Safe ∧ q.Fifo ∧ (tickets ts).Nodup ∧
      ∀ t ∈ ts, ∀ i v, t.output = .popped i v → q.shared.taken[i]? = some v := by
  have ledger := ledger_of_run run guard
  obtain ⟨h, rest, good⟩ := ledger.good
  refine ⟨safe_of_good good, fifo_of_good good, ?_, ledger.values⟩
  refine List.nodup_iff_count_le_one.mpr fun i => ?_
  have once := ledger.once i
  have le := Bool.toNat_le (decide (i < q.shared.taken.length))
  omega

def stepsOf (t n : Nat) : List (LfqEvent Nat) := List.replicate n (.step t false ⟨none, none⟩)

def wholePush (t v address : Nat) : List (LfqEvent Nat) := .push t v address :: stepsOf t 5

def wholePop (t : Nat) : List (LfqEvent Nat) := .pop t :: stepsOf t 6

theorem lock_free_fifo_pushPop : ∃ ts q,
    (lockFreeQueueMachine Nat).exec (.start 2) [wholePush 0 7 1, wholePop 1].flatten = some (ts, q) ∧
      q.Safe ∧ q.Fifo ∧ (tickets ts).Nodup ∧
      ∀ t ∈ ts, ∀ i v, t.output = .popped i v → q.shared.taken[i]? = some v := by
  have h : (lockFreeQueueMachine Nat).exec (.start 2) [wholePush 0 7 1, wholePop 1].flatten =
      some (_, _) := rfl
  exact ⟨_, _, h, lock_free_fifo (.of_exec h) (by decide +kernel)⟩

/-- Thread 0 has read the head 0 and its successor 1 when thread 1 takes both nodes and
pushes again at their addresses: the head is 0 once more, but its successor is node 2. -/
def reuseEvents : List (LfqEvent Nat) :=
  [wholePush 1 10 1, .pop 0 :: stepsOf 0 3, wholePop 1, wholePush 1 20 0, wholePop 1,
    wholePush 1 30 2, wholePush 1 40 1, stepsOf 0 3].flatten

/-- The pop of thread 0 then takes 40, and 30 is lost. -/
theorem lock_free_value_skipped :
    ∃ ts q, (lockFreeQueueMachine Nat).exec (.start 2) reuseEvents = some (ts, q) ∧
    q.threads = [.idle, .idle] ∧ q.shared.linked = [some 10, some 20, some 30, some 40] ∧
    ts.filterMap (fun t => match t.output with | .popped _ v => some v | _ => none) =
      [some 10, some 20, some 40] ∧
    q.shared.head.bind q.shared.nextOf = none ∧ ¬ q.Fifo := by
  refine ⟨_, _, rfl, by decide +kernel, by decide +kernel, by decide +kernel, by decide +kernel, ?_⟩
  rintro ⟨nodes, chain, values⟩
  cases chain with
  | nil => exact absurd values (by decide +kernel)

end LockFreeQueue

end Rtl.Stp
