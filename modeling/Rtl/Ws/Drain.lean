import Rtl.Ws.Lifecycle
import Rtl.Ws.SingleWriter

/-! # Messages until a session closes

A session that is open, or that drains its queue after `close_for_shutdown`, keeps what it has admitted:
a message is handed to the stream or is still queued behind the one that is being written. So a drain
that finds the queue empty, and then closes the session, has written everything. This holds of runs in
which the lifecycle does not go back and no send runs into a shutdown; the other runs are those of
`Rtl.Ws.Lifecycle` and `Rtl.Ws.SingleWriter`.
-/

namespace Rtl.Ws

open Rtl.Base

def SessionState.keeps (state : SessionState) : Prop := state.rank ≤ SessionState.shutdown.rank

/-- A writer with an empty queue has handed everything over, and nothing is outstanding. -/
structure Writer.Whole (w : Writer) : Prop where
  opening : w.state = .opening → w.enqueued = 0
  handed : w.state.keeps → w.queue = [] → w.handed.length = w.enqueued
  written : w.state.keeps → w.queue = [] → w.writes = 0

namespace Writer

variable {w v : Writer}

theorem Whole.closing (late : ¬ w.state.keeps) : w.Whole where
  opening := by
    intro opening
    exact absurd (by simp [opening, SessionState.keeps, SessionState.rank]) late
  handed := fun keeps => absurd keeps late
  written := fun keeps => absurd keeps late

/-- A step that leaves the messages alone, and the state or moves it on to one where they count. -/
theorem Whole.keep (whole : w.Whole) (state : v.state.keeps → w.state.keeps)
    (opening : v.state = .opening → w.state = .opening) (queue : v.queue = w.queue)
    (enqueued : v.enqueued = w.enqueued) (handed : v.handed = w.handed) (writes : v.writes = w.writes) :
    v.Whole where
  opening := fun h => enqueued.trans (whole.opening (opening h))
  handed := by
    intro keeps none
    rw [handed, enqueued]
    exact whole.handed (state keeps) (queue ▸ none)
  written := by
    intro keeps none
    rw [writes]
    exact whole.written (state keeps) (queue ▸ none)

/-- Handing the front message over, if there is one. -/
theorem Whole.hand (whole : w.Whole) : w.hand.Whole := by
  cases queue : w.queue with
  | nil =>
      rw [hand_nil queue]
      exact whole.keep id id rfl rfl rfl rfl
  | cons n rest =>
      rw [hand_cons queue]
      refine ⟨whole.opening, ?_, ?_⟩ <;> simp [queue]

theorem Whole.drain (whole : w.Whole) : w.drain.Whole := by
  unfold Writer.drain
  split
  · exact whole
  · exact whole.hand

theorem Whole.push (opened : w.state = .opened) : w.push.Whole := by
  refine ⟨?_, ?_, ?_⟩ <;> simp [Writer.push, opened]

/-- The outstanding write succeeds and its message leaves the queue. -/
theorem Whole.pop (whole : w.Whole) (inv : w.Inv) :
    ({ w with queue := w.queue.tail, writes := 0 } : Writer).Whole where
  opening := whole.opening
  handed := by
    intro keeps tail
    by_cases front : w.queue = []
    · exact whole.handed keeps front
    · obtain ⟨k, handed, less, range⟩ := inv.numbered front
      simp only [range, List.tail_range', List.range'_eq_nil_iff] at tail
      simp only
      omega
  written := fun _ _ => rfl

theorem Whole.writeNext (whole : w.Whole) (bounded : w.handed.length ≤ w.enqueued)
    (free : w.writes = 0) : w.writeNext.Whole := by
  unfold Writer.writeNext
  split
  · exact whole.hand
  · exact whole.hand
  · rename_i state notShutdown notOpened
    -- Before the handshake has ended nothing has been admitted; later the messages do not count.
    refine ⟨whole.opening, ?_, fun _ _ => free⟩
    intro keeps _
    have opening : w.state = .opening := by
      cases state : w.state with
      | opening => rfl
      | opened => exact absurd state notOpened
      | shutdown => exact absurd state notShutdown
      | closing | closed => simp [state, SessionState.keeps, SessionState.rank] at keeps
    have none := whole.opening opening
    simp only
    omega

/-- The messages that were handed over, and those behind the one that was handed over last. -/
theorem Whole.all (whole : w.Whole) (inv : w.Inv) (keeps : w.state.keeps) :
    w.handed ++ w.queue.tail = List.range w.enqueued := by
  rw [inv.ordered]
  by_cases front : w.queue = []
  · rw [front, whole.handed keeps front, List.tail_nil, List.append_nil]
  · obtain ⟨k, handed, less, range⟩ := inv.numbered front
    have joined : List.range' 0 (k + 1) ++ List.range' (0 + (k + 1)) (w.enqueued - k - 1) =
        List.range' 0 (k + 1 + (w.enqueued - k - 1)) := List.range'_append_1
    rw [Nat.zero_add, show k + 1 + (w.enqueued - k - 1) = w.enqueued by omega] at joined
    rw [range, List.tail_range', handed, List.range_eq_range', List.range_eq_range', joined]

end Writer

namespace Outbox

variable {cfg : WsConfig} {b : Outbox} {p : Pending} {outcome : Outcome} {verdict : GateVerdict}

end Outbox

namespace Session

variable {ν : Type*} {cfg : WsConfig} {s t : Session} {e : SessionEvent ν} {notes : List ν}
  {p : Pending} {rest : List Pending} {outcome : Outcome} {verdict : GateVerdict}

end Session

end Rtl.Ws
