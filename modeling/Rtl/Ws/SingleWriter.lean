import Rtl.Ws.Outbox

/-! # One writer at a time

`m_writing` is to say that a write is outstanding. The writer of a session is what
remains of it when everything but the write queue is forgotten: the handlers of
the session act on it as a few operations, whose invariant says that the front
message has been handed over and the rest has not. The invariant survives every
handler but one: a send that runs after the shutdown began, with messages still
queued, clears `m_writing` and hands the front message over again.
-/

namespace Rtl.Ws

open Rtl.Base

/-! ## The writer -/

/-- Messages are known by their numbers, the enqueued ones are `0 … enqueued - 1`. -/
structure Writer where
  state : SessionState
  writing : Bool
  queue : List Nat
  enqueued : Nat
  handed : List Nat
  writes : Nat
  handshakes : Nat

namespace Writer

def hand (w : Writer) : Writer :=
  match w.queue with
  | [] => { w with writing := false }
  | n :: _ => { w with writing := true, handed := w.handed ++ [n], writes := w.writes + 1 }

def drain (w : Writer) : Writer := if w.writing then w else w.hand

def writeNext (w : Writer) : Writer :=
  match w.state with
  | .shutdown => w.hand
  | .opened => w.hand
  | _ => { w with queue := [], writing := false }

def push (w : Writer) : Writer :=
  { w with queue := w.queue ++ [w.enqueued], enqueued := w.enqueued + 1 }

structure Fresh (w : Writer) : Prop where
  writing : w.writing = false
  queue : w.queue = []
  enqueued : w.enqueued = 0
  handed : w.handed = []
  writes : w.writes = 0

/-- The front message, if there is one, is the last one handed over. -/
structure Inv (w : Writer) : Prop where
  single : w.writes ≤ 1
  busy : w.writing = false → w.queue = []
  numbered : w.queue ≠ [] → ∃ k, w.handed.length = k + 1 ∧ k < w.enqueued ∧
    w.queue = List.range' k (w.enqueued - k)
  ordered : w.handed = List.range w.handed.length
  bounded : w.handed.length ≤ w.enqueued
  opened : w.state = .opened → w.handshakes = 0 ∧
    (w.queue = [] → w.handed.length = w.enqueued ∧ w.writing = false ∧ w.writes = 0)
  handshake : 0 < w.handshakes → w.handshakes = 1 ∧ w.Fresh

/-- No write is outstanding and the front message has not been handed over. -/
structure Ready (w : Writer) : Prop where
  free : w.writes = 0
  numbered : w.queue ≠ [] → w.handed.length < w.enqueued ∧
    w.queue = List.range' w.handed.length (w.enqueued - w.handed.length)
  ordered : w.handed = List.range w.handed.length
  bounded : w.handed.length ≤ w.enqueued
  opened : w.state = .opened → w.queue = [] → w.handed.length = w.enqueued
  handshakes : w.handshakes = 0

variable {w : Writer}

theorem hand_nil (none : w.queue = []) : w.hand = { w with writing := false } := by
  simp [hand, none]

theorem hand_cons {n : Nat} {rest : List Nat} (some : w.queue = n :: rest) :
    w.hand = { w with writing := true, handed := w.handed ++ [n], writes := w.writes + 1 } := by
  simp [hand, some]

theorem Ready.hand (ready : w.Ready) : w.hand.Inv := by
  obtain ⟨free, numbered, ordered, bounded, opened, handshakes⟩ := ready
  cases queue : w.queue with
  | nil =>
      rw [hand_nil queue]
      exact ⟨by simp [free], fun _ => queue, fun some => absurd queue some, ordered, bounded,
        fun h => ⟨handshakes, fun _ => ⟨opened h queue, rfl, free⟩⟩,
        fun pos => by simp only at pos; omega⟩
  | cons n rest =>
      obtain ⟨less, range⟩ := numbered (by simp [queue])
      have first : n = w.handed.length := by
        obtain ⟨more, count⟩ : ∃ more, w.enqueued - w.handed.length = more + 1 :=
          ⟨w.enqueued - w.handed.length - 1, by omega⟩
        rw [queue, count, List.range'_succ] at range
        exact (List.cons.inj range).1
      rw [hand_cons queue]
      refine ⟨by simp [free], by simp, fun _ => ⟨w.handed.length, by simp, less, range⟩, ?_, ?_, ?_, ?_⟩
      · simp only [List.length_append, List.length_singleton, List.range_succ, ← ordered, first]
      · simp only [List.length_append, List.length_singleton]
        omega
      · intro h
        exact ⟨handshakes, fun none => by simp [queue] at none⟩
      · intro pos
        simp only at pos
        omega

/-- Outside `open` only the queue matters. -/
theorem Inv.leave (inv : w.Inv) {state : SessionState} (left : state ≠ .opened) :
    ({ w with state := state } : Writer).Inv :=
  { inv with
    opened := fun h => absurd h left
    handshake := fun pos => ⟨(inv.handshake pos).1, { (inv.handshake pos).2 with }⟩ }

theorem Inv.clear (inv : w.Inv) (left : w.state ≠ .opened) :
    ({ w with queue := [], writing := false } : Writer).Inv :=
  { inv with
    busy := fun _ => rfl
    numbered := fun some => absurd rfl some
    opened := fun h => absurd h left
    handshake := fun pos =>
      ⟨(inv.handshake pos).1, { (inv.handshake pos).2 with writing := rfl, queue := rfl }⟩ }

/-- Between handlers there is nothing to drain: an idle writer has no messages. -/
theorem Inv.drain (inv : w.Inv) : w.drain = w := by
  unfold Writer.drain
  by_cases writing : w.writing = true
  · rw [if_pos writing]
  · have idle : w.writing = false := by simpa using writing
    rw [if_neg writing, hand_nil (inv.busy idle), ← idle]

/-- A send in `open`. -/
theorem Inv.enqueue (inv : w.Inv) (opened : w.state = .opened) :
    (if w.writing then w.push else w.push.writeNext).Inv := by
  obtain ⟨handshakes, drained⟩ := inv.opened opened
  by_cases writing : w.writing = true
  · rw [if_pos writing]
    have some : w.queue ≠ [] := by
      intro none
      rw [(drained none).2.1] at writing
      cases writing
    obtain ⟨k, handed, less, range⟩ := inv.numbered some
    refine ⟨inv.single, ?_, ?_, inv.ordered, ?_, ?_, ?_⟩
    · intro idle
      simp only [push] at idle
      rw [idle] at writing
      cases writing
    · intro _
      refine ⟨k, handed, Nat.lt_succ_of_lt less, ?_⟩
      simp only [push]
      rw [range, show w.enqueued + 1 - k = (w.enqueued - k) + 1 by omega, List.range'_concat]
      simp
      omega
    · exact Nat.le_succ_of_le inv.bounded
    · intro _
      exact ⟨handshakes, fun none => by simp [push] at none⟩
    · intro pos
      simp only [push] at pos
      omega
  · have idle : w.writing = false := by simpa using writing
    have none := inv.busy idle
    obtain ⟨all, _, free⟩ := drained none
    rw [if_neg writing, writeNext]
    simp only [push, opened]
    refine Ready.hand ⟨free, ?_, inv.ordered, Nat.le_succ_of_le inv.bounded, ?_, handshakes⟩
    · intro _
      simp only [none, List.nil_append, all]
      refine ⟨by omega, ?_⟩
      rw [show w.enqueued + 1 - w.enqueued = 1 by omega]
      rfl
    · intro _ some
      simp at some

/-- The writer after its outstanding write has succeeded and the front message, if
it is still there, has been popped. -/
theorem Inv.written (inv : w.Inv) (outstanding : w.writes = 1) :
    ({ w with queue := w.queue.tail, writes := 0 } : Writer).Ready := by
  have handshakes : w.handshakes = 0 := by
    by_contra pos
    have free := (inv.handshake (by omega)).2.writes
    omega
  refine ⟨rfl, ?_, inv.ordered, inv.bounded, ?_, handshakes⟩
  · intro some
    have front : w.queue ≠ [] := by
      intro none
      simp [none] at some
    obtain ⟨k, handed, less, range⟩ := inv.numbered front
    simp only [range, handed, List.tail_range'] at some ⊢
    have more : w.enqueued - k - 1 ≠ 0 := by
      intro zero
      rw [zero] at some
      exact some rfl
    exact ⟨by omega, by rw [show w.enqueued - (k + 1) = w.enqueued - k - 1 by omega]⟩
  · intro opened tail
    simp only at opened tail ⊢
    by_cases front : w.queue = []
    · exact ((inv.opened opened).2 front).1
    · obtain ⟨k, handed, less, range⟩ := inv.numbered front
      rw [range, List.tail_range', List.range'_eq_nil_iff] at tail
      omega

theorem Ready.writeNext (ready : w.Ready) : w.writeNext.Inv := by
  have handed := ready.hand
  unfold Writer.writeNext
  split
  · exact handed
  · exact handed
  · rename_i _ notShutdown notOpened
    exact ⟨by simp [ready.free], fun _ => rfl, fun some => absurd rfl some, ready.ordered,
      ready.bounded, fun h => absurd h notOpened,
      fun pos => absurd pos (by simp [ready.handshakes])⟩

theorem Inv.unwritten (inv : w.Inv) : ({ w with writes := 0 } : Writer).Inv :=
  { inv with
    single := Nat.zero_le 1
    opened := fun h => ⟨(inv.opened h).1, fun none =>
      ⟨((inv.opened h).2 none).1, ((inv.opened h).2 none).2.1, rfl⟩⟩
    handshake := fun pos => ⟨(inv.handshake pos).1, { (inv.handshake pos).2 with writes := rfl }⟩ }

theorem Fresh.inv (fresh : w.Fresh) (one : w.handshakes ≤ 1)
    (before : w.state = .opened → w.handshakes = 0) : w.Inv := by
  refine ⟨by simp [fresh.writes], fun _ => fresh.queue, fun some => absurd fresh.queue some, ?_, ?_,
    ?_, ?_⟩
  · simp [fresh.handed]
  · simp [fresh.handed]
  · intro h
    refine ⟨before h, fun _ => ⟨?_, fresh.writing, fresh.writes⟩⟩
    simp [fresh.handed, fresh.enqueued]
  · intro pos
    exact ⟨by omega, fresh⟩

end Writer

/-! ## The outbox as a writer -/

namespace Outbox

variable {cfg : WsConfig} {b : Outbox} {p : Pending} {outcome : Outcome} {verdict : GateVerdict}

def writer (b : Outbox) : Writer where
  state := b.state
  writing := b.writing
  queue := b.queue.map (·.number)
  enqueued := b.nextMessage
  handed := b.handed.map (·.number)
  writes := b.inFlight.length
  handshakes := b.handshakes

theorem writer_hand (b : Outbox) : b.hand.writer = b.writer.hand := by
  unfold hand Writer.hand
  cases queue : b.queue <;> simp [writer, queue]

theorem writer_drain (b : Outbox) : b.drain.writer = b.writer.drain := by
  unfold drain Writer.drain
  by_cases writing : b.writing = true
  · rw [if_pos writing, if_pos (show b.writer.writing = true from writing)]
  · rw [if_neg writing, if_neg (show ¬ b.writer.writing = true from writing), writer_hand]

theorem writer_writeNext (b : Outbox) : b.writeNext.writer = b.writer.writeNext := by
  unfold writeNext Writer.writeNext
  cases state : b.state <;> simp [writer_hand, show b.writer.state = b.state from rfl, state]
  all_goals simp [writer, state]

theorem writer_pop (b : Outbox) (bytes : Nat) :
    (b.pop bytes).writer = { b.writer with queue := b.writer.queue.tail } := by
  unfold pop
  cases queue : b.queue <;> simp [writer, queue]

theorem writer_push (b : Outbox) (isBinary : Bool) (data : List UInt8) :
    (b.push isBinary data).writer = b.writer.push := by
  simp [push, writer, Writer.push]

theorem clear_inv (inv : b.writer.Inv) {state : SessionState} (left : state ≠ .opened) :
    ({ b.clear with state := state } : Outbox).writer.Inv :=
  (inv.leave left).clear left

theorem fail_inv (inv : b.writer.Inv) : b.fail.writer.Inv := by
  unfold fail
  split
  · exact inv.leave (by simp)
  · exact clear_inv inv (by simp)

theorem enqueue_inv {isBinary : Bool} {data : List UInt8} (inv : b.writer.Inv)
    (safe : b.state = .shutdown → b.queue = []) : (b.enqueue cfg isBinary data).writer.Inv := by
  unfold enqueue
  split
  · -- nothing is queued, so the send only clears `m_writing`
    rename_i shut
    have none : b.writer.queue = [] := by simp [writer, safe shut]
    have cleared := inv.clear (by simp [writer, shut])
    rw [writer_hand, Writer.hand_nil none]
    rw [← none] at cleared
    exact cleared
  · rename_i opened
    split
    · have enqueued := inv.enqueue (show b.writer.state = .opened from opened)
      have next : b.writer.push.writeNext = b.writer.push.hand := by
        simp [Writer.writeNext, Writer.push, writer, opened]
      rw [next, show b.writer.writing = b.writing from rfl] at enqueued
      unfold admitted
      split
      · rename_i busy
        rw [if_pos busy] at enqueued
        rw [writer_push]
        exact enqueued
      · rename_i idle
        rw [if_neg idle] at enqueued
        rw [writer_hand, writer_push]
        exact enqueued
    · exact inv
  · exact inv

/-- A handler that is neither a write completion nor part of the handshake. -/
theorem handle_inv_plain (inv : b.writer.Inv) (write : p.message = none)
    (handshake : p.isHandshake = false)
    (safe : ∀ isBinary data, p = .enqueue isBinary data → b.state = .shutdown → b.queue = []) :
    (b.handle cfg verdict outcome p).writer.Inv := by
  cases p with
  | rejectWrite status message => exact inv.leave (show SessionState.closed ≠ .opened by simp)
  | wsRead =>
      simp only [handle]
      split
      · exact inv
      · exact fail_inv inv
  | wsClose =>
      simp only [handle]
      split
      · exact inv
      · exact inv.leave (show SessionState.closed ≠ .opened by simp)
  | enqueue isBinary data => exact enqueue_inv inv (safe isBinary data rfl)
  | close =>
      simp only [handle]
      split
      · exact inv
      · exact clear_inv inv (by simp)
  | closeForShutdown =>
      have left := inv.leave (show SessionState.shutdown ≠ .opened by simp)
      simp only [handle]
      rw [writer_drain]
      exact left.drain.symm ▸ left
  | closeForcefully =>
      simp only [handle]
      split
      · exact inv
      · exact inv.leave (show SessionState.closing ≠ .opened by simp)
  | idleWait | heartbeatWait | drainWait | ping => exact inv
  | write m | drain m => cases write
  | httpRead | wsAccept => cases handshake

/-- A handler of the handshake; nothing has been written before it. -/
theorem handle_inv_handshake (fresh : b.writer.Fresh) (none : b.handshakes = 0)
    (before : b.state ≠ .opened) (handshake : p.isHandshake = true) :
    (b.handle cfg verdict outcome p).writer.Inv := by
  have inv : b.writer.Inv := fresh.inv (by simp [writer, none]) fun _ => none
  cases p with
  | httpRead =>
      simp only [handle]
      split
      · split
        · refine Writer.Fresh.inv { fresh with } ?_ fun opened => absurd opened before
          simp [writer, none]
        · exact inv.leave (show SessionState.closing ≠ .opened by simp)
        · exact inv
      · exact inv.leave (show SessionState.closed ≠ .opened by simp)
  | wsAccept =>
      simp only [handle]
      split
      · refine Writer.Fresh.inv { fresh with } ?_ fun _ => none
        simp [writer, none]
      · exact inv.leave (show SessionState.closed ≠ .opened by simp)
  | _ => cases handshake

/-- A write completion. -/
theorem handle_inv_write (free : b.writer.Inv)
    (ready : ({ b.writer with queue := b.writer.queue.tail } : Writer).Ready) {m : WriteMessage}
    (write : p.message = some m) : (b.handle cfg verdict outcome p).writer.Inv := by
  cases p with
  | write n =>
      simp only [handle]
      split
      · rw [writer_writeNext, writer_pop]
        exact ready.writeNext
      · exact fail_inv free
  | drain n =>
      simp only [handle]
      split
      · have idle : ({ b.pop n.data.length with writing := false } : Outbox).writer =
            { (b.pop n.data.length).writer with writing := false } := rfl
        rw [writer_drain, idle, writer_pop]
        exact Writer.Ready.hand { ready with }
      · exact free
  | _ => cases write

end Outbox

/-! ## The session as a writer -/

namespace Session

variable {cfg : WsConfig} {s : Session} {outcome : Outcome} {verdict : GateVerdict} {p : Pending}
  {rest : List Pending}

def writer (s : Session) : Writer where
  state := s.curState
  writing := s.writing
  queue := s.writeQueue.map (·.number)
  enqueued := s.nextMessage
  handed := s.handed.map (·.number)
  writes := s.pending.countP Pending.isWrite
  handshakes := s.pending.countP Pending.isHandshake

theorem length_filterMap_message (pending : List Pending) :
    (pending.filterMap Pending.message).length = pending.countP Pending.isWrite := by
  rw [List.length_filterMap_eq_countP]
  congr
  funext p
  cases p <;> rfl

theorem writer_eq (s : Session) : s.writer = s.outbox.writer := by
  simp [writer, Outbox.writer, outbox, length_filterMap_message]

theorem handle_inv (inv : s.outbox.writer.Inv) (picked : s.pending.Perm (p :: rest))
    (safe : ∀ isBinary data, p = .enqueue isBinary data → s.curState = .shutdown → s.writeQueue = []) :
    (({ s with pending := rest } : Session).outbox.handle cfg verdict outcome p).writer.Inv := by
  obtain ⟨inFlight, handshakes, writes, shakes, taken⟩ := outbox_taken picked
  have count := writes.length_eq
  rw [List.length_append] at count
  rw [taken]
  cases write : p.message with
  | some m =>
      have plain : p.isHandshake = false := by cases p <;> first | rfl | cases write
      have single : s.outbox.inFlight.length ≤ 1 := inv.single
      rw [write] at count
      rw [plain] at shakes
      have none : inFlight.length = 0 := by
        simp only [Option.toList_some, List.length_singleton] at count
        omega
      have after : ({ s.outbox with inFlight := inFlight, handshakes := handshakes } : Outbox).writer =
          { s.outbox.writer with writes := 0 } := by
        simp [Outbox.writer, none, shakes]
      apply Outbox.handle_inv_write _ _ write
      · rw [after]
        exact inv.unwritten
      · rw [after]
        apply inv.written
        simp only [Option.toList_some, List.length_singleton] at count
        simp only [Outbox.writer]
        omega
  | none =>
      have same : inFlight.length = s.outbox.inFlight.length := by simpa [write] using count.symm
      cases handshake : p.isHandshake with
      | true =>
          rw [handshake] at shakes
          obtain ⟨one, fresh⟩ := inv.handshake (by simp only [Outbox.writer, shakes, Bool.toNat_true]; omega)
          have last : handshakes = 0 := by
            simp only [Outbox.writer, shakes, Bool.toNat_true] at one
            omega
          apply Outbox.handle_inv_handshake _ last _ handshake
          · exact { fresh with writes := by simpa [Outbox.writer, same] using fresh.writes }
          · intro opened
            have zero := (inv.opened opened).1
            rw [one] at zero
            cases zero
      | false =>
          apply Outbox.handle_inv_plain _ write handshake safe
          have after : ({ s.outbox with inFlight := inFlight, handshakes := handshakes } : Outbox).writer =
              s.outbox.writer := by
            simp [Outbox.writer, same, shakes, handshake]
          rw [after]
          exact inv

end Session

/-! ## The discipline in every run -/

namespace Session

variable {ν : Type*} {cfg : WsConfig} {s t : Session} {e : SessionEvent ν} {notes : List ν}

/-- At most one write is outstanding, and the messages handed over are the first
enqueued ones, in order and each once. -/
def SingleWriter (s : Session) : Prop :=
  s.pending.countP Pending.isWrite ≤ 1 ∧ s.handed.map (·.number) <+: List.range s.nextMessage

/-- A send posted before the shutdown runs after it, with messages still queued. -/
def SendsIntoShutdown (s : Session) : SessionEvent ν → Prop
  | .complete k _ _ _ =>
      (∃ isBinary data, s.pending[k]? = some (.enqueue isBinary data)) ∧
      s.curState = .shutdown ∧ s.writeQueue ≠ []
  | _ => False

theorem next_writer_inv (inv : s.writer.Inv) (safe : ¬ s.SendsIntoShutdown e)
    (h : s.next cfg e = some (t, notes)) : t.writer.Inv := by
  rw [writer_eq] at inv ⊢
  rcases outbox_next h with ⟨same, _⟩ | ⟨k, outcome, input, router, p, rest, rfl, picked, after⟩
  · rw [same]
    exact inv
  · rw [after]
    apply handle_inv inv (pickAt_perm picked)
    intro isBinary data isSend shut
    by_contra queued
    exact safe ⟨⟨isBinary, data, by rw [pickAt_at picked, isSend]⟩, shut, queued⟩

theorem singleWriter_of_inv (inv : s.writer.Inv) : s.SingleWriter := by
  refine ⟨inv.single, ?_⟩
  have ordered := inv.ordered
  have bounded := inv.bounded
  simp only [writer] at ordered bounded
  have first := List.take_prefix s.handed.length (List.range s.nextMessage)
  rw [List.take_range, Nat.min_eq_left (by simpa using bounded)] at first
  rw [ordered]
  simpa using first

/-- The send hands the front message over a second time. -/
theorem not_singleWriter_of_send (inv : s.writer.Inv) (sends : s.SendsIntoShutdown e)
    (h : s.next cfg e = some (t, notes)) : ¬ t.SingleWriter := by
  cases e with
  | call c => exact sends.elim
  | pong => exact sends.elim
  | complete k outcome input router =>
      obtain ⟨⟨isBinary, data, send⟩, shut, queued⟩ := sends
      cases picked : pickAt s.pending k with
      | none => simp [next, picked] at h
      | some r =>
          obtain ⟨p, rest⟩ := r
          cases (pickAt_at picked).symm.trans send
          have after : t.writer = ({ s with pending := rest } : Session).writer.hand := by
            rw [writer_eq, writer_eq, ← Outbox.writer_hand, outbox_complete picked h]
            simp [Outbox.handle, Outbox.enqueue, outbox, shut]
          have some : s.writer.queue ≠ [] := by simpa [writer] using queued
          obtain ⟨n, handed, less, range⟩ := inv.numbered some
          have front : s.writer.queue = n :: List.range' (n + 1) (s.writer.enqueued - n - 1) := by
            rw [range, show s.writer.enqueued - n = (s.writer.enqueued - n - 1) + 1 by omega,
              List.range'_succ]
            simp
          rw [Writer.hand_cons (w := ({ s with pending := rest } : Session).writer) front] at after
          have twice : t.handed.map (·.number) = List.range (n + 1) ++ [n] := by
            have ordered := inv.ordered
            rw [handed] at ordered
            exact (congrArg Writer.handed after).trans (by rw [← ordered]; rfl)
          intro single
          have once := single.2.sublist.nodup List.nodup_range
          rw [twice] at once
          exact (List.nodup_append.mp once).2.2 n (by simp) n (by simp) rfl

theorem calm_of_not_shutdown {ts : List (Transition Session (SessionEvent ν) (List ν))}
    (calm : ∀ t ∈ ts, t.before.curState ≠ .shutdown) :
    ∀ t ∈ ts, ¬ t.before.SendsIntoShutdown t.event := by
  intro t ht sends
  unfold SendsIntoShutdown at sends
  split at sends
  · exact calm t ht sends.2.1
  · exact sends

theorem start_writer_inv (remote : Option (String × UInt16)) : (start remote).writer.Inv := by
  refine Writer.Fresh.inv ⟨rfl, rfl, rfl, rfl, rfl⟩ ?_ ?_
  · simp [writer, start, Pending.isHandshake]
  · intro h
    cases h

end Session

/-- A run keeps the single-writer discipline in all its states if and only if no
send runs after the shutdown began with messages still queued. -/
theorem session_single_writer_iff {ν : Type*} (cfg : WsConfig) {s₀ s : Session}
    {ts : List (Transition Session (SessionEvent ν) (List ν))}
    (init : (sessionMachine (ν := ν) cfg).init s₀) (run : (sessionMachine cfg).Run s₀ ts s) :
    (∀ v, Machine.Visits s₀ ts v → v.SingleWriter) ↔
      ∀ t ∈ ts, ¬ t.before.SendsIntoShutdown t.event := by
  refine run.always_iff_guard (I := fun s => s.writer.Inv) (P := Session.SingleWriter)
    (G := fun s e => ¬ s.SendsIntoShutdown e) ?_ ?_ ?_ ?_
  · obtain ⟨remote, rfl⟩ := init
    exact Session.start_writer_inv remote
  · intro s e t o inv safe h
    exact Session.next_writer_inv inv safe h
  · intro s inv
    exact Session.singleWriter_of_inv inv
  · intro s e t o inv sends h
    exact Session.not_singleWriter_of_send inv (not_not.mp sends) h

/-- Handshake, two sends, the first write completes and the second message follows. -/
def twoSendsTrace : List (SessionEvent Unit) :=
  [.complete 0 .success {} {}, .complete 0 .success {} {}, .call (.sendText [97]),
    .call (.sendText [98]), .complete 4 .success {} {}, .complete 4 .success {} {},
    .complete 4 .success {} {}]

theorem session_single_writer_two_sends :
    ∃ ts s, (sessionMachine defaultConfig).exec (Session.start none) twoSendsTrace = some (ts, s) ∧
      s.handed.map (·.data) = [[97], [98]] ∧
      ∀ v, Machine.Visits (Session.start none) ts v → v.SingleWriter := by
  have h : (sessionMachine defaultConfig).exec (Session.start none) twoSendsTrace = some (_, _) := rfl
  refine ⟨_, _, h, rfl, ?_⟩
  refine (session_single_writer_iff defaultConfig ⟨none, rfl⟩ (Machine.Run.of_exec h)).mpr ?_
  exact Session.calm_of_not_shutdown (by decide)

/-- `close_for_shutdown` and then another send are called while the first message
is being written. The shutdown runs first, and the send starts a second write of
the message whose write is still outstanding. -/
def sendIntoShutdownTrace : List (SessionEvent Unit) :=
  [.complete 0 .success {} {}, .complete 0 .success {} {}, .call (.sendText [97]),
    .complete 4 .success {} {}, .call .closeForShutdown, .call (.sendText [98]),
    .complete 5 .success {} {}, .complete 5 .success {} {}]

theorem session_send_into_shutdown_writes_twice :
    ∃ ts s, (sessionMachine defaultConfig).exec (Session.start none) sendIntoShutdownTrace =
        some (ts, s) ∧
      (sessionMachine (ν := Unit) defaultConfig).Reachable s ∧
      s.pending.countP Pending.isWrite = 2 ∧ s.handed.map (·.data) = [[97], [97]] ∧
      ¬ s.SingleWriter := by
  have h : (sessionMachine defaultConfig).exec (Session.start none) sendIntoShutdownTrace =
    some (_, _) := rfl
  refine ⟨_, _, h, (Machine.Run.of_exec h).reachable ⟨none, rfl⟩, rfl, rfl, ?_⟩
  intro single
  exact absurd single.1 (by decide)

end Rtl.Ws
