import Rtl.Ws.Outbox

/-! # The message being written

A write works on the storage of the front message of the queue, so the message has to
stay there until the write completes. Closing clears the queue without waiting for
the write, and of two outstanding writes the first to complete pops the message the
other one works on. A run is safe exactly if messages leave the queue only when no
other write is outstanding.
-/

namespace Rtl.Ws

open Rtl.Base

def Pending.takesOut (outcome : Outcome) (state : SessionState) : Pending → Bool
  | .close => !state.late
  | .wsRead => outcome != .success && !state.late
  | .write _ => outcome == .success || !state.late
  | .drain _ => outcome == .success
  | _ => false

theorem Pending.message_eq_none {p : Pending} : p.message = none ↔ p.isWrite = false := by
  cases p <;> simp [Pending.message, Pending.isWrite]

namespace Outbox

variable {cfg : WsConfig} {b : Outbox} {verdict : GateVerdict} {outcome : Outcome} {p : Pending}
  {w : WriteMessage}

def FrontQueued (b : Outbox) : Prop := ∀ m ∈ b.inFlight, b.queue.head? = some m

structure Numbered (b : Outbox) : Prop where
  nodup : (b.queue.map (·.number)).Nodup
  lt : ∀ m ∈ b.queue, m.number < b.nextMessage

/-! ## Safe handlers -/

theorem frontQueued_of_none (none : b.inFlight = []) : b.FrontQueued := by
  intro m mem
  simp [none] at mem

theorem FrontQueued.hand (front : b.FrontQueued) : b.hand.FrontQueued := by
  intro m mem
  rw [hand_queue]
  rw [hand_inFlight] at mem
  rcases List.mem_append.mp mem with old | new
  · exact front m old
  · exact Option.mem_toList.mp new

theorem FrontQueued.drain (front : b.FrontQueued) : b.drain.FrontQueued := by
  unfold Outbox.drain
  split
  · exact front
  · exact front.hand

theorem FrontQueued.push (front : b.FrontQueued) (isBinary : Bool) (data : List UInt8) :
    (b.push isBinary data).FrontQueued := by
  intro m mem
  simp only [Outbox.push, List.head?_append, front m mem, Option.some_or]

theorem FrontQueued.enqueue (front : b.FrontQueued) (isBinary : Bool) (data : List UInt8) :
    (b.enqueue cfg isBinary data).FrontQueued :=
  enqueue_cases front front.hand (front.push isBinary data) (front.push isBinary data).hand

theorem frontQueued_writeNext (none : b.inFlight = []) : b.writeNext.FrontQueued := by
  have front := frontQueued_of_none none
  unfold writeNext
  split
  · exact front.hand
  · exact front.hand
  · exact frontQueued_of_none none

/-- A handler that takes nothing out, or does so while no other write is outstanding. -/
theorem FrontQueued.handle (front : b.FrontQueued)
    (alone : p.takesOut outcome b.state = true → b.inFlight = []) :
    (b.handle cfg verdict outcome p).FrontQueued := by
  have failed : (b.state.late = false → b.inFlight = []) → b.fail.FrontQueued := by
    intro none
    unfold fail
    split
    · exact front
    · rename_i early
      exact frontQueued_of_none (none (by simpa using early))
  cases p with
  | httpRead =>
      simp only [Outbox.handle]
      split
      · split <;> exact front
      · exact front
  | wsRead =>
      simp only [Outbox.handle]
      split
      · exact front
      · rename_i bad
        apply failed
        intro early
        exact alone (by simp [Pending.takesOut, bad, early])
  | write m =>
      simp only [Outbox.handle]
      split
      · rename_i ok
        apply frontQueued_writeNext
        rw [pop_inFlight]
        exact alone (by simp [Pending.takesOut, ok])
      · apply failed
        intro early
        exact alone (by simp [Pending.takesOut, early])
  | drain m =>
      simp only [Outbox.handle]
      split
      · rename_i ok
        apply FrontQueued.drain
        apply frontQueued_of_none
        exact (pop_inFlight b _).trans (alone (by simp [Pending.takesOut, ok]))
      · exact front
  | wsClose =>
      simp only [Outbox.handle]
      split <;> exact front
  | enqueue isBinary data => exact front.enqueue isBinary data
  | close =>
      simp only [Outbox.handle]
      split
      · exact front
      · rename_i early
        exact frontQueued_of_none (alone (by simpa [Pending.takesOut] using early))
  | closeForShutdown =>
      have shut : ({ b with state := .shutdown } : Outbox).FrontQueued := front
      exact shut.drain
  | closeForcefully =>
      simp only [Outbox.handle]
      split <;> exact front
  | rejectWrite | wsAccept | idleWait | drainWait | heartbeatWait | ping => exact front

/-! ## Numbers -/

theorem Numbered.sublist (numbered : b.Numbered) {c : Outbox} (queue : c.queue.Sublist b.queue)
    (next : c.nextMessage = b.nextMessage) : c.Numbered where
  nodup := numbered.nodup.sublist (queue.map _)
  lt m mem := by
    rw [next]
    exact numbered.lt m (queue.subset mem)

theorem Numbered.hand (numbered : b.Numbered) : b.hand.Numbered :=
  numbered.sublist (by rw [hand_queue]) (hand_nextMessage b)

theorem Numbered.drain (numbered : b.Numbered) : b.drain.Numbered := by
  unfold Outbox.drain
  split
  · exact numbered
  · exact numbered.hand

theorem Numbered.pop (numbered : b.Numbered) (bytes : Nat) : (b.pop bytes).Numbered := by
  unfold Outbox.pop
  split
  · exact numbered
  · rename_i queue
    exact numbered.sublist (by rw [queue]; exact List.sublist_cons_self _ _) rfl

theorem Numbered.clear (numbered : b.Numbered) : b.clear.Numbered :=
  numbered.sublist (List.nil_sublist _) rfl

theorem Numbered.writeNext (numbered : b.Numbered) : b.writeNext.Numbered := by
  unfold Outbox.writeNext
  split
  · exact numbered.hand
  · exact numbered.hand
  · exact numbered.sublist (List.nil_sublist _) rfl

theorem Numbered.push (numbered : b.Numbered) (isBinary : Bool) (data : List UInt8) :
    (b.push isBinary data).Numbered where
  nodup := by
    simp only [Outbox.push, List.map_append, List.map_cons, List.map_nil]
    rw [List.nodup_append]
    refine ⟨numbered.nodup, by simp, ?_⟩
    intro n old k new same
    obtain ⟨m, mem, rfl⟩ := List.mem_map.mp old
    have lt := numbered.lt m mem
    rw [same, List.mem_singleton.mp new] at lt
    exact absurd lt (Nat.lt_irrefl _)
  lt m mem := by
    rcases List.mem_append.mp mem with old | new
    · exact Nat.lt_succ_of_lt (numbered.lt m old)
    · rw [List.mem_singleton.mp new]
      exact Nat.lt_succ_self _

theorem Numbered.handle (numbered : b.Numbered) : (b.handle cfg verdict outcome p).Numbered := by
  have failed : b.fail.Numbered := by
    unfold fail
    split
    · exact ⟨numbered.nodup, numbered.lt⟩
    · exact ⟨numbered.clear.nodup, numbered.clear.lt⟩
  have moved : ∀ {c : Outbox}, c.queue = b.queue → c.nextMessage = b.nextMessage → c.Numbered :=
    fun queue next => numbered.sublist (by rw [queue]) next
  cases p with
  | httpRead =>
      simp only [Outbox.handle]
      split
      · split <;> exact moved rfl rfl
      · exact moved rfl rfl
  | wsRead =>
      simp only [Outbox.handle]
      split
      · exact numbered
      · exact failed
  | write m =>
      simp only [Outbox.handle]
      split
      · exact (numbered.pop _).writeNext
      · exact failed
  | drain m =>
      simp only [Outbox.handle]
      split
      · have popped := numbered.pop m.data.length
        exact Numbered.drain ⟨popped.nodup, popped.lt⟩
      · exact numbered
  | wsClose =>
      simp only [Outbox.handle]
      split
      · exact numbered
      · exact moved rfl rfl
  | enqueue isBinary data =>
      have pushed := numbered.push isBinary data
      exact enqueue_cases numbered numbered.hand pushed pushed.hand
  | close =>
      simp only [Outbox.handle]
      split
      · exact numbered
      · exact ⟨numbered.clear.nodup, numbered.clear.lt⟩
  | closeForShutdown => exact Numbered.drain (moved rfl rfl)
  | closeForcefully =>
      simp only [Outbox.handle]
      split
      · exact numbered
      · exact moved rfl rfl
  | rejectWrite | wsAccept | idleWait | drainWait | heartbeatWait | ping => exact moved rfl rfl

/-! ## Unsafe handlers -/

theorem drain_inFlight_subset (b : Outbox) : b.inFlight ⊆ b.drain.inFlight := by
  unfold drain
  split <;> simp

theorem writeNext_inFlight_subset (b : Outbox) : b.inFlight ⊆ b.writeNext.inFlight := by
  unfold writeNext
  split <;> simp

theorem writeNext_queue_subset (b : Outbox) : b.writeNext.queue ⊆ b.queue := by
  unfold writeNext
  split <;> simp

theorem not_frontQueued (flying : w ∈ b.inFlight) (lost : w ∉ b.queue) : ¬ b.FrontQueued := by
  intro front
  exact lost (List.mem_of_mem_head? (front w flying))

/-- A popped message is not in the rest of the queue a second time. -/
theorem Numbered.not_mem_pop (numbered : b.Numbered) (first : b.queue.head? = some w) (bytes : Nat) :
    w ∉ (b.pop bytes).queue := by
  have nodup := numbered.nodup
  unfold Outbox.pop
  cases queue : b.queue with
  | nil => simp [queue] at first
  | cons m more =>
      rw [queue] at first nodup
      cases first
      intro mem
      exact (List.nodup_cons.mp nodup).1 (List.mem_map_of_mem mem)

/-- Taking messages out under an outstanding write takes its message. -/
theorem FrontQueued.sharp (front : b.FrontQueued) (numbered : b.Numbered)
    (takes : p.takesOut outcome b.state = true) (flying : w ∈ b.inFlight) :
    ¬ (b.handle cfg verdict outcome p).FrontQueued := by
  have popped := numbered.not_mem_pop (front w flying)
  have failed : b.state.late = false → ¬ b.fail.FrontQueued := by
    intro early
    apply not_frontQueued (w := w)
    · simpa [fail, early, clear] using flying
    · simp [fail, early, clear]
  cases p with
  | close =>
      have early : b.state.late = false := by simpa [Pending.takesOut] using takes
      simp only [Outbox.handle, early]
      exact not_frontQueued (w := w) flying (by simp [clear])
  | wsRead =>
      have early : outcome ≠ .success ∧ b.state.late = false := by
        simpa [Pending.takesOut] using takes
      simp only [Outbox.handle, early.1, if_false]
      exact failed early.2
  | write m =>
      by_cases ok : outcome = .success
      · simp only [Outbox.handle, ok, if_true]
        apply not_frontQueued (w := w)
        · apply writeNext_inFlight_subset
          rw [pop_inFlight]
          exact flying
        · intro mem
          exact popped _ (writeNext_queue_subset _ mem)
      · have early : b.state.late = false := by simpa [Pending.takesOut, ok] using takes
        simp only [Outbox.handle, ok, if_false]
        exact failed early
  | drain m =>
      have ok : outcome = .success := by simpa [Pending.takesOut] using takes
      simp only [Outbox.handle, ok, if_true]
      apply not_frontQueued (w := w)
      · apply drain_inFlight_subset
        show w ∈ (b.pop m.data.length).inFlight
        rw [pop_inFlight]
        exact flying
      · rw [drain_queue]
        exact popped _
  | _ => cases takes

end Outbox

namespace Session

variable {ν : Type*} {cfg : WsConfig} {s t : Session} {e : SessionEvent ν} {notes : List ν}

/-- The message of every outstanding write is the front of the queue. -/
def WritesFront (s : Session) : Prop :=
  ∀ m, (.write m ∈ s.pending ∨ .drain m ∈ s.pending) → s.writeQueue.head? = some m

/-- Messages are taken out of the queue only while no other write is outstanding. -/
def TakesOutAlone (s : Session) : SessionEvent ν → Prop
  | .complete k outcome _ _ => ∀ p rest, pickAt s.pending k = some (p, rest) →
      p.takesOut outcome s.curState = true → ∀ q ∈ rest, q.isWrite = false
  | _ => True

theorem mem_inFlight {m : WriteMessage} :
    m ∈ s.outbox.inFlight ↔ .write m ∈ s.pending ∨ .drain m ∈ s.pending := by
  simp only [outbox, List.mem_filterMap]
  constructor
  · rintro ⟨p, mem, message⟩
    cases p with
    | write n => cases message; exact .inl mem
    | drain n => cases message; exact .inr mem
    | _ => cases message
  · rintro (mem | mem)
    · exact ⟨_, mem, rfl⟩
    · exact ⟨_, mem, rfl⟩

theorem writesFront_iff : s.WritesFront ↔ s.outbox.FrontQueued := by
  simp only [WritesFront, Outbox.FrontQueued, mem_inFlight]
  rfl

/-- What the outbox has outstanding when one operation is taken out. -/
theorem frontQueued_taken {p : Pending} {rest : List Pending} (front : s.outbox.FrontQueued)
    (picked : s.pending.Perm (p :: rest)) :
    ({ s with pending := rest } : Session).outbox.FrontQueued := by
  obtain ⟨inFlight, _, writes, _, taken⟩ := outbox_taken picked
  rw [taken]
  intro m mem
  exact front m (writes.mem_iff.mpr (List.mem_append_right _ mem))

theorem inFlight_eq_nil {rest : List Pending} :
    ({ s with pending := rest } : Session).outbox.inFlight = [] ↔ ∀ q ∈ rest, q.isWrite = false := by
  simp only [outbox, List.filterMap_eq_nil_iff, Pending.message_eq_none]

theorem next_frontQueued (front : s.outbox.FrontQueued) (alone : s.TakesOutAlone e)
    (h : s.next cfg e = some (t, notes)) : t.outbox.FrontQueued := by
  rcases outbox_next h with ⟨same, _⟩ | ⟨k, outcome, input, router, p, rest, rfl, picked, after⟩
  · rw [same]
    exact front
  · rw [after]
    apply (frontQueued_taken front (pickAt_perm picked)).handle
    intro takes
    exact inFlight_eq_nil.mpr (alone p rest picked takes)

theorem next_numbered (numbered : s.outbox.Numbered) (h : s.next cfg e = some (t, notes)) :
    t.outbox.Numbered := by
  rcases outbox_next h with ⟨same, _⟩ | ⟨k, outcome, input, router, p, rest, rfl, picked, after⟩
  · rw [same]
    exact numbered
  · rw [after]
    exact Outbox.Numbered.handle ⟨numbered.nodup, numbered.lt⟩

theorem not_writesFront (front : s.outbox.FrontQueued) (numbered : s.outbox.Numbered)
    (bad : ¬ s.TakesOutAlone e) (h : s.next cfg e = some (t, notes)) : ¬ t.WritesFront := by
  cases e with
  | call | pong => exact absurd trivial bad
  | complete k outcome input router =>
      simp only [TakesOutAlone, not_forall] at bad
      obtain ⟨p, rest, picked, takes, q, mem, write⟩ := bad
      rw [writesFront_iff, outbox_complete picked h]
      have others : ({ s with pending := rest } : Session).outbox.inFlight ≠ [] := by
        intro none
        exact write (inFlight_eq_nil.mp none q mem)
      obtain ⟨w, flying⟩ := List.exists_mem_of_ne_nil _ others
      exact (frontQueued_taken front (pickAt_perm picked)).sharp ⟨numbered.nodup, numbered.lt⟩ takes
        flying

end Session

/-- In a run the message of every outstanding write stays at the front of the queue if
and only if messages are taken out only while no other write is outstanding. -/
theorem session_writes_front_iff {ν : Type*} (cfg : WsConfig) {s₀ s : Session}
    {ts : List (Transition Session (SessionEvent ν) (List ν))}
    (init : (sessionMachine (ν := ν) cfg).init s₀) (run : (sessionMachine cfg).Run s₀ ts s) :
    (∀ v, Machine.Visits s₀ ts v → v.WritesFront) ↔
      ∀ t ∈ ts, t.before.TakesOutAlone t.event := by
  apply run.always_iff_guard (I := fun s => s.outbox.FrontQueued ∧ s.outbox.Numbered)
  · obtain ⟨remote, rfl⟩ := init
    constructor
    · exact Outbox.frontQueued_of_none rfl
    · exact ⟨List.nodup_nil, by simp [Session.start, Session.outbox]⟩
  · rintro s e t o ⟨front, numbered⟩ alone h
    exact ⟨Session.next_frontQueued front alone h, Session.next_numbered numbered h⟩
  · rintro s ⟨front, _⟩
    exact Session.writesFront_iff.mpr front
  · rintro s e t o ⟨front, numbered⟩ bad h
    exact Session.not_writesFront front numbered bad h

/-- Handshake and one message, whose write completes before the session is closed. -/
def writeThenCloseTrace : List (SessionEvent Unit) :=
  [.complete 0 .success {} {}, .complete 0 .success {} {}, .call (.sendText [97]),
    .complete 4 .success {} {}, .complete 4 .success {} {}, .call .close, .complete 4 .success {} {}]

theorem writeThenCloseTrace_writes_front :
    ∃ ts s, (sessionMachine defaultConfig).exec (Session.start none) writeThenCloseTrace =
        some (ts, s) ∧
      s.curState = .closing ∧ s.handed.map (·.data) = [[97]] ∧
      ∀ v, Machine.Visits (Session.start none) ts v → v.WritesFront := by
  have h : (sessionMachine defaultConfig).exec (Session.start none) writeThenCloseTrace =
    some (_, _) := rfl
  refine ⟨_, _, h, rfl, rfl, ?_⟩
  refine (session_writes_front_iff defaultConfig ⟨none, rfl⟩ (Machine.Run.of_exec h)).mpr ?_
  intro t ht
  simp only [List.mem_cons, List.not_mem_nil, or_false] at ht
  rcases ht with rfl | rfl | rfl | rfl | rfl | rfl | rfl
  · intro p rest picked takes
    cases picked
    cases takes
  · intro p rest picked takes
    cases picked
    cases takes
  · trivial
  · intro p rest picked takes
    cases picked
    cases takes
  · intro p rest picked takes
    cases picked
    decide
  · trivial
  · intro p rest picked takes
    cases picked
    decide

/-- The session is closed while a message is being written: its storage is freed under
the write. -/
theorem close_frees_message_being_written :
    ∃ ts s m, (sessionMachine (ν := Unit) defaultConfig).exec (Session.start none)
        [.complete 0 .success {} {}, .complete 0 .success {} {}, .call (.sendText [97]),
          .complete 4 .success {} {}, .call .close, .complete 5 .success {} {}] = some (ts, s) ∧
      .write m ∈ s.pending ∧ s.writeQueue = [] ∧ ¬ s.WritesFront := by
  refine ⟨_, _, ⟨0, false, [97]⟩, rfl, by decide, rfl, ?_⟩
  intro front
  have lost := front ⟨0, false, [97]⟩ (.inl (by decide))
  cases lost

end Rtl.Ws
