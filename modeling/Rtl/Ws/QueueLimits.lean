import Rtl.Ws.WriteFront

/-! # The limits of the write queue

A send is admitted against two counters that are kept apart from the queue. While the
session is open they are exact: what a completed write takes off is the size of the
message that is popped, because at most one write is outstanding and its message is
the front. Once the session has left `open` it never returns, and the queue can only
shrink.
-/

namespace Rtl.Ws

open Rtl.Base

def totalBytes : List WriteMessage → Nat
  | [] => 0
  | m :: more => m.data.length + totalBytes more

theorem totalBytes_append (l r : List WriteMessage) :
    totalBytes (l ++ r) = totalBytes l + totalBytes r := by
  induction l with
  | nil => simp [totalBytes]
  | cons m more ih =>
      simp only [List.cons_append, totalBytes, ih]
      omega

theorem totalBytes_suffix_le {l r : List WriteMessage} (h : l <:+ r) : totalBytes l ≤ totalBytes r := by
  obtain ⟨before, rfl⟩ := h
  rw [totalBytes_append]
  omega

def Pending.size : Pending → Nat
  | .enqueue _ data => data.length
  | _ => 0

namespace Outbox

variable {cfg : WsConfig} {b c : Outbox} {verdict : GateVerdict} {outcome : Outcome} {p : Pending}

structure Fresh (b : Outbox) : Prop where
  queue : b.queue = []
  bytes : b.bytes = 0
  messages : b.messages = 0
  inFlight : b.inFlight = []

/-- The counters are exact, and a completed write will pop its own message. -/
structure Counted (b : Outbox) : Prop where
  messages : b.messages = b.queue.length
  bytes : b.bytes = totalBytes b.queue
  messages_lt : b.messages < Session.sizeModulus
  bytes_lt : b.bytes < Session.sizeModulus
  front : b.FrontQueued
  single : b.inFlight.length ≤ 1
  idle : b.writing = false → b.inFlight = []

/-- The queue is within its limits; the counters are exact while the session is open,
which it is only after the handshake. -/
structure Account (cfg : WsConfig) (b : Outbox) : Prop where
  length_le : b.queue.length ≤ cfg.maxQueuedMessages
  bytes_le : totalBytes b.queue ≤ cfg.maxQueuedBytes
  opened : b.state = .opened → b.handshakes = 0 ∧ b.Counted
  handshake : 0 < b.handshakes → b.handshakes = 1 ∧ b.Fresh

/-! ## Before and after `open` -/

theorem Fresh.counted (fresh : b.Fresh) : b.Counted where
  messages := by simp [fresh.messages, fresh.queue]
  bytes := by simp [fresh.bytes, fresh.queue, totalBytes]
  messages_lt := by simp [fresh.messages, Session.sizeModulus]
  bytes_lt := by simp [fresh.bytes, Session.sizeModulus]
  front := frontQueued_of_none fresh.inFlight
  single := by simp [fresh.inFlight]
  idle _ := fresh.inFlight

theorem Fresh.hand (fresh : b.Fresh) : b.hand.Fresh := by
  unfold Outbox.hand
  rw [fresh.queue]
  exact ⟨rfl, fresh.bytes, fresh.messages, fresh.inFlight⟩

theorem Fresh.drain (fresh : b.Fresh) : b.drain.Fresh := by
  unfold Outbox.drain
  split
  · exact fresh
  · exact fresh.hand

theorem Fresh.pop (fresh : b.Fresh) (bytes : Nat) : (b.pop bytes).Fresh := by
  unfold Outbox.pop
  rw [fresh.queue]
  exact fresh

theorem Fresh.writeNext (fresh : b.Fresh) : b.writeNext.Fresh := by
  unfold Outbox.writeNext
  split
  · exact fresh.hand
  · exact fresh.hand
  · exact ⟨rfl, fresh.bytes, fresh.messages, fresh.inFlight⟩

/-- Outside `open` the queue may only get shorter. -/
theorem Account.late (account : b.Account cfg) (queue : c.queue <:+ b.queue)
    (left : c.state ≠ .opened) (handshakes : c.handshakes = b.handshakes)
    (fresh : b.Fresh → c.Fresh) : c.Account cfg where
  length_le := Nat.le_trans queue.length_le account.length_le
  bytes_le := Nat.le_trans (totalBytes_suffix_le queue) account.bytes_le
  opened opened := absurd opened left
  handshake pending := by
    rw [handshakes] at pending ⊢
    exact ⟨(account.handshake pending).1, fresh (account.handshake pending).2⟩

theorem Account.leave (account : b.Account cfg) {state : SessionState} (left : state ≠ .opened) :
    ({ b with state := state } : Outbox).Account cfg :=
  account.late (List.suffix_refl _) left rfl fun fresh => ⟨fresh.1, fresh.2, fresh.3, fresh.4⟩

theorem Account.clear (account : b.Account cfg) {state : SessionState} (left : state ≠ .opened) :
    ({ b.clear with state := state } : Outbox).Account cfg :=
  account.late (List.nil_suffix) left rfl fun fresh => ⟨rfl, rfl, rfl, fresh.inFlight⟩

theorem Account.fail (account : b.Account cfg) : b.fail.Account cfg := by
  unfold Outbox.fail
  split
  · exact account.leave (by simp)
  · exact account.clear (by simp)

@[simp] theorem hand_handshakes (b : Outbox) : b.hand.handshakes = b.handshakes := by
  unfold hand
  split <;> rfl

@[simp] theorem drain_handshakes (b : Outbox) : b.drain.handshakes = b.handshakes := by
  unfold drain
  split <;> simp

@[simp] theorem pop_handshakes (b : Outbox) (bytes : Nat) :
    (b.pop bytes).handshakes = b.handshakes := by
  unfold pop
  split <;> rfl

@[simp] theorem writeNext_handshakes (b : Outbox) : b.writeNext.handshakes = b.handshakes := by
  unfold writeNext
  split <;> simp

theorem pop_queue (b : Outbox) (bytes : Nat) : (b.pop bytes).queue = b.queue.tail := by
  unfold pop
  cases queue : b.queue <;> simp [queue]

theorem writeNext_queue_suffix (b : Outbox) : b.writeNext.queue <:+ b.queue := by
  unfold writeNext
  split <;> simp

/-! ## In `open` -/

theorem Counted.hand (counted : b.Counted) (free : b.inFlight = []) : b.hand.Counted where
  messages := by
    rw [hand_queue, ← counted.messages]
    unfold Outbox.hand
    split <;> rfl
  bytes := by
    rw [hand_queue, ← counted.bytes]
    unfold Outbox.hand
    split <;> rfl
  messages_lt := by
    unfold Outbox.hand
    split <;> exact counted.messages_lt
  bytes_lt := by
    unfold Outbox.hand
    split <;> exact counted.bytes_lt
  front := counted.front.hand
  single := by
    rw [hand_inFlight, free]
    cases b.queue <;> simp
  idle stopped := by
    unfold Outbox.hand at stopped ⊢
    cases queue : b.queue with
    | nil => simpa [queue] using free
    | cons m more => simp [queue] at stopped

/-- The arithmetic of a completed write: the counters go down by the popped message. -/
theorem Counted.pop (counted : b.Counted) {m : WriteMessage} (first : b.queue.head? = some m)
    (free : b.inFlight = []) : (b.pop m.data.length).Counted := by
  obtain ⟨messages, bytes, messages_lt, bytes_lt, _, _, _⟩ := counted
  unfold Outbox.pop
  cases queue : b.queue with
  | nil => simp [queue] at first
  | cons head more =>
      rw [queue] at first messages bytes
      cases first
      simp only [List.length_cons, totalBytes, Session.sizeModulus] at messages bytes messages_lt bytes_lt
      refine ⟨?_, ?_, ?_, ?_, frontQueued_of_none free, by simp [free], fun _ => free⟩
      · simp only [Session.sizeModulus]
        omega
      · simp only [Session.sizeModulus]
        omega
      · exact Nat.mod_lt _ (by decide)
      · exact Nat.mod_lt _ (by decide)

/-- The arithmetic of an admitted send: no counter wraps round. -/
theorem Counted.push (counted : b.Counted) (isBinary : Bool) {data : List UInt8}
    (room : b.queue.length + 1 < Session.sizeModulus)
    (sized : b.bytes + data.length < Session.sizeModulus) :
    (b.push isBinary data).Counted where
  messages := by
    simp only [Outbox.push, List.length_append, List.length_singleton, counted.messages]
    exact Nat.mod_eq_of_lt room
  bytes := by
    simp only [Outbox.push, totalBytes_append, totalBytes, Nat.add_zero]
    rw [Nat.mod_eq_of_lt sized, counted.bytes]
  messages_lt := Nat.mod_lt _ (by decide)
  bytes_lt := Nat.mod_lt _ (by decide)
  front := counted.front.push isBinary data
  single := counted.single
  idle := counted.idle

/-- A send in `open`. -/
theorem Account.admitted (account : b.Account cfg) (opened : b.state = .opened) (isBinary : Bool)
    {data : List UInt8} (fits : b.Fits cfg data.length)
    (room : cfg.maxQueuedMessages + 1 < Session.sizeModulus ∨
      b.queue.length + 1 < Session.sizeModulus)
    (sized : cfg.maxQueuedBytes + data.length < Session.sizeModulus) :
    (b.admitted isBinary data).Account cfg := by
  obtain ⟨handshakes, counted⟩ := account.opened opened
  have length_le := account.length_le
  have bytes_le := account.bytes_le
  have roomy : b.queue.length + 1 < Session.sizeModulus := by omega
  have small : b.bytes + data.length < Session.sizeModulus := by
    have exact' := counted.bytes
    omega
  have pushed := counted.push isBinary roomy small
  obtain ⟨lengthFits, bytesFit⟩ := fits
  rw [counted.messages, Nat.mod_eq_of_lt roomy] at lengthFits
  rw [Nat.mod_eq_of_lt small, counted.bytes] at bytesFit
  have queue : (b.admitted isBinary data).queue = (b.push isBinary data).queue := by
    unfold Outbox.admitted
    split <;> simp
  have state : (b.admitted isBinary data).handshakes = 0 := by
    unfold Outbox.admitted
    split <;> simp [Outbox.push, handshakes]
  constructor
  · rw [queue]
    simpa [Outbox.push] using lengthFits
  · rw [queue]
    simpa [Outbox.push, totalBytes_append, totalBytes] using bytesFit
  · intro _
    refine ⟨state, ?_⟩
    unfold Outbox.admitted
    split
    · exact pushed
    · rename_i stopped
      exact pushed.hand (counted.idle (by simpa using stopped))
  · intro pending
    omega

/-! ## One handler -/

theorem Fresh.account (fresh : b.Fresh) (none : b.handshakes = 0) : b.Account cfg where
  length_le := by simp [fresh.queue]
  bytes_le := by simp [fresh.queue, totalBytes]
  opened _ := ⟨none, fresh.counted⟩
  handshake pending := by omega

/-- A handler that is neither a write completion nor part of the handshake. -/
theorem Account.handle_plain (account : b.Account cfg) (write : p.message = none)
    (handshake : p.isHandshake = false)
    (sends : ∀ isBinary data, p = .enqueue isBinary data →
      cfg.maxQueuedBytes + data.length < Session.sizeModulus ∧
      (cfg.maxQueuedMessages + 1 < Session.sizeModulus ∨
        b.queue.length + 1 < Session.sizeModulus)) :
    (b.handle cfg verdict outcome p).Account cfg := by
  cases p with
  | rejectWrite status message => exact account.leave (by simp)
  | wsRead =>
      simp only [handle]
      split
      · exact account
      · exact account.fail
  | wsClose =>
      simp only [handle]
      split
      · exact account
      · exact account.leave (by simp)
  | enqueue isBinary data =>
      obtain ⟨sized, room⟩ := sends isBinary data rfl
      simp only [handle, enqueue]
      split
      · rename_i shut
        exact account.late (by simp) (by simp [shut]) (by simp) Fresh.hand
      · rename_i opened
        split
        · rename_i fits
          exact account.admitted opened isBinary fits room sized
        · exact account
      · exact account
  | close =>
      simp only [handle]
      split
      · exact account
      · exact account.clear (by simp)
  | closeForShutdown =>
      have shut := account.leave (show SessionState.shutdown ≠ .opened by simp)
      simp only [handle]
      exact shut.late (by simp) (by simp) (by simp) Fresh.drain
  | closeForcefully =>
      simp only [handle]
      split
      · exact account
      · exact account.leave (by simp)
  | idleWait | heartbeatWait | drainWait | ping => exact account
  | write m | drain m => cases write
  | httpRead | wsAccept => cases handshake

/-- A handler of the handshake. -/
theorem Fresh.handle_handshake (fresh : b.Fresh) (none : b.handshakes = 0)
    (before : b.state ≠ .opened) (handshake : p.isHandshake = true) :
    (b.handle cfg verdict outcome p).Account cfg := by
  have account : b.Account cfg := fresh.account none
  cases p with
  | httpRead =>
      simp only [handle]
      split
      · split
        · refine ⟨account.length_le, account.bytes_le, fun opened => absurd opened before, ?_⟩
          intro _
          exact ⟨by simp [none], ⟨fresh.1, fresh.2, fresh.3, fresh.4⟩⟩
        · exact account.leave (by simp)
        · exact account
      · exact account.leave (by simp)
  | wsAccept =>
      simp only [handle]
      split
      · exact Fresh.account ⟨fresh.1, fresh.2, fresh.3, fresh.4⟩ none
      · exact account.leave (by simp)
  | _ => cases handshake

/-- The front message has been written and the next one is handed over. -/
theorem Counted.handed (counted : b.Counted) {m : WriteMessage} (first : b.queue.head? = some m)
    (free : b.inFlight = []) (writing : Bool) :
    ({ b.pop m.data.length with writing := writing } : Outbox).hand.Counted := by
  have popped := counted.pop first free
  have none : (b.pop m.data.length).inFlight = [] := by rw [pop_inFlight, free]
  have stopped : ({ b.pop m.data.length with writing := writing } : Outbox).Counted :=
    ⟨popped.messages, popped.bytes, popped.messages_lt, popped.bytes_lt, popped.front, popped.single,
      fun _ => none⟩
  exact stopped.hand none

theorem Account.handle_write (account : b.Account cfg) {m : WriteMessage} (write : p.message = some m)
    (own : b.state = .opened → b.queue.head? = some m ∧ b.inFlight = []) :
    (b.handle cfg verdict outcome p).Account cfg := by
  -- in `open` the counters follow the pop, elsewhere the queue only gets shorter
  have next : ∀ c : Outbox, c.queue <:+ b.queue.tail → c.state = b.state →
      c.handshakes = b.handshakes → (b.Fresh → c.Fresh) → (b.state = .opened → c.Counted) →
      c.Account cfg := by
    intro c queue state handshakes fresh counted
    have shorter := queue.trans (List.tail_suffix b.queue)
    by_cases opened : b.state = .opened
    · refine ⟨Nat.le_trans shorter.length_le account.length_le,
        Nat.le_trans (totalBytes_suffix_le shorter) account.bytes_le, ?_, ?_⟩
      · intro _
        exact ⟨handshakes.trans (account.opened opened).1, counted opened⟩
      · intro pending
        rw [handshakes, (account.opened opened).1] at pending
        exact absurd pending (Nat.lt_irrefl 0)
    · exact account.late shorter (state ▸ opened) handshakes fresh
  cases p with
  | write n =>
      cases write
      simp only [handle]
      split
      · apply next
        · rw [← pop_queue b m.data.length]
          exact writeNext_queue_suffix _
        · simp
        · simp
        · exact fun fresh => (fresh.pop _).writeNext
        · intro opened
          obtain ⟨first, free⟩ := own opened
          simp only [writeNext, pop_state, opened]
          exact (account.opened opened).2.handed first free _
      · exact account.fail
  | drain n =>
      cases write
      simp only [handle]
      split
      · apply next
        · rw [drain_queue]
          exact (pop_queue b m.data.length) ▸ List.suffix_refl _
        · simp
        · simp
        · intro fresh
          have popped := fresh.pop m.data.length
          exact Fresh.drain ⟨popped.1, popped.2, popped.3, popped.4⟩
        · intro opened
          obtain ⟨first, free⟩ := own opened
          exact (account.opened opened).2.handed first free false
      · exact account
  | _ => cases write

end Outbox

namespace Session

variable {ν : Type*} {cfg : WsConfig} {s t : Session} {e : SessionEvent ν} {notes : List ν}

/-- The queue is within the limits, and the counters are exact while the session is open. -/
structure WithinLimits (cfg : WsConfig) (s : Session) : Prop where
  length_le : s.writeQueue.length ≤ cfg.maxQueuedMessages
  bytes_le : totalBytes s.writeQueue ≤ cfg.maxQueuedBytes
  exact_counters : s.curState = .opened → s.currentQueuedMessages = s.writeQueue.length ∧
    s.currentQueuedBytes = totalBytes s.writeQueue

theorem withinLimits_of_account (account : s.outbox.Account cfg) : s.WithinLimits cfg where
  length_le := account.length_le
  bytes_le := account.bytes_le
  exact_counters opened :=
    ⟨(account.opened opened).2.messages, (account.opened opened).2.bytes⟩

/-- The additions of `check_message_size` do not wrap round for the sends to come. -/
def Sized (cfg : WsConfig) (s : Session) : Prop :=
  (∀ isBinary data, .enqueue isBinary data ∈ s.pending →
    cfg.maxQueuedBytes + data.length < sizeModulus) ∧
  (cfg.maxQueuedMessages + 1 < sizeModulus ∨ s.writeQueue.length + 1 < sizeModulus)

theorem sized_of_size {ts : List (Transition Session (SessionEvent ν) (List ν))} {n : Nat}
    (small : ∀ t ∈ ts, ∀ p ∈ t.before.pending, n + p.size < sizeModulus) :
    ∀ t ∈ ts, ∀ isBinary data, .enqueue isBinary data ∈ t.before.pending →
      n + data.length < sizeModulus :=
  fun t ht _ _ mem => small t ht _ mem

/-- Taking an operation that is no part of the handshake out of the pending ones. -/
theorem account_taken {p : Pending} {rest : List Pending} (account : s.outbox.Account cfg)
    (picked : s.pending.Perm (p :: rest)) (plain : p.isHandshake = false) :
    ({ s with pending := rest } : Session).outbox.Account cfg := by
  obtain ⟨inFlight, handshakes, writes, shakes, taken⟩ := outbox_taken picked
  rw [plain, Bool.toNat_false, Nat.zero_add] at shakes
  rw [taken]
  have sub : ∀ m ∈ inFlight, m ∈ s.outbox.inFlight := fun m mem =>
    writes.mem_iff.mpr (List.mem_append_right _ mem)
  have count := writes.length_eq
  rw [List.length_append] at count
  have gone : s.outbox.inFlight = [] → inFlight = [] := by
    intro none
    rw [none, List.length_nil] at count
    exact List.length_eq_zero_iff.mp (by omega)
  constructor
  · exact account.length_le
  · exact account.bytes_le
  · intro opened
    obtain ⟨none, counted⟩ := account.opened opened
    have single := counted.single
    exact ⟨shakes ▸ none, counted.messages, counted.bytes, counted.messages_lt, counted.bytes_lt,
      fun m mem => counted.front m (sub m mem), by simp only; omega,
      fun stopped => gone (counted.idle stopped)⟩
  · intro pending
    obtain ⟨one, fresh⟩ := account.handshake (shakes ▸ pending)
    exact ⟨shakes ▸ one, fresh.queue, fresh.bytes, fresh.messages, gone fresh.inFlight⟩

theorem account_handle {p : Pending} {rest : List Pending} {verdict : GateVerdict} {outcome : Outcome}
    (account : s.outbox.Account cfg) (sized : s.Sized cfg) (picked : s.pending.Perm (p :: rest)) :
    (({ s with pending := rest } : Session).outbox.handle cfg verdict outcome p).Account cfg := by
  obtain ⟨inFlight, handshakes, writes, shakes, taken⟩ := outbox_taken picked
  cases handshake : p.isHandshake with
  | true =>
      rw [handshake, Bool.toNat_true] at shakes
      obtain ⟨one, fresh⟩ := account.handshake (by omega)
      have plain : p.message = none := by cases p <;> first | rfl | cases handshake
      have none : inFlight = [] := by
        rw [plain, fresh.inFlight] at writes
        simpa using writes
      rw [taken]
      apply Outbox.Fresh.handle_handshake _ _ _ handshake
      · exact ⟨fresh.queue, fresh.bytes, fresh.messages, none⟩
      · simp only
        omega
      · intro opened
        have zero := (account.opened opened).1
        omega
  | false =>
      have kept := account_taken account picked handshake
      cases write : p.message with
      | none =>
          apply kept.handle_plain write handshake
          rintro isBinary data rfl
          exact ⟨sized.1 isBinary data (picked.mem_iff.mpr List.mem_cons_self), sized.2⟩
      | some m =>
          apply kept.handle_write write
          intro opened
          have counted := (account.opened opened).2
          rw [write, Option.toList_some] at writes
          have single := counted.single
          rw [writes.length_eq, List.length_append, List.length_singleton] at single
          rw [taken]
          exact ⟨counted.front m (writes.mem_iff.mpr (by simp)),
            List.length_eq_zero_iff.mp (by simp only; omega)⟩

theorem next_account (account : s.outbox.Account cfg) (sized : s.Sized cfg)
    (h : s.next cfg e = some (t, notes)) : t.outbox.Account cfg := by
  rcases outbox_next h with ⟨same, _⟩ | ⟨k, outcome, input, router, p, rest, rfl, picked, after⟩
  · rw [same]
    exact account
  · rw [after]
    exact account_handle account sized (pickAt_perm picked)

theorem start_account (cfg : WsConfig) (remote : Option (String × UInt16)) :
    (start remote).outbox.Account cfg := by
  constructor
  · simp [start, outbox]
  · simp [start, outbox, totalBytes]
  · intro opened
    cases opened
  · intro _
    exact ⟨rfl, rfl, rfl, rfl, rfl⟩

end Session

/-- In every state of every run the write queue is within its limits and, while the
session is open, the counters are exact. `maxQueuedBytes` and the size of a message
add up to less than `2 ^ 64`. Only for a `maxQueuedMessages` at the top of its type
does it matter that a queue cannot hold `2 ^ 64 - 1` messages. -/
theorem session_queue_limits {ν : Type*} (cfg : WsConfig) {s₀ s : Session}
    {ts : List (Transition Session (SessionEvent ν) (List ν))}
    (init : (sessionMachine (ν := ν) cfg).init s₀) (run : (sessionMachine cfg).Run s₀ ts s)
    (sizes : ∀ t ∈ ts, ∀ isBinary data, .enqueue isBinary data ∈ t.before.pending →
      cfg.maxQueuedBytes + data.length < Session.sizeModulus)
    (room : cfg.maxQueuedMessages + 1 < Session.sizeModulus ∨
      ∀ t ∈ ts, t.before.writeQueue.length + 1 < Session.sizeModulus) :
    ∀ v, Machine.Visits s₀ ts v → v.WithinLimits cfg := by
  intro v visited
  obtain ⟨us, earlier, head⟩ := run.visits_run visited
  obtain ⟨remote, rfl⟩ := init
  have account : v.outbox.Account cfg := by
    apply head.invariant_of_guard (I := fun s => s.outbox.Account cfg) (G := fun s _ => s.Sized cfg)
    · intro t ht
      exact ⟨sizes t (earlier.subset ht), room.imp_right fun small => small t (earlier.subset ht)⟩
    · exact Session.start_account cfg remote
    · intro s e t notes account sized h
      exact Session.next_account account sized h
  exact Session.withinLimits_of_account account

/-- Handshake and two sends, of which the queue takes only the first. -/
def overflowTrace : List (SessionEvent Unit) :=
  [.complete 0 .success {} {}, .complete 0 .success {} {}, .call (.sendText [97]),
    .call (.sendText [98]), .complete 4 .success {} {}, .complete 4 .success {} {}]

theorem overflowTrace_within_limits :
    ∃ ts s, (sessionMachine ⟨1, 1, 60, 30⟩).exec (Session.start none) overflowTrace = some (ts, s) ∧
      s.writeQueue.map (·.data) = [[97]] ∧ .close ∈ s.pending ∧
      ∀ v, Machine.Visits (Session.start none) ts v → v.WithinLimits ⟨1, 1, 60, 30⟩ := by
  have h : (sessionMachine ⟨1, 1, 60, 30⟩).exec (Session.start none) overflowTrace = some (_, _) := rfl
  refine ⟨_, _, h, rfl, by decide, ?_⟩
  apply session_queue_limits ⟨1, 1, 60, 30⟩ ⟨none, rfl⟩ (Machine.Run.of_exec h)
  · exact Session.sized_of_size (by decide)
  · exact .inl (by decide)

end Rtl.Ws
