import Mathlib.Data.List.Basic
import Mathlib.Data.List.Range
import Rtl.Base.Machine

/-! # The writes of the client

`send_text` posts a lambda that queues the text and, unless a write is in progress,
starts one; the completion handler pops the message and starts the next. All of this
runs on the io thread, one handler at a time. `m_writeInProgress` is set by the
lambda of `send_text` alone, and cleared by the completion handler on every error.
-/

namespace Rtl.Ws

open Rtl.Base

/-- An entry of `m_writeQueue`; the serial number tells equal texts apart. -/
structure ClientMessage where
  serial : Nat
  text : String
  deriving Repr, DecidableEq

inductive WriteResult where
  | success
  | aborted
  | failed
  deriving Repr, DecidableEq

structure ClientWriter where
  connected : Bool
  /-- Calls of `send_text` past their checks that have not posted yet. -/
  sending : List String
  posted : List String
  writeQueue : List ClientMessage
  writeInProgress : Bool
  /-- Writes the stream has been given and has not completed. -/
  outstanding : List ClientMessage
  /-- Everything that was ever put in the queue, and everything that was ever handed to
  `async_write`, in the order of the calls. -/
  queued : List ClientMessage
  handed : List ClientMessage
  deriving Repr, DecidableEq

inductive ClientWriterEvent where
  | handshaken
  | readFailed
  | sendText (text : String)
  | post (i : Nat)
  | runPosted (i : Nat)
  | written (i : Nat) (result : WriteResult)
  | initIo
  deriving Repr, DecidableEq

def ClientWriterEvent.isAborted : ClientWriterEvent → Bool
  | .written _ .aborted => true
  | _ => false

namespace ClientWriter

def start : ClientWriter where
  connected := false
  sending := []
  posted := []
  writeQueue := []
  writeInProgress := false
  outstanding := []
  queued := []
  handed := []

def doWrite (s : ClientWriter) : ClientWriter :=
  match s.writeQueue with
  | [] => { s with writeInProgress := false }
  | m :: _ => { s with outstanding := s.outstanding ++ [m], handed := s.handed ++ [m] }

def pushBack (s : ClientWriter) (text : String) : ClientWriter :=
  let m : ClientMessage := ⟨s.queued.length, text⟩
  { s with writeQueue := s.writeQueue ++ [m], queued := s.queued ++ [m] }

def enqueue (s : ClientWriter) (text : String) : ClientWriter :=
  let s' := s.pushBack text
  if s.writeInProgress then s' else { s' with writeInProgress := true }.doWrite

def onWritten (s : ClientWriter) (result : WriteResult) : ClientWriter :=
  let queue := s.writeQueue.tail
  let s' := { s with
    writeQueue := queue
    writeInProgress :=
      if result ≠ .success ∨ queue.isEmpty = true then false else s.writeInProgress }
  match result with
  | .failed => s'
  | _ => s'.doWrite

def next (s : ClientWriter) : ClientWriterEvent → Option ClientWriter
  | .handshaken => some { s with connected := true }
  | .readFailed => some { s with connected := false }
  | .sendText text => some (if s.connected then { s with sending := s.sending ++ [text] } else s)
  | .post i =>
      match s.sending[i]? with
      | none => none
      | some text =>
          some { s with sending := s.sending.eraseIdx i, posted := s.posted ++ [text] }
  | .runPosted i =>
      match s.posted[i]? with
      | none => none
      | some text => some ({ s with posted := s.posted.eraseIdx i }.enqueue text)
  | .written i result =>
      match s.outstanding[i]? with
      | none => none
      | some _ => some ({ s with outstanding := s.outstanding.eraseIdx i }.onWritten result)
  | .initIo =>
      -- The old stream and what was posted to its context are gone.
      some { s with
        connected := false
        posted := []
        outstanding := []
        writeQueue := []
        writeInProgress := false }

def machine : Machine ClientWriter ClientWriterEvent Unit where
  init s := s = start
  next s e := (s.next e).map fun t => (t, ())

/-! ## The discipline -/

/-- At most one write is outstanding, `m_writeInProgress` is true while one is, and the
messages handed to `async_write` are messages of the queue in their order, none twice. -/
structure SingleWriter (s : ClientWriter) : Prop where
  one : s.outstanding.length ≤ 1
  flagged : s.outstanding ≠ [] → s.writeInProgress = true
  inOrder : s.handed.Sublist s.queued
  numbered : s.queued.map (·.serial) = List.range s.queued.length

/-- The completion handler is given `operation_aborted` while further messages wait. -/
def AbortsWithMore (s : ClientWriter) (e : ClientWriterEvent) : Prop :=
  e.isAborted = true ∧ 1 < s.writeQueue.length

instance (s : ClientWriter) (e : ClientWriterEvent) : Decidable (s.AbortsWithMore e) :=
  inferInstanceAs (Decidable (_ ∧ _))

/-- The messages of the queue that no outstanding write has. -/
def waiting (s : ClientWriter) : List ClientMessage :=
  if s.writeInProgress then s.writeQueue.tail else s.writeQueue

structure Disciplined (s : ClientWriter) : Prop where
  busy : s.writeInProgress = true → s.writeQueue ≠ []
  front : s.outstanding = if s.writeInProgress then s.writeQueue.take 1 else []
  inOrder : (s.handed ++ s.waiting).Sublist s.queued
  numbered : s.queued.map (·.serial) = List.range s.queued.length

theorem Disciplined.singleWriter {s : ClientWriter} (inv : s.Disciplined) : s.SingleWriter := by
  refine ⟨?_, ?_, (List.sublist_append_left _ _).trans inv.inOrder, inv.numbered⟩
  · rw [inv.front]
    split
    · rw [List.length_take]
      omega
    · simp
  · intro some
    by_contra idle
    exact some (by rw [inv.front, if_neg idle])

theorem disciplined_start : start.Disciplined := by
  constructor <;> simp [start, waiting]

/-! ### Steps -/

/-- A write starts with none outstanding and the flag set, or there is nothing to write. -/
theorem disciplined_doWrite {s : ClientWriter} (none : s.outstanding = [])
    (flag : s.writeQueue ≠ [] → s.writeInProgress = true)
    (order : (s.handed ++ s.writeQueue).Sublist s.queued)
    (numbered : s.queued.map (·.serial) = List.range s.queued.length) : s.doWrite.Disciplined := by
  unfold doWrite
  cases queue : s.writeQueue with
  | nil =>
      rw [queue] at order
      constructor <;> simp_all [waiting]
  | cons m rest =>
      have set := flag (by simp [queue])
      rw [queue] at order
      constructor <;> simp_all [waiting]

theorem numbered_pushBack {s : ClientWriter} (text : String)
    (numbered : s.queued.map (·.serial) = List.range s.queued.length) :
    (s.pushBack text).queued.map (·.serial) = List.range (s.pushBack text).queued.length := by
  simp [pushBack, numbered, List.range_succ]

theorem Disciplined.enqueue {s : ClientWriter} (inv : s.Disciplined) (text : String) :
    (s.enqueue text).Disciplined := by
  have numbered := numbered_pushBack text inv.numbered
  have order := inv.inOrder.append (List.Sublist.refl [(⟨s.queued.length, text⟩ : ClientMessage)])
  unfold ClientWriter.enqueue
  by_cases set : s.writeInProgress = true
  · have some := inv.busy set
    have front := inv.front
    rw [if_pos set] at front ⊢
    rw [waiting, if_pos set, List.append_assoc] at order
    refine ⟨fun _ => by simp [pushBack], ?_, ?_, numbered⟩
    · simp only [pushBack, set, if_true, front]
      rw [List.take_append_of_le_length (List.length_pos_iff.mpr some)]
    · simp only [pushBack, waiting, set, if_true]
      rwa [List.tail_append_of_ne_nil some]
  · have front := inv.front
    rw [if_neg set] at front ⊢
    rw [waiting, if_neg set, List.append_assoc] at order
    exact disciplined_doWrite front (fun _ => rfl) order numbered

/-- An outstanding write is the only one, and it has the front of the queue. -/
theorem Disciplined.of_outstanding {s : ClientWriter} {i : Nat} {m : ClientMessage}
    (inv : s.Disciplined) (at_i : s.outstanding[i]? = some m) :
    s.writeInProgress = true ∧ s.outstanding.eraseIdx i = [] ∧
      ∃ rest, s.writeQueue = m :: rest ∧ (s.handed ++ rest).Sublist s.queued := by
  have set : s.writeInProgress = true := by
    by_contra idle
    simp [inv.front, if_neg idle] at at_i
  have front := inv.front
  have order := inv.inOrder
  rw [waiting, if_pos set] at order
  rw [if_pos set] at front
  cases queue : s.writeQueue with
  | nil => exact absurd queue (inv.busy set)
  | cons x rest =>
      rw [queue, List.take_succ_cons, List.take_zero] at front
      rw [front] at at_i
      obtain ⟨rfl, rfl⟩ : i = 0 ∧ x = m := by
        cases i with
        | zero => simpa using at_i
        | succ i => simp at at_i
      rw [queue, List.tail_cons] at order
      exact ⟨set, by simp [front], rest, rfl, order⟩

/-- The handler of a write that is not aborted with more to write. -/
theorem Disciplined.onWritten {s : ClientWriter} {i : Nat} {m : ClientMessage} {result : WriteResult}
    (inv : s.Disciplined) (at_i : s.outstanding[i]? = some m)
    (last : result = .aborted → s.writeQueue.length ≤ 1) :
    ({ s with outstanding := s.outstanding.eraseIdx i }.onWritten result).Disciplined := by
  obtain ⟨set, none, rest, queue, order⟩ := inv.of_outstanding at_i
  cases result with
  | success =>
      refine disciplined_doWrite none ?_ (by simpa [queue] using order) inv.numbered
      intro more
      simpa [queue, set] using more
  | aborted =>
      have empty : rest = [] := by simpa [queue] using last rfl
      refine disciplined_doWrite none ?_ (by simpa [queue] using order) inv.numbered
      intro more
      simp [queue, empty] at more
  | failed =>
      simp only [ClientWriter.onWritten, queue, List.tail_cons]
      exact ⟨by simp, by simp [none], by simpa [waiting] using order, inv.numbered⟩

/-- An aborted write with more to write starts the next one with the flag cleared. -/
theorem Disciplined.not_singleWriter_of_abort {s : ClientWriter} {i : Nat} {m : ClientMessage}
    (inv : s.Disciplined) (at_i : s.outstanding[i]? = some m) (more : 1 < s.writeQueue.length) :
    ¬ ({ s with outstanding := s.outstanding.eraseIdx i }.onWritten .aborted).SingleWriter := by
  obtain ⟨_, none, rest, queue, _⟩ := inv.of_outstanding at_i
  intro single
  cases rest with
  | nil => simp [queue] at more
  | cons m' rest =>
      have flag := single.flagged
      simp [ClientWriter.onWritten, doWrite, queue, none] at flag

theorem Disciplined.of_eq {s t : ClientWriter} (inv : s.Disciplined)
    (queue : t.writeQueue = s.writeQueue) (flag : t.writeInProgress = s.writeInProgress)
    (outstanding : t.outstanding = s.outstanding) (queued : t.queued = s.queued)
    (handed : t.handed = s.handed) : t.Disciplined := by
  refine ⟨?_, ?_, ?_, ?_⟩
  · rw [flag, queue]
    exact inv.busy
  · rw [outstanding, flag, queue]
    exact inv.front
  · rw [waiting, handed, flag, queue, queued]
    exact inv.inOrder
  · rw [queued]
    exact inv.numbered

theorem next_of_machine {s t : ClientWriter} {e : ClientWriterEvent} {o : Unit}
    (h : machine.next s e = some (t, o)) : s.next e = some t := by
  obtain ⟨u, next, same⟩ := Option.map_eq_some_iff.mp h
  cases same
  exact next

theorem Disciplined.step {s t : ClientWriter} {e : ClientWriterEvent} (inv : s.Disciplined)
    (guard : ¬ s.AbortsWithMore e) (h : s.next e = some t) : t.Disciplined := by
  cases e with
  | handshaken =>
      cases h
      exact inv.of_eq rfl rfl rfl rfl rfl
  | readFailed =>
      cases h
      exact inv.of_eq rfl rfl rfl rfl rfl
  | sendText text =>
      cases h
      split
      · exact inv.of_eq rfl rfl rfl rfl rfl
      · exact inv
  | post i =>
      simp only [next] at h
      split at h
      · cases h
      · cases h
        exact inv.of_eq rfl rfl rfl rfl rfl
  | runPosted i =>
      simp only [next] at h
      split at h
      · cases h
      · cases h
        have kept : { s with posted := s.posted.eraseIdx i }.Disciplined := inv.of_eq rfl rfl rfl rfl rfl
        exact kept.enqueue _
  | written i result =>
      simp only [next] at h
      split at h
      · cases h
      · next at_i =>
          cases h
          refine inv.onWritten at_i ?_
          rintro rfl
          exact Nat.not_lt.mp fun more => guard ⟨rfl, more⟩
  | initIo =>
      cases h
      refine ⟨by simp, by simp, ?_, inv.numbered⟩
      simpa [waiting] using (List.sublist_append_left _ _).trans inv.inOrder

end ClientWriter

/-- The discipline is kept all along a run if and only if no write is aborted while
further messages wait. -/
theorem client_single_writer {ts : List (Transition ClientWriter ClientWriterEvent Unit)}
    {s : ClientWriter} (run : ClientWriter.machine.Run .start ts s) :
    (∀ v, Machine.Visits .start ts v → v.SingleWriter) ↔
      ∀ t ∈ ts, ¬ t.before.AbortsWithMore t.event := by
  refine run.always_iff_guard (I := ClientWriter.Disciplined) (P := ClientWriter.SingleWriter)
    (G := fun s e => ¬ s.AbortsWithMore e) ClientWriter.disciplined_start ?_ ?_ ?_
  · intro s e t o inv guard h
    exact inv.step guard (ClientWriter.next_of_machine h)
  · intro s inv
    exact inv.singleWriter
  · intro s e t o inv bad h
    obtain ⟨aborted, more⟩ := not_not.mp bad
    replace h := ClientWriter.next_of_machine h
    unfold ClientWriterEvent.isAborted at aborted
    split at aborted
    · next i =>
        simp only [ClientWriter.next] at h
        split at h
        · cases h
        · next at_i =>
            cases h
            exact inv.not_singleWriter_of_abort at_i more
    · cases aborted

/-- Two messages, the first write completes, the second is aborted with nothing left, and a
third message follows. -/
def twoWritesEvents : List ClientWriterEvent :=
  [.handshaken, .sendText "a", .post 0, .sendText "b", .post 0, .runPosted 0, .runPosted 0,
    .written 0 .success, .written 0 .aborted, .sendText "c", .post 0, .runPosted 0]

theorem client_single_writer_twoWrites :
    ∃ ts s, ClientWriter.machine.exec .start twoWritesEvents = some (ts, s) ∧
    s.handed.map (·.text) = ["a", "b", "c"] ∧ ∀ v, Machine.Visits .start ts v → v.SingleWriter := by
  have h : ClientWriter.machine.exec .start twoWritesEvents = some (_, _) := rfl
  refine ⟨_, _, h, rfl, (client_single_writer (Machine.Run.of_exec h)).mpr ?_⟩
  decide

/-- A message waits behind a write that is aborted: the handler clears the flag and
starts the next write, and the lambda of a third message starts one more of the same
front. -/
def abortedWriteEvents : List ClientWriterEvent :=
  [.handshaken, .sendText "a", .post 0, .sendText "b", .post 0, .runPosted 0, .runPosted 0,
    .written 0 .aborted, .sendText "c", .post 0, .runPosted 0]

theorem client_two_writers_aborted : ∃ ts s,
    ClientWriter.machine.exec .start abortedWriteEvents = some (ts, s) ∧
    s.outstanding.map (·.text) = ["b", "b"] ∧ s.handed.map (·.text) = ["a", "b", "b"] ∧
      ¬ s.SingleWriter := by
  refine ⟨_, _, rfl, rfl, rfl, ?_⟩
  intro single
  exact absurd single.one (by decide)

end Rtl.Ws
