import Mathlib.Data.List.Nodup
import Rtl.Stp.Timer

/-! # Every wait is delivered once

The record of a run has the waits that were accepted, those a `cancel` was accepted
for, those a shutdown has dropped and the handlers submitted to the executor. An
accepted wait is pending, in the hand of the loop, submitted or dropped, and it is
submitted as cancelled exactly if a cancellation was accepted while it was pending.
-/

namespace Rtl.Stp

open Rtl.Base

structure TimerRecord where
  accepted : List (Nat × Bool)
  cancelled : List Nat
  dropped : List Nat
  submitted : List (Nat × TimerResult)
  deriving Repr, DecidableEq

namespace TimerRecord

def note (r : TimerRecord) : TimerOutput → TimerRecord
  | .waiting k callable => { r with accepted := r.accepted ++ [(k, callable)] }
  | .cancelling k => { r with cancelled := r.cancelled ++ [k] }
  | .stopped (some k) => { r with dropped := r.dropped ++ [k] }
  | .submitted k result _ => { r with submitted := r.submitted ++ [(k, result)] }
  | _ => r

def ofRun (ts : List (Transition RtlTimer TimerEvent TimerOutput)) : TimerRecord :=
  ts.foldl (fun r t => r.note t.output) ⟨[], [], [], []⟩

theorem ofRun_snoc (ts : List (Transition RtlTimer TimerEvent TimerOutput))
    (t : Transition RtlTimer TimerEvent TimerOutput) :
    ofRun (ts ++ [t]) = (ofRun ts).note t.output := by
  simp [ofRun]

end TimerRecord

namespace RtlTimer

variable {s u : RtlTimer} {r : TimerRecord} {e : TimerEvent} {o : TimerOutput}

def inHand (s : RtlTimer) : List (Nat × TimerResult) :=
  match s.loop with
  | .dispatching _ (some k) result => [(k, result)]
  | _ => []

theorem AtWait.inHand_eq (atWait : s.AtWait) : s.inHand = [] := by
  rcases atWait with outer | ⟨deadline, version, inner⟩
  · simp [inHand, outer]
  · simp [inHand, inner]

theorem AtWait.ne_returned (atWait : s.AtWait) : s.loop ≠ .returned := by
  rcases atWait with outer | ⟨deadline, version, inner⟩
  · simp [outer]
  · simp [inner]

def taken (r : TimerRecord) (s : RtlTimer) : List (Nat × TimerResult) := r.submitted ++ s.inHand

structure Ledger (r : TimerRecord) (s : RtlTimer) : Prop where
  numbered : r.accepted.map Prod.fst = List.range s.accepted
  started : s.loop = .returned ∨ s.executor = true
  current : s.pending = true → ∃ callable, (s.last, callable) ∈ r.accepted ∧
    s.handler = if callable then some s.last else none
  fresh : s.pending = true → s.last ∉ (taken r s).map Prod.fst
  asked : s.pending = true → (s.cancelRequested = true ↔ s.last ∈ r.cancelled)
  cancelled_lt : ∀ k ∈ r.cancelled, k < s.accepted
  once : ((taken r s).map Prod.fst).Nodup
  outcome : ∀ k result, (k, result) ∈ taken r s →
    (k, true) ∈ r.accepted ∧ (result = .cancelled ↔ k ∈ r.cancelled)
  settled : ∀ k, (k, true) ∈ r.accepted →
    k ∈ (taken r s).map Prod.fst ∨ (s.pending = true ∧ s.last = k) ∨ k ∈ r.dropped

/-! ## What an accepted wait is known by -/

theorem Ledger.accepted_lt (ledger : Ledger r s) {k : Nat} {callable : Bool}
    (mem : (k, callable) ∈ r.accepted) : k < s.accepted := by
  have number := List.mem_map_of_mem (f := Prod.fst) mem
  rw [ledger.numbered] at number
  exact List.mem_range.mp number

theorem Ledger.taken_lt (ledger : Ledger r s) {k : Nat} (mem : k ∈ (taken r s).map Prod.fst) :
    k < s.accepted := by
  obtain ⟨⟨n, result⟩, found, rfl⟩ := List.mem_map.mp mem
  exact ledger.accepted_lt (ledger.outcome n result found).1

theorem Ledger.callable_unique (ledger : Ledger r s) {k : Nat} {a b : Bool}
    (ha : (k, a) ∈ r.accepted) (hb : (k, b) ∈ r.accepted) : a = b := by
  have nodup : (r.accepted.map Prod.fst).Nodup := by
    rw [ledger.numbered]
    exact List.nodup_range
  have same := List.inj_on_of_nodup_map nodup ha hb rfl
  exact congrArg Prod.snd same

/-! ## One step -/

/-- Without a pending wait three of the facts are void. -/
theorem Ledger.of_idle (idle : s.pending = false)
    (numbered : r.accepted.map Prod.fst = List.range s.accepted)
    (started : s.loop = .returned ∨ s.executor = true) (cancelled_lt : ∀ k ∈ r.cancelled, k < s.accepted)
    (once : ((taken r s).map Prod.fst).Nodup)
    (outcome : ∀ k result, (k, result) ∈ taken r s →
      (k, true) ∈ r.accepted ∧ (result = .cancelled ↔ k ∈ r.cancelled))
    (settled : ∀ k, (k, true) ∈ r.accepted → k ∈ (taken r s).map Prod.fst ∨ k ∈ r.dropped) :
    Ledger r s := by
  have never : s.pending ≠ true := by simp [idle]
  refine ⟨numbered, started, fun h => absurd h never, fun h => absurd h never,
    fun h => absurd h never, cancelled_lt, once, outcome, ?_⟩
  intro k mem
  exact (settled k mem).imp_right .inr

theorem Ledger.start (now : Int) (executor : Bool) :
    Ledger ⟨[], [], [], []⟩ (.start now executor) := by
  have none : taken ⟨[], [], [], []⟩ (.start now executor) = [] := by cases executor <;> rfl
  apply Ledger.of_idle rfl
  · rfl
  · cases executor <;> simp [RtlTimer.start]
  · simp
  · simp [none]
  · simp [none]
  · simp

/-- A step that concerns neither the waits nor the handler in hand. -/
theorem Ledger.quiet (ledger : Ledger r s) (pending : u.pending = s.pending)
    (cancelRequested : u.cancelRequested = s.cancelRequested) (handler : u.handler = s.handler)
    (accepted : u.accepted = s.accepted) (inHand : u.inHand = s.inHand)
    (started : u.loop = .returned ∨ u.executor = true) : Ledger r u := by
  have last : u.last = s.last := by simp only [RtlTimer.last, accepted]
  have taken : taken r u = taken r s := by simp only [RtlTimer.taken, inHand]
  obtain ⟨numbered, _, current, fresh, asked, cancelled_lt, once, outcome, settled⟩ := ledger
  constructor
  · rw [numbered, accepted]
  · exact started
  · rwa [pending, last, handler]
  · rwa [pending, last, taken]
  · rwa [pending, last, cancelRequested]
  · rwa [accepted]
  · rwa [taken]
  · rwa [taken]
  · rwa [pending, last, taken]

theorem Ledger.wait (ledger : Ledger r s) (free : s.pending = false) (callable : Bool)
    (version : Nat) :
    Ledger (r.note (.waiting s.accepted callable)) { s with
      handler := if callable then some s.accepted else none
      pending := true
      cancelRequested := false
      version := version
      accepted := s.accepted + 1 } where
  numbered := by
    simp only [TimerRecord.note, List.map_append, ledger.numbered, List.map_cons, List.map_nil,
      List.range_succ]
  started := ledger.started
  current _ := ⟨callable, by simp [TimerRecord.note, last], by simp [last]⟩
  fresh _ := by
    intro mem
    exact absurd (ledger.taken_lt mem) (Nat.lt_irrefl s.accepted)
  asked _ := by
    constructor
    · intro asked
      cases asked
    · intro mem
      exact absurd (ledger.cancelled_lt s.accepted mem) (Nat.lt_irrefl s.accepted)
  cancelled_lt k mem := Nat.lt_succ_of_lt (ledger.cancelled_lt k mem)
  once := ledger.once
  outcome k result mem := by
    obtain ⟨accepted, iff⟩ := ledger.outcome k result mem
    exact ⟨List.mem_append_left _ accepted, iff⟩
  settled k mem := by
    rcases List.mem_append.mp mem with old | new
    · rcases ledger.settled k old with done | ⟨pending, _⟩ | gone
      · exact .inl done
      · simp [free] at pending
      · exact .inr (.inr gone)
    · right; left
      simp only [List.mem_singleton, Prod.mk.injEq] at new
      exact ⟨rfl, by simp [last, new.1]⟩

theorem Ledger.cancel (ledger : Ledger r s) (pending : s.pending = true) (version : Nat) :
    Ledger (r.note (.cancelling s.last)) { s with
      cancelRequested := true
      version := version } where
  numbered := ledger.numbered
  started := ledger.started
  current := ledger.current
  fresh := ledger.fresh
  asked _ := by
    simp only [TimerRecord.note, true_iff]
    exact List.mem_append_right _ List.mem_cons_self
  cancelled_lt k mem := by
    rcases List.mem_append.mp mem with old | new
    · exact ledger.cancelled_lt k old
    · rw [List.mem_singleton.mp new]
      obtain ⟨callable, accepted, _⟩ := ledger.current pending
      exact ledger.accepted_lt accepted
  once := ledger.once
  outcome k result mem := by
    obtain ⟨accepted, iff⟩ := ledger.outcome k result mem
    -- what was taken before is not the pending wait
    have other : k ≠ s.last := by
      rintro rfl
      exact ledger.fresh pending (List.mem_map_of_mem (f := Prod.fst) mem)
    refine ⟨accepted, iff.trans ?_⟩
    simp [TimerRecord.note, other]
  settled := ledger.settled

/-- A shutdown drops what is pending. -/
theorem Ledger.stop (ledger : Ledger r s) (version : Nat) :
    Ledger (r.note (.stopped (if s.pending then some s.last else none))) { s with
      stopping := true
      pending := false
      handler := none
      version := version } := by
  cases pending : s.pending with
  | true =>
      refine Ledger.of_idle rfl ledger.numbered ledger.started ledger.cancelled_lt ledger.once
        ledger.outcome ?_
      intro k mem
      rcases ledger.settled k mem with done | ⟨_, rfl⟩ | gone
      · exact .inl done
      · exact .inr (List.mem_append_right _ List.mem_cons_self)
      · exact .inr (List.mem_append_left _ gone)
  | false =>
      refine Ledger.of_idle rfl ledger.numbered ledger.started ledger.cancelled_lt ledger.once
        ledger.outcome ?_
      intro k mem
      rcases ledger.settled k mem with done | ⟨still, _⟩ | gone
      · exact .inl done
      · simp [pending] at still
      · exact .inr gone

/-- The loop takes the pending wait; an empty handler is gone with that. -/
theorem Ledger.select (ledger : Ledger r s) {result : TimerResult} (h : s.Selects result) :
    Ledger r { s with
      pending := false
      cancelRequested := false
      handler := none
      loop := .dispatching s.last s.handler result } := by
  obtain ⟨callable, accepted, handler⟩ := ledger.current h.pending
  have started : s.executor = true := ledger.started.resolve_left h.atWait.ne_returned
  have before : taken r s = r.submitted := by simp [taken, h.atWait.inHand_eq]
  have fresh := ledger.fresh h.pending
  have once := ledger.once
  have outcome := ledger.outcome
  have settled := ledger.settled
  rw [before] at fresh once outcome settled
  cases callable with
  | true =>
      have after : ∀ v : RtlTimer, v.loop = .dispatching s.last s.handler result →
          taken r v = r.submitted ++ [(s.last, result)] := by
        intro v loop
        simp [taken, inHand, loop, handler]
      refine Ledger.of_idle rfl ledger.numbered (.inr started) ledger.cancelled_lt ?_ ?_ ?_
      · rw [after _ rfl, List.map_append, List.nodup_append]
        refine ⟨once, by simp, ?_⟩
        rintro k old n new rfl
        simp only [List.map_cons, List.map_nil, List.mem_singleton] at new
        exact fresh (new ▸ old)
      · rw [after _ rfl]
        intro k res mem
        rcases List.mem_append.mp mem with old | new
        · exact outcome k res old
        · cases List.mem_singleton.mp new
          exact ⟨accepted, h.cancelled.trans (ledger.asked h.pending)⟩
      · rw [after _ rfl]
        intro k mem
        rw [List.map_append, List.mem_append]
        rcases settled k mem with done | ⟨_, rfl⟩ | gone
        · exact .inl (.inl done)
        · exact .inl (.inr (by simp))
        · exact .inr gone
  | false =>
      have after : ∀ v : RtlTimer, v.loop = .dispatching s.last s.handler result →
          taken r v = r.submitted := by
        intro v loop
        simp [taken, inHand, loop, handler]
      refine Ledger.of_idle rfl ledger.numbered (.inr started) ledger.cancelled_lt ?_ ?_ ?_
      · rw [after _ rfl]
        exact once
      · rw [after _ rfl]
        exact outcome
      · rw [after _ rfl]
        intro k mem
        rcases settled k mem with done | ⟨_, rfl⟩ | gone
        · exact .inl done
        · cases ledger.callable_unique accepted mem
        · exact .inr gone

/-- Submitting moves the handler from the hand of the loop to the executor. -/
theorem Ledger.submit (ledger : Ledger r s) {wait k : Nat} {result : TimerResult} {loop : TimerLoop}
    (at_hand : s.loop = .dispatching wait (some k) result)
    (place : loop = .outer ∨ loop = .returned) (answer : SubmitAnswer) :
    Ledger (r.note (.submitted k result answer)) { s with loop := loop } := by
  have started : s.executor = true := by simpa [at_hand] using ledger.started
  have same : taken (r.note (.submitted k result answer)) { s with loop := loop } = taken r s := by
    rcases place with rfl | rfl <;> simp [taken, inHand, at_hand, TimerRecord.note]
  obtain ⟨numbered, _, current, fresh, asked, cancelled_lt, once, outcome, settled⟩ := ledger
  rw [← same] at fresh once outcome settled
  exact ⟨numbered, .inr started, current, fresh, asked, cancelled_lt, once, outcome, settled⟩

theorem Ledger.step (ledger : Ledger r s) (h : Step s e o u) : Ledger (r.note o) u := by
  cases h with
  | expires => exact ledger.quiet rfl rfl rfl rfl rfl ledger.started
  | waits _ free => exact ledger.wait free _ _
  | refuses => exact ledger
  | cancels pending => exact ledger.cancel pending _
  | notPending => exact ledger
  | stops => exact ledger.stop _
  | stopped => exact ledger
  | ticks => exact ledger.quiet rfl rfl rfl rfl rfl ledger.started
  | stays => exact ledger
  | leaves atWait place =>
      refine ledger.quiet rfl rfl rfl rfl ?_ ?_
      · rw [atWait.inHand_eq]
        rcases place with rfl | rfl <;> rfl
      · exact .inr (ledger.started.resolve_left atWait.ne_returned)
  | parks atWait =>
      refine ledger.quiet rfl rfl rfl rfl ?_ ?_
      · rw [atWait.inHand_eq]
        rfl
      · exact .inr (ledger.started.resolve_left atWait.ne_returned)
  | selects h => exact ledger.select h
  | submits at_hand place => exact ledger.submit at_hand place _
  | skips at_hand nothing =>
      have started : s.executor = true := by simpa [at_hand] using ledger.started
      have empty := nothing.resolve_right (by simp [started])
      refine ledger.quiet rfl rfl rfl rfl ?_ ?_
      · simp [inHand, at_hand, empty]
      · exact .inr started

end RtlTimer

/-! ## Whole runs -/

/-- Waits are numbered in the order of their acceptance. A handler is submitted at most
once, as cancelled exactly if a cancellation of its wait was accepted. A wait with a
handler that was not submitted is pending, in the hand of the loop, or was dropped by
a shutdown. -/
structure DeliversOnce (r : TimerRecord) (s : RtlTimer) : Prop where
  numbered : r.accepted.map Prod.fst = List.range s.accepted
  once : (r.submitted.map Prod.fst).Nodup
  outcome : ∀ k result, (k, result) ∈ r.submitted →
    (k, true) ∈ r.accepted ∧ (result = .cancelled ↔ k ∈ r.cancelled)
  settled : ∀ k, (k, true) ∈ r.accepted → k ∉ r.submitted.map Prod.fst →
    (s.pending = true ∧ s.last = k) ∨
    (∃ wait result, s.loop = .dispatching wait (some k) result) ∨ k ∈ r.dropped

theorem RtlTimer.Ledger.deliversOnce {r : TimerRecord} {s : RtlTimer} (ledger : Ledger r s) :
    DeliversOnce r s where
  numbered := ledger.numbered
  once := by
    have once := ledger.once
    rw [taken, List.map_append] at once
    exact (List.nodup_append.mp once).1
  outcome k result mem := ledger.outcome k result (List.mem_append_left _ mem)
  settled k mem unsubmitted := by
    rcases ledger.settled k mem with done | pending | gone
    · rw [taken, List.map_append, List.mem_append] at done
      have hand := done.resolve_left unsubmitted
      right; left
      unfold inHand at hand
      split at hand
      · rename_i wait n result loop
        simp only [List.map_cons, List.map_nil, List.mem_singleton] at hand
        exact ⟨wait, result, hand ▸ loop⟩
      · simp at hand
    · exact .inl pending
    · exact .inr (.inr gone)

/-- Every wait of every run is delivered at most once and with the right result, and
nothing is selected once the timer is stopping. -/
theorem timer_delivers_each_wait_once {s₀ s : RtlTimer}
    {ts : List (Transition RtlTimer TimerEvent TimerOutput)} (init : timerMachine.init s₀)
    (run : timerMachine.Run s₀ ts s) :
    DeliversOnce (.ofRun ts) s ∧
    ∀ t ∈ ts, ∀ k result, t.output = .selected k result → t.before.stopping = false := by
  constructor
  · obtain ⟨now, executor, rfl⟩ := init
    have ledger := run.history (H := fun ts s => RtlTimer.Ledger (.ofRun ts) s)
      (RtlTimer.Ledger.start now executor) <| by
        intro ts s e t o ledger h
        rw [TimerRecord.ofRun_snoc]
        exact ledger.step (RtlTimer.step_of_next h)
    exact ledger.deliversOnce
  · intro t ht k result selected
    obtain ⟨_, _, _, takes⟩ := run.mem_prefix ht
    have step := RtlTimer.step_of_next takes
    rw [selected] at step
    exact step.of_selected.alive

/-- The first wait is cancelled, the second one expires, and the third one is dropped. -/
def threeWaits : List TimerEvent :=
  [.asyncWait true, .look, .cancel, .wake false, .dispatch .posted, .asyncWait true, .look, .wake true,
    .dispatch .posted, .asyncWait true, .shutdown]

theorem threeWaits_delivered :
    ∃ ts s, timerMachine.exec (.start 0 true) threeWaits = some (ts, s) ∧
      (TimerRecord.ofRun ts).submitted = [(0, .cancelled), (1, .expired)] ∧
      (TimerRecord.ofRun ts).dropped = [2] ∧ DeliversOnce (.ofRun ts) s := by
  have h : timerMachine.exec (.start 0 true) threeWaits = some (_, _) := rfl
  refine ⟨_, _, h, rfl, rfl, ?_⟩
  exact (timer_delivers_each_wait_once ⟨0, true, rfl⟩ (Machine.Run.of_exec h)).1

/-- A wait that is not submitted need not be pending or dropped: the loop has it in its
hand between the release of the lock and the submission, and it lets go of an empty
handler without submitting it, even after an accepted cancellation. -/
theorem unsubmitted_wait_neither_pending_nor_dropped :
    (∃ ts s, timerMachine.exec (.start 0 true) [.asyncWait true, .look, .wake true] = some (ts, s) ∧
      TimerRecord.ofRun ts = ⟨[(0, true)], [], [], []⟩ ∧ s.pending = false) ∧
    ∃ ts s, timerMachine.exec (.start 0 true)
        [.asyncWait false, .look, .cancel, .wake false, .dispatch .posted] = some (ts, s) ∧
      TimerRecord.ofRun ts = ⟨[(0, false)], [0], [], []⟩ ∧ s.pending = false ∧ s.loop = .outer :=
  ⟨⟨_, _, rfl, rfl, rfl⟩, _, _, rfl, rfl, rfl, rfl⟩

end Rtl.Stp
