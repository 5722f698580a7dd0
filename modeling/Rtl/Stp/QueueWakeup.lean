import Rtl.Stp.Queue

/-! # Wake-ups of blocked producers

A producer that waits for room relies on a notification from whoever makes room.
`tryTake` and `close` send one; `take`, `clear` and `set_queue_max_size` do not,
and the wait predicate stays false when the bound becomes 0. The invariant counts
free places against signals under way. It survives every step but those that make
room silently while a producer is parked.
-/

namespace Rtl.Stp

open Rtl.Base

variable {κ α τ : Type*}

namespace QueueState

/-- A notification on `m_notFull` is owed by an operation in progress, or a
notified producer has not yet taken the mutex again. -/
def NotFullSignalled (s : QueueState κ α τ) : Prop :=
  0 < s.owedNotFull ∨ 0 < s.closingNotEmpty ∨ 0 < s.closingNotFull ∨ s.notFull.notified ≠ []

/-- No producer is parked without a signal under way while the queue has room. -/
def NoLostProducer (c : Container κ α) (s : QueueState κ α τ) : Prop :=
  s.notFull.parked ≠ [] → s.queue.Admits c → s.NotFullSignalled

/-- The step makes room without a notification while a producer needs one: an
item removed by `take`, a `clear`, a raised bound, or the bound 0, under which no
waiting producer finds its predicate true. -/
def MakesRoomSilently (c : Container κ α) (s : QueueState κ α τ) : QueueEvent α τ → Prop
  | .take _ =>
      s.notFull.parked ≠ [] ∧ 0 < c.size s.queue.buffer ∧ c.size s.queue.buffer ≤ s.queue.maxQueueSize
  | .takerResumes cause k _ =>
      (∃ t cv, s.notEmpty.resume cause k = some (t, cv) ∧ t.deprecated = true) ∧
      s.notFull.parked ≠ [] ∧ 0 < c.size s.queue.buffer ∧ c.size s.queue.buffer ≤ s.queue.maxQueueSize
  | .clear => s.notFull.parked ≠ [] ∧ 0 < c.size s.queue.buffer
  | .setQueueMaxSize n =>
      (s.notFull.parked ≠ [] ∧ s.queue.maxQueueSize < n ∧ c.size s.queue.buffer < n) ∨
      (s.notFull.waiting ≠ [] ∧ n = 0)
  | _ => False

def Signals (c : Container κ α) (s : QueueState κ α τ) (e : QueueEvent α τ) : Prop :=
  s.queue.state = .opened → ¬ s.MakesRoomSilently c e

/-- While the queue is open, its free places are covered by signals under way as
soon as one producer is parked, up to a slack for a producer that has just left
the notified ones; once it is closing, a `close` still has to notify. -/
structure WakeInv (c : Container κ α) (slack : Nat) (s : QueueState κ α τ) : Prop where
  bounded : s.queue.state = .opened → 0 < s.notFull.waiting.length → s.queue.maxQueueSize ≠ 0
  covered : s.queue.state = .opened → 0 < s.notFull.parked.length →
    s.queue.maxQueueSize - c.size s.queue.buffer ≤
      s.owedNotFull + s.notFull.notified.length + slack
  closing : s.queue.state = .closing → 0 < s.notFull.parked.length →
    0 < s.closingNotEmpty + s.closingNotFull

variable {c : Container κ α} {s t : QueueState κ α τ} {o : QueueOutput α τ}

theorem waiting_length (cv : CondVar (Producer α)) :
    cv.waiting.length = cv.parked.length + (cv.notified.length + cv.woken.length) := by
  simp [CondVar.waiting]

theorem WakeInv.noLostProducer (inv : s.WakeInv c 0) : s.NoLostProducer c := by
  intro parked admits
  have some : 0 < s.notFull.parked.length := List.length_pos_iff.mpr parked
  have waits := waiting_length s.notFull
  cases hs : s.queue.state with
  | opened =>
      have hmax := inv.bounded hs (by omega)
      have cover := inv.covered hs some
      have room : c.size s.queue.buffer < s.queue.maxQueueSize := by
        rcases admits with h0 | hlt
        · exact absurd h0 hmax
        · exact hlt
      by_cases owed : 0 < s.owedNotFull
      · exact .inl owed
      · have notified : 0 < s.notFull.notified.length := by omega
        exact .inr (.inr (.inr (List.length_pos_iff.mp notified)))
  | closing =>
      have closers := inv.closing hs some
      by_cases first : 0 < s.closingNotEmpty
      · exact .inr (.inl first)
      · exact .inr (.inr (.inl (by omega)))

theorem wakeInv_start (bound : Nat) : (start (τ := τ) c bound).WakeInv c 0 := by
  constructor <;> intro _ h <;> simp [start, CondVar.empty, CondVar.waiting] at h

theorem WakeInv.mono (inv : s.WakeInv c 0) : s.WakeInv c 1 := by
  refine ⟨inv.bounded, ?_, inv.closing⟩
  intro hs parked
  have cover := inv.covered hs parked
  omega

/-- A push takes up the slack; any other decision is only taken in a closing
queue or at the bound, where there is nothing to cover. -/
theorem produce_wakeInv {p : Producer α} {pick : Nat} {a : Queue.Admission}
    (inv : s.WakeInv c 1)
    (stays : a ≠ .push →
      s.queue.state = .closing ∨ s.queue.maxQueueSize ≤ c.size s.queue.buffer)
    (wait : a = .wait → s.queue.state = .opened ∧ s.queue.maxQueueSize ≠ 0)
    (h : s.produce c p pick a = (t, o)) : t.WakeInv c 0 := by
  cases a with
  | push =>
      cases h
      refine ⟨inv.bounded, ?_, inv.closing⟩
      intro hs parked
      have cover := inv.covered hs parked
      show s.queue.maxQueueSize - c.size (c.push s.queue.buffer p.item) ≤
        s.owedNotFull + s.notFull.notified.length + 0
      rw [c.size_push]
      omega
  | wait =>
      obtain ⟨hs, hmax⟩ := wait rfl
      have full := stays (by decide)
      cases h
      refine ⟨fun _ _ => hmax, ?_, ?_⟩
      · intro _ _
        rw [hs] at full
        have atBound : s.queue.maxQueueSize ≤ c.size s.queue.buffer := by simpa using full
        show s.queue.maxQueueSize - c.size s.queue.buffer ≤ _
        omega
      · intro hc
        rw [show s.queue.state = .closing from hc] at hs
        cases hs
  | result code =>
      have full := stays (by intro h; cases h)
      cases h
      refine ⟨inv.bounded, ?_, inv.closing⟩
      intro hs _
      rw [hs] at full
      have atBound : s.queue.maxQueueSize ≤ c.size s.queue.buffer := by simpa using full
      omega

/-- A step that leaves producers, notifications and the free places alone, or has
fewer free places than before. -/
theorem WakeInv.of_le (inv : s.WakeInv c 0) (state : t.queue.state = s.queue.state)
    (notFull : t.notFull = s.notFull)
    (bound : 0 < s.notFull.waiting.length → s.queue.maxQueueSize ≠ 0 → t.queue.maxQueueSize ≠ 0)
    (free : s.queue.state = .opened → 0 < s.notFull.parked.length →
      t.queue.maxQueueSize - c.size t.queue.buffer + s.owedNotFull ≤
        s.queue.maxQueueSize - c.size s.queue.buffer + t.owedNotFull)
    (closers : s.closingNotEmpty + s.closingNotFull ≤ t.closingNotEmpty + t.closingNotFull) :
    t.WakeInv c 0 := by
  constructor
  · intro hs waits
    rw [state] at hs
    rw [notFull] at waits
    exact bound waits (inv.bounded hs waits)
  · intro hs parked
    rw [state] at hs
    rw [notFull] at parked ⊢
    have cover := inv.covered hs parked
    have less := free hs parked
    omega
  · intro hs parked
    rw [state] at hs
    rw [notFull] at parked
    have notify := inv.closing hs parked
    omega

/-- A consumer's step: `tryTake` owes a notification for the place it frees, and
`take` must not have freed one for a parked producer. -/
theorem consume_wakeInv {w : Taker τ} {r : Queue.Removal} (inv : s.WakeInv c 0)
    (silent : w.deprecated = true → s.queue.state = .opened → s.notFull.parked ≠ [] →
      0 < c.size s.queue.buffer → s.queue.maxQueueSize < c.size s.queue.buffer)
    (h : s.consume c w r = some (t, o)) : t.WakeInv c 0 := by
  cases r with
  | pop =>
      simp only [consume] at h
      cases hp : c.pop s.queue.buffer with
      | none => simp [hp] at h
      | some q =>
          simp only [hp] at h
          have size := c.size_pop hp
          cases h
          refine inv.of_le rfl rfl (fun _ hmax => hmax) ?_ (Nat.le_refl _)
          intro hs parked
          cases hd : w.deprecated with
          | true =>
              have surplus := silent hd hs (List.length_pos_iff.mp parked) (by omega)
              simp only [if_true]
              omega
          | false =>
              simp only [Bool.false_eq_true, if_false]
              omega
  | wait =>
      cases h
      exact ⟨inv.bounded, inv.covered, inv.closing⟩
  | result code =>
      cases h
      exact inv

theorem notifyNotFull_wakeInv (inv : s.WakeInv c 0) (pick : Nat) :
    ({ s with notFull := s.notFull.notifyOne pick
              owedNotFull := s.owedNotFull - 1 } : QueueState κ α τ).WakeInv c 0 := by
  have waits := (s.notFull.notifyOne_waiting pick).length_eq
  constructor
  · intro hs h
    exact inv.bounded hs (waits ▸ h)
  · intro hs h
    show s.queue.maxQueueSize - c.size s.queue.buffer ≤
      s.owedNotFull - 1 + (s.notFull.notifyOne pick).notified.length + 0
    rcases s.notFull.notifyOne_cases pick with ⟨none, same⟩ | ⟨p, rest, perm, moved⟩
    · simp only [same, none, List.length_nil] at h
      omega
    · have before := perm.length_eq
      have cover := inv.covered hs (by rw [before]; simp)
      rw [moved]
      simp only [List.length_append, List.length_singleton]
      omega
  · intro hs h
    have fewer : (s.notFull.notifyOne pick).parked.length ≤ s.notFull.parked.length := by
      rcases s.notFull.notifyOne_cases pick with ⟨_, same⟩ | ⟨p, rest, perm, moved⟩
      · rw [same]
      · rw [moved, perm.length_eq]
        simp
    exact inv.closing hs (Nat.lt_of_lt_of_le h fewer)

/-- Where the producers do not push, and where they park. -/
theorem put_stays (c : Container κ α) (q : Queue κ) (ne : q.put c ≠ .push) :
    q.put c ≠ .wait ∧ (q.state = .closing ∨ q.maxQueueSize ≤ c.size q.buffer) := by
  rcases Queue.put_cases (c := c) (q := q) _ rfl with ⟨hp, _⟩ | ⟨hp, hc⟩ | ⟨hp, _, full⟩
  · exact absurd hp ne
  · exact ⟨by rw [hp]; decide, .inl hc⟩
  · refine ⟨by rw [hp]; decide, .inr ?_⟩
    simp only [Queue.Admits] at full
    omega

theorem putWait_stays (c : Container κ α) (q : Queue κ) (ne : q.putWait c ≠ .push) :
    (q.putWait c = .wait → q.state = .opened ∧ q.maxQueueSize ≠ 0) ∧
    (q.state = .closing ∨ q.maxQueueSize ≤ c.size q.buffer) := by
  rcases Queue.putWait_cases (c := c) (q := q) _ rfl with ⟨hp, _⟩ | ⟨hp, hc⟩ | ⟨hp, hs, full⟩
  · exact absurd hp ne
  · refine ⟨?_, .inl hc⟩
    intro hw
    rw [hp] at hw
    cases hw
  · simp only [Queue.Admits] at full
    exact ⟨fun _ => ⟨hs, by omega⟩, .inr (by omega)⟩

theorem putWaitResumed_stays (c : Container κ α) (q : Queue κ) (timed timedOut : Bool)
    (ne : q.putWaitResumed c timed timedOut ≠ .push) :
    (q.putWaitResumed c timed timedOut = .wait → q.state = .opened) ∧
    (q.state = .closing ∨ q.maxQueueSize ≤ c.size q.buffer) := by
  rcases Queue.putWaitResumed_cases (c := c) (q := q) timed timedOut _ rfl with
    ⟨hp, _⟩ | ⟨hp, hc⟩ | ⟨_, hs, full⟩
  · exact absurd hp ne
  · refine ⟨?_, .inl hc⟩
    intro hw
    rw [hp] at hw
    cases hw
  · exact ⟨fun _ => hs, .inr full⟩

theorem putWait_wakeInv {p : Producer α} {pick : Nat} (inv : s.WakeInv c 0)
    (h : s.produce c p pick (s.queue.putWait c) = (t, o)) : t.WakeInv c 0 := by
  refine produce_wakeInv inv.mono ?_ ?_ h
  · intro ne
    exact (putWait_stays c s.queue ne).2
  · intro hw
    exact (putWait_stays c s.queue (by rw [hw]; decide)).1 hw

/-- The producer that resumes leaves the notified ones, so the cover is one short
until it has pushed or parked again. -/
theorem resumed_wakeInv {cause : Cause} {k pick : Nat} {p : Producer α} {cv : CondVar (Producer α)}
    {timedOut : Bool} (inv : s.WakeInv c 0) (hr : s.notFull.resume cause k = some (p, cv))
    (h : { s with notFull := cv }.produce c p pick
      (s.queue.putWaitResumed c p.timed timedOut) = (t, o)) : t.WakeInv c 0 := by
  obtain ⟨parked, perm, notified⟩ := CondVar.resume_spec hr
  have waits : 0 < s.notFull.waiting.length := by
    rw [perm.length_eq]
    simp
  have short : ({ s with notFull := cv } : QueueState κ α τ).WakeInv c 1 := by
    constructor
    · intro hs _
      exact inv.bounded hs waits
    · intro hs hp
      have cover := inv.covered hs (parked ▸ hp)
      show s.queue.maxQueueSize - c.size s.queue.buffer ≤ s.owedNotFull + cv.notified.length + 1
      split at notified <;> omega
    · intro hs hp
      exact inv.closing hs (parked ▸ hp)
  refine produce_wakeInv short ?_ ?_ h
  · intro ne
    exact (putWaitResumed_stays c s.queue p.timed timedOut ne).2
  · intro hw
    have hs := (putWaitResumed_stays c s.queue p.timed timedOut (by rw [hw]; decide)).1 hw
    exact ⟨hs, inv.bounded hs waits⟩

theorem producerWakes_wakeInv {k : Nat} {cv : CondVar (Producer α)} (inv : s.WakeInv c 0)
    (hw : s.notFull.wake k = some cv) :
    ({ s with notFull := cv } : QueueState κ α τ).WakeInv c 0 := by
  have waits := (CondVar.wake_waiting hw).length_eq
  obtain ⟨p, rest, perm, rfl⟩ := CondVar.wake_spec hw
  have some : 0 < s.notFull.parked.length := by
    rw [perm.length_eq]
    simp
  constructor
  · intro hs h
    exact inv.bounded hs (waits ▸ h)
  · intro hs _
    exact inv.covered hs some
  · intro hs _
    exact inv.closing hs some

/-- Closing ends the cover; its two notifications are now due. -/
theorem close_wakeInv (s : QueueState κ α τ) :
    ({ s with queue := { s.queue with state := .closing }
              closingNotEmpty := s.closingNotEmpty + 1 } : QueueState κ α τ).WakeInv c 0 := by
  constructor
  · intro hs
    cases hs
  · intro hs
    cases hs
  · intro _ _
    show 0 < s.closingNotEmpty + 1 + s.closingNotFull
    omega

theorem closeNotifiesNotFull_wakeInv (inv : s.WakeInv c 0) :
    ({ s with notFull := s.notFull.notifyAll
              closingNotFull := s.closingNotFull - 1 } : QueueState κ α τ).WakeInv c 0 := by
  have waits := s.notFull.notifyAll_waiting.length_eq
  constructor
  · intro hs hw
    exact inv.bounded hs (waits ▸ hw)
  · intro _ hp
    simp at hp
  · intro _ hp
    simp at hp

theorem clear_wakeInv (inv : s.WakeInv c 0) (signals : s.Signals c .clear) :
    ({ s with queue := { s.queue with buffer := c.clear s.queue.buffer } } :
      QueueState κ α τ).WakeInv c 0 := by
  refine inv.of_le rfl rfl (fun _ hmax => hmax) ?_ (Nat.le_refl _)
  intro hs parked
  have quiet := signals hs
  simp only [MakesRoomSilently, not_and, Nat.not_lt] at quiet
  have empty := quiet (List.length_pos_iff.mp parked)
  show s.queue.maxQueueSize - c.size (c.clear s.queue.buffer) + s.owedNotFull ≤
    s.queue.maxQueueSize - c.size s.queue.buffer + s.owedNotFull
  rw [c.size_clear]
  omega

theorem setQueueMaxSize_wakeInv {n : Nat} (inv : s.WakeInv c 0)
    (signals : s.Signals c (.setQueueMaxSize n)) :
    ({ s with queue := { s.queue with maxQueueSize := n } } : QueueState κ α τ).WakeInv c 0 := by
  cases hs : s.queue.state with
  | opened =>
      have quiet := signals hs
      simp only [MakesRoomSilently, not_or, not_and] at quiet
      refine inv.of_le rfl rfl ?_ ?_ (Nat.le_refl _)
      · intro waits _
        exact quiet.2 (List.length_pos_iff.mp waits)
      · intro _ parked
        have lower := quiet.1 (List.length_pos_iff.mp parked)
        show n - c.size s.queue.buffer + s.owedNotFull ≤
          s.queue.maxQueueSize - c.size s.queue.buffer + s.owedNotFull
        omega
  | closing =>
      have shut : s.queue.state ≠ .opened := by
        rw [hs]
        decide
      exact ⟨fun opened => absurd opened shut, fun opened => absurd opened shut, inv.closing⟩

/-- One step keeps the invariant unless it makes room silently. -/
theorem next_wakeInv {e : QueueEvent α τ} (inv : s.WakeInv c 0) (signals : s.Signals c e)
    (h : next c s e = some (t, o)) : t.WakeInv c 0 := by
  cases e with
  | put x pick =>
      refine produce_wakeInv inv.mono ?_ ?_ (Option.some.inj h)
      · intro ne
        exact (put_stays c s.queue ne).2
      · intro hw
        exact absurd hw (put_stays c s.queue (by rw [hw]; decide)).1
  | putWait x pick => exact putWait_wakeInv inv (Option.some.inj h)
  | putWaitFor x pick => exact putWait_wakeInv inv (Option.some.inj h)
  | producerWakes k =>
      simp only [next, Option.map_eq_some_iff] at h
      obtain ⟨cv, hw, h⟩ := h
      cases h
      exact producerWakes_wakeInv inv hw
  | producerResumes cause k timedOut pick =>
      simp only [next] at h
      cases hr : s.notFull.resume cause k with
      | none => simp [hr] at h
      | some r =>
          simp only [hr] at h
          exact resumed_wakeInv inv hr (Option.some.inj h)
  | tryTake who => exact consume_wakeInv inv (by intro hd; cases hd) h
  | take who =>
      refine consume_wakeInv inv ?_ h
      intro _ hs parked some
      have quiet := signals hs
      simp only [MakesRoomSilently, not_and, Nat.not_le] at quiet
      exact quiet parked some
  | takerWakes k =>
      simp only [next, Option.map_eq_some_iff] at h
      obtain ⟨cv, _, h⟩ := h
      cases h
      exact ⟨inv.bounded, inv.covered, inv.closing⟩
  | takerResumes cause k timedOut =>
      simp only [next] at h
      cases hr : s.notEmpty.resume cause k with
      | none => simp [hr] at h
      | some r =>
          simp only [hr] at h
          have same : ({ s with notEmpty := r.2 } : QueueState κ α τ).WakeInv c 0 :=
            ⟨inv.bounded, inv.covered, inv.closing⟩
          refine consume_wakeInv same ?_ h
          intro hd hs parked some
          have quiet := signals hs
          simp only [MakesRoomSilently, not_and, Nat.not_le] at quiet
          exact quiet ⟨r.1, r.2, hr, hd⟩ parked some
  | notifyNotFull pick =>
      simp only [next] at h
      split at h
      · cases h
      · cases h
        exact notifyNotFull_wakeInv inv pick
  | close =>
      cases h
      exact close_wakeInv s
  | closeNotifiesNotEmpty =>
      simp only [next] at h
      split at h
      · cases h
      · cases h
        refine ⟨inv.bounded, inv.covered, ?_⟩
        intro _ _
        show 0 < s.closingNotEmpty - 1 + (s.closingNotFull + 1)
        omega
  | closeNotifiesNotFull =>
      simp only [next] at h
      split at h
      · cases h
      · cases h
        exact closeNotifiesNotFull_wakeInv inv
  | clear =>
      cases h
      exact clear_wakeInv inv signals
  | setQueueMaxSize n =>
      cases h
      exact setQueueMaxSize_wakeInv inv signals

end QueueState

/-- In every run no step of which makes room silently while a producer is parked,
no producer is ever parked without a signal under way while the queue has room. -/
theorem queue_no_lost_producer (c : Container κ α) (bound : Nat) {s₀ s : QueueState κ α τ}
    {ts : List (Transition (QueueState κ α τ) (QueueEvent α τ) (QueueOutput α τ))}
    (init : (queueMachine c bound).init s₀) (run : (queueMachine c bound).Run s₀ ts s)
    (signals : ∀ t ∈ ts, t.before.Signals c t.event) :
    ∀ v, Machine.Visits s₀ ts v → v.NoLostProducer c := by
  intro v hv
  obtain ⟨us, hus, toV⟩ := run.visits_run hv
  have inv : v.WakeInv c 0 := by
    refine toV.invariant_of_guard (I := fun s => s.WakeInv c 0) (G := (·.Signals c)) ?_ ?_ ?_
    · intro t ht
      exact signals t (hus.subset ht)
    · rw [show s₀ = QueueState.start c bound from init]
      exact QueueState.wakeInv_start bound
    · intro s e t o hs hok h
      exact QueueState.next_wakeInv hs hok h
  exact inv.noLostProducer

/-- A producer blocked at bound 1 is notified by the `tryTake` that makes room. -/
def notifiedProducerTrace : List (QueueEvent Nat Unit) :=
  [.put 0 0, .putWait 1 0, .tryTake (), .notifyNotFull 0]

theorem queue_no_lost_producer_notified :
    ∃ ts s, (queueMachine (dequeOps Nat).toContainer 1).exec
        (QueueState.start (dequeOps Nat).toContainer 1) notifiedProducerTrace = some (ts, s) ∧
      s.notFull.notified = [⟨1, false⟩] ∧
      ∀ v, Machine.Visits (QueueState.start (dequeOps Nat).toContainer 1) ts v →
        v.NoLostProducer (dequeOps Nat).toContainer := by
  refine ⟨_, _, rfl, rfl, ?_⟩
  have h : (queueMachine (dequeOps Nat).toContainer 1).exec
    (QueueState.start (dequeOps Nat).toContainer 1) notifiedProducerTrace = some (_, _) := rfl
  refine queue_no_lost_producer (dequeOps Nat).toContainer 1 rfl (Machine.Run.of_exec h) ?_
  intro t ht _
  have quiet := Machine.exec_forall_event
    (G := fun e => ∀ s, ¬ QueueState.MakesRoomSilently (dequeOps Nat).toContainer s e) h
    (by simp [notifiedProducerTrace, QueueState.MakesRoomSilently])
  exact quiet t ht t.before

/-- `clear` empties the queue under a blocked producer and tells nobody: the
producer stays parked, the queue has room and no notification is under way. -/
theorem queue_clear_strands_producer :
    ∃ ts s, (queueMachine (dequeOps Nat).toContainer 1).exec
        (QueueState.start (τ := Unit) (dequeOps Nat).toContainer 1)
        [.put 0 0, .putWait 1 0, .clear] = some (ts, s) ∧
      (queueMachine (dequeOps Nat).toContainer 1).Reachable s ∧
      s.notFull.parked = [⟨1, false⟩] ∧ ¬ s.NoLostProducer (dequeOps Nat).toContainer := by
  have h : (queueMachine (dequeOps Nat).toContainer 1).exec
    (QueueState.start (τ := Unit) (dequeOps Nat).toContainer 1)
    [.put 0 0, .putWait 1 0, .clear] = some (_, _) := rfl
  refine ⟨_, _, h, (Machine.Run.of_exec h).reachable rfl, rfl, ?_⟩
  intro kept
  have signal := kept (List.cons_ne_nil _ _) (.inr (by decide))
  simp [QueueState.NotFullSignalled, QueueState.start, CondVar.park, CondVar.empty]
    at signal

end Rtl.Stp
