import Rtl.Base.BoundedFifo
import Rtl.Stp.Queue

/-! # Order, capacity and closing of the queue

Every step of a run acts on the guarded members in one of six ways. From these
the queue refines the abstract bounded queue, and closing it is final: nothing is
accepted afterwards, and the result `closed` means that nothing is left to take.
The runs here use `put`, `put_wait`, `put_wait_for`, `tryTake` and `close`.
-/

namespace Rtl.Stp

open Rtl.Base

variable {κ α τ : Type*}

/-- The ways in which one step changes the guarded members, with its output. -/
inductive QueueEffect (c : Container κ α) (q : Queue κ) (e : QueueEvent α τ) :
    QueueOutput α τ → Queue κ → Prop where
  | quiet : QueueEffect c q e .silent q
  | accepted (x : α) (opened : q.state = .opened) (room : q.Admits c) :
      QueueEffect c q e (.put x .accepted) { q with buffer := c.push q.buffer x }
  | refused (x : α) (code : PutResultErrorCode) (ne : code ≠ .accepted) :
      QueueEffect c q e (.put x code) q
  | popped (who : τ) (x : α) (rest : κ) (pop : c.pop q.buffer = some (x, rest)) :
      QueueEffect c q e (.took who { result := some x }) { q with buffer := rest }
  | nothing (who : τ) (code : TakeResultErrorCode)
      (drained : code = .closed → q.state = .closing ∧ c.empty q.buffer = true) :
      QueueEffect c q e (.took who { erc := code }) q
  | closed (is : e = .close) : QueueEffect c q e .silent { q with state := .closing }

/-- A producer pushes only into an open queue with room, and only a push is `accepted`. -/
def Queue.Admission.Sound (c : Container κ α) (q : Queue κ) (a : Queue.Admission) : Prop :=
  (a = .push → q.state = .opened ∧ q.Admits c) ∧ a ≠ .result .accepted

theorem Queue.Admission.sound_wait (c : Container κ α) (q : Queue κ) :
    Queue.Admission.wait.Sound c q :=
  ⟨by rintro ⟨⟩, by decide⟩

theorem Queue.Admission.sound_result (c : Container κ α) (q : Queue κ) (code : PutResultErrorCode)
    (ne : code ≠ .accepted) : (Queue.Admission.result code).Sound c q := by
  constructor
  · intro h
    cases h
  · intro h
    exact ne (Queue.Admission.result.inj h)

theorem Queue.put_sound (c : Container κ α) (q : Queue κ) : (q.put c).Sound c q := by
  rcases Queue.put_cases (c := c) (q := q) _ rfl with ⟨h, both⟩ | ⟨h, _⟩ | ⟨h, _⟩
  · rw [h]
    exact ⟨fun _ => both, by decide⟩
  · rw [h]
    exact Queue.Admission.sound_result c q _ (by decide)
  · rw [h]
    exact Queue.Admission.sound_result c q _ (by decide)

theorem Queue.putWait_sound (c : Container κ α) (q : Queue κ) : (q.putWait c).Sound c q := by
  rcases Queue.putWait_cases (c := c) (q := q) _ rfl with ⟨h, both⟩ | ⟨h, _⟩ | ⟨h, _⟩
  · rw [h]
    exact ⟨fun _ => both, by decide⟩
  · rw [h]
    exact Queue.Admission.sound_result c q _ (by decide)
  · rw [h]
    exact Queue.Admission.sound_wait c q

theorem Queue.putWaitResumed_sound (c : Container κ α) (q : Queue κ) (timed timedOut : Bool) :
    (q.putWaitResumed c timed timedOut).Sound c q := by
  rcases Queue.putWaitResumed_cases (c := c) (q := q) timed timedOut _ rfl with
    ⟨h, both⟩ | ⟨h, _⟩ | ⟨h | h, _⟩
  · rw [h]
    exact ⟨fun _ => both, by decide⟩
  · rw [h]
    exact Queue.Admission.sound_result c q _ (by decide)
  · rw [h]
    exact Queue.Admission.sound_result c q _ (by decide)
  · rw [h]
    exact Queue.Admission.sound_wait c q

namespace QueueState

variable {c : Container κ α} {s t : QueueState κ α τ} {o : QueueOutput α τ}

theorem produce_effect {e : QueueEvent α τ} {p : Producer α} {pick : Nat} {a : Queue.Admission}
    (sound : a.Sound c s.queue) (h : s.produce c p pick a = (t, o)) :
    QueueEffect c s.queue e o t.queue := by
  cases a with
  | push =>
      have both := sound.1 rfl
      cases h
      exact .accepted p.item both.1 both.2
  | wait =>
      cases h
      exact .quiet
  | result code =>
      have ne : code ≠ .accepted := by
        intro hcode
        exact sound.2 (by rw [hcode])
      cases h
      exact .refused p.item code ne

theorem consume_effect {e : QueueEvent α τ} {w : Taker τ} {r : Queue.Removal}
    (closed : r = .result .closed → s.queue.state = .closing ∧ c.empty s.queue.buffer = true)
    (h : s.consume c w r = some (t, o)) : QueueEffect c s.queue e o t.queue := by
  cases r with
  | pop =>
      simp only [consume] at h
      cases hp : c.pop s.queue.buffer with
      | none => simp [hp] at h
      | some p =>
          simp only [hp] at h
          cases h
          exact .popped w.who p.1 p.2 hp
  | wait =>
      cases h
      exact .quiet
  | result code =>
      have drained : code = .closed → s.queue.state = .closing ∧ c.empty s.queue.buffer = true := by
        intro hcode
        exact closed (by rw [hcode])
      cases h
      exact .nothing w.who code drained

/-- A resumed consumer, whichever of the two calls it is in. -/
theorem resumed_effect {e : QueueEvent α τ} {w : Taker τ} {timedOut : Bool}
    (h : s.consume c w (if w.deprecated then s.queue.take c
      else s.queue.tryTakeResumed c timedOut) = some (t, o)) :
    QueueEffect c s.queue e o t.queue := by
  apply consume_effect _ h
  intro hr
  split at hr
  · rcases Queue.take_cases _ hr with ⟨h, _⟩ | ⟨h, _⟩ <;> cases h
  · rcases Queue.tryTakeResumed_cases _ _ hr with ⟨h, _⟩ | ⟨_, both⟩ | ⟨h | h, _⟩
    · cases h
    · exact both
    · cases h
    · cases h

theorem next_effect {e : QueueEvent α τ} (core : e.isCore = true)
    (h : next c s e = some (t, o)) : QueueEffect c s.queue e o t.queue := by
  cases e with
  | put x pick => exact produce_effect (Queue.put_sound c s.queue) (Option.some.inj h)
  | putWait x pick => exact produce_effect (Queue.putWait_sound c s.queue) (Option.some.inj h)
  | putWaitFor x pick => exact produce_effect (Queue.putWait_sound c s.queue) (Option.some.inj h)
  | producerWakes k =>
      simp only [next, Option.map_eq_some_iff] at h
      obtain ⟨cv, _, h⟩ := h
      cases h
      exact .quiet
  | producerResumes cause k timedOut pick =>
      simp only [next] at h
      cases hr : s.notFull.resume cause k with
      | none => simp [hr] at h
      | some r =>
          simp only [hr] at h
          have sound := Queue.putWaitResumed_sound c s.queue r.1.timed timedOut
          exact produce_effect (s := { s with notFull := r.2 }) sound (Option.some.inj h)
  | tryTake who =>
      apply consume_effect _ h
      intro hr
      rcases Queue.tryTake_cases _ hr with ⟨h, _⟩ | ⟨_, both⟩ | ⟨h, _⟩
      · cases h
      · exact both
      · cases h
  | take who => cases core
  | takerWakes k =>
      simp only [next, Option.map_eq_some_iff] at h
      obtain ⟨cv, _, h⟩ := h
      cases h
      exact .quiet
  | takerResumes cause k timedOut =>
      simp only [next] at h
      cases hr : s.notEmpty.resume cause k with
      | none => simp [hr] at h
      | some r =>
          simp only [hr] at h
          exact resumed_effect (s := { s with notEmpty := r.2 }) h
  | notifyNotFull pick =>
      simp only [next] at h
      split at h
      · cases h
      · cases h
        exact .quiet
  | close =>
      cases h
      exact .closed rfl
  | closeNotifiesNotEmpty =>
      simp only [next] at h
      split at h
      · cases h
      · cases h
        exact .quiet
  | closeNotifiesNotFull =>
      simp only [next] at h
      split at h
      · cases h
      · cases h
        exact .quiet
  | clear => cases core
  | setQueueMaxSize n => cases core

end QueueState

/-! ## Refinement of the abstract queue -/

def QueueOutput.sight : QueueOutput α τ → Option (FifoSight α)
  | .put x .accepted => some (.entered x)
  | .took _ ⟨some x, _⟩ => some (.left x)
  | _ => none

def QueueOutput.acceptedItem : QueueOutput α τ → Option α
  | .put x .accepted => some x
  | _ => none

def QueueOutput.takenItem : QueueOutput α τ → Option α
  | .took _ r => r.result
  | _ => none

def acceptedItems (ts : List (Transition (QueueState κ α τ) (QueueEvent α τ) (QueueOutput α τ))) :
    List α :=
  ts.filterMap (·.output.acceptedItem)

def takenItems (ts : List (Transition (QueueState κ α τ) (QueueEvent α τ) (QueueOutput α τ))) :
    List α :=
  ts.filterMap (·.output.takenItem)

theorem acceptedItems_snoc
    (ts : List (Transition (QueueState κ α τ) (QueueEvent α τ) (QueueOutput α τ))) (t) :
    acceptedItems (ts ++ [t]) = acceptedItems ts ++ t.output.acceptedItem.toList := by
  cases h : t.output.acceptedItem <;> simp [acceptedItems, h]

theorem takenItems_snoc
    (ts : List (Transition (QueueState κ α τ) (QueueEvent α τ) (QueueOutput α τ))) (t) :
    takenItems (ts ++ [t]) = takenItems ts ++ t.output.takenItem.toList := by
  cases h : t.output.takenItem <;> simp [takenItems, h]

def seen (ts : List (Transition (QueueState κ α τ) (QueueEvent α τ) (QueueOutput α τ))) :
    List (FifoSight α) :=
  Machine.observe (fun _ o => o.sight) ts

theorem entered_seen
    (ts : List (Transition (QueueState κ α τ) (QueueEvent α τ) (QueueOutput α τ))) :
    BoundedFifo.entered (seen ts) = acceptedItems ts := by
  simp only [BoundedFifo.entered, seen, Machine.observe, acceptedItems, List.filterMap_filterMap]
  congr 1
  funext t
  rcases t.output with _ | ⟨x, code⟩ | ⟨who, result, erc⟩
  · rfl
  · cases code <;> rfl
  · cases result <;> rfl

theorem left_seen
    (ts : List (Transition (QueueState κ α τ) (QueueEvent α τ) (QueueOutput α τ))) :
    BoundedFifo.left (seen ts) = takenItems ts := by
  simp only [BoundedFifo.left, seen, Machine.observe, takenItems, List.filterMap_filterMap]
  congr 1
  funext t
  rcases t.output with _ | ⟨x, code⟩ | ⟨who, result, erc⟩
  · rfl
  · cases code <;> rfl
  · cases result <;> rfl

def QueueState.abs (c : FifoContainer κ α) (s : QueueState κ α τ) : BoundedFifo α :=
  ⟨s.queue.maxQueueSize, decide (s.queue.state = .closing), c.toList s.queue.buffer⟩

/-- Each way of changing the guarded members is a step of the abstract queue, or
leaves it alone and is not seen. -/
theorem QueueEffect.abstract (c : FifoContainer κ α) {s t : QueueState κ α τ}
    {e : QueueEvent α τ} {o : QueueOutput α τ}
    (effect : QueueEffect c.toContainer s.queue e o t.queue) :
    (t.abs c = s.abs c ∧ o.sight = none) ∨
    ∃ e' o', (s.abs c).next e' = some (t.abs c, o') ∧ BoundedFifo.see e' o' = o.sight := by
  generalize hq : t.queue = q at effect
  cases effect with
  | quiet => exact .inl ⟨by simp [QueueState.abs, hq], rfl⟩
  | accepted x opened room =>
      refine .inr ⟨.enqueue x, none, ?_, rfl⟩
      have accepts : (s.abs c).Accepts := by
        refine ⟨by simp [QueueState.abs, opened], ?_⟩
        simpa [QueueState.abs, Queue.Admits, c.size_toList] using room
      simp only [BoundedFifo.next, if_pos accepts]
      simp [QueueState.abs, hq, c.toList_push]
  | refused x code ne =>
      refine .inl ⟨by simp [QueueState.abs, hq], ?_⟩
      cases code <;> first | rfl | exact absurd rfl ne
  | popped who x rest pop =>
      refine .inr ⟨.dequeue, some x, ?_, rfl⟩
      have contents : (s.abs c).contents = x :: c.toList rest := c.toList_pop pop
      simp only [BoundedFifo.next, contents]
      simp [QueueState.abs, hq]
  | nothing who code drained => exact .inl ⟨by simp [QueueState.abs, hq], rfl⟩
  | closed _ =>
      refine .inr ⟨.close, none, ?_, rfl⟩
      simp [BoundedFifo.next, QueueState.abs, hq]

def queueSimulation (c : FifoContainer κ α) (bound : Nat) :
    Machine.Simulation (queueMachine (τ := τ) c.toContainer bound) (BoundedFifo.machine α bound)
      (fun _ o => o.sight) BoundedFifo.see (fun _ e => e.isCore = true) where
  abs := QueueState.abs c
  inv _ := True
  init := by
    intro s hs
    rw [show s = QueueState.start c.toContainer bound from hs]
    refine ⟨?_, trivial⟩
    show QueueState.abs c _ = _
    simp [QueueState.abs, QueueState.start, c.toList_init]
  keeps _ _ _ _ _ _ _ := trivial
  step := by
    intro s e t o _ core h
    exact QueueEffect.abstract c (QueueState.next_effect core h)

/-- In every run the items handed out followed by the buffer are the accepted
items in push order, an item no put of which was accepted is never handed out,
and a nonzero bound holds; what is seen of the run is seen of the abstract queue. -/
theorem queue_refines_bounded_fifo {α τ : Type*} (kind : SequenceContainer) (bound : Nat)
    {s₀ s : QueueState (List α) α τ}
    {ts : List (Transition (QueueState (List α) α τ) (QueueEvent α τ) (QueueOutput α τ))}
    (init : (queueMachine (kind.ops α).toContainer bound).init s₀)
    (run : (queueMachine (kind.ops α).toContainer bound).Run s₀ ts s)
    (core : ∀ t ∈ ts, t.event.isCore = true) :
    takenItems ts ++ (kind.ops α).toList s.queue.buffer = acceptedItems ts ∧
    (∀ x, (∀ t ∈ ts, ∀ code, t.output = .put x code → code ≠ .accepted) →
      x ∉ takenItems ts) ∧
    (bound ≠ 0 → (kind.ops α).size s.queue.buffer ≤ bound) ∧
    ∃ us, (BoundedFifo.machine α bound).Run (s₀.abs (kind.ops α)) us (s.abs (kind.ops α)) ∧
      Machine.observe BoundedFifo.see us = seen ts := by
  let sim := queueSimulation (τ := τ) (kind.ops α) bound
  obtain ⟨_, us, arun, same⟩ := sim.refines init run core
  have astart := (sim.init s₀ init).1
  have order := BoundedFifo.run_order astart arun
  rw [same] at order
  have sequence : takenItems ts ++ (kind.ops α).toList s.queue.buffer = acceptedItems ts := by
    rw [← left_seen, ← entered_seen]
    exact order
  refine ⟨sequence, ?_, ?_, us, arun, same⟩
  · intro x refused taken
    have entered : x ∈ acceptedItems ts := by
      rw [← sequence]
      exact List.mem_append_left _ taken
    obtain ⟨t, ht, hx⟩ := List.mem_filterMap.mp entered
    have hout : t.output = .put x .accepted := by
      unfold QueueOutput.acceptedItem at hx
      split at hx
      · cases hx
        assumption
      · cases hx
    exact refused t ht _ hout rfl
  · intro bounded
    rw [(kind.ops α).size_toList]
    exact BoundedFifo.run_within_capacity astart arun bounded

/-- One producer is blocked by the bound 1, is notified after an item was taken,
and pushes; then the queue is closed and drained. -/
def blockedProducerTrace : List (QueueEvent Nat Unit) :=
  [.put 7 0, .putWait 8 0, .put 9 0, .tryTake (), .notifyNotFull 0,
    .producerResumes .notified 0 false 0, .close, .put 10 0, .tryTake (), .tryTake ()]

theorem queue_refines_bounded_fifo_blocked :
    ∃ ts s, (queueMachine (τ := Unit) (dequeOps Nat).toContainer 1).exec
        (QueueState.start (dequeOps Nat).toContainer 1) blockedProducerTrace = some (ts, s) ∧
      acceptedItems ts = [7, 8] ∧
      takenItems ts ++ (dequeOps Nat).toList s.queue.buffer = acceptedItems ts ∧
      ((dequeOps Nat).size s.queue.buffer ≤ 1) := by
  refine ⟨_, _, rfl, rfl, ?_⟩
  have h : (queueMachine (dequeOps Nat).toContainer 1).exec
    (QueueState.start (dequeOps Nat).toContainer 1) blockedProducerTrace = some (_, _) := rfl
  have core := Machine.exec_forall_event (G := fun e => e.isCore = true) h (by decide)
  have all := queue_refines_bounded_fifo .deque 1 rfl (Machine.Run.of_exec h) core
  exact ⟨all.1, all.2.2.1 (by decide)⟩

/-! ## Closing -/

def Queue.Drained (c : Container κ α) (q : Queue κ) : Prop :=
  q.state = .closing ∧ c.items q.buffer = 0

theorem QueueEffect.keeps_closing {c : Container κ α} {q q' : Queue κ} {e : QueueEvent α τ}
    {o : QueueOutput α τ} (effect : QueueEffect c q e o q') (closing : q.state = .closing) :
    q'.state = .closing := by
  cases effect with
  | quiet => exact closing
  | accepted x opened room => exact closing
  | refused x code ne => exact closing
  | popped who x rest pop => exact closing
  | nothing who code drained => exact closing
  | closed _ => rfl

theorem QueueEffect.keeps_drained {c : Container κ α} {q q' : Queue κ} {e : QueueEvent α τ}
    {o : QueueOutput α τ} (effect : QueueEffect c q e o q') (drained : q.Drained c) :
    q'.Drained c := by
  cases effect with
  | quiet => exact drained
  | accepted x opened room =>
      rw [drained.1] at opened
      cases opened
  | refused x code ne => exact drained
  | popped who x rest pop =>
      have items := c.items_pop pop
      rw [drained.2] at items
      exact absurd items.symm Multiset.cons_ne_zero
  | nothing who code _ => exact drained
  | closed _ => exact ⟨rfl, drained.2⟩

theorem QueueEffect.not_accepted {c : Container κ α} {q q' : Queue κ} {e : QueueEvent α τ}
    {x : α} (effect : QueueEffect c q e (.put x .accepted) q')
    (closing : q.state = .closing) : False := by
  cases effect with
  | accepted _ opened _ =>
      rw [closing] at opened
      cases opened
  | refused _ _ ne => exact ne rfl

theorem QueueEffect.not_taken {c : Container κ α} {q q' : Queue κ} {e : QueueEvent α τ}
    {who : τ} {x : α} {erc : TakeResultErrorCode}
    (effect : QueueEffect c q e (.took who ⟨some x, erc⟩) q') (drained : q.Drained c) : False := by
  cases effect with
  | popped _ _ rest pop =>
      have items := c.items_pop pop
      rw [drained.2] at items
      exact absurd items.symm Multiset.cons_ne_zero

theorem QueueEffect.drained_of_closed {c : Container κ α} {q q' : Queue κ} {e : QueueEvent α τ}
    {who : τ} {result : Option α}
    (effect : QueueEffect c q e (.took who ⟨result, .closed⟩) q') : q.Drained c ∧ q' = q := by
  cases effect with
  | nothing _ _ drained =>
      obtain ⟨closing, empty⟩ := drained rfl
      exact ⟨⟨closing, (c.empty_iff _).mp empty⟩, rfl⟩

section Runs

variable (c : Container κ α) (bound : Nat) {s₀ s : QueueState κ α τ}
  {ts : List (Transition (QueueState κ α τ) (QueueEvent α τ) (QueueOutput α τ))}

/-- The bag of accepted items is split between the takers and the buffer. -/
theorem queue_items_conserved (init : (queueMachine c bound).init s₀)
    (run : (queueMachine c bound).Run s₀ ts s) (core : ∀ t ∈ ts, t.event.isCore = true) :
    (takenItems ts : Multiset α) + c.items s.queue.buffer = (acceptedItems ts : Multiset α) := by
  refine run.history (H := fun ts s => (∀ t ∈ ts, t.event.isCore = true) →
    (takenItems ts : Multiset α) + c.items s.queue.buffer = (acceptedItems ts : Multiset α))
    ?_ ?_ core
  · intro _
    rw [show s₀ = QueueState.start c bound from init]
    simp [takenItems, acceptedItems, QueueState.start, c.items_init]
  · intro ts s e t o prior h hcore
    have before := prior fun u hu => hcore u (by simp [hu])
    have effect := QueueState.next_effect (hcore ⟨s, e, o, t⟩ (by simp)) h
    generalize hq : t.queue = q at effect
    rw [takenItems_snoc, acceptedItems_snoc, ← Multiset.coe_add, ← Multiset.coe_add, ← before]
    cases effect with
    | quiet => simp [QueueOutput.takenItem, QueueOutput.acceptedItem]
    | accepted x opened room =>
        simp only [QueueOutput.takenItem, QueueOutput.acceptedItem, c.items_push,
          Option.toList_some, Option.toList_none, Multiset.coe_nil, Multiset.coe_singleton,
          Multiset.add_zero, Multiset.add_cons]
        rw [Multiset.add_comm _ {x}, Multiset.singleton_add]
    | refused x code ne =>
        cases code <;>
          first | exact absurd rfl ne | simp [QueueOutput.takenItem, QueueOutput.acceptedItem]
    | popped who x rest pop =>
        simp only [QueueOutput.takenItem, QueueOutput.acceptedItem, c.items_pop pop,
          Option.toList_some, Option.toList_none, Multiset.coe_nil, Multiset.coe_singleton,
          Multiset.add_zero, Multiset.add_assoc, Multiset.singleton_add]
    | nothing who code drained => simp [QueueOutput.takenItem, QueueOutput.acceptedItem]
    | closed _ => simp [QueueOutput.takenItem, QueueOutput.acceptedItem]

/-- A queue that is closing was closed by some step of the run. -/
theorem queue_closing_was_closed (init : (queueMachine c bound).init s₀)
    (run : (queueMachine c bound).Run s₀ ts s) (core : ∀ t ∈ ts, t.event.isCore = true)
    (closing : s.queue.state = .closing) : ∃ t ∈ ts, t.event = .close := by
  refine run.history (H := fun ts s => (∀ t ∈ ts, t.event.isCore = true) →
    s.queue.state = .closing → ∃ t ∈ ts, t.event = .close) ?_ ?_ core closing
  · intro _ closing
    rw [show s₀ = QueueState.start c bound from init] at closing
    cases closing
  · intro ts s e t o prior h hcore closing
    have effect := QueueState.next_effect (hcore ⟨s, e, o, t⟩ (by simp)) h
    have earlier : s.queue.state = .closing →
        ∃ u ∈ ts ++ [⟨s, e, o, t⟩], u.event = QueueEvent.close := by
      intro hs
      obtain ⟨u, hu, hclose⟩ := prior (fun u hu => hcore u (by simp [hu])) hs
      exact ⟨u, by simp [hu], hclose⟩
    generalize hq : t.queue = q at effect closing
    cases effect with
    | quiet => exact earlier closing
    | accepted x opened room => exact earlier closing
    | refused x code ne => exact earlier closing
    | popped who x rest pop => exact earlier closing
    | nothing who code drained => exact earlier closing
    | closed is => exact ⟨⟨s, e, _, t⟩, by simp, is⟩

/-- Closing is final and drains. After a `close` no put variant is accepted. A
result `closed` comes only after a `close`, when every accepted item has been
handed out, and no item is handed out after it. -/
theorem queue_close_final_and_drained (init : (queueMachine c bound).init s₀)
    (run : (queueMachine c bound).Run s₀ ts s) (core : ∀ t ∈ ts, t.event.isCore = true) :
    (∀ us t vs, ts = us ++ t :: vs → t.event = .close →
      ∀ v ∈ vs, ∀ x, v.output ≠ .put x .accepted) ∧
    (∀ us t vs who result, ts = us ++ t :: vs → t.output = .took who ⟨result, .closed⟩ →
      (∃ u ∈ us, u.event = .close) ∧
      (takenItems us : Multiset α) = (acceptedItems us : Multiset α) ∧
      ∀ v ∈ vs, ∀ who' x erc, v.output ≠ .took who' ⟨some x, erc⟩) := by
  constructor
  · intro us t vs hts hclose v hv x hout
    subst hts
    obtain ⟨_, takes, tail⟩ := run.at
    have closing : t.after.queue.state = .closing := by
      rw [Machine.Takes, hclose] at takes
      have after := congrArg Prod.fst (Option.some.inj takes)
      exact (congrArg (fun s => s.queue.state) after).symm
    obtain ⟨ws, hws, inner, step⟩ := tail.mem_prefix hv
    have still : v.before.queue.state = .closing := by
      refine inner.invariant_of_guard (I := fun s => s.queue.state = .closing)
        (G := fun _ e => e.isCore = true)
        (fun u hu => core u (by simp [hws.subset hu])) closing ?_
      intro s e t o hs hcore h
      exact (QueueState.next_effect hcore h).keeps_closing hs
    have effect := QueueState.next_effect (core v (by simp [hv])) step
    rw [hout] at effect
    exact effect.not_accepted still
  · intro us t vs who result hts hout
    subst hts
    obtain ⟨head, takes, tail⟩ := run.at
    have coreHead : ∀ u ∈ us, u.event.isCore = true := fun u hu => core u (by simp [hu])
    have effect := QueueState.next_effect (core t (by simp)) takes
    rw [hout] at effect
    obtain ⟨drained, same⟩ := effect.drained_of_closed
    refine ⟨queue_closing_was_closed c bound init head coreHead drained.1, ?_, ?_⟩
    · have conserved := queue_items_conserved c bound init head coreHead
      rwa [drained.2, Multiset.add_zero] at conserved
    · intro v hv who' x erc hv'
      obtain ⟨ws, hws, inner, step⟩ := tail.mem_prefix hv
      have still : v.before.queue.Drained c := by
        refine inner.invariant_of_guard (I := fun s => s.queue.Drained c)
          (G := fun _ e => e.isCore = true)
          (fun u hu => core u (by simp [hws.subset hu])) (same ▸ drained) ?_
        intro s e t o hs hcore h
        exact (QueueState.next_effect hcore h).keeps_drained hs
      have later := QueueState.next_effect (core v (by simp [hv])) step
      rw [hv'] at later
      exact later.not_taken still

end Runs

theorem queue_close_final_and_drained_blocked :
    ∃ ts s, (queueMachine (τ := Unit) (dequeOps Nat).toContainer 1).exec
        (QueueState.start (dequeOps Nat).toContainer 1) blockedProducerTrace = some (ts, s) ∧
      (ts.map (·.output)).getLast? = some (.took () ⟨none, .closed⟩) ∧
      ∀ us t vs, ts = us ++ t :: vs → t.event = .close →
        ∀ v ∈ vs, ∀ x, v.output ≠ .put x .accepted := by
  refine ⟨_, _, rfl, rfl, ?_⟩
  have h : (queueMachine (dequeOps Nat).toContainer 1).exec
    (QueueState.start (dequeOps Nat).toContainer 1) blockedProducerTrace = some (_, _) := rfl
  have core := Machine.exec_forall_event (G := fun e => e.isCore = true) h (by decide)
  exact (queue_close_final_and_drained (dequeOps Nat).toContainer 1 rfl
    (Machine.Run.of_exec h) core).1

end Rtl.Stp
