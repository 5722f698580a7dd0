import Rtl.Base.Leads
import Rtl.Ws.OpenSessions

/-! # Stopping the server

A call of `stop` that waits is woken by the drain timer, or by the sessions it waits for. What a
step does to the calls of `stop`, the condition variable and the timer is said once, by `StopMove`.
Whoever waits has a timer running for it, or the timer's handler is on its way to notify, and what the
io threads are in the middle of comes to its end before they are joined. So a call of `stop` can be
led to its return by steps of the server alone.
-/

namespace Rtl.Ws

open Rtl.Base

/-- The calls that neither wait, nor are about to, nor have a timer to start, nor join the threads. -/
def CallerAt.passive : CallerAt → Bool
  | .stop .arm => false
  | .stop .test => false
  | .stop .asleep => false
  | .stop .disarm => false
  | .stop .joinIo => false
  | _ => true

namespace WsServer

variable {cfg : WsConfig} {s t u : WsServer} {j : Nat}

/-- What a call of `stop` in its wait depends on. -/
structure StopSide where
  stopWait : Bool
  cv : CondVar Nat
  callers : List CallerAt
  timerWaits : Nat
  handlers : List DrainAt

def stopSide (s : WsServer) : StopSide :=
  ⟨s.stopWait, s.cv, s.callers, s.timerWaits, s.handlers⟩

def StopSide.handled (a : StopSide) (k : Nat) : StopSide :=
  { a with cv := a.cv.notifyAll, handlers := a.handlers.eraseIdx k }

/-! ## What a step does -/

inductive StopMove (event : WsServerEvent) (s t : WsServer) : Prop where
  | same (side : t.stopSide = s.stopSide)
  | call {at_ : CallerAt} (passive : at_.passive = true)
      (side : t.stopSide = { s.stopSide with callers := s.callers ++ [at_] })
  | walk {j : Nat} {pc pc' : CallerAt} (at_j : s.callers[j]? = some pc)
      (leaves : pc.passive = true ∨ pc = .stop .disarm ∨ pc = .stop .joinIo)
      (enters : pc'.passive = true)
      (side : t.stopSide = { s.stopSide with callers := s.callers.set j pc' })
  | clear {j : Nat} (at_j : s.callers[j]? = some (.stop .clearWait))
      (side : t.stopSide = { s.stopSide with
        stopWait := false, callers := s.callers.set j (.stop .arm) })
  | arm {j : Nat} (at_j : s.callers[j]? = some (.stop .arm))
      (side : t.stopSide = { s.stopSide with
        timerWaits := s.timerWaits + 1, callers := s.callers.set j (.stop .test) })
  | halt {j : Nat} (at_j : s.callers[j]? = some (.stop .stopIo)) (stopped : t.ioStopped = true)
      (side : t.stopSide = { s.stopSide with callers := s.callers.set j (.stop .joinIo) })
  | pass {j : Nat} (at_j : s.callers[j]? = some (.stop .test))
      (done : t.sessions = [] ∨ t.stopWait = true)
      (side : t.stopSide = { s.stopSide with callers := s.callers.set j (.stop .disarm) })
  | park {j : Nat} (at_j : s.callers[j]? = some (.stop .test)) (waits : s.stopWait = false)
      (side : t.stopSide = { s.stopSide with
        cv := s.cv.park j, callers := s.callers.set j (.stop .asleep) })
  | wake {k : Nat} {cv : CondVar Nat} (woken : s.cv.wake k = some cv)
      (side : t.stopSide = { s.stopSide with cv := cv })
  | rise {j k : Nat} {cause : Cause} {cv : CondVar Nat} (resumed : s.cv.resume cause k = some (j, cv))
      (done : t.sessions = [] ∨ t.stopWait = true)
      (side : t.stopSide = { s.stopSide with
        cv := cv, callers := s.callers.set j (.stop .disarm) })
  | again {j k : Nat} {cause : Cause} {cv : CondVar Nat} (resumed : s.cv.resume cause k = some (j, cv))
      (waits : s.stopWait = false)
      (side : t.stopSide = { s.stopSide with
        cv := cv.park j, callers := s.callers.set j (.stop .asleep) })
  | ring (rang : event = .timer) (io : s.ioRunning = true) (side : t.stopSide = { s.stopSide with
      stopWait := true, timerWaits := s.timerWaits - 1, handlers := s.handlers ++ [.collect] })
  | handle (k : Nat) (at_ : DrainAt)
      (side : t.stopSide = { s.stopSide with handlers := s.handlers.set k at_ })
  | handled {k : Nat} (side : t.stopSide = s.stopSide.handled k)
  | notify (side : t.stopSide = { s.stopSide with cv := s.cv.notifyAll })

theorem callSession_stopSide (s : WsServer) (i : Nat) (c : Call) :
    (s.callSession i c).stopSide = s.stopSide := by
  obtain ⟨peers, -, same⟩ := callSession_frame s i c
  rw [same]
  rfl

/-- The predicate of the wait lets the thread go on, or the flag is not set. -/
theorem test_cases (s : WsServer) (j : Nat) :
    (((s.test j).sessions = [] ∨ (s.test j).stopWait = true) ∧
      (s.test j).stopSide = { s.stopSide with callers := s.callers.set j (.stop .disarm) }) ∨
    (s.stopWait = false ∧ (s.test j).stopSide = { s.stopSide with
      cv := s.cv.park j, callers := s.callers.set j (.stop .asleep) }) := by
  unfold test
  simp only
  split
  · rename_i done
    exact .inl ⟨done, rfl⟩
  · rename_i waits
    refine .inr ⟨?_, rfl⟩
    simpa [removeInvalidSessions] using fun h => waits (.inr h)

theorem startStep_stopMove {at_ : StartAt} (at_j : s.callers[j]? = some (.start at_))
    (h : s.startStep j at_ = some t) : StopMove (.caller j) s t := by
  cases at_ with
  | enter =>
      obtain ⟨-, rfl⟩ := locked_eq_some.mp h
      refine .walk at_j (.inl rfl) ?_ rfl
      split <;> rfl
  | leave =>
      obtain ⟨-, rfl⟩ := locked_eq_some.mp h
      exact .walk at_j (.inl rfl) rfl rfl
  | allowAccepts | accept | runIo =>
      cases h
      exact .walk at_j (.inl rfl) rfl rfl

theorem stopStep_stopMove {at_ : StopAt} (at_j : s.callers[j]? = some (.stop at_))
    (h : s.stopStep j at_ = some t) : StopMove (.caller j) s t := by
  cases at_ with
  | enter =>
      obtain ⟨-, rfl⟩ := locked_eq_some.mp h
      split <;> exact .walk at_j (.inl rfl) rfl rfl
  | look =>
      obtain ⟨-, rfl⟩ := locked_eq_some.mp h
      refine .walk at_j (.inl rfl) ?_ rfl
      split <;> rfl
  | collect | leave =>
      obtain ⟨-, rfl⟩ := locked_eq_some.mp h
      exact .walk at_j (.inl rfl) rfl rfl
  | close targets =>
      cases targets with
      | nil =>
          cases h
          exact .walk at_j (.inl rfl) rfl rfl
      | cons i rest =>
          cases h
          have same := callSession_stopSide s i .closeForShutdown
          have callers : (s.callSession i .closeForShutdown).callers = s.callers :=
            congrArg StopSide.callers same
          refine .walk at_j (.inl rfl) (show CallerAt.passive (.stop (.close rest)) = true from rfl) ?_
          rw [← same, ← callers]
          rfl
  | test =>
      obtain ⟨-, rfl⟩ := locked_eq_some.mp h
      rcases test_cases s j with ⟨done, side⟩ | ⟨waits, side⟩
      · exact .pass at_j done side
      · exact .park at_j waits side
  | clearWait =>
      cases h
      exact .clear at_j rfl
  | arm =>
      cases h
      exact .arm at_j rfl
  | disarm =>
      cases h
      exact .walk at_j (.inr (.inl rfl)) (show CallerAt.passive (.stop .stopIo) = true from rfl) rfl
  | requestStop =>
      cases h
      exact .walk at_j (.inl rfl) rfl rfl
  | stopIo =>
      cases h
      exact .halt at_j rfl rfl
  | joinIo =>
      obtain ⟨-, rfl⟩ := joinIo_eq_some h
      exact .walk at_j (.inr (.inr rfl)) (show CallerAt.passive (.stop .leave) = true from rfl) rfl
  | asleep => cases h

theorem acceptStep_stopSide {failed : Bool} {remote : Option (String × UInt16)} {at_ : AcceptAt}
    (h : s.acceptStep j failed remote at_ = some t) : t.stopSide = s.stopSide := by
  cases at_ with
  | waiting =>
      simp only [acceptStep] at h
      split at h
      · cases h
      · split at h <;> cases h <;> rfl
  | beforeAccept =>
      simp only [acceptStep] at h
      split at h <;> cases h <;> rfl
  | beforeClient | client | again =>
      cases h
      rfl

theorem handlerStep_stopMove {at_ : DrainAt} (h : s.handlerStep j at_ = some t) :
    StopMove (.handler j) s t := by
  cases at_ with
  | collect =>
      obtain ⟨-, rfl⟩ := locked_eq_some.mp h
      exact .handle j (.close _) rfl
  | close targets =>
      cases targets with
      | nil =>
          cases h
          exact .handled rfl
      | cons i rest =>
          cases h
          have same := callSession_stopSide s i .closeForcefully
          have handlers : (s.callSession i .closeForcefully).handlers = s.handlers :=
            congrArg StopSide.handlers same
          refine .handle j (.close rest) ?_
          rw [← same, ← handlers]
          rfl

theorem broadcastNext_stopSide (h : s.broadcastNext = some t) : t.stopSide = s.stopSide := by
  obtain ⟨lock, peers, -, rfl⟩ := broadcastNext_frame h
  rfl

theorem sessionStep_stopSide {i : Nat} {e : SessionEvent Unit} {notes : List (Nat × RegistryNote)}
    (h : s.sessionStep cfg i e = some (t, notes)) : t.stopSide = s.stopSide := by
  obtain ⟨peers, sessions, notifiers, -, rfl⟩ := sessionStep_frame h
  rfl

theorem broadcast_stopSide {isBinary : Bool} {data : List UInt8}
    (h : s.broadcast isBinary data = some t) :
    t.stopSide = s.stopSide := by
  obtain ⟨-, rfl⟩ := locked_eq_some.mp h
  split <;> rfl

theorem expire_stopSide {i : Nat} (h : s.expire i = some t) : t.stopSide = s.stopSide := by
  obtain ⟨peer, -, -, rfl⟩ := expire_spec h
  rfl

theorem next_stopMove {e : WsServerEvent} {notes : List (Nat × RegistryNote)}
    (h : s.next cfg e = some (t, notes)) : StopMove e s t := by
  cases next_step h with
  | call first =>
      refine .call ?_ rfl
      rcases first with rfl | rfl <;> rfl
  | start at_j taken same => exact same ▸ startStep_stopMove at_j taken
  | stop at_j taken same => exact same ▸ stopStep_stopMove at_j taken
  | wake woken => exact .wake woken rfl
  | @resume _ j _ cv resumed _ =>
      rcases test_cases { s with cv := cv } j with ⟨done, side⟩ | ⟨waits, side⟩
      · exact .rise resumed done side
      · exact .again resumed waits side
  | accept _ taken => exact .same (acceptStep_stopSide taken)
  | timer io same => exact .ring same io rfl
  | handler _ taken same => exact same ▸ handlerStep_stopMove taken
  | notify => exact .notify rfl
  | broadcast taken => exact .same (broadcast_stopSide taken)
  | broadcastNext taken => exact .same (broadcastNext_stopSide taken)
  | session _ taken => exact .same (sessionStep_stopSide taken)
  | expire taken => exact .same (expire_stopSide taken)

/-! ## Whoever waits is looked after -/

/-- Who waits, or is about to, has a timer running unless the flag is set, and while the flag is set
and a thread sleeps there is a handler that has still to notify. -/
structure Watched (a : StopSide) : Prop where
  seated : Seated a.cv.waiting a.callers (.stop .asleep)
  timed : .stop .asleep ∈ a.callers ∨ .stop .test ∈ a.callers →
    a.stopWait = true ∨ 0 < a.timerWaits ∨ .stop .arm ∈ a.callers
  rung : a.cv.parked ≠ [] → a.stopWait = true → a.handlers ≠ []

namespace Watched

variable {a : StopSide} {pc pc' : CallerAt} {cv : CondVar Nat}

/-- A call that is not about to start a timer goes on outside the wait. -/
theorem timed_set (watched : Watched a) (at_j : a.callers[j]? = some pc) (leaves : pc ≠ .stop .arm)
    (asleep : pc' ≠ .stop .asleep) (test : pc' ≠ .stop .test) :
    .stop .asleep ∈ a.callers.set j pc' ∨ .stop .test ∈ a.callers.set j pc' →
      a.stopWait = true ∨ 0 < a.timerWaits ∨ .stop .arm ∈ a.callers.set j pc' := by
  intro waits
  have before : .stop .asleep ∈ a.callers ∨ .stop .test ∈ a.callers := by
    rcases waits with mem | mem
    · exact .inl ((List.mem_or_eq_of_mem_set mem).resolve_right asleep.symm)
    · exact .inr ((List.mem_or_eq_of_mem_set mem).resolve_right test.symm)
  rcases watched.timed before with flag | timer | arm
  · exact .inl flag
  · exact .inr (.inl timer)
  · exact .inr (.inr (mem_set_of_ne at_j arm leaves.symm))

theorem call (watched : Watched a) (passive : pc.passive = true) :
    Watched { a with callers := a.callers ++ [pc] } := by
  have asleep : pc ≠ .stop .asleep := by
    rintro rfl
    cases passive
  have test : pc ≠ .stop .test := by
    rintro rfl
    cases passive
  refine ⟨watched.seated.concat asleep, ?_, watched.rung⟩
  intro waits
  simp only [List.mem_append, List.mem_singleton, asleep.symm, test.symm, or_false] at waits
  exact (watched.timed waits).imp_right (Or.imp_right fun arm => List.mem_append_left _ arm)

theorem walk (watched : Watched a) (at_j : a.callers[j]? = some pc)
    (leaves : pc ≠ .stop .arm ∧ pc ≠ .stop .asleep) (asleep : pc' ≠ .stop .asleep)
    (test : pc' ≠ .stop .test) : Watched { a with callers := a.callers.set j pc' } where
  seated := watched.seated.set at_j leaves.2 asleep
  timed := watched.timed_set at_j leaves.1 asleep test
  rung := watched.rung

theorem clear (watched : Watched a) (at_j : a.callers[j]? = some (.stop .clearWait)) :
    Watched { a with stopWait := false, callers := a.callers.set j (.stop .arm) } where
  seated := watched.seated.set at_j (by simp) (by simp)
  timed _ := .inr (.inr (List.mem_of_getElem? (set_at at_j)))
  rung _ flag := by cases flag

theorem arm (watched : Watched a) (at_j : a.callers[j]? = some (.stop .arm)) :
    Watched { a with timerWaits := a.timerWaits + 1, callers := a.callers.set j (.stop .test) } where
  seated := watched.seated.set at_j (by simp) (by simp)
  timed _ := .inr (.inl (Nat.succ_pos _))
  rung := watched.rung

theorem park (watched : Watched a) (at_j : a.callers[j]? = some (.stop .test))
    (waits : a.stopWait = false) :
    Watched { a with cv := a.cv.park j, callers := a.callers.set j (.stop .asleep) } where
  seated := watched.seated.sit at_j (by simp) (a.cv.park_waiting j)
  timed _ := by
    have before := watched.timed (.inr (List.mem_of_getElem? at_j))
    exact before.imp_right (Or.imp_right fun arm => mem_set_of_ne at_j arm (by simp))
  rung _ flag := by
    rw [waits] at flag
    cases flag

theorem rise {k : Nat} {cause : Cause} (watched : Watched a)
    (resumed : a.cv.resume cause k = some (j, cv)) :
    Watched { a with cv := cv, callers := a.callers.set j (.stop .disarm) } := by
  obtain ⟨parked, leaves, -⟩ := CondVar.resume_spec resumed
  have at_j := watched.seated.pc_of_mem (leaves.mem_iff.mpr (List.mem_cons_self ..))
  exact ⟨watched.seated.rise leaves (by simp), watched.timed_set at_j (by simp) (by simp) (by simp),
    by simpa only [parked] using watched.rung⟩

theorem again {k : Nat} {cause : Cause} (watched : Watched a)
    (resumed : a.cv.resume cause k = some (j, cv)) (waits : a.stopWait = false) :
    Watched { a with cv := cv.park j, callers := a.callers.set j (.stop .asleep) } := by
  obtain ⟨-, leaves, -⟩ := CondVar.resume_spec resumed
  have at_j := watched.seated.pc_of_mem (leaves.mem_iff.mpr (List.mem_cons_self ..))
  -- the thread is where it was
  have same : a.callers.set j (.stop .asleep) = a.callers := by
    obtain ⟨lt, here⟩ := List.getElem?_eq_some_iff.mp at_j
    rw [← here, List.set_getElem_self]
  rw [same]
  refine ⟨watched.seated.perm ((cv.park_waiting j).trans leaves.symm), watched.timed, ?_⟩
  intro _ flag
  rw [waits] at flag
  cases flag

theorem move {e : WsServerEvent} (watched : Watched s.stopSide) (step : StopMove e s t) : Watched t.stopSide := by
  have quiet : ∀ {pc : CallerAt}, pc.passive = true ∨ pc = .stop .disarm ∨ pc = .stop .joinIo →
      pc ≠ .stop .arm ∧ pc ≠ .stop .asleep ∧ pc ≠ .stop .test := by
    intro pc h
    refine ⟨?_, ?_, ?_⟩ <;> rintro rfl <;> simp [CallerAt.passive] at h
  cases step with
  | same side =>
      rw [side]
      exact watched
  | call passive side =>
      rw [side]
      exact watched.call passive
  | walk at_j leaves enters side =>
      rw [side]
      have out := quiet leaves
      have into := quiet (.inl enters)
      exact watched.walk at_j ⟨out.1, out.2.1⟩ into.2.1 into.2.2
  | halt at_j stopped side =>
      rw [side]
      exact watched.walk at_j (by simp) (by simp) (by simp)
  | clear at_j side =>
      rw [side]
      exact watched.clear at_j
  | arm at_j side =>
      rw [side]
      exact watched.arm at_j
  | pass at_j done side =>
      rw [side]
      exact watched.walk at_j (by simp) (by simp) (by simp)
  | park at_j waits side =>
      rw [side]
      exact watched.park at_j waits
  | wake woken side =>
      rw [side]
      have waiting := CondVar.wake_waiting woken
      obtain ⟨i, rest, parked, rfl⟩ := CondVar.wake_spec woken
      refine ⟨watched.seated.perm waiting, watched.timed, ?_⟩
      intro _ flag
      refine watched.rung ?_ flag
      intro none
      have length := parked.length_eq
      rw [show s.cv.parked = [] from none] at length
      simp at length
  | rise resumed done side =>
      rw [side]
      exact watched.rise resumed
  | again resumed waits side =>
      rw [side]
      exact watched.again resumed waits
  | ring rang io side =>
      rw [side]
      exact ⟨watched.seated, fun _ => .inl rfl, fun _ _ => by simp⟩
  | handle k at_ side =>
      rw [side]
      refine ⟨watched.seated, watched.timed, ?_⟩
      intro parked flag
      have more : s.handlers ≠ [] := watched.rung parked flag
      simpa using more
  | handled side =>
      rw [side]
      refine ⟨watched.seated.perm s.cv.notifyAll_waiting, watched.timed, fun parked => ?_⟩
      simp [StopSide.handled] at parked
  | notify side =>
      rw [side]
      exact ⟨watched.seated.perm s.cv.notifyAll_waiting, watched.timed, fun parked => by simp at parked⟩

end Watched

theorem watched_run {s₀ : WsServer}
    {ts : List (Transition WsServer WsServerEvent (List (Nat × RegistryNote)))}
    (init : (wsServerMachine cfg).init s₀) (run : (wsServerMachine cfg).Run s₀ ts s) :
    Watched s.stopSide := by
  refine run.invariant (I := fun s => Watched s.stopSide) ?_ ?_
  · rw [show s₀ = create from init]
    refine ⟨?_, by simp [stopSide, create], by simp [stopSide, create, CondVar.empty]⟩
    intro i
    simp [stopSide, create, CondVar.empty, CondVar.waiting]
  · intro s e t o watched h
    exact watched.move (next_stopMove h)

/-! ## Leading a call to its return -/

/-- The steps of the server itself: no session, no peer and no new call takes part. An accept handler
that has begun goes on, and no new connection comes in. -/
def own (s : WsServer) : WsServerEvent → Bool
  | .caller _ | .resume _ _ | .timer | .handler _ | .notify | .broadcastNext => true
  | .accept j _ _ => s.accepts[j]? != some .waiting
  | .start | .stop | .wake _ | .broadcast _ _ | .session _ _ | .expire _ => false

abbrev Leads (cfg : WsConfig) (goal : WsServer → Prop) (s : WsServer) : Prop :=
  (wsServerMachine cfg).Leads (fun s e => s.own e = true) goal s

abbrev Ends (cfg : WsConfig) (j : Nat) (s : WsServer) : Prop :=
  Leads cfg (fun t => t.callers[j]? = some .returned) s

theorem leads_step {goal : WsServer → Prop} {e : WsServerEvent} (h : s.next cfg e = some (t, []))
    (own : s.own e = true) (later : Leads cfg goal t) : Leads cfg goal s :=
  Machine.Leads.step h own later

theorem callSession_io (s : WsServer) (i : Nat) (c : Call) :
    (s.callSession i c).ioRunning = s.ioRunning := by
  obtain ⟨peers, -, same⟩ := callSession_frame s i c
  rw [same]
  rfl

/-- A broadcast comes to its end. -/
theorem leads_unlock (cfg : WsConfig) (s : WsServer) :
    Leads cfg (fun t => t.lock = none ∧ t.stopSide = s.stopSide ∧ t.ioRunning = s.ioRunning) s := by
  cases held : s.lock with
  | none => exact .here ⟨held, rfl, rfl⟩
  | some b =>
      -- one entry of the registry at a time
      generalize left : b.remaining = remaining
      induction remaining generalizing s b with
      | nil =>
          refine leads_step (e := .broadcastNext) (t := { s with lock := none }) ?_ rfl
            (.here ⟨rfl, rfl, rfl⟩)
          simp [next, broadcastNext, held, left]
      | cons i rest ih =>
          let b' : Broadcast := { b with passed := b.passed ++ [i], remaining := rest }
          by_cases expired : s.expired i = true
          · refine leads_step (e := .broadcastNext) (t := { s with lock := some b' }) ?_ rfl ?_
            · simp [next, broadcastNext, held, left, expired, b']
            · exact (ih { s with lock := some b' } b' rfl rfl).bind fun t there => .here there
          · let b'' : Broadcast := { b' with offered := b.offered ++ [i] }
            refine leads_step (e := .broadcastNext)
              (t := { s.callSession i b.call with lock := some b'' }) ?_ rfl ?_
            · simp [next, broadcastNext, held, left, expired, b', b'']
            · refine (ih { s.callSession i b.call with lock := some b'' } b'' rfl rfl).bind ?_
              intro t there
              refine .here ⟨there.1, there.2.1.trans (callSession_stopSide s i b.call), ?_⟩
              exact there.2.2.trans (callSession_io s i b.call)

theorem ends_unlock (h : ∀ t : WsServer, t.lock = none → t.stopSide = s.stopSide →
    t.ioRunning = s.ioRunning → Ends cfg j t) : Ends cfg j s :=
  (leads_unlock cfg s).bind fun t there => h t there.1 there.2.1 there.2.2

theorem ends_step {at_ : StopAt} (at_j : s.callers[j]? = some (.stop at_))
    (h : s.stopStep j at_ = some t) (later : Ends cfg j t) : Ends cfg j s := by
  refine leads_step (e := .caller j) ?_ rfl later
  simp [next, callerStep, at_j, h]

theorem locked_of_free (free : s.lock = none) (critical : WsServer) :
    s.locked critical = some critical :=
  locked_eq_some.mpr ⟨free, rfl⟩

theorem callers_eq (side : t.stopSide = s.stopSide) : t.callers = s.callers :=
  congrArg StopSide.callers side

theorem handlers_eq (side : t.stopSide = s.stopSide) : t.handlers = s.handlers :=
  congrArg StopSide.handlers side

/-- A handler of the drain timer comes to its notification, which is its end. -/
theorem leads_notified (cfg : WsConfig) {k : Nat} {at_ : DrainAt} (at_k : s.handlers[k]? = some at_) :
    Leads cfg (fun t => t.stopSide = s.stopSide.handled k) s := by
  have closes : ∀ (targets : List Nat) (s : WsServer), s.handlers[k]? = some (.close targets) →
      Leads cfg (fun t => t.stopSide = s.stopSide.handled k) s := by
    intro targets
    induction targets with
    | nil =>
        intro s at_k
        refine leads_step (e := .handler k)
          (t := { s with cv := s.cv.notifyAll, handlers := s.handlers.eraseIdx k }) ?_ rfl (.here rfl)
        simp [next, at_k, handlerStep]
    | cons i rest ih =>
        intro s at_k
        have side := callSession_stopSide s i .closeForcefully
        have at_k' : (s.callSession i .closeForcefully).handlers[k]? = some (.close (i :: rest)) :=
          handlers_eq side ▸ at_k
        refine leads_step (e := .handler k)
          (t := { s.callSession i .closeForcefully with
            handlers := (s.callSession i .closeForcefully).handlers.set k (.close rest) }) ?_ rfl ?_
        · simp [next, at_k, handlerStep]
        · refine (ih _ (set_at at_k')).bind fun t there => .here (there.trans ?_)
          rw [← side]
          simp [stopSide, StopSide.handled, List.eraseIdx_set_eq]
  cases at_ with
  | close targets => exact closes targets s at_k
  | collect =>
      refine (leads_unlock cfg s).bind fun t there => ?_
      obtain ⟨free, side, -⟩ := there
      have at_t : t.handlers[k]? = some .collect := handlers_eq side ▸ at_k
      refine leads_step (e := .handler k)
        (t := { t.removeInvalidSessions with
          handlers := t.handlers.set k (.close t.removeInvalidSessions.sessions) }) ?_ rfl ?_
      · simp [next, at_t, handlerStep, locked_of_free free, removeInvalidSessions]
      · refine (closes _ _ (set_at at_t)).bind fun u there => .here (there.trans ?_)
        rw [← side]
        simp [stopSide, StopSide.handled, List.eraseIdx_set_eq, removeInvalidSessions]

theorem ends_leave (at_j : s.callers[j]? = some (.stop .leave)) : Ends cfg j s := by
  refine ends_unlock fun t free side _ => ?_
  have at_t : t.callers[j]? = some (.stop .leave) := callers_eq side ▸ at_j
  exact ends_step at_t (locked_of_free free _) (.here (set_at at_t))

/-! ### The io threads come to rest -/

/-- The handlers of the drain timer end, one after the other. -/
theorem leads_handled (cfg : WsConfig) (s : WsServer) :
    Leads cfg (fun t => t.handlers = [] ∧ t.callers = s.callers) s := by
  generalize size : s.handlers.length = n
  induction n generalizing s with
  | zero => exact .here ⟨List.eq_nil_of_length_eq_zero size, rfl⟩
  | succ n ih =>
      have first : 0 < s.handlers.length := by omega
      refine (leads_notified cfg (List.getElem?_eq_getElem first)).bind fun t there => ?_
      have handlers : t.handlers = s.handlers.eraseIdx 0 := congrArg StopSide.handlers there
      have fewer : t.handlers.length = n := by
        rw [handlers, List.length_eraseIdx_of_lt first]
        omega
      refine (ih t fewer).bind fun u done => .here ⟨done.1, done.2.trans ?_⟩
      exact congrArg StopSide.callers there

end WsServer

def AcceptAt.toGo : AcceptAt → Nat
  | .waiting => 0
  | .again => 1
  | .beforeAccept => 2
  | .client => 3
  | .beforeClient => 4

theorem AcceptAt.eq_waiting {at_ : AcceptAt} (h : at_.toGo = 0) : at_ = .waiting := by
  cases at_ with
  | waiting => rfl
  | again | beforeAccept | client | beforeClient => cases h

namespace WsServer

variable {cfg : WsConfig} {s t u : WsServer} {j : Nat}

def toGo (s : WsServer) : Nat := s.notifiers + (s.accepts.map AcceptAt.toGo).sum

/-- An accept handler that has begun takes its next step. -/
theorem acceptStep_toGo {at_ : AcceptAt} (at_j : s.accepts[j]? = some at_) (begun : at_ ≠ .waiting) :
    ∃ t, s.acceptStep j false none at_ = some t ∧ t.toGo < s.toGo ∧
      t.handlers = s.handlers ∧ t.callers = s.callers := by
  -- the handler goes on to a place that is closer to its end
  have nearer : ∀ {at_' : AcceptAt}, at_'.toGo < at_.toGo →
      s.notifiers + ((s.accepts.set j at_').map AcceptAt.toGo).sum < s.toGo := by
    intro at_' less
    have moved := sum_map_set AcceptAt.toGo at_' at_j
    unfold toGo
    omega
  cases at_ with
  | waiting => exact absurd rfl begun
  | beforeClient =>
      refine ⟨_, rfl, nearer ?_, rfl, rfl⟩
      split <;> decide
  | client => exact ⟨_, rfl, nearer (by decide), rfl, rfl⟩
  | again => exact ⟨_, rfl, nearer (by decide), rfl, rfl⟩
  | beforeAccept =>
      by_cases requested : s.stopRequested = true
      · refine ⟨_, if_pos requested, ?_, rfl, rfl⟩
        have gone := sum_map_eraseIdx AcceptAt.toGo at_j
        simp only [AcceptAt.toGo] at gone
        simp only [toGo]
        omega
      · exact ⟨_, if_neg requested, nearer (by decide), rfl, rfl⟩

theorem ioIdle_of_toGo (handlers : s.handlers = []) (zero : s.toGo = 0) : s.ioIdle = true := by
  obtain ⟨notifiers, accepts⟩ := Nat.add_eq_zero_iff.mp zero
  have waiting : ∀ at_ ∈ s.accepts, at_ = .waiting := by
    intro at_ mem
    exact AcceptAt.eq_waiting (List.sum_eq_zero_iff_forall_eq_nat.mp accepts _ (List.mem_map_of_mem mem))
  simpa [ioIdle, handlers, notifiers] using waiting

/-- While something is under way a step of the server brings it closer to its end. -/
theorem toGo_descends {handlers : List DrainAt} {callers : List CallerAt} (s : WsServer)
    (kept : s.handlers = handlers ∧ s.callers = callers) (busy : s.toGo ≠ 0) :
    ∃ e t o, (wsServerMachine cfg).next s e = some (t, o) ∧ s.own e = true ∧
      (t.handlers = handlers ∧ t.callers = callers) ∧ t.toGo < s.toGo := by
  by_cases notifies : 0 < s.notifiers
  · refine ⟨.notify, { s with notifiers := s.notifiers - 1, cv := s.cv.notifyAll }, [],
      if_pos notifies, rfl, kept, ?_⟩
    simp only [toGo]
    omega
  · have begun : ∃ at_ ∈ s.accepts, at_ ≠ .waiting := by
      by_contra none
      simp only [not_exists, not_and, not_not] at none
      refine busy (Nat.add_eq_zero_iff.mpr ⟨by omega, List.sum_eq_zero_iff_forall_eq_nat.mpr ?_⟩)
      simpa using fun at_ mem => none at_ mem ▸ rfl
    obtain ⟨at_, mem, begun⟩ := begun
    obtain ⟨j, at_j⟩ := List.mem_iff_getElem?.mp mem
    obtain ⟨t, taken, less, handlers, callers⟩ := acceptStep_toGo at_j begun
    refine ⟨.accept j false none, t, [], ?_, ?_, ⟨handlers.trans kept.1, callers.trans kept.2⟩, less⟩
    · show s.next cfg (.accept j false none) = some (t, [])
      simp [next, at_j, taken]
    · simp [own, at_j, begun]

/-- Whatever the io threads are in the middle of, they come to rest. -/
theorem leads_idle (cfg : WsConfig) (s : WsServer) :
    Leads cfg (fun t => t.ioIdle = true ∧ t.callers = s.callers) s := by
  refine (leads_handled cfg s).bind fun t there => ?_
  refine (Machine.Leads.descend toGo_descends there).bind fun u done => ?_
  exact .here ⟨ioIdle_of_toGo done.1.1 done.2, done.1.2⟩

theorem ends_joinIo (at_j : s.callers[j]? = some (.stop .joinIo)) : Ends cfg j s := by
  refine (leads_idle cfg s).bind fun t there => ?_
  have at_t : t.callers[j]? = some (.stop .joinIo) := there.2 ▸ at_j
  exact ends_step at_t (if_pos there.1) (ends_leave (set_at at_t))

theorem ends_stopIo (at_j : s.callers[j]? = some (.stop .stopIo)) : Ends cfg j s :=
  ends_step at_j rfl (ends_joinIo (set_at at_j))

theorem ends_disarm (at_j : s.callers[j]? = some (.stop .disarm)) : Ends cfg j s :=
  ends_step at_j rfl (ends_stopIo (set_at at_j))

/-- The predicate of the wait holds. -/
theorem test_of_stopWait {pc : CallerAt} (flag : s.stopWait = true) (at_j : s.callers[j]? = some pc) :
    (s.test j).callers[j]? = some (.stop .disarm) := by
  unfold test
  simp only
  rw [if_pos (.inr flag)]
  exact set_at at_j

/-- A thread that has left the wait set finds the flag set. -/
theorem ends_rising (seated : Seated s.cv.waiting s.callers (.stop .asleep))
    (at_j : s.callers[j]? = some (.stop .asleep)) (none : s.cv.parked = [])
    (flag : s.stopWait = true) : Ends cfg j s := by
  refine ends_unlock fun t free side _ => ?_
  have cv : t.cv = s.cv := congrArg StopSide.cv side
  have flag' : t.stopWait = true := (congrArg StopSide.stopWait side).trans flag
  have at_t : t.callers[j]? = some (.stop .asleep) := callers_eq side ▸ at_j
  rcases CondVar.enabled_of_waiting (seated.mem_of_pc at_j) with
    ⟨k, cv', woken⟩ | ⟨cause, k, cv', resumed⟩
  · obtain ⟨i, rest, parked, -⟩ := CondVar.wake_spec woken
    rw [none] at parked
    have length := parked.length_eq
    simp at length
  · refine leads_step (e := .resume cause k) (t := { t with cv := cv' }.test j) ?_ rfl ?_
    · simp [next, cv, resumed, locked_of_free free]
    · exact ends_disarm (test_of_stopWait flag' at_t)

/-- The flag is set: the sleepers have been notified, or a handler will do it. -/
theorem ends_flagged (watched : Watched s.stopSide) (at_j : s.callers[j]? = some (.stop .asleep))
    (flag : s.stopWait = true) : Ends cfg j s := by
  by_cases parked : s.cv.parked = []
  · exact ends_rising watched.seated at_j parked flag
  · obtain ⟨at_, rest, handlers⟩ := List.exists_cons_of_ne_nil (watched.rung parked flag)
    have at_k : s.handlers[0]? = some at_ := by
      rw [show s.handlers = at_ :: rest from handlers]
      rfl
    refine (leads_notified cfg at_k).bind fun t there => ?_
    have cv : t.cv = s.cv.notifyAll := congrArg StopSide.cv there
    have callers : t.callers = s.callers := congrArg StopSide.callers there
    have same : t.stopWait = s.stopWait := congrArg StopSide.stopWait there
    refine ends_rising ?_ (callers ▸ at_j) (by rw [cv]; rfl) (same.trans flag)
    rw [cv, callers]
    exact watched.seated.perm s.cv.notifyAll_waiting

theorem ends_timed (watched : Watched s.stopSide) (at_j : s.callers[j]? = some (.stop .asleep))
    (io : s.ioRunning = true) (timer : 0 < s.timerWaits) : Ends cfg j s := by
  have fires : s.next cfg .timer = some ({ s with
      timerWaits := s.timerWaits - 1, stopWait := true, handlers := s.handlers ++ [.collect] }, []) := by
    simp [next, timerFires, io, timer]
  exact leads_step fires rfl (ends_flagged (watched.move (next_stopMove fires)) at_j rfl)

/-- A sleeping call: the flag is set, or its timer runs, or another call is about to start one. -/
theorem ends_asleep (watched : Watched s.stopSide) (at_j : s.callers[j]? = some (.stop .asleep))
    (io : s.ioRunning = true) : Ends cfg j s := by
  rcases watched.timed (.inl (List.mem_of_getElem? at_j)) with flag | timer | arm
  · exact ends_flagged watched at_j flag
  · exact ends_timed watched at_j io timer
  · obtain ⟨k, at_k⟩ := List.mem_iff_getElem?.mp arm
    have at_k' : s.callers[k]? = some (.stop .arm) := at_k
    have other : k ≠ j := by
      rintro rfl
      rw [at_k'] at at_j
      cases at_j
    have arms : s.next cfg (.caller k) = some
        ({ s with timerWaits := s.timerWaits + 1 }.setCaller k (.stop .test), []) := by
      simp [next, callerStep, at_k', stopStep]
    refine leads_step arms rfl (ends_timed (watched.move (next_stopMove arms)) ?_ io (Nat.succ_pos _))
    exact (List.getElem?_set_ne other).trans at_j

theorem ends_test (watched : Watched s.stopSide) (at_j : s.callers[j]? = some (.stop .test))
    (io : s.ioRunning = true) : Ends cfg j s := by
  refine ends_unlock fun t free side same => ?_
  have at_t : t.callers[j]? = some (.stop .test) := callers_eq side ▸ at_j
  have tests : t.stopStep j .test = some (t.test j) := locked_of_free free _
  refine ends_step at_t tests ?_
  have watched' := Watched.move (side ▸ watched) (stopStep_stopMove at_t tests)
  rcases test_cases t j with ⟨-, after⟩ | ⟨-, after⟩
  · refine ends_disarm ?_
    rw [show (t.test j).callers = t.callers.set j _ from congrArg StopSide.callers after]
    exact set_at at_t
  · refine ends_asleep watched' ?_ ?_
    · rw [show (t.test j).callers = t.callers.set j _ from congrArg StopSide.callers after]
      exact set_at at_t
    · obtain ⟨sessions, cv, callers, tested⟩ := test_frame t j
      rw [tested]
      exact same.trans io

theorem ends_arm (watched : Watched s.stopSide) (at_j : s.callers[j]? = some (.stop .arm))
    (io : s.ioRunning = true) : Ends cfg j s := by
  have arms : s.stopStep j .arm =
      some ({ s with timerWaits := s.timerWaits + 1 }.setCaller j (.stop .test)) := rfl
  exact ends_step at_j arms (ends_test (watched.move (stopStep_stopMove at_j arms)) (set_at at_j) io)

theorem ends_clearWait (watched : Watched s.stopSide) (at_j : s.callers[j]? = some (.stop .clearWait))
    (io : s.ioRunning = true) : Ends cfg j s := by
  have clears : s.stopStep j .clearWait = some ({ s with stopWait := false }.setCaller j (.stop .arm)) :=
    rfl
  exact ends_step at_j clears (ends_arm (watched.move (stopStep_stopMove at_j clears)) (set_at at_j) io)

theorem ends_close (targets : List Nat) (watched : Watched s.stopSide)
    (at_j : s.callers[j]? = some (.stop (.close targets))) (io : s.ioRunning = true) : Ends cfg j s := by
  induction targets generalizing s with
  | nil =>
      have goes : s.stopStep j (.close []) = some (s.setCaller j (.stop .clearWait)) := rfl
      exact ends_step at_j goes
        (ends_clearWait (watched.move (stopStep_stopMove at_j goes)) (set_at at_j) io)
  | cons i rest ih =>
      have goes : s.stopStep j (.close (i :: rest)) =
          some ((s.callSession i .closeForShutdown).setCaller j (.stop (.close rest))) := rfl
      have at_j' : (s.callSession i .closeForShutdown).callers[j]? = some (.stop (.close (i :: rest))) :=
        callers_eq (callSession_stopSide s i .closeForShutdown) ▸ at_j
      exact ends_step at_j goes (ih (watched.move (stopStep_stopMove at_j goes)) (set_at at_j')
        ((callSession_io s i .closeForShutdown).trans io))

theorem ends_collect (watched : Watched s.stopSide) (at_j : s.callers[j]? = some (.stop .collect))
    (io : s.ioRunning = true) : Ends cfg j s := by
  refine ends_unlock fun t free side same => ?_
  have at_t : t.callers[j]? = some (.stop .collect) := callers_eq side ▸ at_j
  have goes : t.stopStep j .collect = some (t.removeInvalidSessions.setCaller j
      (.stop (.close t.removeInvalidSessions.sessions))) := locked_of_free free _
  exact ends_step at_t goes (ends_close _ (Watched.move (side ▸ watched) (stopStep_stopMove at_t goes))
    (set_at at_t) (same.trans io))

theorem ends_look (watched : Watched s.stopSide) (at_j : s.callers[j]? = some (.stop .look))
    (io : s.ioRunning = true) : Ends cfg j s := by
  refine ends_unlock fun t free side same => ?_
  have at_t : t.callers[j]? = some (.stop .look) := callers_eq side ▸ at_j
  have goes : t.stopStep j .look = some (t.setCaller j
      (.stop (if t.serverState = .stopped then .stopIo else .collect))) := locked_of_free free _
  have watched' := Watched.move (side ▸ watched) (stopStep_stopMove at_t goes)
  refine ends_step at_t goes ?_
  by_cases stopped : t.serverState = .stopped
  · rw [if_pos stopped]
    exact ends_stopIo (set_at at_t)
  · rw [if_neg stopped] at watched' ⊢
    exact ends_collect watched' (set_at at_t) (same.trans io)

theorem ends_requestStop (watched : Watched s.stopSide)
    (at_j : s.callers[j]? = some (.stop .requestStop)) (io : s.ioRunning = true) : Ends cfg j s := by
  have goes : s.stopStep j .requestStop =
      some ({ s with stopRequested := true }.setCaller j (.stop .look)) := rfl
  exact ends_step at_j goes (ends_look (watched.move (stopStep_stopMove at_j goes)) (set_at at_j) io)

theorem ends_enter (watched : Watched s.stopSide) (at_j : s.callers[j]? = some (.stop .enter))
    (io : s.ioRunning = true) : Ends cfg j s := by
  refine ends_unlock fun t free side same => ?_
  have at_t : t.callers[j]? = some (.stop .enter) := callers_eq side ▸ at_j
  by_cases late : t.serverState = .stopping ∨ t.serverState = .stopped
  · have goes : t.stopStep j .enter = some (t.setCaller j .returned) := by
      simp only [stopStep, if_pos late, locked_of_free free]
    exact ends_step at_t goes (.here (set_at at_t))
  · have goes : t.stopStep j .enter =
        some ({ t with serverState := .stopping }.setCaller j (.stop .requestStop)) := by
      simp only [stopStep, if_neg late, locked_of_free free]
    exact ends_step at_t goes (ends_requestStop
      (Watched.move (side ▸ watched) (stopStep_stopMove at_t goes))
      (set_at at_t) (same.trans io))

end WsServer

/-- The call has still to get past its wait for the sessions. -/
def StopAt.beforeDisarm : StopAt → Bool
  | .disarm | .stopIo | .joinIo | .leave => false
  | .enter | .requestStop | .look | .collect | .close _ | .clearWait | .arm | .test | .asleep => true

/-- Wherever a call of `stop` is and whatever the sessions do or fail to do, steps of the server alone
can lead the call to its return; before it has got past its wait, this needs the io threads. -/
theorem stop_can_return (cfg : WsConfig) {s₀ s : WsServer} {j : Nat} {a : StopAt}
    {ts : List (Transition WsServer WsServerEvent (List (Nat × RegistryNote)))}
    (init : (wsServerMachine cfg).init s₀) (run : (wsServerMachine cfg).Run s₀ ts s)
    (at_j : s.callers[j]? = some (.stop a)) (io : a.beforeDisarm = true → s.ioRunning = true) :
    ∃ us t, (wsServerMachine cfg).Run s us t ∧ (∀ u ∈ us, u.before.own u.event = true) ∧
      t.callers[j]? = some .returned := by
  have watched := WsServer.watched_run init run
  cases a with
  | enter => exact WsServer.ends_enter watched at_j (io rfl)
  | requestStop => exact WsServer.ends_requestStop watched at_j (io rfl)
  | look => exact WsServer.ends_look watched at_j (io rfl)
  | collect => exact WsServer.ends_collect watched at_j (io rfl)
  | close targets => exact WsServer.ends_close targets watched at_j (io rfl)
  | clearWait => exact WsServer.ends_clearWait watched at_j (io rfl)
  | arm => exact WsServer.ends_arm watched at_j (io rfl)
  | test => exact WsServer.ends_test watched at_j (io rfl)
  | asleep => exact WsServer.ends_asleep watched at_j (io rfl)
  | disarm => exact WsServer.ends_disarm at_j
  | stopIo => exact WsServer.ends_stopIo at_j
  | joinIo => exact WsServer.ends_joinIo at_j
  | leave => exact WsServer.ends_leave at_j

/-- A server with an open session is told to stop, and the call falls asleep. -/
def stopTrace : List WsServerEvent :=
  openTrace ++ [.stop, .caller 1, .caller 1, .caller 1, .caller 1, .caller 1, .caller 1, .caller 1,
    .caller 1, .caller 1]

theorem stop_can_return_stopTrace :
    ∃ ts s, (wsServerMachine defaultConfig).exec .create stopTrace = some (ts, s) ∧
      s.callers[1]? = some (.stop .asleep) ∧
      ∃ us t, (wsServerMachine defaultConfig).Run s us t ∧ (∀ u ∈ us, u.before.own u.event = true) ∧
        t.callers[1]? = some .returned := by
  have h : (wsServerMachine defaultConfig).exec .create stopTrace = some (_, _) := rfl
  exact ⟨_, _, h, rfl, stop_can_return defaultConfig (a := .asleep) rfl (.of_exec h) rfl fun _ => rfl⟩

namespace WsServer

variable {cfg : WsConfig} {s t : WsServer} {j : Nat}

/-- A program counter that is new at `j` is the one that was written. -/
theorem eq_of_set {l : List CallerAt} {k : Nat} {pc pc' : CallerAt} (before : l[j]? ≠ some pc)
    (after : (l.set k pc')[j]? = some pc) : pc' = pc := by
  by_cases same : k = j
  · subst same
    rw [List.getElem?_set] at after
    split at after
    · split at after
      · exact Option.some.inj after
      · cases after
    · contradiction
  · rw [List.getElem?_set_ne same] at after
    exact absurd after before

/-- Only the predicate of the wait lets a call go on to `cancel_wait_timer`. -/
theorem StopMove.disarms {e : WsServerEvent} (step : StopMove e s t)
    (before : s.callers[j]? ≠ some (.stop .disarm))
    (after : t.callers[j]? = some (.stop .disarm)) : t.sessions = [] ∨ t.stopWait = true := by
  have written : ∀ {k : Nat} {pc' : CallerAt}, t.callers = s.callers.set k pc' →
      pc' = .stop .disarm := by
    intro k pc' callers
    exact eq_of_set before (callers ▸ after)
  have kept : t.callers ≠ s.callers := by
    intro same
    exact before (same ▸ after)
  cases step with
  | same side | wake _ side | ring _ _ side | handle _ _ side | handled side | notify side =>
      exact absurd (congrArg StopSide.callers side) kept
  | call passive side =>
      have callers : t.callers = s.callers ++ [_] := congrArg StopSide.callers side
      rw [callers, concat_at] at after
      rcases after with old | ⟨-, rfl⟩
      · exact absurd old before
      · cases passive
  | walk _ _ enters side =>
      rw [written (congrArg StopSide.callers side)] at enters
      cases enters
  | clear _ side => cases written (congrArg StopSide.callers side)
  | halt _ _ side => cases written (congrArg StopSide.callers side)
  | arm _ side => cases written (congrArg StopSide.callers side)
  | park _ _ side => cases written (congrArg StopSide.callers side)
  | again _ _ side => cases written (congrArg StopSide.callers side)
  | pass _ done side => exact done
  | rise _ done side => exact done

/-- The flag is set by the handler of the drain timer only. -/
theorem StopMove.sets {e : WsServerEvent} (step : StopMove e s t) (unset : s.stopWait = false)
    (set : t.stopWait = true) : e = .timer := by
  have flag : t.stopSide.stopWait = true := set
  have off : s.stopSide.stopWait = false := unset
  cases step with
  | ring rang _ _ => exact rang
  | clear _ side =>
      rw [side] at flag
      cases flag
  | same side | call _ side | walk _ _ _ side | arm _ side | halt _ _ side | pass _ _ side
  | park _ _ side | wake _ side | rise _ _ side | again _ _ side | handle _ _ side | handled side
  | notify side =>
      rw [side] at flag
      cases off.symm.trans flag

/-- Who gets past the wait has found the flag set or nobody left to wait for. -/
theorem disarmed_cases {s₀ : WsServer} {e : WsServerEvent}
    {ts : List (Transition WsServer WsServerEvent (List (Nat × RegistryNote)))}
    {notes : List (Nat × RegistryNote)} (init : (wsServerMachine cfg).init s₀)
    (run : (wsServerMachine cfg).Run s₀ ts s) (step : s.next cfg e = some (t, notes))
    (before : s.callers[j]? ≠ some (.stop .disarm)) (after : t.callers[j]? = some (.stop .disarm)) :
    t.stopWait = true ∨ ∀ i, Connected (told ts ++ notes) i → t.expired i = true := by
  have agrees := (agrees_run init run).step (next_registryStep step)
  rcases (next_stopMove step).disarms before after with none | flag
  · right
    intro i connected
    by_contra unexpired
    have entry := agrees.live i connected (by simpa using unexpired)
    rw [none] at entry
    cases entry
  · exact .inl flag

end WsServer

/-- A call of `stop` gets past its wait only when the flag is set, which only the handler of the drain
timer does, or every session that has opened has closed or ended. -/
theorem stop_leaves_wait (cfg : WsConfig) {s₀ s t : WsServer} {j : Nat} {e : WsServerEvent}
    {ts : List (Transition WsServer WsServerEvent (List (Nat × RegistryNote)))}
    {notes : List (Nat × RegistryNote)} (init : (wsServerMachine cfg).init s₀)
    (run : (wsServerMachine cfg).Run s₀ ts s)
    (step : (wsServerMachine cfg).next s e = some (t, notes))
    (before : s.callers[j]? ≠ some (.stop .disarm)) (after : t.callers[j]? = some (.stop .disarm)) :
    (t.stopWait = true ∨ ∀ i, Connected (told ts ++ notes) i → t.expired i = true) ∧
      ∀ u ∈ ts ++ [⟨s, e, notes, t⟩],
        u.before.stopWait = false → u.after.stopWait = true → u.event = .timer := by
  constructor
  · exact WsServer.disarmed_cases init run step before after
  · intro u mem unset set
    have whole := run.step step
    obtain ⟨_, _, _, takes⟩ := whole.mem_prefix mem
    exact (WsServer.next_stopMove takes).sets unset set

/-- The timer goes off, its handler notifies, and the sleeping call goes on. -/
theorem stop_leaves_wait_stopTrace :
    ∃ ts s t notes, (wsServerMachine defaultConfig).exec .create
        (stopTrace ++ [.timer, .handler 0, .handler 0, .handler 0]) = some (ts, s) ∧
      (wsServerMachine defaultConfig).next s (.resume .notified 0) = some (t, notes) ∧
      (t.stopWait = true ∨ ∀ i, Connected (told ts ++ notes) i → t.expired i = true) ∧
      ∀ u ∈ ts ++ [⟨s, .resume .notified 0, notes, t⟩],
        u.before.stopWait = false → u.after.stopWait = true → u.event = .timer := by
  have h : (wsServerMachine defaultConfig).exec .create
      (stopTrace ++ [.timer, .handler 0, .handler 0, .handler 0]) = some (_, _) := rfl
  refine ⟨_, _, _, _, h, rfl, ?_⟩
  exact stop_leaves_wait defaultConfig (j := 1) rfl (.of_exec h) (e := .resume .notified 0) rfl
    (by decide) rfl

end Rtl.Ws
