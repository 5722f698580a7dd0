import Rtl.Ws.ClientSteps

/-! # After `close` has returned

`close` sets `m_closing`, stops the context and joins the io thread. What it does lasts
unless a `connect` had already passed its checks: `init_io` then clears `m_closing`
again and starts a new thread. And it is complete only for the caller that set the
flag; another one returns at once.
-/

namespace Rtl.Ws

open Rtl.Base

namespace WsClient

variable {s : WsClient}

/-! ## The io thread -/

/-- The io thread is the one that can be joined, and it runs the latest context unless
`init_io` has just replaced it. Calls are not made by a handler that is about to call
the open handler. -/
structure IoBound (s : WsClient) : Prop where
  joinable : ∀ (t : Nat) (th : ClientThread), s.threads[t]? = some th → th.body.isIo = true →
    s.shared.ioThread = some t
  latest : (∀ (u : Nat) (th : ClientThread), s.threads[u]? = some th → th.renewing = false) →
    ∀ (t : Nat) (th : ClientThread) (c : Nat), s.threads[t]? = some th → th.body.context = some c →
      s.shared.ioc = some c
  calling : ∀ (t : Nat) (th : ClientThread), s.threads[t]? = some th → th.call ≠ none →
    th.body.opening = false

theorem isIo_of_context {b : ThreadBody} {c : Nat} (h : b.context = some c) : b.isIo = true := by
  cases b <;> first | rfl | cases h

theorem isIo_of_opening {b : ThreadBody} (h : b.opening = true) : b.isIo = true := by
  cases b <;> first | rfl | cases h

theorem not_isFinished_of_isIo {t : Nat} {th : ClientThread} (found : s.threads[t]? = some th)
    (io : th.body.isIo = true) : isFinished s.threads t = false := by
  simp only [isFinished, found]
  cases body : th.body <;> first | rfl | simp [body, ThreadBody.isIo] at io

theorem inWindow_of_renewing {th : ClientThread} (h : th.renewing = true) : th.inWindow = true := by
  obtain ⟨body, call⟩ := th
  cases call with
  | none => cases h
  | some call =>
      cases call with
      | connect pc => cases pc <;> first | rfl | cases h
      | close pc => cases h
      | send task pc => cases h

theorem IoBound.newThread (inv : s.IoBound) :
    IoBound { s with threads := s.threads ++ [⟨.user, none⟩] } := by
  refine ⟨?_, ?_, ?_⟩
  · intro u th at_u io
    rcases newThread_at at_u with before | rfl
    · exact inv.joinable u th before io
    · cases io
  · intro calm u th c at_u context
    rcases newThread_at at_u with before | rfl
    · exact inv.latest (fun v thv at_v => calm v thv (newThread_keeps at_v)) u th c before context
    · cases context
  · intro u th at_u calls
    rcases newThread_at at_u with before | rfl
    · exact inv.calling u th before calls
    · exact absurd rfl calls

theorem IoBound.apply (inv : s.IoBound) {t : Nat} {th : ClientThread} {m : Move}
    (found : s.threads[t]? = some th) (effect : Effect s th m) : (s.apply t m).IoBound := by
  refine ⟨?_, ?_, ?_⟩
  · intro u th' at_u io
    -- A thread that is live after the step was live before, or it has just been started.
    have live : s.shared.ioThread = some u →
        isFinished s.threads u = false → m.shared.ioThread = some u := by
      intro mine running
      rcases effect.ioThread with same | ⟨v, theirs, finished, _⟩ | ⟨free, _⟩
      · rw [same, mine]
      · rw [mine] at theirs
        cases theirs
        rw [running] at finished
        cases finished
      · rw [mine] at free
        cases free
    rcases apply_at at_u with ⟨_, before⟩ | ⟨rfl, rfl⟩ | ⟨rfl, b, spawn, rfl⟩
    · exact live (inv.joinable u th' before io) (not_isFinished_of_isIo before io)
    · have io' := effect.staysIo io
      exact live (inv.joinable u th found io') (not_isFinished_of_isIo found io')
    · exact (effect.spawns b spawn io).2.2.2
  · intro none u th' c at_u context
    have mine : m.thread.renewing = false := none t _ (apply_self found)
    have same : m.shared.ioc = s.shared.ioc := by
      rcases effect.ioc with same | ⟨_, renewing⟩
      · exact same
      · rw [mine] at renewing
        cases renewing
    -- Nobody was renewing the context before, or there was no io thread.
    have before : s.shared.ioThread = Option.none ∨
        ∀ (v : Nat) (thv : ClientThread), s.threads[v]? = some thv → thv.renewing = false := by
      by_cases free : s.shared.ioThread = Option.none
      · exact .inl free
      · refine .inr fun v thv at_v => ?_
        by_cases here : v = t
        · subst here
          rw [found] at at_v
          cases at_v
          by_contra renewing
          rcases effect.renewed (by simpa using renewing) with still | free'
          · rw [mine] at still
            cases still
          · exact free free'
        · exact none v thv (apply_other here at_v)
    have old : ∀ thu, s.threads[u]? = some thu → thu.body.context = some c → m.shared.ioc = some c := by
      intro thu at_u context
      rcases before with free | calm
      · rw [inv.joinable u thu at_u (isIo_of_context context)] at free
        cases free
      · rw [same]
        exact inv.latest calm u thu c at_u context
    rcases apply_at at_u with ⟨_, at_u⟩ | ⟨rfl, rfl⟩ | ⟨rfl, b, spawn, rfl⟩
    · exact old th' at_u context
    · rcases effect.context c context with context | ⟨_, here⟩
      · exact old th found context
      · exact same.trans here
    · have starting := (effect.spawns b spawn (isIo_of_context context)).2.1
      subst starting
      cases context
  · intro u th' at_u calls
    rcases apply_at at_u with ⟨_, before⟩ | ⟨rfl, rfl⟩ | ⟨rfl, b, spawn, rfl⟩
    · exact inv.calling u th' before calls
    · rcases effect.calling calls with quiet | ⟨called, same⟩
      · exact quiet
      · rw [same]
        exact inv.calling u th found called
    · exact absurd rfl calls

/-! ## Closing -/

def Stopped (s : WsClient) : Prop := ∀ c, s.shared.ioc = some c → s.shared.isStopped c = true

/-- No handler runs that will still call the open handler, and none will start. -/
structure Shut (s : WsClient) : Prop where
  stopped : s.Stopped
  notOpening : ∀ (t : Nat) (th : ClientThread), s.threads[t]? = some th → th.body.opening = false

def CloserAt (s : WsClient) : ClosePc → Prop
  | .tearDown .checkIo => s.Stopped
  | .tearDown (.joinIo u) => s.Stopped ∧
      ∀ (t : Nat) (th : ClientThread), s.threads[t]? = some th → th.body.isIo = true → t = u
  | .tearDown .checkHeartbeat => s.Shut
  | .tearDown (.joinHeartbeat _) => s.Shut
  | _ => True

structure CloseInv (s : WsClient) : Prop where
  bound : s.IoBound
  before : s.shared.closing = false →
    ∀ (t : Nat) (th : ClientThread), s.threads[t]? = some th → th.isClosing = false
  sealed : s.shared.closing = true →
    ∀ (t : Nat) (th : ClientThread), s.threads[t]? = some th → th.inWindow = false
  progress : s.shared.closing = true → ∀ (t : Nat) (th : ClientThread) (pc : ClosePc),
    s.threads[t]? = some th → th.call = some (.close pc) → s.CloserAt pc
  finishes : s.shared.closing = true →
    (∃ (t : Nat) (th : ClientThread), s.threads[t]? = some th ∧ th.isClosing = true) ∨ s.Shut

/-- `close` sets `m_closing` at a moment when no `connect` has passed its checks without
having started its io thread, and when no other `close` is in progress. -/
def exchanges (s : WsClient) : ClientEvent → Bool
  | .step t => s.threads[t]?.any fun th => th.call == some (.close .exchange)
  | _ => false

def ClosesQuietly (s : WsClient) (e : ClientEvent) : Prop :=
  s.exchanges e = true → ∀ th ∈ s.threads, th.inWindow = false ∧ th.isClosing = false

instance (s : WsClient) (e : ClientEvent) : Decidable (s.ClosesQuietly e) :=
  inferInstanceAs (Decidable (_ → _))

/-! ### What stays once `m_closing` is set -/

section Sealed

variable {t : Nat} {th : ClientThread} {m : Move}

theorem Stopped.apply (stopped : s.Stopped) (effect : Effect s th m) (window : th.inWindow = false) :
    (s.apply t m).Stopped := by
  intro c here
  have same : m.shared.ioc = s.shared.ioc := by
    rcases effect.ioc with same | ⟨inside, _⟩
    · exact same
    · rw [window] at inside
      cases inside
  rcases effect.stopped with inside | keeps
  · rw [window] at inside
    cases inside
  · exact keeps c (stopped c (same ▸ here))

/-- A live io thread after the step was live before. -/
theorem live_before (found : s.threads[t]? = some th) (effect : Effect s th m)
    (window : th.inWindow = false) {u : Nat} {th' : ClientThread}
    (at_u : (s.apply t m).threads[u]? = some th') (io : th'.body.isIo = true) :
    ∃ thu, s.threads[u]? = some thu ∧ thu.body.isIo = true := by
  rcases apply_at at_u with ⟨_, before⟩ | ⟨rfl, rfl⟩ | ⟨rfl, b, spawn, rfl⟩
  · exact ⟨th', before, io⟩
  · exact ⟨th, found, effect.staysIo io⟩
  · have inside := (effect.spawns b spawn io).1
    rw [window] at inside
    cases inside

theorem Shut.apply (shut : s.Shut) (bound : s.IoBound) (found : s.threads[t]? = some th)
    (effect : Effect s th m)
    (sealed : ∀ (t : Nat) (th : ClientThread), s.threads[t]? = some th → th.inWindow = false) :
    (s.apply t m).Shut := by
  have window := sealed t th found
  have calm : ∀ (u : Nat) (thu : ClientThread), s.threads[u]? = some thu → thu.renewing = false := by
    intro u thu at_u
    by_contra renewing
    have inside := inWindow_of_renewing (by simpa using renewing)
    rw [sealed u thu at_u] at inside
    cases inside
  refine ⟨shut.stopped.apply effect window, ?_⟩
  intro u th' at_u
  rcases apply_at at_u with ⟨_, before⟩ | ⟨rfl, rfl⟩ | ⟨rfl, b, spawn, rfl⟩
  · exact shut.notOpening u th' before
  · by_contra opening
    rcases effect.opening (by simpa using opening) with already | ⟨c, context, running⟩
    · rw [shut.notOpening u th found] at already
      cases already
    · rw [shut.stopped c (bound.latest calm u th c found context)] at running
      cases running
  · by_contra opening
    have inside := (effect.spawns b spawn (isIo_of_opening (by simpa using opening))).1
    rw [window] at inside
    cases inside

theorem CloserAt.apply {pc : ClosePc} (closer : s.CloserAt pc) (bound : s.IoBound)
    (found : s.threads[t]? = some th) (effect : Effect s th m)
    (sealed : ∀ (t : Nat) (th : ClientThread), s.threads[t]? = some th → th.inWindow = false) :
    (s.apply t m).CloserAt pc := by
  have window := sealed t th found
  cases pc with
  | tearDown pc =>
      cases pc with
      | stopIo => trivial
      | checkIo => exact Stopped.apply closer effect window
      | joinIo u =>
          refine ⟨Stopped.apply closer.1 effect window, ?_⟩
          intro v th' at_v io
          obtain ⟨thv, before, io⟩ := live_before found effect window at_v io
          exact closer.2 v thv before io
      | checkHeartbeat => exact Shut.apply closer bound found effect sealed
      | joinHeartbeat u => exact Shut.apply closer bound found effect sealed
  | _ => trivial

/-- Nobody is left on the io thread, or only the thread that closes. -/
theorem shut_of_no_io (stopped : s.Stopped)
    (none : ∀ (t : Nat) (th : ClientThread), s.threads[t]? = some th → th.body.isIo = true →
      th.body.opening = false) : s.Shut := by
  refine ⟨stopped, fun u thu at_u => ?_⟩
  by_contra opening
  have opening : thu.body.opening = true := by simpa using opening
  rw [none u thu at_u (isIo_of_opening opening)] at opening
  cases opening

/-- `close` goes on to where it has achieved more, or it returns and all is shut. -/
theorem closer_step {pc : ClosePc} {m' : CallMove} (bound : s.IoBound)
    (sealed : ∀ (t : Nat) (th : ClientThread), s.threads[t]? = some th → th.inWindow = false)
    (closer : s.CloserAt pc) (late : (CallPc.close pc).isClosing = true)
    (found : s.threads[t]? = some th) (calls : th.call = some (.close pc))
    (h : closeStep s.shared s.threads t pc = some m') :
    (∃ pc', m'.call = some (.close pc') ∧ (CallPc.close pc').isClosing = true ∧
        (s.apply t (m'.toMove th.body)).CloserAt pc') ∨
      m'.call = none ∧ (s.apply t (m'.toMove th.body)).Shut := by
  obtain ⟨body, _⟩ := th
  cases calls
  have effect : Effect s ⟨body, some (.close pc)⟩ (m'.toMove body) := closeStep_effect h
  have window := sealed t _ found
  cases pc with
  | exchange => cases late
  | tearDown pc =>
      obtain ⟨next, step, call⟩ := closeStep_tearDown h
      cases next with
      | none =>
          refine .inr ⟨call, ?_⟩
          rcases tearDownStep_over step with rfl | ⟨u, rfl⟩
          · exact Shut.apply closer bound found effect sealed
          · exact Shut.apply closer bound found effect sealed
      | some pc' =>
          refine .inl ⟨.tearDown pc', call, rfl, ?_⟩
          rcases tearDownStep_next step with ⟨rfl, rfl, shared⟩ | ⟨u, rfl, rfl, mine⟩ |
            ⟨rfl, rfl, only⟩ | ⟨u, rfl, rfl, finished⟩ | ⟨u, rfl, rfl, _, _⟩
          · intro c here
            simp only [apply, CallMove.toMove, shared] at here ⊢
            exact stopIo_stops here
          · refine ⟨Stopped.apply closer effect window, ?_⟩
            intro v thv at_v io
            obtain ⟨thv, before, io⟩ := live_before found effect window at_v io
            have joinable := bound.joinable v thv before io
            rw [mine] at joinable
            exact (Option.some_inj.mp joinable).symm
          · -- There is no io thread, or it is this one, in one of the program's handlers.
            refine Shut.apply (shut_of_no_io closer fun v thv at_v io => ?_) bound found effect sealed
            obtain rfl := only v (bound.joinable v thv at_v io)
            rw [found] at at_v
            cases at_v
            exact bound.calling v _ found (by simp)
          · refine Shut.apply (shut_of_no_io closer.1 fun v thv at_v io => ?_) bound found effect sealed
            obtain rfl := closer.2 v thv at_v io
            rw [not_isFinished_of_isIo at_v io] at finished
            cases finished
          · exact Shut.apply closer bound found effect sealed
  | _ =>
      cases h
      exact .inl ⟨_, rfl, rfl, trivial⟩

end Sealed

/-! ### The invariant -/

theorem call_of_isClosing {th : ClientThread} (h : th.isClosing = true) :
    ∃ pc, th.call = some (.close pc) ∧ (CallPc.close pc).isClosing = true := by
  obtain ⟨body, call⟩ := th
  cases call with
  | none => cases h
  | some call =>
      cases call with
      | connect pc => cases h
      | close pc => exact ⟨pc, rfl, h⟩
      | send task pc => cases h

theorem closerAt_of_not_closing {pc : ClosePc} (early : (CallPc.close pc).isClosing = false) :
    s.CloserAt pc := by
  cases pc <;> trivial

theorem closeInv_start : start.CloseInv := by
  have nobody : ∀ (t : Nat) (th : ClientThread), start.threads[t]? ≠ some th := by
    intro t th found
    simp [start] at found
  refine ⟨⟨?_, ?_, ?_⟩, ?_, ?_, ?_, ?_⟩
  · exact fun t th found => absurd found (nobody t th)
  · exact fun _ t th _ found => absurd found (nobody t th)
  · exact fun t th found => absurd found (nobody t th)
  · exact fun _ t th found => absurd found (nobody t th)
  all_goals
    intro closing
    cases closing

theorem CloseInv.newThread (inv : s.CloseInv) :
    CloseInv { s with threads := s.threads ++ [⟨.user, none⟩] } := by
  have shut : s.Shut → Shut { s with threads := s.threads ++ [⟨.user, none⟩] } := by
    intro shut
    refine ⟨shut.stopped, fun u th at_u => ?_⟩
    rcases newThread_at at_u with before | rfl
    · exact shut.notOpening u th before
    · rfl
  refine ⟨inv.bound.newThread, ?_, ?_, ?_, ?_⟩
  · intro quiet u th at_u
    rcases newThread_at at_u with before | rfl
    · exact inv.before quiet u th before
    · rfl
  · intro closing u th at_u
    rcases newThread_at at_u with before | rfl
    · exact inv.sealed closing u th before
    · rfl
  · intro closing u th pc at_u calls
    rcases newThread_at at_u with before | rfl
    · have closer := inv.progress closing u th pc before calls
      cases pc with
      | tearDown pc =>
          cases pc with
          | stopIo => trivial
          | checkIo => exact closer
          | joinIo v =>
              refine ⟨closer.1, fun w thw at_w io => ?_⟩
              rcases newThread_at at_w with before | rfl
              · exact closer.2 w thw before io
              · cases io
          | checkHeartbeat => exact shut closer
          | joinHeartbeat v => exact shut closer
      | _ => trivial
    · cases calls
  · intro closing
    rcases inv.finishes closing with ⟨u, th, at_u, isClosing⟩ | ended
    · exact .inl ⟨u, th, newThread_keeps at_u, isClosing⟩
    · exact .inr (shut ended)

section Apply

variable {t : Nat} {th : ClientThread} {m : Move} {e : ClientEvent}

/-- A step of a thread that is closing the client. -/
theorem CloseInv.closer_move (inv : s.CloseInv) (closing : s.shared.closing = true)
    (event : e.thread = some t) (found : s.threads[t]? = some th) (moved : s.move th e = some m)
    (isClosing : th.isClosing = true) :
    (∃ pc', m.thread.call = some (.close pc') ∧ (CallPc.close pc').isClosing = true ∧
      (s.apply t m).CloserAt pc') ∨ m.thread.call = none ∧ (s.apply t m).Shut := by
  obtain ⟨pc, calls, late⟩ := call_of_isClosing isClosing
  obtain ⟨_, m', step, rfl⟩ := move_of_call event calls moved
  exact closer_step inv.bound (inv.sealed closing) (inv.progress closing t th pc found calls) late found
    calls step

/-- A step while `m_closing` is set. -/
theorem CloseInv.apply_closing (inv : s.CloseInv) (closing : s.shared.closing = true)
    (event : e.thread = some t) (found : s.threads[t]? = some th) (moved : s.move th e = some m) :
    (s.apply t m).CloseInv ∧ (s.apply t m).shared.closing = true := by
  have effect := move_effect moved
  have sealed := inv.sealed closing
  have window := sealed t th found
  have still : m.shared.closing = true := by
    rcases effect.closing with same | ⟨inside, _⟩ | ⟨_, set, _⟩
    · rw [same, closing]
    · rw [window] at inside
      cases inside
    · exact set
  refine ⟨⟨inv.bound.apply found effect, ?_, ?_, ?_, ?_⟩, still⟩
  · intro open_
    cases still.symm.trans open_
  · intro _ u th' at_u
    rcases apply_at at_u with ⟨_, before⟩ | ⟨rfl, rfl⟩ | ⟨rfl, b, spawn, rfl⟩
    · exact sealed u th' before
    · by_contra inside
      rcases effect.entersWindow (by simpa using inside) with already | open_
      · rw [window] at already
        cases already
      · rw [closing] at open_
        cases open_
    · rfl
  · intro _ u th' pc' at_u calls'
    rcases apply_at at_u with ⟨_, before⟩ | ⟨rfl, rfl⟩ | ⟨rfl, b, spawn, rfl⟩
    · exact (inv.progress closing u th' pc' before calls').apply inv.bound found effect sealed
    · by_cases late : (CallPc.close pc').isClosing = true
      · rcases effect.entersClosing (by simpa [ClientThread.isClosing, calls'] using late) with
          already | ⟨calls, _⟩
        · rcases inv.closer_move closing event found moved already with
            ⟨pc'', calls'', _, closer⟩ | ⟨ended, _⟩
          · rw [calls'] at calls''
            cases calls''
            exact closer
          · rw [calls'] at ended
            cases ended
        · -- An exchange that finds the flag set returns.
          obtain ⟨_, m', step, rfl⟩ := move_of_call event calls moved
          simp only [callStep, closeStep, closing, if_true] at step
          cases step
          cases calls'
      · exact closerAt_of_not_closing (by simpa using late)
    · cases calls'
  · intro _
    rcases inv.finishes closing with ⟨u, thu, at_u, isClosing⟩ | ended
    · by_cases here : u = t
      · subst here
        rw [found] at at_u
        cases at_u
        rcases inv.closer_move closing event found moved isClosing with
          ⟨pc', calls', late', _⟩ | ⟨_, shut⟩
        · refine .inl ⟨u, m.thread, apply_self found, ?_⟩
          simpa [ClientThread.isClosing, calls'] using late'
        · exact .inr shut
      · exact .inl ⟨u, thu, apply_other here at_u, isClosing⟩
    · exact .inr (ended.apply inv.bound found effect sealed)

/-- `close` sets `m_closing` in a quiet moment. -/
theorem CloseInv.apply_exchange (inv : s.CloseInv) (guard : s.ClosesQuietly e)
    (event : e.thread = some t) (found : s.threads[t]? = some th) (moved : s.move th e = some m)
    (calls : th.call = some (.close .exchange)) (isClosing : m.thread.isClosing = true) :
    (s.apply t m).CloseInv := by
  obtain ⟨rfl, m', step, rfl⟩ := move_of_call event calls moved
  have quiet : ∀ (u : Nat) (thu : ClientThread), s.threads[u]? = some thu →
      thu.inWindow = false ∧ thu.isClosing = false := by
    intro u thu at_u
    refine guard ?_ thu (List.mem_of_getElem? at_u)
    simp [exchanges, found, calls]
  have bound := inv.bound.apply found (move_effect moved)
  simp only [callStep, closeStep] at step
  split at step
  · cases step
    cases isClosing
  · cases step
    refine ⟨bound, ?_, ?_, ?_, ?_⟩
    · intro open_
      cases open_
    · intro _ u th' at_u
      rcases apply_at at_u with ⟨_, before⟩ | ⟨rfl, rfl⟩ | ⟨rfl, b, spawn, rfl⟩
      · exact (quiet u th' before).1
      · rfl
      · rfl
    · intro _ u th' pc at_u calls'
      rcases apply_at at_u with ⟨_, before⟩ | ⟨rfl, rfl⟩ | ⟨rfl, b, spawn, rfl⟩
      · refine closerAt_of_not_closing ?_
        simpa [ClientThread.isClosing, calls'] using (quiet u th' before).2
      · cases calls'
        trivial
      · cases calls'
    · intro _
      exact .inl ⟨t, _, apply_self found, rfl⟩

/-- A step after which `m_closing` is not set, as before. -/
theorem CloseInv.apply_open (inv : s.CloseInv) (open_ : s.shared.closing = false)
    (found : s.threads[t]? = some th) (effect : Effect s th m) (stays : m.shared.closing = false) :
    (s.apply t m).CloseInv := by
  have never : (s.apply t m).shared.closing ≠ true := by
    intro closing
    cases stays.symm.trans closing
  refine ⟨inv.bound.apply found effect, ?_, fun h => absurd h never, fun h => absurd h never,
    fun h => absurd h never⟩
  intro _ u th' at_u
  rcases apply_at at_u with ⟨_, before⟩ | ⟨rfl, rfl⟩ | ⟨rfl, b, spawn, rfl⟩
  · exact inv.before open_ u th' before
  · by_contra late
    rcases effect.entersClosing (by simpa using late) with already | ⟨_, set⟩
    · rw [inv.before open_ u th found] at already
      cases already
    · exact never set
  · rfl

theorem CloseInv.apply (inv : s.CloseInv) (guard : s.ClosesQuietly e)
    (event : e.thread = some t) (found : s.threads[t]? = some th) (moved : s.move th e = some m) :
    (s.apply t m).CloseInv := by
  have effect := move_effect moved
  cases closing : s.shared.closing with
  | true => exact (inv.apply_closing closing event found moved).1
  | false =>
      rcases effect.closing with same | ⟨_, set⟩ | ⟨calls, _, isClosing⟩
      · exact inv.apply_open closing found effect (same.trans closing)
      · exact inv.apply_open closing found effect set
      · exact inv.apply_exchange guard event found moved calls isClosing

theorem CloseInv.step {s' : WsClient} {o : ClientOutput} (inv : s.CloseInv)
    (guard : s.ClosesQuietly e) (h : s.next e = some (s', o)) : s'.CloseInv := by
  rcases next_cases h with ⟨rfl, _⟩ | ⟨t, th, m, event, found, moved, rfl, _⟩
  · exact inv.newThread
  · exact inv.apply guard event found moved

/-! ### After the return -/

structure Closed (s : WsClient) : Prop where
  closing : s.shared.closing = true
  shut : s.Shut

/-- When `close` returns the client is closed. -/
theorem CloseInv.closed_of_returned {s' : WsClient} (inv : s.CloseInv) (guard : s.ClosesQuietly e)
    (h : s.next e = some (s', .closeReturned)) : s'.Closed := by
  rcases next_cases h with ⟨_, other⟩ | ⟨t, th, m, event, found, moved, rfl, output⟩
  · cases other
  · have effect := move_effect moved
    obtain ⟨ended, which⟩ := effect.returned output.symm
    have closing : s.shared.closing = true := by
      rcases which with late | ⟨_, closing⟩
      · by_contra open_
        rw [inv.before (by simpa using open_) t th found] at late
        cases late
      · exact closing
    refine ⟨(inv.apply_closing closing event found moved).2, ?_⟩
    rcases which with late | ⟨calls, _⟩
    · rcases inv.closer_move closing event found moved late with ⟨pc', calls', _⟩ | ⟨_, shut⟩
      · rw [ended] at calls'
        cases calls'
      · exact shut
    · -- The flag was set already, and the `close` that set it is not in progress any more.
      obtain ⟨rfl, _⟩ := move_of_call event calls moved
      have quiet := guard (by simp [exchanges, found, calls])
      rcases inv.finishes closing with ⟨u, thu, at_u, late⟩ | shut
      · rw [(quiet thu (List.mem_of_getElem? at_u)).2] at late
        cases late
      · exact shut.apply inv.bound found effect (inv.sealed closing)

/-- A closed client stays closed, and does none of the things it should not. -/
theorem Closed.step {s' : WsClient} {o : ClientOutput} (closed : s.Closed) (inv : s.CloseInv)
    (h : s.next e = some (s', o)) :
    s'.Closed ∧ o ≠ .ioContext ∧ o ≠ .ioThread ∧ o ≠ .openHandler := by
  rcases next_cases h with ⟨rfl, rfl⟩ | ⟨t, th, m, event, found, moved, rfl, rfl⟩
  · refine ⟨⟨closed.closing, closed.shut.stopped, fun u th at_u => ?_⟩, by simp, by simp, by simp⟩
    rcases newThread_at at_u with before | rfl
    · exact closed.shut.notOpening u th before
    · rfl
  · have effect := move_effect moved
    have sealed := inv.sealed closed.closing
    have window := sealed t th found
    refine ⟨⟨(inv.apply_closing closed.closing event found moved).2,
      closed.shut.apply inv.bound found effect sealed⟩, ?_, ?_, ?_⟩
    · intro made
      cases window.symm.trans (effect.newContext made)
    · intro made
      cases window.symm.trans (effect.newThread made)
    · intro opened
      cases (closed.shut.notOpening t th found).symm.trans (effect.opened opened)

end Apply

end WsClient

/-- Once `close` has returned, `m_closing` stays true, no context is made, no io thread is
started and the open handler is not called: in every run where `close` sets
`m_closing` only while no `connect` is between its checks and the start of its io thread,
and no other `close` is in progress. -/
theorem client_close_is_final {ts : List (Transition WsClient ClientEvent ClientOutput)} {s : WsClient}
    (run : clientMachine.Run .start ts s) (quiet : ∀ t ∈ ts, t.before.ClosesQuietly t.event)
    {us vs : List (Transition WsClient ClientEvent ClientOutput)}
    {t : Transition WsClient ClientEvent ClientOutput} (split : ts = us ++ t :: vs)
    (returned : t.output = .closeReturned) :
    t.after.shared.closing = true ∧
      ∀ v ∈ vs, v.after.shared.closing = true ∧
        v.output ≠ .ioContext ∧ v.output ≠ .ioThread ∧ v.output ≠ .openHandler := by
  subst split
  obtain ⟨first, takes, rest⟩ := run.at
  have guard : t.before.ClosesQuietly t.event := quiet t (by simp)
  have inv : t.before.CloseInv := first.invariant_of_guard (I := WsClient.CloseInv)
    (fun u mem => quiet u (by simp [mem])) WsClient.closeInv_start
    fun _ _ _ _ inv guard h => inv.step guard h
  have step : t.before.next t.event = some (t.after, .closeReturned) := returned ▸ takes
  have closed := inv.closed_of_returned guard step
  refine ⟨closed.closing, fun v mem => ?_⟩
  obtain ⟨ws, before, head, takes'⟩ := rest.mem_prefix mem
  have later := head.invariant_of_guard (I := fun s => s.CloseInv ∧ s.Closed)
    (fun u mem => quiet u (by simp [before.subset mem])) ⟨inv.step guard step, closed⟩
    fun _ _ _ _ both guard h => ⟨both.1.step guard h, (both.2.step both.1 h).1⟩
  obtain ⟨closed', outputs⟩ := later.2.step later.1 takes'
  exact ⟨closed'.closing, outputs⟩

/-- A client connects, its io thread gets to the open handler, and the program closes it
up to the last step of `close`. -/
def openThenClose : List ClientEvent :=
  [[.newThread, .begin 0 .connect], List.replicate 12 (.step 0), [.step 1],
    List.replicate 4 (.runTask 1 0 none false), List.replicate 5 (.step 1), [.begin 0 .close],
    List.replicate 9 (.step 0), [.exitIo 1, .step 0]].flatten

theorem client_close_is_final_openThenClose :
    ∃ us s t s' vs s'', clientMachine.exec .start openThenClose = some (us, s) ∧
      us.any (·.output == .openHandler) = true ∧
      clientMachine.exec s [.step 0] = some ([t], s') ∧ t.output = .closeReturned ∧
      clientMachine.exec s' [.begin 0 .connect, .step 0] = some (vs, s'') ∧
      ∀ v ∈ vs, v.after.shared.closing = true ∧
        v.output ≠ .ioContext ∧ v.output ≠ .ioThread ∧ v.output ≠ .openHandler := by
  obtain ⟨us, s, t, s', vs, s'', first, opened, second, returned, third, quiet⟩ :
      ∃ us s t s' vs s'', clientMachine.exec .start openThenClose = some (us, s) ∧
        us.any (·.output == .openHandler) = true ∧
        clientMachine.exec s [.step 0] = some ([t], s') ∧ t.output = .closeReturned ∧
        clientMachine.exec s' [.begin 0 .connect, .step 0] = some (vs, s'') ∧
        ∀ u ∈ us ++ ([t] ++ vs), u.before.ClosesQuietly u.event :=
    ⟨_, _, _, _, _, _, rfl, by decide +kernel, rfl, rfl, rfl, by decide +kernel⟩
  have run := (Machine.Run.of_exec first).trans
    ((Machine.Run.of_exec second).trans (Machine.Run.of_exec third))
  exact ⟨us, s, t, s', vs, s'', first, opened, second, returned, third,
    (client_close_is_final run quiet rfl returned).2⟩

/-- A `connect` passes its checks, and then the client is closed from another thread. -/
def closeInWindow : List ClientEvent :=
  [[.newThread, .newThread, .begin 0 .connect, .step 0, .step 0, .begin 1 .close],
    List.replicate 10 (.step 1)].flatten

/-- The `connect` goes on: it makes a context, clears `m_closing`, starts an io thread, and
the open handler is called. -/
def reopen : List ClientEvent :=
  [List.replicate 10 (.step 0), [.step 2], List.replicate 4 (.runTask 2 0 none false),
    List.replicate 2 (.step 2)].flatten

theorem client_reopened_after_close :
    ∃ us s vs s', clientMachine.exec .start closeInWindow = some (us, s) ∧
      (us.getLast?.map (·.output)) = some .closeReturned ∧ s.shared.closing = true ∧
      clientMachine.exec s reopen = some (vs, s') ∧ s'.shared.closing = false ∧
      (vs.map (·.output)).filter (· != .silent) = [.ioContext, .ioThread, .openHandler] := by
  exact ⟨_, _, _, _, rfl, by decide +kernel, by decide +kernel, rfl, by decide +kernel,
    by decide +kernel⟩

end Rtl.Ws
