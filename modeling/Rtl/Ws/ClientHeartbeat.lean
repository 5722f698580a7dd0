import Rtl.Ws.ClientSteps

/-! # Joining the heartbeat thread

`close` clears `m_alive` before it joins the heartbeat thread, so that the thread's loop
ends. `init_io` joins it too, but sets neither of the two flags the loop asks for: a
client that reconnects after its heartbeat has started waits for a thread that does
not end.
-/

namespace Rtl.Ws

open Rtl.Base

/-! ## Effects -/

/-- What a step can do to the heartbeat thread and to the flags of its loop. -/
structure BeatEffect (s : WsClient) (t : Nat) (th : ClientThread) (m : Move) : Prop where
  alive : m.shared.alive = true → s.shared.alive = true
  stop : m.shared.heartbeatStop = true →
    s.shared.heartbeatStop = true ∨ th.clearedAlive = true
  cleared : m.thread.clearedAlive = true → th.clearedAlive = true ∨ m.shared.alive = false
  member : m.shared.heartbeatThread = s.shared.heartbeatThread ∨ m.shared.heartbeatThread = none ∨
    (m.shared.heartbeatThread = some s.threads.length ∧ m.spawn = some (.heartbeat .loadStop))
  beats : th.body.isHeartbeat = true →
    m.thread.body.isHeartbeat = true ∨ s.shared.alive = false ∨ s.shared.heartbeatStop = true
  joins : ∀ h, m.thread.call = some (.connect (.tearDown (.joinHeartbeat h))) →
    th.call = some (.connect (.tearDown .checkHeartbeat)) ∧ s.shared.heartbeatThread = some h ∧ h ≠ t

structure SameBeat (s s' : ClientShared) : Prop where
  alive : s'.alive = s.alive
  stop : s'.heartbeatStop = s.heartbeatStop
  member : s'.heartbeatThread = s.heartbeatThread

theorem SameBeat.refl (s : ClientShared) : SameBeat s s := ⟨rfl, rfl, rfl⟩

theorem SameBeat.contexts (s : ClientShared) (contexts : List IoContext) :
    SameBeat s { s with contexts := contexts } :=
  ⟨rfl, rfl, rfl⟩

theorem SameBeat.trans {s s' s'' : ClientShared} (first : SameBeat s s') (second : SameBeat s' s'') :
    SameBeat s s'' :=
  ⟨second.alive.trans first.alive, second.stop.trans first.stop, second.member.trans first.member⟩

section Steps

variable {s : WsClient} {t : Nat} {body : ThreadBody}

theorem BeatEffect.of_call {call : CallPc} {m : CallMove} (same : SameBeat s.shared m.shared)
    (cleared : m.call.any CallPc.clearedAlive = true → call.clearedAlive = true)
    (joins : ∀ h, m.call ≠ some (.connect (.tearDown (.joinHeartbeat h)))) :
    BeatEffect s t ⟨body, some call⟩ (m.toMove body) where
  alive h := same.alive ▸ h
  stop h := .inl (same.stop ▸ h)
  cleared h := .inl (cleared h)
  member := .inl same.member
  beats h := .inl h
  joins h call := absurd call (joins h)

theorem tearDownStep_beat {pc : TearDown} {s' : ClientShared} {pc' : Option TearDown}
    (h : tearDownStep s.shared s.threads t pc = some (s', pc')) :
    s'.alive = s.shared.alive ∧ s'.heartbeatStop = s.shared.heartbeatStop ∧
      (s'.heartbeatThread = s.shared.heartbeatThread ∨ s'.heartbeatThread = none) := by
  cases pc with
  | stopIo =>
      cases h
      exact ⟨rfl, rfl, .inl rfl⟩
  | checkIo =>
      simp only [tearDownStep] at h
      split at h <;> cases h <;> exact ⟨rfl, rfl, .inl rfl⟩
  | joinIo u =>
      simp only [tearDownStep] at h
      split at h <;> cases h
      exact ⟨rfl, rfl, .inl rfl⟩
  | checkHeartbeat =>
      simp only [tearDownStep] at h
      split at h <;> cases h <;> exact ⟨rfl, rfl, .inl rfl⟩
  | joinHeartbeat u =>
      simp only [tearDownStep] at h
      split at h <;> cases h
      refine ⟨rfl, rfl, ?_⟩
      by_cases mine : s.shared.heartbeatThread = some u
      · exact .inr (if_pos mine)
      · exact .inl (if_neg mine)

theorem BeatEffect.of_tearDown {pc : TearDown} {pc' : Option TearDown} {call : CallPc} {m : CallMove}
    (h : tearDownStep s.shared s.threads t pc = some (m.shared, pc'))
    (cleared : m.call.any CallPc.clearedAlive = true → call.clearedAlive = true)
    (joins : ∀ u, m.call = some (.connect (.tearDown (.joinHeartbeat u))) →
      call = .connect (.tearDown .checkHeartbeat) ∧ s.shared.heartbeatThread = some u ∧ u ≠ t) :
    BeatEffect s t ⟨body, some call⟩ (m.toMove body) := by
  obtain ⟨alive, stop, member⟩ := tearDownStep_beat h
  exact {
    alive := fun h => alive ▸ h
    stop := fun h => .inl (stop ▸ h)
    cleared := fun h => .inl (cleared h)
    member := member.imp id .inl
    beats := fun h => .inl h
    joins := fun u calls => by
      obtain ⟨rfl, mine, other⟩ := joins u calls
      exact ⟨rfl, mine, other⟩ }

theorem connectStep_beat {pc : ConnectPc} {m : CallMove}
    (h : connectStep s.shared s.threads t pc = some m) :
    BeatEffect s t ⟨body, some (.connect pc)⟩ (m.toMove body) := by
  cases pc with
  | loadAlive =>
      cases h
      refine BeatEffect.of_call (SameBeat.refl _) ?_ ?_ <;> split <;> simp [CallPc.clearedAlive]
  | loadClosing =>
      cases h
      refine BeatEffect.of_call (SameBeat.refl _) ?_ ?_ <;> split <;> simp [CallPc.clearedAlive]
  | casStarted =>
      simp only [connectStep] at h
      split at h <;> cases h <;>
        exact BeatEffect.of_call ⟨rfl, rfl, rfl⟩ (by simp [CallPc.clearedAlive]) (by simp)
  | tearDown pc =>
      simp only [connectStep] at h
      split at h
      · cases h
      · next pc' step =>
          cases h
          refine BeatEffect.of_tearDown step (by simp [CallPc.clearedAlive]) ?_
          intro u calls
          cases calls
          rcases tearDownStep_next step with ⟨_, other, _⟩ | ⟨_, _, other, _⟩ | ⟨_, other, _⟩ |
            ⟨_, _, other, _⟩ | ⟨v, rfl, same, mine, distinct⟩
          · cases other
          · cases other
          · cases other
          · cases other
          · cases same
            exact ⟨rfl, mine, distinct⟩
      · next step =>
          cases h
          exact BeatEffect.of_tearDown step (by simp [CallPc.clearedAlive]) (by simp)
  | clearHeartbeatStop =>
      cases h
      exact {
        alive := fun h => h
        stop := fun h => by cases h
        cleared := fun h => by cases h
        member := .inl rfl
        beats := fun h => .inl h
        joins := fun u calls => by cases calls }
  | startIo =>
      simp only [connectStep] at h
      split at h <;> cases h
      exact BeatEffect.of_call ⟨rfl, rfl, rfl⟩ (by simp [CallPc.clearedAlive]) (by simp)
  | _ =>
      cases h
      exact BeatEffect.of_call ⟨rfl, rfl, rfl⟩ (by simp [CallPc.clearedAlive]) (by simp)

theorem closeStep_beat {pc : ClosePc} {m : CallMove}
    (h : closeStep s.shared s.threads t pc = some m) :
    BeatEffect s t ⟨body, some (.close pc)⟩ (m.toMove body) := by
  cases pc with
  | exchange =>
      simp only [closeStep] at h
      split at h <;> cases h <;>
        exact BeatEffect.of_call ⟨rfl, rfl, rfl⟩ (by simp [CallPc.clearedAlive]) (by simp)
  | clearAlive =>
      cases h
      exact {
        alive := fun h => by cases h
        stop := fun h => .inl h
        cleared := fun _ => .inr rfl
        member := .inl rfl
        beats := fun h => .inl h
        joins := fun u calls => by cases calls }
  | setHeartbeatStop =>
      cases h
      exact {
        alive := fun h => h
        stop := fun _ => .inr rfl
        cleared := fun _ => .inl rfl
        member := .inl rfl
        beats := fun h => .inl h
        joins := fun u calls => by cases calls }
  | tearDown pc =>
      obtain ⟨pc', step, call⟩ := closeStep_tearDown h
      refine BeatEffect.of_tearDown step (fun _ => rfl) ?_
      intro u calls
      rw [call] at calls
      cases pc' <;> cases calls
  | _ =>
      cases h
      exact BeatEffect.of_call ⟨rfl, rfl, rfl⟩ (fun _ => rfl) (by simp)

theorem sendStep_beat {task : IoTask} {pc : SendPc} :
    BeatEffect s t ⟨body, some (.send task pc)⟩ ((sendStep s.shared task pc).toMove body) := by
  cases pc with
  | post => exact BeatEffect.of_call ⟨rfl, rfl, rfl⟩ (by simp [sendStep]) (by simp [sendStep])
  | _ =>
      refine BeatEffect.of_call (SameBeat.refl _) ?_ ?_ <;> simp only [sendStep] <;> split <;>
        simp [CallPc.clearedAlive]

/-- A step outside of any call, of a thread that is not the heartbeat. -/
theorem BeatEffect.of_body {m : Move} (same : SameBeat s.shared m.shared)
    (cleared : m.thread.clearedAlive = false) (other : body.isHeartbeat = false)
    (joins : ∀ u, m.thread.call ≠ some (.connect (.tearDown (.joinHeartbeat u)))) :
    BeatEffect s t ⟨body, none⟩ m where
  alive h := same.alive ▸ h
  stop h := .inl (same.stop ▸ h)
  cleared h := by simp [cleared] at h
  member := .inl same.member
  beats h := by simp [other] at h
  joins u calls := absurd calls (joins u)

theorem reconnectStep_beat {pc : ReconnectPc} :
    BeatEffect s t ⟨.reconnect pc, none⟩ (reconnectStep s.shared pc) := by
  cases pc <;> exact BeatEffect.of_body ⟨rfl, rfl, rfl⟩ rfl rfl (by simp [reconnectStep])

/-- The loop goes on, or it has seen one of its flags. -/
theorem heartbeatStep_beat {pc : HeartbeatPc} :
    BeatEffect s t ⟨.heartbeat pc, none⟩ (heartbeatStep s.shared pc) := by
  have same : (heartbeatStep s.shared pc).shared = s.shared := by cases pc <;> rfl
  have quiet : (heartbeatStep s.shared pc).thread.call = none ∨
      (heartbeatStep s.shared pc).thread.call = some (.send .sendPing .loadConnected) := by
    cases pc with
    | loadStopAgain =>
        simp only [heartbeatStep]
        split
        · exact .inl rfl
        · exact .inr rfl
    | _ => exact .inl rfl
  refine ⟨?_, ?_, ?_, ?_, ?_, ?_⟩
  · rw [same]
    exact id
  · rw [same]
    exact .inl
  · intro h
    rcases quiet with none | send
    · simp [ClientThread.clearedAlive, none] at h
    · simp [ClientThread.clearedAlive, send, CallPc.clearedAlive] at h
  · rw [same]
    exact .inl rfl
  · intro _
    cases pc with
    | loadStop =>
        simp only [heartbeatStep]
        split
        · next stop => exact .inr (.inr stop)
        · exact .inl rfl
    | loadAlive =>
        simp only [heartbeatStep]
        split
        · exact .inl rfl
        · next dead => exact .inr (.inl (by simpa using dead))
    | _ => exact .inl rfl
  · intro u calls
    rcases quiet with none | send
    · rw [none] at calls
      cases calls
    · rw [send] at calls
      cases calls

theorem handlerStep_beat {c : Nat} {pc : HandlerPc} {m : Move}
    (h : handlerStep s.shared s.threads c pc = some m) : BeatEffect s t ⟨.io c pc, none⟩ m := by
  cases pc with
  | idle => cases h
  | startHeartbeat =>
      simp only [handlerStep] at h
      split at h <;> cases h
      · exact BeatEffect.of_body (SameBeat.refl _) rfl rfl (by simp)
      · exact {
          alive := fun h => h
          stop := fun h => .inl h
          cleared := fun h => by cases h
          member := .inr (.inr ⟨rfl, rfl⟩)
          beats := fun h => by cases h
          joins := fun u calls => by cases calls }
  | casScheduled ec =>
      simp only [handlerStep] at h
      split at h <;> cases h <;> exact BeatEffect.of_body ⟨rfl, rfl, rfl⟩ rfl rfl (by simp)
  | _ =>
      cases h
      exact BeatEffect.of_body ⟨rfl, rfl, rfl⟩ rfl rfl (by simp)

theorem startTask_beat (s : ClientShared) (result : Option ClientError) (more : Bool) (task : IoTask) :
    SameBeat s (startTask s result more task).1 := by
  unfold startTask
  repeat' split
  all_goals exact ⟨rfl, rfl, rfl⟩

theorem runTask_beat {th : ClientThread} {i : Nat} {result : Option ClientError} {more : Bool}
    {m : Move} (h : s.runTask th i result more = some m) : BeatEffect s t th m := by
  unfold WsClient.runTask at h
  split at h
  · split at h
    · cases h
    · split at h
      · cases h
      · split at h
        · cases h
        · next task _ =>
            cases h
            exact BeatEffect.of_body ((SameBeat.contexts s.shared _).trans (startTask_beat ..)) rfl rfl
              (by simp)
  · cases h

theorem bodyStep_beat {m : Move} (h : bodyStep s.shared s.threads body = some m) :
    BeatEffect s t ⟨body, none⟩ m := by
  cases body with
  | user => cases h
  | starting =>
      obtain ⟨c, _, rfl⟩ := Option.map_eq_some_iff.mp h
      exact BeatEffect.of_body (SameBeat.refl _) rfl rfl (by simp)
  | io c pc => exact handlerStep_beat h
  | reconnect pc =>
      cases h
      exact reconnectStep_beat
  | heartbeat pc =>
      cases h
      exact heartbeatStep_beat
  | finished => cases h

theorem not_heartbeat_of_isProgram {b : ThreadBody} (program : b.isProgram = true) :
    b.isHeartbeat = false := by
  cases b <;> first | rfl | cases program

theorem move_beat {th : ClientThread} {e : ClientEvent} {m : Move} (event : e.thread = some t)
    (h : s.move th e = some m) : BeatEffect s t th m := by
  obtain ⟨body, call⟩ := th
  cases e with
  | newThread => cases h
  | begin u called =>
      simp only [WsClient.move] at h
      split at h
      · next program =>
          obtain ⟨program, rfl⟩ := program
          cases h
          refine BeatEffect.of_body (SameBeat.refl _) ?_ (not_heartbeat_of_isProgram program) ?_
          · cases called <;> rfl
          · cases called <;> simp [ClientCall.entry]
      · cases h
  | enableAutoReconnect u enable =>
      simp only [WsClient.move] at h
      split at h
      · next program =>
          obtain ⟨program, rfl⟩ := program
          cases h
          exact BeatEffect.of_body ⟨rfl, rfl, rfl⟩ rfl (not_heartbeat_of_isProgram program) (by simp)
      · cases h
  | enableHeartbeat u enable =>
      simp only [WsClient.move] at h
      split at h
      · next program =>
          obtain ⟨program, rfl⟩ := program
          cases h
          exact BeatEffect.of_body ⟨rfl, rfl, rfl⟩ rfl (not_heartbeat_of_isProgram program) (by simp)
      · cases h
  | step u =>
      cases event
      simp only [WsClient.move, WsClient.step] at h
      cases call with
      | none => exact bodyStep_beat h
      | some call =>
          obtain ⟨m, step, rfl⟩ := Option.map_eq_some_iff.mp h
          cases call with
          | connect pc => exact connectStep_beat step
          | close pc => exact closeStep_beat step
          | send task pc =>
              cases step
              exact sendStep_beat
  | runTask u i result more => exact runTask_beat h
  | exitIo u =>
      simp only [WsClient.move] at h
      split at h
      · next same =>
          cases same
          cases h
          exact BeatEffect.of_body (SameBeat.refl _) rfl rfl (by simp)
      · cases h
  | throwIo u =>
      simp only [WsClient.move] at h
      split at h
      · next same =>
          cases same
          cases h
          exact BeatEffect.of_body (SameBeat.refl _) rfl rfl (by simp)
      · cases h

end Steps

/-! ## Waiting for the heartbeat -/

namespace WsClient

variable {s : WsClient}

/-- Whoever waits for the heartbeat thread waits for a loop that is going to end. -/
def HeartbeatEnds (s : WsClient) : Prop :=
  ∀ (t : Nat) (th : ClientThread) (h : Nat), s.threads[t]? = some th → th.joinsHeartbeat = some h →
    isFinished s.threads h = false → s.shared.heartbeatStop = true ∨ s.shared.alive = false

/-- `init_io` starts to wait for the heartbeat thread of a client that is alive. -/
def joinsLiveHeartbeat (s : WsClient) : ClientEvent → Bool
  | .step t => s.shared.alive && s.shared.heartbeatThread.any (· != t) &&
      s.threads[t]?.any fun th => th.call == some (.connect (.tearDown .checkHeartbeat))
  | _ => false

/-- As long as the client is alive nothing has told the heartbeat to end, it runs, and
nobody waits for it. -/
structure BeatInv (s : WsClient) : Prop where
  stop : s.shared.alive = true → s.shared.heartbeatStop = false
  cleared : s.shared.alive = true →
    ∀ (t : Nat) (th : ClientThread), s.threads[t]? = some th → th.clearedAlive = false
  beating : s.shared.alive = true → ∀ h, s.shared.heartbeatThread = some h →
    ∃ th : ClientThread, s.threads[h]? = some th ∧ th.body.isHeartbeat = true
  joining : s.shared.alive = true → ∀ (t : Nat) (th : ClientThread) (h : Nat),
    s.threads[t]? = some th → th.call ≠ some (.connect (.tearDown (.joinHeartbeat h)))

theorem call_of_joinsHeartbeat {th : ClientThread} {h : Nat} (joins : th.joinsHeartbeat = some h) :
    th.call = some (.connect (.tearDown (.joinHeartbeat h))) ∨ th.clearedAlive = true := by
  obtain ⟨call, calls, waits⟩ := Option.bind_eq_some_iff.mp joins
  unfold CallPc.joinsHeartbeat at waits
  split at waits <;> cases waits
  · exact .inl calls
  · refine .inr ?_
    simp [ClientThread.clearedAlive, calls, CallPc.clearedAlive]

theorem not_isFinished_of_isHeartbeat {t : Nat} {th : ClientThread} (found : s.threads[t]? = some th)
    (beats : th.body.isHeartbeat = true) : isFinished s.threads t = false := by
  simp only [isFinished, found]
  cases body : th.body <;> first | rfl | simp [body, ThreadBody.isHeartbeat] at beats

theorem BeatInv.heartbeatEnds (inv : s.BeatInv) : s.HeartbeatEnds := by
  intro t th h found joins _
  cases alive : s.shared.alive with
  | false => exact .inr rfl
  | true =>
      rcases call_of_joinsHeartbeat joins with waits | cleared
      · exact absurd waits (inv.joining alive t th h found)
      · rw [inv.cleared alive t th found] at cleared
        cases cleared

theorem beatInv_start : start.BeatInv := by
  refine ⟨fun _ => rfl, ?_, ?_, ?_⟩
  · intro _ t th found
    simp [start] at found
  · intro _ h member
    cases member
  · intro _ t th h found
    simp [start] at found

theorem BeatInv.newThread (inv : s.BeatInv) :
    BeatInv { s with threads := s.threads ++ [⟨.user, none⟩] } := by
  refine ⟨inv.stop, ?_, ?_, ?_⟩
  · intro alive u th at_u
    rcases newThread_at at_u with before | rfl
    · exact inv.cleared alive u th before
    · rfl
  · intro alive h member
    obtain ⟨th, found, beats⟩ := inv.beating alive h member
    exact ⟨th, newThread_keeps found, beats⟩
  · intro alive u th h at_u
    rcases newThread_at at_u with before | rfl
    · exact inv.joining alive u th h before
    · simp

section Apply

variable {t : Nat} {th : ClientThread} {m : Move}

theorem BeatInv.apply (inv : s.BeatInv) (found : s.threads[t]? = some th) (effect : BeatEffect s t th m)
    (calm : s.shared.alive = true →
      ∀ h, m.thread.call ≠ some (.connect (.tearDown (.joinHeartbeat h)))) :
    (s.apply t m).BeatInv := by
  refine ⟨?_, ?_, ?_, ?_⟩
  · intro alive'
    have alive := effect.alive alive'
    by_contra stop
    rcases effect.stop ((Bool.not_eq_false _).mp stop) with already | cleared
    · rw [inv.stop alive] at already
      cases already
    · rw [inv.cleared alive t th found] at cleared
      cases cleared
  · intro alive' u th' at_u
    have alive := effect.alive alive'
    rcases apply_at at_u with ⟨_, before⟩ | ⟨rfl, rfl⟩ | ⟨rfl, b, spawn, rfl⟩
    · exact inv.cleared alive u th' before
    · by_contra cleared
      rcases effect.cleared (by simpa using cleared) with already | dead
      · rw [inv.cleared alive u th found] at already
        cases already
      · cases alive'.symm.trans dead
    · rfl
  · intro alive' h member
    have alive := effect.alive alive'
    rcases effect.member with same | gone | ⟨fresh, spawn⟩
    · obtain ⟨thh, at_h, beats⟩ := inv.beating alive h (same.symm.trans member)
      by_cases here : h = t
      · subst here
        rw [found] at at_h
        cases at_h
        rcases effect.beats beats with still | dead | stop
        · exact ⟨m.thread, apply_self found, still⟩
        · cases alive.symm.trans dead
        · cases (inv.stop alive).symm.trans stop
      · exact ⟨thh, apply_other here at_h, beats⟩
    · cases member.symm.trans gone
    · obtain rfl := Option.some_inj.mp (member.symm.trans fresh)
      refine ⟨⟨.heartbeat .loadStop, none⟩, ?_, rfl⟩
      simp [WsClient.apply, spawn]
  · intro alive' u th' h at_u
    have alive := effect.alive alive'
    rcases apply_at at_u with ⟨_, before⟩ | ⟨rfl, rfl⟩ | ⟨rfl, b, spawn, rfl⟩
    · exact inv.joining alive u th' h before
    · exact calm alive h
    · simp

theorem BeatInv.step {s' : WsClient} {e : ClientEvent} {o : ClientOutput} (inv : s.BeatInv)
    (guard : s.joinsLiveHeartbeat e = false) (h : s.next e = some (s', o)) : s'.BeatInv := by
  rcases next_cases h with ⟨rfl, _⟩ | ⟨t, th, m, event, found, moved, rfl, _⟩
  · exact inv.newThread
  · have effect := move_beat event moved
    refine inv.apply found effect fun alive u calls => ?_
    obtain ⟨waits, member, other⟩ := effect.joins u calls
    obtain ⟨rfl, _⟩ := move_of_call event waits moved
    simp [joinsLiveHeartbeat, alive, member, other, found, waits] at guard

/-- Such a wait has no end in sight. -/
theorem BeatInv.not_heartbeatEnds {s' : WsClient} {e : ClientEvent} {o : ClientOutput} (inv : s.BeatInv)
    (bad : s.joinsLiveHeartbeat e = true) (h : s.next e = some (s', o)) : ¬ s'.HeartbeatEnds := by
  unfold joinsLiveHeartbeat at bad
  split at bad
  · next t =>
      simp only [Bool.and_eq_true, Option.any_eq_true, bne_iff_ne, beq_iff_eq] at bad
      obtain ⟨⟨alive, u, member, distinct⟩, th, found, calls⟩ := bad
      have step : s.next (.step t) = some (s.apply t ⟨s.shared,
          { th with call := some (.connect (.tearDown (.joinHeartbeat u))) }, none, .silent⟩,
            .silent) := by
        simp [next, ClientEvent.thread, found, move, WsClient.step, calls, callStep,
          connectStep, tearDownStep, member, distinct]
      rw [step] at h
      cases h
      intro ends
      obtain ⟨thu, at_u, beats⟩ := inv.beating alive u member
      rcases ends t _ u (apply_self found) rfl
        (not_isFinished_of_isHeartbeat (apply_other distinct at_u) beats) with stop | dead
      · cases (inv.stop alive).symm.trans stop
      · cases alive.symm.trans dead
  · cases bad

end Apply

end WsClient

/-- In every run: whenever `init_io` or `close` waits for the heartbeat thread the condition
that ends its loop holds, if and only if no `init_io` starts to wait for it while the
client is alive. -/
theorem client_heartbeat_join_iff {ts : List (Transition WsClient ClientEvent ClientOutput)}
    {s : WsClient} (run : clientMachine.Run .start ts s) :
    (∀ v, Machine.Visits .start ts v → v.HeartbeatEnds) ↔
      ∀ t ∈ ts, t.before.joinsLiveHeartbeat t.event = false := by
  refine run.always_iff_guard (I := WsClient.BeatInv) (P := WsClient.HeartbeatEnds)
    (G := fun s e => s.joinsLiveHeartbeat e = false) WsClient.beatInv_start ?_ ?_ ?_
  · intro s e t o inv guard h
    exact inv.step guard h
  · intro s inv
    exact inv.heartbeatEnds
  · intro s e t o inv bad h
    exact inv.not_heartbeatEnds ((Bool.not_eq_false _).mp bad) h

/-- A client with a heartbeat, automatic reconnects and an open connection. -/
def heartbeatOn : List ClientEvent :=
  [[.newThread, .enableAutoReconnect 0 true, .enableHeartbeat 0 true, .begin 0 .connect],
    List.replicate 12 (.step 0), [.step 1], List.replicate 4 (.runTask 1 0 none false),
    List.replicate 6 (.step 1)].flatten

/-- It is closed, and `close` waits for the heartbeat. -/
theorem client_heartbeat_join_closed :
    ∃ ts s, clientMachine.exec .start
        [heartbeatOn, [.begin 0 .close], List.replicate 9 (.step 0), [.exitIo 1],
          List.replicate 2 (.step 0)].flatten = some (ts, s) ∧
      s.threads[0]?.bind (·.joinsHeartbeat) = some 2 ∧ isFinished s.threads 2 = false ∧
      ∀ v, Machine.Visits .start ts v → v.HeartbeatEnds := by
  have h : clientMachine.exec .start [heartbeatOn, [.begin 0 .close], List.replicate 9 (.step 0),
    [.exitIo 1], List.replicate 2 (.step 0)].flatten = some (_, _) := rfl
  refine ⟨_, _, h, by decide +kernel, by decide +kernel, ?_⟩
  exact (client_heartbeat_join_iff (Machine.Run.of_exec h)).mpr (by decide +kernel)

/-- A read fails, the reconnect thread calls `connect`, and `init_io` waits for the
heartbeat thread, which does not end. -/
theorem client_heartbeat_join_blocked :
    ∃ ts s, clientMachine.exec .start
        [heartbeatOn, [.runTask 1 0 (some .other) false], List.replicate 8 (.step 1),
          List.replicate 10 (.step 3), [.exitIo 1], List.replicate 2 (.step 3)].flatten =
        some (ts, s) ∧
      s.threads[3]?.bind (·.joinsHeartbeat) = some 2 ∧ isFinished s.threads 2 = false ∧
      s.shared.heartbeatStop = false ∧ s.shared.alive = true ∧ ¬ s.HeartbeatEnds := by
  refine ⟨_, _, rfl, by decide +kernel, by decide +kernel, by decide +kernel, by decide +kernel, ?_⟩
  intro ends
  rcases ends 3 _ 2 rfl rfl (by decide +kernel) with stop | dead
  · revert stop
    decide +kernel
  · revert dead
    decide +kernel

end Rtl.Ws
