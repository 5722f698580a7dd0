import Rtl.Db.Transaction

/-! # A connection and the work open on it

A `pqxx::work` refers to its `pqxx::connection`, and a transaction handle keeps the
state, but not the connection in it, alive. Only `Connection::close` drops the
connection: called by the program, by `mark_broken`, or by the handlers of
`Transaction` when a statement or a commit meets a connection error. The last of
these always happens while the work is open.
-/

namespace Rtl.Db

open Rtl.Base

/-- A handle that owns a `pqxx::work` has a connection behind its state. -/
def Backed (states : List ConnectionState) (t : ConnectionTransaction) : Prop :=
  t.impl = true →
    ∃ i x, t.state = some i ∧ states[i]? = some x ∧ x.connection.isSome = true

/-! ## Connections that stay -/

/-- Every connection that is present stays present. -/
def Keeps (states states' : List ConnectionState) : Prop :=
  ∀ (i : Nat) (x : ConnectionState), states[i]? = some x → x.connection.isSome = true →
    ∃ y : ConnectionState, states'[i]? = some y ∧ y.connection.isSome = true

theorem Keeps.refl (states : List ConnectionState) : Keeps states states :=
  fun _ x at_i here => ⟨x, at_i, here⟩

theorem Keeps.trans {a b c : List ConnectionState} (first : Keeps a b) (second : Keeps b c) :
    Keeps a c := by
  intro i x at_i here
  obtain ⟨y, at_i', here'⟩ := first i x at_i here
  exact second i y at_i' here'

theorem Keeps.modify (states : List ConnectionState) (i : Nat)
    {f : ConnectionState → ConnectionState}
    (present : ∀ x : ConnectionState, (f x).connection.isSome = x.connection.isSome) :
    Keeps states (states.modify i f) := by
  intro j x at_j here
  rw [List.getElem?_modify, at_j]
  by_cases same : i = j
  · exact ⟨f x, by simp [same], by rw [present, here]⟩
  · exact ⟨x, by simp [same], here⟩

theorem Keeps.setActive (states : List ConnectionState) (state : Option Nat) (active : Bool) :
    Keeps states (setActive states state active) := by
  cases state with
  | none => exact Keeps.refl states
  | some i =>
      apply Keeps.modify
      intro x
      rfl

theorem Keeps.append (states more : List ConnectionState) : Keeps states (states ++ more) := by
  intro i x at_i here
  have inside := (List.getElem?_eq_some_iff.mp at_i).1
  exact ⟨x, by rw [List.getElem?_append_left inside, at_i], here⟩

theorem Backed.keeps {states states' : List ConnectionState} {t : ConnectionTransaction}
    (backed : Backed states t) (kept : Keeps states states') : Backed states' t := by
  intro owns
  obtain ⟨i, x, bound, at_i, here⟩ := backed owns
  obtain ⟨y, at_i', here'⟩ := kept i x at_i here
  exact ⟨i, y, bound, at_i', here'⟩

/-- A transaction just begun. -/
theorem backed_begun {states : List ConnectionState} {i : Nat} {x : ConnectionState}
    (at_i : states[i]? = some x) (isOpen : x.connection = some true) :
    Backed (setActive states (some i) true) ⟨some i, true, true⟩ := by
  intro _
  obtain ⟨y, at_i', here⟩ := Keeps.setActive states (some i) true i x at_i (by simp [isOpen])
  exact ⟨i, y, rfl, at_i', here⟩

theorem backed_idle (states : List ConnectionState) (state : Option Nat) (active : Bool) :
    Backed states ⟨state, false, active⟩ := by
  intro owns
  cases owns

/-! ## What the operations do to connections -/

structure Frame (db db' : Database) : Prop where
  transactions : db'.core.transactions = db.core.transactions
  keeps : Keeps db.core.states db'.core.states

theorem Frame.refl (db : Database) : Frame db db := ⟨rfl, Keeps.refl _⟩

theorem Frame.trans {a b c : Database} (first : Frame a b) (second : Frame b c) : Frame a c :=
  ⟨second.transactions.trans first.transactions, first.keeps.trans second.keeps⟩

variable {cfg : PoolConfig} {db db' : Database}

theorem frame_setStates {states : List ConnectionState} (kept : Keeps db.core.states states) :
    Frame db (db.setStates states) :=
  ⟨rfl, kept⟩

theorem frame_release (h : Handle) : Frame db (db.release h) := by
  unfold Database.release
  split
  · exact ⟨rfl, Keeps.refl _⟩
  · exact ⟨rfl, Keeps.refl _⟩

theorem frame_acquire {timed valid : Bool} {outcome : Outcome} {r : Except Thrown Handle}
    (h : db.acquire cfg timed valid outcome = some (db', r)) : Frame db db' := by
  simp only [Database.acquire] at h
  split at h
  · cases h
    refine ⟨?_, ?_⟩
    · simp only
      split <;> rfl
    · simp only
      split
      · exact Keeps.append _ _
      · exact Keeps.refl _
  · split at h
    · cases h
      exact ⟨rfl, Keeps.refl _⟩
    · cases h
  · cases h
    exact ⟨rfl, Keeps.refl _⟩
  · cases h

/-- A new transaction comes with the connection it was begun on. -/
theorem frame_make {valid : Bool} {outcome work : Outcome} {r : Except Thrown TransactionImpl}
    (h : TransactionImpl.make cfg db valid outcome work = some (db', r)) :
    Frame db db' ∧ ∀ impl, r = .ok impl → Backed db'.core.states impl.tx := by
  unfold TransactionImpl.make at h
  split at h
  · cases h
  · next acquired =>
      cases h
      exact ⟨frame_acquire acquired, by intro impl eq; cases eq⟩
  · next leased handle acquired =>
      have first := frame_acquire acquired
      split at h
      · cases h
        exact ⟨first.trans (frame_release handle), by intro impl eq; cases eq⟩
      · split at h
        · cases h
          exact ⟨first.trans (frame_release handle), by intro impl eq; cases eq⟩
        · next begun =>
            cases h
            obtain ⟨i, y, at_i, isOpen, -, same⟩ := Connection.beginTransaction_ok begun
            cases same
            refine ⟨first.trans (frame_setStates (Keeps.setActive _ _ _)), ?_⟩
            intro impl eq
            cases eq
            exact backed_begun at_i isOpen

theorem frame_destroyImpl (impl : TransactionImpl) : Frame db (impl.destroy db) :=
  (frame_setStates (Keeps.setActive _ _ _)).trans (frame_release impl.connection)

theorem frame_reset (t : Transaction) : Frame db (t.reset db) := by
  unfold Transaction.reset
  split
  · exact Frame.refl db
  · next impl _ => exact frame_destroyImpl impl

theorem keeps_rollback (states : List ConnectionState) (t : ConnectionTransaction) :
    Keeps states (t.rollback states).1.1 := by
  unfold ConnectionTransaction.rollback
  split
  · exact Keeps.refl states
  · exact Keeps.setActive _ _ _

/-- The destructor closes nothing: it marks only leases without a connection. -/
theorem frame_destroy (t : Transaction) : Frame db (t.destroy db) := by
  unfold Transaction.destroy
  split
  · exact Frame.refl db
  · next impl _ =>
      have same : (if impl.connection.connection = none then db.markBroken impl.connection
          else (db, impl.connection)).1 = db := by
        by_cases lost : impl.connection.connection = none
        · rw [if_pos lost]
          simp [Database.markBroken, lost]
        · rw [if_neg lost]
      simp only [same]
      refine Frame.trans (frame_setStates ?_) (frame_destroyImpl _)
      split
      · exact keeps_rollback _ _
      · exact Keeps.refl _

def Handle.closes (db : Database) (h : Handle) : Option Nat :=
  (h.connection.bind db.core.connection?).bind (·.connectionState)

def dropConnection (states : List ConnectionState) : Option Nat → List ConnectionState
  | none => states
  | some i => states.modify i fun x => { x with connection := none }

theorem close_eq (states : List ConnectionState) (c : Connection) :
    c.close states = dropConnection states c.connectionState := by
  cases h : c.connectionState <;> simp [Connection.close, dropConnection, h]

theorem markBroken_core (h : Handle) :
    (db.markBroken h).1.core =
      { db.core with states := dropConnection db.core.states (h.closes db) } := by
  cases found : h.connection.bind db.core.connection? with
  | none => simp [Database.markBroken, Handle.closes, found, dropConnection]
  | some c => simp [Database.markBroken, Handle.closes, found, Database.setStates, close_eq]

/-- The state whose connection is dropped when a call on `t` ends as the inner
transaction's `execute` does. -/
def Transaction.drops (db : Database) (t : Transaction) (outcome : Outcome) : Option Nat :=
  match t.impl with
  | none => none
  | some impl =>
      match impl.tx.execute outcome with
      | .ok () => none
      | .error e => if e.isConnectionError then impl.connection.closes db else none

def Transaction.tx? (t : Transaction) : Option ConnectionTransaction := t.impl.map (·.tx)

theorem caught_core (db : Database) (impl : TransactionImpl) (e : Thrown) :
    (impl.caught db e).1.core = { db.core with
      states := dropConnection db.core.states
        (if e.isConnectionError then impl.connection.closes db else none) } ∧
    (impl.caught db e).2.tx = impl.tx := by
  unfold TransactionImpl.caught
  split
  · exact ⟨markBroken_core impl.connection, rfl⟩
  · exact ⟨rfl, rfl⟩

theorem execute_core (db : Database) (t : Transaction) (outcome : Outcome) :
    (t.execute db outcome).1.1.core =
      { db.core with states := dropConnection db.core.states (t.drops db outcome) } ∧
    (t.execute db outcome).1.2.tx? = t.tx? := by
  obtain ⟨impl⟩ := t
  cases impl with
  | none => exact ⟨rfl, rfl⟩
  | some impl =>
      cases executed : impl.tx.execute outcome with
      | ok u => simp [Transaction.execute, Transaction.drops, executed, dropConnection]
      | error e =>
          obtain ⟨core, tx⟩ := caught_core db impl e
          simp [Transaction.execute, Transaction.drops, executed, core, tx, Transaction.tx?]

/-- A commit ends the transaction and gives the connection back, or it ends as a
statement that fails. -/
theorem commit_cases (db : Database) (t : Transaction) (outcome : Outcome) :
    ((t.commit db outcome).1.1.core =
        { db.core with states := dropConnection db.core.states (t.drops db outcome) } ∧
      (t.commit db outcome).1.2.tx? = t.tx?) ∨
    (t.drops db outcome = none ∧ Frame db (t.commit db outcome).1.1 ∧
      (t.commit db outcome).1.2.tx? = none) := by
  obtain ⟨impl⟩ := t
  cases impl with
  | none => exact .inl ⟨rfl, rfl⟩
  | some impl =>
      cases executed : impl.tx.execute outcome with
      | ok u =>
          right
          simp only [Transaction.commit, ConnectionTransaction.commit, executed, Transaction.ending,
            Transaction.drops]
          refine ⟨trivial, ?_, rfl⟩
          exact Frame.trans (frame_setStates (Keeps.setActive _ _ _)) (frame_destroyImpl _)
      | error e =>
          left
          obtain ⟨core, tx⟩ := caught_core db impl e
          simp [Transaction.commit, ConnectionTransaction.commit, executed, Transaction.ending,
            Transaction.drops, core, tx, Transaction.tx?]

/-- A rollback closes nothing, since it throws no connection error. -/
theorem rollback_cases (db : Database) (t : Transaction) :
    Frame db (t.rollback db).1.1 ∧
      ((t.rollback db).1.2.tx? = t.tx? ∨ (t.rollback db).1.2.tx? = none) := by
  obtain ⟨impl⟩ := t
  cases impl with
  | none => exact ⟨Frame.refl db, .inl rfl⟩
  | some impl =>
      cases checked : impl.tx.ensureActive with
      | ok u =>
          simp only [Transaction.rollback, ConnectionTransaction.rollback, checked,
            Transaction.ending]
          refine ⟨?_, .inr rfl⟩
          exact Frame.trans (frame_setStates (Keeps.setActive _ _ _)) (frame_destroyImpl _)
      | error e =>
          have other : e.isConnectionError = false := by
            unfold ConnectionTransaction.ensureActive at checked
            split at checked
            · cases checked
              rfl
            · split at checked <;> cases checked
              rfl
          simp [Transaction.rollback, ConnectionTransaction.rollback, checked, Transaction.ending,
            TransactionImpl.caught, other, Frame.refl, Transaction.tx?]

/-! ## The handles of a program -/

def LiveIn (objects : List (Option TransactionObject)) (t : ConnectionTransaction) : Prop :=
  ∃ (i : Nat) (o : TransactionObject), objects[i]? = some (some o) ∧ o.transaction.tx? = some t

theorem liveIn_of_set {objects : List (Option TransactionObject)} {i : Nat}
    {x : Option TransactionObject} {t : ConnectionTransaction} (live : LiveIn (objects.set i x) t) :
    LiveIn objects t ∨ ∃ o, x = some o ∧ o.transaction.tx? = some t := by
  obtain ⟨j, o, at_j, tx⟩ := live
  rw [List.getElem?_set] at at_j
  split at at_j
  · split at at_j
    · exact .inr ⟨o, Option.some.inj at_j, tx⟩
    · cases at_j
  · exact .inl ⟨j, o, at_j, tx⟩

/-- An object that is destroyed or left without an inner transaction adds none. -/
theorem liveIn_of_set_without {objects : List (Option TransactionObject)} {i : Nat}
    {x : Option TransactionObject} {t : ConnectionTransaction} (live : LiveIn (objects.set i x) t)
    (without : ∀ o, x = some o → o.transaction.tx? = none) : LiveIn objects t := by
  rcases liveIn_of_set live with old | ⟨o, eq, tx⟩
  · exact old
  · rw [without o eq] at tx
    cases tx

theorem liveIn_of_concat {objects : List (Option TransactionObject)} {o : TransactionObject}
    {t : ConnectionTransaction} (live : LiveIn (objects ++ [some o]) t) :
    LiveIn objects t ∨ o.transaction.tx? = some t := by
  obtain ⟨j, p, at_j, tx⟩ := live
  rcases concat_at.mp at_j with old | ⟨-, same⟩
  · exact .inl ⟨j, p, old, tx⟩
  · cases same
    exact .inr tx

/-- An object that changes without changing its inner transaction. -/
theorem liveIn_set_iff {objects : List (Option TransactionObject)} {i : Nat}
    {o o' : TransactionObject} (at_i : objects[i]? = some (some o))
    (same : o'.transaction.tx? = o.transaction.tx?) (t : ConnectionTransaction) :
    LiveIn (objects.set i (some o')) t ↔ LiveIn objects t := by
  constructor
  · intro live
    rcases liveIn_of_set live with old | ⟨p, eq, tx⟩
    · exact old
    · cases eq
      exact ⟨i, o, at_i, same ▸ tx⟩
  · rintro ⟨j, p, at_j, tx⟩
    by_cases here : i = j
    · subst here
      obtain rfl : o = p := by simpa [at_i] using at_j
      exact ⟨i, o', set_at at_i, same.trans tx⟩
    · exact ⟨j, p, by rw [List.getElem?_set_ne here]; exact at_j, tx⟩

namespace TransactionSystem

/-- A `ConnectionTransaction` that exists: one of the program's own, or the member of
a `Transaction`. -/
def Live (s : TransactionSystem) (t : ConnectionTransaction) : Prop :=
  some t ∈ s.db.core.transactions ∨ LiveIn s.transactions t

/-- Every handle that owns a `pqxx::work` has a connection. -/
def WorksBacked (s : TransactionSystem) : Prop := ∀ t, s.Live t → Backed s.db.core.states t

def drops (s : TransactionSystem) : TransactionEvent → Option Nat
  | .connection (.call c .close) => (s.db.core.connection? c).bind (·.connectionState)
  | .markBroken i => s.leases[i]?.join.bind (·.closes s.db)
  | .exec i outcome | .execParams i outcome | .execPrepared i outcome | .commit i outcome =>
      s.transactions[i]?.join.bind fun o => o.transaction.drops s.db outcome
  | .setIsolationLevel i answer =>
      match s.transactions[i]?.join with
      | some ⟨t, .initialising level⟩ =>
          t.drops s.db (answer ("SET TRANSACTION ISOLATION LEVEL " ++ level.toSql))
      | _ => none
  | _ => none

/-- No step drops a connection while a handle owns a work on it. -/
def ClosesIdle (s : TransactionSystem) (e : TransactionEvent) : Prop :=
  ∀ i, s.drops e = some i → ∀ t, s.Live t → t.impl = true → t.state ≠ some i

/-- What a step does to handles and connections: it drops no connection and every
handle is an old one or in order, or it drops one and changes no handle. -/
inductive Effect (s : TransactionSystem) : Option Nat → TransactionSystem → Prop where
  | frames {u : TransactionSystem} : Keeps s.db.core.states u.db.core.states →
      (∀ t, u.Live t → s.Live t ∨ Backed u.db.core.states t) → Effect s none u
  | drops {d : Option Nat} {u : TransactionSystem} :
      u.db.core.states = dropConnection s.db.core.states d →
      (∀ t, u.Live t ↔ s.Live t) → Effect s d u

variable {cfg : PoolConfig} {s u : TransactionSystem} {e : TransactionEvent}
  {o : Except Thrown Unit}

/-! ### Steps on connections -/

theorem effect_handles {core : ConnectionSystem} (kept : Keeps s.db.core.states core.states)
    (handles : ∀ t, some t ∈ core.transactions →
      some t ∈ s.db.core.transactions ∨ Backed core.states t) :
    Effect s none { s with db := { s.db with core := core } } := by
  refine .frames kept ?_
  rintro t (own | member)
  · rcases handles t own with old | backed
    · exact .inl (.inl old)
    · exact .inr backed
  · exact .inl (.inr member)

theorem effect_connection {e : ConnectionEvent} {core : ConnectionSystem}
    (h : ConnectionSystem.Step s.db.core e core) :
    Effect s (s.drops (.connection e)) { s with db := { s.db with core := core } } := by
  have quiet : e.closes = none → s.drops (.connection e) = none := by
    intro calm
    cases e with
    | call c call => cases call <;> first | rfl | cases calm
    | _ => rfl
  cases h with
  | same _ _ calm =>
      rw [quiet calm]
      exact effect_handles (Keeps.refl _) fun t old => .inl old
  | opens => exact effect_handles (Keeps.append _ _) fun t old => .inl old
  | @closes c x at_c =>
      refine .drops ?_ fun t => Iff.rfl
      simp [TransactionSystem.drops, at_c, close_eq]
  | loses =>
      refine effect_handles (Keeps.modify _ _ ?_) fun t old => .inl old
      intro x
      simp
  | @begins c call i x other at_i isOpen _ =>
      rw [quiet (ConnectionEvent.closes_call other)]
      refine effect_handles (Keeps.setActive s.db.core.states (some i) true) ?_
      intro t own
      rcases List.mem_append.mp own with old | new
      · exact .inl old
      · cases List.mem_singleton.mp new
        exact .inr (backed_begun at_i isOpen)
  | finishes =>
      refine effect_handles (Keeps.setActive _ _ _) ?_
      intro t own
      rcases List.mem_or_eq_of_mem_set own with old | new
      · exact .inl old
      · cases new
        exact .inr (backed_idle _ _ _)
  | moves at_t =>
      refine effect_handles (Keeps.refl _) ?_
      intro t own
      rcases List.mem_append.mp own with set | new
      · rcases List.mem_or_eq_of_mem_set set with old | left
        · exact .inl old
        · cases left
          exact .inr (backed_idle _ _ _)
      · cases List.mem_singleton.mp new
        exact .inl (List.mem_of_getElem? at_t)
  | assigns _ at_w _ =>
      refine effect_handles (Keeps.setActive _ _ _) ?_
      intro t own
      rcases List.mem_or_eq_of_mem_set own with set | left
      · rcases List.mem_or_eq_of_mem_set set with old | new
        · exact .inl old
        · cases new
          exact .inl (List.mem_of_getElem? at_w)
      · cases left
        exact .inr (backed_idle _ _ _)
  | destroys =>
      refine effect_handles (Keeps.setActive _ _ _) ?_
      intro t own
      rcases List.mem_or_eq_of_mem_set own with old | gone
      · exact .inl old
      · cases gone

/-! ### Steps on leases and transactions -/

/-- A step that keeps the connections and the program's own handles, and whose
transaction objects are old ones or in order. -/
theorem effect_frame {db : Database} {leases : List (Option Handle)}
    {objects : List (Option TransactionObject)} (frame : Frame s.db db)
    (live : ∀ t, LiveIn objects t → LiveIn s.transactions t ∨ Backed db.core.states t) :
    Effect s none ⟨db, leases, objects⟩ := by
  refine .frames frame.keeps ?_
  rintro t (own | member)
  · rw [frame.transactions] at own
    exact .inl (.inl own)
  · rcases live t member with old | backed
    · exact .inl (.inr old)
    · exact .inr backed

/-- A step that may drop a connection and keeps all handles. -/
theorem effect_drop {d : Option Nat} {db : Database} {leases : List (Option Handle)}
    {objects : List (Option TransactionObject)}
    (core : db.core = { s.db.core with states := dropConnection s.db.core.states d })
    (live : ∀ t, LiveIn objects t ↔ LiveIn s.transactions t) : Effect s d ⟨db, leases, objects⟩ := by
  refine .drops (by rw [core]) ?_
  intro t
  simp only [Live, core, live]

/-- The state an execution of a statement drops, as the events name it. -/
theorem effect_execute {i : Nat} {outcome : Outcome} {t : Transaction} {phase phase' : Phase}
    (at_i : s.transactions[i]? = some (some ⟨t, phase⟩)) :
    Effect s (t.drops s.db outcome)
      ⟨(t.execute s.db outcome).1.1, s.leases,
        s.transactions.set i (some ⟨(t.execute s.db outcome).1.2, phase'⟩)⟩ := by
  obtain ⟨core, tx⟩ := execute_core s.db t outcome
  exact effect_drop core (liveIn_set_iff at_i tx)

theorem effect_commit {i : Nat} {outcome : Outcome} {t : Transaction} {phase phase' : Phase}
    (at_i : s.transactions[i]? = some (some ⟨t, phase⟩)) :
    Effect s (t.drops s.db outcome)
      ⟨(t.commit s.db outcome).1.1, s.leases,
        s.transactions.set i (some ⟨(t.commit s.db outcome).1.2, phase'⟩)⟩ := by
  rcases commit_cases s.db t outcome with ⟨core, tx⟩ | ⟨calm, frame, gone⟩
  · exact effect_drop core (liveIn_set_iff at_i tx)
  · rw [calm]
    refine effect_frame frame ?_
    intro x live
    refine .inl (liveIn_of_set_without live ?_)
    rintro _ ⟨⟩
    exact gone

theorem effect_rollback {i : Nat} {t : Transaction} {phase phase' : Phase}
    (at_i : s.transactions[i]? = some (some ⟨t, phase⟩)) :
    Effect s none
      ⟨(t.rollback s.db).1.1, s.leases,
        s.transactions.set i (some ⟨(t.rollback s.db).1.2, phase'⟩)⟩ := by
  obtain ⟨frame, kept⟩ := rollback_cases s.db t
  refine effect_frame frame ?_
  intro x live
  rcases liveIn_of_set live with old | ⟨p, eq, tx⟩
  · exact .inl old
  · cases eq
    rcases kept with same | gone
    · exact .inl ⟨i, _, at_i, same ▸ tx⟩
    · rw [gone] at tx
      cases tx

theorem join_eq_some {β : Type*} {l : List (Option β)} {i : Nat} {x : β}
    (h : l[i]?.join = some x) : l[i]? = some (some x) :=
  Option.join_eq_some_iff.mp h

/-- What the handlers of a ready transaction have in common. -/
theorem onTransaction_spec {i : Nat}
    {f : Transaction → (Database × Transaction) × Except Thrown Unit}
    (h : s.onTransaction i f = some (u, o)) :
    ∃ t, s.transactions[i]? = some (some ⟨t, .ready⟩) ∧
      u = ⟨(f t).1.1, s.leases, s.transactions.set i (some ⟨(f t).1.2, .ready⟩)⟩ := by
  unfold onTransaction at h
  split at h
  · next t at_i =>
      cases h
      exact ⟨t, join_eq_some at_i, rfl⟩
  · cases h

theorem drops_at {i : Nat} {t : Transaction} {phase : Phase} {outcome : Outcome}
    (at_i : s.transactions[i]? = some (some ⟨t, phase⟩)) :
    (s.transactions[i]?.join.bind fun o => o.transaction.drops s.db outcome) =
      t.drops s.db outcome := by
  simp [at_i]

theorem effect_of_next (h : s.next cfg e = some (u, o)) : Effect s (s.drops e) u := by
  cases e with
  | connection e =>
      simp only [next] at h
      split at h
      · obtain ⟨⟨core, r⟩, step, h⟩ := Option.map_eq_some_iff.mp h
        cases h
        exact effect_connection (ConnectionSystem.step_of_next step)
      · cases h
  | acquire timed valid outcome =>
      simp only [next] at h
      split at h
      · cases h
      · next acquired =>
          cases h
          exact effect_frame (frame_acquire acquired) fun t live => .inl live
      · next acquired =>
          cases h
          exact effect_frame (frame_acquire acquired) fun t live => .inl live
  | markBroken i =>
      obtain ⟨x, at_i, h⟩ := Option.map_eq_some_iff.mp h
      cases h
      have named : s.drops (.markBroken i) = x.closes s.db := by
        simp [TransactionSystem.drops, at_i]
      rw [named]
      exact effect_drop (markBroken_core x) fun t => Iff.rfl
  | moveLease i =>
      obtain ⟨x, -, h⟩ := Option.map_eq_some_iff.mp h
      cases h
      exact effect_frame (Frame.refl _) fun t live => .inl live
  | assignLease i j =>
      simp only [next] at h
      split at h
      · split at h <;> cases h
        · exact effect_frame (Frame.refl _) fun t live => .inl live
        · exact effect_frame (frame_release _) fun t live => .inl live
      · cases h
  | destroyLease i =>
      obtain ⟨x, -, h⟩ := Option.map_eq_some_iff.mp h
      cases h
      exact effect_frame (frame_release x) fun t live => .inl live
  | construct level valid outcome work =>
      simp only [next] at h
      split at h
      · cases h
      · next made =>
          cases h
          exact effect_frame (frame_make made).1 fun t live => .inl live
      · next db impl made =>
          cases h
          obtain ⟨frame, backed⟩ := frame_make made
          refine effect_frame frame ?_
          intro t live
          rcases liveIn_of_concat live with old | new
          · exact .inl old
          · cases new
            exact .inr (backed impl rfl)
  | setIsolationLevel i answer =>
      simp only [next] at h
      split at h
      · next t level at_i =>
          cases h
          have named : s.drops (.setIsolationLevel i answer) =
              t.drops s.db (answer ("SET TRANSACTION ISOLATION LEVEL " ++ level.toSql)) := by
            simp [TransactionSystem.drops, at_i]
          rw [named]
          exact effect_execute (join_eq_some at_i)
      · cases h
  | unwind i =>
      simp only [next] at h
      split at h
      · next t at_i =>
          cases h
          exact effect_frame (frame_reset t) fun x live =>
            .inl (liveIn_of_set_without live (by simp))
      · cases h
  | exec i outcome =>
      obtain ⟨t, at_i, rfl⟩ := onTransaction_spec h
      rw [TransactionSystem.drops, drops_at at_i]
      exact effect_execute at_i
  | execParams i outcome =>
      obtain ⟨t, at_i, rfl⟩ := onTransaction_spec h
      rw [TransactionSystem.drops, drops_at at_i]
      exact effect_execute at_i
  | execPrepared i outcome =>
      obtain ⟨t, at_i, rfl⟩ := onTransaction_spec h
      rw [TransactionSystem.drops, drops_at at_i]
      exact effect_execute at_i
  | commit i outcome =>
      obtain ⟨t, at_i, rfl⟩ := onTransaction_spec h
      rw [TransactionSystem.drops, drops_at at_i]
      exact effect_commit at_i
  | rollback i =>
      obtain ⟨t, at_i, rfl⟩ := onTransaction_spec h
      exact effect_rollback at_i
  | moveTransaction i =>
      simp only [next] at h
      split at h
      · next t at_i =>
          cases h
          refine effect_frame (Frame.refl _) ?_
          intro x live
          rcases liveIn_of_concat live with set | new
          · refine .inl (liveIn_of_set_without set ?_)
            rintro _ ⟨⟩
            rfl
          · exact .inl ⟨i, _, join_eq_some at_i, new⟩
      · cases h
  | assignTransaction i j =>
      simp only [next] at h
      split at h
      · next target source at_i at_j =>
          split at h <;> cases h
          · exact effect_frame (Frame.refl _) fun t live => .inl live
          · refine effect_frame (frame_reset target) ?_
            intro x live
            have set := liveIn_of_set_without live (by rintro _ ⟨⟩; rfl)
            rcases liveIn_of_set set with old | ⟨p, eq, tx⟩
            · exact .inl old
            · cases eq
              exact .inl ⟨j, _, join_eq_some at_j, tx⟩
      · cases h
  | destroyTransaction i =>
      simp only [next] at h
      split at h
      · next t at_i =>
          cases h
          exact effect_frame (frame_destroy t) fun x live =>
            .inl (liveIn_of_set_without live (by simp))
      · cases h

/-! ### Keeping the works backed -/

theorem WorksBacked.start (init : Start cfg s) : s.WorksBacked := by
  obtain ⟨core, -, -, -, -, none⟩ := init
  rintro t (own | ⟨i, o, at_i, -⟩)
  · simp [core, ConnectionSystem.start] at own
  · simp [none] at at_i

theorem WorksBacked.step (backed : s.WorksBacked) (idle : s.ClosesIdle e)
    (h : Effect s (s.drops e) u) : u.WorksBacked := by
  generalize named : s.drops e = d at h
  cases h with
  | frames kept handles =>
      intro t live
      rcases handles t live with old | fine
      · exact (backed t old).keeps kept
      · exact fine
  | drops states same =>
      intro t live owns
      have old := (same t).mp live
      obtain ⟨i, x, bound, at_i, here⟩ := backed t old owns
      refine ⟨i, x, bound, ?_, here⟩
      rw [states]
      cases d with
      | none => exact at_i
      | some j =>
          have apart : j ≠ i := fun eq => idle j named t old owns (eq ▸ bound)
          rw [dropConnection, List.getElem?_modify_ne _ _ apart, at_i]

/-- Dropping the connection of an open work leaves the work without one. -/
theorem not_worksBacked_of_drop (busy : ¬ s.ClosesIdle e) (h : Effect s (s.drops e) u) :
    ¬ u.WorksBacked := by
  simp only [ClosesIdle, not_forall, not_not] at busy
  obtain ⟨i, named, t, live, owns, bound⟩ := busy
  rw [named] at h
  cases h with
  | drops states same =>
      intro backed
      obtain ⟨j, x, bound', at_j, here⟩ := backed t ((same t).mpr live) owns
      obtain rfl : i = j := by simpa [bound] using bound'
      rw [states, dropConnection, List.getElem?_modify_eq] at at_j
      obtain ⟨y, -, rfl⟩ := Option.map_eq_some_iff.mp at_j
      cases here

end TransactionSystem

/-! ## Whole runs -/

/-- In every state of a run each open work has its connection if and only if no step
drops a connection on which a work is open: no `close` or `mark_broken` of a
connection with an unfinished transaction, and no connection error from a statement,
a commit or the isolation level of a `Transaction`. -/
theorem works_backed_iff {cfg : PoolConfig} {s₀ s : TransactionSystem}
    {ts : List (Transition TransactionSystem TransactionEvent (Except Thrown Unit))}
    (init : (transactionMachine cfg).init s₀) (run : (transactionMachine cfg).Run s₀ ts s) :
    (∀ v, Machine.Visits s₀ ts v → v.WorksBacked) ↔ ∀ t ∈ ts, t.before.ClosesIdle t.event := by
  apply run.always_iff_guard (I := TransactionSystem.WorksBacked)
    (TransactionSystem.WorksBacked.start init)
  · intro s e t o backed idle h
    exact backed.step idle (TransactionSystem.effect_of_next h)
  · intro s backed
    exact backed
  · intro s e t o _ busy h
    exact TransactionSystem.not_worksBacked_of_drop busy (TransactionSystem.effect_of_next h)

theorem one_lt_sizeModulus : 1 < sizeModulus := by decide

def onePlace : PoolConfig := ⟨1, one_lt_sizeModulus⟩

def noObjects : TransactionSystem := ⟨⟨.start, ⟨⟨[], 0, 0, false⟩, .empty, 0⟩⟩, [], []⟩

theorem noObjects_init : (transactionMachine onePlace).init noObjects :=
  ⟨rfl, rfl, rfl, rfl, rfl, rfl⟩

/-- A transaction that commits; then its connection is leased again and given up. -/
def committedThenBroken : List TransactionEvent :=
  [.construct (some .serializable) true (.ok ()) (.ok ()), .setIsolationLevel 0 fun _ => .ok (),
    .exec 0 (.ok ()), .commit 0 (.ok ()), .acquire false true (.ok ()), .markBroken 0]

theorem committedThenBroken_works_backed :
    ∃ ts s, (transactionMachine onePlace).exec noObjects committedThenBroken = some (ts, s) ∧
      ∀ v, Machine.Visits noObjects ts v → v.WorksBacked := by
  have h : (transactionMachine onePlace).exec noObjects committedThenBroken = some (_, _) := rfl
  refine ⟨_, _, h, (works_backed_iff noObjects_init (Machine.Run.of_exec h)).mpr ?_⟩
  intro t ht i named x live owns
  simp only [List.mem_cons, List.not_mem_nil, or_false] at ht
  rcases ht with rfl | rfl | rfl | rfl | rfl | rfl <;> try cases named
  rcases live with own | ⟨_ | j, o, at_j, tx⟩
  · cases own
  · cases at_j
    cases tx
  · cases at_j

/-- A statement of a `Transaction` meets a broken connection: the handler closes the
connection and leaves the work open. -/
theorem connection_error_leaves_work_unbacked :
    ∃ ts s, (transactionMachine onePlace).exec noObjects
        [.construct none true (.ok ()) (.ok ()),
          .exec 0 (.error ⟨.brokenConnection, "server closed the connection", ""⟩)] = some (ts, s) ∧
      s.Live ⟨some 0, true, true⟩ ∧ s.db.core.states = [⟨none, true⟩] ∧ ¬ s.WorksBacked := by
  refine ⟨_, _, rfl, ?_, rfl, ?_⟩
  · exact .inr ⟨0, _, rfl, rfl⟩
  · intro backed
    obtain ⟨i, x, bound, at_i, here⟩ := backed ⟨some 0, true, true⟩ (.inr ⟨0, _, rfl, rfl⟩) rfl
    cases bound
    cases at_i
    cases here

end Rtl.Db
