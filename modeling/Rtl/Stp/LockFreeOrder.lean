import Rtl.Base.Linked
import Rtl.Base.ListUpdate
import Rtl.Stp.LockFreeQueue

/-! # The order of the lock-free queue

The nodes from the head on form a chain. A push links its node to the last one, a pop
moves the head one link on, and the tail is somewhere in the chain and not before the
head. All this rests on what a thread has seen staying true while it acts on it: a node
it holds may leave the chain, but must not be deleted, or come back to it as another node.
It stays true as long as no pop deletes a node that another call in progress still holds.
-/

namespace Rtl.Stp

open Rtl.Base

variable {τ : Type*}

/-! ## Memory -/

namespace LfqShared

variable {s s' : LfqShared τ} {a b n : Nat}

theorem nextOf_setNext_ne (other : b ≠ a) : (s.setNext a n).nextOf b = s.nextOf b := by
  simp [nextOf, setNext, Ne.symm other]

theorem nextOf_setNext_self (inside : a < s.heap.length) : (s.setNext a n).nextOf a = some n := by
  simp [nextOf, setNext, inside]

theorem valueOf_setNext : (s.setNext a n).valueOf b = s.valueOf b := by
  simp only [valueOf, setNext, List.getElem?_modify]
  cases s.heap[b]? <;> by_cases here : a = b <;> simp [here]

theorem isLive_setNext : (s.setNext a n).isLive b = s.isLive b := by
  simp only [isLive, setNext, List.getElem?_modify]
  cases s.heap[b]? <;> by_cases here : a = b <;> simp [here]

theorem nextOf_delete : (s.delete a).nextOf b = s.nextOf b := by
  simp only [nextOf, delete, List.getElem?_modify]
  cases s.heap[b]? <;> by_cases here : a = b <;> simp [here]

theorem valueOf_delete : (s.delete a).valueOf b = s.valueOf b := by
  simp only [valueOf, delete, List.getElem?_modify]
  cases s.heap[b]? <;> by_cases here : a = b <;> simp [here]

theorem isLive_delete_ne (other : b ≠ a) : (s.delete a).isLive b = s.isLive b := by
  simp [isLive, delete, Ne.symm other]

theorem readNext_of_isLive {stale : Stale τ} (live : s.isLive a = true) :
    s.readNext stale a = s.nextOf a := if_pos live

theorem readValue_of_isLive {stale : Stale τ} (live : s.isLive a = true) :
    s.readValue stale a = s.valueOf a := if_pos live

theorem lt_of_isLive (live : s.isLive a = true) : a < s.heap.length := by
  obtain ⟨cell, found, _⟩ := Option.any_eq_true _ _ |>.mp live
  exact (List.getElem?_eq_some_iff.mp found).1

/-- A new node is at an address that was not in use, and nothing else changes. -/
theorem allocate_spec {value : τ} (h : s.allocate a value = some s') :
    s.isLive a = false ∧ s'.heap[a]? = some ⟨some value, none, true⟩ ∧
      (∀ b, b ≠ a → s'.heap[b]? = s.heap[b]?) ∧ s'.head = s.head ∧ s'.tail = s.tail ∧
      s'.linked = s.linked ∧ s'.taken = s.taken := by
  unfold allocate at h
  split at h
  · next fresh =>
      cases h
      subst fresh
      refine ⟨by simp [isLive], by simp, ?_, rfl, rfl, rfl, rfl⟩
      intro b other
      rw [List.getElem?_append]
      split
      · rfl
      · next outside =>
          rw [List.getElem?_eq_none (Nat.not_lt.mp outside)]
          simp only [List.getElem?_singleton]
          rw [if_neg (by omega)]
  · split at h
    · next free =>
        cases h
        refine ⟨free.2, by simp [free.1], ?_, rfl, rfl, rfl, rfl⟩
        intro b other
        simp [List.getElem?_set_ne (Ne.symm other)]
    · cases h

theorem allocate_other {value : τ} (h : s.allocate a value = some s') (other : b ≠ a) :
    s'.nextOf b = s.nextOf b ∧ s'.valueOf b = s.valueOf b ∧ s'.isLive b = s.isLive b := by
  have same := (allocate_spec h).2.2.1 b other
  simp only [nextOf, valueOf, isLive, same, and_self]

end LfqShared

/-! ## The chain -/

/-- The nodes from the head on: `h`, the dummy, and the ones whose values are still there. -/
structure Path (s : LfqShared τ) (h : Nat) (rest : List Nat) : Prop where
  head : s.head = some h
  chain : Linked s.nextOf (some h) (h :: rest)
  nodup : (h :: rest).Nodup
  live : ∀ a ∈ h :: rest, s.isLive a = true
  tail : s.tail ∈ h :: rest
  values : s.taken ++ rest.map s.valueOf = s.linked

/-- The addresses a call has read from the head or the tail, and of the node whose value it
is about to read. A link read from a node that has left the chain is not among them. -/
def LfqPc.bases : LfqPc τ → List Nat
  | .loadNext _ curTail => [curTail]
  | .reloadTail _ curTail _ => [curTail]
  | .casNext _ curTail => [curTail]
  | .helpTail _ curTail _ => [curTail]
  | .casTail _ curTail => [curTail]
  | .popLoadTail curHead => curHead.toList
  | .popLoadNext curHead _ => curHead.toList
  | .popHelpTail curTail _ => [curTail]
  | .popCasHead curHead _ => [curHead]
  | .popReadValue curHead headNext _ => curHead :: headNext.toList
  | .popDelete curHead _ _ => [curHead]
  | _ => []

def LfqPc.unlinked : LfqPc τ → Option Nat
  | .loadTail newNode => some newNode
  | .loadNext newNode _ => some newNode
  | .reloadTail newNode _ _ => some newNode
  | .casNext newNode _ => some newNode
  | .helpTail newNode _ _ => some newNode
  | _ => none

def LfqPc.knows (pc : LfqPc τ) : List Nat := pc.unlinked.toList ++ pc.bases

theorem LfqPc.bases_subset_holds (pc : LfqPc τ) : pc.bases ⊆ pc.holds := by
  cases pc <;> simp [bases, holds]

theorem LfqPc.follows_subset_bases (pc : LfqPc τ) : pc.follows ⊆ pc.bases := by
  cases pc <;> simp [follows, bases]

theorem LfqPc.mem_knows {pc : LfqPc τ} {b : Nat} (base : b ∈ pc.bases) : b ∈ pc.knows :=
  List.mem_append_right _ base

theorem LfqPc.mem_knows_of_unlinked {pc : LfqPc τ} {n : Nat} (own : pc.unlinked = some n) :
    n ∈ pc.knows := by
  simp [knows, own]

/-- What a thread has seen and relies on. A former tail is in the chain or has a link; a
former head is the head or has left the chain; and a link of a node in the chain is what
it was. -/
def Seen (s : LfqShared τ) (h : Nat) (rest : List Nat) : LfqPc τ → Prop
  | .loadNext _ curTail => curTail ∈ h :: rest ∨ s.nextOf curTail ≠ none
  | .reloadTail _ curTail curTailNext => (curTail ∈ h :: rest ∨ s.nextOf curTail ≠ none) ∧
      (curTail ∈ h :: rest → ∀ n, curTailNext = some n → s.nextOf curTail = some n)
  | .casNext _ curTail => curTail ∈ h :: rest ∨ s.nextOf curTail ≠ none
  | .helpTail _ curTail curTailNext => curTail ∈ h :: rest → s.nextOf curTail = some curTailNext
  | .casTail newNode curTail => curTail ∈ h :: rest → s.nextOf curTail = some newNode
  | .popLoadTail curHead => ∃ a, curHead = some a ∧ a ∉ rest
  | .popLoadNext curHead curTail =>
      ∃ a, curHead = some a ∧ a ∉ rest ∧ (a = h → a ≠ curTail → s.tail ≠ h)
  | .popHelpTail curTail headNext => curTail ∈ h :: rest → s.nextOf curTail = some headNext
  | .popCasHead curHead headNext =>
      curHead ∉ rest ∧ (curHead = h → s.nextOf curHead = headNext ∧ s.tail ≠ h)
  | .popReadValue curHead headNext ticket =>
      curHead ∉ h :: rest ∧ ∃ n, headNext = some n ∧ s.taken[ticket]? = some (s.valueOf n)
  | .popDelete curHead data ticket => curHead ∉ h :: rest ∧ s.taken[ticket]? = some data
  | _ => True

/-- The shared state and the chain have changed in a way that is harmless to a thread that
relies on what it has seen of the node `b`. -/
structure Evolves (s : LfqShared τ) (h : Nat) (rest : List Nat) (s' : LfqShared τ) (h' : Nat)
    (rest' : List Nat) (b : Nat) : Prop where
  live : s.isLive b = true → s'.isLive b = true
  link : ∀ n, s.nextOf b = some n → s'.nextOf b = some n
  value : s'.valueOf b = s.valueOf b
  notLater : b ∉ rest → b ∉ rest'
  notIn : b ∉ h :: rest → b ∉ h' :: rest'
  anchored : b ∈ h :: rest → b ∈ h' :: rest' ∨ s'.nextOf b ≠ none
  head : b ∉ rest → b = h' → b = h ∧ (s.tail ≠ h → s'.tail ≠ h' ∧ s'.nextOf b = s.nextOf b)

section Evolve

variable {s s' : LfqShared τ} {h h' : Nat} {rest rest' : List Nat}

theorem Evolves.anchor {b : Nat} (ev : Evolves s h rest s' h' rest' b)
    (seen : b ∈ h :: rest ∨ s.nextOf b ≠ none) : b ∈ h' :: rest' ∨ s'.nextOf b ≠ none := by
  rcases seen with mem | linked
  · exact ev.anchored mem
  · obtain ⟨n, link⟩ := Option.ne_none_iff_exists'.mp linked
    exact .inr (by simp [ev.link n link])

theorem Evolves.keepsLink {b n : Nat} (ev : Evolves s h rest s' h' rest' b)
    (seen : b ∈ h :: rest → s.nextOf b = some n) : b ∈ h' :: rest' → s'.nextOf b = some n := by
  intro mem
  refine ev.link n (seen ?_)
  by_contra gone
  exact ev.notIn gone mem

theorem Seen.evolve {pc : LfqPc τ} (seen : Seen s h rest pc)
    (ev : ∀ b ∈ pc.bases, Evolves s h rest s' h' rest' b)
    (taken : ∀ (i : Nat) (v : Option τ), s.taken[i]? = some v → s'.taken[i]? = some v) :
    Seen s' h' rest' pc := by
  cases pc with
  | loadNext n curTail => exact (ev curTail (by simp [LfqPc.bases])).anchor seen
  | reloadTail n curTail curTailNext =>
      have ev := ev curTail (by simp [LfqPc.bases])
      refine ⟨ev.anchor seen.1, fun mem n same => ?_⟩
      exact ev.keepsLink (fun mem => seen.2 mem n same) mem
  | casNext n curTail => exact (ev curTail (by simp [LfqPc.bases])).anchor seen
  | helpTail n curTail curTailNext => exact (ev curTail (by simp [LfqPc.bases])).keepsLink seen
  | casTail n curTail => exact (ev curTail (by simp [LfqPc.bases])).keepsLink seen
  | popLoadTail curHead =>
      obtain ⟨a, rfl, past⟩ := seen
      exact ⟨a, rfl, (ev a (by simp [LfqPc.bases])).notLater past⟩
  | popLoadNext curHead curTail =>
      obtain ⟨a, rfl, past, ahead⟩ := seen
      have ev := ev a (by simp [LfqPc.bases])
      refine ⟨a, rfl, ev.notLater past, fun here other => ?_⟩
      obtain ⟨same, keeps⟩ := ev.head past here
      exact (keeps (ahead same other)).1
  | popHelpTail curTail headNext => exact (ev curTail (by simp [LfqPc.bases])).keepsLink seen
  | popCasHead curHead headNext =>
      have ev := ev curHead (by simp [LfqPc.bases])
      refine ⟨ev.notLater seen.1, fun here => ?_⟩
      obtain ⟨same, keeps⟩ := ev.head seen.1 here
      obtain ⟨link, ahead⟩ := seen.2 same
      obtain ⟨ahead', link'⟩ := keeps ahead
      exact ⟨link'.trans link, ahead'⟩
  | popReadValue curHead headNext ticket =>
      obtain ⟨gone, n, rfl, value⟩ := seen
      refine ⟨(ev curHead (by simp [LfqPc.bases])).notIn gone, n, rfl, ?_⟩
      rw [(ev n (by simp [LfqPc.bases])).value]
      exact taken ticket _ value
  | popDelete curHead data ticket =>
      exact ⟨(ev curHead (by simp [LfqPc.bases])).notIn seen.1, taken ticket _ seen.2⟩
  | _ => trivial

end Evolve

/-! ## All threads -/

/-- A node that only the thread that pushes it knows. -/
structure Unlinked (s : LfqShared τ) (h : Nat) (rest : List Nat) (n : Nat) : Prop where
  live : s.isLive n = true
  notIn : n ∉ h :: rest
  link : s.nextOf n = none

structure Good (q : LockFreeQueue τ) (h : Nat) (rest : List Nat) : Prop where
  path : Path q.shared h rest
  seen : ∀ (t : Nat) (pc : LfqPc τ), q.threads[t]? = some pc → Seen q.shared h rest pc
  alive : ∀ (t : Nat) (pc : LfqPc τ), q.threads[t]? = some pc → ∀ b ∈ pc.bases,
    q.shared.isLive b = true
  own : ∀ (t : Nat) (pc : LfqPc τ) (n : Nat), q.threads[t]? = some pc → pc.unlinked = some n →
    Unlinked q.shared h rest n
  apart : ∀ (t u : Nat) (pc pc' : LfqPc τ) (n : Nat), t ≠ u → q.threads[t]? = some pc →
    q.threads[u]? = some pc' → pc.unlinked = some n → n ∉ pc'.knows

/-! ### Changes of the chain -/

section Changes

variable {s s' : LfqShared τ} {h : Nat} {rest : List Nat}

/-- If the tail is not at the head there is a node after the head. -/
theorem Path.ahead (path : Path s h rest) (ahead : s.tail ≠ h) :
    ∃ x rest', rest = x :: rest' ∧ s.nextOf h = some x := by
  have chain := path.chain.rest
  cases link : s.nextOf h with
  | none =>
      rw [link] at chain
      cases chain with
      | nil => exact absurd (List.mem_singleton.mp path.tail) ahead
  | some x =>
      rw [link] at chain
      cases chain with
      | cons _ => exact ⟨x, _, rfl, rfl⟩

def LfqShared.linkNode (s : LfqShared τ) (last n : Nat) : LfqShared τ :=
  { s.setNext last n with linked := s.linked ++ [s.valueOf n] }

theorem Path.linkNode (path : Path s h rest) {last n : Nat} (inside : last ∈ h :: rest)
    (stop : s.nextOf last = none) (node : Unlinked s h rest n) :
    Path (s.linkNode last n) h (rest ++ [n]) := by
  have apart : n ≠ last := by
    rintro rfl
    exact node.notIn inside
  obtain ⟨init, whole⟩ := path.chain.eq_concat inside stop
  refine ⟨path.head, ?_, ?_, ?_, ?_, ?_⟩
  · have chain := path.chain
    have nodup := path.nodup
    rw [← List.cons_append, whole]
    rw [whole] at chain nodup
    refine chain.concat ?_
      (LfqShared.nextOf_setNext_self (LfqShared.lt_of_isLive (path.live last inside)))
      ((LfqShared.nextOf_setNext_ne apart).trans node.link)
    intro x mem
    refine LfqShared.nextOf_setNext_ne ?_
    rintro rfl
    exact (List.nodup_append.mp nodup).2.2 x mem x (by simp) rfl
  · rw [← List.cons_append]
    refine List.nodup_append.mpr ⟨path.nodup, by simp, ?_⟩
    intro x mem y single
    rw [List.mem_singleton.mp single]
    rintro rfl
    exact node.notIn mem
  · intro a mem
    rw [← List.cons_append, List.mem_append, List.mem_singleton] at mem
    refine LfqShared.isLive_setNext.trans ?_
    rcases mem with mem | rfl
    · exact path.live a mem
    · exact node.live
  · rw [← List.cons_append]
    exact List.mem_append_left _ path.tail
  · have same : (s.linkNode last n).valueOf = s.valueOf := by
      funext b
      exact LfqShared.valueOf_setNext
    rw [same, List.map_append, ← List.append_assoc]
    exact congrArg (· ++ [s.valueOf n]) path.values

theorem Evolves.linkNode (path : Path s h rest) {last n b : Nat} (stop : s.nextOf last = none)
    (other : b ≠ n) : Evolves s h rest (s.linkNode last n) h (rest ++ [n]) b := by
  have unchanged : b ≠ last → (s.linkNode last n).nextOf b = s.nextOf b :=
    fun distinct => LfqShared.nextOf_setNext_ne distinct
  have notLast : ∀ x, s.nextOf b = some x → b ≠ last := by
    rintro x link rfl
    rw [stop] at link
    cases link
  refine ⟨LfqShared.isLive_setNext.trans, ?_, LfqShared.valueOf_setNext, ?_, ?_, ?_, ?_⟩
  · intro x link
    rw [unchanged (notLast x link), link]
  · intro past
    simp [past, other]
  · intro gone
    rw [← List.cons_append, List.mem_append]
    simp [other, gone]
  · intro mem
    refine .inl ?_
    rw [← List.cons_append]
    exact List.mem_append_left _ mem
  · rintro _ rfl
    refine ⟨rfl, fun ahead => ⟨ahead, ?_⟩⟩
    obtain ⟨x, _, _, link⟩ := path.ahead ahead
    exact unchanged (notLast x link)

theorem Unlinked.linkNode {last n m : Nat} (node : Unlinked s h rest m) (inside : last ∈ h :: rest)
    (other : m ≠ n) : Unlinked (s.linkNode last n) h (rest ++ [n]) m := by
  refine ⟨LfqShared.isLive_setNext.trans node.live, ?_, ?_⟩
  · rw [← List.cons_append, List.mem_append]
    simp [other, node.notIn]
  · refine (LfqShared.nextOf_setNext_ne ?_).trans node.link
    rintro rfl
    exact node.notIn inside

def LfqShared.takeNode (s : LfqShared τ) (n : Nat) : LfqShared τ :=
  { s with head := some n, taken := s.taken ++ [s.valueOf n] }

theorem Path.takeNode {x : Nat} (path : Path s h (x :: rest)) (ahead : s.tail ≠ h) :
    Path (s.takeNode x) x rest := by
  refine ⟨rfl, ?_, (List.nodup_cons.mp path.nodup).2, fun a mem => path.live a (by simp [mem]), ?_, ?_⟩
  · have chain := path.chain.rest
    have link : s.nextOf h = some x := by
      obtain ⟨_, _, same, link⟩ := path.ahead ahead
      cases same
      exact link
    rw [link] at chain
    exact chain
  · exact (List.mem_cons.mp path.tail).resolve_left ahead
  · have values := path.values
    simp only [LfqShared.takeNode, List.append_assoc, List.singleton_append]
    exact values

theorem Evolves.takeNode {x b : Nat} (path : Path s h (x :: rest)) (ahead : s.tail ≠ h) :
    Evolves s h (x :: rest) (s.takeNode x) x rest b := by
  refine ⟨fun h => h, fun _ h => h, rfl, ?_, ?_, ?_, ?_⟩
  · intro past later
    exact past (by simp [later])
  · intro gone mem
    exact gone (List.mem_cons_of_mem h mem)
  · intro mem
    rcases List.mem_cons.mp mem with rfl | mem
    · obtain ⟨_, _, _, link⟩ := path.ahead ahead
      exact .inr fun stop => by cases link.symm.trans stop
    · exact .inl mem
  · rintro past rfl
    simp at past

structure SameEnds (s s' : LfqShared τ) : Prop where
  head : s'.head = s.head
  tail : s'.tail = s.tail
  linked : s'.linked = s.linked
  taken : s'.taken = s.taken

/-- Memory has changed outside of the chain. -/
theorem Path.outside (path : Path s h rest) (ends : SameEnds s s')
    (same : ∀ a ∈ h :: rest,
      s'.nextOf a = s.nextOf a ∧ s'.valueOf a = s.valueOf a ∧ s'.isLive a = s.isLive a) :
    Path s' h rest := by
  refine ⟨ends.head.trans path.head, path.chain.congr fun a mem => (same a mem).1, path.nodup, ?_, ?_,
    ?_⟩
  · intro a mem
    exact (same a mem).2.2.trans (path.live a mem)
  · rw [ends.tail]
    exact path.tail
  · have values : rest.map s'.valueOf = rest.map s.valueOf :=
      List.map_congr_left fun a mem => (same a (by simp [mem])).2.1
    rw [ends.taken, values, ends.linked]
    exact path.values

theorem Evolves.outside {b : Nat} (ends : SameEnds s s') (link : s'.nextOf b = s.nextOf b)
    (value : s'.valueOf b = s.valueOf b) (live : s'.isLive b = s.isLive b) :
    Evolves s h rest s' h rest b := by
  refine ⟨live.trans, fun n same => link.trans same, value, fun h => h, fun h => h, .inl, fun _ same => ⟨same, ?_⟩⟩
  intro ahead
  rw [ends.tail]
  exact ⟨ahead, link⟩

end Changes

section Threads

variable {q : LockFreeQueue τ} {h h' t x : Nat} {rest rest' : List Nat} {pc pc' : LfqPc τ}
  {s' : LfqShared τ}

theorem set_threads_at {u : Nat} {pcu : LfqPc τ} (at_u : (q.threads.set t pc')[u]? = some pcu) :
    (u = t ∧ pcu = pc') ∨ (u ≠ t ∧ q.threads[u]? = some pcu) := by
  by_cases here : t = u
  · subst here
    have inside : t < q.threads.length := by
      have := (List.getElem?_eq_some_iff.mp at_u).1
      simpa using this
    rw [List.getElem?_set_self inside] at at_u
    exact .inl ⟨rfl, (Option.some_inj.mp at_u).symm⟩
  · rw [List.getElem?_set_ne here] at at_u
    exact .inr ⟨Ne.symm here, at_u⟩

/-- One thread has moved and the shared state has changed, harmlessly to the others. -/
theorem Good.set (good : Good q h rest) (path : Path s' h' rest')
    (others : ∀ (u : Nat) (pcu : LfqPc τ), u ≠ t → q.threads[u]? = some pcu →
      (∀ b ∈ pcu.bases, Evolves q.shared h rest s' h' rest' b) ∧
      ∀ n, pcu.unlinked = some n → Unlinked s' h' rest' n ∧ n ∉ pc'.knows)
    (taken : ∀ (i : Nat) (v : Option τ), q.shared.taken[i]? = some v → s'.taken[i]? = some v)
    (seen : Seen s' h' rest' pc') (alive : ∀ b ∈ pc'.bases, s'.isLive b = true)
    (own : ∀ n, pc'.unlinked = some n → Unlinked s' h' rest' n ∧
      ∀ (u : Nat) (pcu : LfqPc τ), u ≠ t → q.threads[u]? = some pcu → n ∉ pcu.knows) :
    Good ⟨s', q.threads.set t pc'⟩ h' rest' := by
  refine ⟨path, ?_, ?_, ?_, ?_⟩
  · intro u pcu at_u
    rcases set_threads_at at_u with ⟨_, rfl⟩ | ⟨other, at_u⟩
    · exact seen
    · exact (good.seen u pcu at_u).evolve (others u pcu other at_u).1 taken
  · intro u pcu at_u b mem
    rcases set_threads_at at_u with ⟨_, rfl⟩ | ⟨other, at_u⟩
    · exact alive b mem
    · exact ((others u pcu other at_u).1 b mem).live (good.alive u pcu at_u b mem)
  · intro u pcu n at_u unlinked
    rcases set_threads_at at_u with ⟨_, rfl⟩ | ⟨other, at_u⟩
    · exact (own n unlinked).1
    · exact ((others u pcu other at_u).2 n unlinked).1
  · intro u v pcu pcv n distinct at_u at_v unlinked
    rcases set_threads_at at_u with ⟨rfl, rfl⟩ | ⟨other, before_u⟩
    · rcases set_threads_at at_v with ⟨rfl, _⟩ | ⟨other, before_v⟩
      · exact absurd rfl distinct
      · exact (own n unlinked).2 v pcv other before_v
    · rcases set_threads_at at_v with ⟨rfl, rfl⟩ | ⟨_, before_v⟩
      · exact ((others u pcu other before_u).2 n unlinked).2
      · exact good.apart u v pcu pcv n distinct before_u before_v unlinked

theorem Evolves.refl (s : LfqShared τ) (h : Nat) (rest : List Nat) (b : Nat) :
    Evolves s h rest s h rest b :=
  ⟨fun h => h, fun _ h => h, rfl, fun h => h, fun h => h, .inl,
    fun _ same => ⟨same, fun ahead => ⟨ahead, rfl⟩⟩⟩

/-- The node of another push is not among the addresses read from the head and the tail. -/
theorem Good.fresh (good : Good q h rest) {u : Nat} {pcu : LfqPc τ} {n : Nat} (other : u ≠ t)
    (found : q.threads[t]? = some pc) (at_u : q.threads[u]? = some pcu)
    (unlinked : pcu.unlinked = some n)
    (known : ∀ b ∈ pc'.knows, b ∈ pc.knows ∨ b ∈ h :: rest) : n ∉ pc'.knows := by
  intro mem
  rcases known n mem with old | inside
  · exact good.apart u t pcu pc n other at_u found unlinked old
  · exact (good.own u pcu n at_u unlinked).notIn inside

/-- What a thread follows is live: it knew it before, or has read it from the chain. -/
theorem Good.alive_of_known (good : Good q h rest) (found : q.threads[t]? = some pc)
    (known : ∀ b ∈ pc'.knows, b ∈ pc.knows ∨ b ∈ h :: rest) : ∀ b ∈ pc'.bases,
    q.shared.isLive b = true := by
  intro b mem
  rcases known b (LfqPc.mem_knows mem) with old | inside
  · rcases List.mem_append.mp old with own | base
    · exact (good.own t pc b found (Option.mem_toList.mp own)).live
    · exact good.alive t pc found b base
  · exact good.path.live b inside

/-- A step that only reads. -/
theorem Good.read (good : Good q h rest) (found : q.threads[t]? = some pc)
    (seen : Seen q.shared h rest pc') (own : ∀ n, pc'.unlinked = some n → pc.unlinked = some n)
    (known : ∀ b ∈ pc'.knows, b ∈ pc.knows ∨ b ∈ h :: rest) :
    Good ⟨q.shared, q.threads.set t pc'⟩ h rest := by
  refine good.set good.path ?_ (fun _ _ h => h) seen (good.alive_of_known found known) ?_
  · intro u pcu other at_u
    refine ⟨fun b _ => Evolves.refl _ _ _ _, fun n unlinked => ?_⟩
    exact ⟨good.own u pcu n at_u unlinked, good.fresh other found at_u unlinked known⟩
  · intro n unlinked
    have mine := own n unlinked
    exact ⟨good.own t pc n found mine, fun u pcu other at_u =>
      good.apart t u pc pcu n (Ne.symm other) found at_u mine⟩

/-- The tail moves one link on, or stays. -/
theorem Good.casTail (good : Good q h rest) (found : q.threads[t]? = some pc) (weak : Bool)
    {expected desired : Nat}
    (link : expected ∈ h :: rest → q.shared.nextOf expected = some desired)
    (own : ∀ n, pc'.unlinked = some n → pc.unlinked = some n)
    (known : ∀ b ∈ pc'.knows, b ∈ pc.knows ∨ b ∈ h :: rest)
    (seen : ∀ s : LfqShared τ, Seen s h rest pc') :
    Good ⟨q.shared.casTail weak expected desired, q.threads.set t pc'⟩ h rest := by
  unfold LfqShared.casTail
  split
  · next swings =>
      obtain ⟨here, _⟩ := swings
      subst here
      have later : desired ∈ rest := good.path.chain.link_mem good.path.tail (link good.path.tail)
      have notHead : desired ≠ h := by
        rintro rfl
        exact (List.nodup_cons.mp good.path.nodup).1 later
      have path : Path { q.shared with tail := desired } h rest :=
        ⟨good.path.head, good.path.chain, good.path.nodup, good.path.live, by simp [later],
          good.path.values⟩
      refine good.set path ?_ (fun _ _ h => h) (seen _) (good.alive_of_known found known) ?_
      · intro u pcu other at_u
        refine ⟨fun b _ => ?_, fun n unlinked => ⟨?_, good.fresh other found at_u unlinked known⟩⟩
        · exact ⟨fun h => h, fun _ h => h, rfl, fun h => h, fun h => h, .inl,
            fun _ same => ⟨same, fun _ => ⟨notHead, rfl⟩⟩⟩
        · have mine := good.own u pcu n at_u unlinked
          exact ⟨mine.live, mine.notIn, mine.link⟩
      · intro n unlinked
        have mine := own n unlinked
        have node := good.own t pc n found mine
        exact ⟨⟨node.live, node.notIn, node.link⟩, fun u pcu other at_u =>
          good.apart t u pc pcu n (Ne.symm other) found at_u mine⟩
  · exact good.read found (seen _) own known

/-- A push links its node to the last one. -/
theorem Good.link (good : Good q h rest) {n curTail : Nat}
    (found : q.threads[t]? = some (.casNext n curTail)) (stop : q.shared.nextOf curTail = none) :
    Good ⟨q.shared.linkNode curTail n, q.threads.set t (.casTail n curTail)⟩ h (rest ++ [n]) := by
  have inside : curTail ∈ h :: rest := (good.seen t _ found).resolve_right (absurd stop)
  have node : Unlinked q.shared h rest n := good.own t _ n found rfl
  refine good.set (good.path.linkNode inside stop node) ?_ (fun _ _ h => h) ?_ ?_
    (by simp [LfqPc.unlinked])
  · intro u pcu other at_u
    refine ⟨fun b mem => Evolves.linkNode good.path stop ?_, fun m unlinked => ⟨?_, ?_⟩⟩
    · rintro rfl
      exact good.apart t u _ pcu b (Ne.symm other) found at_u rfl (LfqPc.mem_knows mem)
    · refine (good.own u pcu m at_u unlinked).linkNode inside ?_
      rintro rfl
      exact good.apart t u _ pcu m (Ne.symm other) found at_u rfl (LfqPc.mem_knows_of_unlinked unlinked)
    · exact good.fresh other found at_u unlinked (by simp [LfqPc.knows, LfqPc.bases, LfqPc.unlinked])
  · intro _
    exact LfqShared.nextOf_setNext_self (LfqShared.lt_of_isLive (good.path.live curTail inside))
  · intro b mem
    rw [List.mem_singleton.mp mem]
    exact LfqShared.isLive_setNext.trans (good.path.live curTail inside)

/-- A pop moves the head. -/
theorem Good.take (good : Good q h (x :: rest)) {headNext : Option Nat}
    (found : q.threads[t]? = some (.popCasHead h headNext)) :
    headNext = some x ∧
      Good ⟨q.shared.takeNode x,
        q.threads.set t (.popReadValue h (some x) q.shared.taken.length)⟩ x rest := by
  obtain ⟨_, seen⟩ := good.seen t _ found
  obtain ⟨link, ahead⟩ := seen rfl
  obtain ⟨_, _, same, next⟩ := good.path.ahead ahead
  cases same
  refine ⟨link.symm.trans next, ?_⟩
  have out : h ∉ x :: rest := (List.nodup_cons.mp good.path.nodup).1
  refine good.set (good.path.takeNode ahead) ?_ ?_ ?_ ?_ (by simp [LfqPc.unlinked])
  · intro u pcu other at_u
    refine ⟨fun b _ => Evolves.takeNode good.path ahead, fun m unlinked => ⟨?_, ?_⟩⟩
    · have node := good.own u pcu m at_u unlinked
      exact ⟨node.live, fun mem => node.notIn (List.mem_cons_of_mem h mem), node.link⟩
    · refine good.fresh other found at_u unlinked ?_
      intro b mem
      simp [LfqPc.knows, LfqPc.bases, LfqPc.unlinked] at mem ⊢
      rcases mem with rfl | rfl <;> simp
  · intro i v old
    exact (List.getElem?_append_left (List.getElem?_eq_some_iff.mp old).1).trans old
  · exact ⟨out, x, rfl, by simp [LfqShared.takeNode]; rfl⟩
  · intro b mem
    refine good.path.live b ?_
    simp only [LfqPc.bases, Option.toList_some, List.mem_cons, List.not_mem_nil, or_false] at mem
    rcases mem with rfl | rfl <;> simp

/-- A pop deletes the node it has taken out of the chain, and nobody else holds it. -/
theorem Good.delete (good : Good q h rest) {curHead ticket : Nat} {data : Option τ}
    (found : q.threads[t]? = some (.popDelete curHead data ticket))
    (free : ∀ (u : Nat) (pcu : LfqPc τ), u ≠ t → q.threads[u]? = some pcu → curHead ∉ pcu.holds) :
    Good ⟨q.shared.delete curHead, q.threads.set t .idle⟩ h rest := by
  have gone := (good.seen t _ found).1
  have ends : SameEnds q.shared (q.shared.delete curHead) := ⟨rfl, rfl, rfl, rfl⟩
  have path : Path (q.shared.delete curHead) h rest := by
    refine good.path.outside ends fun a mem => ⟨LfqShared.nextOf_delete, LfqShared.valueOf_delete, ?_⟩
    refine LfqShared.isLive_delete_ne ?_
    rintro rfl
    exact gone mem
  refine good.set path ?_ (fun _ _ h => h) trivial (fun _ mem => by cases mem) (by simp [LfqPc.unlinked])
  intro u pcu other at_u
  refine ⟨fun b mem => ?_, fun m unlinked => ⟨?_, by simp [LfqPc.knows, LfqPc.bases, LfqPc.unlinked]⟩⟩
  · refine Evolves.outside ends LfqShared.nextOf_delete LfqShared.valueOf_delete
      (LfqShared.isLive_delete_ne ?_)
    rintro rfl
    exact free u pcu other at_u (pcu.bases_subset_holds mem)
  · have node := good.own u pcu m at_u unlinked
    refine ⟨(LfqShared.isLive_delete_ne ?_).trans node.live, node.notIn,
      LfqShared.nextOf_delete.trans node.link⟩
    rintro rfl
    exact good.apart u t pcu _ m other at_u found unlinked (by simp [LfqPc.knows, LfqPc.bases])

/-- A push has its node. What the others hold and follow is live, so that it is not the new
node. -/
theorem Good.allocate (good : Good q h rest) {a : Nat} {value : τ}
    (step : q.shared.allocate a value = some s') :
    Good ⟨s', q.threads.set t (.loadTail a)⟩ h rest := by
  obtain ⟨free, cell, _, head, tail, linked, taken⟩ := LfqShared.allocate_spec step
  have ends : SameEnds q.shared s' := ⟨head, tail, linked, taken⟩
  have other_of_live : ∀ b, q.shared.isLive b = true → b ≠ a := by
    rintro b live rfl
    rw [free] at live
    cases live
  have path : Path s' h rest :=
    good.path.outside ends fun b mem => LfqShared.allocate_other step
      (other_of_live b (good.path.live b mem))
  refine good.set path ?_ (by simp [taken]) trivial (fun _ mem => by cases mem) ?_
  · intro u pcu other at_u
    refine ⟨fun b mem => ?_, fun m unlinked => ?_⟩
    · obtain ⟨link, value, live⟩ := LfqShared.allocate_other step
        (other_of_live b (good.alive u pcu at_u b mem))
      exact Evolves.outside ends link value live
    · have node := good.own u pcu m at_u unlinked
      have distinct := other_of_live m node.live
      obtain ⟨link, _, live⟩ := LfqShared.allocate_other step distinct
      refine ⟨⟨live.trans node.live, node.notIn, link.trans node.link⟩, ?_⟩
      simpa [LfqPc.knows, LfqPc.bases, LfqPc.unlinked] using distinct
  · intro n own
    cases own
    refine ⟨⟨by simp [LfqShared.isLive, cell], ?_, by simp [LfqShared.nextOf, cell]⟩, ?_⟩
    · intro mem
      exact other_of_live a (good.path.live a mem) rfl
    · intro u pcu _ at_u mem
      rcases List.mem_append.mp mem with own | base
      · exact other_of_live a (good.own u pcu a at_u (Option.mem_toList.mp own)).live rfl
      · exact other_of_live a (good.alive u pcu at_u a base) rfl

/-- Every step of a thread keeps the invariant, for the chain that there then is. -/
theorem Good.step (good : Good q h rest) {weak : Bool} {stale : Stale τ} {output : LfqOutput τ}
    (found : q.threads[t]? = some pc) (step : q.shared.step weak stale pc = some (s', pc', output))
    (free : ∀ curHead data ticket, pc = .popDelete curHead data ticket →
      ∀ (u : Nat) (pcu : LfqPc τ), u ≠ t → q.threads[u]? = some pcu → curHead ∉ pcu.holds) :
    ∃ h' rest', Good ⟨s', q.threads.set t pc'⟩ h' rest' := by
  have seen := good.seen t pc found
  -- what the thread follows is live, so that it reads what is there
  have link : ∀ b ∈ pc.bases, q.shared.readNext stale b = q.shared.nextOf b :=
    fun b mem => LfqShared.readNext_of_isLive (good.alive t pc found b mem)
  cases pc with
  | idle => cases step
  | loadTail n =>
      cases step
      refine ⟨h, rest, good.read found (.inl good.path.tail) (fun _ own => own) ?_⟩
      intro b mem
      simp only [LfqPc.knows, LfqPc.bases, LfqPc.unlinked, Option.toList_some, List.mem_append,
        List.mem_singleton] at mem ⊢
      rcases mem with rfl | rfl
      · exact .inl (.inl rfl)
      · exact .inr good.path.tail
  | loadNext n curTail =>
      cases step
      rw [link curTail (by simp [LfqPc.bases])]
      exact ⟨h, rest, good.read found ⟨seen, fun _ _ link => link⟩
        (fun _ own => own) fun _ known => .inl known⟩
  | reloadTail n curTail curTailNext =>
      simp only [LfqShared.step] at step
      split at step
      · cases step
        refine ⟨h, rest, good.read found trivial (fun _ own => own) fun b mem => .inl ?_⟩
        exact List.mem_append_left _ mem
      · split at step
        · cases step
          exact ⟨h, rest, good.read found seen.1 (fun _ own => own) fun _ known => .inl known⟩
        · cases step
          exact ⟨h, rest, good.read found (fun mem => seen.2 mem _ rfl) (fun _ own => own)
            fun _ known => .inl known⟩
  | casNext n curTail =>
      simp only [LfqShared.step, link curTail (by simp [LfqPc.bases])] at step
      split at step
      · next links =>
          cases step
          exact ⟨h, rest ++ [n], good.link found links.1⟩
      · cases step
        refine ⟨h, rest, good.read found trivial (fun _ own => own) fun b mem => .inl ?_⟩
        exact List.mem_append_left _ mem
  | helpTail n curTail curTailNext =>
      cases step
      refine ⟨h, rest, good.casTail found weak seen (fun _ own => own) (fun b mem => .inl ?_)
        fun _ => trivial⟩
      exact List.mem_append_left _ mem
  | casTail n curTail =>
      cases step
      exact ⟨h, rest, good.casTail found weak seen (fun _ own => own)
        (fun _ mem => by cases mem) fun _ => trivial⟩
  | popLoadHead =>
      cases step
      rw [good.path.head]
      refine ⟨h, rest, good.read found ⟨h, rfl, (List.nodup_cons.mp good.path.nodup).1⟩
        (fun _ own => own) fun b mem => .inr ?_⟩
      rw [List.mem_singleton.mp mem]
      exact List.mem_cons_self
  | popLoadTail curHead =>
      cases step
      obtain ⟨a, rfl, past⟩ := seen
      refine ⟨h, rest, good.read found ⟨a, rfl, past, ?_⟩ (fun _ own => own) fun _ known => .inl known⟩
      rintro rfl other
      exact Ne.symm other
  | popLoadNext curHead curTail =>
      obtain ⟨a, rfl, past, ahead⟩ := seen
      simp only [LfqShared.step, link a (by simp [LfqPc.bases])] at step
      split at step
      · next same =>
          subst same
          split at step
          · cases step
            exact ⟨h, rest, good.read found trivial (fun _ own => own) fun _ mem => by cases mem⟩
          · next link =>
              cases step
              exact ⟨h, rest, good.read found (fun _ => link)
                (fun _ own => own) fun _ known => .inl known⟩
      · next other =>
          cases step
          exact ⟨h, rest, good.read found ⟨past, fun here => ⟨rfl, ahead here other⟩⟩ (fun _ own => own)
            fun _ known => .inl known⟩
  | popHelpTail curTail headNext =>
      cases step
      exact ⟨h, rest, good.casTail found weak seen (fun _ own => own)
        (fun _ mem => by cases mem) fun _ => trivial⟩
  | popCasHead curHead headNext =>
      simp only [LfqShared.step] at step
      split at step
      · next takes =>
          cases step
          obtain rfl : curHead = h := Option.some_inj.mp (takes.1.symm.trans good.path.head)
          obtain ⟨x, rest, rfl, _⟩ := good.path.ahead (seen.2 rfl).2
          obtain ⟨rfl, taken⟩ := good.take found
          exact ⟨x, rest, taken⟩
      · cases step
        exact ⟨h, rest, good.read found trivial (fun _ own => own) fun _ mem => by cases mem⟩
  | popReadValue curHead headNext ticket =>
      obtain ⟨gone, n, rfl, value⟩ := seen
      cases step
      rw [LfqShared.readValue_of_isLive (good.alive t _ found n (by simp [LfqPc.bases]))]
      refine ⟨h, rest, good.read found ⟨gone, value⟩ (fun _ own => own) fun b mem => .inl ?_⟩
      rw [List.mem_singleton.mp mem]
      exact List.mem_cons_self
  | popDelete curHead data ticket =>
      cases step
      exact ⟨h, rest, good.delete found (free _ _ _ rfl)⟩

end Threads

/-! ## Whole runs -/

namespace LockFreeQueue

/-- Following the links from the head's successor gives the values that have been linked
and not been taken, in the order in which they were linked. -/
def Fifo (q : LockFreeQueue τ) : Prop :=
  ∃ nodes, Linked q.shared.nextOf (q.shared.head.bind q.shared.nextOf) nodes ∧
    q.shared.taken ++ nodes.map q.shared.valueOf = q.shared.linked

theorem fifo_of_good {q : LockFreeQueue τ} {h : Nat} {rest : List Nat} (good : Good q h rest) :
    q.Fifo := by
  refine ⟨rest, ?_, good.path.values⟩
  rw [good.path.head, Option.bind_some]
  exact good.path.chain.rest

theorem good_start (threads : Nat) : Good (start threads : LockFreeQueue τ) 0 [] := by
  have idle : ∀ (t : Nat) (pc : LfqPc τ), (start threads : LockFreeQueue τ).threads[t]? = some pc →
    pc = .idle := by
    intro t pc found
    exact (List.mem_replicate.mp (List.mem_of_getElem? found)).2
  refine ⟨⟨rfl, .cons .nil, by simp, ?_, by simp [start, LfqShared.start], rfl⟩, ?_, ?_, ?_, ?_⟩
  · intro a mem
    rw [List.mem_singleton.mp mem]
    rfl
  · intro t pc found
    rw [idle t pc found]
    trivial
  · intro t pc found b mem
    rw [idle t pc found] at mem
    cases mem
  · intro t pc n found own
    rw [idle t pc found] at own
    cases own
  · intro t u pc pc' n _ found _ own
    rw [idle t pc found] at own
    cases own

theorem safe_of_good {q : LockFreeQueue τ} {h : Nat} {rest : List Nat} (good : Good q h rest) :
    q.Safe := by
  intro pc mem a follows
  obtain ⟨t, found⟩ := List.mem_iff_getElem?.mp mem
  exact good.alive t pc found a (pc.follows_subset_bases follows)

theorem not_held {q : LockFreeQueue τ} {t curHead ticket : Nat} {weak : Bool} {stale : Stale τ}
    {data : Option τ} (guard : q.deletesHeld (.step t weak stale) = false)
    (found : q.threads[t]? = some (.popDelete curHead data ticket))
    (u : Nat) (pcu : LfqPc τ) (other : u ≠ t) (at_u : q.threads[u]? = some pcu) :
    curHead ∉ pcu.holds := by
  intro mem
  have held : q.deletesHeld (.step t weak stale) = true := by
    simp only [deletesHeld, found, List.any_eq_true]
    exact ⟨pcu, List.mem_eraseIdx_iff_getElem?.mpr ⟨u, other, at_u⟩, by simpa using mem⟩
  rw [guard] at held
  cases held

theorem good_step {q q' : LockFreeQueue τ} {e : LfqEvent τ} {o : LfqOutput τ}
    (good : ∃ h rest, Good q h rest) (guard : q.deletesHeld e = false) (h : q.next e = some (q', o)) :
    ∃ h rest, Good q' h rest := by
  obtain ⟨head, rest, good⟩ := good
  cases e with
  | push t value a =>
      simp only [next] at h
      split at h
      · split at h
        · cases h
        · next step =>
            cases h
            exact ⟨head, rest, good.allocate step⟩
      · cases h
  | pop t =>
      simp only [next] at h
      split at h
      · next found =>
          cases h
          exact ⟨head, rest, good.read found trivial (fun _ own => own) fun _ mem => by cases mem⟩
      · cases h
  | step t weak stale =>
      simp only [next] at h
      split at h
      · cases h
      · next pc found =>
          split at h
          · cases h
          · next step =>
              cases h
              refine good.step found step ?_
              rintro curHead data ticket rfl
              exact not_held guard found

end LockFreeQueue

end Rtl.Stp
