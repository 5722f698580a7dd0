import Mathlib.Algebra.Group.Nat.Defs
import Mathlib.Data.Nat.Count
import Rtl.Base.ListUpdate

/-! # Arrays with holes

A loop over the indices of an array passes some of them over. One such loop gathers the
entries it keeps, and another one spreads gathered entries over an array of the same
holes. The place of an entry among the gathered ones is the number of kept indices below
its own.
-/

namespace Rtl.Base

variable {α σ : Type*}

/-! ## Counted loops -/

/-- The iterations of a loop from zero up to a bound, with a counter of so many values. -/
def countedLoop (values bound : Nat) (body : σ → Nat → σ) (s : σ) : σ :=
  (List.range (min bound values)).foldl body s

/-- The invariant at the number of iterations made. -/
theorem countedLoop_induction {values bound : Nat} {body : σ → Nat → σ} {s : σ}
    (P : Nat → σ → Prop) (init : P 0 s)
    (step : ∀ i s, i < bound → i < values → P i s → P (i + 1) (body s i)) :
    P (min bound values) (countedLoop values bound body s) := by
  have upTo : ∀ k ≤ min bound values, P k ((List.range k).foldl body s) := by
    intro k
    induction k with
    | zero => exact fun _ => init
    | succ k ih =>
        intro inside
        rw [List.range_succ, List.foldl_append]
        exact step k _ (by omega) (by omega) (ih (by omega))
  exact upTo _ (Nat.le_refl _)

/-! ## Gathering -/

section

variable (keep : Nat → Prop) [DecidablePred keep]

/-- The entries that are kept of the first `n`, one after the other. -/
structure Gathered (source : List α) (n : Nat) (out : List α) : Prop where
  length : out.length = Nat.count keep n
  entry : ∀ i < n, keep i → out[Nat.count keep i]? = source[i]?

/-- The first `n` entries, those that are kept replaced by what is read for them. -/
structure Spread (read : Nat → α) (before : List α) (n : Nat) (now : List α) : Prop where
  length : now.length = before.length
  done : ∀ i < n, keep i → i < before.length → now[i]? = some (read (Nat.count keep i))
  left : ∀ i, (keep i → n ≤ i) → now[i]? = before[i]?

/-- The second list with the entries that are kept taken from the first. -/
def overlay (i : Nat) : List α → List α → List α
  | x :: source, y :: target => (if keep i then x else y) :: overlay (i + 1) source target
  | _, _ => []

end

variable {keep : Nat → Prop} [DecidablePred keep] {source before now out : List α} {read : Nat → α}
  {n : Nat}

theorem gathered_nil : Gathered keep source 0 [] := ⟨by simp, fun _ lt => absurd lt (by omega)⟩

theorem Gathered.push {x : α} (h : Gathered keep source n out) (kept : keep n)
    (here : source[n]? = some x) : Gathered keep source (n + 1) (out ++ [x]) := by
  constructor
  · rw [List.length_append, List.length_singleton, h.length, Nat.count_succ, if_pos kept]
  · intro i lt keeps
    by_cases last : i = n
    · subst last
      rw [here, concat_at]
      exact .inr ⟨h.length.symm, rfl⟩
    · have below : i < n := by omega
      have shorter : Nat.count keep i < out.length := by
        rw [h.length]
        exact Nat.count_strict_mono keeps below
      rw [List.getElem?_append_left shorter]
      exact h.entry i below keeps

theorem Gathered.skip (h : Gathered keep source n out) (hole : ¬ keep n) :
    Gathered keep source (n + 1) out := by
  constructor
  · rw [h.length, Nat.count_succ, if_neg hole, Nat.add_zero]
  · intro i lt keeps
    have other : i ≠ n := by
      rintro rfl
      exact hole keeps
    exact h.entry i (by omega) keeps

/-! ## Spreading -/

theorem spread_refl : Spread keep read before 0 before :=
  ⟨rfl, fun _ lt => absurd lt (by omega), fun _ _ => rfl⟩

theorem Spread.write (h : Spread keep read before n now) (kept : keep n) (inside : n < before.length) :
    Spread keep read before (n + 1) (now.set n (read (Nat.count keep n))) := by
  constructor
  · rw [List.length_set, h.length]
  · intro i lt keeps bound
    by_cases last : i = n
    · subst last
      exact List.getElem?_set_self (by rw [h.length]; exact bound)
    · rw [List.getElem?_set_ne (Ne.symm last)]
      exact h.done i (by omega) keeps bound
  · intro i behind
    have other : n ≠ i := by
      rintro rfl
      have := behind kept
      omega
    rw [List.getElem?_set_ne other]
    refine h.left i ?_
    intro keeps
    have := behind keeps
    omega

theorem Spread.skip (h : Spread keep read before n now) (hole : ¬ keep n) :
    Spread keep read before (n + 1) now := by
  refine ⟨h.length, ?_, ?_⟩
  · intro i lt keeps bound
    have other : i ≠ n := by
      rintro rfl
      exact hole keeps
    exact h.done i (by omega) keeps bound
  · intro i behind
    refine h.left i ?_
    intro keeps
    have := behind keeps
    omega

/-! ## One after the other -/

theorem getElem?_overlay (start i : Nat) (same : source.length = before.length) :
    (overlay keep start source before)[i]? = if keep (start + i) then source[i]? else before[i]? := by
  induction source generalizing before start i with
  | nil =>
      cases before with
      | nil => simp [overlay]
      | cons y before => cases same
  | cons x source ih =>
      cases before with
      | nil => cases same
      | cons y before =>
          cases i with
          | zero =>
              simp only [overlay, List.getElem?_cons_zero, Nat.add_zero]
              split <;> rfl
          | succ i =>
              have tail := ih (start + 1) i (Nat.succ.inj same)
              simp only [overlay, List.getElem?_cons_succ, tail]
              rw [Nat.add_right_comm, Nat.add_assoc]

/-- With one hole, a single entry stays what it was. -/
theorem overlay_hole {k : Nat} {y : α} (hole : ∀ i, keep i ↔ i ≠ k)
    (same : source.length = before.length) (at_k : before[k]? = some y) :
    overlay keep 0 source before = source.set k y := by
  apply List.ext_getElem?
  intro i
  rw [getElem?_overlay 0 i same, Nat.zero_add]
  by_cases here : i = k
  · subst here
    have inside := (List.getElem?_eq_some_iff.mp at_k).1
    rw [if_neg fun kept => (hole i).mp kept rfl, at_k, List.getElem?_set_self (by omega)]
  · rw [if_pos ((hole i).mpr here), List.getElem?_set_ne (Ne.symm here)]

/-- What was gathered from one array is spread over another one of its size. -/
theorem Spread.of_gathered (spread : Spread keep read before source.length now)
    (gathered : Gathered keep source source.length out) (same : source.length = before.length)
    (reads : ∀ i, i < out.length → some (read i) = out[i]?) : now = overlay keep 0 source before := by
  apply List.ext_getElem?
  intro i
  rw [getElem?_overlay 0 i same, Nat.zero_add]
  by_cases kept : keep i
  · rw [if_pos kept]
    by_cases inside : i < source.length
    · have shorter : Nat.count keep i < out.length := by
        rw [gathered.length]
        exact Nat.count_strict_mono kept inside
      rw [spread.done i inside kept (same ▸ inside), reads _ shorter]
      exact gathered.entry i inside kept
    · have length := spread.length
      rw [List.getElem?_eq_none (by omega), List.getElem?_eq_none (by omega)]
  · rw [if_neg kept]
    exact spread.left i fun keeps => absurd keeps kept

end Rtl.Base
