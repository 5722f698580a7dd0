import Mathlib.Algebra.Group.Nat.Defs
import Mathlib.Data.List.Basic

/-! # Structures in memory

A structure is laid out member by member. Each member starts at the next multiple of its
alignment, and the bytes in between are padding, of which nothing is known. The memory
determines the members.
-/

namespace Rtl.Base

inductive ByteOrder where
  | little
  | big
  deriving Repr, DecidableEq

/-- The byte of a word at an address relative to that of the word. -/
def ByteOrder.byte (order : ByteOrder) (word : UInt32) (i : Nat) : UInt8 :=
  match order with
  | .little => .ofNat (word.toNat / 2 ^ (8 * i))
  | .big => .ofNat (word.toNat / 2 ^ (8 * (3 - i)))

structure Member where
  align : Nat
  bytes : List UInt8
  deriving Repr, DecidableEq

namespace Member

def bool (value : Bool) : Member := ⟨1, [value.toUInt8]⟩

def word (order : ByteOrder) (value : UInt32) : Member :=
  ⟨4, [order.byte value 0, order.byte value 1, order.byte value 2, order.byte value 3]⟩

/-- What the place of a member depends on. -/
def shape (m : Member) : Nat × Nat := (m.align, m.bytes.length)

end Member

/-- The bytes up to the next multiple of the alignment. -/
def gap (offset align : Nat) : Nat := (align - offset % align) % align

def padding (pad : Nat → UInt8) (offset count : Nat) : List UInt8 :=
  (List.range' offset count).map pad

def layout (pad : Nat → UInt8) : Nat → List Member → List UInt8
  | _, [] => []
  | offset, m :: rest =>
      padding pad offset (gap offset m.align) ++
        (m.bytes ++ layout pad (offset + gap offset m.align + m.bytes.length) rest)

def represent (pad : Nat → UInt8) (members : List Member) : List UInt8 :=
  let body := layout pad 0 members
  body ++ padding pad body.length (gap body.length ((members.map (·.align)).foldl max 1))

theorem ByteOrder.byte_zero (order : ByteOrder) (i : Nat) : order.byte 0 i = 0 := by
  cases order <;> simp [byte]

/-! ## Members are determined by the memory -/

theorem byte_eq_iff {a b : Nat} : UInt8.ofNat a = UInt8.ofNat b ↔ a % 2 ^ 8 = b % 2 ^ 8 := by
  rw [← UInt8.toNat_inj, UInt8.toNat_ofNat', UInt8.toNat_ofNat']

/-- The four bytes of a word, in either order. -/
theorem ByteOrder.byte_inj (order : ByteOrder) {v w : UInt32}
    (same : ∀ i < 4, order.byte v i = order.byte w i) : v = w := by
  have first := same 0 (by decide)
  have second := same 1 (by decide)
  have third := same 2 (by decide)
  have fourth := same 3 (by decide)
  have bound := v.toNat_lt
  have bound' := w.toNat_lt
  apply UInt32.toNat_inj.mp
  cases order with
  | little =>
      simp only [byte, byte_eq_iff] at first second third fourth
      omega
  | big =>
      simp only [byte, byte_eq_iff] at first second third fourth
      omega

namespace Member

theorem bool_inj {a b : Bool} : bool a = bool b ↔ a = b := by
  cases a <;> cases b <;> decide

theorem word_inj {order : ByteOrder} {v w : UInt32} : word order v = word order w ↔ v = w := by
  constructor
  · intro same
    simp only [word, mk.injEq, List.cons.injEq, true_and, and_true] at same
    obtain ⟨first, second, third, fourth⟩ := same
    refine order.byte_inj ?_
    intro i inside
    match i, inside with
    | 0, _ => exact first
    | 1, _ => exact second
    | 2, _ => exact third
    | 3, _ => exact fourth
  · intro same
    rw [same]

end Member

theorem length_padding (pad : Nat → UInt8) (offset count : Nat) :
    (padding pad offset count).length = count := by
  simp [padding]

/-- Members of the same shapes that lie in the same memory are the same. -/
theorem layout_inj {pad pad' : Nat → UInt8} {offset : Nat} {ms ns : List Member}
    {tail tail' : List UInt8} (shapes : ms.map Member.shape = ns.map Member.shape)
    (same : layout pad offset ms ++ tail = layout pad' offset ns ++ tail') : ms = ns := by
  induction ms generalizing ns offset with
  | nil =>
      cases ns with
      | nil => rfl
      | cons n rest => cases shapes
  | cons m rest ih =>
      cases ns with
      | nil => cases shapes
      | cons n rest' =>
          simp only [List.map_cons, List.cons.injEq, Member.shape, Prod.mk.injEq] at shapes
          obtain ⟨⟨align, length⟩, shapes⟩ := shapes
          simp only [layout, List.append_assoc, align] at same
          obtain ⟨_, same⟩ := List.append_inj same (by rw [length_padding, length_padding])
          obtain ⟨bytes, same⟩ := List.append_inj same length
          rw [length] at same
          have member : m = n := by
            cases m
            cases n
            cases align
            cases bytes
            rfl
          rw [member, ih shapes same]

theorem represent_inj {pad pad' : Nat → UInt8} {ms ns : List Member}
    (shapes : ms.map Member.shape = ns.map Member.shape)
    (same : represent pad ms = represent pad' ns) : ms = ns :=
  layout_inj shapes same

end Rtl.Base
