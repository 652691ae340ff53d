import Lizlib.Data.Block

/-!
# Structures laid out in memory

A `Member` is a range of the bytes of a block.  What is put into one is what is read from it
(`Member.get_put`), and members that do not overlap are independent (`Member.get_put_of_disjoint`).

`Endian` is the byte order of a machine; the network's is `Endian.big`, and `htons` converts between
them.
-/

/-- A member of a structure. -/
structure Member where
  offset : Nat
  length : Nat

namespace Member

variable {α : Type*} (f g : Member) (b : Block α) (v : List α)

/-- The bytes of the member. -/
def get : List α := b.slice f.offset f.length

/-- The block with the bytes of the member replaced. -/
def put : Block α := b.write f.offset v

/-- The members do not overlap. -/
def Disjoint : Prop := f.offset + f.length ≤ g.offset ∨ g.offset + g.length ≤ f.offset

instance : Decidable (Disjoint f g) := inferInstanceAs (Decidable (_ ∨ _))

variable {f g b v}

theorem get_put (hv : v.length = f.length) : f.get (f.put b v) = v := by
  rw [get, put, ← hv]
  exact b.slice_write_self f.offset v

theorem get_put_of_disjoint (hv : v.length = f.length) (h : Disjoint f g) :
    g.get (f.put b v) = g.get b := by
  obtain h | h := h
  · exact b.slice_write_after (by omega)
  · exact b.slice_write_before h

end Member

namespace Block

variable {α : Type*}

/-- A block of equal bytes. -/
def fill (size : Nat) (a : α) : Block α := ⟨0, size, fun _ => a⟩

@[simp] theorem slice_fill (size : Nat) (a : α) (off n : Nat) :
    (fill size a).slice off n = List.replicate n a := by
  simp [slice, fill]

end Block

/-- The order of the bytes of a number in memory. -/
inductive Endian where
  | little
  | big
  deriving DecidableEq

namespace Endian

/-- The bytes of a number, by address. -/
def bytes (e : Endian) (v : UInt16) : List UInt8 :=
  let low := UInt8.ofNat v.toNat
  let high := UInt8.ofNat (v.toNat / 256)
  match e with
  | .little => [low, high]
  | .big => [high, low]

/-- The number that two bytes stand for. -/
def value (e : Endian) (l : List UInt8) : UInt16 :=
  match e, l with
  | .little, [a, b] => UInt16.ofNat (a.toNat + 256 * b.toNat)
  | .big, [a, b] => UInt16.ofNat (256 * a.toNat + b.toNat)
  | _, _ => 0

/-- `htons`, which is `ntohs` as well. -/
def htons (e : Endian) (v : UInt16) : UInt16 :=
  match e with
  | .little => UInt16.ofNat (v.toNat % 256 * 256 + v.toNat / 256)
  | .big => v

variable (e : Endian) (v : UInt16)

@[simp] theorem length_bytes : (e.bytes v).length = 2 := by cases e <;> rfl

@[simp] theorem value_bytes : e.value (e.bytes v) = v := by
  have hlt := v.toNat_lt
  apply UInt16.toNat_inj.mp
  cases e <;> simp [bytes, value] <;> omega

theorem toNat_htons_little : (htons .little v).toNat = v.toNat % 256 * 256 + v.toNat / 256 := by
  have hlt := v.toNat_lt
  rw [htons, UInt16.toNat_ofNat']
  exact Nat.mod_eq_of_lt (by omega)

/-- What `htons` returns is the number in network order. -/
@[simp] theorem bytes_htons : e.bytes (e.htons v) = big.bytes v := by
  cases e with
  | little =>
    have hlt := v.toNat_lt
    have hlow : UInt8.ofNat (v.toNat % 256 * 256 + v.toNat / 256) = UInt8.ofNat (v.toNat / 256) := by
      apply UInt8.toNat_inj.mp
      simp only [UInt8.toNat_ofNat']
      omega
    have hhigh : UInt8.ofNat ((v.toNat % 256 * 256 + v.toNat / 256) / 256) = UInt8.ofNat v.toNat := by
      rw [Nat.mul_comm, Nat.mul_add_div (by decide), Nat.div_eq_of_lt (by omega), Nat.add_zero]
      apply UInt8.toNat_inj.mp
      simp [UInt8.toNat_ofNat']
    simp only [bytes, toNat_htons_little, hlow, hhigh]
  | big => rfl

@[simp] theorem htons_htons : e.htons (e.htons v) = v := by
  cases e with
  | little =>
    have hlt := v.toNat_lt
    apply UInt16.toNat_inj.mp
    rw [toNat_htons_little, toNat_htons_little]
    generalize v.toNat = n at hlt
    rw [show (n % 256 * 256 + n / 256) / 256 = n % 256 by omega]
    omega
  | big => rfl

end Endian
