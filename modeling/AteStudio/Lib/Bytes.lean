import Mathlib

/-! # Integers as bytes (`int.to_bytes`, `int.from_bytes`) -/

namespace AteStudio.Bytes

inductive Endian where
  | big
  | little

def littleBytes : Nat → Nat → List UInt8
  | 0, _ => []
  | size + 1, v => UInt8.ofNat v :: littleBytes size (v / 256)

def fromLittle : List UInt8 → Nat
  | [] => 0
  | b :: bs => b.toNat + 256 * fromLittle bs

/-- Nothing when it raises `OverflowError`. -/
def toBytes (size : Nat) (endian : Endian) (v : Nat) : Option (List UInt8) :=
  if v < 256 ^ size then
    some (match endian with
      | .big => (littleBytes size v).reverse
      | .little => littleBytes size v)
  else none

def fromBytes (bs : List UInt8) : Endian → Nat
  | .big => fromLittle bs.reverse
  | .little => fromLittle bs

variable {size v : Nat} {endian : Endian} {bs : List UInt8}

theorem length_littleBytes (size v : Nat) : (littleBytes size v).length = size := by
  induction size generalizing v with
  | zero => rfl
  | succ size ih => rw [littleBytes, List.length_cons, ih]

theorem fromLittle_littleBytes (size v : Nat) : fromLittle (littleBytes size v) = v % 256 ^ size := by
  induction size generalizing v with
  | zero => rw [Nat.pow_zero, Nat.mod_one]; rfl
  | succ size ih =>
    have hbyte : (UInt8.ofNat v).toNat = v % 256 := UInt8.toNat_ofNat'
    rw [littleBytes, fromLittle, ih, hbyte, Nat.pow_succ', Nat.mod_mul]

theorem toBytes_isSome_iff : (toBytes size endian v).isSome ↔ v < 256 ^ size := by
  unfold toBytes
  split <;> simp [*]

theorem toBytes_spec (h : toBytes size endian v = some bs) : bs.length = size ∧ fromBytes bs endian = v := by
  unfold toBytes at h
  split at h
  · rename_i hv
    cases endian <;> cases h <;>
      simp [fromBytes, length_littleBytes, fromLittle_littleBytes, Nat.mod_eq_of_lt hv]
  · cases h

end AteStudio.Bytes
