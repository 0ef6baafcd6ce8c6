import Mathlib.Data.List.Basic
import Mathlib.Tactic.NormNum

/-!
# A vector of bytes

Reads and writes at an offset, which fail outside the vector, and numbers with the least significant
byte first.

A vector is looked at as what stands before a place, what stands there, and the rest:
`loadBytes_middle` reads the middle and `storeBytes_middle` replaces it. A vector that is filled
from its start is one with zeros at its end, and `storeBytes_zeros` writes at the first of them. -/

namespace Prosperismo

/-- `count` bytes from an offset on. -/
def loadBytes (bytes : List UInt8) (offset count : ℕ) : Option (List UInt8) :=
  if offset + count ≤ bytes.length then some ((bytes.drop offset).take count) else none

/-- Bytes written from an offset on. -/
def storeBytes (bytes : List UInt8) (offset : ℕ) (data : List UInt8) : Option (List UInt8) :=
  if offset + data.length ≤ bytes.length then
    some (bytes.take offset ++ data ++ bytes.drop (offset + data.length))
  else none

/-- The last `count` bytes of a number, the least significant one first. -/
def littleEndian : ℕ → ℕ → List UInt8
  | 0, _ => []
  | count + 1, value => UInt8.ofNat value :: littleEndian count (value / 256)

/-- The number that bytes stand for. -/
def ofLittleEndian : List UInt8 → ℕ
  | [] => 0
  | byte :: bytes => byte.toNat + 256 * ofLittleEndian bytes

@[simp] theorem length_littleEndian (count value : ℕ) :
    (littleEndian count value).length = count := by
  induction count generalizing value with
  | zero => rfl
  | succ count ih => exact congrArg Nat.succ (ih _)

/-- A number comes back from as many bytes as it needs. -/
theorem ofLittleEndian_littleEndian {count value : ℕ} (h : value < 256 ^ count) :
    ofLittleEndian (littleEndian count value) = value := by
  induction count generalizing value with
  | zero =>
    rw [pow_zero] at h
    exact (Nat.lt_one_iff.1 h).symm
  | succ count ih =>
    have hrest : value / 256 < 256 ^ count := by
      rw [pow_succ] at h
      exact Nat.div_lt_of_lt_mul (by rwa [Nat.mul_comm])
    calc ofLittleEndian (littleEndian (count + 1) value)
        = (UInt8.ofNat value).toNat + 256 * ofLittleEndian (littleEndian count (value / 256)) := rfl
      _ = value % 256 + 256 * (value / 256) := by rw [ih hrest, UInt8.toNat_ofNat']
      _ = value := Nat.mod_add_div value 256

variable {before middle behind data : List UInt8} {offset : ℕ}

/-- **A read** of what stands between two parts. -/
theorem loadBytes_middle (hoffset : offset = before.length) :
    loadBytes (before ++ middle ++ behind) offset middle.length = some middle := by
  subst hoffset
  unfold loadBytes
  rw [if_pos, List.append_assoc, List.drop_left, List.take_left]
  rw [List.length_append, List.length_append]
  exact Nat.le_add_right _ _

/-- **A write** over what stands between two parts. -/
theorem storeBytes_middle (hoffset : offset = before.length)
    (hlength : middle.length = data.length) :
    storeBytes (before ++ middle ++ behind) offset data = some (before ++ data ++ behind) := by
  subst hoffset
  unfold storeBytes
  rw [if_pos]
  · rw [← hlength, ← List.length_append, List.drop_left, List.append_assoc before middle behind,
      List.take_left]
  · rw [List.length_append, List.length_append, hlength]
    exact Nat.le_add_right _ _

/-- A write at the first of the zeros that end a vector. -/
theorem storeBytes_zeros {room : ℕ} (hoffset : offset = before.length)
    (hroom : data.length ≤ room) :
    storeBytes (before ++ List.replicate room 0) offset data =
      some (before ++ data ++ List.replicate (room - data.length) 0) := by
  have hzeros : List.replicate room (0 : UInt8) =
      List.replicate data.length 0 ++ List.replicate (room - data.length) 0 := by
    rw [List.replicate_append_replicate, Nat.add_sub_cancel' hroom]
  rw [hzeros, ← List.append_assoc]
  exact storeBytes_middle hoffset List.length_replicate

end Prosperismo
