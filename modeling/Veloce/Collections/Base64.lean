import Mathlib.Data.List.Basic

/-! Base64 in its standard alphabet, with padding. -/

namespace Collections.Base64

def alphabet : List Char := "ABCDEFGHIJKLMNOPQRSTUVWXYZabcdefghijklmnopqrstuvwxyz0123456789+/".toList

def digit (value : Nat) : Char := alphabet.getD value 'A'

def value (char : Char) : Option Nat := alphabet.idxOf? char

def encode : List UInt8 → List Char
  | [] => []
  | [a] => [digit (a.toNat / 4), digit (a.toNat % 4 * 16), '=', '=']
  | [a, b] => [digit (a.toNat / 4), digit (a.toNat % 4 * 16 + b.toNat / 16), digit (b.toNat % 16 * 4), '=']
  | a :: b :: c :: rest =>
    digit (a.toNat / 4) :: digit (a.toNat % 4 * 16 + b.toNat / 16) :: digit (b.toNat % 16 * 4 + c.toNat / 64) ::
      digit (c.toNat % 64) :: encode rest

/-- The bits behind the last byte have to be zero. -/
def decodePadded (w x : Nat) (y : Char) : Option (List UInt8) :=
  if y = '=' then if x % 16 = 0 then some [.ofNat (w * 4 + x / 16)] else none
  else (value y).bind fun y =>
    if y % 4 = 0 then some [.ofNat (w * 4 + x / 16), .ofNat (x % 16 * 16 + y / 4)] else none

def decode : List Char → Option (List UInt8)
  | [] => some []
  | w :: x :: y :: z :: rest => do
    let w ← value w
    let x ← value x
    if rest = [] ∧ z = '=' then decodePadded w x y
    else
      let y ← value y
      let z ← value z
      let bytes ← decode rest
      some (.ofNat (w * 4 + x / 16) :: .ofNat (x % 16 * 16 + y / 4) :: .ofNat (y % 4 * 64 + z) :: bytes)
  | _ => none

private theorem value_digit {number : Nat} (small : number < 64) : value (digit number) = some number := by
  revert number
  decide +kernel

private theorem digit_ne {number : Nat} (small : number < 64) : digit number ≠ '=' ∧ digit number ≠ ':' := by
  revert number
  decide +kernel

private theorem ofNat_joined {byte : UInt8} {number : Nat} (same : number = byte.toNat) : UInt8.ofNat number = byte := by
  rw [same, UInt8.ofNat_toNat]

theorem decode_encode (bytes : List UInt8) : decode (encode bytes) = some bytes := by
  induction bytes using encode.induct with
  | case1 => rfl
  | case2 a =>
    have boundA := a.toNat_lt
    simp (disch := omega) only [encode, decode, value_digit, Option.bind_eq_bind, Option.bind_some, and_self, if_true,
      decodePadded]
    rw [if_pos (by omega), @ofNat_joined a _ (by omega)]
  | case3 a b =>
    have boundA := a.toNat_lt
    have boundB := b.toNat_lt
    have third : digit (b.toNat % 16 * 4) ≠ '=' := (digit_ne (by omega)).1
    simp (disch := omega) only [encode, decode, value_digit, Option.bind_eq_bind, Option.bind_some, and_self, if_true,
      decodePadded, if_neg third]
    rw [if_pos (by omega), @ofNat_joined a _ (by omega), @ofNat_joined b _ (by omega)]
  | case4 a b c rest ih =>
    have boundA := a.toNat_lt
    have boundB := b.toNat_lt
    have boundC := c.toNat_lt
    have last : digit (c.toNat % 64) ≠ '=' := (digit_ne (by omega)).1
    simp (disch := omega) only [encode, decode, value_digit, Option.bind_eq_bind, Option.bind_some, last, and_false,
      if_false, ih]
    rw [@ofNat_joined a _ (by omega), @ofNat_joined b _ (by omega), @ofNat_joined c _ (by omega)]

/-- A text in base64 has no colon. -/
theorem colon_notMem_encode (bytes : List UInt8) : ':' ∉ encode bytes := by
  have away {number : Nat} (small : number < 64) : ':' ≠ digit number := (digit_ne small).2.symm
  induction bytes using encode.induct with
  | case1 => exact List.not_mem_nil
  | case2 a =>
    have boundA := a.toNat_lt
    simp (disch := omega) [encode, away]
  | case3 a b =>
    have boundA := a.toNat_lt
    have boundB := b.toNat_lt
    simp (disch := omega) [encode, away]
  | case4 a b c rest ih =>
    have boundA := a.toNat_lt
    have boundB := b.toNat_lt
    have boundC := c.toNat_lt
    simp (disch := omega) [encode, away, ih]

end Collections.Base64
