import Mathlib.Data.List.Basic
import Mathlib.Tactic.NormNum

/-! A file of frames. -/

namespace Collections

def toLeBytes : (width : Nat) → Nat → List UInt8
  | 0, _ => []
  | width + 1, value => UInt8.ofNat value :: toLeBytes width (value / 256)

def fromLeBytes : List UInt8 → Nat
  | [] => 0
  | byte :: rest => byte.toNat + 256 * fromLeBytes rest

@[simp] theorem length_toLeBytes (width value : Nat) : (toLeBytes width value).length = width := by
  induction width generalizing value with
  | zero => rfl
  | succ width ih => rw [toLeBytes, List.length_cons, ih]

theorem fromLeBytes_toLeBytes {width value : Nat} (small : value < 256 ^ width) :
    fromLeBytes (toLeBytes width value) = value := by
  induction width generalizing value with
  | zero =>
    rw [Nat.pow_zero, Nat.lt_one_iff] at small
    rw [small]
    rfl
  | succ width ih =>
    have rest : value / 256 < 256 ^ width := by
      rw [Nat.div_lt_iff_lt_mul (by norm_num), ← Nat.pow_succ]
      exact small
    rw [toLeBytes, fromLeBytes, ih rest, UInt8.toNat_ofNat']
    exact Nat.mod_add_div value 256

theorem fromLeBytes_lt (bytes : List UInt8) : fromLeBytes bytes < 256 ^ bytes.length := by
  induction bytes with
  | nil => exact Nat.one_pos
  | cons byte rest ih =>
    have small := byte.toNat_lt
    rw [fromLeBytes, List.length_cons, Nat.pow_succ]
    omega

theorem toLeBytes_fromLeBytes (bytes : List UInt8) : toLeBytes bytes.length (fromLeBytes bytes) = bytes := by
  induction bytes with
  | nil => rfl
  | cons byte rest ih =>
    have small := byte.toNat_lt
    have head : UInt8.ofNat (byte.toNat + 256 * fromLeBytes rest) = byte := by
      rw [← UInt8.toNat_inj, UInt8.toNat_ofNat']
      omega
    have tail : (byte.toNat + 256 * fromLeBytes rest) / 256 = fromLeBytes rest := by omega
    rw [List.length_cons, fromLeBytes, toLeBytes, head, tail, ih]

def toBeBytes (width value : Nat) : List UInt8 := (toLeBytes width value).reverse

def fromBeBytes (bytes : List UInt8) : Nat := fromLeBytes bytes.reverse

@[simp] theorem length_toBeBytes (width value : Nat) : (toBeBytes width value).length = width := by
  rw [toBeBytes, List.length_reverse, length_toLeBytes]

theorem fromBeBytes_toBeBytes {width value : Nat} (small : value < 256 ^ width) :
    fromBeBytes (toBeBytes width value) = value := by
  rw [fromBeBytes, toBeBytes, List.reverse_reverse, fromLeBytes_toLeBytes small]

theorem toBeBytes_fromBeBytes (bytes : List UInt8) : toBeBytes bytes.length (fromBeBytes bytes) = bytes := by
  rw [toBeBytes, fromBeBytes, ← List.length_reverse, toLeBytes_fromLeBytes, List.reverse_reverse]

theorem fromBeBytes_lt (bytes : List UInt8) : fromBeBytes bytes < 256 ^ bytes.length := by
  have bound := fromLeBytes_lt bytes.reverse
  rwa [List.length_reverse] at bound

def frame (payload : List UInt8) : List UInt8 := toLeBytes 8 payload.length ++ payload

@[simp] theorem length_frame (payload : List UInt8) : (frame payload).length = 8 + payload.length := by
  rw [frame, List.length_append, length_toLeBytes]

def readFrames (limit : Nat) : (fuel : Nat) → List UInt8 → List (List UInt8)
  | 0, _ => []
  | fuel + 1, bytes =>
    if bytes.length < 8 then []
    else
      let size := fromLeBytes (bytes.take 8)
      let rest := bytes.drop 8
      if limit < size ∨ rest.length < size then []
      else rest.take size :: readFrames limit fuel (rest.drop size)

/-- The frames of a file; each takes at least eight bytes. -/
def frames (limit : Nat) (bytes : List UInt8) : List (List UInt8) := readFrames limit (bytes.length + 1) bytes

theorem readFrames_fuel (limit : Nat) : ∀ (fuel fuel' : Nat) (bytes : List UInt8), bytes.length < fuel →
    bytes.length < fuel' → readFrames limit fuel bytes = readFrames limit fuel' bytes := by
  intro fuel
  induction fuel with
  | zero => intro fuel' bytes enough; exact absurd enough (Nat.not_lt_zero _)
  | succ fuel ih =>
    intro fuel' bytes enough enough'
    cases fuel' with
    | zero => exact absurd enough' (Nat.not_lt_zero _)
    | succ fuel' =>
      simp only [readFrames]
      split
      · rfl
      · split
        · rfl
        · rename_i long _
          have shorter : ((bytes.drop 8).drop (fromLeBytes (bytes.take 8))).length < bytes.length := by
            rw [List.length_drop, List.length_drop]
            omega
          rw [ih fuel' _ (by omega) (by omega)]

variable {limit : Nat} {payload rest : List UInt8}

theorem frame_head (sized : payload.length < 256 ^ 8) :
    fromLeBytes ((frame payload ++ rest).take 8) = payload.length ∧ (frame payload ++ rest).drop 8 = payload ++ rest := by
  have width : (toLeBytes 8 payload.length).length = 8 := length_toLeBytes _ _
  have split : frame payload ++ rest = toLeBytes 8 payload.length ++ (payload ++ rest) := by
    rw [frame, List.append_assoc]
  rw [split, List.take_left' width, List.drop_left' width]
  exact ⟨fromLeBytes_toLeBytes sized, rfl⟩

theorem frames_append (sized : payload.length < 256 ^ 8) (fits : payload.length ≤ limit) :
    frames limit (frame payload ++ rest) = payload :: frames limit rest := by
  obtain ⟨size, body⟩ := @frame_head payload rest sized
  have whole : ¬ (frame payload ++ rest).length < 8 := by
    rw [List.length_append, length_frame]
    omega
  have inside : ¬ (limit < payload.length ∨ (payload ++ rest).length < payload.length) := by
    rw [List.length_append]
    omega
  rw [frames, readFrames, if_neg whole]
  simp only [size, body, inside, if_false, List.take_left, List.drop_left]
  rw [frames, readFrames_fuel limit _ (rest.length + 1)]
  · rw [List.length_append, length_frame]
    omega
  · omega

theorem frames_flatMap {payloads : List (List UInt8)}
    (fit : ∀ payload ∈ payloads, payload.length < 256 ^ 8 ∧ payload.length ≤ limit) :
    frames limit (payloads.flatMap frame ++ rest) = payloads ++ frames limit rest := by
  induction payloads with
  | nil => rfl
  | cons payload others ih =>
    obtain ⟨sized, fits⟩ := fit payload List.mem_cons_self
    rw [List.flatMap_cons, List.append_assoc, frames_append sized fits,
      ih fun other member => fit other (List.mem_cons_of_mem _ member)]
    rfl

end Collections
