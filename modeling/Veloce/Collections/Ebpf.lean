import Mathlib.Algebra.Order.Ring.Nat
import Mathlib.Data.List.Basic
import Mathlib.Logic.Relation

/-! A part of eBPF: loads of words, jumps on a comparison with a constant, moves of constants, and
the exit. -/

namespace Collections

namespace Ebpf

/-- An instruction as the kernel reads it: the upper half of `dstReg` is the source register. -/
structure Insn where
  code : BitVec 8
  dstReg : BitVec 8
  off : BitVec 16
  imm : BitVec 32
deriving DecidableEq

namespace Insn

def dst (insn : Insn) : BitVec 4 := insn.dstReg.setWidth 4

def src (insn : Insn) : BitVec 4 := (insn.dstReg >>> 4).setWidth 4

/-- Constants are sign-extended. -/
def const (insn : Insn) : BitVec 64 := insn.imm.signExtend 64

end Insn

structure Machine where
  pc : Int
  regs : BitVec 4 → BitVec 64

namespace Machine

def next (machine : Machine) : Machine := { machine with pc := machine.pc + 1 }

def set (machine : Machine) (reg : BitVec 4) (value : BitVec 64) : Machine :=
  { machine with regs := Function.update machine.regs reg value }

/-- Offsets count from the next instruction. -/
def jumpIf (machine : Machine) (taken : Bool) (off : BitVec 16) : Machine :=
  { machine with pc := machine.pc + 1 + if taken then off.toInt else 0 }

end Machine

/-- A step leads on, ends the program with a value, or is none that a program may take. -/
inductive Outcome where
  | next (machine : Machine)
  | exit (value : BitVec 64)
  | fault

def fetch (program : List Insn) (pc : Int) : Option Insn := if 0 ≤ pc then program[pc.toNat]? else none

variable (load : BitVec 64 → Option (BitVec 32)) (program : List Insn)

def step (machine : Machine) : Outcome :=
  match fetch program machine.pc with
  | none => .fault
  | some insn =>
    if insn.code = 0x61 then
      match load (machine.regs insn.src + insn.off.signExtend 64) with
      | some word => .next (machine.set insn.dst (word.setWidth 64)).next
      | none => .fault
    else if insn.code = 0x15 then .next (machine.jumpIf (machine.regs insn.dst = insn.const) insn.off)
    else if insn.code = 0x55 then .next (machine.jumpIf (machine.regs insn.dst ≠ insn.const) insn.off)
    else if insn.code = 0xb7 then .next (machine.set insn.dst insn.const).next
    else if insn.code = 0x95 then .exit (machine.regs 0)
    else .fault

def run : (fuel : Nat) → Machine → Option (BitVec 64)
  | 0, _ => none
  | fuel + 1, machine =>
    match step load program machine with
    | .next machine' => run fuel machine'
    | .exit value => some value
    | .fault => none

abbrev Passes : Machine → Machine → Prop := Relation.ReflTransGen fun before after => step load program before = .next after

/-- A jump on the comparison of a register with a constant. -/
structure Test where
  equal : Bool
  reg : BitVec 4
  imm : BitVec 32

namespace Test

def insn (test : Test) (off : BitVec 16) : Insn :=
  { code := if test.equal then 0x15 else 0x55, dstReg := test.reg.setWidth 8, off, imm := test.imm }

def holds (test : Test) (regs : BitVec 4 → BitVec 64) : Bool :=
  decide (regs test.reg = test.imm.signExtend 64) == test.equal

@[simp] theorem dst_insn (test : Test) (off : BitVec 16) : (test.insn off).dst = test.reg := by
  simp [Test.insn, Insn.dst]

end Test

/-- Tests in a row from `base` on, all with the same target. -/
def Row (program : List Insn) (base target : Nat) (tests : List Test) : Prop :=
  ∀ index, ∀ test ∈ tests[index]?,
    program[base + index]? = some (test.insn (BitVec.ofNat 16 target - BitVec.ofNat 16 (base + index) - 1))

section Lemmas

variable {load program} {machine machine' : Machine} {insn : Insn} {value : BitVec 64} {fuel : Nat}

theorem run_next (taken : step load program machine = .next machine') :
    run load program (fuel + 1) machine = run load program fuel machine' := by
  rw [run, taken]

theorem run_exit (taken : step load program machine = .exit value) :
    run load program (fuel + 1) machine = some value := by
  rw [run, taken]

theorem fetch_natCast (program : List Insn) (index : Nat) : fetch program index = program[index]? := by
  rw [fetch, if_pos (Int.natCast_nonneg index), Int.toNat_natCast]

theorem inside_of_fetch {pc : Int} (found : fetch program pc = some insn) : 0 ≤ pc ∧ pc < program.length := by
  unfold fetch at found
  split at found
  · rename_i positive
    obtain ⟨bound, _⟩ := List.getElem?_eq_some_iff.mp found
    omega
  · cases found

theorem fetch_of_run (exits : run load program fuel machine = some value) (passed : Passes load program machine machine') :
    ∃ insn, fetch program machine'.pc = some insn := by
  induction passed using Relation.ReflTransGen.head_induction_on generalizing fuel with
  | refl =>
    cases fuel with
    | zero => cases exits
    | succ fuel =>
      cases found : fetch program machine'.pc with
      | some insn => exact ⟨insn, rfl⟩
      | none => simp [run, step, found] at exits
  | head taken _ ih =>
    cases fuel with
    | zero => cases exits
    | succ fuel => exact ih ((run_next taken).symm.trans exits)

theorem step_load (insn : Insn) (word : BitVec 32) (found : fetch program machine.pc = some insn) (code : insn.code = 0x61)
    (read : load (machine.regs insn.src + insn.off.signExtend 64) = some word) :
    step load program machine = .next (machine.set insn.dst (word.setWidth 64)).next := by
  simp [step, found, code, read]

theorem step_jeq (found : fetch program machine.pc = some insn) (code : insn.code = 0x15) :
    step load program machine = .next (machine.jumpIf (machine.regs insn.dst = insn.const) insn.off) := by
  simp [step, found, code]

theorem step_jne (found : fetch program machine.pc = some insn) (code : insn.code = 0x55) :
    step load program machine = .next (machine.jumpIf (machine.regs insn.dst ≠ insn.const) insn.off) := by
  simp [step, found, code]

theorem run_return (off : BitVec 16) (imm : BitVec 32) (moves : fetch program machine.pc = some ⟨0xb7, 0, off, imm⟩)
    (exits : ∃ insn, fetch program (machine.pc + 1) = some insn ∧ insn.code = 0x95) :
    run load program (fuel + 2) machine = some (imm.signExtend 64) := by
  obtain ⟨last, found, code⟩ := exits
  have first : step load program machine = .next (machine.set 0 (imm.signExtend 64)).next := by
    simp [step, moves, Insn.dst, Insn.const]
  rw [run_next first]
  refine run_exit ?_
  simp [step, Machine.next, Machine.set, found, code]

theorem Test.step_insn {test : Test} {off : BitVec 16} (found : fetch program machine.pc = some (test.insn off)) :
    step load program machine = .next (machine.jumpIf (test.holds machine.regs) off) := by
  cases equal : test.equal with
  | true =>
    rw [step_jeq found (by simp [insn, equal]), dst_insn]
    simp [holds, equal, insn, Insn.const]
  | false =>
    rw [step_jne found (by simp [insn, equal]), dst_insn]
    simp [holds, equal, insn, Insn.const]

theorem toInt_offset {index target : Nat} (forward : index < target) (near : target < 2 ^ 15) :
    (BitVec.ofNat 16 target - BitVec.ofNat 16 index - 1).toInt = target - index - 1 := by
  have small : (BitVec.ofNat 16 target - BitVec.ofNat 16 index - 1) = BitVec.ofNat 16 (target - index - 1) := by
    apply BitVec.eq_of_toNat_eq
    simp only [BitVec.toNat_sub, BitVec.toNat_ofNat, BitVec.ofNat_eq_ofNat]
    omega
  rw [small, BitVec.toInt_ofNat', Int.bmod_eq_of_le (by omega) (by omega)]
  omega

/-- A row leads to its target if one of its tests holds, and behind itself otherwise. -/
theorem run_row (load : BitVec 64 → Option (BitVec 32)) (regs : BitVec 4 → BitVec 64) {target : Nat} (near : target < 2 ^ 15) : ∀ {tests : List Test} {base : Nat},
    Row program base target tests → base + tests.length ≤ target →
    ∃ steps, ∀ fuel, run load program (fuel + steps) ⟨base, regs⟩ =
      run load program fuel ⟨(if tests.any (·.holds regs) then target else base + tests.length : Nat), regs⟩ := by
  intro tests
  induction tests with
  | nil => exact fun _ _ => ⟨0, fun _ => rfl⟩
  | cons test rest ih =>
    intro base row inside
    rw [List.length_cons] at inside
    have found : fetch program (base : Int) = some (test.insn (BitVec.ofNat 16 target - BitVec.ofNat 16 base - 1)) := by
      rw [fetch_natCast]
      exact row 0 test rfl
    have taken : step load program ⟨base, regs⟩ = .next (Machine.jumpIf ⟨base, regs⟩ (test.holds regs) _) :=
      Test.step_insn found
    have offset : (BitVec.ofNat 16 target - BitVec.ofNat 16 base - 1).toInt = target - base - 1 := toInt_offset (by omega) near
    cases holds : test.holds regs with
    | true =>
      refine ⟨1, fun fuel => ?_⟩
      have lands : (⟨base, regs⟩ : Machine).jumpIf (test.holds regs) (BitVec.ofNat 16 target - BitVec.ofNat 16 base - 1) =
          ⟨target, regs⟩ := by
        rw [holds]
        have sum : (base : Int) + 1 + (BitVec.ofNat 16 target - BitVec.ofNat 16 base - 1).toInt = target := by omega
        exact congrArg (fun pc => (⟨pc, regs⟩ : Machine)) sum
      rw [run_next taken, lands]
      simp [holds]
    | false =>
      have later : Row program (base + 1) target rest := by
        intro index next member
        rw [Nat.add_right_comm, Nat.add_assoc]
        exact row (index + 1) next (by simpa using member)
      obtain ⟨steps, leads⟩ := ih later (by omega)
      refine ⟨steps + 1, fun fuel => ?_⟩
      have lands : (⟨base, regs⟩ : Machine).jumpIf (test.holds regs) (BitVec.ofNat 16 target - BitVec.ofNat 16 base - 1) =
          ⟨((base + 1 : Nat) : Int), regs⟩ := by
        simp [Machine.jumpIf, holds]
      rw [← Nat.add_assoc, run_next taken, lands, leads fuel]
      simp [holds, Nat.add_right_comm, Nat.add_assoc]

/-- If no test of a row holds, its offsets play no part. -/
theorem run_row_through (load : BitVec 64 → Option (BitVec 32)) (regs : BitVec 4 → BitVec 64) {target : Nat} (fuel : Nat) :
    ∀ {tests : List Test} {base : Nat}, Row program base target tests → tests.any (·.holds regs) = false →
      run load program (fuel + tests.length) ⟨base, regs⟩ = run load program fuel ⟨(base + tests.length : Nat), regs⟩ := by
  intro tests
  induction tests with
  | nil => exact fun _ _ => rfl
  | cons test rest ih =>
    intro base row none
    rw [List.any_cons, Bool.or_eq_false_iff] at none
    have found : fetch program (base : Int) = some (test.insn (BitVec.ofNat 16 target - BitVec.ofNat 16 base - 1)) := by
      rw [fetch_natCast]
      exact row 0 test rfl
    have taken : step load program ⟨base, regs⟩ = .next ⟨(base + 1 : Nat), regs⟩ := by
      rw [Test.step_insn found, none.1]
      simp [Machine.jumpIf]
    have later : Row program (base + 1) target rest := by
      intro index next member
      rw [Nat.add_right_comm, Nat.add_assoc]
      exact row (index + 1) next (by simpa using member)
    rw [List.length_cons, ← Nat.add_assoc, run_next taken, ih later none.2, Nat.add_right_comm, Nat.add_assoc]

theorem run_add (more : Nat) (exits : run load program fuel machine = some value) :
    run load program (fuel + more) machine = some value := by
  induction fuel generalizing machine with
  | zero => cases exits
  | succ fuel ih =>
    rw [Nat.add_right_comm]
    unfold run at exits ⊢
    cases taken : step load program machine with
    | next machine' =>
      rw [taken] at exits
      exact ih exits
    | exit value' =>
      rw [taken] at exits
      exact exits
    | fault =>
      rw [taken] at exits
      cases exits

theorem run_unique {fuel' : Nat} {value' : BitVec 64} (exits : run load program fuel machine = some value)
    (exits' : run load program fuel' machine = some value') : value = value' := by
  have first := run_add fuel' exits
  rw [Nat.add_comm, run_add fuel exits'] at first
  exact (Option.some.inj first).symm

end Lemmas

end Ebpf

end Collections
