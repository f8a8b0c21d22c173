import Veloce.Collections.Ebpf

/-! The device filter of a job's GPUs: a program for the kernel, put together in two passes. -/

namespace Veloce

open Collections

def insn (code dst src : BitVec 8) (off : BitVec 16) (imm : BitVec 32) : Ebpf.Insn :=
  { code, dstReg := dst ||| src <<< 4, off, imm }

/-- A program in the first pass, with the jumps whose offsets are still open. -/
structure Assembly where
  insns : List Ebpf.Insn := []
  jumpsToAllow : List Nat := []

namespace Assembly

def push (assembly : Assembly) (insn : Ebpf.Insn) : Assembly := { assembly with insns := assembly.insns ++ [insn] }

def pushJump (assembly : Assembly) (insn : Ebpf.Insn) : Assembly :=
  { insns := assembly.insns ++ [insn], jumpsToAllow := assembly.jumpsToAllow ++ [assembly.insns.length] }

/-- `(allow_idx as i16) - (idx as i16) - 1`. -/
def patch (allowIdx : Nat) (insns : List Ebpf.Insn) (idx : Nat) : List Ebpf.Insn :=
  insns.modify idx fun insn => { insn with off := BitVec.ofNat 16 allowIdx - BitVec.ofNat 16 idx - 1 }

def finish (assembly : Assembly) : List Ebpf.Insn :=
  let deny := (assembly.push (insn 0xb7 0 0 0 0)).push (insn 0x95 0 0 0 0)
  let allowIdx := deny.insns.length
  let allow := (deny.push (insn 0xb7 0 0 0 1)).push (insn 0x95 0 0 0 0)
  allow.jumpsToAllow.foldl (patch allowIdx) allow.insns

end Assembly

/-- The majors of /dev/null and its like, of terminals, of ptys, and of the NVIDIA driver. -/
def compileBpfProgram (uvmMajor : Option Nat) (gpuIds : List Nat) : List Ebpf.Insn :=
  let loads := (({} : Assembly).push (insn 0x61 2 1 4 0)).push (insn 0x61 3 1 8 0)
  let system := ((loads.pushJump (insn 0x15 2 0 0 1)).pushJump (insn 0x15 2 0 0 5)).pushJump (insn 0x15 2 0 0 136)
  let uvm := match uvmMajor with
    | some major => system.pushJump (insn 0x15 2 0 0 (BitVec.ofNat 32 major))
    | none => system
  let control := ((uvm.pushJump (insn 0x55 2 0 0 195)).pushJump (insn 0x15 3 0 0 255)).pushJump (insn 0x15 3 0 0 254)
  (gpuIds.foldl (fun assembly gpuId => assembly.pushJump (insn 0x15 3 0 0 (BitVec.ofNat 32 gpuId))) control).finish

/-- What the kernel tells a device filter, at an address in the first register. -/
structure BpfCgroupDevCtx where
  accessType : BitVec 32
  major : BitVec 32
  minor : BitVec 32

def BpfCgroupDevCtx.load (ctx : BpfCgroupDevCtx) (base address : BitVec 64) : Option (BitVec 32) :=
  if address = base then some ctx.accessType
  else if address = base + 4 then some ctx.major
  else if address = base + 8 then some ctx.minor
  else none

section Layout

variable {uvmMajor : Option Nat} {gpuIds : List Nat}

def filterTests (uvmMajor : Option Nat) (gpuIds : List Nat) : List Ebpf.Test :=
  [⟨true, 2, 1⟩, ⟨true, 2, 5⟩, ⟨true, 2, 136⟩] ++ (uvmMajor.toList.map fun major => ⟨true, 2, BitVec.ofNat 32 major⟩) ++
    [⟨false, 2, 195⟩, ⟨true, 3, 255⟩, ⟨true, 3, 254⟩] ++ gpuIds.map fun gpuId => ⟨true, 3, BitVec.ofNat 32 gpuId⟩

def Assembly.pushTests (assembly : Assembly) (tests : List Ebpf.Test) : Assembly :=
  tests.foldl (fun assembly test => assembly.pushJump (test.insn 0)) assembly

theorem pushTests_eq (tests : List Ebpf.Test) (assembly : Assembly) :
    assembly.pushTests tests =
      { insns := assembly.insns ++ tests.map (·.insn 0)
        jumpsToAllow := assembly.jumpsToAllow ++ List.range' assembly.insns.length tests.length } := by
  induction tests generalizing assembly with
  | nil => simp [Assembly.pushTests]
  | cons test rest ih =>
    change (assembly.pushJump (test.insn 0)).pushTests rest = _
    rw [ih]
    simp [Assembly.pushJump, List.range'_succ]

theorem getElem?_patch (allowIdx : Nat) (jumps : List Nat) (insns : List Ebpf.Insn) (index : Nat) :
    (jumps.foldl (Assembly.patch allowIdx) insns)[index]? =
      if index ∈ jumps then
        insns[index]?.map fun insn => { insn with off := BitVec.ofNat 16 allowIdx - BitVec.ofNat 16 index - 1 }
      else insns[index]? := by
  induction jumps generalizing insns with
  | nil => simp
  | cons jump rest ih =>
    rw [List.foldl_cons, ih, Assembly.patch, List.getElem?_modify]
    by_cases own : jump = index
    · subst own
      cases found : insns[jump]? <;> simp
    · have other : index ≠ jump := fun same => own same.symm
      simp [own, other]

/-- The first pass: two loads, the tests, and the two ends. -/
theorem compileBpfProgram_eq (uvmMajor : Option Nat) (gpuIds : List Nat) :
    compileBpfProgram uvmMajor gpuIds =
      (List.range' 2 (filterTests uvmMajor gpuIds).length).foldl
        (Assembly.patch ((filterTests uvmMajor gpuIds).length + 4))
        ([insn 0x61 2 1 4 0, insn 0x61 3 1 8 0] ++ (filterTests uvmMajor gpuIds).map (·.insn 0) ++
          [insn 0xb7 0 0 0 0, insn 0x95 0 0 0 0, insn 0xb7 0 0 0 1, insn 0x95 0 0 0 0]) := by
  have first : compileBpfProgram uvmMajor gpuIds =
      (Assembly.pushTests { insns := [insn 0x61 2 1 4 0, insn 0x61 3 1 8 0] } (filterTests uvmMajor gpuIds)).finish := by
    unfold compileBpfProgram filterTests Assembly.pushTests
    rw [List.foldl_append, List.foldl_map]
    cases uvmMajor <;> rfl
  rw [first, pushTests_eq]
  simp [Assembly.finish, Assembly.push]

/-- Where the parts of the program stand. -/
structure Filters (program : List Ebpf.Insn) (tests : List Ebpf.Test) : Prop where
  major : program[0]? = some (insn 0x61 2 1 4 0)
  minor : program[1]? = some (insn 0x61 3 1 8 0)
  row : Ebpf.Row program 2 (tests.length + 4) tests
  deny : program[tests.length + 2]? = some (insn 0xb7 0 0 0 0)
  denied : program[tests.length + 3]? = some (insn 0x95 0 0 0 0)
  allow : program[tests.length + 4]? = some (insn 0xb7 0 0 0 1)
  allowed : program[tests.length + 5]? = some (insn 0x95 0 0 0 0)

theorem compileBpfProgram_filters (uvmMajor : Option Nat) (gpuIds : List Nat) :
    Filters (compileBpfProgram uvmMajor gpuIds) (filterTests uvmMajor gpuIds) := by
  rw [compileBpfProgram_eq]
  generalize filterTests uvmMajor gpuIds = tests
  have behind (offset : Nat) : ((List.range' 2 tests.length).foldl (Assembly.patch (tests.length + 4))
      ([insn 0x61 2 1 4 0, insn 0x61 3 1 8 0] ++ tests.map (·.insn 0) ++
        [insn 0xb7 0 0 0 0, insn 0x95 0 0 0 0, insn 0xb7 0 0 0 1, insn 0x95 0 0 0 0]))[tests.length + 2 + offset]? =
      [insn 0xb7 0 0 0 0, insn 0x95 0 0 0 0, insn 0xb7 0 0 0 1, insn 0x95 0 0 0 0][offset]? := by
    have outside : tests.length + 2 + offset ∉ List.range' 2 tests.length := by
      rw [List.mem_range'_1]
      omega
    rw [getElem?_patch, if_neg outside, List.getElem?_append_right (by simp)]
    congr 1
    simp
  constructor
  · rw [getElem?_patch, if_neg (by simp)]
    rfl
  · rw [getElem?_patch, if_neg (by simp)]
    rfl
  · intro index test member
    obtain ⟨bound, same⟩ := List.getElem?_eq_some_iff.mp member
    have inside : 2 + index ∈ List.range' 2 tests.length := by
      rw [List.mem_range'_1]
      omega
    rw [getElem?_patch, if_pos inside, List.getElem?_append_left (by simp; omega),
      List.getElem?_append_right (by simp), List.length_cons, List.length_singleton, Nat.add_sub_cancel_left,
      List.getElem?_map, member]
    rfl
  · exact behind 0
  · exact behind 1
  · exact behind 2
  · exact behind 3

end Layout

section Access

variable {ctx : BpfCgroupDevCtx} {base : BitVec 64} {regs : BitVec 4 → BitVec 64} {program : List Ebpf.Insn}
  {tests : List Ebpf.Test}

def BpfCgroupDevCtx.loaded (ctx : BpfCgroupDevCtx) (regs : BitVec 4 → BitVec 64) : BitVec 4 → BitVec 64 :=
  Function.update (Function.update regs 2 (ctx.major.setWidth 64)) 3 (ctx.minor.setWidth 64)

theorem Filters.run_loads (filters : Filters program tests) (context : regs 1 = base) (fuel : Nat) :
    Ebpf.run (ctx.load base) program (fuel + 2) ⟨0, regs⟩ = Ebpf.run (ctx.load base) program fuel ⟨2, ctx.loaded regs⟩ := by
  have first : Ebpf.step (ctx.load base) program ⟨0, regs⟩ =
      .next ⟨1, Function.update regs 2 (ctx.major.setWidth 64)⟩ := by
    refine Ebpf.step_load (insn 0x61 2 1 4 0) ctx.major ?_ rfl ?_
    · exact filters.major
    · change ctx.load base (regs 1 + 4) = _
      rw [context, BpfCgroupDevCtx.load, if_neg (by simp), if_pos rfl]
  have second : Ebpf.step (ctx.load base) program ⟨1, Function.update regs 2 (ctx.major.setWidth 64)⟩ =
      .next ⟨2, ctx.loaded regs⟩ := by
    refine Ebpf.step_load (insn 0x61 3 1 8 0) ctx.minor ?_ rfl ?_
    · exact filters.minor
    · change ctx.load base (regs 1 + 8) = _
      rw [context, BpfCgroupDevCtx.load, if_neg (by simp), if_neg (by simp), if_pos rfl]
  rw [Ebpf.run_next first, Ebpf.run_next second]

theorem Filters.run_deny (filters : Filters program tests) (regs : BitVec 4 → BitVec 64) (fuel : Nat) :
    Ebpf.run (ctx.load base) program (fuel + 2) ⟨(2 + tests.length : Nat), regs⟩ = some 0 := by
  refine Ebpf.run_return 0 0 ?_ ⟨insn 0x95 0 0 0 0, ?_, rfl⟩
  · rw [Ebpf.fetch_natCast, Nat.add_comm]
    exact filters.deny
  · rw [← Int.natCast_succ, Ebpf.fetch_natCast, Nat.add_comm 2]
    exact filters.denied

theorem Filters.run (filters : Filters program tests) (near : tests.length + 4 < 2 ^ 15) (context : regs 1 = base) :
    ∃ fuel, Ebpf.run (ctx.load base) program fuel ⟨0, regs⟩ = some (if tests.any (·.holds (ctx.loaded regs)) then 1 else 0) := by
  obtain ⟨steps, leads⟩ := Ebpf.run_row (ctx.load base) (ctx.loaded regs) near filters.row (by omega)
  refine ⟨2 + steps + 2, ?_⟩
  rw [filters.run_loads context]
  refine (leads 2).trans ?_
  cases tests.any (·.holds (ctx.loaded regs)) with
  | true =>
    refine Ebpf.run_return 0 1 ?_ ⟨insn 0x95 0 0 0 0, ?_, rfl⟩
    · exact (Ebpf.fetch_natCast program _).trans filters.allow
    · exact (Ebpf.fetch_natCast program (tests.length + 4 + 1)).trans filters.allowed
  | false =>
    rw [if_neg Bool.false_ne_true, if_neg Bool.false_ne_true]
    exact filters.run_deny (ctx.loaded regs) 0

/-- However many tests there are, the filter returns 1 for none that fails them all. -/
theorem Filters.any_of_run (filters : Filters program tests) (context : regs 1 = base) {fuel : Nat}
    (allows : Ebpf.run (ctx.load base) program fuel ⟨0, regs⟩ = some 1) : tests.any (·.holds (ctx.loaded regs)) = true := by
  by_contra fails
  have through : Ebpf.run (ctx.load base) program (2 + tests.length + 2) ⟨0, regs⟩ = some 0 := by
    rw [filters.run_loads context]
    refine (Ebpf.run_row_through (ctx.load base) (ctx.loaded regs) 2 filters.row ?_).trans ?_
    · exact Bool.eq_false_iff.mpr fails
    · exact filters.run_deny (ctx.loaded regs) 0
  exact absurd (Ebpf.run_unique allows through) (by decide)

/-- A constant below 2^31 is positive after its extension. -/
theorem setWidth_eq_iff (word : BitVec 32) {const : BitVec 32} (small : const.toNat < 2 ^ 31) :
    word.setWidth 64 = const.signExtend 64 ↔ word = const := by
  have positive : const.msb = false := by
    rw [BitVec.msb_eq_decide, decide_eq_false_iff_not]
    omega
  rw [BitVec.signExtend_eq_setWidth_of_msb_false positive]
  constructor
  · intro same
    have values := congrArg BitVec.toNat same
    simpa [BitVec.toNat_setWidth, BitVec.toNat_inj, Nat.mod_eq_of_lt, Nat.lt_trans word.isLt, Nat.lt_trans const.isLt]
      using values
  · exact congrArg (BitVec.setWidth 64)

theorem eq_ofNat_iff (word : BitVec 32) {id : Nat} (small : id < 2 ^ 31) : word = BitVec.ofNat 32 id ↔ word.toNat = id := by
  rw [← BitVec.toNat_inj, BitVec.toNat_ofNat, Nat.mod_eq_of_lt (by omega)]

/-- The tests in words: majors and minors below 2^31 are compared as they are. -/
theorem any_filterTests {uvmMajor : Option Nat} {gpuIds : List Nat} (ids : ∀ gpuId ∈ gpuIds, gpuId < 2 ^ 31)
    (uvm : ∀ major ∈ uvmMajor, major ≠ 195 ∧ major < 2 ^ 31) :
    (filterTests uvmMajor gpuIds).any (·.holds (ctx.loaded regs)) = true ↔
      ctx.major ≠ 195 ∨ ctx.minor = 254 ∨ ctx.minor = 255 ∨ ctx.minor.toNat ∈ gpuIds := by
  have major (const : BitVec 32) (small : const.toNat < 2 ^ 31) (equal : Bool) :
      (⟨equal, 2, const⟩ : Ebpf.Test).holds (ctx.loaded regs) = (decide (ctx.major = const) == equal) :=
    congrArg (· == equal) (decide_eq_decide.mpr (setWidth_eq_iff ctx.major small))
  have minor (const : BitVec 32) (small : const.toNat < 2 ^ 31) :
      (⟨true, 3, const⟩ : Ebpf.Test).holds (ctx.loaded regs) = (decide (ctx.minor = const) == true) :=
    congrArg (· == true) (decide_eq_decide.mpr (setWidth_eq_iff ctx.minor small))
  have sized {id : Nat} (small : id < 2 ^ 31) : (BitVec.ofNat 32 id).toNat < 2 ^ 31 := by
    rw [BitVec.toNat_ofNat]
    omega
  have gpus : (gpuIds.map fun gpuId => (⟨true, 3, BitVec.ofNat 32 gpuId⟩ : Ebpf.Test)).any (·.holds (ctx.loaded regs)) =
      true ↔ ctx.minor.toNat ∈ gpuIds := by
    rw [List.any_map, List.any_eq_true]
    constructor
    · rintro ⟨gpuId, member, holds⟩
      rw [Function.comp_apply, minor _ (sized (ids gpuId member)), beq_true, decide_eq_true_eq,
        eq_ofNat_iff _ (ids gpuId member)] at holds
      exact holds ▸ member
    · intro member
      refine ⟨_, member, ?_⟩
      rw [Function.comp_apply, minor _ (sized (ids _ member)), beq_true, decide_eq_true_eq, eq_ofNat_iff _ (ids _ member)]
  have uvmOther : (uvmMajor.toList.map fun major => (⟨true, 2, BitVec.ofNat 32 major⟩ : Ebpf.Test)).any
      (·.holds (ctx.loaded regs)) = true → ctx.major ≠ 195 := by
    rw [List.any_map, List.any_eq_true]
    rintro ⟨const, member, holds⟩ same
    obtain ⟨apart, small⟩ := uvm const (Option.mem_toList.mp member)
    rw [Function.comp_apply, major _ (sized small), beq_true, decide_eq_true_eq, eq_ofNat_iff _ small, same] at holds
    exact apart holds.symm
  rw [filterTests, List.any_append, List.any_append, List.any_append, Bool.or_eq_true, Bool.or_eq_true, Bool.or_eq_true,
    gpus]
  simp only [List.any_cons, List.any_nil, Bool.or_false, Bool.or_eq_true, major 1 (by decide), major 5 (by decide),
    major 136 (by decide), major 195 (by decide), minor 254 (by decide), minor 255 (by decide), beq_true, beq_false,
    Bool.not_eq_true', decide_eq_true_eq, decide_eq_false_iff_not]
  constructor
  · rintro ((((one | five | pty) | uvmMajor) | nvidia | last | modeset) | gpu)
    · exact .inl (by rw [one]; decide)
    · exact .inl (by rw [five]; decide)
    · exact .inl (by rw [pty]; decide)
    · exact .inl (uvmOther uvmMajor)
    · exact .inl nvidia
    · exact .inr (.inr (.inl last))
    · exact .inr (.inl modeset)
    · exact .inr (.inr (.inr gpu))
  · rintro (nvidia | modeset | last | gpu)
    · exact .inl (.inr (.inl nvidia))
    · exact .inl (.inr (.inr (.inr modeset)))
    · exact .inl (.inr (.inr (.inl last)))
    · exact .inr gpu

/-- A word that equals a constant after their extensions is the constant. -/
theorem eq_of_setWidth_eq {word const : BitVec 32} (same : word.setWidth 64 = const.signExtend 64) : word = const := by
  refine BitVec.eq_of_getLsbD_eq fun index bound => ?_
  have bit := congrArg (BitVec.getLsbD · index) same
  rw [BitVec.getLsbD_setWidth, BitVec.getLsbD_signExtend, if_pos bound] at bit
  simpa only [show index < 64 by omega, decide_true, Bool.true_and] using bit

/-- No list of ids, however long and whatever its numbers, lets a device through that is not on it. -/
theorem listed_of_run {uvmMajor : Option Nat} {gpuIds : List Nat} {fuel : Nat}
    (uvm : ∀ major ∈ uvmMajor, major ≠ 195 ∧ major < 2 ^ 31) (context : regs 1 = base) (nvidia : ctx.major = 195)
    (allows : Ebpf.run (ctx.load base) (compileBpfProgram uvmMajor gpuIds) fuel ⟨0, regs⟩ = some 1) :
    ctx.minor = 254 ∨ ctx.minor = 255 ∨ ctx.minor ∈ gpuIds.map (BitVec.ofNat 32) := by
  have some := (compileBpfProgram_filters uvmMajor gpuIds).any_of_run context allows
  obtain ⟨test, member, holds⟩ := List.any_eq_true.mp some
  have major {const : BitVec 32} (holds : (⟨true, 2, const⟩ : Ebpf.Test).holds (ctx.loaded regs) = true) : const = 195 := by
    rw [Ebpf.Test.holds, beq_true, decide_eq_true_eq] at holds
    exact (eq_of_setWidth_eq holds).symm.trans nvidia
  have minor {const : BitVec 32} (holds : (⟨true, 3, const⟩ : Ebpf.Test).holds (ctx.loaded regs) = true) :
      ctx.minor = const := by
    rw [Ebpf.Test.holds, beq_true, decide_eq_true_eq] at holds
    exact eq_of_setWidth_eq holds
  simp only [filterTests, List.mem_append, List.mem_cons, List.mem_map, List.not_mem_nil, or_false] at member
  rcases member with (((rfl | rfl | rfl) | ⟨const, named, rfl⟩) | rfl | rfl | rfl) | ⟨gpuId, listed, rfl⟩
  · exact absurd (major holds) (by decide)
  · exact absurd (major holds) (by decide)
  · exact absurd (major holds) (by decide)
  · obtain ⟨apart, small⟩ := uvm const (Option.mem_toList.mp named)
    exact absurd ((eq_ofNat_iff 195 small).mp (major holds).symm) (Ne.symm apart)
  · rw [Ebpf.Test.holds, beq_false, Bool.not_eq_true', decide_eq_false_iff_not] at holds
    refine absurd ?_ holds
    change ctx.major.setWidth 64 = _
    rw [nvidia]
    decide
  · exact .inr (.inl (minor holds))
  · exact .inl (minor holds)
  · exact .inr (.inr (List.mem_map.mpr ⟨gpuId, listed, (minor holds).symm⟩))

/-- The filter stays inside its instructions, exits, and returns 1 for a device that is none
of the NVIDIA driver, for its two control devices, and for the GPUs of the list. -/
theorem filter_decides_access (uvmMajor : Option Nat) (gpuIds : List Nat) (ctx : BpfCgroupDevCtx) (base : BitVec 64)
    (regs : BitVec 4 → BitVec 64) (context : regs 1 = base) (few : gpuIds.length ≤ 32000)
    (ids : ∀ gpuId ∈ gpuIds, gpuId < 2 ^ 31) (uvm : ∀ major ∈ uvmMajor, major ≠ 195 ∧ major < 2 ^ 31) :
    (∃ fuel value, Ebpf.run (ctx.load base) (compileBpfProgram uvmMajor gpuIds) fuel ⟨0, regs⟩ = some value ∧
      (value = 1 ↔ ctx.major ≠ 195 ∨ ctx.minor = 254 ∨ ctx.minor = 255 ∨ ctx.minor.toNat ∈ gpuIds)) ∧
    ∀ machine, Ebpf.Passes (ctx.load base) (compileBpfProgram uvmMajor gpuIds) ⟨0, regs⟩ machine →
      0 ≤ machine.pc ∧ machine.pc < (compileBpfProgram uvmMajor gpuIds).length := by
  have filters := compileBpfProgram_filters uvmMajor gpuIds
  have near : (filterTests uvmMajor gpuIds).length + 4 < 2 ^ 15 := by
    have one : uvmMajor.toList.length ≤ 1 := by cases uvmMajor <;> simp
    simp only [filterTests, List.length_append, List.length_map, List.length_cons, List.length_nil]
    omega
  obtain ⟨fuel, exits⟩ := filters.run near context
  refine ⟨⟨fuel, _, exits, ?_⟩, fun machine passed => ?_⟩
  · rw [← any_filterTests ids uvm]
    cases (filterTests uvmMajor gpuIds).any (·.holds (ctx.loaded regs)) <;> simp
  · obtain ⟨found, fetched⟩ := Ebpf.fetch_of_run exits passed
    exact Ebpf.inside_of_fetch fetched

/-- GPU 1 is refused to a job with GPUs 0 and 2. -/
theorem filter_decides_access_refused : ∃ fuel value,
    Ebpf.run (BpfCgroupDevCtx.load ⟨6, 195, 1⟩ 4096) (compileBpfProgram (some 510) [0, 2, 2]) fuel ⟨0, fun _ => 4096⟩ =
      some value ∧ value ≠ 1 := by
  obtain ⟨⟨fuel, value, exits, returns⟩, _⟩ := filter_decides_access (some 510) [0, 2, 2] ⟨6, 195, 1⟩ 4096
    (fun _ => 4096) rfl (by decide) (by decide) (by decide)
  exact ⟨fuel, value, exits, fun one => absurd (returns.mp one) (by decide)⟩

end Access

end Veloce
