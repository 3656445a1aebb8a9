import Eoscochain.Lib.AssocList

/-!
# The injection of checktime, call depth and softfloat calls into a WASM module

libraries/chain wasm_eosio_injection.hpp.  `wasm_binary_injection::inject` imports `checktime`,
then rewrites every function body twice:

* the first pass puts the call depth check around every `call` and `call_indirect`, and replaces
  every float operator by a call of the softfloat import of its name, importing
  `call_depth_assert` and each softfloat helper the first time it is needed;
* the second pass calls `checktime` at the function's entry and after every `loop`, and fixes
  the index of every call (`fix_call_index`).

An import is prepended to the imports while the first pass runs, so the index of a function is
not known until the pass ends: `add_import` hands out a provisional index past every function
(`get_next_indices`), records its final place in `injected_index_mapping`, and shifts the
exports, the start function and the table entries by one; the second pass maps provisional
indices to final ones and shifts the index of every other call by the number of imports
injected.

Function bodies are lists of decoded operators: the byte stream of `instruction_stream` is
decoded and packed again operator by operator, and the operators other than the ones the
injection looks at are carried by their opcode.  The static fields of the injectors are the
fields of `InjectorUtils` and `PassState`.
-/

set_option linter.unusedSectionVars false

namespace Eos.Wasm

open AssocList

/-- `IR::ValueType` -/
inductive ValueType where
  | any | i32 | i64 | f32 | f64
  deriving DecidableEq, Repr

/-- `IR::ResultType` -/
inductive ResultType where
  | none | i32 | i64 | f32 | f64
  deriving DecidableEq, Repr

/-- `FromValueType<T>::value` -/
def ValueType.code : ValueType → Nat
  | .any => 0 | .i32 => 1 | .i64 => 2 | .f32 => 3 | .f64 => 4

/-- `FromResultType<T>::value` -/
def ResultType.code : ResultType → Nat
  | .none => 0 | .i32 => 1 | .i64 => 2 | .f32 => 3 | .f64 => 4

/-- `IR::FunctionType` -/
structure FunctionType where
  ret : ResultType
  params : List ValueType := []
  deriving DecidableEq, Repr

/-- the key of a function type in `type_slots`: the result's code, then the parameters' -/
def FunctionType.slot (t : FunctionType) : List Nat := t.ret.code :: t.params.map ValueType.code

/-- the float operators the first pass replaces, by the injector that handles them -/
inductive FloatOp where
  | f32Add | f32Sub | f32Div | f32Mul | f32Min | f32Max | f32Copysign
  | f32Abs | f32Neg | f32Sqrt | f32Floor | f32Ceil | f32Trunc | f32Nearest
  | f32Eq | f32Ne | f32Lt | f32Le | f32Gt | f32Ge
  | f64Add | f64Sub | f64Div | f64Mul | f64Min | f64Max | f64Copysign
  | f64Abs | f64Neg | f64Sqrt | f64Floor | f64Ceil | f64Trunc | f64Nearest
  | f64Eq | f64Ne | f64Lt | f64Le | f64Gt | f64Ge
  | f64PromoteF32 | f32DemoteF64
  | i32TruncSF32 | i32TruncUF32 | i32TruncSF64 | i32TruncUF64
  | i64TruncSF32 | i64TruncUF32 | i64TruncSF64 | i64TruncUF64
  | f32ConvertSI32 | f32ConvertSI64 | f32ConvertUI32 | f32ConvertUI64
  | f64ConvertSI32 | f64ConvertSI64 | f64ConvertUI32 | f64ConvertUI64
  deriving DecidableEq, Repr

/-- `inject_which_op`: the name of the softfloat import that replaces the operator -/
def FloatOp.injectName : FloatOp → String
  | .f32Add => "_eosio_f32_add" | .f32Sub => "_eosio_f32_sub" | .f32Mul => "_eosio_f32_mul"
  | .f32Div => "_eosio_f32_div" | .f32Min => "_eosio_f32_min" | .f32Max => "_eosio_f32_max"
  | .f32Copysign => "_eosio_f32_copysign" | .f32Abs => "_eosio_f32_abs"
  | .f32Neg => "_eosio_f32_neg" | .f32Sqrt => "_eosio_f32_sqrt" | .f32Ceil => "_eosio_f32_ceil"
  | .f32Floor => "_eosio_f32_floor" | .f32Trunc => "_eosio_f32_trunc"
  | .f32Nearest => "_eosio_f32_nearest" | .f32Eq => "_eosio_f32_eq" | .f32Ne => "_eosio_f32_ne"
  | .f32Lt => "_eosio_f32_lt" | .f32Le => "_eosio_f32_le" | .f32Gt => "_eosio_f32_gt"
  | .f32Ge => "_eosio_f32_ge"
  | .f64Add => "_eosio_f64_add" | .f64Sub => "_eosio_f64_sub" | .f64Mul => "_eosio_f64_mul"
  | .f64Div => "_eosio_f64_div" | .f64Min => "_eosio_f64_min" | .f64Max => "_eosio_f64_max"
  | .f64Copysign => "_eosio_f64_copysign" | .f64Abs => "_eosio_f64_abs"
  | .f64Neg => "_eosio_f64_neg" | .f64Sqrt => "_eosio_f64_sqrt" | .f64Ceil => "_eosio_f64_ceil"
  | .f64Floor => "_eosio_f64_floor" | .f64Trunc => "_eosio_f64_trunc"
  | .f64Nearest => "_eosio_f64_nearest" | .f64Eq => "_eosio_f64_eq" | .f64Ne => "_eosio_f64_ne"
  | .f64Lt => "_eosio_f64_lt" | .f64Le => "_eosio_f64_le" | .f64Gt => "_eosio_f64_gt"
  | .f64Ge => "_eosio_f64_ge"
  | .f64PromoteF32 => "_eosio_f32_promote" | .f32DemoteF64 => "_eosio_f64_demote"
  | .i32TruncUF32 => "_eosio_f32_trunc_i32u" | .i32TruncSF32 => "_eosio_f32_trunc_i32s"
  | .i32TruncUF64 => "_eosio_f64_trunc_i32u" | .i32TruncSF64 => "_eosio_f64_trunc_i32s"
  | .i64TruncUF32 => "_eosio_f32_trunc_i64u" | .i64TruncSF32 => "_eosio_f32_trunc_i64s"
  | .i64TruncUF64 => "_eosio_f64_trunc_i64u" | .i64TruncSF64 => "_eosio_f64_trunc_i64s"
  | .f32ConvertSI32 => "_eosio_i32_to_f32" | .f32ConvertUI32 => "_eosio_ui32_to_f32"
  | .f32ConvertSI64 => "_eosio_i64_f32" | .f32ConvertUI64 => "_eosio_ui64_to_f32"
  | .f64ConvertSI32 => "_eosio_i32_to_f64" | .f64ConvertUI32 => "_eosio_ui32_to_f64"
  | .f64ConvertSI64 => "_eosio_i64_to_f64" | .f64ConvertUI64 => "_eosio_ui64_to_f64"

/-- the type the injector of the operator imports its helper at -/
def FloatOp.injectType : FloatOp → FunctionType
  -- `f32_binop_injector`, `f32_unop_injector`, `f32_relop_injector`
  | .f32Add | .f32Sub | .f32Div | .f32Mul | .f32Min | .f32Max | .f32Copysign => ⟨.f32, [.f32, .f32]⟩
  | .f32Abs | .f32Neg | .f32Sqrt | .f32Floor | .f32Ceil | .f32Trunc | .f32Nearest => ⟨.f32, [.f32]⟩
  | .f32Eq | .f32Ne | .f32Lt | .f32Le | .f32Gt | .f32Ge => ⟨.i32, [.f32, .f32]⟩
  -- the same for `f64`
  | .f64Add | .f64Sub | .f64Div | .f64Mul | .f64Min | .f64Max | .f64Copysign => ⟨.f64, [.f64, .f64]⟩
  | .f64Abs | .f64Neg | .f64Sqrt | .f64Floor | .f64Ceil | .f64Trunc | .f64Nearest => ⟨.f64, [.f64]⟩
  | .f64Eq | .f64Ne | .f64Lt | .f64Le | .f64Gt | .f64Ge => ⟨.i32, [.f64, .f64]⟩
  -- `f32_promote_injector`, `f64_demote_injector`
  | .f64PromoteF32 => ⟨.f64, [.f32]⟩
  | .f32DemoteF64 => ⟨.f32, [.f64]⟩
  -- the truncations and conversions
  | .i32TruncSF32 | .i32TruncUF32 => ⟨.i32, [.f32]⟩
  | .i32TruncSF64 | .i32TruncUF64 => ⟨.i32, [.f64]⟩
  | .i64TruncSF32 | .i64TruncUF32 => ⟨.i64, [.f32]⟩
  | .i64TruncSF64 | .i64TruncUF64 => ⟨.i64, [.f64]⟩
  | .f32ConvertSI32 | .f32ConvertUI32 => ⟨.f32, [.i32]⟩
  | .f32ConvertSI64 | .f32ConvertUI64 => ⟨.f32, [.i64]⟩
  | .f64ConvertSI32 | .f64ConvertUI32 => ⟨.f64, [.i32]⟩
  | .f64ConvertSI64 | .f64ConvertUI64 => ⟨.f64, [.i64]⟩

/-- the operators of a function body -/
inductive Instr where
  | call (index : Nat)
  | callIndirect (typeIndex : Nat)
  | loop
  | float (op : FloatOp)
  | getGlobal (index : Nat)
  | setGlobal (index : Nat)
  | i32Eqz
  | i32Const (value : Int)
  | i32Add
  | if_
  | else_
  | end_
  /-- any other operator, by its opcode -/
  | other (opcode : Nat)
  deriving DecidableEq, Repr

/-- `IR::ObjectKind` -/
inductive ObjectKind where
  | function | table | memory | global
  deriving DecidableEq, Repr

/-- a function import: its type index, module and name -/
structure Import where
  type : Nat
  moduleName : String
  exportName : String
  deriving DecidableEq, Repr

structure Export where
  name : String
  kind : ObjectKind
  index : Nat
  deriving DecidableEq, Repr

/-- the function indices of a table segment -/
structure TableSegment where
  indices : List Nat
  deriving DecidableEq, Repr

structure GlobalDef where
  type : ValueType
  isMutable : Bool
  initializer : Int
  deriving DecidableEq, Repr

structure FunctionDef where
  type : Nat
  code : List Instr
  deriving DecidableEq, Repr

/-- `IR::Module`, with what the injection reads and writes: the function imports and
definitions, the number of global imports and the global definitions, the exports, the start
function (`UINTPTR_MAX` is `none`) and the table segments -/
structure Module where
  types : List FunctionType := []
  imports : List Import := []
  defs : List FunctionDef := []
  globalImports : Nat := 0
  globalDefs : List GlobalDef := []
  exports : List Export := []
  startFunctionIndex : Option Nat := none
  tableSegments : List TableSegment := []
  deriving DecidableEq, Repr

/-- `EOSIO_INJECTED_MODULE_NAME` -/
def injectedModuleName : String := "eosio_injection"

/-- `wasm_constraints::maximum_call_depth` -/
def maximumCallDepth : Int := 250

/-! ## `injector_utils` -/

/-- the static fields of `injector_utils` -/
structure InjectorUtils where
  typeSlots : List (List Nat × Nat) := []
  registeredInjected : List (String × Nat) := []
  injectedIndexMapping : List (Nat × Nat) := []
  nextInjectedIndex : Nat := 0
  deriving DecidableEq, Repr

/-- `injector_utils::build_type_slots` -/
def buildTypeSlots (types : List FunctionType) : List (List Nat × Nat) :=
  types.zipIdx.foldl (fun slots ti => emplace slots ti.1.slot ti.2) []

/-- `injector_utils::init` -/
def InjectorUtils.init (m : Module) : InjectorUtils := { typeSlots := buildTypeSlots m.types }

/-- `injector_utils::add_type_slot`: a type not yet in the module is added at its end -/
def addTypeSlot (m : Module) (u : InjectorUtils) (t : FunctionType) : Module × InjectorUtils :=
  if (u.typeSlots.lookup t.slot).isSome then (m, u)
  else ({ m with types := m.types ++ [t] },
    { u with typeSlots := emplace u.typeSlots t.slot m.types.length })

/-- the exports of functions, the start function and the table entries, shifted by one -/
def shiftFunctionIndices (m : Module) : Module :=
  { m with
    exports := m.exports.map fun e => if e.kind = .function then { e with index := e.index + 1 } else e
    startFunctionIndex := m.startFunctionIndex.map (· + 1)
    tableSegments := m.tableSegments.map fun ts => { ts with indices := ts.indices.map (· + 1) } }

/-- `injector_utils::add_import`: the index a call of the import is written with, provisional
for an import added now -/
def addImport (m : Module) (u : InjectorUtils) (name : String) (t : FunctionType) :
    Module × InjectorUtils × Nat :=
  if m.imports.length == 0 || (u.registeredInjected.lookup name).isNone then
    let (m, u) := addTypeSlot m u t
    let funcTypeIndex := (u.typeSlots.lookup t.slot).getD 0
    -- `get_next_indices`
    let index := m.imports.length + m.defs.length + u.registeredInjected.length
    let actualIndex := u.nextInjectedIndex
    let u := { u with
      nextInjectedIndex := actualIndex + 1
      registeredInjected := emplace u.registeredInjected name index }
    -- after the imports injected before it
    let m := { m with
      imports := m.imports.insertIdx (u.registeredInjected.length - 1)
        ⟨funcTypeIndex, injectedModuleName, name⟩ }
    let u := { u with injectedIndexMapping := emplace u.injectedIndexMapping index actualIndex }
    (shiftFunctionIndices m, u, index)
  else (m, u, (u.registeredInjected.lookup name).getD 0)

/-! ## The two passes -/

/-- the state the first pass carries: the module, `injector_utils`, `call_depth_check::global_idx` -/
structure PassState where
  module : Module
  utils : InjectorUtils
  globalIdx : Int := -1

/-- the code `call_depth_check` puts around a call: the depth counter in global `g` is checked
(`call_depth_assert` is import `a`), decremented before the call and incremented after it -/
def depthGuard (g a : Nat) (inst : Instr) : List Instr :=
  [.getGlobal g, .i32Eqz, .if_, .call a, .else_, .i32Const (-1), .getGlobal g, .i32Add,
    .setGlobal g, .end_, inst, .getGlobal g, .i32Const 1, .i32Add, .setGlobal g]

/-- `call_depth_check::accept`: the counter is a global added at the first call -/
def callDepthCheck (st : PassState) (inst : Instr) : PassState × List Instr :=
  let m := if st.globalIdx = -1 then
      { st.module with globalDefs := st.module.globalDefs ++ [⟨.i32, true, maximumCallDepth⟩] }
    else st.module
  let globalIdx := m.globalImports + m.globalDefs.length - 1
  let (m, u, assertIdx) := addImport m st.utils "call_depth_assert" ⟨.none, []⟩
  ({ module := m, utils := u, globalIdx := globalIdx }, depthGuard globalIdx assertIdx inst)

/-- one operator in the first pass (`pre_op_injectors`) -/
def preOp (st : PassState) : Instr → PassState × List Instr
  | .call f => callDepthCheck st (.call f)
  | .callIndirect t => callDepthCheck st (.callIndirect t)
  | .float op =>
    let (m, u, idx) := addImport st.module st.utils op.injectName op.injectType
    ({ st with module := m, utils := u }, [.call idx])
  | i => (st, [i])

/-- the first pass over a body -/
def preCode (st : PassState) : List Instr → PassState × List Instr
  | [] => (st, [])
  | i :: is =>
    let (st, out) := preOp st i
    let (st, rest) := preCode st is
    (st, out ++ rest)

/-- the first pass over the function definitions, in order -/
def preDefs (st : PassState) : List FunctionDef → PassState × List FunctionDef
  | [] => (st, [])
  | fd :: fds =>
    let (st, code) := preCode st fd.code
    let (st, rest) := preDefs st fds
    (st, { fd with code } :: rest)

/-- `fix_call_index`: a provisional index is mapped to its import, any other is shifted past
the injected imports -/
def fixCallIndex (u : InjectorUtils) (f : Nat) : Nat :=
  match u.injectedIndexMapping.lookup f with
  | some actualIndex => actualIndex
  | none => f + u.registeredInjected.length

/-- one operator in the second pass (`post_op_injectors`); `chktm` is the index of `checktime` -/
def postOp (u : InjectorUtils) (chktm : Nat) : Instr → List Instr
  | .loop => [.loop, .call chktm]
  | .call f => [.call (fixCallIndex u f)]
  | i => [i]

/-- the second pass over a body: `checktime` at its entry, then each operator -/
def postCode (u : InjectorUtils) (chktm : Nat) (code : List Instr) : List Instr :=
  .call chktm :: code.flatMap (postOp u chktm)

/-- `wasm_binary_injection::inject` (the memory limit of the module injectors apart) -/
def inject (m : Module) : Module :=
  let u := InjectorUtils.init m
  let (m, u, chktmIdx) := addImport m u "checktime" ⟨.none, []⟩
  let (st, defs) := preDefs { module := m, utils := u } m.defs
  let chktm := (st.utils.injectedIndexMapping.lookup chktmIdx).getD 0
  { st.module with defs := defs.map fun fd => { fd with code := postCode st.utils chktm fd.code } }

/-! ## The names and types of the injected imports -/

/-- every float operator -/
def FloatOp.all : List FloatOp :=
  [.f32Add, .f32Sub, .f32Div, .f32Mul, .f32Min, .f32Max, .f32Copysign,
   .f32Abs, .f32Neg, .f32Sqrt, .f32Floor, .f32Ceil, .f32Trunc, .f32Nearest,
   .f32Eq, .f32Ne, .f32Lt, .f32Le, .f32Gt, .f32Ge,
   .f64Add, .f64Sub, .f64Div, .f64Mul, .f64Min, .f64Max, .f64Copysign,
   .f64Abs, .f64Neg, .f64Sqrt, .f64Floor, .f64Ceil, .f64Trunc, .f64Nearest,
   .f64Eq, .f64Ne, .f64Lt, .f64Le, .f64Gt, .f64Ge,
   .f64PromoteF32, .f32DemoteF64,
   .i32TruncSF32, .i32TruncUF32, .i32TruncSF64, .i32TruncUF64,
   .i64TruncSF32, .i64TruncUF32, .i64TruncSF64, .i64TruncUF64,
   .f32ConvertSI32, .f32ConvertSI64, .f32ConvertUI32, .f32ConvertUI64,
   .f64ConvertSI32, .f64ConvertSI64, .f64ConvertUI32, .f64ConvertUI64]

theorem FloatOp.mem_all (op : FloatOp) : op ∈ FloatOp.all := by
  cases op <;> decide

set_option maxRecDepth 10000 in
theorem injected_names_nodup :
    ("checktime" :: "call_depth_assert" :: FloatOp.all.map FloatOp.injectName).Nodup := by
  decide

/-- the imports the injection adds: `checktime` and `call_depth_assert`, which take nothing and
return nothing, and the softfloat helper of each float operator -/
def Allowed (nt : String × FunctionType) : Prop :=
  nt = ("checktime", ⟨.none, []⟩) ∨ nt = ("call_depth_assert", ⟨.none, []⟩) ∨
    ∃ op : FloatOp, nt = (op.injectName, op.injectType)

theorem Allowed.type_eq {n : String} {t t' : FunctionType} (h : Allowed (n, t)) (h' : Allowed (n, t')) :
    t = t' := by
  have hnd := injected_names_nodup
  rw [List.nodup_cons, List.nodup_cons] at hnd
  obtain ⟨hchk, hdepth, hops⟩ := hnd
  have hchk' : ∀ op : FloatOp, op.injectName ≠ "checktime" := fun op h =>
    hchk (List.mem_cons_of_mem _ (h ▸ List.mem_map_of_mem (FloatOp.mem_all op)))
  have hdepth' : ∀ op : FloatOp, op.injectName ≠ "call_depth_assert" := fun op h =>
    hdepth (h ▸ List.mem_map_of_mem (FloatOp.mem_all op))
  rcases h with h | h | ⟨op, h⟩ <;> cases h <;> rcases h' with h' | h' | ⟨op', h'⟩ <;>
    simp only [Prod.mk.injEq] at h'
  · exact h'.2.symm
  · exact absurd h'.1 (by decide)
  · exact absurd h'.1.symm (hchk' op')
  · exact absurd h'.1 (by decide)
  · exact h'.2.symm
  · exact absurd h'.1.symm (hdepth' op')
  · exact absurd h'.1 (hchk' op)
  · exact absurd h'.1 (hdepth' op)
  · -- two operators with one name are one operator
    have hop : op = op' :=
      List.inj_on_of_nodup_map hops (FloatOp.mem_all op) (FloatOp.mem_all op') h'.1
    rw [h'.2, hop]

theorem ValueType.code_injective : Function.Injective ValueType.code := by
  intro a b h
  cases a <;> cases b <;> first | rfl | cases h

theorem ResultType.code_injective : Function.Injective ResultType.code := by
  intro a b h
  cases a <;> cases b <;> first | rfl | cases h

theorem FunctionType.slot_injective : Function.Injective FunctionType.slot := by
  rintro ⟨r, ps⟩ ⟨r', ps'⟩ h
  simp only [FunctionType.slot, List.cons.injEq] at h
  rw [ResultType.code_injective h.1, (List.map_injective_iff.mpr ValueType.code_injective) h.2]

end Eos.Wasm
