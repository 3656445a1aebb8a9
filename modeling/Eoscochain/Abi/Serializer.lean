import Mathlib
import Eoscochain.Lib.Assert
import Eoscochain.Lib.Codec

/-!
# The ABI serializer

libraries/chain abi_serializer.cpp: `set_abi` with its `validate`, `resolve_type`, and the two
traversals `_binary_to_variant` and `_variant_to_binary`.

* `Value`              `fc::variant`, as far as the serializer reads and builds it;
* `BuiltIn`            the `fc::raw` reader and writer of a built-in type; `unpackAs`, `packAs`
                       are `pack_unpack<T>` for `T`, `optional<T>` and `vector<T>`;
* `AbiDef`, `AbiSerializer`   `abi_def` and the maps `set_abi` fills;
* `setAbi`, `validate`, `isType`, `resolveType`, `fundamentalType`;
* `decodeValue`, `decodeStruct`   `_binary_to_variant` of a type and of the fields of a struct;
* `encodeValue`        `_variant_to_binary`, with the `allow_extensions` of its context;
* `binaryToVariant`, `variantToBinary`   the entry points;
* `emptyStruct_round_trip`, `optionalStruct_round_trip`   an empty struct encodes to bytes that
                       do not decode, and an optional struct decodes to values that do not
                       encode, in every ABI that has one.

Every call enters a scope, and `enter_scope` fails at depth `max_recursion_depth`; the
functions count the scopes they may still enter (`fuel`).  Left out: the deadline, the paths in
the error messages (here the struct's or the field's name), the 1 MiB buffer of
`variant_to_binary`, and `var.as<bytes>()` for a type the ABI does not have (here an error).
`set_abi` checks the typedefs, structs and variants in the order of the ABI's lists, not of the
maps' keys: which check fails first may differ, not whether one does.
-/

set_option linter.unusedSectionVars false

namespace Eos.Abi

open Machine Codec

/-- `fc::variant` -/
inductive Value
  | null
  | int (n : Int)
  | string (s : String)
  | array (vs : List Value)
  | object (fields : List (String × Value))
  deriving Repr

def Value.isNull : Value → Bool
  | .null => true
  | _ => false

/-- `map[k] = v` of a `std::map`, and `set` of a `mutable_variant_object`: the entry of the key
replaced, or added at the end -/
def insertMap {κ α : Type} [BEq κ] (m : List (κ × α)) (k : κ) (v : α) : List (κ × α) :=
  if m.any (·.1 == k) then m.map fun e => if e.1 == k then (k, v) else e else m ++ [(k, v)]

/-! ## Built-in types -/

/-- the `fc::raw` reader of a built-in type `T`, and its writer of a variant converted to `T` -/
structure BuiltIn where
  unpack : Decoder Value
  pack : Value → Except String Bytes

/-- `fc::raw::unpack` of a `bool`: one byte, 0 or 1 -/
def unpackBool : Decoder Bool
  | [] => throw "read"
  | b :: rest => if b.toNat ≤ 1 then pure (b.toNat == 1, rest) else throw "bool out of range"

/-- the reader of `pack_unpack<T>()` -/
def BuiltIn.unpackAs (t : BuiltIn) (isArray isOptional : Bool) : Decoder Value := fun bs =>
  if isArray then do
    let (vs, rest) ← unpackVector t.unpack bs
    pure (.array vs, rest)
  else if isOptional then do
    let (present, rest) ← unpackBool bs
    if present then t.unpack rest else pure (.null, rest)
  else t.unpack bs

/-- the writer of `pack_unpack<T>()`: `var.as<vector<T>>()`, `var.as<optional<T>>()` or
`var.as<T>()`, packed -/
def BuiltIn.packAs (t : BuiltIn) (isArray isOptional : Bool) (v : Value) : Except String Bytes :=
  if isArray then
    match v with
    | .array vs => do
      let items ← vs.mapM t.pack
      pure (packVarUInt32 vs.length ++ items.flatten)
    | _ => throw "Invalid cast to array"
  else if isOptional then
    match v with
    | .null => pure [0]
    | v => do
      let item ← t.pack v
      pure (1 :: item)
  else t.pack v

/-! ## ABIs -/

/-- `field_def` -/
structure FieldDef where
  name : String
  type : String

/-- `struct_def` -/
structure StructDef where
  name : String
  base : String := ""
  fields : List FieldDef := []

/-- `type_def` -/
structure TypeDef where
  newTypeName : String
  type : String

/-- `variant_def` -/
structure VariantDef where
  name : String
  types : List String

/-- `abi_def`; of the actions and tables only their names and types, of the error messages only
their codes -/
structure AbiDef where
  version : String := ""
  types : List TypeDef := []
  structs : List StructDef := []
  actions : List (Nat × String) := []
  tables : List (Nat × String) := []
  errorMessages : List Nat := []
  variants : List VariantDef := []

/-- the maps of `abi_serializer` -/
structure AbiSerializer where
  builtIns : List (String × BuiltIn)
  typedefs : List (String × String) := []
  structs : List (String × StructDef) := []
  variants : List (String × VariantDef) := []
  actions : List (Nat × String) := []
  tables : List (Nat × String) := []
  errorMessages : List (Nat × Unit) := []

/-- `abi_serializer::max_recursion_depth` -/
def maxRecursionDepth : Nat := 32

def recursionError : String := "recursive definition, max_recursion_depth 32"

def isArray (type : String) : Bool := type.endsWith "[]"

def isOptional (type : String) : Bool := type.endsWith "?"

/-- `fundamental_type`: the element type of an array or an optional -/
def fundamentalType (type : String) : String :=
  if isArray type then (type.dropEnd 2).copy
  else if isOptional type then (type.dropEnd 1).copy
  else type

/-- `_remove_bin_extension` -/
def removeBinExtension (type : String) : String :=
  if type.endsWith "$" then (type.dropEnd 1).copy else type

namespace AbiSerializer

/-- the loop of `resolve_type` from a typedef `t`: at most `n` more steps -/
def resolveLoop (typedefs : List (String × String)) : Nat → String → Option String
  | 0, _ => none
  | n + 1, t =>
    match typedefs.lookup t with
    | some t' => if (typedefs.lookup t').isNone then some t' else resolveLoop typedefs n t'
    | none => none

/-- `resolve_type`: a typedef followed to a type that is not one; a cycle of typedefs stays -/
def resolveType (s : AbiSerializer) (type : String) : String :=
  match s.typedefs.lookup type with
  | some _ => (resolveLoop s.typedefs s.typedefs.length type).getD type
  | none => type

/-- `_is_type` -/
def isType (s : AbiSerializer) : Nat → String → Except String Bool
  | 0, _ => throw recursionError
  | fuel + 1, rtype =>
    let type := fundamentalType rtype
    if (s.builtIns.lookup type).isSome then pure true
    else match s.typedefs.lookup type with
      | some t => s.isType fuel t
      | none => pure ((s.structs.lookup type).isSome || (s.variants.lookup type).isSome)

/-- the first loop of `validate` along the typedefs from `t`: no type twice -/
def typedefChain (typedefs : List (String × String)) (first : String) :
    Nat → List String → String → Except String Unit
  | 0, _, _ => pure ()
  | n + 1, seen, t =>
    match typedefs.lookup t with
    | some t' => do
      assert (!seen.contains t') ("Circular reference in type " ++ first)
      typedefChain typedefs first n (seen ++ [t']) t'
    | none => pure ()

/-- the loop of `validate` along the bases of a struct: each base a struct, none twice -/
def baseChain (s : AbiSerializer) (first : String) : Nat → List String → StructDef → Except String Unit
  | 0, _, _ => pure ()
  | n + 1, seen, current =>
    if current.base != "" then do
      let base ← (match s.structs.lookup (s.resolveType current.base) with
        | some b => pure b
        | none => throw ("Unknown struct " ++ current.base))
      assert (!seen.contains base.name) ("Circular reference in struct " ++ first)
      baseChain s first n (seen ++ [base.name]) base
    else pure ()

/-- `_is_type` at the depth of `set_abi`, as a check -/
def checkType (s : AbiSerializer) (type : String) : Except String Unit := do
  let ok ← s.isType (maxRecursionDepth - 1) type
  assert ok ("invalid type " ++ type)

/-- `abi_serializer::validate` -/
def validate (s : AbiSerializer) : Except String Unit := do
  s.typedefs.forM fun t => typedefChain s.typedefs t.1 (s.typedefs.length + 1) [t.1, t.2] t.2
  s.typedefs.forM fun t => s.checkType t.2
  s.structs.forM fun st => do
    baseChain s st.2.name (s.structs.length + 1) [st.2.name] st.2
    st.2.fields.forM fun field => s.checkType (removeBinExtension field.type)
  s.variants.forM fun v => v.2.types.forM s.checkType
  s.actions.forM fun a => s.checkType a.2
  s.tables.forM fun t => s.checkType t.2

end AbiSerializer

/-- `abi_serializer::set_abi` on the built-in types of `configure_built_in_types` -/
def setAbi (builtIns : List (String × BuiltIn)) (abi : AbiDef) : Except String AbiSerializer := do
  assert (abi.version.startsWith "eosio::abi/1.") "ABI has an unsupported version"
  let s : AbiSerializer := { builtIns, structs := abi.structs.foldl (fun m st => insertMap m st.name st) [] }
  -- each typedef is checked against the typedefs before it; the variants are not loaded yet
  let s ← abi.types.foldlM (fun (s : AbiSerializer) td => do
      s.checkType td.type
      let exists' ← s.isType (maxRecursionDepth - 1) td.newTypeName
      assert (!exists') ("type already exists " ++ td.newTypeName)
      pure { s with typedefs := insertMap s.typedefs td.newTypeName td.type }) s
  let s := { s with
    actions := abi.actions.foldl (fun m a => insertMap m a.1 a.2) []
    tables := abi.tables.foldl (fun m t => insertMap m t.1 t.2) []
    errorMessages := abi.errorMessages.foldl (fun m e => insertMap m e ()) []
    variants := abi.variants.foldl (fun m v => insertMap m v.name v) [] }
  assert (s.typedefs.length == abi.types.length) "duplicate type definition detected"
  assert (s.structs.length == abi.structs.length) "duplicate struct definition detected"
  assert (s.actions.length == abi.actions.length) "duplicate action definition detected"
  assert (s.tables.length == abi.tables.length) "duplicate table definition detected"
  assert (s.errorMessages.length == abi.errorMessages.length) "duplicate error message definition detected"
  assert (s.variants.length == abi.variants.length) "duplicate variant definition detected"
  s.validate
  pure s

namespace AbiSerializer

/-! ## Binary to variant -/

mutual

/-- `_binary_to_variant( type, stream, obj )`: the fields of a struct into `obj`, its base's
first; a binary extension field is skipped where the stream has ended -/
def decodeStruct (s : AbiSerializer) : Nat → String → List (String × Value) →
    Decoder (List (String × Value))
  | 0, _, _ => fun _ => throw recursionError
  | fuel + 1, type, obj => fun bs => do
    let st ← (match s.structs.lookup type with
      | some st => pure st
      | none => throw ("Unknown type " ++ type))
    let (obj, bs) ← (if st.base != "" then s.decodeStruct fuel (s.resolveType st.base) obj bs
      else pure (obj, bs))
    let (_, obj, bs) ← st.fields.foldlM (fun (acc : Bool × List (String × Value) × Bytes) field => do
        let extension := field.type.endsWith "$"
        let encountered := acc.1 || extension
        if acc.2.2.isEmpty then
          if extension then pure (encountered, acc.2.1, acc.2.2)
          else if encountered then
            throw ("Encountered field " ++ field.name ++
              " without binary extension designation while processing struct " ++ type)
          else throw ("Stream unexpectedly ended; unable to unpack field " ++ field.name ++
            " of struct " ++ type)
        else do
          let (v, rest) ← s.decodeValue fuel
            (s.resolveType (if extension then removeBinExtension field.type else field.type)) acc.2.2
          pure (encountered, insertMap acc.2.1 field.name v, rest))
      (false, obj, bs)
    pure (obj, bs)

/-- `_binary_to_variant( type, stream )` -/
def decodeValue (s : AbiSerializer) : Nat → String → Decoder Value
  | 0, _ => fun _ => throw recursionError
  | fuel + 1, type => fun bs => do
    let rtype := s.resolveType type
    let ftype := fundamentalType rtype
    match s.builtIns.lookup ftype with
    | some b => b.unpackAs (isArray rtype) (isOptional rtype) bs
    | none =>
      if isArray rtype then do
        let (size, bs) ← unpackVarUInt32 bs
        -- an element that reads as null, an absent optional, is refused
        let (vs, bs) ← unpackMany (fun bs => do
            let (v, rest) ← s.decodeValue fuel ftype bs
            assert (!v.isNull) "Invalid packed array"
            pure (v, rest)) size bs
        pure (.array vs, bs)
      else if isOptional rtype then do
        let (flag, bs) ← readUInt 1 bs
        if flag != 0 then s.decodeValue fuel ftype bs else pure (.null, bs)
      else
        match s.variants.lookup rtype with
        | some v => do
          let (select, bs) ← unpackVarUInt32 bs
          match v.types[select]? with
          | some t => do
            let (x, rest) ← s.decodeValue fuel t bs
            pure (.array [.string t, x], rest)
          | none => throw "Unpacked invalid tag for variant"
        | none => do
          let (obj, bs) ← s.decodeStruct fuel rtype [] bs
          assert (!obj.isEmpty) "Unable to unpack from stream"
          pure (.object obj, bs)

end

/-- `binary_to_variant`: `_binary_to_variant( type, binary )` enters the first scope; the value
and what is left of the binary -/
def binaryToVariant (s : AbiSerializer) (type : String) (binary : Bytes) : Except String (Value × Bytes) :=
  s.decodeValue (maxRecursionDepth - 2) type binary

/-! ## Variant to binary -/

/-- `_variant_to_binary( type, var, ds )`, `allow` being `allow_extensions` of the context: a
binary extension field may be left out only where every enclosing field is the last of its
struct and no array encloses it -/
def encodeValue (s : AbiSerializer) : Nat → Bool → String → Value → Except String Bytes
  | 0, _, _, _ => throw recursionError
  | fuel + 1, allow, type, var => do
    let rtype := s.resolveType type
    match s.builtIns.lookup (fundamentalType rtype) with
    | some b => b.packAs (isArray rtype) (isOptional rtype) var
    | none =>
      if isArray rtype then
        match var with
        | .array vars => do
          let items ← vars.mapM (s.encodeValue fuel false (fundamentalType rtype))
          pure (packVarUInt32 vars.length ++ items.flatten)
        | _ => throw "Invalid cast to array"
      else
        match s.variants.lookup rtype with
        | some v => do
          let (tag, x) ← (match var with
            | .array [tag, x] => pure (tag, x)
            | _ => throw "Expected input to be an array of two items while processing variant")
          let t ← (match tag with
            | .string t => pure t
            | _ => throw "Encountered non-string as first item of input array while processing variant")
          match v.types.idxOf? t with
          | some i => do
            let bytes ← s.encodeValue fuel allow t x
            pure (packVarUInt32 i ++ bytes)
          | none => throw ("Specified type " ++ t ++ " in input array is not valid within the variant")
        | none =>
          match s.structs.lookup rtype with
          | some st =>
            match var with
            | .object vo => do
              let baseBytes ← (if st.base != "" then s.encodeValue fuel false (s.resolveType st.base) var
                else pure [])
              let (_, out) ← st.fields.zipIdx.foldlM (fun (acc : Bool × Bytes) (field, i) =>
                  match vo.lookup field.name with
                  | some fv => do
                    assert (!acc.1) ("Unexpected field " ++ field.name ++
                      " found in input object while processing struct " ++ rtype)
                    let bytes ← s.encodeValue fuel (allow && i + 1 == st.fields.length)
                      (removeBinExtension field.type) fv
                    pure (acc.1, acc.2 ++ bytes)
                  | none =>
                    if field.type.endsWith "$" && allow then pure (true, acc.2)
                    else if acc.1 then
                      throw ("Encountered field " ++ field.name ++
                        " without binary extension designation while processing struct " ++ rtype)
                    else throw ("Missing field " ++ field.name ++ " in input object while processing struct " ++ rtype))
                (false, [])
              pure (baseBytes ++ out)
            | .array va => do
              assert (st.base == "")
                "Using input array to specify the fields of the derived struct; input arrays are currently only allowed for structs without a base"
              -- the loop `break`s at the first binary extension field left out
              let (_, out) ← st.fields.zipIdx.foldlM (fun (acc : Bool × Bytes) (field, i) =>
                  if acc.1 then pure acc
                  else match va[i]? with
                    | some fv => do
                      let bytes ← s.encodeValue fuel (allow && i + 1 == st.fields.length)
                        (removeBinExtension field.type) fv
                      pure (false, acc.2 ++ bytes)
                    | none =>
                      if field.type.endsWith "$" && allow then pure (true, acc.2)
                      else throw ("Early end to input array specifying the fields of struct " ++ rtype ++
                        "; require input for field " ++ field.name))
                (false, [])
              pure out
            | _ => throw ("Unexpected input encountered while processing struct " ++ rtype)
          | none => throw ("Unknown type " ++ type)

/-- `variant_to_binary`: `_variant_to_binary( type, var )` enters the first scope and asks
`_is_type`; extensions are allowed at the top -/
def variantToBinary (s : AbiSerializer) (type : String) (var : Value) : Except String Bytes := do
  let known ← s.isType (maxRecursionDepth - 2) type
  if known then s.encodeValue (maxRecursionDepth - 2) true type var
  else throw ("var.as<bytes>() of the unknown type " ++ type)

/-! ## Round trips -/

/-- the round trip from binary: a binary that decodes with nothing left encodes back to itself -/
def decodeRoundTrips (s : AbiSerializer) (type : String) (b : Bytes) : Bool :=
  match s.binaryToVariant type b with
  | .ok (v, []) =>
    match s.variantToBinary type v with
    | .ok b' => b' == b
    | .error _ => false
  | _ => true

/-- the round trip from a variant: a variant that encodes decodes from its binary with nothing
left, to a variant that encodes to the same binary -/
def encodeRoundTrips (s : AbiSerializer) (type : String) (v : Value) : Bool :=
  match s.variantToBinary type v with
  | .ok b =>
    match s.binaryToVariant type b with
    | .ok (v', []) =>
      match s.variantToBinary type v' with
      | .ok b' => b' == b
      | .error _ => false
    | _ => false
  | .error _ => true

section RoundTrips
variable {s : AbiSerializer} {type : String}

theorem resolveType_of_none (h : s.typedefs.lookup type = none) : s.resolveType type = type := by
  unfold resolveType
  rw [h]

theorem fundamentalType_of_plain (harray : isArray type = false) (hopt : isOptional type = false) :
    fundamentalType type = type := by
  unfold fundamentalType
  rw [harray, hopt]
  rfl

theorem isType_of_struct {fuel : Nat} (hbuiltin : s.builtIns.lookup (fundamentalType type) = none)
    (htd : s.typedefs.lookup (fundamentalType type) = none)
    (hstruct : (s.structs.lookup (fundamentalType type)).isSome) : s.isType (fuel + 1) type = .ok true := by
  simp only [isType, hbuiltin, htd, hstruct, Option.isSome_none, Bool.false_eq_true, ↓reduceIte,
    Bool.true_or]
  rfl

theorem variantToBinary_of_isType {var : Value} (h : s.isType (maxRecursionDepth - 2) type = .ok true) :
    s.variantToBinary type var = s.encodeValue (maxRecursionDepth - 2) true type var := by
  rw [variantToBinary, h, ok_bind]
  rfl

theorem decodeValue_struct {fuel : Nat} {bs : Bytes} (hres : s.resolveType type = type)
    (hbuiltin : s.builtIns.lookup (fundamentalType type) = none) (harray : isArray type = false)
    (hopt : isOptional type = false) (hvariant : s.variants.lookup type = none) :
    s.decodeValue (fuel + 1) type bs = (do
      let (obj, bs) ← s.decodeStruct fuel type [] bs
      assert (!obj.isEmpty) "Unable to unpack from stream"
      pure (.object obj, bs)) := by
  rw [decodeValue]
  simp only [hres, hbuiltin, harray, hopt, hvariant, Bool.false_eq_true, ↓reduceIte]

theorem decodeValue_optional_absent {fuel : Nat} {bs : Bytes} (hres : s.resolveType type = type)
    (hbuiltin : s.builtIns.lookup (fundamentalType type) = none) (harray : isArray type = false)
    (hopt : isOptional type = true) : s.decodeValue (fuel + 1) type (0 :: bs) = .ok (.null, bs) := by
  have hflag : readUInt 1 (0 :: bs) = .ok (0, bs) := @readUInt_leBytes 1 0 (by decide) bs
  rw [decodeValue]
  simp only [hres, hbuiltin, harray, hopt, Bool.false_eq_true, ↓reduceIte, hflag, ok_bind]
  rfl

section EmptyStruct
variable {st : StructDef} (hstruct : s.structs.lookup type = some st) (hbase : st.base = "")
  (hfields : st.fields = [])
include hstruct hbase hfields

theorem decodeStruct_empty {fuel : Nat} {obj : List (String × Value)} {bs : Bytes} :
    s.decodeStruct (fuel + 1) type obj bs = .ok (obj, bs) := by
  rw [decodeStruct]
  simp only [hstruct, pure_bind, hbase, hfields, bne_self_eq_false, Bool.false_eq_true, ↓reduceIte]
  rfl

theorem encodeValue_empty {fuel : Nat} {allow : Bool} {vo : List (String × Value)}
    (hres : s.resolveType type = type) (hbuiltin : s.builtIns.lookup (fundamentalType type) = none)
    (harray : isArray type = false) (hvariant : s.variants.lookup type = none) :
    s.encodeValue (fuel + 1) allow type (.object vo) = .ok [] := by
  rw [encodeValue.eq_def]
  simp only [hres, hbuiltin, harray, hvariant, hstruct, hbase, hfields, bne_self_eq_false,
    Bool.false_eq_true, ↓reduceIte]
  rfl

end EmptyStruct

theorem emptyStruct_round_trip {st : StructDef} (htd : s.typedefs.lookup type = none)
    (harray : isArray type = false) (hopt : isOptional type = false)
    (hbuiltin : s.builtIns.lookup type = none) (hvariant : s.variants.lookup type = none)
    (hstruct : s.structs.lookup type = some st) (hbase : st.base = "") (hfields : st.fields = []) :
    s.variantToBinary type (.object []) = .ok [] ∧ ∀ b, (s.binaryToVariant type b).toOption = none := by
  have hfund := fundamentalType_of_plain harray hopt
  have hres := resolveType_of_none htd
  rw [← hfund] at hbuiltin
  constructor
  · have hknown : s.isType (maxRecursionDepth - 2) type = .ok true :=
      isType_of_struct hbuiltin (by rw [hfund, htd]) (by rw [hfund, hstruct]; rfl)
    rw [variantToBinary_of_isType hknown]
    show s.encodeValue (29 + 1) true type (.object []) = .ok []
    exact encodeValue_empty hstruct hbase hfields hres hbuiltin harray hvariant
  · intro b
    have hdec : s.decodeValue (28 + 1 + 1) type b = .error "Unable to unpack from stream" := by
      rw [decodeValue_struct hres hbuiltin harray hopt hvariant, decodeStruct_empty hstruct hbase hfields]
      rfl
    show (s.decodeValue (28 + 1 + 1) type b).toOption = none
    rw [hdec]
    rfl

theorem optionalStruct_round_trip (htd : s.typedefs.lookup type = none) (harray : isArray type = false)
    (hopt : isOptional type = true) (hbuiltin : s.builtIns.lookup (fundamentalType type) = none)
    (htdf : s.typedefs.lookup (fundamentalType type) = none)
    (hstruct : (s.structs.lookup (fundamentalType type)).isSome) (hvariant : s.variants.lookup type = none)
    (hnot : s.structs.lookup type = none) :
    s.binaryToVariant type [0] = .ok (.null, []) ∧ ∀ v, (s.variantToBinary type v).toOption = none := by
  have hres := resolveType_of_none htd
  constructor
  · show s.decodeValue (29 + 1) type [0] = .ok (.null, [])
    exact decodeValue_optional_absent hres hbuiltin harray hopt
  · intro v
    have hknown : s.isType (maxRecursionDepth - 2) type = .ok true := isType_of_struct hbuiltin htdf hstruct
    have henc : s.encodeValue (29 + 1) true type v = .error ("Unknown type " ++ type) := by
      rw [encodeValue.eq_def]
      simp only [hres, hbuiltin, harray, hvariant, hnot, Bool.false_eq_true, ↓reduceIte]
      rfl
    rw [variantToBinary_of_isType hknown]
    show (s.encodeValue (29 + 1) true type v).toOption = none
    rw [henc]
    rfl

end RoundTrips

end AbiSerializer

/-! ## An ABI where the round trips fail -/

/-- `uint8` of `configure_built_in_types` -/
def uint8 : BuiltIn where
  unpack
    | [] => throw "read"
    | b :: rest => pure (.int b.toNat, rest)
  pack
    | .int n => if 0 ≤ n ∧ n < 256 then pure [UInt8.ofNat n.toNat] else throw "out of range"
    | _ => throw "Invalid cast"

/-- a struct without fields, and a struct whose last field is a binary extension -/
def sampleAbi : AbiDef where
  version := "eosio::abi/1.1"
  structs := [{ name := "empty" },
    { name := "ext", fields := [{ name := "a", type := "uint8" }, { name := "b", type := "uint8$" }] }]

/-- `set_abi` accepts the ABI, and in it: the empty object of `empty` encodes to bytes that do not
decode; `ext[]` decodes an element without its extension field, which the encoder refuses inside
an array; `ext?` decodes, and the encoder knows no optional struct. -/
theorem abi_round_trip_fails :
    ((setAbi [("uint8", uint8)] sampleAbi).toOption.map fun s =>
      (s.encodeRoundTrips "empty" (.object []), s.decodeRoundTrips "ext[]" [1, 5],
        s.decodeRoundTrips "ext?" [1, 5, 6])) = some (false, false, false) := by
  decide +kernel

-- the struct itself, and an array of whole structs, do round trip
example : ((setAbi [("uint8", uint8)] sampleAbi).toOption.map fun s =>
    (s.decodeRoundTrips "ext" [5, 6], s.decodeRoundTrips "ext" [5],
      s.encodeRoundTrips "ext[]" (.array [.object [("a", .int 5), ("b", .int 6)]]))) =
    some (true, true, true) := by
  decide +kernel

end Eos.Abi
