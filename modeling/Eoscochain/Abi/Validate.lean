import Eoscochain.Abi.Serializer
import Eoscochain.Lib.AssocList

/-!
# What `set_abi` rules out

libraries/chain abi_serializer.cpp: `validate`, and what it buys the rest of the serializer.
`resolve_type` stops after as many steps as there are typedefs, `_is_type` at the depth bound,
and the base recursion of `_binary_to_variant` and `_variant_to_binary` has no bound of its own.
In an ABI that `set_abi` accepts none of this matters:

* `resolveType_not_typedef`   a typedef chain ends, within the number of typedefs, at a type
                              that is not a typedef;
* `BaseChain`, `baseChain_of_validate`   the bases of every struct are structs of the ABI,
                              pairwise distinct, up to one without base;
* `KnownType`, `knownType_of_isType`   a type `_is_type` accepts reaches, through typedefs, a
                              built-in type, a struct or a variant; `validate` asks it of every
                              type the ABI names (`namedTypes`).

Each chain is followed by a walk with a step bound (`typedefWalk`, `baseWalk`).  The check of
`validate` keeps the walk free of repeats, the walk goes through keys of a map, so it is no
longer than the map: the bounds of the source are never reached.
-/

namespace Eos.Abi

open Machine

/-! ## The maps of `set_abi` -/

theorem forall_mem_insertMap {κ α : Type} [BEq κ] {P : κ × α → Prop} {m : List (κ × α)} {k : κ}
    {v : α} (hm : ∀ p ∈ m, P p) (hkv : P (k, v)) : ∀ p ∈ insertMap m k v, P p := by
  intro p hp
  unfold insertMap at hp
  split at hp
  · obtain ⟨e, he, rfl⟩ := List.mem_map.mp hp
    split
    · exact hkv
    · exact hm e he
  · rcases List.mem_append.mp hp with hp | hp
    · exact hm p hp
    · rw [List.mem_singleton.mp hp]
      exact hkv

theorem structs_named (l : List StructDef) :
    ∀ (m : List (String × StructDef)), (∀ p ∈ m, p.2.name = p.1) →
      ∀ p ∈ l.foldl (fun m st => insertMap m st.name st) m, p.2.name = p.1 := by
  induction l with
  | nil => exact fun m hm => hm
  | cons st l ih =>
    intro m hm
    exact ih _ (forall_mem_insertMap hm rfl)

namespace AbiSerializer

variable {s : AbiSerializer}

/-- the types `validate` asks `_is_type` of: the types of the typedefs, of the fields (without
the mark of a binary extension) and of the variants, actions and tables -/
def namedTypes (s : AbiSerializer) : List String :=
  s.typedefs.map (·.2) ++
    s.structs.flatMap (fun st => st.2.fields.map fun field => removeBinExtension field.type) ++
    s.variants.flatMap (·.2.types) ++ s.actions.map (·.2) ++ s.tables.map (·.2)

theorem isType_of_checkType {t : String} (h : s.checkType t = .ok ()) :
    s.isType (maxRecursionDepth - 1) t = .ok true := by
  obtain ⟨ok, hok, h⟩ := bind_eq_ok.mp h
  obtain ⟨rfl, -⟩ := assert_bind_eq_ok.mp (by rw [bind_pure]; exact h)
  exact hok

theorem setAbi_eq_ok {builtIns : List (String × BuiltIn)} {abi : AbiDef}
    (h : setAbi builtIns abi = .ok s) : s.validate = .ok () ∧ ∀ p ∈ s.structs, p.2.name = p.1 := by
  unfold setAbi at h
  obtain ⟨-, h⟩ := assert_bind_eq_ok.mp h
  obtain ⟨s1, hs1, h⟩ := bind_eq_ok.mp h
  obtain ⟨-, h⟩ := assert_bind_eq_ok.mp h
  obtain ⟨-, h⟩ := assert_bind_eq_ok.mp h
  obtain ⟨-, h⟩ := assert_bind_eq_ok.mp h
  obtain ⟨-, h⟩ := assert_bind_eq_ok.mp h
  obtain ⟨-, h⟩ := assert_bind_eq_ok.mp h
  obtain ⟨-, h⟩ := assert_bind_eq_ok.mp h
  obtain ⟨u, hv, h⟩ := bind_eq_ok.mp h
  cases h
  have hstructs : s1.structs = abi.structs.foldl (fun m st => insertMap m st.name st) [] := by
    refine foldlM_inv (fun t : AbiSerializer => t.structs = _) (fun t td t' ht hstep => ?_)
      abi.types _ s1 rfl hs1
    obtain ⟨_, -, hstep⟩ := bind_eq_ok.mp hstep
    obtain ⟨_, -, hstep⟩ := bind_eq_ok.mp hstep
    obtain ⟨-, hstep⟩ := assert_bind_eq_ok.mp hstep
    cases hstep
    exact ht
  refine ⟨hv, ?_⟩
  rw [show s1.structs = _ from hstructs]
  exact structs_named abi.structs [] (fun _ h => absurd h List.not_mem_nil)

theorem validate_eq_ok (h : s.validate = .ok ()) :
    (∀ t ∈ s.typedefs, typedefChain s.typedefs t.1 (s.typedefs.length + 1) [t.1, t.2] t.2 = .ok ()) ∧
    (∀ st ∈ s.structs, baseChain s st.2.name (s.structs.length + 1) [st.2.name] st.2 = .ok ()) ∧
    ∀ t ∈ s.namedTypes, s.checkType t = .ok () := by
  unfold validate at h
  obtain ⟨_, hchains, h⟩ := bind_eq_ok.mp h
  obtain ⟨_, htypedefs, h⟩ := bind_eq_ok.mp h
  obtain ⟨_, hstructs, h⟩ := bind_eq_ok.mp h
  obtain ⟨_, hvariants, h⟩ := bind_eq_ok.mp h
  obtain ⟨_, hactions, htables⟩ := bind_eq_ok.mp h
  rw [forM_eq_ok] at hchains htypedefs hstructs hvariants hactions htables
  have hstruct := fun st hst => bind_eq_ok.mp (hstructs st hst)
  refine ⟨hchains, fun st hst => ?_, fun t ht => ?_⟩
  · obtain ⟨_, hbase, -⟩ := hstruct st hst
    exact hbase
  · simp only [namedTypes, List.mem_append, List.mem_map, List.mem_flatMap] at ht
    rcases ht with ((((⟨p, hp, rfl⟩ | ⟨st, hst, f, hf, rfl⟩) | ⟨v, hv, ht⟩) | ⟨a, ha, rfl⟩) |
      ⟨p, hp, rfl⟩)
    · exact htypedefs p hp
    · obtain ⟨_, -, hfields⟩ := hstruct st hst
      exact forM_eq_ok.mp hfields f hf
    · exact forM_eq_ok.mp (hvariants v hv) t ht
    · exact hactions a ha
    · exact htables p hp

/-! ## What `_is_type` accepts -/

/-- the type is, through typedefs, a built-in type, a struct or a variant: the fundamental type
(without `[]` or `?`) is looked up at each step -/
inductive KnownType (s : AbiSerializer) : String → Prop
  | builtIn {t} : (s.builtIns.lookup (fundamentalType t)).isSome → KnownType s t
  | typedef {t u} : s.builtIns.lookup (fundamentalType t) = none →
      s.typedefs.lookup (fundamentalType t) = some u → KnownType s u → KnownType s t
  | struct {t} : s.builtIns.lookup (fundamentalType t) = none →
      s.typedefs.lookup (fundamentalType t) = none →
      (s.structs.lookup (fundamentalType t)).isSome → KnownType s t
  | variant {t} : s.builtIns.lookup (fundamentalType t) = none →
      s.typedefs.lookup (fundamentalType t) = none →
      (s.variants.lookup (fundamentalType t)).isSome → KnownType s t

theorem knownType_of_isType : ∀ {fuel : Nat} {t : String}, s.isType fuel t = .ok true → s.KnownType t
  | 0, _, h => by cases h
  | fuel + 1, t, h => by
    rw [isType] at h
    by_cases hb : (s.builtIns.lookup (fundamentalType t)).isSome
    · exact .builtIn hb
    · have hb' : s.builtIns.lookup (fundamentalType t) = none := Option.not_isSome_iff_eq_none.mp hb
      rw [if_neg hb] at h
      cases htd : s.typedefs.lookup (fundamentalType t) with
      | some u =>
        rw [htd] at h
        exact .typedef hb' htd (knownType_of_isType h)
      | none =>
        rw [htd] at h
        have h' : ((s.structs.lookup (fundamentalType t)).isSome ||
            (s.variants.lookup (fundamentalType t)).isSome) = true := Except.ok.inj h
        rcases Bool.or_eq_true_iff.mp h' with hs | hv
        · exact .struct hb' htd hs
        · exact .variant hb' htd hv

/-! ## Typedef chains -/

section Typedefs

variable {typedefs : List (String × String)}

/-- the types met along the typedefs from `t`, at most `n` of them -/
def typedefWalk (typedefs : List (String × String)) : Nat → String → List String
  | 0, _ => []
  | n + 1, t =>
    match typedefs.lookup t with
    | some t' => t' :: typedefWalk typedefs n t'
    | none => []

theorem typedefWalk_succ_of_lookup {n : Nat} {t t' : String} (h : typedefs.lookup t = some t') :
    typedefWalk typedefs (n + 1) t = t' :: typedefWalk typedefs n t' := by
  rw [typedefWalk, h]

theorem length_typedefWalk_le : ∀ (n : Nat) (t : String), (typedefWalk typedefs n t).length ≤ n
  | 0, _ => Nat.le_refl 0
  | n + 1, t => by
    cases h : typedefs.lookup t with
    | some t' =>
      rw [typedefWalk_succ_of_lookup h, List.length_cons]
      exact Nat.succ_le_succ (length_typedefWalk_le n t')
    | none =>
      rw [typedefWalk, h]
      exact Nat.zero_le _

theorem isPrefix_typedefWalk : ∀ (n m : Nat) (t : String),
    typedefWalk typedefs n t <+: typedefWalk typedefs (n + m) t
  | 0, _, _ => List.nil_prefix
  | n + 1, m, t => by
    rw [Nat.add_right_comm]
    cases h : typedefs.lookup t with
    | some t' =>
      rw [typedefWalk_succ_of_lookup h, typedefWalk_succ_of_lookup h]
      exact (List.prefix_cons_inj t').mpr (isPrefix_typedefWalk n m t')
    | none =>
      rw [typedefWalk, h]
      exact List.nil_prefix

theorem keys_of_full : ∀ (n : Nat) (t : String), (typedefWalk typedefs (n + 1) t).length = n + 1 →
    (typedefWalk typedefs n t).length = n ∧
      ∀ x ∈ t :: typedefWalk typedefs n t, (typedefs.lookup x).isSome
  | n, t, h => by
    cases ht : typedefs.lookup t with
    | none =>
      rw [typedefWalk, ht] at h
      cases h
    | some t' =>
      rw [typedefWalk_succ_of_lookup ht, List.length_cons] at h
      cases n with
      | zero =>
        refine ⟨rfl, fun x hx => ?_⟩
        rw [List.mem_singleton.mp hx, ht]
        rfl
      | succ n =>
        obtain ⟨hlen, hkeys⟩ := keys_of_full n t' (by omega)
        refine ⟨by rw [typedefWalk_succ_of_lookup ht, List.length_cons, hlen], fun x hx => ?_⟩
        rw [typedefWalk_succ_of_lookup ht] at hx
        rcases List.mem_cons.mp hx with rfl | hx
        · rw [ht]
          rfl
        · exact hkeys x hx

theorem typedefChain_fresh {first : String} : ∀ {n : Nat} {seen : List String} {t : String},
    typedefChain typedefs first n seen t = .ok () →
      (typedefWalk typedefs n t).Nodup ∧ ∀ x ∈ typedefWalk typedefs n t, x ∉ seen
  | 0, _, _, _ => ⟨List.nodup_nil, fun _ h => absurd h List.not_mem_nil⟩
  | n + 1, seen, t, h => by
    rw [typedefChain] at h
    cases hl : typedefs.lookup t with
    | none =>
      rw [typedefWalk, hl]
      exact ⟨List.nodup_nil, fun _ h => absurd h List.not_mem_nil⟩
    | some t' =>
      rw [hl] at h
      obtain ⟨hnew, h⟩ := assert_bind_eq_ok.mp h
      have hnew : t' ∉ seen := by simpa using hnew
      obtain ⟨hnd, hfresh⟩ := typedefChain_fresh h
      rw [typedefWalk_succ_of_lookup hl]
      refine ⟨List.nodup_cons.mpr ⟨fun ht' => hfresh t' ht' (List.mem_append_right _
        (List.mem_singleton_self t')), hnd⟩, fun x hx => ?_⟩
      rcases List.mem_cons.mp hx with rfl | hx
      · exact hnew
      · exact fun hs => hfresh x hx (List.mem_append_left _ hs)

theorem resolveLoop_of_short : ∀ (n : Nat) {t t' : String}, typedefs.lookup t = some t' →
    (typedefWalk typedefs (n + 1) t).length ≤ n →
      ∃ r, resolveLoop typedefs n t = some r ∧ typedefs.lookup r = none
  | 0, _, _, ht, h => by
    rw [typedefWalk_succ_of_lookup ht, List.length_cons] at h
    omega
  | n + 1, t, t', ht, h => by
    rw [typedefWalk_succ_of_lookup ht, List.length_cons] at h
    rw [resolveLoop, ht]
    dsimp only
    cases ht' : typedefs.lookup t' with
    | none => exact ⟨t', rfl, ht'⟩
    | some t'' => exact resolveLoop_of_short n ht' (by omega)

theorem typedefWalk_short {k v : String} (hk : typedefs.lookup k = some v)
    (hchain : typedefChain typedefs k (typedefs.length + 1) [k, v] v = .ok ()) :
    (typedefWalk typedefs (typedefs.length + 1) k).length ≤ typedefs.length := by
  obtain ⟨hnd, hfresh⟩ := typedefChain_fresh hchain
  have hpos : 0 < typedefs.length :=
    List.length_pos_of_mem (AssocList.mem_of_lookup_eq_some hk)
  by_contra hlong
  obtain ⟨hlen, hkeys⟩ := keys_of_full typedefs.length k
    (Nat.le_antisymm (@length_typedefWalk_le typedefs _ _) (by omega))
  have hwalk : typedefWalk typedefs typedefs.length k =
      v :: typedefWalk typedefs (typedefs.length - 1) v := by
    rw [show typedefs.length = typedefs.length - 1 + 1 by omega, typedefWalk_succ_of_lookup hk,
      Nat.add_sub_cancel]
  have hpre : typedefWalk typedefs (typedefs.length - 1) v <+:
      typedefWalk typedefs (typedefs.length + 1) v := by
    have := @isPrefix_typedefWalk typedefs (typedefs.length - 1) 2 v
    rwa [show typedefs.length - 1 + 2 = typedefs.length + 1 by omega] at this
  have hself : k ≠ v := by
    rintro rfl
    rw [typedefWalk_succ_of_lookup hk] at hfresh
    exact hfresh k List.mem_cons_self (List.mem_cons_self)
  have hnodup : (k :: typedefWalk typedefs typedefs.length k).Nodup := by
    rw [hwalk, List.nodup_cons, List.nodup_cons]
    refine ⟨?_, fun hv => hfresh v (hpre.subset hv) (List.mem_cons_of_mem k List.mem_cons_self),
      hnd.sublist hpre.sublist⟩
    intro hk'
    rcases List.mem_cons.mp hk' with hkv | hkw
    · exact hself hkv
    · exact hfresh k (hpre.subset hkw) List.mem_cons_self
  have hsub : k :: typedefWalk typedefs typedefs.length k ⊆ typedefs.map Prod.fst := by
    intro x hx
    obtain ⟨y, hy⟩ := Option.isSome_iff_exists.mp (hkeys x hx)
    exact List.mem_map_of_mem (f := Prod.fst) (AssocList.mem_of_lookup_eq_some hy)
  have := hnodup.length_le_of_subset hsub
  rw [List.length_cons, hlen, List.length_map] at this
  omega

end Typedefs

/-- **resolution ends**: in a validated ABI, `resolve_type` of any type is not a typedef -/
theorem resolveType_not_typedef (hv : s.validate = .ok ()) (t : String) :
    s.typedefs.lookup (s.resolveType t) = none := by
  unfold resolveType
  cases hk : s.typedefs.lookup t with
  | none => exact hk
  | some v =>
    have hchain := (validate_eq_ok hv).1 (t, v) (AssocList.mem_of_lookup_eq_some hk)
    obtain ⟨r, hr, hnone⟩ := resolveLoop_of_short _ hk (typedefWalk_short hk hchain)
    rw [hr]
    exact hnone

/-! ## Base chains -/

/-- the structs met along the bases from `cur`, as `validate` and the two traversals follow them
(each base resolved, then looked up among the structs), at most `n` of them -/
def baseWalk (s : AbiSerializer) : Nat → StructDef → List StructDef
  | 0, _ => []
  | n + 1, cur =>
    if cur.base != "" then
      match s.structs.lookup (s.resolveType cur.base) with
      | some b => b :: s.baseWalk n b
      | none => []
    else []

/-- the bases of a struct: each the struct its base resolves to, up to a struct without base -/
inductive BaseChain (s : AbiSerializer) : StructDef → List StructDef → Prop
  | last {st} : st.base = "" → BaseChain s st [st]
  | cons {st b chain} : st.base ≠ "" → s.structs.lookup (s.resolveType st.base) = some b →
      BaseChain s b chain → BaseChain s st (st :: chain)

theorem baseChain_succ_eq_ok {first : String} {n : Nat} {seen : List String} {cur : StructDef}
    (h : baseChain s first (n + 1) seen cur = .ok ()) :
    cur.base = "" ∨ cur.base ≠ "" ∧ ∃ b, s.structs.lookup (s.resolveType cur.base) = some b ∧
      b.name ∉ seen ∧ baseChain s first n (seen ++ [b.name]) b = .ok () := by
  rw [baseChain] at h
  by_cases hbase : cur.base = ""
  · exact .inl hbase
  refine .inr ⟨hbase, ?_⟩
  rw [if_pos (bne_iff_ne.mpr hbase)] at h
  cases hl : s.structs.lookup (s.resolveType cur.base) with
  | none =>
    rw [hl] at h
    cases h
  | some b =>
    rw [hl] at h
    obtain ⟨b', hb', h⟩ := bind_eq_ok.mp h
    obtain rfl : b = b' := Except.ok.inj hb'
    obtain ⟨hnew, h⟩ := assert_bind_eq_ok.mp h
    exact ⟨b, rfl, by simpa using hnew, h⟩

theorem baseWalk_succ {n : Nat} {cur b : StructDef} (hbase : cur.base ≠ "")
    (hl : s.structs.lookup (s.resolveType cur.base) = some b) :
    s.baseWalk (n + 1) cur = b :: s.baseWalk n b := by
  rw [baseWalk, if_pos (bne_iff_ne.mpr hbase), hl]

theorem baseWalk_of_no_base {n : Nat} {cur : StructDef} (hbase : cur.base = "") :
    s.baseWalk (n + 1) cur = [] := by
  rw [baseWalk, hbase]
  rfl

theorem lookup_of_mem_baseWalk : ∀ {n : Nat} {cur b : StructDef}, b ∈ s.baseWalk n cur →
    ∃ k, s.structs.lookup k = some b
  | 0, _, _, h => absurd h List.not_mem_nil
  | n + 1, cur, b, h => by
    rw [baseWalk] at h
    split at h
    · split at h
      · next b' hl =>
        rcases List.mem_cons.mp h with rfl | h
        · exact ⟨_, hl⟩
        · exact lookup_of_mem_baseWalk h
      · exact absurd h List.not_mem_nil
    · exact absurd h List.not_mem_nil

theorem baseChain_fresh {first : String} : ∀ {n : Nat} {seen : List String} {cur : StructDef},
    baseChain s first n seen cur = .ok () →
      ((s.baseWalk n cur).map (·.name)).Nodup ∧ ∀ b ∈ s.baseWalk n cur, b.name ∉ seen
  | 0, _, _, _ => ⟨List.nodup_nil, fun _ h => absurd h List.not_mem_nil⟩
  | n + 1, seen, cur, h => by
    rcases baseChain_succ_eq_ok h with hbase | ⟨hbase, b, hl, hnew, h⟩
    · rw [baseWalk_of_no_base hbase]
      exact ⟨List.nodup_nil, fun _ h => absurd h List.not_mem_nil⟩
    · obtain ⟨hnd, hfresh⟩ := baseChain_fresh h
      rw [baseWalk_succ hbase hl, List.map_cons]
      refine ⟨List.nodup_cons.mpr ⟨fun hb => ?_, hnd⟩, fun x hx => ?_⟩
      · obtain ⟨x, hx, hxb⟩ := List.mem_map.mp hb
        exact hfresh x hx (hxb ▸ List.mem_append_right _ (List.mem_singleton_self _))
      · rcases List.mem_cons.mp hx with rfl | hx
        · exact hnew
        · exact fun hs => hfresh x hx (List.mem_append_left _ hs)

theorem baseChain_of_short {first : String} : ∀ {n : Nat} {seen : List String} {cur : StructDef},
    baseChain s first n seen cur = .ok () → (s.baseWalk n cur).length < n →
      s.BaseChain cur (cur :: s.baseWalk n cur)
  | 0, _, _, _, hlt => absurd hlt (Nat.not_lt_zero _)
  | n + 1, seen, cur, h, hlt => by
    rcases baseChain_succ_eq_ok h with hbase | ⟨hbase, b, hl, -, h⟩
    · rw [baseWalk_of_no_base hbase]
      exact .last hbase
    · rw [baseWalk_succ hbase hl, List.length_cons] at hlt
      rw [baseWalk_succ hbase hl]
      exact .cons hbase hl (baseChain_of_short h (by omega))

/-- **bases end**: in a validated ABI whose structs are filed under their names, the bases of
each struct are structs of the ABI, pairwise distinct, up to one without base -/
theorem baseChain_of_validate (hv : s.validate = .ok ())
    (hnamed : ∀ p ∈ s.structs, p.2.name = p.1) {p : String × StructDef} (hp : p ∈ s.structs) :
    ∃ chain, s.BaseChain p.2 chain ∧ (chain.map (·.name)).Nodup := by
  have hchain := (validate_eq_ok hv).2.1 p hp
  obtain ⟨hnd, hfresh⟩ := baseChain_fresh hchain
  have hsub : (s.baseWalk (s.structs.length + 1) p.2).map (·.name) ⊆ s.structs.map Prod.fst := by
    intro x hx
    obtain ⟨b, hb, rfl⟩ := List.mem_map.mp hx
    obtain ⟨k, hk⟩ := lookup_of_mem_baseWalk hb
    have hmem := AssocList.mem_of_lookup_eq_some hk
    rw [hnamed _ hmem]
    exact List.mem_map_of_mem (f := Prod.fst) hmem
  have hshort := hnd.length_le_of_subset hsub
  rw [List.length_map, List.length_map] at hshort
  refine ⟨_, baseChain_of_short hchain (by omega), ?_⟩
  rw [List.map_cons, List.nodup_cons]
  refine ⟨fun hx => ?_, hnd⟩
  obtain ⟨b, hb, hname⟩ := List.mem_map.mp hx
  exact hfresh b hb (hname ▸ List.mem_singleton_self _)

/-- **`set_abi` rules out unbounded resolution**: in an ABI it accepts, `resolve_type` ends at a
type that is not a typedef, the bases of every struct are finitely many distinct structs of the
ABI, and every type the ABI names reaches, through typedefs, a built-in type, a struct or a
variant -/
theorem abi_resolution_bounded {builtIns : List (String × BuiltIn)} {abi : AbiDef}
    (h : setAbi builtIns abi = .ok s) :
    (∀ t, s.typedefs.lookup (s.resolveType t) = none) ∧
    (∀ p ∈ s.structs, ∃ chain, s.BaseChain p.2 chain ∧ (chain.map (·.name)).Nodup) ∧
    ∀ t ∈ s.namedTypes, s.KnownType t := by
  obtain ⟨hv, hnamed⟩ := setAbi_eq_ok h
  refine ⟨resolveType_not_typedef hv, fun p hp => baseChain_of_validate hv hnamed hp, ?_⟩
  intro t ht
  exact knownType_of_isType (isType_of_checkType ((validate_eq_ok hv).2.2 t ht))

end AbiSerializer

/-- an ABI with a chain of typedefs, a struct whose base is a typedef, and an array of a
typedef -/
def chainAbi : AbiDef where
  version := "eosio::abi/1.1"
  types := [{ newTypeName := "byte", type := "uint8" }, { newTypeName := "octet", type := "byte" },
    { newTypeName := "root", type := "header" }]
  structs := [{ name := "header", fields := [{ name := "kind", type := "octet" }] },
    { name := "message", base := "root", fields := [{ name := "body", type := "byte[]" }] }]

theorem chainAbi_resolution_bounded : ∃ s, setAbi [("uint8", uint8)] chainAbi = .ok s ∧
    ((∀ t, s.typedefs.lookup (s.resolveType t) = none) ∧
    (∀ p ∈ s.structs, ∃ chain, s.BaseChain p.2 chain ∧ (chain.map (·.name)).Nodup) ∧
    ∀ t ∈ s.namedTypes, s.KnownType t) := by
  have hok : (setAbi [("uint8", uint8)] chainAbi).toOption.isSome = true := by decide +kernel
  cases h : setAbi [("uint8", uint8)] chainAbi with
  | ok s => exact ⟨s, rfl, AbiSerializer.abi_resolution_bounded h⟩
  | error e =>
    rw [h] at hok
    cases hok

end Eos.Abi
