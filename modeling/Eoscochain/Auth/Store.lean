import Mathlib.Data.List.Nodup
import Eoscochain.Auth.Native
import Eoscochain.Lib.Run

/-!
# The permission store over runs

`PermissionForest`: the permissions of every account form a tree under `parent`, rooted at the
account's `owner`.  A parent is an older permission of the same account, so a walk up the
parents ends, and `permission_object::satisfies` terminates (`satisfies_isSome`).  Every
native action keeps the forest (`step_permissionForest`), from the genesis store on
(`permissionForest_reachable`).

Links are another matter: `linkauth` accepts a requirement that names a permission of any
account, so a link may name a permission its account does not have, and every action it
governs then fails its authorization check (`linkauth_requires_missing_permission`).
-/

set_option linter.unusedSectionVars false

namespace Eos.Auth

open Machine

/-! ## Queries -/

theorem getPermission_eq_ok {m : AuthStore} {level : PermissionLevel} {p : PermissionObject}
    (h : m.getPermission level = .ok p) :
    p ∈ m.permissions ∧ p.owner = level.actor ∧ p.name = level.permission ∧ level.actor ≠ 0 := by
  unfold AuthStore.getPermission AuthStore.findPermission at h
  obtain ⟨o, ho, h⟩ := bind_eq_ok.mp h
  obtain ⟨hne, ho⟩ := assert_bind_eq_ok.mp ho
  cases ho
  split at h
  · next q hq =>
    cases h
    have hfind := List.find?_some hq
    simp only [Bool.and_eq_true, beq_iff_eq, bne_iff_ne] at hfind hne
    exact ⟨List.mem_of_find?_eq_some hq, hfind.1, hfind.2, hne.1⟩
  · cases h

theorem createPermission_eq_ok {m m' : AuthStore} {account name parent : Nat} {auth : Authority}
    {p : PermissionObject} (h : m.createPermission account name parent auth = .ok (m', p)) :
    (∀ q ∈ m.permissions, q.owner = account → q.name ≠ name) ∧
      p = { id := m.nextPermissionId, parent, owner := account, name, auth } ∧
      m' = { m with permissions := m.permissions ++ [p], nextPermissionId := m.nextPermissionId + 1 } := by
  unfold AuthStore.createPermission at h
  obtain ⟨hnew, h⟩ := assert_bind_eq_ok.mp h
  cases h
  refine ⟨fun q hq ho hn => ?_, rfl, rfl⟩
  simp only [Bool.not_eq_true', List.any_eq_false, Bool.and_eq_true, beq_iff_eq, not_and] at hnew
  exact hnew q hq ho hn

/-! ## The invariant -/

/-- the permissions form one tree an account, under the object reserving id 0: ids are
unique and below the next one, a parent is an older permission of the same account, and the
roots are exactly the `owner` permissions, one an account -/
structure PermissionForest (m : AuthStore) : Prop where
  reserved : ∃ d ∈ m.permissions, d.id = 0 ∧ d.parent = 0 ∧ d.owner = 0
  idsUnique : (m.permissions.map (·.id)).Nodup
  idLt : ∀ p ∈ m.permissions, p.id < m.nextPermissionId
  parentLt : ∀ p ∈ m.permissions, p.parent ≠ 0 → p.parent < p.id
  parentOf : ∀ p ∈ m.permissions, p.parent ≠ 0 →
    ∃ q ∈ m.permissions, q.id = p.parent ∧ q.owner = p.owner
  root : ∀ p ∈ m.permissions, p.id ≠ 0 → (p.parent = 0 ↔ p.name = ownerName)
  namesUnique : ∀ p ∈ m.permissions, ∀ q ∈ m.permissions,
    p.owner = q.owner → p.name = q.name → p.id = q.id

namespace PermissionForest

variable {m : AuthStore}

theorem eq_of_id (hf : PermissionForest m) {p q : PermissionObject} (hp : p ∈ m.permissions)
    (hq : q ∈ m.permissions) (h : p.id = q.id) : p = q :=
  List.inj_on_of_nodup_map hf.idsUnique hp hq h

theorem id_ne_zero (hf : PermissionForest m) {p : PermissionObject} (hp : p ∈ m.permissions)
    (howner : p.owner ≠ 0) : p.id ≠ 0 := by
  obtain ⟨d, hd, hd0, -, hdo⟩ := hf.reserved
  intro h0
  rw [hf.eq_of_id hp hd (h0.trans hd0.symm)] at howner
  exact howner hdo

theorem nextPermissionId_pos (hf : PermissionForest m) : 0 < m.nextPermissionId := by
  obtain ⟨d, hd, -⟩ := hf.reserved
  exact Nat.lt_of_le_of_lt (Nat.zero_le _) (hf.idLt d hd)

theorem of_permissions {m' : AuthStore} (hf : PermissionForest m)
    (hp : m'.permissions = m.permissions) (hn : m'.nextPermissionId = m.nextPermissionId) :
    PermissionForest m' := by
  obtain ⟨accounts, _, links, _⟩ := m'
  dsimp only at hp hn
  subst hp hn
  exact ⟨hf.reserved, hf.idsUnique, hf.idLt, hf.parentLt, hf.parentOf, hf.root, hf.namesUnique⟩

theorem create {m' : AuthStore} {account name parent : Nat} {auth : Authority} {p : PermissionObject}
    (hf : PermissionForest m) (h : m.createPermission account name parent auth = .ok (m', p))
    (hroot : parent = 0 ↔ name = ownerName)
    (hparent : parent ≠ 0 → ∃ q ∈ m.permissions, q.id = parent ∧ q.owner = account) :
    PermissionForest m' := by
  obtain ⟨hnew, rfl, rfl⟩ := createPermission_eq_ok h
  have hfresh : m.nextPermissionId ∉ m.permissions.map (·.id) := fun hmem => by
    obtain ⟨q, hq, hqid⟩ := List.mem_map.mp hmem
    exact absurd (hf.idLt q hq) (by omega)
  refine ⟨?_, ?_, ?_, ?_, ?_, ?_, ?_⟩
  · obtain ⟨d, hd, hdd⟩ := hf.reserved
    exact ⟨d, List.mem_append_left _ hd, hdd⟩
  · rw [List.map_append]
    refine List.nodup_append.mpr ⟨hf.idsUnique, List.nodup_singleton _, fun a ha b hb hab => ?_⟩
    rw [List.map_singleton, List.mem_singleton] at hb
    subst hb hab
    exact hfresh ha
  · intro q hq
    rcases List.mem_append.mp hq with hq | hq
    · exact Nat.lt_succ_of_lt (hf.idLt q hq)
    · rw [List.mem_singleton.mp hq]
      exact Nat.lt_succ_self _
  · intro q hq hq0
    rcases List.mem_append.mp hq with hq | hq
    · exact hf.parentLt q hq hq0
    · rw [List.mem_singleton.mp hq] at hq0 ⊢
      obtain ⟨r, hr, hrid, -⟩ := hparent hq0
      exact hrid ▸ hf.idLt r hr
  · intro q hq hq0
    rcases List.mem_append.mp hq with hq | hq
    · obtain ⟨r, hr, hrr⟩ := hf.parentOf q hq hq0
      exact ⟨r, List.mem_append_left _ hr, hrr⟩
    · rw [List.mem_singleton.mp hq] at hq0 ⊢
      obtain ⟨r, hr, hrr⟩ := hparent hq0
      exact ⟨r, List.mem_append_left _ hr, hrr⟩
  · intro q hq hq0
    rcases List.mem_append.mp hq with hq | hq
    · exact hf.root q hq hq0
    · rw [List.mem_singleton.mp hq]
      exact hroot
  · intro q hq r hr howner hname
    rcases List.mem_append.mp hq with hq | hq <;> rcases List.mem_append.mp hr with hr | hr
    · exact hf.namesUnique q hq r hr howner hname
    · rw [List.mem_singleton.mp hr] at howner hname
      exact absurd hname (hnew q hq howner)
    · rw [List.mem_singleton.mp hq] at howner hname
      exact absurd hname.symm (hnew r hr howner.symm)
    · rw [List.mem_singleton.mp hq, List.mem_singleton.mp hr]

theorem map_auth {m' : AuthStore} {f : PermissionObject → PermissionObject} (hf : PermissionForest m)
    (hmap : m'.permissions = m.permissions.map f) (hn : m'.nextPermissionId = m.nextPermissionId)
    (hfid : ∀ q, (f q).id = q.id) (hfparent : ∀ q, (f q).parent = q.parent)
    (hfowner : ∀ q, (f q).owner = q.owner) (hfname : ∀ q, (f q).name = q.name) :
    PermissionForest m' := by
  obtain ⟨accounts, _, links, _⟩ := m'
  dsimp only at hmap hn
  subst hmap hn
  have hids : (m.permissions.map f).map (·.id) = m.permissions.map (·.id) := by
    rw [List.map_map]
    exact List.map_congr_left fun q _ => hfid q
  refine ⟨?_, ?_, ?_, ?_, ?_, ?_, ?_⟩ <;> dsimp only
  · obtain ⟨d, hd, hdd⟩ := hf.reserved
    exact ⟨f d, List.mem_map_of_mem hd, by rw [hfid, hfparent, hfowner]; exact hdd⟩
  · rw [hids]
    exact hf.idsUnique
  · rw [List.forall_mem_map]
    intro q hq
    rw [hfid]
    exact hf.idLt q hq
  · rw [List.forall_mem_map]
    intro q hq hq0
    rw [hfparent] at hq0
    rw [hfid, hfparent]
    exact hf.parentLt q hq hq0
  · rw [List.forall_mem_map]
    intro q hq hq0
    rw [hfparent] at hq0
    obtain ⟨r, hr, hrid, hro⟩ := hf.parentOf q hq hq0
    exact ⟨f r, List.mem_map_of_mem hr, by rw [hfid, hfparent, hrid], by rw [hfowner, hfowner, hro]⟩
  · rw [List.forall_mem_map]
    intro q hq hq0
    rw [hfid] at hq0
    rw [hfparent, hfname]
    exact hf.root q hq hq0
  · rw [List.forall_mem_map]
    intro q hq
    rw [List.forall_mem_map]
    intro r hr howner hname
    rw [hfowner, hfowner] at howner
    rw [hfname, hfname] at hname
    rw [hfid, hfid]
    exact hf.namesUnique q hq r hr howner hname

theorem remove {m' : AuthStore} {p : PermissionObject} (hf : PermissionForest m)
    (hp0 : p.id ≠ 0) (h : m.removePermission p = .ok m') : PermissionForest m' := by
  unfold AuthStore.removePermission at h
  obtain ⟨hleaf, h⟩ := assert_bind_eq_ok.mp h
  cases h
  simp only [Bool.not_eq_true', List.any_eq_false, beq_iff_eq] at hleaf
  have hsub : ∀ {q}, q ∈ m.permissions.filter (·.id != p.id) → q ∈ m.permissions :=
    fun hq => (List.mem_filter.mp hq).1
  refine ⟨?_, ?_, ?_, ?_, ?_, ?_, ?_⟩
  · obtain ⟨d, hd, hd0, hdd⟩ := hf.reserved
    refine ⟨d, List.mem_filter.mpr ⟨hd, ?_⟩, hd0, hdd⟩
    simp only [bne_iff_ne, ne_eq, hd0]
    exact fun h => hp0 h.symm
  · exact hf.idsUnique.sublist ((List.filter_sublist).map _)
  · exact fun q hq => hf.idLt q (hsub hq)
  · exact fun q hq => hf.parentLt q (hsub hq)
  · intro q hq hq0
    obtain ⟨r, hr, hrid, hro⟩ := hf.parentOf q (hsub hq) hq0
    refine ⟨r, List.mem_filter.mpr ⟨hr, ?_⟩, hrid, hro⟩
    simp only [bne_iff_ne, ne_eq, hrid]
    exact hleaf q (hsub hq)
  · exact fun q hq => hf.root q (hsub hq)
  · exact fun q hq r hr => hf.namesUnique q (hsub hq) r (hsub hr)

end PermissionForest

/-! ## The actions -/

section Actions
variable {m m' : AuthStore} {ctx : NativeContext}

theorem createAccountPermissions_permissionForest {name : Nat} {owner active : Authority}
    (hf : PermissionForest m) (h : m.createAccountPermissions name owner active = .ok m') :
    PermissionForest m' := by
  unfold AuthStore.createAccountPermissions at h
  obtain ⟨⟨m1, op⟩, h1, h⟩ := bind_eq_ok.mp h
  obtain ⟨⟨m2, ap⟩, h2, h⟩ := bind_eq_ok.mp h
  cases h
  have hf1 := hf.create h1 (iff_of_true rfl rfl) (fun h0 => absurd rfl h0)
  obtain ⟨-, rfl, rfl⟩ := createPermission_eq_ok h1
  refine hf1.create h2 ?_ ?_
  · -- `active` is not `owner`, and its parent, the new owner, is not the reserved object
    exact iff_of_false (Nat.ne_of_gt hf.nextPermissionId_pos) (by decide)
  · exact fun _ => ⟨_, List.mem_append_right _ (List.mem_singleton_self _), rfl, rfl⟩

theorem newaccount_permissionForest {create : NewAccount} (hf : PermissionForest m)
    (h : m.newaccount ctx create = .ok m') : PermissionForest m' := by
  unfold AuthStore.newaccount at h
  obtain ⟨-, -, h⟩ := bind_eq_ok.mp h
  obtain ⟨-, h⟩ := assert_bind_eq_ok.mp h
  obtain ⟨-, h⟩ := assert_bind_eq_ok.mp h
  obtain ⟨-, h⟩ := assert_bind_eq_ok.mp h
  obtain ⟨-, h⟩ := assert_bind_eq_ok.mp h
  obtain ⟨_, -, h⟩ := bind_eq_ok.mp h
  obtain ⟨-, h⟩ := assert_bind_eq_ok.mp h
  obtain ⟨-, h⟩ := assert_bind_eq_ok.mp h
  dsimp only at h
  obtain ⟨-, -, h⟩ := bind_eq_ok.mp h
  obtain ⟨-, -, h⟩ := bind_eq_ok.mp h
  refine createAccountPermissions_permissionForest ?_ h
  exact hf.of_permissions rfl rfl

theorem updateauth_permissionForest {update : UpdateAuth} (hf : PermissionForest m)
    (h : m.updateauth ctx update = .ok m') : PermissionForest m' := by
  unfold AuthStore.updateauth at h
  obtain ⟨-, -, h⟩ := bind_eq_ok.mp h
  obtain ⟨-, h⟩ := assert_bind_eq_ok.mp h
  obtain ⟨-, h⟩ := assert_bind_eq_ok.mp h
  obtain ⟨-, h⟩ := assert_bind_eq_ok.mp h
  obtain ⟨-, -, h⟩ := bind_eq_ok.mp h
  obtain ⟨-, h⟩ := assert_bind_eq_ok.mp h
  obtain ⟨-, h⟩ := assert_bind_eq_ok.mp h
  obtain ⟨-, -, h⟩ := bind_eq_ok.mp h
  obtain ⟨-, h⟩ := assert_bind_eq_ok.mp h
  obtain ⟨-, -, h⟩ := bind_eq_ok.mp h
  obtain ⟨permission, -, h⟩ := bind_eq_ok.mp h
  obtain ⟨parent, hparent, h⟩ := bind_eq_ok.mp h
  split at h
  · -- an existing permission gets a new authority
    obtain ⟨-, h⟩ := assert_bind_eq_ok.mp h
    cases h
    exact hf.map_auth rfl rfl (fun _ => by split <;> rfl) (fun _ => by split <;> rfl)
      (fun _ => by split <;> rfl) (fun _ => by split <;> rfl)
  · obtain ⟨⟨m1, p⟩, hcreate, h⟩ := map_eq_ok.mp h
    cases h
    unfold AuthStore.parentId at hparent
    split at hparent
    · -- a new `owner`, with no parent
      next howner =>
      cases hparent
      exact hf.create hcreate (iff_of_true rfl howner) (fun h0 => absurd rfl h0)
    · -- a new permission under a permission of the same account
      next hnot =>
      obtain ⟨q, hq, rfl⟩ := map_eq_ok.mp hparent
      obtain ⟨hqm, hqo, -, hact⟩ := getPermission_eq_ok hq
      have hq0 : q.id ≠ 0 := hf.id_ne_zero hqm (hqo ▸ hact)
      exact hf.create hcreate (iff_of_false hq0 hnot) fun _ => ⟨q, hqm, rfl, hqo⟩

theorem deleteauth_permissionForest {remove : DeleteAuth} (hf : PermissionForest m)
    (h : m.deleteauth ctx remove = .ok m') : PermissionForest m' := by
  unfold AuthStore.deleteauth at h
  obtain ⟨-, -, h⟩ := bind_eq_ok.mp h
  obtain ⟨-, h⟩ := assert_bind_eq_ok.mp h
  obtain ⟨-, h⟩ := assert_bind_eq_ok.mp h
  obtain ⟨-, h⟩ := assert_bind_eq_ok.mp h
  obtain ⟨p, hp, h⟩ := bind_eq_ok.mp h
  obtain ⟨hpm, hpo, -, hact⟩ := getPermission_eq_ok hp
  exact hf.remove (hf.id_ne_zero hpm (hpo ▸ hact)) h

theorem linkauth_permissions {requirement : LinkAuth} (h : m.linkauth ctx requirement = .ok m') :
    m'.permissions = m.permissions ∧ m'.nextPermissionId = m.nextPermissionId := by
  unfold AuthStore.linkauth at h
  obtain ⟨-, h⟩ := assert_bind_eq_ok.mp h
  obtain ⟨-, -, h⟩ := bind_eq_ok.mp h
  obtain ⟨-, h⟩ := assert_bind_eq_ok.mp h
  obtain ⟨-, h⟩ := assert_bind_eq_ok.mp h
  obtain ⟨-, h⟩ := assert_bind_eq_ok.mp h
  split at h
  · obtain ⟨-, h⟩ := assert_bind_eq_ok.mp h
    cases h
    exact ⟨rfl, rfl⟩
  · cases h
    exact ⟨rfl, rfl⟩

theorem unlinkauth_permissions {unlink : UnlinkAuth} (h : m.unlinkauth ctx unlink = .ok m') :
    m'.permissions = m.permissions ∧ m'.nextPermissionId = m.nextPermissionId := by
  unfold AuthStore.unlinkauth at h
  obtain ⟨-, -, h⟩ := bind_eq_ok.mp h
  split at h
  · cases h
    exact ⟨rfl, rfl⟩
  · cases h

theorem applyNative_permissionForest {a : NativeAction} (hf : PermissionForest m)
    (h : m.applyNative ctx a = .ok m') : PermissionForest m' := by
  cases a with
  | newaccount c => exact newaccount_permissionForest hf h
  | updateauth u => exact updateauth_permissionForest hf h
  | deleteauth d => exact deleteauth_permissionForest hf h
  | linkauth l =>
    obtain ⟨hp, hn⟩ := linkauth_permissions h
    exact hf.of_permissions hp hn
  | unlinkauth u =>
    obtain ⟨hp, hn⟩ := unlinkauth_permissions h
    exact hf.of_permissions hp hn

theorem step_permissionForest {cfg : AuthConfig} {t : NativeTransaction} (hf : PermissionForest m)
    (h : step cfg m t = .ok m') : PermissionForest m' := by
  obtain ⟨-, -, h⟩ := bind_eq_ok.mp h
  exact applyNative_permissionForest hf h

end Actions

/-! ## Runs -/

theorem initial_permissionForest : PermissionForest AuthStore.initial := by
  refine ⟨⟨_, List.mem_singleton_self _, rfl, rfl, rfl⟩, List.nodup_singleton _, ?_, ?_, ?_, ?_, ?_⟩ <;>
    simp [AuthStore.initial]

theorem createNativeAccount_permissionForest {m m' : AuthStore} {name : Nat}
    {owner active : Authority} {privileged : Bool} (hf : PermissionForest m)
    (h : m.createNativeAccount name owner active privileged = .ok m') : PermissionForest m' := by
  unfold AuthStore.createNativeAccount at h
  dsimp only at h
  refine createAccountPermissions_permissionForest ?_ h
  exact hf.of_permissions rfl rfl

theorem genesis_permissionForest {k : Nat} {g : AuthStore} (h : AuthStore.genesis k = .ok g) :
    PermissionForest g := by
  unfold AuthStore.genesis at h
  obtain ⟨m1, h1, h⟩ := bind_eq_ok.mp h
  obtain ⟨m2, h2, h⟩ := bind_eq_ok.mp h
  obtain ⟨m3, h3, h⟩ := bind_eq_ok.mp h
  have hf3 := createNativeAccount_permissionForest (createNativeAccount_permissionForest
    (createNativeAccount_permissionForest initial_permissionForest h1) h2) h3
  obtain ⟨active, hactive, h⟩ := bind_eq_ok.mp h
  obtain ⟨⟨m4, majority⟩, h4, h⟩ := bind_eq_ok.mp h
  obtain ⟨⟨m5, minority⟩, h5, h⟩ := bind_eq_ok.mp h
  cases h
  obtain ⟨ham, hao, -, hact⟩ := getPermission_eq_ok hactive
  have hf4 := hf3.create h4 (iff_of_false (hf3.id_ne_zero ham (hao ▸ hact)) (by decide))
    fun _ => ⟨active, ham, rfl, hao⟩
  obtain ⟨-, rfl, rfl⟩ := createPermission_eq_ok h4
  exact hf4.create h5 (iff_of_false (Nat.ne_of_gt hf3.nextPermissionId_pos) (by decide))
    fun _ => ⟨_, List.mem_append_right _ (List.mem_singleton_self _), rfl, rfl⟩

/-- **The permission forest.**  In every store reached from genesis by native transactions,
the permissions of every account form a tree rooted at its `owner`. -/
theorem permissionForest_reachable {cfg : AuthConfig} {k : Nat} {g m : AuthStore}
    (hg : AuthStore.genesis k = .ok g) (h : Reachable (step cfg) g m) : PermissionForest m :=
  Reachable.inv PermissionForest (genesis_permissionForest hg)
    (fun _ _ _ hf hstep => step_permissionForest hf hstep) h

/-! ## `satisfies` terminates -/

theorem satisfiesLoop_isSome {m : AuthStore} (hf : PermissionForest m) (id : Nat) :
    ∀ (fuel pid : Nat), (∃ q ∈ m.permissions, q.id = pid) →
      (m.permissions.filter (·.id ≤ pid)).length < fuel →
      (satisfiesLoop m.permissions id fuel pid).isSome
  | 0, _, _, hfuel => absurd hfuel (Nat.not_lt_zero _)
  | fuel + 1, pid, ⟨q, hq, hqid⟩, hfuel => by
    unfold satisfiesLoop
    obtain ⟨parent, hfind⟩ : ∃ parent, m.permissions.find? (·.id == pid) = some parent :=
      Option.isSome_iff_exists.mp (List.find?_isSome.mpr ⟨q, hq, by simpa using hqid⟩)
    have hpm := List.mem_of_find?_eq_some hfind
    have hpid : parent.id = pid := by simpa using List.find?_some hfind
    rw [hfind]
    simp only
    split
    · rfl
    · split
      · rfl
      · next hne hp0 =>
        have hlt := hf.parentLt parent hpm hp0
        obtain ⟨r, hr, hrid, -⟩ := hf.parentOf parent hpm hp0
        have hsub : (m.permissions.filter (·.id ≤ parent.parent)).Sublist
            (m.permissions.filter (·.id ≤ pid)) :=
          List.monotone_filter_right _ fun x hx => by simp at hx ⊢; omega
        have hfewer : (m.permissions.filter (·.id ≤ parent.parent)).length
            < (m.permissions.filter (·.id ≤ pid)).length := by
          apply Nat.lt_of_le_of_ne hsub.length_le
          intro heq
          have hmem : parent ∈ m.permissions.filter (·.id ≤ parent.parent) := by
            rw [hsub.eq_of_length heq]
            exact List.mem_filter.mpr ⟨hpm, by simp [hpid]⟩
          have := (List.mem_filter.mp hmem).2
          simp only [decide_eq_true_eq] at this
          omega
        exact satisfiesLoop_isSome hf id fuel parent.parent ⟨r, hr, hrid⟩ (by omega)

/-- **`permission_object::satisfies` terminates** on every two permissions of a store that
keeps the forest. -/
theorem satisfies_isSome {m : AuthStore} (hf : PermissionForest m) {p q : PermissionObject}
    (hq : q ∈ m.permissions) : (p.satisfies q m.permissions).isSome := by
  unfold PermissionObject.satisfies
  split
  · rfl
  · split
    · rfl
    · apply satisfiesLoop_isSome hf p.id _ q.parent
      · -- the parent of `q` is a permission, or the reserved object
        by_cases h0 : q.parent = 0
        · obtain ⟨d, hd, hd0, -⟩ := hf.reserved
          exact ⟨d, hd, hd0.trans h0.symm⟩
        · obtain ⟨r, hr, hrid, -⟩ := hf.parentOf q hq h0
          exact ⟨r, hr, hrid⟩
      · exact Nat.lt_succ_of_le (List.length_filter_le _ _)

/-! ## A link to a permission of another account -/

def aliceName : Nat := stringToName "alice"
def bobName : Nat := stringToName "bob"
def fooName : Nat := stringToName "foo"
def transferName : Nat := stringToName "transfer"

/-- `eosio` (key `1`) creates `alice` (key `10`) and `bob` (key `20`); `bob` adds `bob@foo`
under its `active`; `alice` links `bob::transfer` to `foo`, a permission only `bob` has -/
def sampleLinkRun : List NativeTransaction := [
  { action := .newaccount ⟨systemAccountName, aliceName, .ofKey 10, .ofKey 10⟩,
    authorization := [⟨systemAccountName, activeName⟩], keys := [1] },
  { action := .newaccount ⟨systemAccountName, bobName, .ofKey 20, .ofKey 20⟩,
    authorization := [⟨systemAccountName, activeName⟩], keys := [1] },
  { action := .updateauth ⟨bobName, fooName, activeName, .ofKey 21⟩,
    authorization := [⟨bobName, activeName⟩], keys := [20] },
  { action := .linkauth ⟨aliceName, bobName, transferName, fooName⟩,
    authorization := [⟨aliceName, activeName⟩], keys := [10] }]

theorem linkauth_requires_missing_permission :
    ∃ g m, AuthStore.genesis 1 = .ok g ∧ Reachable (step defaultAuthConfig) g m ∧
      ∃ l ∈ m.links, l.requiredPermission ≠ eosioAnyName ∧
        (∀ p ∈ m.permissions, p.owner = l.account → p.name ≠ l.requiredPermission) ∧
        checkAuthorization m defaultAuthConfig []
            [{ body := .other l.code l.messageType, authorization := [⟨l.account, activeName⟩] }]
            [10] [] 0 false = .error "Failed to retrieve permission: ${level}" := by
  refine ⟨_, _, rfl, reachable_exec sampleLinkRun, ⟨aliceName, bobName, transferName, fooName⟩,
    by decide +kernel, by decide +kernel, by decide +kernel, by decide +kernel⟩

end Eos.Auth
