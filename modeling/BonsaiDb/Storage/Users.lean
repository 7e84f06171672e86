import BonsaiDb.Storage.Registry
import Mathlib.Data.List.Nodup

/-!
# Storage — a user's groups and roles

`add_permission_group_to_user`, `remove_permission_group_from_user`, `add_role_to_user` and
`remove_role_from_user`, through the instance or through a handle, all run
`update_user_with_named_id`: it loads the user, resolves the other reference in one admin
collection, and stores the user its callback returns when the callback reports a change. The
`add_*_inner` functions push an id only when it is absent and the `remove_*_inner` ones drop
every copy, so no such call puts a duplicate in a user's lists, over any sequence of them
(`membership_changes_keep_lists_nodup`).

`add_role_to_user` resolves its reference in the `PermissionGroup` collection where
`remove_role_from_user` resolves it in `Role`: a role named by name is added under the id of the
permission group of that name (`add_role_by_name_stores_group_id`).
-/

namespace BonsaiDb.Local

/-! ## No duplicates -/

theorem addIdInner_nodup {ids : List Nat} (h : ids.Nodup) (id : Nat) :
    (addIdInner ids id).2.Nodup := by
  unfold addIdInner
  split_ifs with hid
  · exact h
  · simpa using h.concat hid

theorem removeIdInner_nodup {ids : List Nat} (h : ids.Nodup) (id : Nat) :
    (removeIdInner ids id).2.Nodup :=
  h.filter _

/-- A user's groups and roles, each without duplicates. -/
def ListsNodup (u : User) : Prop :=
  u.groups.Nodup ∧ u.roles.Nodup

/-- Every user's groups and roles, each without duplicates. -/
def UserListsNodup (d : Data) : Prop :=
  ∀ u ∈ d.users, ListsNodup u

/-- A callback of `update_user_with_named_id` that stores no duplicate into a user's lists. -/
def KeepsNodup (callback : User → Nat → Except Error (Bool × User)) : Prop :=
  ∀ u id changed u', callback u id = .ok (changed, u') → ListsNodup u → ListsNodup u'

namespace StorageInstance

theorem mem_users_of_loadUser {d : Data} {user : NamedReference} {u : User}
    (h : loadUser d user = some u) : u ∈ d.users := by
  cases user <;> exact List.mem_of_find?_eq_some h

/-- The four `*_inner` functions, as the instance's callbacks, store no duplicate. -/
theorem keepsNodup_inner {inner : User → Nat → Bool × User}
    (hinner : ∀ u id, ListsNodup u → ListsNodup (inner u id).2) :
    KeepsNodup fun u id => .ok (inner u id) := by
  intro u id changed u' h hu
  rw [show u' = (inner u id).2 by simp [Except.ok.inj h]]
  exact hinner u id hu

theorem addPermissionGroupToUserInner_nodup (u : User) (id : Nat) (h : ListsNodup u) :
    ListsNodup (addPermissionGroupToUserInner u id).2 :=
  ⟨addIdInner_nodup h.1 id, h.2⟩

theorem removePermissionGroupFromUserInner_nodup (u : User) (id : Nat) (h : ListsNodup u) :
    ListsNodup (removePermissionGroupFromUserInner u id).2 :=
  ⟨removeIdInner_nodup h.1 id, h.2⟩

theorem addRoleToUserInner_nodup (u : User) (id : Nat) (h : ListsNodup u) :
    ListsNodup (addRoleToUserInner u id).2 :=
  ⟨h.1, addIdInner_nodup h.2 id⟩

theorem removeRoleFromUserInner_nodup (u : User) (id : Nat) (h : ListsNodup u) :
    ListsNodup (removeRoleFromUserInner u id).2 :=
  ⟨h.1, removeIdInner_nodup h.2 id⟩

end StorageInstance

/-- The handles' callbacks check a permission, then run the instance's. -/
theorem Storage.keepsNodup_checkedCallback (st : Storage) (action : ServerAction)
    {inner : User → Nat → Bool × User}
    (hinner : ∀ u id, ListsNodup u → ListsNodup (inner u id).2) :
    KeepsNodup (Storage.checkedCallback st action inner) := by
  intro u id changed u' h hu
  unfold Storage.checkedCallback at h
  split at h
  · cases h
  · rw [show u' = (inner u id).2 by simp [Except.ok.inj h]]
    exact hinner u id hu

namespace UserListsNodup

variable {d : Data}

theorem admin (h : UserListsNodup d) : UserListsNodup (StorageInstance.admin d) := by
  simpa [UserListsNodup, StorageInstance.admin] using h

theorem replaceUser (h : UserListsNodup d) {u : User} (hu : ListsNodup u) :
    UserListsNodup (StorageInstance.replaceUser d u) := by
  intro v hv
  obtain ⟨w, hw, rfl⟩ := List.mem_map.mp hv
  split_ifs
  · exact hu
  · exact h w hw

/-- `update_user_with_named_id` stores the loaded user as its callback returns it. -/
theorem updateUserWithNamedId (h : UserListsNodup d) (docs : Data → List NamedDocument)
    (user other : NamedReference) {callback : User → Nat → Except Error (Bool × User)}
    (hcb : KeepsNodup callback) :
    UserListsNodup (StorageInstance.updateUserWithNamedId docs d user other callback).2 := by
  have ha := h.admin
  unfold StorageInstance.updateUserWithNamedId
  dsimp only
  split
  · next u id hu _ =>
    split
    · exact ha
    · next changed u' hcbu =>
      split
      · exact ha.replaceUser (hcb u id changed u' hcbu
          (ha u (StorageInstance.mem_users_of_loadUser hu)))
      · exact ha
  · exact ha

end UserListsNodup

/-- The calls that add or remove a permission group or a role. -/
def StorageCall.ChangesMembership : StorageCall → Prop
  | .addPermissionGroupToUser _ _ | .removePermissionGroupFromUser _ _
  | .addRoleToUser _ _ | .removeRoleFromUser _ _ => True
  | _ => False

/-- The states reached from `d₀` by adding and removing groups and roles, through the instance
or any handle, in any order. -/
inductive MembershipReach (c : Collaborators) (d₀ : Data) : Data → Prop where
  | start : MembershipReach c d₀ d₀
  | onInstance {d d' : Data} (call : StorageCall) : MembershipReach c d₀ d →
    call.ChangesMembership → call.onInstance c d = some d' → MembershipReach c d₀ d'
  | onStorage {d : Data} (st : Storage) (call : StorageCall) : MembershipReach c d₀ d →
    call.ChangesMembership → MembershipReach c d₀ (call.onStorage c d st)

namespace UserListsNodup

variable {c : Collaborators} {d : Data} {call : StorageCall}

theorem onInstance (h : UserListsNodup d) (hcall : call.ChangesMembership) {d' : Data}
    (hd : call.onInstance c d = some d') : UserListsNodup d' := by
  cases call <;> simp only [StorageCall.ChangesMembership] at hcall <;> cases hd
  case addPermissionGroupToUser =>
    exact h.updateUserWithNamedId _ _ _ (StorageInstance.keepsNodup_inner
      StorageInstance.addPermissionGroupToUserInner_nodup)
  case removePermissionGroupFromUser =>
    exact h.updateUserWithNamedId _ _ _ (StorageInstance.keepsNodup_inner
      StorageInstance.removePermissionGroupFromUserInner_nodup)
  case addRoleToUser =>
    exact h.updateUserWithNamedId _ _ _ (StorageInstance.keepsNodup_inner
      StorageInstance.addRoleToUserInner_nodup)
  case removeRoleFromUser =>
    exact h.updateUserWithNamedId _ _ _ (StorageInstance.keepsNodup_inner
      StorageInstance.removeRoleFromUserInner_nodup)

theorem onStorage (h : UserListsNodup d) (st : Storage) (hcall : call.ChangesMembership) :
    UserListsNodup (call.onStorage c d st) := by
  cases call <;> simp only [StorageCall.ChangesMembership] at hcall
  case addPermissionGroupToUser =>
    exact h.updateUserWithNamedId _ _ _ (Storage.keepsNodup_checkedCallback st _
      StorageInstance.addPermissionGroupToUserInner_nodup)
  case removePermissionGroupFromUser =>
    exact h.updateUserWithNamedId _ _ _ (Storage.keepsNodup_checkedCallback st _
      StorageInstance.removePermissionGroupFromUserInner_nodup)
  case addRoleToUser =>
    exact h.updateUserWithNamedId _ _ _ (Storage.keepsNodup_checkedCallback st _
      StorageInstance.addRoleToUserInner_nodup)
  case removeRoleFromUser =>
    exact h.updateUserWithNamedId _ _ _ (Storage.keepsNodup_checkedCallback st _
      StorageInstance.removeRoleFromUserInner_nodup)

end UserListsNodup

/-- Adding and removing groups and roles never puts a duplicate in a user's lists. -/
theorem membership_changes_keep_lists_nodup {c : Collaborators} {d₀ d : Data}
    (h : MembershipReach c d₀ d) (h₀ : UserListsNodup d₀) : UserListsNodup d := by
  induction h with
  | start => exact h₀
  | onInstance call _ hcall hd ih => exact ih.onInstance hcall hd
  | onStorage st call _ hcall ih => exact ih.onStorage st hcall

/-! ## A role named like a permission group -/

/-- A disk whose admin directory `db/_admin` holds user `u1` (id 1, in no group and with no
role), the permission group `editors` with id 7, and the role `editors` with id 2. -/
def editorsDisk : Disk :=
  ⟨[["db"], ["db", "_admin"]], [], [⟨1, "u1", [], [], none⟩], [⟨7, "editors"⟩], [⟨2, "editors"⟩]⟩

/-- The state `Storage::open freshConfig` reaches on `editorsDisk`. -/
def editorsStorage : Data :=
  match Storage.open freshConfig editorsDisk with
  | .ok d => d
  | .error _ => freshStorage

/-- Adding the role `editors` to user 1 by name, then removing it by name: the add stores 7, the
id of the permission group `editors`, where the role's id is 2, and the remove looks for 2 and
leaves 7. The user ends with a role id it was never given, through the instance and through a
handle alike. -/
theorem add_role_by_name_stores_group_id :
    Storage.open freshConfig editorsDisk = .ok editorsStorage ∧
      (StorageInstance.loadUser editorsStorage (.id 1)).map (·.roles) = some [] ∧
      (StorageInstance.loadUser
        (StorageInstance.addRoleToUser editorsStorage (.id 1) (.name "editors")).2
        (.id 1)).map (·.roles) = some [7] ∧
      (StorageInstance.loadUser
        (StorageInstance.removeRoleFromUser
          (StorageInstance.addRoleToUser editorsStorage (.id 1) (.name "editors")).2
          (.id 1) (.name "editors")).2 (.id 1)).map (·.roles) = some [7] ∧
      (StorageInstance.loadUser
        (Storage.ofInstance.removeRoleFromUser
          (Storage.ofInstance.addRoleToUser editorsStorage (.id 1) (.name "editors")).2
          (.id 1) (.name "editors")).2 (.id 1)).map (·.roles) = some [7] :=
  ⟨rfl, rfl, rfl, rfl, rfl⟩

/-- The add and the remove above, through the instance, leave user 1's lists without
duplicates. -/
theorem editors_role_round_keeps_lists_nodup :
    MembershipReach plainCollaborators editorsStorage
        (StorageInstance.removeRoleFromUser
          (StorageInstance.addRoleToUser editorsStorage (.id 1) (.name "editors")).2
          (.id 1) (.name "editors")).2 ∧
      UserListsNodup editorsStorage ∧
      UserListsNodup (StorageInstance.removeRoleFromUser
        (StorageInstance.addRoleToUser editorsStorage (.id 1) (.name "editors")).2
        (.id 1) (.name "editors")).2 :=
  have hrun := MembershipReach.onInstance (.removeRoleFromUser (.id 1) (.name "editors"))
    (.onInstance (.addRoleToUser (.id 1) (.name "editors")) .start trivial rfl) trivial rfl
  have h₀ : UserListsNodup editorsStorage := by
    unfold UserListsNodup ListsNodup
    decide
  ⟨hrun, h₀, membership_changes_keep_lists_nodup hrun h₀⟩

end BonsaiDb.Local
