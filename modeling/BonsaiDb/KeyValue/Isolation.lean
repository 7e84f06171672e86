import BonsaiDb.KeyValue.System

/-!
# Key/value — isolation between keys

`full_key` joins a namespace and a key with a `.`, a missing namespace giving the same full key
as the empty one. A key operation touches the `kv` tree at its full key alone and sends
expiration updates for it alone (`Pc.step_frame`), so an operation on one pair leaves every pair
with another full key as it was: its stored entry, hence what a `get` returns, and its expiration
tracking (`key_operations_isolated`).

Two different pairs share a full key when a namespace holds a `.`: `("a.b", "c")` and
`("a", "b.c")` are both `a.b.c` (`namespaced_keys_collide`). Pairs whose namespaces hold no `.`
share a full key only when they are equal (`fullKey_inj`).
-/

namespace BonsaiDb.KeyValue

theorem fullKey_eq (ns : Option String) (key : String) :
    fullKey ns key = ns.getD "" ++ "." ++ key := by
  cases ns <;> simp [fullKey]

/-- A `.` after a prefix without one marks where that prefix ends. -/
theorem append_dot_inj : ∀ {a₁ a₂ b₁ b₂ : List Char}, '.' ∉ a₁ → '.' ∉ a₂ →
    a₁ ++ '.' :: b₁ = a₂ ++ '.' :: b₂ → a₁ = a₂ ∧ b₁ = b₂
  | [], [], _, _, _, _, h => ⟨rfl, (List.cons.inj h).2⟩
  | [], c :: _, _, _, _, h₂, h =>
    absurd (by rw [← (List.cons.inj h).1]; exact List.mem_cons_self _ _) h₂
  | c :: _, [], _, _, h₁, _, h =>
    absurd (by rw [(List.cons.inj h).1]; exact List.mem_cons_self _ _) h₁
  | c :: a₁, d :: a₂, _, _, h₁, h₂, h =>
    have hcd := (List.cons.inj h).1
    have hrest := append_dot_inj (fun hm => h₁ (List.mem_cons_of_mem _ hm))
      (fun hm => h₂ (List.mem_cons_of_mem _ hm)) (List.cons.inj h).2
    ⟨hcd ▸ hrest.1 ▸ rfl, hrest.2⟩

/-- Pairs whose namespaces hold no `.` share a full key only when they are the same pair, a
missing namespace read as the empty one. -/
theorem fullKey_inj {ns₁ ns₂ : Option String} {key₁ key₂ : String}
    (h₁ : '.' ∉ (ns₁.getD "").toList) (h₂ : '.' ∉ (ns₂.getD "").toList)
    (h : fullKey ns₁ key₁ = fullKey ns₂ key₂) : ns₁.getD "" = ns₂.getD "" ∧ key₁ = key₂ := by
  rw [fullKey_eq, fullKey_eq] at h
  have hl := congrArg String.toList h
  simp only [String.toList, String.data_append] at hl
  obtain ⟨hns, hkey⟩ := append_dot_inj h₁ h₂ (by simpa using hl)
  exact ⟨String.ext hns, String.ext hkey⟩

/-- A step of an operation on one pair leaves every pair with another full key as it was: its
entry in the tree, which is all a `get` of it reads, and its expiration tracking, which the
updates the step sends do not touch. -/
theorem key_operations_isolated {ns₁ ns₂ : Option String} {key₁ key₂ : String}
    (hne : fullKey ns₁ key₁ ≠ fullKey ns₂ key₂) {pc pc' : Pc} {tree tree' : Tree}
    {sent : List ExpirationUpdate} (h : pc.step (fullKey ns₁ key₁) tree = some (pc', tree', sent)) :
    tree'.get (fullKey ns₂ key₂) = tree.get (fullKey ns₂ key₂) ∧
      ∀ u ∈ sent, ∀ e : Expirer, (e.receive u).phase ≠ .panicked →
        (e.receive u).trackedKeys (fullKey ns₂ key₂) = e.trackedKeys (fullKey ns₂ key₂) := by
  obtain ⟨htree, hsent⟩ := Pc.step_frame h
  refine ⟨htree _ (Ne.symm hne), fun u hu e hp => ?_⟩
  rcases e.receive_cases u with hpanic | ⟨-, htracked⟩
  · exact absurd hpanic hp
  · rw [htracked, Function.update_noteq (by rw [hsent u hu]; exact Ne.symm hne)]

/-- The `compare_and_swap` attempt of a `set` of `[1]` on a key it found vacant. -/
def setAttempt : Pc :=
  .setSwap ⟨.bytes [1], none, false, none, false⟩ ⟨⟨.bytes [1], none⟩, false, false⟩ none

/-- A `set` on `("a", "b")` leaves the entry and the tracking of `(None, "b")` alone. -/
theorem setAttempt_isolated :
    ∃ pc' tree' sent, setAttempt.step (fullKey (some "a") "b") [] = some (pc', tree', sent) ∧
      Map.get tree' (fullKey none "b") = Map.get [] (fullKey none "b") :=
  have hstep : setAttempt.step (fullKey (some "a") "b") [] =
      some (.notify none (.status .inserted), [(fullKey (some "a") "b", ⟨.bytes [1], none⟩)], []) :=
    rfl
  ⟨_, _, _, hstep, (key_operations_isolated (by decide) hstep).1⟩

/-- `("a.b", "c")` and `("a", "b.c")` are different pairs with one full key: a `set` on the first
stores the entry a `get` of the second then returns. -/
theorem namespaced_keys_collide :
    ¬ ∀ (ns₁ ns₂ : Option String) (key₁ key₂ : String),
      (ns₁.getD "", key₁) ≠ (ns₂.getD "", key₂) →
      ∀ (pc pc' : Pc) (tree tree' : Tree) (sent : List ExpirationUpdate),
        pc.step (fullKey ns₁ key₁) tree = some (pc', tree', sent) →
        tree'.get (fullKey ns₂ key₂) = tree.get (fullKey ns₂ key₂) := fun h =>
  absurd (h (some "a.b") (some "a") "c" "b.c" (by decide) setAttempt _ [] _ _ rfl) (by decide)

end BonsaiDb.KeyValue
