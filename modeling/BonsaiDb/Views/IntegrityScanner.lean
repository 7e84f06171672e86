import BonsaiDb.Core.Map
import Mathlib.Data.List.Basic
import Mathlib.Algebra.Group.Int

/-!
# Views — the integrity scan

`IntegrityScanner::execute` (`local/src/views/integrity_scanner.rs` 44–123), the part that runs in
`spawn_blocking`: it reads the ids of the collection's documents and the view's stored version;
when the version is the scan's it compares the ids with the keys of the view's document map, and
when some documents are missing, or the version is not the scan's, it writes the scan's version
and marks the missing documents invalidated, in one transaction. The `Mapper` job the scan then
waits for is left out.

* The keys of the document trees are `u64` ids in big-endian bytes: `asBigEndianBytes` and
  `fromBigEndianBytes` are inverse on ids below `2^64` and on keys of 8 bytes.
* `tree_keys` decodes every key of a tree and fails on the first that does not decode.
* A tree whose values nothing reads is its list of keys; the invalidated-docs tree keeps its
  values.
* Every document ends up mapped under the scan's version or invalidated with that version
  written (`integrity_scan_covers_documents`).
-/

namespace BonsaiDb.Views

/-! ## Big-endian ids -/

/-- The `width` low bytes of `n`, most significant first. -/
def toBigEndian : Nat → Nat → List UInt8
  | 0, _ => []
  | width + 1, n => toBigEndian width (n / 256) ++ [(n % 256).toUInt8]

/-- The number whose big-endian bytes are `bytes`. -/
def fromBigEndian (bytes : List UInt8) : Nat :=
  bytes.foldl (fun acc b => acc * 256 + b.toNat) 0

/-- `u64::as_big_endian_bytes`. -/
def asBigEndianBytes (n : Nat) : List UInt8 := toBigEndian 8 n

/-- `u64::from_big_endian_bytes`: fails unless there are exactly 8 bytes. -/
def fromBigEndianBytes (bytes : List UInt8) : Option Nat :=
  if bytes.length = 8 then some (fromBigEndian bytes) else none

theorem length_toBigEndian : ∀ width n, (toBigEndian width n).length = width
  | 0, _ => rfl
  | width + 1, n => by simp [toBigEndian, length_toBigEndian width]

theorem fromBigEndian_append_single (bytes : List UInt8) (b : UInt8) :
    fromBigEndian (bytes ++ [b]) = fromBigEndian bytes * 256 + b.toNat := by
  simp [fromBigEndian, List.foldl_append]

theorem fromBigEndian_toBigEndian : ∀ width n, fromBigEndian (toBigEndian width n) = n % 256 ^ width
  | 0, n => by simp [toBigEndian, fromBigEndian, Nat.mod_one]
  | width + 1, n => by
    rw [toBigEndian, fromBigEndian_append_single, fromBigEndian_toBigEndian width,
      Nat.pow_succ', Nat.mod_mul, UInt8.toNat_ofNat_of_lt (Nat.mod_lt _ (by decide)),
      show UInt8.size = 256 from rfl]
    omega

theorem toBigEndian_fromBigEndian (bytes : List UInt8) :
    toBigEndian bytes.length (fromBigEndian bytes) = bytes := by
  induction bytes using List.reverseRecOn with
  | nil => rfl
  | append_singleton bytes b ih =>
    have hb : b.toNat < 256 := b.toBitVec.isLt
    have hdiv : (fromBigEndian bytes * 256 + b.toNat) / 256 = fromBigEndian bytes := by omega
    have hmod : (fromBigEndian bytes * 256 + b.toNat) % 256 = b.toNat := by omega
    rw [List.length_append, List.length_singleton, toBigEndian, fromBigEndian_append_single, hdiv,
      ih, hmod, show b.toNat.toUInt8 = b from UInt8.toNat.inj (UInt8.toNat_ofNat_of_lt hb)]

/-- Every `u64` decodes from its bytes. -/
@[simp] theorem fromBigEndianBytes_asBigEndianBytes {n : Nat} (h : n < 2^64) :
    fromBigEndianBytes (asBigEndianBytes n) = some n := by
  simp only [fromBigEndianBytes, asBigEndianBytes, length_toBigEndian, if_true,
    fromBigEndian_toBigEndian]
  exact congrArg some (Nat.mod_eq_of_lt h)

/-- A key that decodes is the bytes of what it decodes to. -/
theorem asBigEndianBytes_of_decode {bytes : List UInt8} {n : Nat}
    (h : fromBigEndianBytes bytes = some n) : asBigEndianBytes n = bytes := by
  unfold fromBigEndianBytes at h
  split at h
  · next hlength =>
    cases h
    rw [asBigEndianBytes, ← hlength, toBigEndian_fromBigEndian]
  · cases h

/-! ## Trees -/

/-- `tree_keys`: the ids of the keys of a tree, or `none` when a key does not decode. -/
def treeKeys (keys : List (List UInt8)) : Option (List Nat) :=
  keys.mapM fromBigEndianBytes

theorem mem_treeKeys : ∀ {keys : List (List UInt8)} {ids : List Nat}, treeKeys keys = some ids →
    ∀ id, id ∈ ids ↔ ∃ key ∈ keys, fromBigEndianBytes key = some id
  | [], ids, h, id => by cases h; simp
  | key :: keys, ids, h, id => by
    simp only [treeKeys, List.mapM_cons, Option.bind_eq_bind, Option.bind_eq_some,
      Option.pure_def, Option.some.injEq] at h
    obtain ⟨first, hfirst, rest, hrest, rfl⟩ := h
    rw [List.mem_cons, List.exists_mem_cons_iff, mem_treeKeys hrest id, hfirst,
      Option.some.injEq, @eq_comm _ first]

/-- Every key of a tree whose `tree_keys` succeeded decodes to one of its ids. -/
theorem decode_of_treeKeys : ∀ {keys : List (List UInt8)} {ids : List Nat},
    treeKeys keys = some ids → ∀ key ∈ keys, ∃ id ∈ ids, fromBigEndianBytes key = some id
  | [], _, _, _, hkey => absurd hkey (List.not_mem_nil _)
  | key :: keys, ids, h, k, hk => by
    simp only [treeKeys, List.mapM_cons, Option.bind_eq_bind, Option.bind_eq_some,
      Option.pure_def, Option.some.injEq] at h
    obtain ⟨first, hfirst, rest, hrest, rfl⟩ := h
    rcases List.mem_cons.mp hk with rfl | hk
    · exact ⟨first, List.mem_cons_self _ _, hfirst⟩
    · obtain ⟨id, hid, hdecode⟩ := decode_of_treeKeys hrest k hk
      exact ⟨id, List.mem_cons_of_mem _ hid, hdecode⟩

/-- An unversioned tree keyed by bytes, with one binding per key. -/
abbrev ByteTree := List (List UInt8 × List UInt8)

/-- `Tree::set`. -/
def ByteTree.set (t : ByteTree) (key value : List UInt8) : ByteTree :=
  (key, value) :: t.filter (fun p => p.1 != key)

theorem ByteTree.mem_keys_set {t : ByteTree} {key value k : List UInt8} :
    k ∈ (t.set key value).map Prod.fst ↔ k = key ∨ k ∈ t.map Prod.fst := by
  simp only [ByteTree.set, List.map_cons, List.mem_cons, List.mem_map, List.mem_filter,
    bne_iff_ne, ne_eq]
  constructor
  · rintro (rfl | ⟨p, ⟨hp, -⟩, rfl⟩)
    · exact .inl rfl
    · exact .inr ⟨p, hp, rfl⟩
  · rintro (rfl | ⟨p, hp, rfl⟩)
    · exact .inl rfl
    · by_cases hk : p.1 = key
      · exact .inl hk
      · exact .inr ⟨p, ⟨hp, hk⟩, rfl⟩

/-- The invalidated-docs tree after the scan's loop sets every id of `ids`. -/
theorem mem_keys_invalidate : ∀ (ids : List Nat) (t : ByteTree) (k : List UInt8),
    k ∈ (ids.foldl (fun t id => t.set (asBigEndianBytes id) []) t).map Prod.fst ↔
      (∃ id ∈ ids, asBigEndianBytes id = k) ∨ k ∈ t.map Prod.fst
  | [], t, k => by simp
  | id :: ids, t, k => by
    rw [List.foldl_cons, mem_keys_invalidate ids, ByteTree.mem_keys_set, List.exists_mem_cons_iff,
      @eq_comm _ k (asBigEndianBytes id)]
    exact or_left_comm.trans or_assoc.symm

/-! ## The scan -/

/-- The trees the scan reads and writes: the keys of the collection's document tree, the view
versions by view name, the keys of the view's document map, and the invalidated-docs tree. -/
structure ScanTrees where
  documents : List (List UInt8)
  viewVersions : Map (List UInt8)
  documentMap : List (List UInt8)
  invalidatedDocs : ByteTree

/-- `view_is_current_version` (lines 78–87): whether the stored version of the view decodes to
the scan's. -/
def viewIsCurrentVersion (viewVersions : Map (List UInt8)) (viewName : String)
    (viewVersion : Nat) : Bool :=
  match viewVersions.get viewName with
  | some version =>
    match fromBigEndianBytes version with
    | some version => version == viewVersion
    | none => false
  | none => false

theorem viewIsCurrentVersion_iff {viewVersions : Map (List UInt8)} {viewName : String}
    {viewVersion : Nat} : viewIsCurrentVersion viewVersions viewName viewVersion = true ↔
      (viewVersions.get viewName).bind fromBigEndianBytes = some viewVersion := by
  unfold viewIsCurrentVersion
  rcases viewVersions.get viewName with _ | version
  · simp
  · rcases hdecode : fromBigEndianBytes version with _ | stored <;> simp [hdecode]

/-- The trees after the scan's transaction over `missing`: the scan's version written, and every
missing id set in the invalidated-docs tree (lines 100–117). -/
def invalidate (trees : ScanTrees) (viewName : String) (viewVersion : Nat)
    (missing : List Nat) : ScanTrees :=
  { trees with
    viewVersions := trees.viewVersions.insert viewName (asBigEndianBytes viewVersion)
    invalidatedDocs :=
      missing.foldl (fun t id => t.set (asBigEndianBytes id) []) trees.invalidatedDocs }

/-- The scan's transaction sets every missing id in the invalidated-docs tree. -/
theorem mem_invalidate {trees : ScanTrees} {viewName : String} {viewVersion id : Nat}
    {missing : List Nat} (hid : id ∈ missing) :
    asBigEndianBytes id ∈
      (invalidate trees viewName viewVersion missing).invalidatedDocs.map Prod.fst :=
  (mem_keys_invalidate missing _ _).mpr (.inl ⟨id, hid, rfl⟩)

/-- The scan's transaction writes the scan's version, which reads back as itself. -/
theorem invalidate_viewVersion (trees : ScanTrees) (viewName : String) {viewVersion : Nat}
    (missing : List Nat) (hversion : viewVersion < 2^64) :
    ((invalidate trees viewName viewVersion missing).viewVersions.get viewName).bind
      fromBigEndianBytes = some viewVersion := by
  simp only [invalidate, Map.get_insert_self, Option.some_bind,
    fromBigEndianBytes_asBigEndianBytes hversion]

/-- `missing_entries` (lines 89–99): the documents without a key in the view's document map
when the stored version is the scan's, and every document otherwise. -/
def missingEntries (trees : ScanTrees) (viewName : String) (viewVersion : Nat)
    (documentIds : List Nat) : Option (List Nat) :=
  if viewIsCurrentVersion trees.viewVersions viewName viewVersion then
    (treeKeys trees.documentMap).map fun storedDocumentIds =>
      documentIds.filter fun id => id ∉ storedDocumentIds
  else some documentIds

/-- The closure `execute` runs in `spawn_blocking` (lines 76–121), its transaction committing:
whether the view needs the `Mapper`, and the trees after it; `none` where `tree_keys` fails. -/
def scanView (trees : ScanTrees) (viewName : String) (viewVersion : Nat) :
    Option (Bool × ScanTrees) := do
  let documentIds ← treeKeys trees.documents
  let missing ← missingEntries trees viewName viewVersion documentIds
  if missing.isEmpty then pure (false, trees)
  else pure (true, invalidate trees viewName viewVersion missing)

/-- Each document is missing, or has a key in the document map under the scan's version. -/
theorem missingEntries_covers {trees : ScanTrees} {viewName : String} {viewVersion : Nat}
    {documentIds missing : List Nat}
    (h : missingEntries trees viewName viewVersion documentIds = some missing) :
    ∀ id ∈ documentIds, id ∈ missing ∨
      viewIsCurrentVersion trees.viewVersions viewName viewVersion = true ∧
        ∃ key ∈ trees.documentMap, fromBigEndianBytes key = some id := by
  intro id hid
  unfold missingEntries at h
  split at h
  · next hcurrent =>
    obtain ⟨stored, hstored, rfl⟩ := Option.map_eq_some'.mp h
    by_cases hin : id ∈ stored
    · exact .inr ⟨hcurrent, (mem_treeKeys hstored id).mp hin⟩
    · exact .inl (List.mem_filter.mpr ⟨hid, by simpa using hin⟩)
  · cases h
    exact .inl hid

/-- What a committed scan did: the documents' ids and the ids it found missing; when some are
missing the trees are those its transaction wrote. -/
theorem scanView_spec {trees trees' : ScanTrees} {viewName : String} {viewVersion : Nat}
    {needsUpdate : Bool} (h : scanView trees viewName viewVersion = some (needsUpdate, trees')) :
    ∃ documentIds missing, treeKeys trees.documents = some documentIds ∧
      missingEntries trees viewName viewVersion documentIds = some missing ∧
      (missing ≠ [] → trees' = invalidate trees viewName viewVersion missing) := by
  simp only [scanView, Option.bind_eq_bind, Option.bind_eq_some] at h
  obtain ⟨documentIds, hdocuments, missing, hmissing, hresult⟩ := h
  refine ⟨documentIds, missing, hdocuments, hmissing, fun hne => ?_⟩
  rw [if_neg (by simpa using hne)] at hresult
  cases hresult
  rfl

/-- A committed scan leaves every document of the collection either in the view's document map
under the scan's version, or in the invalidated-docs tree with the scan's version written; when
the stored version was not the scan's, every document is invalidated. -/
theorem integrity_scan_covers_documents {trees trees' : ScanTrees} {viewName : String}
    {viewVersion : Nat} {needsUpdate : Bool} (hversion : viewVersion < 2^64)
    (h : scanView trees viewName viewVersion = some (needsUpdate, trees')) :
    (∀ key ∈ trees.documents, ∃ id, fromBigEndianBytes key = some id ∧
      ((∃ key' ∈ trees.documentMap, fromBigEndianBytes key' = some id) ∧
          (trees.viewVersions.get viewName).bind fromBigEndianBytes = some viewVersion ∨
        asBigEndianBytes id ∈ trees'.invalidatedDocs.map Prod.fst ∧
          (trees'.viewVersions.get viewName).bind fromBigEndianBytes = some viewVersion)) ∧
    ((trees.viewVersions.get viewName).bind fromBigEndianBytes ≠ some viewVersion →
      ∀ key ∈ trees.documents, key ∈ trees'.invalidatedDocs.map Prod.fst) := by
  obtain ⟨documentIds, missing, hdocuments, hmissing, hwritten⟩ := scanView_spec h
  have hcovered := missingEntries_covers hmissing
  have hinvalidated : ∀ id ∈ missing, asBigEndianBytes id ∈ trees'.invalidatedDocs.map Prod.fst ∧
      (trees'.viewVersions.get viewName).bind fromBigEndianBytes = some viewVersion := by
    intro id hid
    rw [hwritten (List.ne_nil_of_mem hid)]
    exact ⟨mem_invalidate hid, invalidate_viewVersion _ _ _ hversion⟩
  refine ⟨fun key hkey => ?_, fun hstale key hkey => ?_⟩
  · obtain ⟨id, hmem, hdecode⟩ := decode_of_treeKeys hdocuments key hkey
    refine ⟨id, hdecode, ?_⟩
    rcases hcovered id hmem with hmissing | ⟨hcurrent, hmapped⟩
    · exact .inr (hinvalidated id hmissing)
    · exact .inl ⟨hmapped, viewIsCurrentVersion_iff.mp hcurrent⟩
  · obtain ⟨id, hmem, hdecode⟩ := decode_of_treeKeys hdocuments key hkey
    rcases hcovered id hmem with hmissing | ⟨hcurrent, -⟩
    · exact asBigEndianBytes_of_decode hdecode ▸ (hinvalidated id hmissing).1
    · exact absurd (viewIsCurrentVersion_iff.mp hcurrent) hstale

/-- A collection of one document, id `1`, whose view was never built. -/
def unbuiltView : ScanTrees := ⟨[[0, 0, 0, 0, 0, 0, 0, 1]], [], [], []⟩

theorem unbuiltView_invalidated :
    scanView unbuiltView "view" 3 = some (true, invalidate unbuiltView "view" 3 [1]) ∧
      [0, 0, 0, 0, 0, 0, 0, 1] ∈
        (invalidate unbuiltView "view" 3 [1]).invalidatedDocs.map Prod.fst :=
  have h : scanView unbuiltView "view" 3 = some (true, invalidate unbuiltView "view" 3 [1]) := rfl
  ⟨h, (integrity_scan_covers_documents (by decide) h).2 (by decide) _ (List.mem_singleton_self _)⟩

end BonsaiDb.Views
