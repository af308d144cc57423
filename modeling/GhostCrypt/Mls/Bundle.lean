/-
The blobs of `mls/mod.rs`: a provider's key store written as a map of base64 texts, next to the
signing key, the credential and the group id. Restoring a written store gives it back.
-/
import Mathlib.Data.Finmap
import GhostCrypt.Core.Error
import GhostCrypt.Core.Primitives
import GhostCrypt.Lib.Base64

namespace GhostCrypt.Mls

open Base64

/-! ## Bundles -/

/-- `MemoryStorage::values`, the key store of a provider. -/
abbrev Storage := Finmap fun _ : Bytes => Bytes

/-- `HashMap<String, String>`. -/
abbrev StringMap := Finmap fun _ : String => String

structure GroupBundle where
  /-- Base64-encoded key-value pairs of the provider's storage. -/
  store : StringMap
  signer : Bytes
  credentialWithKey : Bytes
  groupId : Bytes

structure KeyPackageSecretBundle where
  store : StringMap
  signer : Bytes
  credentialWithKey : Bytes

/-! ## Snapshots -/

theorem nodupKeys_filterMap {α β α' β' : Type} {f : (Σ _ : α, β) → Option (Σ _ : α', β')}
    (hf : ∀ {e e' d d'}, d ∈ f e → d' ∈ f e' → d.1 = d'.1 → e.1 = e'.1) :
    ∀ {entries : Multiset (Σ _ : α, β)}, entries.NodupKeys → (entries.filterMap f).NodupKeys := by
  rintro ⟨entries⟩ h
  refine List.nodupKeys_iff_pairwise.2 ((List.nodupKeys_iff_pairwise.1 h).filterMap f ?_)
  exact fun e e' hne d hd d' hd' heq => hne (hf hd hd' heq)

/-- A binding of the storage, in base64. -/
def encodeEntry (e : Σ _ : Bytes, Bytes) : Σ _ : String, String := ⟨encodeString e.1, encodeString e.2⟩

/-- A binding of the map, decoded. -/
def decodeEntry (e : Σ _ : String, String) : Option (Σ _ : Bytes, Bytes) := do
  let key ← decodeString e.1
  let value ← decodeString e.2
  some ⟨key, value⟩

theorem decodeEntry_eq_some {e : Σ _ : String, String} {d : Σ _ : Bytes, Bytes} :
    decodeEntry e = some d ↔ e = encodeEntry d := by
  obtain ⟨k, v⟩ := e
  obtain ⟨key, value⟩ := d
  simp only [decodeEntry, encodeEntry, Option.bind_eq_bind, Option.bind_eq_some_iff, decodeString_eq_some]
  constructor
  · rintro ⟨_, rfl, _, rfl, h⟩
    obtain ⟨rfl, rfl⟩ := Sigma.mk.inj_iff.1 (Option.some.inj h)
    rfl
  · intro h
    obtain ⟨rfl, hv⟩ := Sigma.mk.inj_iff.1 h
    exact ⟨key, rfl, value, (eq_of_heq hv).symm, rfl⟩

@[simp] theorem decodeEntry_encodeEntry (d : Σ _ : Bytes, Bytes) : decodeEntry (encodeEntry d) = some d :=
  decodeEntry_eq_some.2 rfl

/-- `snapshot_store`; no two keys have the same base64 text. -/
def snapshotStore (storage : Storage) : StringMap :=
  ⟨storage.entries.map encodeEntry, by
    rw [← Multiset.filterMap_eq_map]
    refine nodupKeys_filterMap ?_ storage.nodupKeys
    rintro e e' _ _ ⟨⟩ ⟨⟩ h
    exact encodeString_injective h⟩

/-- The bindings of a map that decode; no key has two base64 texts. -/
def decodeStore (store : StringMap) : Storage :=
  ⟨store.entries.filterMap decodeEntry, by
    refine nodupKeys_filterMap ?_ store.nodupKeys
    intro e e' d d' hd hd' h
    rw [decodeEntry_eq_some.1 hd, decodeEntry_eq_some.1 hd']
    exact congrArg encodeString h⟩

/-- `restore_store`, into a provider's storage: both `expect`s panic. -/
def restoreStore (values : Storage) (store : StringMap) : Outcome CryptoError Storage :=
  if ∀ e ∈ store.entries, (decodeEntry e).isSome then .ok (decodeStore store ∪ values) else .panic

/-- `provider_from_store`. -/
def providerFromStore (store : StringMap) : Outcome CryptoError Storage := restoreStore ∅ store

theorem decodeStore_snapshotStore (storage : Storage) : decodeStore (snapshotStore storage) = storage := by
  apply Finmap.ext
  show (storage.entries.map encodeEntry).filterMap decodeEntry = storage.entries
  have hcomp : decodeEntry ∘ encodeEntry = some := funext decodeEntry_encodeEntry
  rw [Multiset.filterMap_map, hcomp, Multiset.filterMap_some]

/-- Nothing is lost, merged, added or altered. -/
@[simp] theorem providerFromStore_snapshotStore (storage : Storage) :
    providerFromStore (snapshotStore storage) = .ok storage := by
  unfold providerFromStore restoreStore
  rw [if_pos, decodeStore_snapshotStore, Finmap.union_empty]
  intro e he
  obtain ⟨d, -, rfl⟩ := Multiset.mem_map.1 he
  rw [decodeEntry_encodeEntry]
  rfl

end GhostCrypt.Mls
