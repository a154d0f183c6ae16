import FeedMux.Config

/-!
# Watched vaults (`src/shred/vault_watch.rs`)

The watch set is a hash set: a list without repetitions, in whatever order the
set iterates. `mem_scanHits` says which vaults a scan finds.
-/

namespace FeedMux.Shred
open FeedMux.Library

structure VaultWatchSet where
  vaults : List Pubkey
  nodup : vaults.Nodup

structure VaultHit where
  vault : Pubkey
  vaultB58 : String
  deriving DecidableEq

def containsSubslice (haystack : Bytes) (needle : Pubkey) : Bool :=
  (windows 32 haystack).any fun window => window == needle.bytes

def signatureLikeCount (bytes : Bytes) : Nat :=
  (((windows 64 bytes).filter fun window => window.any (· != 0)).take 256).length

namespace VaultWatchSet

/-- The order is that of the list, one of those the set may iterate in. -/
def fromPubkeys (pubkeys : List Pubkey) : VaultWatchSet where
  vaults := pubkeys.dedup
  nodup := pubkeys.nodup_dedup

/-- Scan deshredded entry bytes for any watched vault pubkey (wake pre-filter). -/
def scanHits (bs58 : Bs58) (watch : VaultWatchSet) (haystack : Bytes) : List VaultHit :=
  if watch.vaults.isEmpty || haystack.length < 32 then []
  else
    (watch.vaults.filter (containsSubslice haystack)).map fun vault =>
      ⟨vault, bs58.encode vault.bytes⟩

/-- Estimate transaction count from deshredded bytes. -/
def countTransactionsEstimate (bytes : Bytes) : Nat :=
  if bytes.isEmpty then 0 else max (signatureLikeCount bytes) 1

end VaultWatchSet

theorem containsSubslice_iff (haystack : Bytes) (needle : Pubkey) :
    containsSubslice haystack needle ↔ needle.bytes <:+: haystack := by
  unfold containsSubslice
  simp only [List.any_eq_true, beq_iff_eq, exists_eq_right, mem_windows, needle.length_eq,
    and_true]

namespace VaultWatchSet
variable (bs58 : Bs58) (watch : VaultWatchSet) (haystack : Bytes)

/-- The early return changes nothing: no vault fits into fewer than 32 bytes. -/
theorem scanHits_eq :
    watch.scanHits bs58 haystack =
      (watch.vaults.filter (containsSubslice haystack)).map fun vault =>
        ⟨vault, bs58.encode vault.bytes⟩ := by
  unfold scanHits
  split
  case isFalse => rfl
  case isTrue h =>
    symm
    rw [List.map_eq_nil_iff, List.filter_eq_nil_iff]
    intro vault hv hc
    rw [Bool.or_eq_true, List.isEmpty_iff, decide_eq_true_eq] at h
    rcases h with h | h
    · simp [h] at hv
    · have hl := (containsSubslice_iff haystack vault).mp hc |>.length_le
      rw [vault.length_eq] at hl
      omega

/-- The vaults of the hits are the watched vaults that occur, each once. -/
theorem scanHits_vaults :
    ((watch.scanHits bs58 haystack).map VaultHit.vault).Nodup ∧
      ∀ vault, vault ∈ (watch.scanHits bs58 haystack).map VaultHit.vault ↔
        vault ∈ watch.vaults ∧ vault.bytes <:+: haystack := by
  have hm : (watch.scanHits bs58 haystack).map VaultHit.vault =
      watch.vaults.filter (containsSubslice haystack) := by
    rw [scanHits_eq, List.map_map]
    exact List.map_id _
  rw [hm]
  refine ⟨watch.nodup.filter _, ?_⟩
  intro vault
  rw [List.mem_filter, containsSubslice_iff]

end VaultWatchSet
end FeedMux.Shred
