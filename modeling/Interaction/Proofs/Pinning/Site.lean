import Interaction.Chain
import Interaction.Pinning.Cache
import Interaction.Proofs.Address
import Interaction.Proofs.Table

/-!
# Sites and the contracts of a chain

The identity key of a site forgets how its address is spelled. On canonical sites, whose addresses
are normalised hexadecimal ones, it forgets nothing. Every contract that a chain answers for is one
of finitely many deployed ones.
-/

namespace Interaction

namespace Site

variable {network : String} {s t : Site}

/-- A site at a normalised hexadecimal address. -/
def IsCanonical (site : Site) : Prop :=
  Address.normalize site.address = site.address ∧ Address.isHex site.address = true

instance (site : Site) : Decidable site.IsCanonical :=
  inferInstanceAs (Decidable (_ ∧ _))

theorem key_normalized (network : String) (site : Site) :
    site.normalized.key network = site.key network :=
  identityKey_normalize network site.address site.name

theorem normalized_normalized (site : Site) : site.normalized.normalized = site.normalized := by
  simp only [normalized, Address.normalize_normalize]

theorem isCanonical_normalized {site : Site} (h : Address.isHex site.address = true) :
    site.normalized.IsCanonical :=
  ⟨Address.normalize_normalize site.address, Address.isHex_normalize h⟩

theorem IsCanonical.normalized_eq {site : Site} (h : site.IsCanonical) :
    site.normalized = site := by
  rw [normalized, h.1]

/-- Two canonical sites with one key are the same. -/
theorem IsCanonical.eq_of_key (hs : s.IsCanonical) (ht : t.IsCanonical)
    (h : s.key network = t.key network) : s = t := by
  obtain ⟨haddress, hname⟩ := identityKey_inj hs.2 ht.2 h
  rw [hs.1, ht.1] at haddress
  cases s
  cases t
  cases haddress
  cases hname
  rfl

end Site

namespace Chain

/-- Where contracts are deployed, account by account. -/
def sites (chain : Chain) : List Site :=
  chain.accounts.entries.flatMap fun account => account.2.names.map fun name => ⟨name, account.1⟩

/-- A running total of the accounts is what it starts from and the number of their sites. -/
theorem foldl_size (accounts : List (String × Table (List UInt8))) (n : Nat) :
    (accounts.map Prod.snd).foldl (fun n contracts => n + contracts.size) n =
      n + (accounts.flatMap fun account =>
        account.2.names.map fun name => (⟨name, account.1⟩ : Site)).length := by
  induction accounts generalizing n with
  | nil => rfl
  | cons account more ih =>
      rw [List.map_cons, List.foldl_cons, ih, List.flatMap_cons, List.length_append,
        List.length_map, Table.names, List.length_map, Table.size, Nat.add_assoc]

theorem length_sites (chain : Chain) : chain.sites.length = chain.size := by
  rw [size, Table.values, foldl_size, Nat.zero_add, sites]

theorem code?_of_fetch {chain : Chain} {address name : String} {code : List UInt8}
    (h : chain.fetch address name = .ok code) : chain.code? address name = some code := by
  unfold fetch at h
  split at h
  · cases h
  · split at h
    next deployed hdeployed =>
      cases h
      exact hdeployed
    next => cases h

theorem exists_contracts_of_fetch {chain : Chain} {address name : String} {code : List UInt8}
    (h : chain.fetch address name = .ok code) : ∃ contracts,
      chain.accounts.get? (Address.normalize address) = some contracts ∧
        contracts.get? name = some code :=
  Option.bind_eq_some_iff.1 (code?_of_fetch h)

/-- Only deployed contracts are answered for. -/
theorem mem_sites_of_fetch {chain : Chain} {site : Site} {code : List UInt8}
    (h : chain.fetch site.address site.name = .ok code) : site.normalized ∈ chain.sites := by
  obtain ⟨contracts, hcontracts, hcode⟩ := exists_contracts_of_fetch h
  rw [sites, List.mem_flatMap]
  refine ⟨_, Table.get?_eq_some_iff.1 hcontracts, ?_⟩
  rw [List.mem_map]
  exact ⟨site.name, Table.contains_iff_mem_names.1 (Table.contains_of_get? hcode), rfl⟩

/-- The code that is deployed on a chain. -/
def codes (chain : Chain) : List (List UInt8) :=
  chain.accounts.values.flatMap Table.values

theorem mem_codes_of_fetch {chain : Chain} {address name : String} {code : List UInt8}
    (h : chain.fetch address name = .ok code) : code ∈ chain.codes := by
  obtain ⟨contracts, hcontracts, hcode⟩ := exists_contracts_of_fetch h
  rw [codes, List.mem_flatMap]
  refine ⟨contracts, ?_, ?_⟩
  · exact List.mem_map_of_mem (f := Prod.snd) (Table.get?_eq_some_iff.1 hcontracts)
  · exact List.mem_map_of_mem (f := Prod.snd) (Table.get?_eq_some_iff.1 hcode)

end Chain

end Interaction
