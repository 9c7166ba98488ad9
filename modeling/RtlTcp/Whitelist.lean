import RtlTcp.Control

/-!
# `control.rs`: the whitelist decision

Addresses and networks are numbers under a family, as in `std::net` and `ipnet`; how they are
written is left to those libraries, so the two parsers are parameters. The decision depends on the
list of entries only through the networks that parse, `networks`.
-/

namespace RtlTcp
set_option autoImplicit false

/-- `std::net::IpAddr` -/
inductive IpAddr where
  | v4 (bits : BitVec 32)
  | v6 (bits : BitVec 128)
  deriving DecidableEq

/-- `Ipv4Addr::to_ipv6_mapped`: the address `::ffff:a.b.c.d`. -/
def toIpv6Mapped (bits : BitVec 32) : BitVec 128 := 0xFFFF#96 ++ bits

/-- `IpAddr::to_canonical`: a mapped address is the IPv4 address in it. -/
def IpAddr.toCanonical : IpAddr → IpAddr
  | .v4 bits => .v4 bits
  | .v6 bits => if bits.extractLsb' 32 96 = 0xFFFF#96 then .v4 (bits.extractLsb' 0 32) else .v6 bits

/-- `ipnet::IpNet`: an address and how many of its leading bits count. -/
inductive IpNet where
  | v4 (addr : BitVec 32) (prefixLen : Fin 33)
  | v6 (addr : BitVec 128) (prefixLen : Fin 129)
  deriving DecidableEq

/-- Whether two addresses have the same `n` leading bits. -/
def sameLeading {w : Nat} (n : Nat) (a b : BitVec w) : Bool := a >>> (w - n) == b >>> (w - n)

/-- `IpNet::contains` -/
def IpNet.contains : IpNet → IpAddr → Bool
  | .v4 addr prefixLen, .v4 bits => sameLeading prefixLen addr bits
  | .v6 addr prefixLen, .v6 bits => sameLeading prefixLen addr bits
  | _, _ => false

/-- The two libraries, with the parsers as they come. -/
@[reducible] def ipLib (parseAddr : String → Option IpAddr) (parseNet : String → Option IpNet) : IpLib :=
  ⟨IpAddr, IpNet, parseAddr, IpAddr.toCanonical, parseNet, IpNet.contains⟩

theorem toCanonical_toIpv6Mapped (bits : BitVec 32) :
    (IpAddr.v6 (toIpv6Mapped bits)).toCanonical = (IpAddr.v4 bits).toCanonical := by
  have high : (toIpv6Mapped bits).extractLsb' 32 96 = 0xFFFF#96 := BitVec.extractLsb'_append_eq_left
  have low : (toIpv6Mapped bits).extractLsb' 0 32 = bits := BitVec.extractLsb'_append_eq_right
  simp only [IpAddr.toCanonical, high, low, if_true]

/-! ## The decision and the networks -/

section
variable [IpLib]

/-- The networks of the entries that parse. -/
def networks (whitelist : List String) : List IpLib.Net := whitelist.filterMap IpLib.parseNet

theorem anyNetworkContains_eq (clientIp : IpLib.Addr) (whitelist : List String) :
    anyNetworkContains clientIp whitelist = (networks whitelist).any (IpLib.contains · clientIp) := by
  induction whitelist with
  | nil => rfl
  | cons cidr whitelist ih =>
    unfold anyNetworkContains networks
    rw [List.filterMap_cons]
    split
    · rename_i network parsed
      rw [parsed, List.any_cons, ih]
      cases IpLib.contains network clientIp <;> rfl
    · rename_i unparsed
      rw [unparsed]
      exact ih

/-- A client is in the whitelist through one of the networks. -/
theorem isIpInWhitelist_iff (clientIp : String) (whitelist : List String) :
    isIpInWhitelist clientIp whitelist = true ↔
      ∃ ip, IpLib.parseAddr clientIp = some ip ∧
        ∃ network ∈ networks whitelist, IpLib.contains network (IpLib.toCanonical ip) = true := by
  unfold isIpInWhitelist
  split
  · rename_i ip parsed
    simp [parsed, anyNetworkContains_eq]
  · rename_i unparsed
    simp [unparsed]

/-- Only the canonical form of an address counts. -/
theorem isIpInWhitelist_canonical {client client' : String} {ip ip' : IpLib.Addr}
    (parsed : IpLib.parseAddr client = some ip) (parsed' : IpLib.parseAddr client' = some ip')
    (same : IpLib.toCanonical ip = IpLib.toCanonical ip') (whitelist : List String) :
    isIpInWhitelist client whitelist = isIpInWhitelist client' whitelist := by
  simp only [isIpInWhitelist, parsed, parsed', same]

theorem networks_skip {bad : String} (unparsed : IpLib.parseNet bad = none) (before after : List String) :
    networks (before ++ bad :: after) = networks (before ++ after) := by
  simp only [networks, List.filterMap_append, List.filterMap_cons_none unparsed]

/-- The empty list is a case of its own. -/
theorem checkWhitelist_listed {whitelist : List String} (listed : whitelist ≠ []) (clientIp : String) :
    checkWhitelist clientIp whitelist = if isIpInWhitelist clientIp whitelist then .ok ()
      else .error (.network "connection rejected: IP not in whitelist") := by
  unfold checkWhitelist
  rw [if_neg (Bool.eq_false_iff.1 (List.isEmpty_eq_false_iff.2 listed))]

theorem checkWhitelist_ok {whitelist : List String} (listed : whitelist ≠ []) (clientIp : String) :
    checkWhitelist clientIp whitelist = .ok () ↔ isIpInWhitelist clientIp whitelist = true := by
  rw [checkWhitelist_listed listed]
  split <;> simp_all

/-- Two lists with the same networks decide alike. -/
theorem checkWhitelist_congr {w w' : List String} (listed : w ≠ []) (listed' : w' ≠ [])
    (same : ∀ network, network ∈ networks w ↔ network ∈ networks w') (clientIp : String) :
    checkWhitelist clientIp w = checkWhitelist clientIp w' := by
  have inside : isIpInWhitelist clientIp w = isIpInWhitelist clientIp w' := by
    rw [Bool.eq_iff_iff, isIpInWhitelist_iff, isIpInWhitelist_iff]
    simp only [same]
  rw [checkWhitelist_listed listed, checkWhitelist_listed listed', inside]

end

/-- **The whitelist decision.** Whatever the parsers: with entries, a client is admitted exactly when
its string is an address whose canonical form lies in the network of an entry that parses. Order,
repetition and entries that do not parse make no difference while there are entries, more entries
never turn away a client that was admitted, entries none of which parses admit nobody, an IPv4
address and its mapped form are decided alike, and no entries admit everybody. -/
theorem whitelist_law (parseAddr : String → Option IpAddr) (parseNet : String → Option IpNet) :
    let _ : IpLib := ipLib parseAddr parseNet
    (∀ client w, w ≠ [] → (checkWhitelist client w = .ok () ↔
      ∃ ip, parseAddr client = some ip ∧ ∃ cidr ∈ w, ∃ network, parseNet cidr = some network ∧
        network.contains ip.toCanonical = true)) ∧
    (∀ client w w', (∀ cidr, cidr ∈ w ↔ cidr ∈ w') → checkWhitelist client w = checkWhitelist client w') ∧
    (∀ client w before bad after, w = before ++ after → w ≠ [] → parseNet bad = none →
      checkWhitelist client (before ++ bad :: after) = checkWhitelist client w) ∧
    (∀ client w before new after, w = before ++ after → w ≠ [] → checkWhitelist client w = .ok () →
      checkWhitelist client (before ++ new :: after) = .ok ()) ∧
    (∀ client w, w ≠ [] → (∀ cidr ∈ w, parseNet cidr = none) →
      checkWhitelist client w = .error (.network "connection rejected: IP not in whitelist")) ∧
    (∀ client mapped bits w, parseAddr client = some (.v4 bits) → parseAddr mapped = some (.v6 (toIpv6Mapped bits)) →
      checkWhitelist client w = checkWhitelist mapped w) ∧
    ∀ client, checkWhitelist client [] = .ok () := by
  intro lib
  refine ⟨fun client w listed => ?_, fun client w w' same => ?_, fun client w before bad after whole listed unparsed => ?_,
    fun client w before new after whole listed admitted => ?_, fun client w listed unparsed => ?_,
    fun client mapped bits w plain wrapped => ?_, fun client => rfl⟩
  · rw [checkWhitelist_ok listed, isIpInWhitelist_iff]
    refine exists_congr fun ip => and_congr_right fun _ => ⟨?_, ?_⟩
    · rintro ⟨network, member, inside⟩
      obtain ⟨cidr, entry, parsed⟩ := List.mem_filterMap.1 member
      exact ⟨cidr, entry, network, parsed, inside⟩
    · rintro ⟨cidr, entry, network, parsed, inside⟩
      exact ⟨network, List.mem_filterMap.2 ⟨cidr, entry, parsed⟩, inside⟩
  · by_cases listed : w = []
    · subst listed
      have empty : w' = [] := List.eq_nil_iff_forall_not_mem.2 fun cidr entry => by simpa using (same cidr).2 entry
      rw [empty]
    · have listed' : w' ≠ [] := by
        rintro rfl
        exact listed (List.eq_nil_iff_forall_not_mem.2 fun cidr entry => by simpa using (same cidr).1 entry)
      refine checkWhitelist_congr listed listed' (fun network => ?_) client
      simp only [networks, List.mem_filterMap, same]
  · subst whole
    have skipped := networks_skip unparsed before after
    exact checkWhitelist_congr (by simp) listed (fun network => by rw [skipped]) client
  · subst whole
    obtain ⟨ip, parsed, network, member, inside⟩ := (isIpInWhitelist_iff ..).1 ((checkWhitelist_ok listed client).1 admitted)
    refine (checkWhitelist_ok (by simp) client).2 ((isIpInWhitelist_iff ..).2 ⟨ip, parsed, network, ?_, inside⟩)
    exact (List.Sublist.append (List.Sublist.refl before) (List.sublist_cons_self new after)).filterMap _ |>.subset member
  · have empty : networks w = [] := List.filterMap_eq_nil_iff.2 unparsed
    have outside : ¬isIpInWhitelist client w = true := by
      rw [isIpInWhitelist_iff, empty]
      simp
    rw [checkWhitelist_listed listed, if_neg outside]
  · have alike := isIpInWhitelist_canonical plain wrapped (toCanonical_toIpv6Mapped bits).symm w
    unfold checkWhitelist
    rw [alike]

/-- `parse::<IpAddr>()` on two spellings of one client. -/
def parseClient (s : String) : Option IpAddr :=
  if s = "10.0.0.7" then some (.v4 0x0A000007#32)
  else if s = "::ffff:10.0.0.7" then some (.v6 (toIpv6Mapped 0x0A000007#32))
  else none

/-- `parse::<IpNet>()` on a network and on an entry that is none. -/
def parseOffice (s : String) : Option IpNet := if s = "10.0.0.0/8" then some (.v4 0x0A000000#32 8) else none

/-- A client of the network, under an entry that does not parse and one that does. -/
theorem office_whitelist :
    let _ : IpLib := ipLib parseClient parseOffice
    checkWhitelist "10.0.0.7" ["office", "10.0.0.0/8"] = .ok () ∧
      checkWhitelist "10.0.0.7" ["office", "10.0.0.0/8"] = checkWhitelist "::ffff:10.0.0.7" ["office", "10.0.0.0/8"] ∧
      checkWhitelist "10.0.0.7" ["office"] = .error (.network "connection rejected: IP not in whitelist") := by
  obtain ⟨law, -, -, -, closed, alike, -⟩ := whitelist_law parseClient parseOffice
  refine ⟨(law _ _ (by simp)).2 ⟨.v4 0x0A000007#32, by decide, "10.0.0.0/8", by simp, .v4 0x0A000000#32 8, by decide, by decide⟩,
    alike _ _ 0x0A000007#32 _ (by decide) (by decide), closed _ _ (by simp) (by decide)⟩

end RtlTcp
