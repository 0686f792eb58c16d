import OxidizedSystemd.Cgroups.IpFilterProgram

/-!
# The policy of the IP filter

What the two lists of a unit say about an address, in terms of prefixes: the
longest prefix that contains the address decides, an allowing one wins over a
denying one of the same length, and without any the address is denied exactly when
there is an allow list.

* `policy`: that rule.
* `policy_filterRules`: the sorted rules, of which the first match is taken, follow it.
* `ipAddressProgram_correct`: the program gives every packet the verdict of the
  policy; a packet without the fixed header of its version is allowed.
* `short_header_is_allowed`: so is one that has the address but not the whole header.
-/

namespace OxidizedSystemd.Cgroups

open OxidizedSystemd.Lib
open OxidizedSystemd.Lib.Ebpf

/-! ## Words and octets -/

theorem fromLeBytes_and {as bs : Bytes} (h : as.length = bs.length) :
    fromLeBytes as &&& fromLeBytes bs = fromLeBytes (maskBytes as bs) := by
  rw [fromLeBytes, fromLeBytes, fromLeBytes, maskBytes, ofLe_zipWith_and h, UInt32.ofNat_and]

theorem fromLeBytes_inj {as bs : Bytes} (ha : as.length = 4) (hb : bs.length = 4) :
    fromLeBytes as = fromLeBytes bs ↔ as = bs := by
  refine ⟨fun h => ofLe_inj (ha.trans hb.symm) ?_, fun h => congrArg _ h⟩
  have hlt : ∀ cs : Bytes, cs.length = 4 → (fromLeBytes cs).toNat = ofLe cs := by
    intro cs hc
    have := ofLe_lt cs
    rw [hc] at this
    exact UInt32.toNat_ofNat_of_lt this
  rw [← hlt as ha, ← hlt bs hb, h]

theorem length_maskBytes {as bs : Bytes} {n : ℕ} (ha : as.length = n) (hb : bs.length = n) :
    (maskBytes as bs).length = n := by
  rw [maskBytes, List.length_zipWith, ha, hb, Nat.min_self]

/-- A masked word is compared octet by octet. -/
theorem masked_word_iff {addr mask net : Bytes} (ha : addr.length = 4) (hm : mask.length = 4)
    (hn : net.length = 4) :
    fromLeBytes addr &&& fromLeBytes mask = fromLeBytes (maskBytes net mask) ↔
      maskBytes addr mask = maskBytes net mask := by
  rw [fromLeBytes_and (ha.trans hm.symm),
    fromLeBytes_inj (length_maskBytes ha hm) (length_maskBytes hn hm)]

theorem length_wordOctets {bs : Bytes} (h : bs.length = 16) (w : Fin 4) :
    (wordOctets bs w).length = 4 := by
  have hw := w.2
  rw [wordOctets, List.length_take, List.length_drop, h]
  omega

theorem wordOctets_maskBytes (as bs : Bytes) (w : Fin 4) :
    maskBytes (wordOctets as w) (wordOctets bs w) = wordOctets (maskBytes as bs) w := by
  simp only [maskBytes, wordOctets, List.take_zipWith, List.drop_zipWith]

/-- Sixteen octets are four words. -/
theorem wordOctets_ext {as bs : Bytes} (ha : as.length = 16) (hb : bs.length = 16)
    (h : ∀ w, wordOctets as w = wordOctets bs w) : as = bs := by
  have hjoin : ∀ cs : Bytes, cs.length = 16 →
      cs = wordOctets cs 0 ++ wordOctets cs 1 ++ wordOctets cs 2 ++ wordOctets cs 3 := by
    intro cs hc
    have hstep : ∀ k, (cs.drop k).take 4 ++ cs.drop (k + 4) = cs.drop k := by
      intro k
      rw [← List.drop_drop, List.take_append_drop]
    have hlast : (cs.drop 12).take 4 = cs.drop 12 :=
      List.take_of_length_le (by rw [List.length_drop, hc])
    show cs = cs.take 4 ++ (cs.drop 4).take 4 ++ (cs.drop 8).take 4 ++ (cs.drop 12).take 4
    rw [hlast, List.append_assoc, List.append_assoc, hstep 8, hstep 4, List.take_append_drop]
  rw [hjoin as ha, hjoin bs hb, h, h, h, h]

/-- The mask of an IPv4 prefix, shifted as a number. -/
theorem toBeBytes_maskBe {len : ℕ} (h : len ≤ 32) : toBeBytes (maskBe len) = prefixMask 4 len := by
  have hall : ∀ len < 33, toBeBytes (maskBe len) = prefixMask 4 len := by decide
  exact hall len (Nat.lt_succ_of_le h)

/-! ## Rules and prefixes -/

/-- The two words and the length of an IPv4 prefix. -/
def words4 (p : Prefix 4) : UInt32 × UInt32 × ℕ :=
  (fromLeBytes (maskBytes p.octets.1 p.mask), fromLeBytes p.mask, p.len)

/-- The two times four words and the length of an IPv6 prefix. -/
def words6 (p : Prefix 16) : Words × Words × ℕ :=
  (fun w => fromLeBytes (maskBytes (wordOctets p.octets.1 w) (wordOctets p.mask w)),
    fun w => fromLeBytes (wordOctets p.mask w), p.len)

theorem words4_hit (p : Prefix 4) {addr : Bytes} (h : addr.length = 4) :
    fromLeBytes addr &&& (words4 p).2.1 = (words4 p).1 ↔ p.Contains addr := by
  rw [p.contains_iff_masked h]
  exact masked_word_iff h (length_prefixMask 4 p.len) p.octets.2

theorem words6_hit (p : Prefix 16) {addr : Bytes} (h : addr.length = 16) :
    (∀ w, fromLeBytes (wordOctets addr w) &&& (words6 p).2.1 w = (words6 p).1 w) ↔
      p.Contains addr := by
  have hmask : p.mask.length = 16 := length_prefixMask 16 p.len
  have hword : ∀ w, fromLeBytes (wordOctets addr w) &&& (words6 p).2.1 w = (words6 p).1 w ↔
      wordOctets (maskBytes addr p.mask) w = wordOctets (maskBytes p.octets.1 p.mask) w := by
    intro w
    rw [words6, masked_word_iff (length_wordOctets h w) (length_wordOctets hmask w)
      (length_wordOctets p.octets.2 w), wordOctets_maskBytes, wordOctets_maskBytes]
  rw [p.contains_iff_masked h, forall_congr' hword]
  exact ⟨wordOctets_ext (length_maskBytes h hmask) (length_maskBytes p.octets.2 hmask),
    fun heq w => congrArg (wordOctets · w) heq⟩

/-- The prefix that an entry names in IPv4. -/
def ipv4Cidr (entry : List Char) : Option (Prefix 4) :=
  let e := trim entry
  if e = "any".toList then some ⟨⟨[0, 0, 0, 0], rfl⟩, 0, by decide⟩
  else if e = "localhost".toList then some ⟨⟨[127, 0, 0, 0], rfl⟩, 8, by decide⟩
  else if e = "link-local".toList then some ⟨⟨[169, 254, 0, 0], rfl⟩, 16, by decide⟩
  else if e = "multicast".toList then some ⟨⟨[224, 0, 0, 0], rfl⟩, 4, by decide⟩
  else if ':' ∈ e then none
  else parseCidr 4 parseIpv4 e

/-- The prefix that an entry names in IPv6. -/
def ipv6Cidr (entry : List Char) : Option (Prefix 16) :=
  let e := trim entry
  if e = "any".toList then some ⟨⟨List.replicate 16 0, rfl⟩, 0, by decide⟩
  else if e = "localhost".toList then
    some ⟨⟨List.replicate 15 0 ++ [1], rfl⟩, 128, by decide⟩
  else if e = "link-local".toList then
    some ⟨⟨[0xfe, 0x80] ++ List.replicate 14 0, rfl⟩, 64, by decide⟩
  else if e = "multicast".toList then
    some ⟨⟨0xff :: List.replicate 15 0, rfl⟩, 8, by decide⟩
  else if ':' ∈ e then parseCidr 16 parseIpv6 e
  else none

theorem parseIpv4Cidr_eq (s : List Char) :
    parseIpv4Cidr s = (parseCidr 4 parseIpv4 s).map words4 := by
  unfold parseIpv4Cidr
  refine congrArg (Option.map · _) (funext fun p => ?_)
  rw [toBeBytes_maskBe p.len_le]
  rfl

theorem parseIpv6Cidr_eq (s : List Char) :
    parseIpv6Cidr s = (parseCidr 16 parseIpv6 s).map words6 := rfl

theorem ipv4PrefixFromEntry_eq (entry : List Char) :
    ipv4PrefixFromEntry entry = (ipv4Cidr entry).map words4 := by
  unfold ipv4PrefixFromEntry ipv4Cidr
  dsimp only
  split
  · decide
  split
  · decide
  split
  · decide
  split
  · decide
  split
  · rfl
  · exact parseIpv4Cidr_eq _

theorem ipv6PrefixFromEntry_eq (entry : List Char) :
    ipv6PrefixFromEntry entry = (ipv6Cidr entry).map words6 := by
  unfold ipv6PrefixFromEntry ipv6Cidr
  dsimp only
  have hany : ∀ w : Fin 4, (0 : UInt32) = fromLeBytes (maskBytes
      (wordOctets (List.replicate 16 0) w) (wordOctets (prefixMask 16 0) w)) ∧
      (0 : UInt32) = fromLeBytes (wordOctets (prefixMask 16 0) w) := by
    decide
  split
  · exact congrArg some (Prod.ext (funext fun w => (hany w).1)
      (Prod.ext (funext fun w => (hany w).2) rfl))
  split
  · exact congrArg (Option.map words6) (by decide)
  split
  · exact congrArg (Option.map words6) (by decide)
  split
  · exact congrArg (Option.map words6) (by decide)
  split
  · exact parseIpv6Cidr_eq _
  · rfl

/-! ## The policy -/

/-- The prefixes that the two lists name in a family, with the list they come from. -/
def configured {n : ℕ} (cidr : List Char → Option (Prefix n)) (allow deny : List (List Char)) :
    List (Prefix n × Bool) :=
  (allow.filterMap fun e => (cidr e).map fun p => (p, true)) ++
    deny.filterMap fun e => (cidr e).map fun p => (p, false)

/-- An address is allowed when an allowing prefix contains it and no longer prefix does; if no
    prefix contains it, the default decides. -/
def policy {n : ℕ} (prefixes : List (Prefix n × Bool)) (addr : Bytes) (default : Bool) : Bool :=
  let containing := prefixes.filter fun p => p.1.Contains addr
  if containing = [] then default
  else containing.any fun p => p.2 && containing.all fun q => q.1.len ≤ p.1.len

/-- A prefix with no other one in front of it decides. -/
theorem policy_of_first {n : ℕ} {prefixes : List (Prefix n × Bool)} {addr : Bytes} {default : Bool}
    {p : Prefix n × Bool} (hp : p ∈ prefixes) (hcontains : p.1.Contains addr)
    (hfirst : ∀ q ∈ prefixes, q.1.Contains addr →
      q.1.len < p.1.len ∨ q.1.len = p.1.len ∧ q.2 ≤ p.2) :
    policy prefixes addr default = p.2 := by
  have hmem : p ∈ prefixes.filter fun p => p.1.Contains addr :=
    List.mem_filter.mpr ⟨hp, decide_eq_true hcontains⟩
  have hlongest : ∀ q ∈ prefixes.filter fun p => p.1.Contains addr,
      q.1.len < p.1.len ∨ q.1.len = p.1.len ∧ q.2 ≤ p.2 := by
    intro q hq
    obtain ⟨hq, hqc⟩ := List.mem_filter.mp hq
    exact hfirst q hq (of_decide_eq_true hqc)
  unfold policy
  dsimp only
  rw [if_neg (List.ne_nil_of_mem hmem), Bool.eq_iff_iff, List.any_eq_true]
  constructor
  · rintro ⟨q, hq, hallow⟩
    rw [Bool.and_eq_true, List.all_eq_true] at hallow
    have hle : p.1.len ≤ q.1.len := of_decide_eq_true (hallow.2 p hmem)
    rcases hlongest q hq with hlt | ⟨-, hle'⟩
    · omega
    · exact Bool.eq_true_of_true_le (hallow.1 ▸ hle')
  · intro hallow
    refine ⟨p, hmem, ?_⟩
    rw [hallow, Bool.true_and, List.all_eq_true]
    intro q hq
    apply decide_eq_true
    rcases hlongest q hq with hlt | ⟨heq, -⟩
    · exact Nat.le_of_lt hlt
    · exact Nat.le_of_eq heq

theorem policy_of_none {n : ℕ} {prefixes : List (Prefix n × Bool)} {addr : Bytes} {default : Bool}
    (h : ∀ p ∈ prefixes, ¬ p.1.Contains addr) : policy prefixes addr default = default := by
  have hnil : prefixes.filter (fun p => p.1.Contains addr) = [] := by
    rw [List.filter_eq_nil_iff]
    intro p hp hc
    exact h p hp (of_decide_eq_true hc)
  unfold policy
  dsimp only
  rw [if_pos hnil]

/-! ## First match -/

instance {W : Type} : Std.Total (Entry.Before (W := W)) where
  total a b := by
    unfold Entry.Before
    rcases Nat.lt_trichotomy a.len b.len with h | h | h
    · exact .inr (.inl h)
    · rcases le_total a.isAllow b.isAllow with h' | h'
      · exact .inr (.inr ⟨h, h'⟩)
      · exact .inl (.inr ⟨h.symm, h'⟩)
    · exact .inl (.inl h)

instance {W : Type} : IsTrans (Entry W) Entry.Before where
  trans a b c hab hbc := by
    rcases hab with h | ⟨h, hle⟩ <;> rcases hbc with h' | ⟨h', hle'⟩
    · exact .inl (h'.trans h)
    · exact .inl (h' ▸ h)
    · exact .inl (h ▸ h')
    · exact .inr ⟨h'.trans h, hle'.trans hle⟩

/-- The first match in a sorted list is in front of all other ones. -/
theorem find?_sorted {α : Type} {r : α → α → Prop} {p : α → Bool} {l : List α} {a : α}
    (hrefl : ∀ a, r a a) (hsorted : l.Pairwise r) (h : l.find? p = some a) :
    ∀ b ∈ l, p b = true → r a b := by
  intro b hb hpb
  obtain ⟨-, before, rest, rfl, hbefore⟩ := List.find?_eq_some_iff_append.mp h
  rcases List.mem_append.mp hb with hb | hb
  · exact absurd hpb (by simpa using hbefore b hb)
  · rcases List.mem_cons.mp hb with rfl | hb
    · exact hrefl b
    · exact List.rel_of_pairwise_cons (List.pairwise_append.mp hsorted).2.1 hb

/-- The entry of a prefix. -/
def toEntry {n : ℕ} {W : Type} (words : Prefix n → W × W × ℕ) (p : Prefix n × Bool) : Entry W :=
  ⟨(words p.1).1, (words p.1).2.1, (words p.1).2.2, p.2⟩

/-- The sorted rules of a family follow the policy. -/
theorem firstVerdict_filterRules {n : ℕ} {W : Type} (words : Prefix n → W × W × ℕ)
    (hlen : ∀ p, (words p).2.2 = p.len) {addr : Bytes} {hit : FilterRule W → Bool}
    (hhit : ∀ p v, hit ⟨(words p).1, (words p).2.1, v⟩ = true ↔ p.Contains addr)
    (prefixes : List (Prefix n × Bool)) (default : Bool) :
    firstVerdict hit (filterRules (prefixes.map (toEntry words))) (if default then 1 else 0) =
      if policy prefixes addr default then 1 else 0 := by
  have hmem : ∀ p ∈ prefixes, toEntry words p ∈
      (prefixes.map (toEntry words)).insertionSort Entry.Before := fun p hp =>
    (List.mem_insertionSort _).mpr (List.mem_map_of_mem hp)
  unfold firstVerdict filterRules
  rw [List.find?_map]
  cases hfind : ((prefixes.map (toEntry words)).insertionSort Entry.Before).find? (hit ∘ fun e =>
      FilterRule.mk e.network e.mask (if e.isAllow then 1 else 0)) with
  | none =>
    rw [List.find?_eq_none] at hfind
    rw [policy_of_none fun p hp hc => hfind _ (hmem p hp) ((hhit p.1 _).mpr hc)]
    rfl
  | some e =>
    obtain ⟨p, hp, rfl⟩ := List.mem_map.mp
      ((List.mem_insertionSort _).mp (List.mem_of_find?_eq_some hfind))
    have hhitp := List.find?_some hfind
    have hcontains : p.1.Contains addr := (hhit p.1 _).mp hhitp
    have hfirst : ∀ q ∈ prefixes, q.1.Contains addr →
        q.1.len < p.1.len ∨ q.1.len = p.1.len ∧ q.2 ≤ p.2 := by
      intro q hq hqc
      have hbefore : Entry.Before (toEntry words p) (toEntry words q) :=
        find?_sorted (fun e => .inr ⟨rfl, le_refl e.isAllow⟩)
          (List.pairwise_insertionSort Entry.Before _) hfind _ (hmem q hq) ((hhit q.1 _).mpr hqc)
      rw [Entry.Before, toEntry, toEntry, hlen, hlen] at hbefore
      exact hbefore
    rw [policy_of_first hp hcontains hfirst]
    rfl

/-- The entries of a family are those of its prefixes. -/
theorem entries_eq {n : ℕ} {W : Type} {words : Prefix n → W × W × ℕ}
    {prefixFromEntry : List Char → Option (W × W × ℕ)} {cidr : List Char → Option (Prefix n)}
    (h : ∀ e, prefixFromEntry e = (cidr e).map words) (allow deny : List (List Char)) :
    entries prefixFromEntry allow deny = (configured cidr allow deny).map (toEntry words) := by
  simp only [entries, configured, List.map_append, List.map_filterMap, h, Option.map_map]
  rfl

/-! ## The program -/

/-- The verdict of the policy for a packet that has as many octets as are asked of its version;
    other ones are allowed. -/
def policyVerdict (min4 min6 : ℕ) (allow deny : List (List Char)) (egress : Bool)
    (packet : Bytes) : Bool :=
  if version packet = 4 ∧ min4 ≤ packet.length then
    policy (configured ipv4Cidr allow deny) (addr4 packet egress) allow.isEmpty
  else if version packet = 6 ∧ min6 ≤ packet.length then
    policy (configured ipv6Cidr allow deny) (addr6 packet egress) allow.isEmpty
  else true

/-- The program gives every packet with a whole header, of 20 octets in IPv4 and of 40 in IPv6,
    the verdict of the policy, and allows all other ones. -/
theorem ipAddressProgram_correct {allow deny : List (List Char)} {egress : Bool}
    (hlen : (ipAddressProgram allow deny egress).length ≤ 2 ^ 15) (packet : Bytes) :
    skbVerdict (ipAddressProgram allow deny egress) packet =
      some (if policyVerdict 20 40 allow deny egress packet then 1 else 0) := by
  have h4 : 20 ≤ packet.length → (addr4 packet egress).length = 4 := by
    intro h
    have hstart : addrStart4 egress ≤ 16 := by cases egress <;> decide
    rw [addr4, List.length_take, List.length_drop]
    omega
  have h6 : 40 ≤ packet.length → (addr6 packet egress).length = 16 := by
    intro h
    have hstart : addrStart6 egress ≤ 24 := by cases egress <;> decide
    rw [addr6, List.length_take, List.length_drop]
    omega
  have hpacket : packetVerdict (filterRules (entries ipv4PrefixFromEntry allow deny))
      (filterRules (entries ipv6PrefixFromEntry allow deny)) (if allow.isEmpty then 1 else 0) egress
      packet = if policyVerdict 20 40 allow deny egress packet then 1 else 0 := by
    rw [packetVerdict, policyVerdict, entries_eq ipv4PrefixFromEntry_eq,
      entries_eq ipv6PrefixFromEntry_eq]
    split
    · rename_i hv4
      exact firstVerdict_filterRules words4 (fun _ => rfl)
        (fun p v => decide_eq_true_iff.trans (words4_hit p (h4 hv4.2))) _ _
    · split
      · rename_i hv6
        exact firstVerdict_filterRules words6 (fun _ => rfl)
          (fun p v => decide_eq_true_iff.trans (words6_hit p (h6 hv6.2))) _ _
      · rfl
  rw [ipAddressProgram, buildIpFilterProgram_eq] at hlen ⊢
  rw [skbVerdict, (returns_filterLayout rfl rfl hlen).run, hpacket]
  cases policyVerdict 20 40 allow deny egress packet <;> rfl

/-- An IPv4 header from 10.0.0.1 to 10.1.2.3. -/
def sampleHeader : Bytes :=
  [0x45, 0, 0, 20, 0, 0, 0, 0, 64, 17, 0, 0, 10, 0, 0, 1, 10, 1, 2, 3]

/-- A longer denying prefix wins over an allowing one. -/
theorem ipAddressProgram_correct_denied :
    skbVerdict (ipAddressProgram ["10.0.0.0/8".toList] ["10.1.0.0/16".toList] true) sampleHeader =
      some 0 :=
  (ipAddressProgram_correct (by decide) sampleHeader).trans (by decide)

/-- A packet that ends behind its source address, which is denied, is allowed. -/
theorem short_header_is_allowed :
    skbVerdict (ipAddressProgram [] ["any".toList] false) (sampleHeader.take 16) = some 1 ∧
      policyVerdict (addrStart4 false + 4) (addrStart6 false + 16) [] ["any".toList] false
        (sampleHeader.take 16) = false := by
  decide

end OxidizedSystemd.Cgroups
