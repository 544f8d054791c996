import VerifiableExchange.Inbox.Address
import VerifiableExchange.Lib.Result
import VerifiableExchange.Operator

/-!
# Proxies — who a request is charged to

The addresses whose forwarded header this service believes, and the walk over that header from the
right. Reading a header value as text is outside the repository and comes as a parameter, and so is
how a text is written between quotes in an error.
-/

namespace VerifiableExchange
namespace Inbox

open Lib

/-! ## Texts -/

def trimmed (text : List Char) : List Char := Operator.trim (String.ofList text)

/-- `split_once`: at the first separator. -/
def splitOnce (sep : Char) (text : List Char) : Option (List Char × List Char) :=
  if sep ∈ text then
    some (text.takeWhile (fun c => c ≠ sep), (text.dropWhile (fun c => c ≠ sep)).tail)
  else none

/-- `rsplit_once`: at the last separator. -/
def rsplitOnce (sep : Char) (text : List Char) : Option (List Char × List Char) :=
  (splitOnce sep text.reverse).map (fun (after, before) => (before.reverse, after.reverse))

/-! ## One proxy or one network of them -/

namespace IpAddr

/-- Clears every bit below the prefix. -/
def mask (prefixLen : Nat) : IpAddr → IpAddr
  | v4 addr => v4 (maskV4 addr prefixLen)
  | v6 addr => v6 (maskV6 addr prefixLen)

end IpAddr

/-- One address, or one network, whose forwarded header this service believes. `base` has every bit
below the prefix cleared. -/
structure ProxyNet where
  base : IpAddr
  prefixLen : Nat
  le_bits : prefixLen ≤ base.bits
  masked : base.mask prefixLen = base
  deriving DecidableEq

namespace ProxyNet

def contains (net : ProxyNet) (ip : IpAddr) : Bool :=
  match net.base, ip with
  | .v4 base, .v4 ip => maskV4 ip net.prefixLen = base
  | .v6 base, .v6 ip => maskV6 ip net.prefixLen = base
  -- What is left is a real difference of family.
  | _, _ => false

end ProxyNet

/-- The prefix length after the slash, and every bit without one. -/
def readPrefixLen (quoted : List Char → String) (spec : List Char) (addr : IpAddr) :
    Option (List Char) → Except String Nat
  | none => .ok addr.bits
  | some bits =>
      orFail (fromStrRadix 10 (2 ^ 32 - 1) bits)
        (s!"--trusted-proxy {String.ofList spec}: {quoted bits} is not a prefix length. Write " ++
          "it as a number of bits, for example 172.17.0.0/16")

/-- The net of an address and a prefix length. Bits set below the prefix are refused, and not masked
away. -/
def checkedNet (spec : List Char) (addr : IpAddr) (prefixLen : Nat) : Except String ProxyNet :=
  if hbits : addr.bits < prefixLen then
    .error (s!"--trusted-proxy {String.ofList spec}: /{prefixLen} is longer than an " ++
      s!"{addr.family} address, which is {addr.bits} bits")
  else
    let base := addr.mask prefixLen
    if hbase : base ≠ addr then
      .error (s!"--trusted-proxy {String.ofList spec} has bits set below the /{prefixLen}, so " ++
        s!"it does not name the host {addr}: it names every address in {base}/{prefixLen}. Write " ++
        s!"{base}/{prefixLen} if that is what you meant, or {addr} on its own to trust that one " ++
        "host")
    else
      .ok ⟨addr, prefixLen, Nat.le_of_not_lt hbits, not_not.1 hbase⟩

/-- The text of the address and the text of the prefix length. -/
def splitSpec (spec : List Char) : List Char × Option (List Char) :=
  match splitOnce '/' spec with
  | some (addr, bits) => (trimmed addr, some (trimmed bits))
  | none => (spec, none)

/-- Reads one `--trusted-proxy` value: an address, or a network in prefix form. -/
def parseTrustedProxy (quoted : List Char → String) (spec : List Char) :
    Except String ProxyNet := do
  let (addrText, prefixText) := splitSpec spec
  let addr ← orFail (parseIpAddr addrText)
    (s!"--trusted-proxy {String.ofList spec}: {quoted addrText} is not an IP address. Give the " ++
      "address the proxy connects from, or the network it is on, for example 172.17.0.0/16")
  let addr := canonicalIp addr
  let prefixLen ← readPrefixLen quoted spec addr prefixText
  checkedNet spec addr prefixLen

/-- The text starts with the value it is about. -/
def Names (spec : List Char) (reason : String) : Prop :=
  ∃ rest, reason = "--trusted-proxy " ++ String.ofList spec ++ rest

/-- Every refusal of a value names the value. -/
theorem names_of_parseTrustedProxy {quoted : List Char → String} {spec : List Char}
    {reason : String} (h : parseTrustedProxy quoted spec = .error reason) : Names spec reason := by
  have names : ∀ {T : Type} {value : Option T} {text e : String},
      orFail value (toString "--trusted-proxy " ++ toString (String.ofList spec) ++ text) =
        .error e → Names spec e := by
    intro T value text e he
    cases value with
    | none =>
        cases he
        exact ⟨text, rfl⟩
    | some value => cases he
  rcases bind_eq_error.1 h with h | ⟨addr, -, h⟩
  · simp only [String.append_assoc] at h names
    exact names h
  rcases bind_eq_error.1 h with h | ⟨prefixLen, -, h⟩
  · unfold readPrefixLen at h
    split at h
    · cases h
    · simp only [String.append_assoc] at h names
      exact names h
  unfold checkedNet at h
  dsimp only at h
  split_ifs at h
  · cases h
    exact ⟨_, by simp only [String.append_assoc]; rfl⟩
  · cases h
    exact ⟨_, by simp only [String.append_assoc]; rfl⟩

/-! ## The list of them -/

structure TrustedProxies where
  nets : List ProxyNet

namespace TrustedProxies

/-- Reads every `--trusted-proxy` value, and refuses the whole list if one is not an address or a
network. A blank value is dropped. -/
def parse (quoted : List Char → String) (specs : List String) : Except String TrustedProxies := do
  let nets ← specs.foldlM (fun nets spec => do
    let spec := Operator.trim spec
    if spec = [] then return nets
    else do
      let net ← parseTrustedProxy quoted spec
      return if net ∈ nets then nets else nets ++ [net]) []
  return ⟨nets⟩

def contains (trusted : TrustedProxies) (ip : IpAddr) : Bool :=
  trusted.nets.any (fun net => net.contains (canonicalIp ip))

end TrustedProxies

/-! ## The header -/

/-- One `X-Forwarded-For` entry as an address, or nothing if it is not one. -/
def parseForwardedEntry (entry : List Char) : Option IpAddr :=
  match trimmed entry with
  | [] => none
  | '[' :: rest => do
      let (inside, _port) ← splitOnce ']' rest
      return canonicalIp (.v6 (← parseIpv6Addr inside))
  | entry =>
      match parseIpAddr entry with
      | some ip => some (canonicalIp ip)
      | none => do
          -- Only IPv4 with a port reaches this line.
          let (host, _port) ← rsplitOnce ':' entry
          return canonicalIp (.v4 (← parseIpv4Addr host))

/-- Who sent one request: the address of the socket's peer, and the header values as they
arrived. -/
structure Caller (HeaderValue : Type) where
  peer : IpAddr
  forwarded : List HeaderValue

/-- The entries of the header values, in order, when every value is text. -/
def entriesOf {HeaderValue : Type} (toStr : HeaderValue → Option String)
    (forwarded : List HeaderValue) : Option (List (List Char)) :=
  (forwarded.mapM toStr).map (List.flatMap (fun text => (text.toList.splitOn ',').map trimmed))

/-- The walk over the entries, the last one first. -/
def walkEntries (trusted : TrustedProxies) (peer : IpAddr) : List (List Char) → IpAddr
  | [] => peer
  | entry :: rest =>
      match parseForwardedEntry entry with
      | none => peer
      | some ip => if trusted.contains ip then walkEntries trusted peer rest else ip

/-- The address a caller is rate limited on. -/
def clientIp {HeaderValue : Type} (toStr : HeaderValue → Option String)
    (caller : Caller HeaderValue) (trusted : TrustedProxies) : IpAddr :=
  let peer := canonicalIp caller.peer
  if trusted.contains peer then
    match entriesOf toStr caller.forwarded with
    | none => peer
    | some entries => walkEntries trusted peer entries.reverse
  else peer

/-! ## Which addresses are trusted -/

namespace ProxyNet

/-- A base with nothing below the prefix covers what has its highest bits. -/
theorem contains_iff (net : ProxyNet) (ip : IpAddr) :
    net.contains ip = true ↔ net.base.SameTop net.prefixLen ip := by
  obtain ⟨base, prefixLen, hbits, hmasked⟩ := net
  cases base with
  | v4 base =>
      have hbase : keepTop prefixLen base = base := by
        rw [← maskBits_eq]
        exact IpAddr.v4.inj hmasked
      cases ip with
      | v4 ip =>
          calc decide (maskV4 ip prefixLen = base) = true ↔ maskV4 ip prefixLen = base :=
                decide_eq_true_iff
            _ ↔ keepTop prefixLen ip = base := by rw [maskV4, maskBits_eq]
            _ ↔ Lib.SameTop prefixLen base ip := keepTop_eq_iff hbits hbase
      | v6 ip => exact iff_of_false Bool.false_ne_true id
  | v6 base =>
      have hbase : keepTop prefixLen base = base := by
        rw [← maskBits_eq]
        exact IpAddr.v6.inj hmasked
      cases ip with
      | v4 ip => exact iff_of_false Bool.false_ne_true id
      | v6 ip =>
          calc decide (maskV6 ip prefixLen = base) = true ↔ maskV6 ip prefixLen = base :=
                decide_eq_true_iff
            _ ↔ keepTop prefixLen ip = base := by rw [maskV6, maskBits_eq]
            _ ↔ Lib.SameTop prefixLen base ip := keepTop_eq_iff hbits hbase

end ProxyNet

/-- The block a text names: an address alone is a block of one, and the length after a slash is read
in the family of the address's one spelling. -/
def blockNamed (spec : List Char) : Option (IpAddr × Nat) :=
  match splitOnce '/' spec with
  | none => (parseIpAddr spec).map (fun addr => (canonicalIp addr, (canonicalIp addr).bits))
  | some (addr, bits) => do
      let addr ← parseIpAddr (trimmed addr)
      let prefixLen ← fromStrRadix 10 (2 ^ 32 - 1) (trimmed bits)
      return (canonicalIp addr, prefixLen)

theorem blockNamed_of_parseTrustedProxy {quoted : List Char → String} {spec : List Char}
    {net : ProxyNet} (h : parseTrustedProxy quoted spec = .ok net) :
    blockNamed spec = some (net.base, net.prefixLen) := by
  obtain ⟨addr, haddr, h⟩ := bind_eq_ok.1 h
  obtain ⟨prefixLen, hprefix, h⟩ := bind_eq_ok.1 h
  unfold checkedNet at h
  dsimp only at h
  split_ifs at h
  cases h
  have hread := orFail_eq_ok.1 haddr
  unfold blockNamed
  cases hsplit : splitOnce '/' spec with
  | none =>
      simp only [hsplit] at hread hprefix ⊢
      cases hprefix
      rw [hread]
      rfl
  | some parts =>
      obtain ⟨addrText, bits⟩ := parts
      simp only [hsplit] at hread hprefix ⊢
      rw [hread, orFail_eq_ok.1 hprefix]
      rfl

/-- A blank text names no block. -/
theorem blockNamed_nil : blockNamed [] = none := by decide +kernel

/-- A list that was read has one net for each value that is not blank. -/
theorem mem_nets_iff {quoted : List Char → String} {specs : List String} {trusted : TrustedProxies}
    (h : TrustedProxies.parse quoted specs = .ok trusted) (block : IpAddr × Nat) :
    (∃ net ∈ trusted.nets, block = (net.base, net.prefixLen)) ↔
      ∃ spec ∈ specs, blockNamed (Operator.trim spec) = some block := by
  obtain ⟨nets, hnets, h⟩ := bind_eq_ok.1 h
  cases h
  refine foldlM_reads (fun read nets => (∃ net ∈ nets, block = (net.base, net.prefixLen)) ↔
    ∃ spec ∈ read, blockNamed (Operator.trim spec) = some block) ?_ specs [] [] nets ?_ hnets
  · intro read nets spec nets' hread hstep
    have hmore : (∃ spec' ∈ read ++ [spec], blockNamed (Operator.trim spec') = some block) ↔
        (∃ net ∈ nets, block = (net.base, net.prefixLen)) ∨
          blockNamed (Operator.trim spec) = some block := by
      rw [hread]
      simp [or_and_right, exists_or]
    rw [hmore]
    dsimp only at hstep
    split_ifs at hstep with hblank
    · cases hstep
      rw [hblank, blockNamed_nil]
      simp
    · obtain ⟨net, hnet, hstep⟩ := bind_eq_ok.1 hstep
      cases hstep
      rw [blockNamed_of_parseTrustedProxy hnet, Option.some.injEq]
      split_ifs with hmem
      · constructor
        · exact .inl
        · rintro (h | rfl)
          · exact h
          · exact ⟨net, hmem, rfl⟩
      · simp [or_and_right, exists_or, eq_comm]
  · exact iff_of_false (by simp) (by simp)

namespace TrustedProxies

/-- An address is trusted exactly when its one spelling is inside a block the operator named. -/
theorem contains_iff {quoted : List Char → String} {specs : List String} {trusted : TrustedProxies}
    (h : TrustedProxies.parse quoted specs = .ok trusted) (ip : IpAddr) :
    trusted.contains ip = true ↔ ∃ spec ∈ specs, ∃ addr prefixLen,
      blockNamed (Operator.trim spec) = some (addr, prefixLen) ∧
        addr.SameTop prefixLen (canonicalIp ip) := by
  unfold contains
  rw [List.any_eq_true]
  constructor
  · rintro ⟨net, hnet, hcontains⟩
    obtain ⟨spec, hspec, hblock⟩ := (mem_nets_iff h _).1 ⟨net, hnet, rfl⟩
    exact ⟨spec, hspec, _, _, hblock, (net.contains_iff _).1 hcontains⟩
  · rintro ⟨spec, hspec, addr, prefixLen, hblock, htop⟩
    obtain ⟨net, hnet, heq⟩ := (mem_nets_iff h _).2 ⟨spec, hspec, hblock⟩
    cases heq
    exact ⟨net, hnet, (net.contains_iff _).2 htop⟩

end TrustedProxies

/-- The IPv6 spelling of an IPv4 address. -/
def mappedForm (addr : BitVec 32) : IpAddr := .v6 ((0xffff : BitVec 96) ++ addr)

theorem canonicalIp_mappedForm (addr : BitVec 32) : canonicalIp (mappedForm addr) = .v4 addr := by
  have hmapped : toIpv4Mapped ((0xffff : BitVec 96) ++ addr) = some addr := by
    unfold toIpv4Mapped
    have hhigh : ((0xffff : BitVec 96) ++ addr) >>> 32 = (0xffff : BitVec 128) := by
      have := addr.isLt
      apply BitVec.eq_of_toNat_eq
      rw [BitVec.toNat_ushiftRight, BitVec.toNat_append, Nat.shiftRight_eq_div_pow,
        ← Nat.shiftLeft_add_eq_or_of_lt this, Nat.shiftLeft_eq]
      simp
      omega
    rw [if_pos hhigh]
    exact congrArg some BitVec.setWidth_append_eq_right
  simp only [mappedForm, canonicalIp, hmapped]

/-! ## The walk -/

/-- An entry the walk does not go past: not an address, or not a trusted one. -/
def Stops (trusted : TrustedProxies) (entry : List Char) : Prop :=
  ∀ ip, parseForwardedEntry entry = some ip → trusted.contains ip = false

/-- The rightmost readable entry that is not a trusted proxy. -/
def rightmostUntrusted (trusted : TrustedProxies) (entries : List (List Char)) : Option IpAddr :=
  (entries.reverse.filterMap parseForwardedEntry).find? (fun ip => !trusted.contains ip)

theorem walkEntries_append {trusted : TrustedProxies} {peer : IpAddr} {entry : List Char}
    (hstops : Stops trusted entry) (right left left' : List (List Char)) :
    walkEntries trusted peer (right ++ entry :: left) =
      walkEntries trusted peer (right ++ entry :: left') := by
  induction right with
  | nil =>
      simp only [List.nil_append, walkEntries]
      cases hread : parseForwardedEntry entry with
      | none => rfl
      | some ip => simp only [hstops ip hread, Bool.false_eq_true, if_false]
  | cons next right ih =>
      simp only [List.cons_append, walkEntries]
      rw [ih]

theorem walkEntries_eq (trusted : TrustedProxies) (peer : IpAddr) (entries : List (List Char)) :
    walkEntries trusted peer entries = peer ∨
      (entries.filterMap parseForwardedEntry).find? (fun ip => !trusted.contains ip) =
        some (walkEntries trusted peer entries) := by
  induction entries with
  | nil => exact .inl rfl
  | cons entry rest ih =>
      cases hread : parseForwardedEntry entry with
      | none =>
          simp only [walkEntries, hread, true_or]
      | some ip =>
          rw [List.filterMap_cons_some hread, List.find?_cons]
          cases hcontains : trusted.contains ip with
          | true =>
              simp only [walkEntries, hread, hcontains, if_true]
              exact ih
          | false =>
              simp only [walkEntries, hread, hcontains, Bool.false_eq_true, if_false]
              exact .inr rfl

/-! ## Who is charged -/

section

variable {HeaderValue : Type} {toStr : HeaderValue → Option String} {trusted : TrustedProxies}
  {peer : IpAddr} {forwarded : List HeaderValue}

theorem clientIp_of_untrusted (h : trusted.contains (canonicalIp peer) = false) :
    clientIp toStr ⟨peer, forwarded⟩ trusted = canonicalIp peer := by
  unfold clientIp
  rw [if_neg (by rw [h]; exact Bool.false_ne_true)]

/-- Bytes that are not text anywhere in the header leave the peer as the caller. -/
theorem clientIp_of_unreadable (h : entriesOf toStr forwarded = none) :
    clientIp toStr ⟨peer, forwarded⟩ trusted = canonicalIp peer := by
  unfold clientIp
  rw [h]
  exact ite_self _

theorem clientIp_of_entries {entries : List (List Char)}
    (htrusted : trusted.contains (canonicalIp peer) = true)
    (h : entriesOf toStr forwarded = some entries) :
    clientIp toStr ⟨peer, forwarded⟩ trusted =
      walkEntries trusted (canonicalIp peer) entries.reverse := by
  unfold clientIp
  rw [if_pos htrusted, h]

/-- The caller is the peer or the rightmost readable entry that is not a trusted proxy. -/
theorem clientIp_cases : clientIp toStr ⟨peer, forwarded⟩ trusted = canonicalIp peer ∨
    ∃ entries, entriesOf toStr forwarded = some entries ∧
      rightmostUntrusted trusted entries = some (clientIp toStr ⟨peer, forwarded⟩ trusted) := by
  cases htrusted : trusted.contains (canonicalIp peer) with
  | false => exact .inl (clientIp_of_untrusted htrusted)
  | true =>
      cases hentries : entriesOf toStr forwarded with
      | none => exact .inl (clientIp_of_unreadable hentries)
      | some entries =>
          rw [clientIp_of_entries htrusted hentries]
          rcases walkEntries_eq trusted (canonicalIp peer) entries.reverse with h | h
          · exact .inl h
          · exact .inr ⟨entries, rfl, h⟩

/-- Readable headers that agree from an entry the walk stops at have the same caller. -/
theorem clientIp_congr {forwarded' : List HeaderValue} {entry : List Char}
    {left left' right : List (List Char)} (hstops : Stops trusted entry)
    (h : entriesOf toStr forwarded = some (left ++ entry :: right))
    (h' : entriesOf toStr forwarded' = some (left' ++ entry :: right)) :
    clientIp toStr ⟨peer, forwarded⟩ trusted = clientIp toStr ⟨peer, forwarded'⟩ trusted := by
  cases htrusted : trusted.contains (canonicalIp peer) with
  | false => rw [clientIp_of_untrusted htrusted, clientIp_of_untrusted htrusted]
  | true =>
      rw [clientIp_of_entries htrusted h, clientIp_of_entries htrusted h']
      simp only [List.reverse_append, List.reverse_cons, List.append_assoc, List.singleton_append]
      exact walkEntries_append hstops right.reverse left.reverse left'.reverse

end

/-- `HeaderValue::to_str`: the value when every byte is visible ASCII or a tab. -/
def visibleText (value : Bytes) : Option String :=
  if value.all (fun byte => (32 ≤ byte && byte < 127) || byte = 9) then
    some (String.ofList (value.map (fun byte => Char.ofNat byte.toNat)))
  else none

def bytesOf (text : String) : Bytes := text.toList.map (fun c => UInt8.ofNat c.toNat)

/-- One proxy, as the operator names it. -/
def sampleProxies : TrustedProxies := ⟨[⟨.v4 0xac110003, 32, by decide, by decide⟩]⟩

/-- A header line to the left of the entry decides the caller when it is not text. -/
theorem left_line_not_text :
    ¬∀ (trusted : TrustedProxies) (peer ip : IpAddr) (left left' right : List Bytes) (line : Bytes),
      parseForwardedEntry (line.map (fun byte => Char.ofNat byte.toNat)) = some ip →
        trusted.contains ip = false →
          clientIp visibleText ⟨peer, left ++ line :: right⟩ trusted =
            clientIp visibleText ⟨peer, left' ++ line :: right⟩ trusted := by
  intro h
  have hsame := h sampleProxies (.v4 0xac110003) (.v4 0xcb007109) [[0xff]] [] []
    (bytesOf "203.0.113.9") (by decide +kernel) (by decide +kernel)
  revert hsame
  decide +kernel

/-- The header cannot choose who is charged. An address is trusted exactly when its one spelling is
in a block the operator named. The caller is the peer or the rightmost readable entry that is not
trusted; the header counts for nothing when the peer is not trusted or a value is not text; and what
is to the left of an entry the walk stops at counts for nothing in a header that is text. -/
theorem forwarded_cannot_choose {HeaderValue : Type} (toStr : HeaderValue → Option String)
    {quoted : List Char → String} {specs : List String} {trusted : TrustedProxies}
    (hparse : TrustedProxies.parse quoted specs = .ok trusted) :
    (∀ ip, trusted.contains ip = true ↔ ∃ spec ∈ specs, ∃ addr prefixLen,
      blockNamed (Operator.trim spec) = some (addr, prefixLen) ∧
        addr.SameTop prefixLen (canonicalIp ip)) ∧
    (∀ addr, trusted.contains (mappedForm addr) = trusted.contains (.v4 addr)) ∧
    (∀ peer forwarded, clientIp toStr ⟨peer, forwarded⟩ trusted = canonicalIp peer ∨
      ∃ entries, entriesOf toStr forwarded = some entries ∧
        rightmostUntrusted trusted entries = some (clientIp toStr ⟨peer, forwarded⟩ trusted)) ∧
    (∀ peer, trusted.contains peer = false → ∀ forwarded,
      clientIp toStr ⟨peer, forwarded⟩ trusted = canonicalIp peer) ∧
    (∀ peer forwarded, entriesOf toStr forwarded = none →
      clientIp toStr ⟨peer, forwarded⟩ trusted = canonicalIp peer) ∧
    (∀ peer forwarded forwarded' left left' entry right, Stops trusted entry →
      entriesOf toStr forwarded = some (left ++ entry :: right) →
      entriesOf toStr forwarded' = some (left' ++ entry :: right) →
        clientIp toStr ⟨peer, forwarded⟩ trusted = clientIp toStr ⟨peer, forwarded'⟩ trusted) := by
  have hcanonical : ∀ ip, trusted.contains (canonicalIp ip) = trusted.contains ip := by
    intro ip
    unfold TrustedProxies.contains
    rw [canonicalIp_canonicalIp]
  refine ⟨TrustedProxies.contains_iff hparse, fun addr => ?_, fun _ _ => clientIp_cases,
    fun peer hpeer _ => clientIp_of_untrusted ((hcanonical peer).trans hpeer),
    fun _ _ hnone => clientIp_of_unreadable hnone,
    fun _ _ _ _ _ _ _ hstops h h' => clientIp_congr hstops h h'⟩
  calc trusted.contains (mappedForm addr)
      = trusted.contains (canonicalIp (mappedForm addr)) := (hcanonical _).symm
    _ = trusted.contains (.v4 addr) := by rw [canonicalIp_mappedForm]

/-- A network, as it is read. -/
def sampleNetwork : TrustedProxies := ⟨[⟨.v4 0xac110000, 16, by decide, by decide⟩]⟩

/-- A network read in prefix form, and a chain read from the right past one of its addresses, up to
an entry to the left of which anything may stand. -/
theorem forwarded_cannot_choose_sample :
    sampleNetwork.contains (mappedForm 0xac110003) = true ∧
      clientIp visibleText ⟨.v4 0xac110003, [bytesOf "10.0.0.1, 203.0.113.9, 172.17.4.5:80"]⟩
        sampleNetwork = .v4 0xcb007109 ∧
      clientIp visibleText
        ⟨.v4 0xac110003, [bytesOf "_hidden,203.0.113.9", bytesOf "172.17.4.5:80"]⟩
        sampleNetwork = .v4 0xcb007109 := by
  have hparse : TrustedProxies.parse String.ofList ["172.17.0.0/16", " "] = .ok sampleNetwork := rfl
  obtain ⟨-, hmapped, -, -, -, hcongr⟩ := forwarded_cannot_choose visibleText hparse
  have hclient : clientIp visibleText
      ⟨.v4 0xac110003, [bytesOf "10.0.0.1, 203.0.113.9, 172.17.4.5:80"]⟩ sampleNetwork =
        .v4 0xcb007109 := by decide +kernel
  have hstops : Stops sampleNetwork "203.0.113.9".toList := by
    intro ip hip
    have hread : parseForwardedEntry "203.0.113.9".toList = some (.v4 0xcb007109) := by
      decide +kernel
    cases hread.symm.trans hip
    decide +kernel
  refine ⟨(hmapped _).trans (by decide +kernel), hclient, ?_⟩
  rw [← hcongr _ [bytesOf "10.0.0.1, 203.0.113.9, 172.17.4.5:80"] _ ["10.0.0.1".toList]
    ["_hidden".toList] _ ["172.17.4.5:80".toList] hstops (by decide +kernel) (by decide +kernel)]
  exact hclient

end Inbox
end VerifiableExchange
