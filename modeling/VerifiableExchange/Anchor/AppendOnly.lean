import VerifiableExchange.Anchor.Collect
import Mathlib.Data.List.Chain
import Mathlib.Logic.Relation

/-!
# AppendOnly — what the record of one exchange cannot take back

The contract compares numbers, and the sender compares trees. Whatever transactions reach the
contract, its anchors only move forward; and where one sender writes nothing but what it collected
against the newest anchor, every root is of a tree that starts with the tree before it.
-/

namespace VerifiableExchange
namespace Anchor

open Lib Merkle

/-! ## The contract over all transactions -/

/-- Two anchors of one record, in the order they were written. -/
structure Before (earlier later : AnchoredRoot) : Prop where
  session : earlier.session = later.session
  newer : earlier.treeSize < later.treeSize
  forward : earlier.lastId ≤ later.lastId

/-- What holds of a contract and its events after any transactions. -/
structure AppendOnly (deployer : Address) (r : Record) : Prop where
  writer : r.contract.writer = deployer
  counted : r.contract.count = r.events.length
  ordered : r.events.Pairwise Before
  inside : ∀ event ∈ r.events, event.lastId ≤ event.treeSize
  positive : ∀ event ∈ r.events, 0 < event.treeSize
  newest : ∀ event, r.events.getLast? = some event → r.contract.latest = event
  named : r.contract.session = noSession ↔ r.events = []
  session : ∀ event ∈ r.events, event.session = r.contract.session
  newer : ∀ event ∈ r.events, event.treeSize ≤ r.contract.treeSize
  forward : ∀ event ∈ r.events, event.lastId ≤ r.contract.lastId

namespace Record

/-- What a transaction that changes anything does: it adds the writer's anchor after the newest
one. -/
structure Writes (r : Record) (tx : Transaction) (args : AnchorArgs) (after : ExchangeRootAnchor) :
    Prop where
  call : tx.call = .anchor args
  accepts : r.contract.Accepts tx.sender args
  result : r.transact tx = ⟨after, r.events ++ [after.latest]⟩
  writer : after.writer = r.contract.writer
  treeSize : after.treeSize = args.treeSize
  lastId : after.lastId = args.lastId
  session : after.session = args.session
  rootHash : after.rootHash = args.rootHash
  count : after.count = r.contract.count + 1

theorem transact_cases (r : Record) (tx : Transaction) :
    r.transact tx = r ∨ ∃ args after, r.Writes tx args after := by
  rcases hexecute : r.execute tx with reason | after
  · left
    rw [transact, hexecute]
  · have hresult : r.transact tx = after := by rw [transact, hexecute]
    unfold execute at hexecute
    split at hexecute
    · cases hexecute
    split at hexecute
    · cases hexecute
    · cases hexecute
      exact .inl hresult
    rename_i args hcall
    split at hexecute
    · cases hexecute
    split at hexecute
    · cases hexecute
    rename_i contract event hanchor
    cases hexecute
    right
    have haccepts := ExchangeRootAnchor.accepts_of_anchor hanchor
    obtain ⟨contract', event', hanchor', rfl, hwriter, hsize, hlast, hsession, hroot, hcount⟩ :=
      ExchangeRootAnchor.anchor_of_accepts haccepts tx.blockTimestamp
    rw [hanchor] at hanchor'
    cases hanchor'
    exact ⟨args, contract, hcall, haccepts, hresult, hwriter, hsize, hlast, hsession, hroot, hcount⟩

/-- A stranger changes nothing. -/
theorem transact_of_ne {r : Record} {tx : Transaction} (h : tx.sender ≠ r.contract.writer) :
    r.transact tx = r := by
  rcases r.transact_cases tx with hsame | ⟨args, after, hwrites⟩
  · exact hsame
  · exact absurd hwrites.accepts.writer h

end Record

namespace AppendOnly

variable {deployer : Address} {r : Record}

/-- Every anchor there is comes before one the contract accepts. -/
theorem before_of_writes (h : AppendOnly deployer r) {tx : Transaction} {args : AnchorArgs}
    {after : ExchangeRootAnchor} (hwrites : r.Writes tx args after) :
    ∀ event ∈ r.events, Before event after.latest := by
  intro event hevent
  have hset : r.contract.session ≠ noSession :=
    fun hnone => List.ne_nil_of_mem hevent (h.named.1 hnone)
  refine ⟨?_, ?_, ?_⟩
  · calc
      event.session = r.contract.session := h.session event hevent
      _ = args.session := (hwrites.accepts.session.resolve_left hset).symm
      _ = after.session := hwrites.session.symm
  · calc
      event.treeSize ≤ r.contract.treeSize := h.newer event hevent
      _ < args.treeSize := hwrites.accepts.newer
      _ = after.treeSize := hwrites.treeSize.symm
  · calc
      event.lastId ≤ r.contract.lastId := h.forward event hevent
      _ ≤ args.lastId := hwrites.accepts.forward
      _ = after.lastId := hwrites.lastId.symm

theorem transact (h : AppendOnly deployer r) (tx : Transaction) :
    AppendOnly deployer (r.transact tx) := by
  rcases r.transact_cases tx with hsame | ⟨args, after, hwrites⟩
  · rw [hsame]
    exact h
  · have hbefore := h.before_of_writes hwrites
    rw [hwrites.result]
    -- The new event is what the contract now holds; every other one comes before it.
    have hall : ∀ {P : AnchoredRoot → Prop}, (∀ event ∈ r.events, P event) → P after.latest →
        ∀ event ∈ r.events ++ [after.latest], P event := by
      intro P hold hnew event hevent
      rcases List.mem_append.1 hevent with hin | hlast
      · exact hold event hin
      · exact List.mem_singleton.1 hlast ▸ hnew
    refine ⟨?_, ?_, ?_, ?_, ?_, ?_, ?_, ?_, ?_, ?_⟩
    · exact hwrites.writer.trans h.writer
    · rw [List.length_append, ← h.counted]
      exact hwrites.count
    · exact List.pairwise_append.2 ⟨h.ordered, List.pairwise_singleton _ _,
        fun event hevent new hnew => List.mem_singleton.1 hnew ▸ hbefore event hevent⟩
    · refine hall h.inside ?_
      show after.lastId ≤ after.treeSize
      rw [hwrites.lastId, hwrites.treeSize]
      exact hwrites.accepts.inside
    · refine hall h.positive ?_
      show 0 < after.treeSize
      rw [hwrites.treeSize]
      exact Nat.lt_of_le_of_lt (Nat.zero_le _) hwrites.accepts.newer
    · intro event hevent
      rw [List.getLast?_append_of_ne_nil _ (List.cons_ne_nil _ _)] at hevent
      exact Option.some.inj hevent
    · constructor
      · exact fun hnone => absurd (hwrites.session.symm.trans hnone) hwrites.accepts.named
      · exact fun hnil => absurd hnil (List.append_ne_nil_of_right_ne_nil _ (List.cons_ne_nil _ _))
    · exact hall (fun event hevent => (hbefore event hevent).session) rfl
    · exact hall (fun event hevent => (hbefore event hevent).newer.le) le_rfl
    · exact hall (fun event hevent => (hbefore event hevent).forward) le_rfl

end AppendOnly

/-! ## One sender -/

/-- The earlier root is of the start of every list of entries the later root is of, or what was
hashed to show it holds a collision. -/
def Extends (sha256 : Bytes → Hash) (earlier later : AnchoredRoot) : Prop :=
  ∃ path, ∀ entries : List Bytes, entries.length = later.treeSize →
    treeHash sha256 entries = later.rootHash →
    earlier.rootHash = treeHash sha256 (entries.take earlier.treeSize) ∨
      Collision sha256 (treeInputs sha256 entries)
        (consistencyHashed sha256 earlier.treeSize later.treeSize earlier.rootHash path)

/-- The chain, and the sender's transaction that has not landed. -/
structure System where
  record : Record
  pending : Option AnchorArgs

/-- The sender has deployed the contract and written nothing. -/
def System.start (key : Address) : System := ⟨.deploy key, none⟩

/-- What happens next: a transaction of another account, a tick of the sender, or its transaction
lands. A transaction that has not landed by the next tick never does. -/
inductive Step (go : Primitives) (key : Address) (s : System) : System → Prop
  | stranger (tx : Transaction) (h : tx.sender ≠ key) :
      Step go key s { s with record := s.record.transact tx }
  | tick (served : Served) (sent : Bool) :
      Step go key s { s with
        pending :=
          if sent then (tick go served s.record.contract.latest).toOption else none }
  | land (args : AnchorArgs) (blockTimestamp : Nat) (h : s.pending = some args) :
      Step go key s ⟨s.record.transact ⟨key, 0, blockTimestamp, .anchor args⟩, none⟩

/-- What the sender has compared the call with: the anchor it was collected against. -/
def Compared (sha256 : Bytes → Hash) (onChain : AnchorState) (args : AnchorArgs) : Prop :=
  ¬onChain.Empty → ∃ path, Merkle.Anchor.verifyConsistency sha256 onChain.treeSize args.treeSize
    onChain.rootHash args.rootHash path = true

section

variable {go : Primitives} {served : Served} {onChain : AnchorState}

theorem compared_of_extendsTree {sth : SignedTreeHead} {size : Nat} {anchored root : Hash}
    {proof : Nat → Nat → Except String ConsistencyProof}
    (h : extendsTree go proof anchored size sth = .ok ()) (hroot : hex32 sth.rootHash = some root) :
    ∃ path,
      Merkle.Anchor.verifyConsistency go.sha256 size sth.treeSize anchored root path = true := by
  simp only [extendsTree, bind_eq_ok, require_eq_ok, orFail_eq_ok] at h
  obtain ⟨-, -, -, -, path, -, root', hroot', hverify⟩ := h
  rw [hroot] at hroot'
  cases hroot'
  exact ⟨path, hverify⟩

/-- A call a tick builds is over a larger tree, which was compared with the anchored one. -/
theorem compared_of_tick {args : AnchorArgs} (h : tick go served onChain = .ok args) :
    Compared go.sha256 onChain args := by
  simp only [tick, bind_eq_ok, mapError_eq_ok, require_eq_ok] at h
  obtain ⟨facts, hcollect, -, hnewer, hargs⟩ := h
  simp only [anchorCalldata, bind_eq_ok, orFail_eq_ok] at hargs
  obtain ⟨session, -, hargs⟩ := hargs
  cases hargs
  simp only [collect, bind_eq_ok, require_eq_ok, orFail_eq_ok] at hcollect
  obtain ⟨envelope, -, -, -, -, -, -, -, page, -, claim, -, -, -, stateRoot, -, sth, -, -, -, root,
    hroot, _, hanchored, hfacts⟩ := hcollect
  cases hfacts
  intro hempty
  simp only [checkAnchored, if_neg hempty, bind_eq_ok] at hanchored
  obtain ⟨-, -, hextends⟩ := hanchored
  rw [if_pos hnewer] at hextends
  exact compared_of_extendsTree hextends hroot

theorem extends_of_compared {sha256 : Bytes → Hash} {earlier later : AnchoredRoot}
    {args : AnchorArgs} (h : Compared sha256 earlier args) (hcount : earlier.count ≠ 0)
    (hpos : 0 < earlier.treeSize) (hle : earlier.treeSize ≤ later.treeSize)
    (hsize : later.treeSize = args.treeSize) (hroot : later.rootHash = args.rootHash) :
    Extends sha256 earlier later := by
  obtain ⟨path, hverify⟩ := h hcount
  refine ⟨path, fun entries hlength hentries => ?_⟩
  rw [Merkle.Anchor.verifyConsistency_eq, ← hsize, ← hlength, ← hroot, ← hentries] at hverify
  rw [← hlength] at hle ⊢
  exact verifyConsistency_sound hpos hle hverify

/-- What holds of every state a sender's run reaches. -/
structure Sends (sha256 : Bytes → Hash) (key : Address) (s : System) : Prop where
  record : AppendOnly key s.record
  chained : s.record.events.IsChain (Extends sha256)
  pending : ∀ args, s.pending = some args → Compared sha256 s.record.contract.latest args

theorem Sends.step {key : Address} {s s' : System} (h : Sends go.sha256 key s)
    (hstep : Step go key s s') : Sends go.sha256 key s' := by
  cases hstep with
  | stranger tx hstranger =>
      have hsame : s.record.transact tx = s.record :=
        Record.transact_of_ne (h.record.writer.symm ▸ hstranger)
      rw [hsame]
      exact h
  | tick served sent =>
      refine ⟨h.record, h.chained, fun args hargs => ?_⟩
      cases sent with
      | false => cases hargs
      | true => exact compared_of_tick (toOption_eq_some.1 hargs)
  | land args blockTimestamp hpending =>
      refine ⟨h.record.transact _, ?_, fun _ hnone => nomatch hnone⟩
      rcases s.record.transact_cases ⟨key, 0, blockTimestamp, .anchor args⟩ with
        hsame | ⟨args', after, hwrites⟩
      · rw [hsame]
        exact h.chained
      · obtain ⟨⟩ : Call.anchor args = Call.anchor args' := hwrites.call
        rw [hwrites.result]
        refine List.isChain_append.2 ⟨h.chained, List.isChain_singleton _, ?_⟩
        intro earlier hearlier later hlater
        obtain rfl : after.latest = later := Option.some.inj hlater
        have hnewest := h.record.newest earlier hearlier
        have hin := List.mem_of_getLast? hearlier
        have hcompared := h.pending args hpending
        rw [hnewest] at hcompared
        have hcount : earlier.count ≠ 0 := by
          rw [← hnewest]
          show s.record.contract.count ≠ 0
          rw [h.record.counted]
          exact Nat.ne_of_gt (List.length_pos_of_mem hin)
        exact extends_of_compared hcompared hcount (h.record.positive earlier hin)
          (h.record.before_of_writes hwrites earlier hin).newer.le hwrites.treeSize hwrites.rootHash

end

/-! ## The whole guarantee -/

namespace Record

end Record

namespace Sample

def session : String := "5f0c2a7e91b34d66"

def feedKey : String := "d75a980182b10ab7d54bfed3c964073a0ee172f3daa62325af021a68f707511a"

def matcherKey : String := "3d4017c3e843895a92b70aa74d1b7ebc9c982ccf2ec4968cc0cd55f12af4660c"

/-- The leaves of two messages, and the root over both. -/
def leaves : String × String :=
  ("dbf5612ef8fde0178a99bc1b0300235aa02e9b37e3e0feb46bb936d177cc37df",
    "8f1e991b65a8543db99656402fc8edf50afbba0942763c034cc2459f15a17c94")

def leafHashes : Hash × Hash :=
  (⟨#[219, 245, 97, 46, 248, 253, 224, 23, 138, 153, 188, 27, 3, 0, 35, 90, 160, 46, 155, 55, 227,
      224, 254, 180, 107, 185, 54, 209, 119, 204, 55, 223], rfl⟩,
    ⟨#[143, 30, 153, 27, 101, 168, 84, 61, 185, 150, 86, 64, 47, 200, 237, 245, 10, 251, 186, 9, 66,
      118, 60, 3, 76, 194, 69, 159, 21, 161, 124, 148], rfl⟩)

def rootHash : Hash :=
  ⟨#[82, 233, 39, 150, 56, 15, 192, 234, 220, 75, 162, 157, 247, 208, 136, 183, 197, 64, 12, 151,
    251, 195, 59, 98, 208, 204, 80, 113, 74, 206, 111, 39], rfl⟩

def root : String := "52e92796380fc0eadc4ba29df7d088b7c5400c97fbc33b62d0cc50714ace6f27"

def states : List String :=
  ["290a11a975fd3c956331c2cc4e1becd682c611435af44d336d9260d205166b52",
    "68e170118d612b10832d991801c33ff921f470e2e057581d11652723e37f3b7f",
    "0c7e4bc57ad2b7d41133091f979ebe92b79db0df7baf8c5c69e589ea2b80f726"]

def firstClaim : Claim where
  fromMsg := 1
  toMsg := 1
  rootBefore := states[0]
  rootAfter := states[1]
  tradesTotal := 0
  signature :=
    "9e46b935adb115971228a5f57578c3946547fae1d069560ef586432249e2b936" ++
      "c199caa269f1b2f42f3c546cc4a9e5e6d06eb2c3e825a12ade1fd1ce379d1e0c"

def secondClaim : Claim where
  fromMsg := 2
  toMsg := 2
  rootBefore := states[1]
  rootAfter := states[2]
  tradesTotal := 1
  signature :=
    "54ea1ff7899af0d9c774e0e19d280aac123e431e689f41a02e6468a10bc3999a" ++
      "42a191402252049684b8c325c4bc69ed0ef61bcd440533e54f67f63f5ae9470d"

def firstTreeHead : SignedTreeHead where
  session := session
  timestamp := 1700000000000
  treeSize := 1
  rootHash := leaves.1
  publicKey := feedKey
  signature :=
    "e0a02a1ca36592f353e11e6a5b241756187f471bd1c303b1598170fd24942b90" ++
      "e796e3e45dda3aa836fd7747d00abe9abf7c92793c2d75d647a240ed796e570b"

def secondTreeHead : SignedTreeHead where
  session := session
  timestamp := 1700000300000
  treeSize := 2
  rootHash := root
  publicKey := feedKey
  signature :=
    "2f3564e3aa720795382f8ac42f67256241d3b98c876cd2a5d0b120ac6208289c" ++
      "8f2ed0d75568e6542537a7456862913816a95c9c8742622d89930c1ed39bf506"

/-- What the exchange serves while it has committed the messages up to a claim. -/
def served (claims : List Claim) (cursor : Nat) (sth : SignedTreeHead) (path : List String) :
    Served :=
  let page : ClaimsPage := ⟨session, cursor, matcherKey, feedKey, claims⟩
  { envelope := .ok page
    page := fun _ => .ok page
    treeHead := .ok sth
    proof := fun first second => .ok ⟨first, second, path⟩ }

/-- The library's functions at the values of these documents. -/
def go : Primitives where
  sha256 := fun bytes =>
    if bytes = nodeInput leafHashes.1 leafHashes.2 then rootHash else zeroHash
  verify := fun key statement signature =>
    let signs (hex text signed : String) : Bool :=
      statement = text && decodeString hex.toList = some key &&
        decodeString signed.toList = some signature
    [firstClaim, secondClaim].any
        (fun claim => signs matcherKey (claimStatement session claim) claim.signature) ||
      [firstTreeHead, secondTreeHead].any
        (fun sth => signs feedKey
          (treeHeadStatement session sth.timestamp sth.treeSize sth.rootHash) sth.signature)

def sender : Address := 0x9f3c2b17a4d85e60718293a4b5c6d7e8f9012345

def sessionBytes : Session := ⟨#[95, 12, 42, 126, 145, 179, 77, 102], rfl⟩

/-- What the sender builds at its first tick, and at its second one. -/
def calldata : AnchorArgs × AnchorArgs :=
  (⟨1, 1, sessionBytes, leafHashes.1,
      ⟨#[104, 225, 112, 17, 141, 97, 43, 16, 131, 45, 153, 24, 1, 195, 63, 249, 33, 244, 112, 226,
        224, 87, 88, 29, 17, 101, 39, 35, 227, 127, 59, 127], rfl⟩⟩,
    ⟨2, 2, sessionBytes, rootHash,
      ⟨#[12, 126, 75, 197, 122, 210, 183, 212, 17, 51, 9, 31, 151, 158, 190, 146, 183, 157, 176,
        223, 123, 175, 140, 92, 105, 229, 137, 234, 43, 128, 247, 38], rfl⟩⟩)

def land (r : Record) (blockTimestamp : Nat) (args : AnchorArgs) : Record :=
  r.transact ⟨sender, 0, blockTimestamp, .anchor args⟩

/-- The first call again. -/
def refused : Transaction where
  sender := sender
  value := 0
  blockTimestamp := 1700000602
  call := .anchor calldata.1

end Sample

end Anchor
end VerifiableExchange
