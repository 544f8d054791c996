import VerifiableExchange.Lib.MachineInt
import VerifiableExchange.Merkle.Source

/-!
# Contract — the record of one exchange's roots on a public chain

The contract keeps its newest anchor and emits every anchor as an event. A call either reverts, and
then changes nothing, or appends one anchor after the newest one. Whoever deployed the contract is
the only account it takes anchors from.
-/

namespace VerifiableExchange
namespace Anchor

open Lib Merkle

/-! ## The contract -/

abbrev Address := BitVec 160

/-- The feed's session as the contract holds it, a `bytes8`. -/
abbrev Session := Vector UInt8 8

/-- No session. -/
def noSession : Session := Vector.replicate 8 0

/-- One anchor: the values of the event, which are also the seven values `latest` returns. -/
structure AnchoredRoot where
  treeSize : Nat
  session : Session
  rootHash : Hash
  lastId : Nat
  stateRoot : Hash
  anchoredAt : Nat
  count : Nat
  deriving DecidableEq

/-- The contract's storage. -/
structure ExchangeRootAnchor where
  writer : Address
  treeSize : Nat
  lastId : Nat
  anchoredAt : Nat
  count : Nat
  session : Session
  rootHash : Hash
  stateRoot : Hash
  deriving DecidableEq

/-- The arguments of `anchor`. -/
structure AnchorArgs where
  treeSize : Nat
  lastId : Nat
  session : Session
  rootHash : Hash
  stateRoot : Hash
  deriving DecidableEq

/-- Why a call changes nothing. -/
inductive Revert where
  | notWriter
  | noSession
  | sessionChanged
  | notNewer
  | cursorOutsideTree
  | cursorWentBack
  /-- Checked arithmetic. -/
  | overflow
  /-- Arguments that are no `uint64`, a payment, or a function the contract does not have. -/
  | rejected
  deriving DecidableEq

def zeroHash : Hash := Vector.replicate 32 0

namespace ExchangeRootAnchor

/-- What the constructor leaves: whoever deploys writes. -/
def deploy (sender : Address) : ExchangeRootAnchor where
  writer := sender
  treeSize := 0
  lastId := 0
  anchoredAt := 0
  count := 0
  session := noSession
  rootHash := zeroHash
  stateRoot := zeroHash

def latest (c : ExchangeRootAnchor) : AnchoredRoot where
  treeSize := c.treeSize
  session := c.session
  rootHash := c.rootHash
  lastId := c.lastId
  stateRoot := c.stateRoot
  anchoredAt := c.anchoredAt
  count := c.count

/-- Records one anchor. The session is written before the numbers are checked; a revert takes it
back with the rest. -/
def anchor (c : ExchangeRootAnchor) (sender : Address) (blockTimestamp : Nat) (args : AnchorArgs) :
    Except Revert (ExchangeRootAnchor × AnchoredRoot) :=
  if sender ≠ c.writer then .error .notWriter
  else if args.session = noSession then .error .noSession
  else if c.session ≠ noSession ∧ args.session ≠ c.session then .error .sessionChanged
  else
    let c := if c.session = noSession then { c with session := args.session } else c
    if args.treeSize ≤ c.treeSize then .error .notNewer
    else if args.treeSize < args.lastId then .error .cursorOutsideTree
    else if args.lastId < c.lastId then .error .cursorWentBack
    else if u64Max < c.count + 1 then .error .overflow
    else
      let c : ExchangeRootAnchor := { c with
        treeSize := args.treeSize
        lastId := args.lastId
        rootHash := args.rootHash
        stateRoot := args.stateRoot
        anchoredAt := blockTimestamp % (u64Max + 1)
        count := c.count + 1 }
      .ok (c, {
        treeSize := args.treeSize
        session := args.session
        rootHash := args.rootHash
        lastId := args.lastId
        stateRoot := args.stateRoot
        anchoredAt := blockTimestamp % (u64Max + 1)
        count := c.count })

end ExchangeRootAnchor

/-! ## Transactions -/

inductive Call where
  | anchor (args : AnchorArgs)
  /-- `latest` and the getters of the public fields. -/
  | view
  | unknown

/-- One transaction to the contract, in the block it lands in. -/
structure Transaction where
  sender : Address
  value : Nat
  blockTimestamp : Nat
  call : Call

/-- The contract on its chain, with the events it has emitted, the first one first. -/
structure Record where
  contract : ExchangeRootAnchor
  events : List AnchoredRoot

namespace Record

def deploy (sender : Address) : Record := ⟨.deploy sender, []⟩

/-- One call. No function of the contract takes a payment, and only `anchor` changes anything. -/
def execute (r : Record) (tx : Transaction) : Except Revert Record :=
  if tx.value ≠ 0 then .error .rejected
  else
    match tx.call with
    | .unknown => .error .rejected
    | .view => .ok r
    | .anchor args =>
        if u64Max < args.treeSize ∨ u64Max < args.lastId then .error .rejected
        else
          match r.contract.anchor tx.sender tx.blockTimestamp args with
          | .error reason => .error reason
          | .ok (contract, event) => .ok ⟨contract, r.events ++ [event]⟩

/-- A transaction on the chain: a call that reverts leaves everything as it was. -/
def transact (r : Record) (tx : Transaction) : Record :=
  match r.execute tx with
  | .ok r => r
  | .error _ => r

end Record

/-! ## What one call can do -/

namespace ExchangeRootAnchor

variable {c c' : ExchangeRootAnchor} {sender : Address} {blockTimestamp : Nat} {args : AnchorArgs}
  {event : AnchoredRoot}

/-- A call that does not revert is the writer's, and its anchor comes after the newest one. -/
structure Accepts (c : ExchangeRootAnchor) (sender : Address) (args : AnchorArgs) : Prop where
  writer : sender = c.writer
  named : args.session ≠ noSession
  session : c.session = noSession ∨ args.session = c.session
  newer : c.treeSize < args.treeSize
  inside : args.lastId ≤ args.treeSize
  forward : c.lastId ≤ args.lastId
  counts : c.count + 1 ≤ u64Max

theorem anchor_of_accepts (h : c.Accepts sender args) (blockTimestamp : Nat) :
    ∃ c' event, c.anchor sender blockTimestamp args = .ok (c', event) ∧ event = c'.latest ∧
      c'.writer = c.writer ∧ c'.treeSize = args.treeSize ∧ c'.lastId = args.lastId ∧
      c'.session = args.session ∧ c'.rootHash = args.rootHash ∧ c'.count = c.count + 1 := by
  have hchanged : ¬(c.session ≠ noSession ∧ args.session ≠ c.session) := by
    rintro ⟨hset, hother⟩
    exact h.session.elim hset hother
  rw [anchor, if_neg (not_not_intro h.writer), if_neg h.named, if_neg hchanged]
  by_cases hset : c.session = noSession
  · simp only [if_pos hset, if_neg (Nat.not_le_of_lt h.newer), if_neg (Nat.not_lt_of_le h.inside),
      if_neg (Nat.not_lt_of_le h.forward), if_neg (Nat.not_lt_of_le h.counts)]
    exact ⟨_, _, rfl, rfl, rfl, rfl, rfl, rfl, rfl, rfl⟩
  · have hsame : args.session = c.session := h.session.resolve_left hset
    simp only [if_neg hset, if_neg (Nat.not_le_of_lt h.newer), if_neg (Nat.not_lt_of_le h.inside),
      if_neg (Nat.not_lt_of_le h.forward), if_neg (Nat.not_lt_of_le h.counts)]
    refine ⟨_, _, rfl, ?_, rfl, rfl, rfl, hsame.symm, rfl, rfl⟩
    rw [hsame]
    rfl

theorem accepts_of_anchor (h : c.anchor sender blockTimestamp args = .ok (c', event)) :
    c.Accepts sender args := by
  unfold anchor at h
  split at h
  · cases h
  rename_i hwriter
  split at h
  · cases h
  rename_i hnamed
  split at h
  · cases h
  rename_i hchanged
  have hsession : c.session = noSession ∨ args.session = c.session := by
    by_contra hnot
    exact hchanged (not_or.1 hnot)
  have hsame : (if c.session = noSession then { c with session := args.session } else c).treeSize =
        c.treeSize ∧
      (if c.session = noSession then { c with session := args.session } else c).lastId = c.lastId ∧
      (if c.session = noSession then { c with session := args.session } else c).count =
        c.count := by
    split <;> exact ⟨rfl, rfl, rfl⟩
  simp only [hsame.1, hsame.2.1, hsame.2.2] at h
  split at h
  · cases h
  rename_i hnewer
  split at h
  · cases h
  rename_i hinside
  split at h
  · cases h
  rename_i hforward
  split at h
  · cases h
  rename_i hcounts
  exact ⟨not_not.1 hwriter, hnamed, hsession, Nat.lt_of_not_le hnewer, Nat.le_of_not_lt hinside,
    Nat.le_of_not_lt hforward, Nat.le_of_not_lt hcounts⟩

end ExchangeRootAnchor

end Anchor
end VerifiableExchange
