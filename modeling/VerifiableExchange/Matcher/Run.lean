import VerifiableExchange.Matcher.Outcome

/-!
# Run — the states an engine reaches

A run starts from an execution genesis and applies one message after another. The cursor and the
ledger's own sequence move together, one message at a time.
-/

namespace VerifiableExchange

open Lib

/-! ## The ledger's sequence -/

namespace Ledger

theorem nextSequence_eq_ok {l : Ledger} {n : OrderId} :
    l.nextSequence = .ok n ↔ l.lastSequence + 1 ≤ u64Max ∧ l.lastSequence + 1 = n := by
  simp [nextSequence, checkedAddU64_eq_some]

theorem lastSequence_reserve {l l' : Ledger} {id : OrderId} {account : AccountId} {symbol : String}
    {side : Side} {limit qty : Int} (h : l.reserve id account symbol side limit qty = .ok l') :
    l'.lastSequence = l.lastSequence := by
  unfold reserve at h
  split_ifs at h
  · cases h
    rfl
  · simp only [bind_eq_ok] at h
    obtain ⟨_, -, _, -, _, -, _, -, _, -, _, -, _, -, h⟩ := h
    cases h
    rfl

theorem lastSequence_settleFill {l l' : Ledger} {maker taker : OrderId} {price qty : Int}
    (h : l.settleFill maker taker price qty = .ok l') : l'.lastSequence = l.lastSequence := by
  unfold settleFill at h
  split_ifs at h
  · cases h
    rfl
  · simp only [bind_eq_ok] at h
    obtain ⟨_, -, _, -, _, -, _, -, _, -, _, -, _, -, _, -, _, -, _, -, _, -, _, -, _, -, _, -,
      _, -, h⟩ := h
    cases h
    rfl

theorem lastSequence_release {l : Ledger} {id : OrderId} {result : Ledger × Bool}
    (h : l.release id = .ok result) : result.1.lastSequence = l.lastSequence := by
  unfold release at h
  split at h
  · cases h
    rfl
  · simp only [bind_eq_ok] at h
    obtain ⟨_, -, _, -, _, -, _, -, h⟩ := h
    cases h
    rfl

theorem finishSequence_eq_ok {l l' : Ledger} {n : OrderId} (h : l.finishSequence n = .ok l') :
    n = l.lastSequence + 1 ∧ n ≤ u64Max ∧ l' = { l with lastSequence := n } := by
  simp only [finishSequence, bind_eq_ok, nextSequence_eq_ok, require_eq_ok] at h
  obtain ⟨_, ⟨hmax, rfl⟩, _, rfl, h⟩ := h
  cases h
  exact ⟨rfl, hmax, rfl⟩

end Ledger

namespace Matcher

/-- A run of fills leaves the ledger's sequence alone. -/
theorem Fills.lastSequence_eq {order : IncomingOrder} {remaining left : Int}
    {before after : BookAndTrades} (h : Fills order remaining before left after) :
    after.ledger.lastSequence = before.ledger.lastSequence := by
  refine Fills.invariant
    (P := fun _ into => into.ledger.lastSequence = before.ledger.lastSequence) ?_ h rfl
  intro _ into e enabled hinto
  exact (Ledger.lastSequence_settleFill enabled.settled).trans hinto

namespace MatcherState

/-! ## Runs -/

/-- A state some run reaches from genesis. A message out of order leaves the state as it is, so
only the messages that were applied count. -/
inductive Reachable (env : Primitives) : MatcherState → Prop
  | genesis {genesis : ExecutionGenesis} {session pubkey : Option String} {recording : Bool}
      {s : MatcherState} (h : genesis.opening session pubkey recording = .ok s) : Reachable env s
  | applied {s s' : MatcherState} {message : OrderMessage} {received : Option Bytes}
      (hs : Reachable env s) (h : s.apply env message received = .ok s') : Reachable env s'

/-- The states a run from `start` reaches. -/
inductive Reaches (env : Primitives) (start : MatcherState) : MatcherState → Prop
  | refl : Reaches env start start
  | applied {s s' : MatcherState} {message : OrderMessage} {received : Option Bytes}
      (hs : Reaches env start s) (h : s.apply env message received = .ok s') :
      Reaches env start s'

theorem Reaches.reachable {env : Primitives} {start s : MatcherState} (h : Reaches env start s)
    (hstart : Reachable env start) : Reachable env s := by
  induction h with
  | refl => exact hstart
  | applied _ h ih => exact .applied ih h

/-- Runs the messages of a log in order, each with the bytes it arrived as. -/
def run (env : Primitives) (s : MatcherState) (log : List (OrderMessage × Option Bytes)) :
    Except Fault MatcherState :=
  log.foldlM (fun s m => s.apply env m.1 m.2) s

theorem reaches_of_run {env : Primitives} {start : MatcherState}
    {log : List (OrderMessage × Option Bytes)} {s : MatcherState}
    (h : run env start log = .ok s) : Reaches env start s :=
  foldlM_invariant (Reaches env start) (fun _ _ _ hs happly => .applied hs happly) log start s .refl h

/-- What `apply` did when it did not fail. -/
theorem apply_eq_ok {env : Primitives} {s s' : MatcherState} {message : OrderMessage}
    {received : Option Bytes} (h : s.apply env message received = .ok s') :
    message.id = s.nextExpectedId ∧ ∃ t, dispatch env s message = .ok t ∧
      consume env t message received = .ok s' := by
  unfold apply at h
  split_ifs at h with hid
  split at h
  · cases h
  · rename_i t ht
    exact ⟨not_not.1 hid, t, ht, h⟩

/-- Counting a message as consumed moves the cursor by one. -/
theorem consume_eq_ok {env : Primitives} {s s' : MatcherState} {message : OrderMessage}
    {received : Option Bytes} (h : consume env s message received = .ok s') :
    message.id = s.ledger.lastSequence + 1 ∧ message.id ≤ u64Max ∧
      s'.ledger = { s.ledger with lastSequence := message.id } ∧ s'.lastSeen = message.id ∧
      s'.symbols = s.symbols ∧ s'.books = s.books ∧ s'.openOrders = s.openOrders ∧
      s'.positions = s.positions ∧ s'.tradesTotal = s.tradesTotal ∧ s'.mids = s.mids := by
  simp only [consume, bind_eq_ok, expect_eq_ok] at h
  obtain ⟨ledger, hledger, h⟩ := h
  obtain ⟨hnext, hmax, rfl⟩ := Ledger.finishSequence_eq_ok hledger
  cases h
  exact ⟨hnext, hmax, rfl, rfl, rfl, rfl, rfl, rfl, rfl, rfl⟩

theorem lastSequence_releaseAll :
    ∀ {ids : List OrderId} {l l' : Ledger}, releaseAll ids l = .ok l' →
      l'.lastSequence = l.lastSequence
  | [], l, l', h => by
      cases h
      rfl
  | id :: ids, l, l', h => by
      unfold releaseAll at h
      split at h
      · cases h
      · rename_i released _ hrelease
        exact (lastSequence_releaseAll h).trans (Ledger.lastSequence_release hrelease)

/-- No message moves the ledger's sequence before it is counted as consumed. -/
theorem lastSequence_dispatch {env : Primitives} {s t : MatcherState} {message : OrderMessage}
    (hlevels : ∀ symbol side, NoEmptyLevel (facing (s.books.getD symbol .default) side))
    (h : dispatch env s message = .ok t) : t.ledger.lastSequence = s.ledger.lastSequence := by
  cases dispatch_cases hlevels h with
  | refused | refusedOnBook | cancelIgnored | cancelRejected | ignored | listed | ruled => rfl
  | matched m order left after _ _ hexecuted hfinished =>
      obtain ⟨reserved, hreserve, hfills⟩ := hexecuted.filled
      have hafter : after.ledger.lastSequence = s.ledger.lastSequence :=
        hfills.lastSequence_eq.trans (Ledger.lastSequence_reserve hreserve)
      cases hfinished with
      | overflowed _ _ _ hrelease => exact (Ledger.lastSequence_release hrelease).trans hafter
      | filled => exact hafter
      | rested => exact hafter
      | cancelled _ _ _ _ _ hrelease => exact (Ledger.lastSequence_release hrelease).trans hafter
  | cancelled _ _ _ _ _ _ hrelease => exact Ledger.lastSequence_release hrelease
  | delisted _ _ _ _ _ cleared _ hcleared =>
      rcases clearBook_eq_ok hcleared with ⟨-, rfl⟩ | ⟨_, ledger, -, hledger, rfl⟩
      · rfl
      · exact lastSequence_releaseAll hledger

/-! ## A short log

One market, a resting order on either side and one trade between them, with the bytes the sequencer
served, the operator's signature and the chain values. -/

namespace Sample

def ascii (text : String) : Bytes := text.toList.map (fun c => UInt8.ofNat c.toNat)

def hex (text : String) : Bytes := (Operator.hexBytes text.toList).getD []

/-- A message as the sequencer writes it: its kind, and its fields in order. -/
def served (kind : String) (fields : List (String × String)) : Bytes :=
  let body := ",".intercalate (fields.map (fun f => s!"\"{f.1}\":{f.2}"))
  ascii ("\x7b\"" ++ kind ++ "\":\x7b" ++ body ++ "\x7d\x7d")

def session : String := "5f0c2a7e91b34d6688aa10c3e2f4b7d9"

def nonce : String := "000102030405060708090a0b0c0d0e0f"

def operatorKey : String := "d75a980182b10ab7d54bfed3c964073a0ee172f3daa62325af021a68f707511a"

def signature : String :=
  "15800709815cbf7f2f848af72886749517f30e2aa3ad19eb7a81b5849a8a503e" ++
    "aa3862359ee57298e0775a09b78e91e48a95d856c30b7286c95446942d895a0b"

def listing : OrderMessage × Bytes :=
  (.listSymbol {
    id := 1
    timestamp := 1000
    account := 4294967295
    symbol := "ETH-USDC"
    priceStep := .ofNat 1
    quantityStep := .ofNat 1
    nonce := some nonce
    publicKey := operatorKey
    signature := signature },
  served "ListSymbol" [("id", "1"), ("timestamp", "1000"), ("account", "4294967295"),
    ("symbol", "\"ETH-USDC\""), ("price_step", "1.0"), ("quantity_step", "1.0"),
    ("nonce", s!"\"{nonce}\""), ("public_key", s!"\"{operatorKey}\""),
    ("signature", s!"\"{signature}\"")])

/-- A limit order with no term named beside its price and quantity. -/
def limitOrder (id timestamp : Nat) (account : AccountId) (side : Side) (price quantity : Nat) :
    OrderMessage × Bytes :=
  (.new {
    id := id
    timestamp := timestamp
    account := account
    symbol := "ETH-USDC"
    side := side
    price := .ofNat price
    quantity := .ofNat quantity
    nonce := none
    terms := { orderType := .limit, timeInForce := .goodTillCancel, postOnly := false } },
  served "New" [("id", toString id), ("timestamp", toString timestamp),
    ("account", toString account.val), ("symbol", "\"ETH-USDC\""),
    ("side", match side with | .buy => "\"Buy\"" | .sell => "\"Sell\""),
    ("price", s!"{price}.0"), ("quantity", s!"{quantity}.0")])

def messages : List (OrderMessage × Bytes) :=
  [listing, limitOrder 2 1001 1 .sell 101 2, limitOrder 3 1002 2 .buy 101 1,
    limitOrder 4 1003 2 .buy 99 3]

def log : List (OrderMessage × Option Bytes) := messages.map (fun m => (m.1, some m.2))

/-- The chain before each message and after the last one. -/
def chains : List Bytes :=
  [emptyChain,
    hex "ad31866b580c62e8b6c6a71b87688635c5d3b85b04c07c4ee18b63f03e14cf4a",
    hex "d83da91181daf4a32077560442f08cc06120fa996e13157b32d3cc80428b06a0",
    hex "23088fe321c0ef6ec1948da4cc72b813c71e154ec2358f08650299a5b7f0b3e1",
    hex "90ca13fb20cb74c33fc1e558c0711f3ad2e0a8ea05860b0c8f1d37369c45f703"]

/-- The third-party functions at the values this log gives them. -/
def env : Primitives where
  sha256 := fun bytes =>
    (((messages.zip (chains.zip chains.tail)).find? (fun e => e.2.1 ++ e.1.2 = bytes)).map
      (fun e => e.2.2)).getD []
  isVerifyingKey := fun key => key = hex operatorKey
  verifyStrict := fun key statement signed =>
    key = hex operatorKey && signed = hex signature &&
      statement = "\n".intercalate
        ["exchange-operator-list-v1", session, "ETH-USDC", "100", "10", nonce]
  canonicalBytes := fun message =>
    ((messages.find? (fun m => m.1 = message)).map Prod.snd).getD []

/-- The synthetic genesis of the log's session. -/
def start : MatcherState := { MatcherState.new with feedSession := some session }

/-- The engine after the whole log. -/
def state : MatcherState := (run env start log).toOption.getD .new

theorem run_log : run env start log = .ok state := eq_ok_getD (by decide +kernel)

theorem state_values :
    state.bestBidCents "ETH-USDC" = some 9900 ∧ state.bestAskCents "ETH-USDC" = some 10100 ∧
      state.openOrders.size = 2 ∧ state.positions.size = 2 ∧
      state.feedSession = some session ∧ state.feedPubkey = none := by
  decide +kernel

theorem reachable_state : Reachable env state :=
  (reaches_of_run run_log).reachable
    (@Reachable.genesis env .synthetic (some session) none false start rfl)

end Sample

end MatcherState
end Matcher
end VerifiableExchange
