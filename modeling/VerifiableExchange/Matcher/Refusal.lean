import VerifiableExchange.Matcher.Candles
import VerifiableExchange.Matcher.WellFormed

/-!
# Refusal — a refused order leaves only the record of it

Every step may refuse an order before the order's first effect, and a message out of turn is not run
at all. A refusal moves the cursors, the chain, the recent windows and the counters. The one message
that gets past the check on its id and is not in turn arrives after the cursor reached its largest
value.
-/

namespace VerifiableExchange
namespace Matcher

open Lib

/-! ## Faults of a message in turn -/

/-- The computation stops at a failed `expect`, if it stops at all. -/
def OnlyPanics {α : Type} (x : Except Fault α) : Prop :=
  ∀ fault, x = .error fault → ∃ site, fault = .panicked site

namespace OnlyPanics

theorem ok {α : Type} (a : α) : OnlyPanics (.ok a : Except Fault α) := by
  intro fault h
  cases h

theorem panicked {α : Type} (site : String) :
    OnlyPanics (.error (.panicked site) : Except Fault α) := by
  intro fault h
  cases h
  exact ⟨site, rfl⟩

theorem expect {ε α : Type} (value : Except ε α) (site : String) :
    OnlyPanics (Matcher.expect value site) := by
  cases value with
  | ok a => exact ok a
  | error e => exact panicked site

theorem bind {α β : Type} {x : Except Fault α} {f : α → Except Fault β} (hx : OnlyPanics x)
    (hf : ∀ a, OnlyPanics (f a)) : OnlyPanics (x >>= f) := by
  cases x with
  | ok a => exact hf a
  | error fault =>
      intro _ h
      cases h
      exact hx fault rfl

theorem foldlM {α β : Type} {f : β → α → Except Fault β} (hf : ∀ b a, OnlyPanics (f b a)) :
    ∀ (l : List α) (b : β), OnlyPanics (l.foldlM f b)
  | [], b => ok b
  | a :: l, b => by
      rw [List.foldlM_cons]
      exact bind (hf b a) (fun b' => foldlM hf l b')

theorem commitFill (order : IncomingOrder) (fill : PlannedFill) (makerNext takerNext : Position)
    (tradeId : Nat) (into : BookAndTrades) :
    OnlyPanics (Matcher.commitFill order fill makerNext takerNext tradeId into) := by
  unfold Matcher.commitFill
  refine bind ?_ (fun maker => bind (expect _ _) (fun left => ok _))
  unfold plannedMaker
  split
  · exact panicked _
  · exact panicked _
  · split_ifs
    · exact ok _
    · exact panicked _

theorem settleAndCommit (order : IncomingOrder) (fill : PlannedFill) (next : Position × Position)
    (tradeId : Nat) (into : BookAndTrades) :
    OnlyPanics (Matcher.settleAndCommit order fill next tradeId into) :=
  bind (expect _ _) (fun _ => commitFill _ _ _ _ _ _)

theorem executeLoop (order : IncomingOrder) :
    ∀ (fuel : Nat) (remaining : Int) (into : BookAndTrades),
      OnlyPanics (Matcher.executeLoop order fuel remaining into)
  | 0, remaining, into => ok _
  | fuel + 1, remaining, into => by
      unfold Matcher.executeLoop
      split_ifs
      · exact ok _
      split
      · exact ok _
      split
      · split
        · rename_i fault hfault
          intro _ h
          cases h
          exact settleAndCommit _ _ _ _ _ fault hfault
        · exact executeLoop order fuel _ _
      · exact ok _

theorem commitPlanned (order : IncomingOrder) :
    ∀ (fills : List (PlannedFill × (Position × Position))) (into : BookAndTrades),
      OnlyPanics (Matcher.commitPlanned order fills into)
  | [], into => ok _
  | (fill, next) :: rest, into => by
      unfold Matcher.commitPlanned
      split
      · exact panicked _
      split
      · rename_i fault hfault
        intro _ h
        cases h
        exact commitFill _ _ _ _ _ _ fault hfault
      · exact commitPlanned order rest _

theorem runMatch (order : IncomingOrder) (staged : Option (FokPlan × Ledger))
    (into : BookAndTrades) : OnlyPanics (MatcherState.runMatch order staged into) := by
  unfold MatcherState.runMatch
  split
  · exact bind (commitPlanned _ _ _) (fun _ => ok _)
  · exact bind (expect _ _) (fun _ => executeLoop _ _ _ _)

theorem releaseFunds (ledger : Ledger) (id : OrderId) (site : String) :
    OnlyPanics (MatcherState.releaseFunds ledger id site) :=
  bind (expect _ _) (fun _ => ok _)

theorem finishMatch (s : MatcherState) (order : IncomingOrder) (ended : Matched × BookAndTrades) :
    OnlyPanics (s.finishMatch order ended) := by
  obtain ⟨matched, into⟩ := ended
  cases matched with
  | overflowed left => exact bind (releaseFunds _ _ _) (fun _ => ok _)
  | crossed left =>
      refine bind ?_ (fun _ => ok _)
      unfold MatcherState.finishRemainder
      split_ifs
      · exact ok _
      split
      · exact ok _
      · exact bind (releaseFunds _ _ _) (fun _ => ok _)

theorem applyNew (s : MatcherState) (m : NewMessage) : OnlyPanics (s.applyNew m) := by
  unfold MatcherState.applyNew
  split
  · exact ok _
  unfold MatcherState.matchOrder
  dsimp only
  split
  · exact ok _
  split
  · rename_i fault hfault
    intro _ h
    cases h
    exact runMatch _ _ _ fault hfault
  · exact finishMatch _ _ _

theorem applyCancel (s : MatcherState) (m : CancelMessage) : OnlyPanics (s.applyCancel m) := by
  unfold MatcherState.applyCancel
  split
  · exact ok _
  · split_ifs
    · exact ok _
    · exact bind (releaseFunds _ _ _) (fun _ => bind (expect _ _) (fun _ => ok _))

theorem applyDelistSymbol (s : MatcherState) (m : DelistSymbolMessage) :
    OnlyPanics (s.applyDelistSymbol m) := by
  unfold MatcherState.applyDelistSymbol
  split
  · exact ok _
  refine bind ?_ (fun _ => ok _)
  unfold MatcherState.clearBook
  split
  · exact ok _
  · exact bind (foldlM (fun _ _ => bind (releaseFunds _ _ _) (fun _ => ok _)) _ _) (fun _ => ok _)

theorem whenSigned (env : Primitives) (s : MatcherState) (message : OrderMessage)
    {act : MatcherState → Except Fault MatcherState} (hact : ∀ t, OnlyPanics (act t)) :
    OnlyPanics (MatcherState.whenSigned env s message act) := by
  unfold MatcherState.whenSigned
  split
  · exact hact _
  · exact ok _

theorem dispatch (env : Primitives) (s : MatcherState) (message : OrderMessage) :
    OnlyPanics (MatcherState.dispatch env s message) := by
  cases message with
  | new m => exact applyNew s m
  | cancel m => exact applyCancel s m
  | listSymbol m => exact whenSigned env s _ (fun _ => ok _)
  | delistSymbol m => exact whenSigned env s _ (fun t => applyDelistSymbol t m)
  | engineRule m => exact whenSigned env s _ (fun _ => ok _)

/-- A message whose id the engine expects is run to its end, or the engine panics. -/
theorem apply {env : Primitives} {s : MatcherState} {message : OrderMessage}
    (received : Option Bytes) (hid : message.id = s.nextExpectedId) :
    OnlyPanics (s.apply env message received) := by
  unfold MatcherState.apply
  rw [if_neg (not_not.2 hid)]
  split
  · rename_i fault hfault
    intro _ h
    cases h
    exact dispatch env s message fault hfault
  · exact bind (expect _ _) (fun _ => ok _)

end OnlyPanics

namespace MatcherState

/-! ## The verdict on an order -/

/-- What the engine decides about a `New` message before its first effect: the order as it may match,
with the plan staged for it, or why it is refused. -/
def verdict (s : MatcherState) (m : NewMessage) :
    Except Rejected (IncomingOrder × Option (FokPlan × Ledger)) := do
  let order ← s.admitOrder m
  s.prepare order (s.bookAndTrades order.symbol)

/-- Why an order is refused, when it is. -/
def refusal (s : MatcherState) (m : NewMessage) : Option Rejected :=
  match s.verdict m with
  | .error why => some why
  | .ok _ => none

theorem refusal_eq_some {s : MatcherState} {m : NewMessage} {why : Rejected} :
    s.refusal m = some why ↔ s.verdict m = .error why := by
  unfold refusal
  cases s.verdict m <;> simp

/-- A book that was created for an order and holds none is dropped again. -/
theorem withBookAndTrades_pruneBook {s : MatcherState} (h : NoEmptyBook s.books) (symbol : String) :
    (s.withBookAndTrades symbol (s.bookAndTrades symbol)).pruneBook symbol = s := by
  have hbooks : (if ((s.books.insert symbol (s.books.getD symbol .default)).get? symbol).any
      Book.isEmpty then (s.books.insert symbol (s.books.getD symbol .default)).erase symbol
      else s.books.insert symbol (s.books.getD symbol .default)) = s.books := by
    rw [SortedMap.get?_insert_self]
    cases hbook : s.books.get? symbol with
    | none =>
        have hempty : (some (s.books.getD symbol .default)).any Book.isEmpty = true := by
          simp [SortedMap.getD, hbook, Book.isEmpty, Book.default]
        rw [if_pos hempty]
        exact SortedMap.erase_insert_of_get?_none hbook _
    | some book =>
        have hsome : s.books.getD symbol .default = book := by simp [SortedMap.getD, hbook]
        have hfull : ¬(some book).any Book.isEmpty = true := by
          simp [h symbol book hbook]
        rw [hsome, if_neg hfull]
        exact SortedMap.insert_get?_self hbook
  show { s with books := _ } = s
  exact congrArg (fun books => { s with books := books }) hbooks

/-- A refused order is counted, and that is all. -/
theorem applyNew_of_refused {s : MatcherState} {m : NewMessage} {why : Rejected}
    (hempty : NoEmptyBook s.books) (h : s.verdict m = .error why) :
    s.applyNew m = .ok (s.ignoreOrder why) := by
  unfold verdict at h
  unfold applyNew
  cases harrived : s.admitOrder m with
  | error other =>
      rw [harrived] at h
      cases h
      rfl
  | ok order =>
      rw [harrived] at h
      have hprepare : s.prepare order (s.bookAndTrades order.symbol) = .error why := h
      simp only [matchOrder, hprepare, withBookAndTrades_pruneBook hempty]

/-- An order that is not refused is matched and finished. -/
theorem applyNew_of_accepted {s : MatcherState} {m : NewMessage} {order : IncomingOrder}
    {staged : Option (FokPlan × Ledger)} (h : s.verdict m = .ok (order, staged)) :
    s.applyNew m = (runMatch order staged (s.bookAndTrades m.symbol) >>= s.finishMatch order) := by
  simp only [verdict, bind_eq_ok] at h
  obtain ⟨arrived, hadmit, hprepare⟩ := h
  obtain ⟨terms, -, harrived, -, -⟩ := admitOrder_eq_ok hadmit
  have hsymbol : arrived.symbol = m.symbol := by
    rw [harrived]
    rfl
  rw [hsymbol] at hprepare
  simp only [applyNew, hadmit, matchOrder, hsymbol, hprepare]
  cases runMatch order staged (s.bookAndTrades m.symbol) <;> rfl

/-- No check reads the record or the counters. -/
theorem verdict_observed (s : MatcherState) (m : NewMessage) : s.observed.verdict m = s.verdict m :=
  rfl

/-! ## The message is counted as consumed -/

/-- The engine after it counted a message as consumed. -/
def consumed (env : Primitives) (s : MatcherState) (message : OrderMessage)
    (received : Option Bytes) : MatcherState :=
  let chain := s.feedChain.map (fun chain => extendChain env chain message received)
  { s with
    ledger := { s.ledger with lastSequence := message.id }
    lastSeen := message.id
    messagesProcessed := saturatingAddU64 s.messagesProcessed 1
    feedChain := chain
    recentChains :=
      match chain with
      | some chain => pushCapped recentChainsCap s.recentChains (message.id, chain)
      | none => s.recentChains
    recentMessages := pushCapped recentMessagesCap s.recentMessages message
    pending := record s.pending (.consumed message) }

/-- The ledger takes the next sequence while there is one. -/
theorem consume_of_next (env : Primitives) {s : MatcherState} {message : OrderMessage}
    (received : Option Bytes) (hnext : message.id = s.ledger.lastSequence + 1)
    (hmax : message.id ≤ u64Max) :
    consume env s message received = .ok (consumed env s message received) := by
  have hfinish : s.ledger.finishSequence message.id =
      .ok { s.ledger with lastSequence := message.id } := by
    have hsequence : s.ledger.nextSequence = .ok message.id :=
      Ledger.nextSequence_eq_ok.2 ⟨hnext ▸ hmax, hnext.symm⟩
    simp only [Ledger.finishSequence, bind_eq_ok, require_eq_ok]
    exact ⟨message.id, hsequence, (), rfl, rfl⟩
  simp only [consume, hfinish]
  rfl

/-- The ledger takes no sequence past the largest one. -/
theorem consume_ne_ok (env : Primitives) {s t : MatcherState} {message : OrderMessage}
    (received : Option Bytes) (h : s.ledger.lastSequence = u64Max) :
    consume env s message received ≠ .ok t := by
  intro hconsume
  obtain ⟨hnext, hmax, -⟩ := consume_eq_ok hconsume
  rw [hnext, h] at hmax
  exact Nat.not_succ_le_self _ hmax

theorem nextExpectedId_of_lt {s : MatcherState} (h : s.lastSeen < u64Max) :
    s.nextExpectedId = s.lastSeen + 1 := min_eq_left h

theorem apply_of_dispatch {env : Primitives} {s t : MatcherState} {message : OrderMessage}
    {received : Option Bytes} (hid : message.id = s.nextExpectedId)
    (h : dispatch env s message = .ok t) :
    s.apply env message received = consume env t message received := by
  simp only [apply, hid, ne_eq, not_true_eq_false, if_false, h]

/-- What is left of a refused order: one more message consumed, and one more order ignored. -/
theorem apply_of_refused {env : Primitives} {s : MatcherState} (hs : s.WellFormed)
    {m : NewMessage} {why : Rejected} (received : Option Bytes) (hid : m.id = s.lastSeen + 1)
    (hmax : m.id ≤ u64Max) (h : s.verdict m = .error why) :
    s.apply env (.new m) received = .ok (consumed env (s.ignoreOrder why) (.new m) received) := by
  have hturn : (OrderMessage.new m).id = s.nextExpectedId := by
    rw [nextExpectedId_of_lt (hid ▸ hmax : s.lastSeen + 1 ≤ u64Max)]
    exact hid
  rw [apply_of_dispatch hturn (applyNew_of_refused hs.noEmptyBook h)]
  refine consume_of_next env received ?_ hmax
  show m.id = s.ledger.lastSequence + 1
  rw [hs.sequence, hid]

/-- The new state is the old one with the record of one refusal added to it. -/
structure OnlyRecorded (s : MatcherState) (message : OrderMessage) (s' : MatcherState) : Prop where
  cursor : s'.lastSeen = message.id
  counted : s'.ordersIgnored = saturatingAddU64 s.ordersIgnored 1
  changes : s'.pending = record s.pending (.consumed message)
  unchanged : s' = { s with
    lastSeen := s'.lastSeen
    ledger := { s.ledger with lastSequence := s'.ledger.lastSequence }
    messagesProcessed := s'.messagesProcessed
    feedChain := s'.feedChain
    recentChains := s'.recentChains
    recentMessages := s'.recentMessages
    ordersIgnored := s'.ordersIgnored
    ordersIgnoredByKind := s'.ordersIgnoredByKind
    pending := s'.pending }

theorem onlyRecorded_consumed (env : Primitives) (s : MatcherState) (why : Rejected)
    (message : OrderMessage) (received : Option Bytes) :
    OnlyRecorded s message (consumed env (s.ignoreOrder why) message received) :=
  ⟨rfl, rfl, rfl, rfl⟩

theorem WellFormed.observed {s : MatcherState} (h : s.WellFormed) : s.observed.WellFormed :=
  ⟨h.books, h.noEmptyBook, h.registry, h.sequence⟩

end MatcherState

namespace Charted

open MatcherState

/-- A message changes nothing, or only the record of it, where it ought to. -/
structure Quiet (env : Primitives) (c : Charted) (message : OrderMessage)
    (received : Option Bytes) : Prop where
  outOfTurn : message.id ≠ c.engine.lastSeen + 1 →
    c.apply env message received = .error (.outOfOrder c.engine.nextExpectedId message.id)
  refused : ∀ m why, message = .new m → m.id = c.engine.lastSeen + 1 →
    c.engine.verdict m = .error why →
    ∃ c', c.apply env message received = .ok c' ∧ c'.candles = c.candles ∧
      OnlyRecorded c.engine message c'.engine

theorem apply_of_refused {env : Primitives} {c : Charted} (hc : c.engine.WellFormed)
    {m : NewMessage} {why : Rejected} (received : Option Bytes) (hid : m.id = c.engine.lastSeen + 1)
    (hmax : m.id ≤ u64Max) (h : c.engine.verdict m = .error why) :
    c.apply env (.new m) received =
      .ok ⟨consumed env (c.engine.ignoreOrder why) (.new m) received, c.candles⟩ := by
  have heffect : c.engine.effect env (.new m) received =
      .ok (recorded (consumed env (c.engine.observed.ignoreOrder why) (.new m) received)) := by
    unfold effect
    rw [MatcherState.apply_of_refused hc.observed received hid hmax
      ((verdict_observed c.engine m).trans h)]
    rfl
  simp only [apply, MatcherState.apply_of_refused hc received hid hmax h, heffect]
  rfl

end Charted

/-! ## The end of the sequence -/

namespace MatcherState

/-- No cursor passes the largest id. -/
theorem Reachable.lastSeen_le {env : Primitives} {s : MatcherState} (h : Reachable env s) :
    s.lastSeen ≤ u64Max := by
  cases h with
  | genesis h =>
      obtain ⟨_, -, -, rfl⟩ := ExecutionGenesis.opening_eq_ok h
      exact Nat.zero_le _
  | applied hs h =>
      obtain ⟨-, t, -, hconsume⟩ := apply_eq_ok h
      obtain ⟨-, hmax, -, hlast, -⟩ := consume_eq_ok hconsume
      rw [hlast]
      exact hmax

/-- The ledger has no sequence after the largest one. -/
theorem consume_at_end (env : Primitives) {s : MatcherState} (message : OrderMessage)
    (received : Option Bytes) (h : s.ledger.lastSequence = u64Max) :
    consume env s message received =
      .error (.panicked "matcher and ledger share the checked sequence") := by
  have hnext : checkedAddU64 s.ledger.lastSequence 1 = none := by
    rw [h]
    rfl
  simp only [consume, Ledger.finishSequence, Ledger.nextSequence, hnext]
  rfl

/-- A message that asks for a rule set nobody knows. -/
def idle (id : OrderId) : OrderMessage :=
  .engineRule {
    id := id
    timestamp := 0
    account := 0
    version := 0
    nonce := none
    publicKey := ""
    signature := "" }

theorem exists_dispatch_idle (env : Primitives) (s : MatcherState) (id : OrderId) :
    ∃ t, dispatch env s (idle id) = .ok t := by
  simp only [dispatch, idle, whenSigned]
  split <;> exact ⟨_, rfl⟩

def idleLog (n : Nat) : List (OrderMessage × Option Bytes) :=
  (List.range n).map (fun i => (idle (i + 1), none))

/-- An engine runs as many messages as there are ids. -/
theorem exists_run_idleLog (env : Primitives) {start : MatcherState} (hstart : start.WellFormed)
    (hzero : start.lastSeen = 0) (n : Nat) (hn : n ≤ u64Max) :
    ∃ s, run env start (idleLog n) = .ok s ∧ s.WellFormed ∧ s.lastSeen = n := by
  induction n with
  | zero => exact ⟨start, rfl, hstart, hzero⟩
  | succ n ih =>
      obtain ⟨s, hrun, hs, hlast⟩ := ih (Nat.le_of_succ_le hn)
      obtain ⟨t, ht⟩ := exists_dispatch_idle env s (n + 1)
      have hturn : (idle (n + 1)).id = s.nextExpectedId := by
        rw [nextExpectedId_of_lt (hlast ▸ hn : s.lastSeen < u64Max), hlast]
        rfl
      have hsequence : t.ledger.lastSequence = n := by
        rw [lastSequence_dispatch hs.noEmptyLevel ht, hs.sequence, hlast]
      have happly : s.apply env (idle (n + 1)) none = .ok (consumed env t (idle (n + 1)) none) := by
        rw [apply_of_dispatch hturn ht]
        exact consume_of_next env none (by rw [hsequence]; rfl) hn
      refine ⟨_, ?_, hs.apply happly, rfl⟩
      have hlog : idleLog (n + 1) = idleLog n ++ [(idle (n + 1), none)] := by
        simp [idleLog, List.range_succ]
      rw [run, hlog, List.foldlM_append]
      exact bind_eq_ok.2 ⟨s, hrun, by rw [List.foldlM_cons, happly]; rfl⟩

/-- Once every id is used, the last of them is taken for the next, and the engine panics. -/
theorem apply_idle_at_end (env : Primitives) {s : MatcherState} (hs : s.WellFormed)
    (hlast : s.lastSeen = u64Max) :
    s.apply env (idle u64Max) none =
      .error (.panicked "matcher and ledger share the checked sequence") := by
  obtain ⟨t, ht⟩ := exists_dispatch_idle env s u64Max
  have hturn : (idle u64Max).id = s.nextExpectedId := by
    rw [nextExpectedId, hlast]
    rfl
  have hsequence : t.ledger.lastSequence = u64Max := by
    rw [lastSequence_dispatch hs.noEmptyLevel ht, hs.sequence, hlast]
  rw [apply_of_dispatch hturn ht]
  exact consume_at_end env _ none hsequence

end MatcherState

namespace Charted

open MatcherState

/-- A refusal leaves only its record and a message out of turn leaves nothing, exactly unless the
largest id arrives again after it was used. -/
theorem quiet_iff {env : Primitives} {c : Charted}
    (hc : MatcherState.Reachable env c.engine) (message : OrderMessage) (received : Option Bytes)
    (hid : message.id ≤ u64Max) :
    c.Quiet env message received ↔ ¬(c.engine.lastSeen = u64Max ∧ message.id = u64Max) := by
  have hwell := hc.wellFormed
  constructor
  · rintro hquiet ⟨hlast, hmax⟩
    have hturn : message.id = c.engine.nextExpectedId := by
      rw [nextExpectedId, hlast, hmax]
      rfl
    have hrefuse := hquiet.outOfTurn (by rw [hlast, hmax]; exact Nat.ne_of_lt (Nat.lt_succ_self _))
    -- The engine takes the message for the next one, so the fault is not the one a repeat gets.
    cases hrun : c.engine.apply env message received with
    | error fault =>
        obtain ⟨site, rfl⟩ := OnlyPanics.apply received hturn fault hrun
        rw [apply, hrun] at hrefuse
        cases hrefuse
    | ok s' =>
        obtain ⟨-, t, ht, hconsume⟩ := MatcherState.apply_eq_ok hrun
        refine consume_ne_ok env received ?_ hconsume
        rw [lastSequence_dispatch hwell.noEmptyLevel ht, hwell.sequence, hlast]
  · intro hroom
    refine ⟨?_, ?_⟩
    · intro hne
      have hskip : message.id ≠ c.engine.nextExpectedId := by
        intro hturn
        rcases lt_or_eq_of_le hc.lastSeen_le with hlt | hlast
        · exact hne (hturn.trans (nextExpectedId_of_lt hlt))
        · rw [nextExpectedId, hlast] at hturn
          exact hroom ⟨hlast, hturn⟩
      rw [apply, MatcherState.apply, if_pos hskip]
      rfl
    · rintro m why rfl hnext hverdict
      exact ⟨_, apply_of_refused hwell received hnext hid hverdict, rfl,
        onlyRecorded_consumed env c.engine why _ received⟩

/-- A post-only order that would trade at once, as the next message of the short log. -/
def takingPostOnly : NewMessage where
  id := 5
  timestamp := 1004
  account := 3
  symbol := "ETH-USDC"
  side := .buy
  price := .ofNat 101
  quantity := .ofNat 1
  nonce := none
  terms := { orderType := .limit, timeInForce := .goodTillCancel, postOnly := true }

theorem quiet_iff_sample :
    Sample.state.refusal takingPostOnly = some ⟨"post_only_would_take"⟩ ∧
      Sample.state.lastSeen = 4 ∧
      (Charted.mk Sample.state .default).Quiet Sample.env (.new takingPostOnly) none := by
  have hvalues : Sample.state.refusal takingPostOnly = some ⟨"post_only_would_take"⟩ ∧
      Sample.state.lastSeen = 4 := by decide +kernel
  obtain ⟨hrefusal, hlast⟩ := hvalues
  refine ⟨hrefusal, hlast, ?_⟩
  have hreachable := Sample.reachable_state
  generalize Sample.state = s at hlast hreachable ⊢
  refine (quiet_iff (c := ⟨s, .default⟩) hreachable _ none (by decide +kernel)).2 ?_
  rintro ⟨hend, -⟩
  rw [hlast] at hend
  simp [u64Max] at hend

/-- The engine after every id was used takes the last one again, and it panics. -/
theorem not_quiet_at_end :
    ∃ s, run Sample.env Sample.start (idleLog u64Max) = .ok s ∧
      MatcherState.Reachable Sample.env s ∧ (idle u64Max).id ≠ s.lastSeen + 1 ∧
      s.apply Sample.env (idle u64Max) none =
        .error (.panicked "matcher and ledger share the checked sequence") ∧
      ¬(Charted.mk s .default).Quiet Sample.env (idle u64Max) none := by
  have hstart : MatcherState.Reachable Sample.env Sample.start :=
    @MatcherState.Reachable.genesis _ .synthetic (some Sample.session) none false Sample.start rfl
  obtain ⟨s, hrun, hs, hlast⟩ :=
    exists_run_idleLog Sample.env hstart.wellFormed rfl u64Max le_rfl
  have hne : (idle u64Max).id ≠ s.lastSeen + 1 := by
    rw [hlast]
    exact Nat.ne_of_lt (Nat.lt_succ_self _)
  have hpanic := apply_idle_at_end Sample.env hs hlast
  refine ⟨s, hrun, (reaches_of_run hrun).reachable hstart, hne, hpanic, ?_⟩
  intro hquiet
  have hrefuse := hquiet.outOfTurn hne
  rw [apply, hpanic] at hrefuse
  cases hrefuse

end Charted

end Matcher
end VerifiableExchange
