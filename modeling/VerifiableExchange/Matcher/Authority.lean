import VerifiableExchange.Matcher.WellFormed

/-!
# Authority — what the operator of a log decides

The first operator message that verifies under the key it names fixes the operator of the log. The
markets and the rule set move only at messages that verify under that key.
-/

namespace VerifiableExchange

open Lib

namespace Operator

/-! ## The key a message acts under -/

/-- The key this message acts under, in a log that runs under `pinned` so far. -/
def signedUnder (env : Primitives) (session : String) (pinned : Option Bytes)
    (message : OrderMessage) : Option Bytes :=
  (pinned.or (namedKey env message)).filter (fun key => verify env message session key)

variable {env : Primitives} {session : String} {pinned : Option Bytes} {message : OrderMessage}

/-- The key the first message that verifies under the key it names fixes for the whole log. -/
def firstKey (env : Primitives) (session : String) (messages : List OrderMessage) :
    Option Bytes :=
  messages.findSome? (signedUnder env session none)

theorem signedUnder_some (key : Bytes) :
    signedUnder env session (some key) message =
      if verify env message session key then some key else none := by
  rw [signedUnder, Option.some_or, Option.filter_some]

theorem verify_of_signedUnder {key : Bytes} (h : signedUnder env session pinned message = some key) :
    verify env message session key = true :=
  (Option.filter_eq_some_iff.1 h).2

/-- A message that acts does so under the key the log runs under from then on. -/
theorem or_signedUnder {key : Bytes} (h : signedUnder env session pinned message = some key) :
    pinned.or (signedUnder env session none message) = some key := by
  cases pinned with
  | none => exact h
  | some k =>
      rw [signedUnder_some] at h
      split_ifs at h
      exact h

/-- A message that does not act leaves the key as it is. -/
theorem or_signedUnder_of_none (h : signedUnder env session pinned message = none) :
    pinned.or (signedUnder env session none message) = pinned := by
  cases pinned with
  | none => exact h
  | some k => rfl

/-- The key after a message, read from the message's own side. -/
theorem signedUnder_or (pinned : Option Bytes) :
    (signedUnder env session pinned message).or pinned =
      pinned.or (signedUnder env session none message) := by
  cases h : signedUnder env session pinned message with
  | none => rw [or_signedUnder_of_none h, Option.none_or]
  | some key => rw [or_signedUnder h, Option.some_or]

/-- The key a log runs under is one signatures can be checked against. -/
theorem isVerifyingKey_of_firstKey {messages : List OrderMessage} {key : Bytes}
    (h : firstKey env session messages = some key) : env.isVerifyingKey key = true := by
  obtain ⟨message, -, hsigned⟩ := List.exists_of_findSome?_eq_some h
  have hnamed : namedKey env message = some key := by
    have hpinned := (Option.filter_eq_some_iff.1 hsigned).1
    rwa [Option.none_or] at hpinned
  unfold namedKey at hnamed
  split at hnamed
  · cases hnamed
  · split at hnamed
    · split_ifs at hnamed with hkey
      cases hnamed
      exact hkey
    · cases hnamed

/-- A trader's message acts under no key. -/
theorem signedUnder_of_trader (h : message.fieldsOf = none) :
    signedUnder env session pinned message = none := by
  refine Option.filter_eq_none_iff.2 (fun key _ => ?_)
  rw [verify, h]
  exact Bool.false_ne_true

theorem firstKey_append (log : List OrderMessage) (message : OrderMessage) :
    firstKey env session (log ++ [message]) =
      (firstKey env session log).or (signedUnder env session none message) := by
  rw [firstKey, List.findSome?_append, firstKey]
  cases h : signedUnder env session none message <;> simp [List.findSome?, h]

end Operator

namespace Matcher
namespace MatcherState

/-! ## One message -/

/-- The registry after a message its operator signed. -/
def symbolsAfter (s : MatcherState) : OrderMessage → SymbolRegistry
  | .listSymbol m =>
      ((s.listingOf m).bind (SymbolRegistry.list s.symbols m.symbol)).getD s.symbols
  | .delistSymbol m => (SymbolRegistry.delist s.symbols m.symbol).getD s.symbols
  | .engineRule _ | .new _ | .cancel _ => s.symbols

/-- The rules after a message its operator signed. -/
def rulesAfter (rules : RuleSet) : OrderMessage → RuleSet
  | .engineRule m => (RuleSet.known m.version).getD rules
  | .listSymbol _ | .delistSymbol _ | .new _ | .cancel _ => rules

/-- What a log decided so far: its session and its limits, its operator, its rules and its
markets. -/
structure Charter where
  feedSession : Option String
  resourceLimits : Option ResourceLimits
  operatorKey : Option Bytes
  rules : RuleSet
  symbols : SymbolRegistry

def charter (s : MatcherState) : Charter where
  feedSession := s.feedSession
  resourceLimits := s.resourceLimits
  operatorKey := s.operatorKey
  rules := s.rules
  symbols := s.symbols

/-- The charter after one message: only the operator's own messages change it. -/
def charterAfter (env : Primitives) (s : MatcherState) (message : OrderMessage) : Charter :=
  match Operator.signedUnder env (s.feedSession.getD "") s.operatorKey message with
  | some key => { s.charter with
      operatorKey := some key
      rules := rulesAfter s.rules message
      symbols := s.symbolsAfter message }
  | none => s.charter

theorem operatorSigned_eq_signedUnder (env : Primitives) (s : MatcherState)
    (message : OrderMessage) :
    operatorSigned env s message =
      match Operator.signedUnder env (s.feedSession.getD "") s.operatorKey message with
      | some key => ({ s with operatorKey := some key }, true)
      | none => (s.ignoreListing, false) := by
  unfold operatorSigned
  cases hpinned : s.operatorKey with
  | some key =>
      rw [Operator.signedUnder_some]
      by_cases hsigned : Operator.verify env message (s.feedSession.getD "") key = true
      · have hsame : { s with operatorKey := some key } = s := by rw [← hpinned]
        simp only [if_pos hsigned, hsame]
      · simp only [if_neg hsigned]
  | none =>
      rw [Operator.signedUnder, Option.none_or]
      cases hnamed : Operator.namedKey env message with
      | none => rfl
      | some key =>
          by_cases hsigned : Operator.verify env message (s.feedSession.getD "") key = true
          · simp only [if_pos hsigned, Option.filter_some]
          · simp only [if_neg hsigned, Option.filter_some]

theorem charter_finished {s t : MatcherState} {order : IncomingOrder} {left : Int}
    {after : BookAndTrades} (h : Finished s order left after t) : t.charter = s.charter := by
  cases h <;> rfl

theorem charter_applyNew {s t : MatcherState} (hs : s.WellFormed) {m : NewMessage}
    (h : s.applyNew m = .ok t) : t.charter = s.charter := by
  rcases applyNew_cases (hs.noEmptyLevel m.symbol) h with ⟨why, rfl⟩ | ⟨why, rfl⟩ |
    ⟨order, left, after, -, -, hfinished⟩
  · rfl
  · rfl
  · exact charter_finished hfinished

theorem charter_applyCancel {s t : MatcherState} {m : CancelMessage}
    (h : s.applyCancel m = .ok t) : t.charter = s.charter := by
  unfold applyCancel at h
  split at h
  · cases h
    rfl
  split_ifs at h
  · cases h
    rfl
  · obtain ⟨ledger, released, book, -, -, rfl⟩ := removeCancelled_eq_ok h
    rfl

theorem charter_applyListSymbol (s : MatcherState) (m : ListSymbolMessage) :
    (s.applyListSymbol m).charter = { s.charter with
      symbols := ((s.listingOf m).bind (SymbolRegistry.list s.symbols m.symbol)).getD s.symbols } := by
  unfold applyListSymbol
  cases s.listingOf m with
  | none => rfl
  | some listing =>
      dsimp only [Option.bind_some]
      cases SymbolRegistry.list s.symbols m.symbol listing <;> rfl

theorem charter_applyDelistSymbol {s t : MatcherState} {m : DelistSymbolMessage}
    (h : s.applyDelistSymbol m = .ok t) :
    t.charter = { s.charter with
      symbols := (SymbolRegistry.delist s.symbols m.symbol).getD s.symbols } := by
  unfold applyDelistSymbol at h
  split at h
  case h_1 hnone =>
    cases h
    rw [hnone]
    rfl
  case h_2 symbols hsymbols =>
    obtain ⟨cleared, hcleared, h⟩ := bind_eq_ok.1 h
    cases h
    rw [hsymbols]
    rcases clearBook_eq_ok hcleared with ⟨-, rfl⟩ | ⟨book, ledger, -, -, rfl⟩ <;> rfl

theorem charter_applyEngineRule (s : MatcherState) (m : EngineRuleMessage) :
    (s.applyEngineRule m).charter =
      { s.charter with rules := (RuleSet.known m.version).getD s.rules } := by
  unfold applyEngineRule
  cases RuleSet.known m.version <;> rfl

theorem charter_whenSigned {env : Primitives} {s t : MatcherState} {message : OrderMessage}
    {act : MatcherState → Except Fault MatcherState}
    (hact : ∀ key v, act { s with operatorKey := some key } = .ok v → v.charter = { s.charter with
      operatorKey := some key
      rules := rulesAfter s.rules message
      symbols := s.symbolsAfter message })
    (h : whenSigned env s message act = .ok t) : t.charter = s.charterAfter env message := by
  unfold whenSigned at h
  rw [operatorSigned_eq_signedUnder] at h
  unfold charterAfter
  cases hsigned : Operator.signedUnder env (s.feedSession.getD "") s.operatorKey message with
  | none =>
      simp only [hsigned] at h
      cases h
      rfl
  | some key =>
      simp only [hsigned] at h
      exact hact key t h

theorem charter_dispatch {env : Primitives} {s t : MatcherState} (hs : s.WellFormed)
    {message : OrderMessage} (h : dispatch env s message = .ok t) :
    t.charter = s.charterAfter env message := by
  cases message with
  | new m =>
      rw [charterAfter, Operator.signedUnder_of_trader rfl]
      exact charter_applyNew hs h
  | cancel m =>
      rw [charterAfter, Operator.signedUnder_of_trader rfl]
      exact charter_applyCancel h
  | listSymbol m =>
      refine charter_whenSigned (fun key v hact => ?_) h
      cases hact
      exact charter_applyListSymbol { s with operatorKey := some key } m
  | delistSymbol m =>
      exact charter_whenSigned (fun key v hact => charter_applyDelistSymbol hact) h
  | engineRule m =>
      refine charter_whenSigned (fun key v hact => ?_) h
      cases hact
      exact charter_applyEngineRule { s with operatorKey := some key } m

theorem charter_consume {env : Primitives} {s s' : MatcherState} {message : OrderMessage}
    {received : Option Bytes} (h : consume env s message received = .ok s') :
    s'.charter = s.charter := by
  obtain ⟨ledger, -, h⟩ := bind_eq_ok.1 h
  cases h
  rfl

/-- Only a message the operator signed changes the charter, and it does so in one way. -/
theorem charter_apply {env : Primitives} {s s' : MatcherState} (hs : s.WellFormed)
    {message : OrderMessage} {received : Option Bytes}
    (h : s.apply env message received = .ok s') : s'.charter = s.charterAfter env message := by
  obtain ⟨-, t, ht, hconsume⟩ := apply_eq_ok h
  rw [charter_consume hconsume, charter_dispatch hs ht]

/-! ## The books an operator's message leaves -/

/-- The market a message closes: a delist its operator signed, of a symbol that is listed. -/
def marketClosed (env : Primitives) (s : MatcherState) (message : OrderMessage) : Option String :=
  match message with
  | .delistSymbol m =>
      if (Operator.signedUnder env (s.feedSession.getD "") s.operatorKey message).isSome &&
          (SymbolRegistry.listing s.symbols m.symbol).isSome then some m.symbol
      else none
  | .listSymbol _ | .engineRule _ | .new _ | .cancel _ => none

/-- The books without the market that was closed. -/
def withoutMarket (books : Books) : Option String → Books
  | some symbol => books.erase symbol
  | none => books

theorem books_applyListSymbol (s : MatcherState) (m : ListSymbolMessage) :
    (s.applyListSymbol m).books = s.books := by
  rcases applyListSymbol_cases s m with heq | ⟨listing, -, -, heq⟩
  · rw [heq]
    rfl
  · rw [heq]

theorem books_applyDelistSymbol {s t : MatcherState} {m : DelistSymbolMessage}
    (h : s.applyDelistSymbol m = .ok t) :
    t.books = withoutMarket s.books
      (if (SymbolRegistry.listing s.symbols m.symbol).isSome then some m.symbol else none) := by
  unfold applyDelistSymbol SymbolRegistry.delist at h
  cases hlisting : SymbolRegistry.listing s.symbols m.symbol with
  | none =>
      rw [hlisting] at h
      cases h
      rfl
  | some listing =>
      rw [hlisting] at h
      obtain ⟨cleared, hcleared, h⟩ := bind_eq_ok.1 h
      cases h
      show cleared.books = s.books.erase m.symbol
      rcases clearBook_eq_ok hcleared with ⟨hnone, rfl⟩ | ⟨book, ledger, -, -, rfl⟩
      · exact (SortedMap.erase_eq_self hnone).symm
      · rfl

theorem books_whenSigned {env : Primitives} {s t : MatcherState} {message : OrderMessage}
    {act : MatcherState → Except Fault MatcherState} {closed : Option String}
    (hact : ∀ key v, act { s with operatorKey := some key } = .ok v →
      v.books = withoutMarket s.books closed)
    (h : whenSigned env s message act = .ok t) :
    t.books = withoutMarket s.books
      (if (Operator.signedUnder env (s.feedSession.getD "") s.operatorKey message).isSome then closed
        else none) := by
  unfold whenSigned at h
  rw [operatorSigned_eq_signedUnder] at h
  cases hsigned : Operator.signedUnder env (s.feedSession.getD "") s.operatorKey message with
  | none =>
      simp only [hsigned] at h
      cases h
      rfl
  | some key =>
      simp only [hsigned] at h
      exact hact key t h

/-- An operator's message leaves every book as it is, or takes one whole market away. -/
theorem books_apply {env : Primitives} {s s' : MatcherState} {message : OrderMessage}
    (hfields : message.fieldsOf ≠ none) {received : Option Bytes}
    (h : s.apply env message received = .ok s') :
    s'.books = withoutMarket s.books (marketClosed env s message) := by
  obtain ⟨-, t, ht, hconsume⟩ := apply_eq_ok h
  obtain ⟨-, -, -, -, -, hbooks, -⟩ := consume_eq_ok hconsume
  rw [hbooks]
  cases message with
  | new m => exact absurd rfl hfields
  | cancel m => exact absurd rfl hfields
  | listSymbol m =>
      rw [@books_whenSigned env s t (.listSymbol m) _ none (fun key v hact => ?_) ht, ite_self]
      · rfl
      · cases hact
        exact books_applyListSymbol { s with operatorKey := some key } m
  | engineRule m =>
      rw [@books_whenSigned env s t (.engineRule m) _ none (fun key v hact => ?_) ht, ite_self]
      · rfl
      · cases hact
        unfold applyEngineRule
        split <;> rfl
  | delistSymbol m =>
      have hact : ∀ key v, applyDelistSymbol { s with operatorKey := some key } m = .ok v →
          v.books = withoutMarket s.books
            (if (SymbolRegistry.listing s.symbols m.symbol).isSome then some m.symbol else none) := by
        intro key v hact
        have hbooks := books_applyDelistSymbol hact
        exact hbooks
      rw [books_whenSigned hact ht, marketClosed]
      congr 1
      simp only [Bool.and_eq_true, ite_and]

/-! ## Whole logs -/

section Whole

variable {env : Primitives} {start s s' : MatcherState}

theorem feedSession_apply (hs : s.WellFormed) {message : OrderMessage} {received : Option Bytes}
    (h : s.apply env message received = .ok s') : s'.feedSession = s.feedSession := by
  have hcharter := charter_apply hs h
  unfold charterAfter at hcharter
  split at hcharter <;> exact congrArg Charter.feedSession hcharter

theorem resourceLimits_apply (hs : s.WellFormed) {message : OrderMessage} {received : Option Bytes}
    (h : s.apply env message received = .ok s') : s'.resourceLimits = s.resourceLimits := by
  have hcharter := charter_apply hs h
  unfold charterAfter at hcharter
  split at hcharter <;> exact congrArg Charter.resourceLimits hcharter

theorem operatorKey_apply (hs : s.WellFormed) {message : OrderMessage} {received : Option Bytes}
    (h : s.apply env message received = .ok s') :
    s'.operatorKey =
      s.operatorKey.or (Operator.signedUnder env (s.feedSession.getD "") none message) := by
  have hcharter := charter_apply hs h
  unfold charterAfter at hcharter
  split at hcharter
  · rename_i key hsigned
    rw [Operator.or_signedUnder hsigned]
    exact congrArg Charter.operatorKey hcharter
  · rename_i hnone
    rw [Operator.or_signedUnder_of_none hnone]
    exact congrArg Charter.operatorKey hcharter

end Whole

/-! ## The feed and the ids -/

/-- The feed a run follows: its session, and the key of its heads. -/
def feed (s : MatcherState) : Option String × Option String := (s.feedSession, s.feedPubkey)

theorem feed_finishMatch {s s' : MatcherState} {order : IncomingOrder}
    {matched : Matched × BookAndTrades} (h : s.finishMatch order matched = .ok s') :
    s'.feed = s.feed := by
  obtain ⟨result, into⟩ := matched
  cases result with
  | overflowed reason =>
      obtain ⟨ledger, -, h⟩ := bind_eq_ok.1 h
      cases h
      rfl
  | crossed remaining =>
      obtain ⟨placed, -, h⟩ := bind_eq_ok.1 h
      cases h
      rfl

theorem feed_applyNew {s s' : MatcherState} {m : NewMessage} (h : s.applyNew m = .ok s') :
    s'.feed = s.feed := by
  unfold applyNew at h
  split at h
  · cases h
    rfl
  · unfold matchOrder at h
    simp only at h
    split at h
    · cases h
      rfl
    · split at h
      · cases h
      · exact feed_finishMatch h

theorem feed_applyCancel {s s' : MatcherState} {m : CancelMessage}
    (h : s.applyCancel m = .ok s') : s'.feed = s.feed := by
  unfold applyCancel at h
  split at h
  · cases h
    rfl
  · split at h
    · cases h
      rfl
    · simp only [removeCancelled, bind_eq_ok] at h
      obtain ⟨ledger, -, book, -, h⟩ := h
      cases h
      rfl

theorem feed_clearBook {s s' : MatcherState} {symbol : String}
    (h : s.clearBook symbol = .ok s') : s'.feed = s.feed := by
  unfold clearBook at h
  split at h
  · cases h
    rfl
  · obtain ⟨cleared, hcleared, h⟩ := bind_eq_ok.1 h
    cases h
    refine foldlM_invariant (fun t => t.feed = s.feed) (fun t resting t' ht hstep => ?_)
      _ _ _ rfl hcleared
    obtain ⟨ledger, -, hstep⟩ := bind_eq_ok.1 hstep
    cases hstep
    exact ht

theorem feed_operatorSigned (env : Primitives) (s : MatcherState) (message : OrderMessage) :
    (operatorSigned env s message).1.feed = s.feed := by
  obtain ⟨_, _, -, h⟩ := operatorSigned_eq env s message
  rw [h]
  rfl

theorem feed_whenSigned {env : Primitives} {s s' : MatcherState} {message : OrderMessage}
    {act : MatcherState → Except Fault MatcherState}
    (hact : ∀ t t', act t = .ok t' → t'.feed = t.feed)
    (h : whenSigned env s message act = .ok s') : s'.feed = s.feed := by
  have hsigned := feed_operatorSigned env s message
  unfold whenSigned at h
  split at h
  · rename_i t ht
    rw [ht] at hsigned
    exact (hact _ _ h).trans hsigned
  · rename_i t ht
    rw [ht] at hsigned
    cases h
    exact hsigned

theorem feed_dispatch {env : Primitives} {s s' : MatcherState} {message : OrderMessage}
    (h : dispatch env s message = .ok s') : s'.feed = s.feed := by
  cases message with
  | new m => exact feed_applyNew h
  | cancel m => exact feed_applyCancel h
  | listSymbol m =>
      refine feed_whenSigned (fun t t' hact => ?_) h
      cases hact
      unfold applyListSymbol
      split
      · rfl
      · split <;> rfl
  | delistSymbol m =>
      refine feed_whenSigned (fun t t' hact => ?_) h
      unfold applyDelistSymbol at hact
      split at hact
      · cases hact
        rfl
      · obtain ⟨cleared, hcleared, hact⟩ := bind_eq_ok.1 hact
        cases hact
        have hkept := feed_clearBook hcleared
        exact hkept
  | engineRule m =>
      refine feed_whenSigned (fun t t' hact => ?_) h
      cases hact
      unfold applyEngineRule
      split <;> rfl

/-- One message leaves the feed alone and is the next of the log. -/
theorem consumed_apply {env : Primitives} {s s' : MatcherState} {message : OrderMessage}
    {received : Option Bytes} (h : s.apply env message received = .ok s') :
    message.id = s.nextExpectedId ∧ s'.lastSeen = message.id ∧ s'.feed = s.feed := by
  obtain ⟨hid, t, ht, h⟩ := apply_eq_ok h
  refine ⟨hid, (consume_eq_ok h).2.2.2.1, ?_⟩
  obtain ⟨ledger, -, h⟩ := bind_eq_ok.1 h
  cases h
  have hkept := feed_dispatch ht
  exact hkept

/-- A sum that stays below the largest value is the sum. -/
theorem saturatingAddU64_of_lt {a b : Nat} (h : saturatingAddU64 a b < u64Max) :
    saturatingAddU64 a b = a + b := by
  unfold saturatingAddU64 at h ⊢
  omega

/-- The ids a run consumes follow each other, as long as they do not reach the largest one. -/
theorem consumed_run {env : Primitives} :
    ∀ {log : List (OrderMessage × Option Bytes)} {s s' : MatcherState},
      run env s log = .ok s' → s'.lastSeen < u64Max →
        s'.lastSeen = s.lastSeen + log.length ∧
          log.map (fun m => m.1.id) = List.range' (s.lastSeen + 1) log.length ∧
          s'.feed = s.feed
  | [], s, s', h, _ => by
      cases h
      exact ⟨rfl, rfl, rfl⟩
  | m :: log, s, s', h, hmax => by
      unfold run at h
      rw [List.foldlM_cons] at h
      obtain ⟨t, ht, h⟩ := bind_eq_ok.1 h
      obtain ⟨hlast, hids, hfeed⟩ := consumed_run h hmax
      obtain ⟨hid, hseen, hkept⟩ := consumed_apply ht
      have hnext : t.lastSeen = s.lastSeen + 1 := by
        have hbelow : t.lastSeen < u64Max :=
          lt_of_le_of_lt (hlast ▸ Nat.le_add_right _ _) hmax
        rw [hseen, hid] at hbelow ⊢
        exact saturatingAddU64_of_lt hbelow
      refine ⟨?_, ?_, hfeed.trans hkept⟩
      · rw [hlast, hnext, List.length_cons, Nat.add_assoc, Nat.add_comm 1]
      · rw [List.map_cons, hids, List.length_cons, List.range'_succ, ← hseen, hnext]

end MatcherState
end Matcher
end VerifiableExchange
