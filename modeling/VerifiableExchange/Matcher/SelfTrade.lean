import VerifiableExchange.Matcher.Trades

/-!
# SelfTrade — an account does not trade with itself under rule set 2

The check looks for an order of the same account among every order the arriving one could reach, and
the match reaches no other. So a trade under rule set 2 has two accounts, and an order is refused
only for one of its own that waits within its price.
-/

namespace VerifiableExchange
namespace Matcher

open Lib

/-! ## What a step may refuse for -/

/-- Every refusal of this check is counted under one of these kinds. -/
def Blames {α : Type} (x : Except Rejected α) (kinds : List String) : Prop :=
  ∀ why, x = .error why → why.kind ∈ kinds

namespace Blames

variable {α β : Type} {kinds : List String}

theorem ok (a : α) : Blames (.ok a : Except Rejected α) kinds := by
  intro why h
  cases h

theorem error {kind : String} (h : kind ∈ kinds) :
    Blames (.error ⟨kind⟩ : Except Rejected α) kinds := by
  intro why hwhy
  cases hwhy
  exact h

theorem require {p : Prop} [Decidable p] {kind : String} (h : kind ∈ kinds) :
    Blames (Lib.require p (⟨kind⟩ : Rejected)) kinds := by
  unfold Lib.require
  split_ifs
  · exact ok _
  · exact error h

theorem orFail {value : Option α} {kind : String} (h : kind ∈ kinds) :
    Blames (Lib.orFail value (⟨kind⟩ : Rejected)) kinds := by
  cases value with
  | none => exact error h
  | some a => exact ok a

theorem bind {x : Except Rejected α} {f : α → Except Rejected β} (hx : Blames x kinds)
    (hf : ∀ a, Blames (f a) kinds) : Blames (x >>= f) kinds := by
  cases x with
  | ok a => exact hf a
  | error why =>
      intro _ h
      cases h
      exact hx why rfl

theorem foldlM {f : β → α → Except Rejected β} (hf : ∀ b a, Blames (f b a) kinds) :
    ∀ (l : List α) (b : β), Blames (l.foldlM f b) kinds
  | [], b => ok b
  | a :: l, b => by
      rw [List.foldlM_cons]
      exact bind (hf b a) (fun b' => foldlM hf l b')

theorem mono {x : Except Rejected α} {more : List String} (h : Blames x kinds)
    (hmore : ∀ kind ∈ kinds, kind ∈ more) : Blames x more :=
  fun why hwhy => hmore _ (h why hwhy)

end Blames

/-- The kinds of step 1 and of the checks up to the symbol's book. -/
def admitKinds : List String :=
  ["unlisted_symbol", "off_grid", "off_price_step", "off_quantity_step", "active_order_capacity",
    "post_only_market", "post_only_not_resting", "post_only_would_take", "fill_or_kill_unavailable"]

def boundKinds : List String := ["no_reference_price", "fill_or_kill_collared"]

def stageKinds : List String :=
  ["fill_or_kill_unavailable", "position_overflow", "insufficient_funds", "funds_overflow",
    "fok_unfilled"]

theorem blames_bound (order : IncomingOrder) (reference : Option Int) :
    Blames (bound order reference) boundKinds := by
  unfold bound
  split
  · exact .ok _
  · refine Blames.bind (.orFail (by decide)) (fun _ => ?_)
    exact Blames.bind (.require (by decide)) (fun _ => .ok _)

theorem blames_checkPositions (limits : ResourceLimits) (order : IncomingOrder) (book : Book)
    (positions : SortedMap AccountKey Position) :
    Blames (limits.checkPositions order book positions) ["position_capacity"] := by
  have hcount : ∀ added account,
      Blames (limits.countAccount order positions added account) ["position_capacity"] := by
    intro added account
    unfold ResourceLimits.countAccount
    dsimp only
    generalize (if account ∈ added then added else account :: added) = counted
    split_ifs
    · exact .ok _
    · exact .error (by decide)
    · exact .ok _
  refine Blames.bind (Blames.foldlM (fun opening maker => ?_) _ _) (fun _ => .ok _)
  unfold ResourceLimits.countMaker
  split_ifs
  · exact .ok _
  · exact (hcount _ _).bind (fun _ => (hcount _ _).bind (fun _ => .ok _))

theorem blames_preflightFill (order : IncomingOrder) (positions : SortedMap AccountKey Position)
    (price : Int) (p : Preflight) (maker : RestingOrder) :
    Blames (preflightFill order positions price p maker) stageKinds := by
  have hleg : ∀ projected account side fill,
      Blames (projectLeg order positions projected account side fill price) stageKinds :=
    fun _ _ _ _ => Blames.bind (.orFail (by decide)) (fun _ => .ok _)
  refine Blames.bind (.orFail (by decide)) (fun _ => ?_)
  refine (hleg _ _ _ _).bind (fun _ => (hleg _ _ _ _).bind (fun _ => ?_))
  exact Blames.bind (.orFail (by decide)) (fun _ => .ok _)

theorem blames_preflightLevel (order : IncomingOrder) (positions : SortedMap AccountKey Position)
    (price : Int) :
    ∀ (level : Level) (p : Preflight),
      Blames (preflightLevel order positions price p level) stageKinds
  | [], p => .ok p
  | maker :: rest, p => by
      unfold preflightLevel
      split
      · rename_i why hwhy
        intro _ h
        cases h
        exact blames_preflightFill _ _ _ _ _ why hwhy
      · split_ifs
        · exact .ok _
        · exact blames_preflightLevel order positions price rest _

theorem blames_preflightLevels (order : IncomingOrder) (positions : SortedMap AccountKey Position) :
    ∀ (levels : List (Int × Level)) (p : Preflight),
      Blames (preflightLevels order positions p levels) stageKinds
  | [], p => .ok p
  | (price, level) :: rest, p => by
      unfold preflightLevels
      split_ifs
      · exact .ok _
      split
      · rename_i why hwhy
        intro _ h
        cases h
        exact blames_preflightLevel _ _ _ _ _ why hwhy
      · exact blames_preflightLevels order positions rest _

theorem blames_stage (order : IncomingOrder) (into : BookAndTrades) :
    Blames (MatcherState.stage order into) stageKinds := by
  unfold MatcherState.stage
  split
  · refine Blames.bind ?_ (fun plan => Blames.bind ?_ (fun _ => .ok _))
    · refine Blames.bind (.require (by decide)) (fun _ => ?_)
      exact Blames.bind (.orFail (by decide)) (fun _ =>
        Blames.bind (.orFail (by decide)) (fun _ => .ok _))
    · exact Blames.bind (.orFail (by decide)) (fun _ => .orFail (by decide))
  · refine Blames.bind ?_ (fun _ => .ok _)
    unfold preflight
    split_ifs
    · exact .ok _
    · refine Blames.bind (.orFail (by decide)) (fun _ => ?_)
      exact (blames_preflightLevels _ _ _ _).bind (fun _ => .require (by decide))

/-! ## Orders of the same account -/

/-- No order of the arriving account waits where the arriving order could trade. -/
def NoOwnInRange (order : IncomingOrder) (book : Book) : Prop :=
  ∀ price level, (book.levels order.side.opposite).get? price = some level →
    crosses order.side price order.limitCents → ∀ o ∈ level, o.account ≠ order.account

/-- The check finds nothing exactly when nothing is there. -/
theorem ownOrderInTheWay_eq_none {order : IncomingOrder} {book : Book} :
    ownOrderInTheWay order book = none ↔ NoOwnInRange order book := by
  simp only [ownOrderInTheWay, Option.map_eq_none_iff, List.find?_eq_none, List.mem_flatMap,
    crossing, List.mem_filter, decide_eq_true_eq]
  constructor
  · intro h price level hlevel hcross o ho
    exact h o ⟨(price, level), ⟨mem_facing.2 hlevel, hcross⟩, ho⟩
  · rintro h o ⟨⟨price, level⟩, ⟨hlevel, hcross⟩, ho⟩
    exact h price level (mem_facing.1 hlevel) hcross o ho

/-! ## Trades of an accepted order -/

/-- A fill takes an order away, or leaves its account where it was. -/
theorem noOwnInRange_fill {order : IncomingOrder} {remaining : Int} {before : BookAndTrades}
    {e : FillEvent} (enabled : e.Enabled order remaining before)
    (h : NoOwnInRange order before.book) :
    NoOwnInRange order (e.result order remaining before).book := by
  intro price level hlevel hcross o ho
  have hput : (e.result order remaining before).book.levels order.side.opposite =
      Levels.put (before.book.levels order.side.opposite) e.price
        (levelAfter e.maker (e.makerLeft remaining) e.rest) := by simp [FillEvent.result]
  rw [hput, Levels.get?_put] at hlevel
  have hfront := h e.price _ enabled.level
  split_ifs at hlevel with hprice hempty
  · cases hlevel
    subst hprice
    rcases mem_levelAfter ho with ho | ⟨-, rfl⟩
    · exact hfront hcross o (List.mem_cons_of_mem _ ho)
    · exact hfront hcross e.maker List.mem_cons_self
  · exact h price level hlevel hcross o ho

/-- No fill of an order meets an order of the same account, when none waits within its price. -/
theorem Fills.makers_ne {order : IncomingOrder} {remaining left : Int}
    {before after : BookAndTrades} (h : Fills order remaining before left after)
    (hkept : before.pending = some []) (hrange : NoOwnInRange order before.book) :
    ∀ row ∈ recordedTrades after.pending, row.makerAccount ≠ row.takerAccount := by
  have hinv := h.invariant
    (P := fun _ into => into.pending.isSome = true ∧ NoOwnInRange order into.book ∧
      ∀ row ∈ recordedTrades into.pending, row.makerAccount ≠ row.takerAccount)
    (by
      rintro remaining into e enabled ⟨hsome, hrange, hrows⟩
      refine ⟨e.isSome_pending_result hsome, noOwnInRange_fill enabled hrange, ?_⟩
      intro row hrow
      rw [e.recordedTrades_result hsome] at hrow
      rcases List.mem_append.1 hrow with hrow | hrow
      · exact hrows row hrow
      · rw [List.mem_singleton.1 hrow]
        exact hrange e.price _ enabled.level enabled.cross e.maker List.mem_cons_self)
    ⟨by simp [hkept], hrange, by simp [hkept, recordedTrades, tradesOf]⟩
  exact hinv.2.2

namespace MatcherState

/-! ## Over every run -/

theorem blames_admitOrder (s : MatcherState) (m : NewMessage) :
    Blames (s.admitOrder m) admitKinds := by
  refine Blames.bind ?_ (fun terms => Blames.bind (.require (by decide)) (fun _ =>
    Blames.bind ?_ (fun _ => .ok _)))
  · refine Blames.bind (.orFail (by decide)) (fun _ => Blames.bind (.orFail (by decide)) (fun _ =>
      Blames.bind (.orFail (by decide)) (fun _ => Blames.bind ?_ (fun _ => .ok _))))
    exact Blames.bind (.require (by decide)) (fun _ => .require (by decide))
  · exact Blames.bind (.require (by decide)) (fun _ => Blames.bind (.require (by decide)) (fun _ =>
      Blames.bind (.require (by decide)) (fun _ => .require (by decide))))

/-- A refusal for self-trade points at an order of the same account within the effective price. -/
theorem own_order_of_self_trade {s : MatcherState} {m : NewMessage}
    (h : s.verdict m = .error ⟨"self_trade"⟩) :
    ∃ arrived limitCents, s.admitOrder m = .ok arrived ∧
      bound arrived (s.mids.referenceCents m.symbol m.timestamp) = .ok limitCents ∧
      ∃ price o, Rests s.books ⟨m.symbol, m.side.opposite, price⟩ o ∧
        crosses m.side price limitCents ∧ o.account = m.account := by
  simp only [verdict, prepare, effectiveOrder, checkSelfTrade, bind_eq_error] at h
  -- Of the checks on the way only one gives this reason.
  rcases h with hadmit | ⟨arrived, hadmit, (hbound | ⟨limitCents, hbound, hself | ⟨_, -, hlimits⟩⟩) |
    ⟨order, -, hstage | ⟨_, -, hdone⟩⟩⟩
  · exact absurd (blames_admitOrder s m _ hadmit) (by decide)
  · exact absurd (blames_bound _ _ _ hbound) (by decide)
  · obtain ⟨terms, -, rfl, -, -⟩ := admitOrder_eq_ok hadmit
    obtain ⟨hcheck, -⟩ := require_eq_error.1 hself
    refine ⟨_, limitCents, hadmit, hbound, ?_⟩
    have hown : ¬NoOwnInRange { incomingOf m terms with limitCents := limitCents }
        (s.books.getD m.symbol .default) := by
      rw [← ownOrderInTheWay_eq_none]
      exact fun hnone => hcheck (fun _ => hnone)
    unfold NoOwnInRange at hown
    push Not at hown
    obtain ⟨price, level, hlevel, hcross, o, ho, haccount⟩ := hown
    refine ⟨price, o, ⟨level, ?_, ho⟩, hcross, haccount⟩
    exact (levelAt_getD _ _ _ _).trans hlevel
  · cases hlimit : s.resourceLimits with
    | none =>
        rw [hlimit] at hlimits
        cases hlimits
    | some limits =>
        rw [hlimit] at hlimits
        have hblames := (blames_checkPositions limits { arrived with limitCents := limitCents }
          (s.bookAndTrades arrived.symbol).book s.positions).bind
            (fun _ => .ok { arrived with limitCents := limitCents })
        exact absurd (hblames _ hlimits) (by decide)
  · exact absurd (blames_stage _ _ _ hstage) (by decide)
  · cases hdone

/-- Over every run, whatever rule sets came before: a trade under rule set 2 or later has two
accounts, and an order is refused for self-trade only where one of its account's own orders waits
on the other side, within the price it may fill at. -/
theorem no_self_trade {env : Primitives} {s : MatcherState} (hs : Reachable env s) :
    (∀ message received e, s.rules.atLeast 2 = true →
      s.effect env message received = .ok e →
      ∀ row ∈ e.trades, row.makerAccount ≠ row.takerAccount) ∧
    (∀ m, s.verdict m = .error ⟨"self_trade"⟩ →
      ∃ arrived limitCents, s.admitOrder m = .ok arrived ∧
        bound arrived (s.mids.referenceCents m.symbol m.timestamp) = .ok limitCents ∧
        ∃ price o, Rests s.books ⟨m.symbol, m.side.opposite, price⟩ o ∧
          crosses m.side price limitCents ∧ o.account = m.account) := by
  refine ⟨?_, fun m h => own_order_of_self_trade h⟩
  intro message received e hrules heffect
  rcases effect_eq_ok hs.wellFormed heffect with hnone | ⟨m, order, left, after, t, -, htraded, htrades⟩
  · rw [hnone]
    simp
  · obtain ⟨arrived, -, heffective⟩ := htraded.accepted.checked
    obtain ⟨limitCents, -, -, hown, -⟩ := effectiveOrder_eq_ok heffective
    obtain ⟨reserved, -, hfills⟩ := htraded.executed.filled
    -- The rule was in force, so nothing of the account was within the price.
    have hrange := ownOrderInTheWay_eq_none.1 (hown hrules)
    rw [htrades]
    refine hfills.makers_ne rfl ?_
    show NoOwnInRange order (s.books.getD order.symbol .default)
    rw [htraded.accepted.symbol_eq]
    exact hrange

namespace Sample

/-! A log that switches to rule set 2 while an order rests. -/

def ruleNonce : String := "101112131415161718191a1b1c1d1e1f"

def ruleSignature : String :=
  "df33440e5e16bcbaf0f3aabfa9e65f4381949e3ac90f7ef2297628e08c0a9a41" ++
    "346954b037f69a715c876fd9925a19c4b4a65e7f7d8fb51702a2b261e29a3d03"

def secondRuleSet : OrderMessage × Bytes :=
  (.engineRule {
    id := 3
    timestamp := 1002
    account := 4294967295
    version := 2
    nonce := some ruleNonce
    publicKey := operatorKey
    signature := ruleSignature },
  served "EngineRule" [("id", "3"), ("timestamp", "1002"), ("account", "4294967295"),
    ("version", "2"), ("nonce", s!"\"{ruleNonce}\""), ("public_key", s!"\"{operatorKey}\""),
    ("signature", s!"\"{ruleSignature}\"")])

/-- An order of another account that takes half of the one that rests. -/
def taking : OrderMessage × Bytes := limitOrder 4 1003 2 .buy 101 1

def ruledMessages : List (OrderMessage × Bytes) :=
  [listing, limitOrder 2 1001 1 .sell 101 2, secondRuleSet, taking]

def ruledChains : List Bytes :=
  [emptyChain,
    hex "ad31866b580c62e8b6c6a71b87688635c5d3b85b04c07c4ee18b63f03e14cf4a",
    hex "d83da91181daf4a32077560442f08cc06120fa996e13157b32d3cc80428b06a0",
    hex "0d5e3b190271ad489c813c37b693599e71b4e3da22ad5c2630800c6b385ff416",
    hex "1823ee7fc5eeeb84b202ed0ab453ccafcd9a3b98c6d46bcc12bc345864d42d26"]

def ruledEnv : Primitives where
  sha256 := fun bytes =>
    (((ruledMessages.zip (ruledChains.zip ruledChains.tail)).find?
      (fun e => e.2.1 ++ e.1.2 = bytes)).map (fun e => e.2.2)).getD []
  isVerifyingKey := env.isVerifyingKey
  verifyStrict := fun key statement signed =>
    env.verifyStrict key statement signed ||
      (key = hex operatorKey && signed = hex ruleSignature &&
        statement = "\n".intercalate ["exchange-operator-rule-v1", session, "2", ruleNonce])
  canonicalBytes := fun message =>
    ((ruledMessages.find? (fun m => m.1 = message)).map Prod.snd).getD []

def ruledLog : List (OrderMessage × Option Bytes) :=
  (ruledMessages.take 3).map (fun m => (m.1, some m.2))

/-- The engine under rule set 2, with an order that rested under rule set 1. -/
def ruledState : MatcherState := (run ruledEnv start ruledLog).toOption.getD .new

/-- The resting account would take its own order. -/
def ownTaking : NewMessage where
  id := 4
  timestamp := 1003
  account := 1
  symbol := "ETH-USDC"
  side := .buy
  price := .ofNat 101
  quantity := .ofNat 1
  nonce := none
  terms := { orderType := .limit, timeInForce := .goodTillCancel, postOnly := false }

/-- The other account's order, as the engine reads it. -/
def takingOrder : NewMessage := { ownTaking with account := 2 }

/-- What the other account's order does to it. -/
def takingEffect : Effect :=
  (ruledState.effect ruledEnv taking.1 (some taking.2)).toOption.getD (recorded ruledState)

theorem ruledState_values :
    (run ruledEnv start ruledLog).toOption.isSome = true ∧
      ruledState.rules.atLeast 2 = true ∧
      (ruledState.effect ruledEnv taking.1 (some taking.2)).toOption.isSome = true ∧
      takingEffect.trades.length = 1 ∧
      ruledState.refusal ownTaking = some ⟨"self_trade"⟩ ∧
      ruledState.refusal takingOrder = none ∧
      (ruledState.apply ruledEnv (.new takingOrder) (some taking.2)).toOption.isSome = true := by
  decide +kernel

theorem run_ruledLog : run ruledEnv start ruledLog = .ok ruledState :=
  eq_ok_getD ruledState_values.1

theorem reachable_ruledState : Reachable ruledEnv ruledState :=
  (reaches_of_run run_ruledLog).reachable
    (@Reachable.genesis ruledEnv .synthetic (some session) none false start rfl)

end Sample

/-- Under rule set 2, another account's order trades with the one that rests, and its own account's
is refused for it. -/
theorem no_self_trade_sample :
    (Sample.takingEffect.trades.length = 1 ∧
      ∀ row ∈ Sample.takingEffect.trades, row.makerAccount ≠ row.takerAccount) ∧
    ∃ price o, Rests Sample.ruledState.books ⟨"ETH-USDC", .sell, price⟩ o ∧ o.account = 1 := by
  obtain ⟨-, hrules, hok, hlength, hrefusal, -⟩ := Sample.ruledState_values
  have heffect := eq_ok_getD (d := recorded Sample.ruledState) hok
  have hreachable := Sample.reachable_ruledState
  refine ⟨⟨hlength, ?_⟩, ?_⟩
  · exact (no_self_trade hreachable).1 _ _ _ hrules heffect
  · obtain ⟨_, _, -, -, price, o, ho, -, haccount⟩ :=
      (no_self_trade hreachable).2 _ (refusal_eq_some.1 hrefusal)
    exact ⟨price, o, ho, haccount⟩

end MatcherState

end Matcher
end VerifiableExchange
