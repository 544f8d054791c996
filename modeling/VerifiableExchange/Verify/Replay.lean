import VerifiableExchange.Verify.NamedOrders
import VerifiableExchange.Verify.OperatorKey
import VerifiableExchange.Wire

/-!
# Replay — the operator's part of the checker's walk

The walk keeps its own operator key, rule set and open symbols, and moves them at the messages it
accepts. On every log it accepts the operator messages the exchange accepts and runs under the same
rules; where the exchange lists every market the operator signed, the same orders are tradable and
a delist takes the same orders away.
-/

namespace VerifiableExchange

open Lib Matcher MatcherState

namespace Verify

/-! ## The rule set -/

/-- The rule sets the checker can replay. -/
structure Rules where
  version : Nat
  deriving DecidableEq

namespace Rules

/-- What a history runs under before it names a rule set. -/
def genesis : Rules := ⟨1⟩

/-- The newest rule set this build can replay. -/
def newest : Nat := 2

def known (version : Nat) : Option Rules :=
  if genesis.version ≤ version ∧ version ≤ newest then some ⟨version⟩ else none

end Rules

/-- A rule set this build cannot replay; the report ends there. -/
def unknownRuleSet (m : EngineRuleMessage) : TooOld where
  id := m.id
  kind := "EngineRule"
  reason := s!"it names rule set {m.version}, and this build replays rule sets " ++
    s!"{Rules.genesis.version} to {Rules.newest}, so a report past it would cover a history " ++
    "matched under rules this checker cannot apply"

/-! ## The walk -/

/-- What the operator's messages move on a walk. -/
structure Walk where
  operator : Operator
  rules : Rules
  openSymbols : Listings
  tooOld : Option TooOld

namespace Walk

def new : Walk := ⟨Operator.new, Rules.genesis, .empty, none⟩

/-- What an accepted message does. -/
def act (w : Walk) (message : OrderMessage) : Walk :=
  match message with
  | .engineRule m =>
      match Rules.known m.version with
      | some rules => { w with rules := rules }
      | none => { w with tooOld := w.tooOld.or (some (unknownRuleSet m)) }
  | .listSymbol _ | .delistSymbol _ | .new _ | .cancel _ =>
      { w with openSymbols := w.openSymbols.after message }

/-- Reads one message: one the operator did not write acts on nothing. -/
def read (env : Primitives) (session : String) (w : Walk) (message : OrderMessage) : Walk :=
  match w.operator.accepts env message.id message session with
  | (operator, true) => act { w with operator := operator } message
  | (operator, false) => { w with operator := operator }

/-- The walk after these messages. -/
def along (env : Primitives) (session : String) (messages : List OrderMessage) : Walk :=
  messages.foldl (read env session) new

/-- Whether the walk lets the next message act. -/
def accepts (env : Primitives) (session : String) (w : Walk) (message : OrderMessage) : Bool :=
  (w.operator.accepts env message.id message session).2

theorem along_append (env : Primitives) (session : String) (messages : List OrderMessage)
    (message : OrderMessage) :
    along env session (messages ++ [message]) = (along env session messages).read env session message := by
  rw [along, List.foldl_append]
  rfl

variable {env : Primitives} {session : String} {w : Walk} {message : OrderMessage}

theorem read_of_accepts (h : w.accepts env session message = true) :
    w.read env session message =
      act { w with operator := (w.operator.accepts env message.id message session).1 } message := by
  unfold read
  unfold accepts at h
  split
  · simp only [*]
  · simp_all

theorem read_of_refuses (h : w.accepts env session message = false) :
    w.read env session message =
      { w with operator := (w.operator.accepts env message.id message session).1 } := by
  unfold read
  unfold accepts at h
  split
  · simp_all
  · simp only [*]

@[simp] theorem operator_act (w : Walk) (message : OrderMessage) :
    (w.act message).operator = w.operator := by
  unfold act
  split
  · split <;> rfl
  all_goals rfl

theorem operator_read : (w.read env session message).operator =
    (w.operator.accepts env message.id message session).1 := by
  cases h : w.accepts env session message with
  | true => rw [read_of_accepts h, operator_act]
  | false => rw [read_of_refuses h]

end Walk

/-! ## The same operator -/

/-- An engine and a walk that read the same messages. -/
structure Follows (env : Primitives) (limits : Option ResourceLimits) (session : String)
    (messages : List OrderMessage) (s : MatcherState) : Prop where
  reachable : Reachable env s
  session_eq : s.feedSession.getD "" = session
  limits_eq : s.resourceLimits = limits
  key : s.operatorKey = Operator.firstKey env session messages
  inForce : (Walk.along env session messages).operator.inForce =
    Operator.firstKey env session messages
  rules : s.rules.version = (Walk.along env session messages).rules.version

/-- Both read the same rule sets, and an accepted message moves both alike. -/
theorem Walk.rules_act {rules : RuleSet} {w : Walk} (h : rules.version = w.rules.version)
    (message : OrderMessage) :
    (rulesAfter rules message).version = (w.act message).rules.version := by
  cases message with
  | engineRule m =>
      have hknown : Rules.known m.version = (RuleSet.known m.version).map (fun r => ⟨r.version⟩) := by
        unfold Rules.known RuleSet.known
        split_ifs <;> first | rfl | contradiction
      simp only [rulesAfter, Walk.act, hknown]
      cases RuleSet.known m.version with
      | none => exact h
      | some known => rfl
  | _ => exact h

namespace Follows

variable {env : Primitives} {limits : Option ResourceLimits} {session : String}
  {messages : List OrderMessage} {s s' : MatcherState} {message : OrderMessage}
  {received : Option Bytes}

theorem usable (h : Follows env limits session messages s) :
    (Walk.along env session messages).operator.Usable env := by
  intro key hkey
  rw [h.inForce] at hkey
  exact Operator.isVerifyingKey_of_firstKey hkey

/-- The walk lets an operator message act exactly when the exchange does. -/
theorem accepts_eq (h : Follows env limits session messages s) (hfields : message.fieldsOf ≠ none) :
    (Walk.along env session messages).accepts env session message =
      (Operator.signedUnder env session s.operatorKey message).isSome := by
  rw [h.key, ← h.inForce]
  exact (Operator.accepts_eq h.usable message.id hfields session).1

/-- What one message moves on both sides: nothing, or what its operator signed. -/
theorem moves (h : Follows env limits session messages s)
    (happly : s.apply env message received = .ok s') :
    (Operator.signedUnder env session (Operator.firstKey env session messages) message = none ∧
        s'.symbols = s.symbols ∧ s'.rules = s.rules ∧
        (Walk.along env session (messages ++ [message])).rules =
          (Walk.along env session messages).rules ∧
        (Walk.along env session (messages ++ [message])).openSymbols =
          (Walk.along env session messages).openSymbols) ∨
      ∃ key, Operator.signedUnder env session (Operator.firstKey env session messages) message =
          some key ∧ s'.symbols = s.symbolsAfter message ∧
        s'.rules = rulesAfter s.rules message ∧ ∃ operator,
          Walk.along env session (messages ++ [message]) =
            Walk.act { Walk.along env session messages with operator := operator } message := by
  have hcharter := charter_apply h.reachable.wellFormed happly
  unfold charterAfter at hcharter
  rw [h.session_eq, h.key] at hcharter
  rw [Walk.along_append]
  cases hsigned : Operator.signedUnder env session (Operator.firstKey env session messages)
      message with
  | none =>
      rw [hsigned] at hcharter
      refine Or.inl ⟨rfl, congrArg Charter.symbols hcharter, congrArg Charter.rules hcharter, ?_⟩
      by_cases hfields : message.fieldsOf = none
      · -- The walk reads a trader's message, which moves neither a rule nor a market.
        have haccepts : (Walk.along env session messages).accepts env session message = true := by
          rw [Walk.accepts, Operator.accepts_of_trader env _ _ hfields]
        rw [Walk.read_of_accepts haccepts]
        cases message with
        | new m => exact ⟨rfl, rfl⟩
        | cancel m => exact ⟨rfl, rfl⟩
        | _ => cases hfields
      · have haccepts := h.accepts_eq hfields
        rw [h.key, hsigned] at haccepts
        rw [Walk.read_of_refuses haccepts]
        exact ⟨rfl, rfl⟩
  | some key =>
      have hfields : message.fieldsOf ≠ none := by
        intro htrader
        rw [Operator.signedUnder_of_trader htrader] at hsigned
        cases hsigned
      have haccepts := h.accepts_eq hfields
      rw [h.key, hsigned] at haccepts
      rw [hsigned] at hcharter
      exact Or.inr ⟨key, rfl, congrArg Charter.symbols hcharter, congrArg Charter.rules hcharter,
        _, Walk.read_of_accepts haccepts⟩

theorem rules_apply (h : Follows env limits session messages s)
    (happly : s.apply env message received = .ok s') :
    s'.rules.version = (Walk.along env session (messages ++ [message])).rules.version := by
  rcases h.moves happly with ⟨-, -, hrules, hwalk, -⟩ | ⟨key, -, -, hrules, operator, hwalk⟩
  · rw [hrules, hwalk, h.rules]
  · rw [hrules, hwalk]
    refine Walk.rules_act ?_ message
    exact h.rules

/-- One message keeps the engine and the walk together. -/
theorem apply (h : Follows env limits session messages s)
    (happly : s.apply env message received = .ok s') :
    Follows env limits session (messages ++ [message]) s' where
  reachable := .applied h.reachable happly
  session_eq := by rw [feedSession_apply h.reachable.wellFormed happly, h.session_eq]
  limits_eq := by rw [resourceLimits_apply h.reachable.wellFormed happly, h.limits_eq]
  key := by
    rw [operatorKey_apply h.reachable.wellFormed happly, h.session_eq, h.key,
      Operator.firstKey_append]
  inForce := by
    rw [Walk.along_append, Walk.operator_read, Operator.inForce_accepts h.usable, h.inForce,
      Operator.firstKey_append]
  rules := h.rules_apply happly

theorem opening {genesis : ExecutionGenesis} {announced pubkey : Option String} {recording : Bool}
    {start : MatcherState} (hstart : genesis.opening announced pubkey recording = .ok start) :
    Follows env genesis.resourceLimits (announced.getD "") [] start := by
  have hreachable : Reachable env start := .genesis hstart
  obtain ⟨ledger, -, -, rfl⟩ := ExecutionGenesis.opening_eq_ok hstart
  exact ⟨hreachable, rfl, rfl, rfl, rfl, rfl⟩

/-- A whole run keeps the engine and the walk together. -/
theorem run {read log : List (OrderMessage × Option Bytes)}
    (h : Follows env limits session (read.map Prod.fst) s)
    (hrun : MatcherState.run env s log = .ok s') :
    Follows env limits session ((read ++ log).map Prod.fst) s' := by
  refine foldlM_reads (fun read s => Follows env limits session (read.map Prod.fst) s)
    (fun read s m s' hs happly => ?_) log read s s' h hrun
  rw [List.map_append]
  exact hs.apply happly

theorem run_opening {genesis : ExecutionGenesis} {announced pubkey : Option String}
    {recording : Bool} {start : MatcherState} {log : List (OrderMessage × Option Bytes)}
    (hstart : genesis.opening announced pubkey recording = .ok start)
    (hrun : MatcherState.run env start log = .ok s) :
    Follows env genesis.resourceLimits (announced.getD "") (log.map Prod.fst) s :=
  @Follows.run env _ _ start s [] log (opening hstart) hrun

end Follows

/-- What the operator of a log may do at one message `message`, after `messages` of the log and
before the rest of it: `s`, `s'` and `t` are the engine before it, after it and at the end. -/
structure Authority (env : Primitives) (session : String) (messages : List OrderMessage)
    (message : OrderMessage) (s s' t : MatcherState) : Prop where
  /-- The exchange and the checker let the same operator messages act. -/
  accepted : message.fieldsOf ≠ none → (operatorSigned env s message).2 =
    (Walk.along env session messages).accepts env session message
  /-- Both hold the same rule set after every message. -/
  sameRules : s'.rules.version =
    (Walk.along env session (messages ++ [message])).rules.version
  /-- Both run under the key of the first message that verifies under the key it names. -/
  sameKey : s'.operatorKey = Operator.firstKey env session (messages ++ [message]) ∧
    (Walk.along env session (messages ++ [message])).operator.inForce = s'.operatorKey
  /-- Nothing moves a market or a rule but a message that verifies under that key. -/
  signed : s'.symbols ≠ s.symbols ∨ s'.rules ≠ s.rules → ∃ key,
    Operator.firstKey env session (messages ++ [message]) = some key ∧
      Operator.verify env message session key = true
  /-- A key once named stays. -/
  keyStays : ∀ key, s'.operatorKey = some key → t.operatorKey = some key

/-- Only the operator of a log changes its markets and its rules, under the one key the first
accepted operator message fixes, and the checker follows every step. -/
theorem operator_authority {env : Primitives} {genesis : ExecutionGenesis}
    {announced pubkey : Option String} {recording : Bool} {start s s' t : MatcherState}
    {log later : List (OrderMessage × Option Bytes)} {message : OrderMessage}
    {received : Option Bytes}
    (hstart : genesis.opening announced pubkey recording = .ok start)
    (hrun : MatcherState.run env start log = .ok s)
    (happly : s.apply env message received = .ok s')
    (hlater : MatcherState.run env s' later = .ok t) :
    Authority env (announced.getD "") (log.map Prod.fst) message s s' t := by
  have h := Follows.run_opening hstart hrun
  have h' := h.apply happly
  refine ⟨?_, h'.rules, ⟨h'.key, h'.inForce.trans h'.key.symm⟩, ?_, ?_⟩
  · intro hfields
    rw [h.accepts_eq hfields, operatorSigned_eq_signedUnder, h.session_eq]
    cases Operator.signedUnder env (announced.getD "") s.operatorKey message <;> rfl
  · intro hchanged
    rcases h.moves happly with ⟨-, hsymbols, hrules, -⟩ | ⟨key, hsigned, -⟩
    · exact absurd hchanged (by simp [hsymbols, hrules])
    · refine ⟨key, ?_, Operator.verify_of_signedUnder hsigned⟩
      rw [Operator.firstKey_append, Operator.or_signedUnder hsigned]
  · intro key hkey
    have hend := (@Follows.run env _ _ s' t (log ++ [(message, received)]) later
      (by rw [List.map_append]; exact h') hlater).key
    have hfirst : Operator.firstKey env (announced.getD "") (log.map Prod.fst ++ [message]) =
        some key := h'.key ▸ hkey
    rw [hend, List.map_append, List.map_append, List.map_cons, List.map_nil, Operator.firstKey,
      List.findSome?_append, ← Operator.firstKey, hfirst, Option.some_or]

/-- The engine after the first message of the short log, its one listing. -/
def Sample.listed : MatcherState :=
  (Sample.start.apply Sample.env Sample.listing.1 (some Sample.listing.2)).toOption.getD .new

theorem Sample.apply_listing :
    Sample.start.apply Sample.env Sample.listing.1 (some Sample.listing.2) = .ok Sample.listed ∧
      Sample.listed.operatorKey = some (Sample.hex Sample.operatorKey) := by
  have hvalues : (Sample.start.apply Sample.env Sample.listing.1
        (some Sample.listing.2)).toOption.isSome = true ∧
      Sample.listed.operatorKey = some (Sample.hex Sample.operatorKey) := by
    decide +kernel
  exact ⟨eq_ok_getD hvalues.1, hvalues.2⟩

theorem operator_authority_sample :
    Sample.listed.operatorKey = some (Sample.hex Sample.operatorKey) ∧
      Authority Sample.env Sample.session [] Sample.listing.1 Sample.start Sample.listed
        Sample.state := by
  obtain ⟨happly, hkey⟩ := Sample.apply_listing
  have hlater : MatcherState.run Sample.env Sample.listed Sample.log.tail = .ok Sample.state := by
    have hrun := Sample.run_log
    rw [MatcherState.run, Sample.log, Sample.messages, List.map_cons, List.foldlM_cons] at hrun
    obtain ⟨s, hs, hrest⟩ := bind_eq_ok.1 hrun
    have heq : Sample.listed = s := Except.ok.inj (happly.symm.trans hs)
    rw [heq]
    exact hrest
  exact ⟨hkey, @operator_authority Sample.env .synthetic (some Sample.session) none
    false Sample.start _ _ _ [] _ _ _ rfl rfl happly hlater⟩

end Verify
end VerifiableExchange
