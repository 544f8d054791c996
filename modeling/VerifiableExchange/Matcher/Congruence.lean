import VerifiableExchange.Matcher.RootReads

/-!
# Congruence — equal pre-images, equal futures

The pre-image says everything a later message can depend on, and nothing that two alike engines
differ in. Whatever log two reachable engines with one pre-image run, they stop at the same fault
or do the same things and keep one pre-image.
-/

namespace VerifiableExchange
namespace Matcher

open Lib

namespace MatcherState

/-! ## Alike engines have one pre-image -/

theorem Alike.executionState_eq {w : Watch} {s t : MatcherState} (h : Alike w s t) :
    s.executionState = t.executionState := by
  have hextensions : s.executionState.extensions = t.executionState.extensions := by
    ext1 name
    by_cases hledger : name = ledgerExtension
    · rw [hledger, get?_ledgerExtension, get?_ledgerExtension, h.ledger]
    by_cases hlimits : name = resourceLimitsExtension
    · rw [hlimits, get?_resourceLimitsExtension, get?_resourceLimitsExtension, h.resourceLimits]
    have hother := h.extensions name hledger hlimits
    unfold executionState
    dsimp only
    rw [h.resourceLimits]
    split
    · simp only [SortedMap.get?_insert, if_neg hlimits, if_neg hledger, hother]
    · simp only [SortedMap.get?_erase, SortedMap.get?_insert, if_neg hlimits, if_neg hledger, hother]
  have hmids : s.executionState.midWindows = t.executionState.midWindows :=
    congrArg MidWindow.snapshot h.mids
  calc
    s.executionState = ⟨5, s.executionState.midWindows, s.executionState.extensions⟩ := rfl
    _ = ⟨5, t.executionState.midWindows, t.executionState.extensions⟩ := by rw [hmids, hextensions]
    _ = t.executionState := rfl

theorem Alike.rootPreimage_eq {w : Watch} {s t : MatcherState} (h : Alike w s t) :
    s.rootPreimage = t.rootPreimage := by
  have hlistings : s.symbols.entries.map (fun e => (e.1, e.2.terms)) =
      t.symbols.entries.map (fun e => (e.1, e.2.terms)) := congrArg SortedMap.entries h.symbols
  unfold rootPreimage
  rw [h.lastSeen, hlistings, h.books, h.positions, h.rules, h.operatorKey, h.executionState_eq,
    h.tradesTotal, h.session, h.pubkey, h.chain]

/-! ## Equal pre-images, equal parts -/

/-- Everything the pre-image encodes. An absent session or feed key counts as the empty text. -/
structure HashedParts where
  lastSeen : OrderId
  listings : SortedMap String (Int × Int × Bool)
  books : Books
  positions : SortedMap AccountKey Position
  rules : RuleSet
  operatorKey : Option Bytes
  execution : ExecutionState
  ledger : Ledger
  resourceLimits : Option ResourceLimits
  mids : MidWindow
  tradesTotal : Nat
  feedSession : String
  feedPubkey : String
  feedChain : Option Bytes

def hashedParts (s : MatcherState) : HashedParts where
  lastSeen := s.lastSeen
  listings := s.symbols.mapValues Listing.terms
  books := s.books
  positions := s.positions
  rules := s.rules
  operatorKey := s.operatorKey
  execution := s.executionState
  ledger := s.ledger
  resourceLimits := s.resourceLimits
  mids := s.mids
  tradesTotal := s.tradesTotal
  feedSession := s.feedSession.getD ""
  feedPubkey := s.feedPubkey.getD ""
  feedChain := s.feedChain

theorem Alike.hashedParts_eq {w : Watch} {s t : MatcherState} (h : Alike w s t) :
    s.hashedParts = t.hashedParts := by
  unfold hashedParts
  rw [h.lastSeen, h.symbols, h.books, h.positions, h.rules, h.operatorKey, h.executionState_eq,
    h.ledger, h.resourceLimits, h.mids, h.tradesTotal, h.session, h.pubkey, h.chain]

/-- Two reachable engines with one pre-image agree on every part of it. -/
theorem rootPreimage_injective {env : Primitives} {s t : MatcherState} (hs : Reachable env s)
    (ht : Reachable env t) (hsTexts : s.TextsFit) (htTexts : t.TextsFit)
    (hroot : s.rootPreimage = t.rootPreimage) : s.hashedParts = t.hashedParts :=
  ((hs.readback hsTexts).alike_of_rootPreimage (ht.readback htTexts) hroot).hashedParts_eq

/-! ## What one message does -/

/-- The engine with a fresh record and its counters at zero. -/
def observed (s : MatcherState) : MatcherState :=
  { s with
    pending := some []
    cancelsApplied := 0
    cancelsIgnored := 0
    cancelsRejected := 0
    ordersIgnored := 0
    kindsNotActedOn := 0
    ordersIgnoredByKind := .empty
    listingsIgnored := 0
    ordersDelisted := 0 }

/-- What one message does: the changes it records, its trades among them, and what it counts as
refused or applied. -/
structure Effect where
  changes : List Change
  tally : Tally
  deriving DecidableEq

/-- What an engine has recorded and counted since its record was fresh. -/
def recorded (after : MatcherState) : Effect where
  changes := after.pending.getD []
  tally := after.tally

def effect (env : Primitives) (s : MatcherState) (message : OrderMessage)
    (received : Option Bytes) : Except Fault Effect :=
  (s.observed.apply env message received).map recorded

/-- No decision reads the record or the counters. -/
theorem Alike.observed {s t : MatcherState} {w : Watch} (h : Alike w s t) :
    Alike .effects s.observed t.observed :=
  { h with
    pending := rfl
    tally := fun _ => rfl }

theorem alike_observed (s : MatcherState) {before : List Change} (h : s.pending = some before) :
    Alike (.since before) s s.observed :=
  { Alike.refl s with
    pending := ⟨[], rfl, by rw [h, List.append_nil]⟩
    tally := False.elim }

/-- An engine that records appends exactly the effect's changes. -/
theorem pending_of_effect {env : Primitives} {s s' : MatcherState} {message : OrderMessage}
    {received : Option Bytes} {before : List Change} (hbefore : s.pending = some before)
    (h : s.apply env message received = .ok s') :
    ∃ e, s.effect env message received = .ok e ∧ s'.pending = some (before ++ e.changes) := by
  obtain ⟨after, hafter, halike⟩ :=
    ((alike_observed s hbefore).apply env message received).exists_ok h
  obtain ⟨new, hnew, hpending⟩ := halike.pending
  refine ⟨recorded after, ?_, ?_⟩
  · rw [effect, hafter]
    rfl
  · rw [hpending, recorded, hnew, Option.getD_some]

/-- Alike engines do the same things. -/
theorem Alike.effect_eq {w : Watch} {s t : MatcherState} (h : Alike w s t) (env : Primitives)
    (message : OrderMessage) (received : Option Bytes) :
    s.effect env message received = t.effect env message received := by
  unfold effect
  rcases (h.observed.apply env message received).cases with ⟨fault, hs, ht⟩ | ⟨u, v, hs, ht, huv⟩
  · rw [hs, ht]
  · rw [hs, ht]
    have hpending : u.pending = v.pending := huv.pending
    show Except.ok (recorded u) = Except.ok (recorded v)
    rw [recorded, recorded, hpending, huv.tally trivial]

/-! ## A whole log -/

/-- What a log does message by message, each with the pre-image after it. It ends at the first
message the engine does not get past. -/
def trace (env : Primitives) (s : MatcherState) :
    List (OrderMessage × Option Bytes) → List (Except Fault (Effect × Bytes))
  | [] => []
  | m :: log =>
      match s.apply env m.1 m.2 with
      | .error fault => [.error fault]
      | .ok after =>
          (s.effect env m.1 m.2).map (fun e => (e, after.rootPreimage)) :: trace env after log

theorem Alike.trace_eq {w : Watch} (env : Primitives) :
    ∀ (log : List (OrderMessage × Option Bytes)) {s t : MatcherState}, Alike w s t →
      trace env s log = trace env t log
  | [], s, t, h => rfl
  | m :: log, s, t, h => by
      unfold trace
      rcases (h.apply env m.1 m.2).cases with ⟨fault, hs, ht⟩ | ⟨u, v, hs, ht, huv⟩
      · rw [hs, ht]
      · rw [hs, ht]
        show _ :: _ = _ :: _
        rw [h.effect_eq env, huv.rootPreimage_eq, huv.trace_eq env log]

/-- Two reachable engines with one pre-image do the same things over every log: the same trades,
the same refusals and the same pre-image after every message. -/
theorem root_congruence {env : Primitives} {s t : MatcherState} (hs : Reachable env s)
    (ht : Reachable env t) (hsTexts : s.TextsFit) (htTexts : t.TextsFit)
    (hroot : s.rootPreimage = t.rootPreimage) (log : List (OrderMessage × Option Bytes)) :
    trace env s log = trace env t log :=
  ((hs.readback hsTexts).alike_of_rootPreimage (ht.readback htTexts) hroot).trace_eq env log

namespace Sample

/-- The same genesis, for an engine that writes its changes to disk. -/
def recordingStart : MatcherState := { start with pending := some [] }

theorem textsFit_state : state.TextsFit := by
  obtain ⟨-, -, -, -, hsession, hpubkey⟩ := state_values
  refine ⟨?_, ?_⟩
  · rw [hsession, length_utf8]
    decide
  · rw [hpubkey, length_utf8]
    decide

/-- The first engine records nothing and the second one records. -/
def onlySecondRecords : Watch where
  changes p q := p = none ∧ q.isSome = true
  closed := by
    rintro p q change ⟨rfl, hq⟩
    exact ⟨rfl, by simpa [record] using hq⟩
  tally := False

/-- An engine that records its changes, after the same log. -/
theorem recording_run : ∃ t, run env recordingStart log = .ok t ∧ Alike onlySecondRecords state t := by
  have hstart : Alike onlySecondRecords start recordingStart :=
    { Alike.refl start with
      pending := ⟨rfl, rfl⟩
      tally := False.elim }
  exact hstart.run_eq_ok run_log

/-- An engine that records its changes has the same pre-image and is another state. -/
theorem recording_twin : ∃ t, t ≠ state ∧ Reachable env t ∧ t.TextsFit ∧
    state.rootPreimage = t.rootPreimage := by
  obtain ⟨t, hrun, halike⟩ := recording_run
  have ht : Reachable env t := (reaches_of_run hrun).reachable
    (@Reachable.genesis _ .synthetic (some session) none true recordingStart rfl)
  refine ⟨t, ?_, ht, ⟨halike.session ▸ textsFit_state.session, halike.pubkey ▸ textsFit_state.pubkey⟩,
    halike.rootPreimage_eq⟩
  intro heq
  obtain ⟨hnone, hsome⟩ := halike.pending
  rw [heq, hnone] at hsome
  cases hsome

end Sample

/-- The engine that records and the one that does not hash the same parts. -/
theorem rootPreimage_injective_sample :
    ∃ t, t ≠ Sample.state ∧ Sample.state.hashedParts = t.hashedParts := by
  obtain ⟨t, hne, ht, htexts, hroot⟩ := Sample.recording_twin
  exact ⟨t, hne, rootPreimage_injective Sample.reachable_state ht Sample.textsFit_state htexts hroot⟩

/-- The engine that records differs from the one that does not, and both go on alike. -/
theorem root_congruence_sample :
    ∃ t, t ≠ Sample.state ∧ ∀ log, trace Sample.env Sample.state log = trace Sample.env t log := by
  obtain ⟨t, hne, ht, htexts, hroot⟩ := Sample.recording_twin
  exact ⟨t, hne, fun log =>
    root_congruence Sample.reachable_state ht Sample.textsFit_state htexts hroot log⟩

end MatcherState

end Matcher
end VerifiableExchange
