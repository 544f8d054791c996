import VerifiableExchange.Operator
import VerifiableExchange.Lib.SortedMap
import Mathlib.Data.String.Basic

/-!
# Validators — how many keys stand behind a history

A task of the exchange asks every validator in turn what it signed, compares each answer with the
exchange's own chain, and moves a mark to the highest position enough of them stand behind. The
exchange goes on consuming messages, and can begin a new run, between any two answers.
-/

namespace VerifiableExchange
namespace Matcher
namespace Validators

open Lib Operator

/-! ## One answer -/

/-- One report from a validator, still unchecked. -/
structure WireAttestation where
  validator : String
  session : String
  lastId : OrderId
  chain : String
  signature : String
  disputed : Bool
  stalled : Bool
  deriving DecidableEq

/-- The two flags a validator signs about its own view. -/
structure AttestStatus where
  disputed : Bool
  stalled : Bool

def AttestStatus.isVouching (status : AttestStatus) : Bool := !status.disputed && !status.stalled

/-- The statement a validator's attestation covers. -/
def attestStatement (session : String) (lastId : OrderId) (chain : Bytes) (status : AttestStatus) :
    String :=
  "\n".intercalate ["exchange-validator-attest-v2", session, toString lastId,
    String.ofList (toHex chain), toString status.disputed, toString status.stalled]

def verifyAttest (env : Primitives) (key : Bytes) (session : String) (lastId : OrderId)
    (chain : Bytes) (status : AttestStatus) (signature : Bytes) : Bool :=
  env.verifyStrict key (attestStatement session lastId chain status) signature

/-- How many of `n` validators must stand behind a history: two thirds, rounded up. -/
def quorum (n : Nat) : Nat := (2 * n + 2) / 3

/-- What the task reads and writes of the exchange. -/
structure Exchange where
  feedSession : Option String
  recentChains : List (OrderId × Bytes)
  quorumVerifiedAt : OrderId
  validatorsResponding : Nat
  validatorDisputes : Nat
  deriving DecidableEq

/-- The task between two answers. The keys fixed for the URLs stay for the life of the process; the
counts are those of one round. -/
structure Polling where
  pinned : SortedMap String String
  responding : Nat
  /-- Keyed by the key that verified: the highest position it stands behind this round. -/
  matching : SortedMap String OrderId
  disputes : Nat
  deriving DecidableEq

namespace Polling

def dispute (p : Polling) : Polling := { p with disputes := p.disputes + 1 }

/-- Whether the key this answer names signed it. -/
def verified (env : Primitives) (a : WireAttestation) (chain signature : Bytes) : Bool :=
  match fromHex 32 a.validator.toList with
  | some key => env.isVerifyingKey key &&
      verifyAttest env key a.session a.lastId chain ⟨a.disputed, a.stalled⟩ signature
  | none => false

/-- Fixes the key of a URL on the first answer that verifies. -/
def pin (p : Polling) (url : String) (a : WireAttestation) : Polling :=
  if (p.pinned.get? url).isNone then { p with pinned := p.pinned.insert url a.validator } else p

/-- Compares a vouching answer with the exchange's own chain. -/
def compare (p : Polling) (exchange : Exchange) (a : WireAttestation) (chain : Bytes) : Polling :=
  if exchange.feedSession ≠ some a.session then p
  else
    match exchange.recentChains.find? (fun entry => entry.1 = a.lastId) with
    | some (_, ours) =>
        if ours = chain then
          { p with
            matching := p.matching.insert a.validator
              (max (p.matching.getD a.validator a.lastId) a.lastId) }
        else p.dispute
    | none => p

/-- Counts one answer of the validator at `url`. -/
def observe (env : Primitives) (exchange : Exchange) (p : Polling) (url : String)
    (a : WireAttestation) : Polling :=
  let p := { p with responding := p.responding + 1 }
  if (p.pinned.get? url).any (fun known => known ≠ a.validator) then p.dispute
  else
    match fromHex 32 a.chain.toList, fromHex 64 a.signature.toList with
    | some chain, some signature =>
        if ¬verified env a chain signature then p.dispute
        else
          let p := p.pin url a
          if ¬(AttestStatus.mk a.disputed a.stalled).isVouching then p.dispute
          else p.compare exchange a chain
    | _, _ => p.dispute

end Polling

/-- The highest position that `needed` separate entries stand behind. -/
def quorumPosition (matching : SortedMap String OrderId) (needed : Nat) : Option OrderId :=
  if needed = 0 then none
  else matching.ranked[needed - 1]?

/-- The exchange after a round. -/
def Exchange.settle (exchange : Exchange) (validators : List String) (p : Polling) : Exchange :=
  { exchange with
    validatorsResponding := p.responding
    validatorDisputes := saturatingAddU64 exchange.validatorDisputes p.disputes
    quorumVerifiedAt :=
      match quorumPosition p.matching (quorum validators.length) with
      | some position =>
          if exchange.quorumVerifiedAt < position then position else exchange.quorumVerifiedAt
      | none => exchange.quorumVerifiedAt }

/-! ## The task beside the exchange -/

/-- An answer with the exchange it was compared with, and the run the exchange was in. -/
structure Heard where
  attestation : WireAttestation
  exchange : Exchange
  run : Nat
  deriving DecidableEq

/-- The exchange and the task. The last two fields are history: the answers of this round, and
those of the round that moved the mark last. -/
structure System where
  /-- How many runs the exchange began before this one. -/
  run : Nat
  exchange : Exchange
  polling : Polling
  /-- The URLs this round has still to ask. -/
  waiting : List String
  heard : List Heard
  standing : List Heard
  deriving DecidableEq

/-- What can happen next. -/
inductive Action where
  /-- The exchange goes on in its run. -/
  | consumed (feedSession : Option String) (recentChains : List (OrderId × Bytes))
  /-- The exchange begins a new run. -/
  | newRun (feedSession : Option String)
  /-- The next URL gives no answer that can be read. -/
  | silent
  | answered (attestation : WireAttestation)
  /-- Every URL was asked, and the round is counted. -/
  | settled
  deriving DecidableEq

namespace System

/-- A process that just started. -/
def start (validators : List String) (feedSession : Option String)
    (recentChains : List (OrderId × Bytes)) : System where
  run := 0
  exchange := ⟨feedSession, recentChains, 0, 0, 0⟩
  polling := ⟨.empty, 0, .empty, 0⟩
  waiting := validators
  heard := []
  standing := []

/-- The round after the last URL was asked. -/
def settle (validators : List String) (s : System) : System :=
  let exchange := s.exchange.settle validators s.polling
  { s with
    exchange := exchange
    polling := ⟨s.polling.pinned, 0, .empty, 0⟩
    waiting := validators
    heard := []
    standing :=
      if s.exchange.quorumVerifiedAt < exchange.quorumVerifiedAt then s.heard else s.standing }

/-- One action, where it can happen. -/
def perform (env : Primitives) (validators : List String) (s : System) : Action → Option System
  | .consumed feedSession recentChains =>
      some { s with
        exchange := { s.exchange with feedSession := feedSession, recentChains := recentChains } }
  | .newRun feedSession =>
      some { s with run := s.run + 1, exchange := ⟨feedSession, [], 0, 0, 0⟩, standing := [] }
  | .silent =>
      match s.waiting with
      | [] => none
      | _ :: rest => some { s with waiting := rest }
  | .answered a =>
      match s.waiting with
      | [] => none
      | url :: rest =>
          some { s with
            waiting := rest
            polling := s.polling.observe env s.exchange url a
            heard := s.heard ++ [⟨a, s.exchange, s.run⟩] }
  | .settled =>
      match s.waiting with
      | [] => some (s.settle validators)
      | _ :: _ => none

def performAll (env : Primitives) (validators : List String) (s : System)
    (actions : List Action) : Option System :=
  actions.foldlM (perform env validators) s

end System

/-! ## What stands behind a mark -/

/-- The key `key` signed this answer, which vouches for a position on the exchange's own chain. -/
structure Heard.VouchesFor (env : Primitives) (h : Heard) (key : Bytes) : Prop where
  names : fromHex 32 h.attestation.validator.toList = some key
  isKey : env.isVerifyingKey key = true
  signed : ∃ chain signature, fromHex 32 h.attestation.chain.toList = some chain ∧
    fromHex 64 h.attestation.signature.toList = some signature ∧
    verifyAttest env key h.attestation.session h.attestation.lastId chain
      ⟨h.attestation.disputed, h.attestation.stalled⟩ signature = true ∧
    (h.attestation.lastId, chain) ∈ h.exchange.recentChains
  vouching : h.attestation.disputed = false ∧ h.attestation.stalled = false
  session : h.exchange.feedSession = some h.attestation.session

/-- As many different keys as the quorum asks for stand behind this position of this run. -/
def Quorum (env : Primitives) (validators : List String) (run : Nat) (position : OrderId)
    (heard : List Heard) : Prop :=
  ∃ keys : Finset Bytes, quorum validators.length ≤ keys.card ∧ ∀ key ∈ keys, ∃ h ∈ heard,
    h.VouchesFor env key ∧ h.run = run ∧ position ≤ h.attestation.lastId

/-- No two answers that count in this round write one key in two ways, and the exchange has begun
no run since it was compared with the first of them. -/
structure System.OneSpelling (env : Primitives) (s : System) : Prop where
  spelling : ∀ h ∈ s.heard, ∀ h' ∈ s.heard, ∀ key, h.VouchesFor env key → h'.VouchesFor env key →
    h.attestation.validator = h'.attestation.validator
  sameRun : ∀ h ∈ s.heard, ∀ key, h.VouchesFor env key → h.run = s.run

/-- Every round of these actions is counted in a state that meets the condition. -/
def System.Meets (env : Primitives) (validators : List String) (s : System) : List Action → Prop
  | [] => True
  | action :: rest => (action = .settled → s.OneSpelling env) ∧
      ∀ t, s.perform env validators action = some t → t.Meets env validators rest

/-! ## One round -/

namespace Polling

variable {env : Primitives} {exchange : Exchange} {p : Polling} {url : String}
  {a : WireAttestation}

@[simp] theorem matching_dispute : p.dispute.matching = p.matching := rfl

@[simp] theorem matching_pin : (p.pin url a).matching = p.matching := by
  unfold pin
  split_ifs <;> rfl

theorem matching_compare {chain : Bytes} :
    (p.compare exchange a chain).matching = p.matching ∨
      exchange.feedSession = some a.session ∧ (a.lastId, chain) ∈ exchange.recentChains ∧
        (p.compare exchange a chain).matching = p.matching.insert a.validator
          (max (p.matching.getD a.validator a.lastId) a.lastId) := by
  unfold compare
  split_ifs with hsession
  · exact Or.inl rfl
  split
  · rename_i entry ours hfind
    split_ifs with hchain
    · have hid : entry = a.lastId := by simpa using List.find?_some hfind
      exact Or.inr ⟨not_not.1 hsession, by rw [← hchain, ← hid]; exact List.mem_of_find?_eq_some hfind,
        rfl⟩
    · exact Or.inl rfl
  · exact Or.inl rfl

/-- An answer is counted only when its key signed it, it vouches, and its chain is the exchange's. -/
theorem matching_observe (env : Primitives) (exchange : Exchange) (p : Polling) (url : String)
    (a : WireAttestation) (run : Nat) :
    (p.observe env exchange url a).matching = p.matching ∨
      (∃ key, (Heard.mk a exchange run).VouchesFor env key) ∧
        (p.observe env exchange url a).matching = p.matching.insert a.validator
          (max (p.matching.getD a.validator a.lastId) a.lastId) := by
  unfold observe
  dsimp only
  split
  case isTrue => exact Or.inl rfl
  split
  case h_2 => exact Or.inl rfl
  case h_1 chain signature hchain hsignature =>
    split
    case isTrue => exact Or.inl rfl
    rename_i hunverified
    split
    case isTrue => exact Or.inl matching_pin
    rename_i hsilent
    -- Past every check: what is left is the comparison with the exchange's own chain.
    have hverified : verified env a chain signature = true := not_not.1 hunverified
    have hvouching : a.disputed = false ∧ a.stalled = false := by
      simpa [AttestStatus.isVouching] using hsilent
    unfold verified at hverified
    split at hverified
    case h_2 => cases hverified
    case h_1 key hkey =>
      obtain ⟨hvalid, hsigned⟩ := Bool.and_eq_true_iff.1 hverified
      rcases @matching_compare exchange (Polling.pin { p with responding := p.responding + 1 } url a)
        a chain with hsame | ⟨hsession, hmem, hinsert⟩
      · exact Or.inl (hsame.trans matching_pin)
      · refine Or.inr ⟨⟨key, hkey, hvalid, ⟨chain, signature, hchain, hsignature, hsigned, hmem⟩,
          hvouching, hsession⟩, ?_⟩
        rw [hinsert, matching_pin]

end Polling

/-- Every counted position is one an answer of this round vouches for, under the key's own text. -/
def System.Counted (env : Primitives) (s : System) : Prop :=
  ∀ text position, s.polling.matching.get? text = some position → ∃ h ∈ s.heard, ∃ key,
    h.VouchesFor env key ∧ h.attestation.validator = text ∧ h.attestation.lastId = position

theorem System.Counted.answered {env : Primitives} {s : System} (h : s.Counted env) (url : String)
    (rest : List String) (a : WireAttestation) :
    System.Counted env { s with
      waiting := rest
      polling := s.polling.observe env s.exchange url a
      heard := s.heard ++ [⟨a, s.exchange, s.run⟩] } := by
  intro text position hget
  have hkept : ∀ text position, s.polling.matching.get? text = some position →
      ∃ h ∈ s.heard ++ [⟨a, s.exchange, s.run⟩], ∃ key, h.VouchesFor env key ∧
        h.attestation.validator = text ∧ h.attestation.lastId = position := by
    intro text position hget
    obtain ⟨heard, hheard, hvouches⟩ := h text position hget
    exact ⟨heard, List.mem_append_left _ hheard, hvouches⟩
  rcases s.polling.matching_observe env s.exchange url a s.run with
    hsame | ⟨⟨key, hkey⟩, hinsert⟩
  · exact hkept text position (hsame ▸ hget)
  · have hget : (s.polling.matching.insert a.validator
        (max (s.polling.matching.getD a.validator a.lastId) a.lastId)).get? text = some position :=
      hinsert ▸ hget
    rw [SortedMap.get?_insert] at hget
    split_ifs at hget with htext
    · have hnew : ∃ h ∈ s.heard ++ [⟨a, s.exchange, s.run⟩], ∃ key, h.VouchesFor env key ∧
          h.attestation.validator = a.validator ∧ h.attestation.lastId = a.lastId :=
        ⟨_, List.mem_append_right _ List.mem_cons_self, key, hkey, rfl, rfl⟩
      cases hget
      rw [htext]
      -- The higher of the two positions is the one counted before or the one just answered.
      cases hold : s.polling.matching.get? a.validator with
      | none =>
          rw [SortedMap.getD, hold, Option.getD_none, max_self]
          exact hnew
      | some old =>
          rw [SortedMap.getD, hold, Option.getD_some]
          rcases max_cases old a.lastId with ⟨hmax, -⟩ | ⟨hmax, -⟩ <;> rw [hmax]
          · exact hkept a.validator old hold
          · exact hnew
    · exact hkept text position hget

/-- A position the count reaches has a quorum of different keys behind it. -/
theorem System.Counted.quorum {env : Primitives} {s : System} (h : s.Counted env)
    (hspelling : s.OneSpelling env) {validators : List String} {position : OrderId}
    (hposition : quorumPosition s.polling.matching (quorum validators.length) = some position) :
    Quorum env validators s.run position s.heard := by
  unfold quorumPosition at hposition
  split_ifs at hposition with hneeded
  obtain ⟨texts, hcard, htexts⟩ := SortedMap.exists_keys_of_ranked hposition
  have hheard : ∀ text ∈ texts, ∃ h ∈ s.heard, ∃ key, h.VouchesFor env key ∧
      h.attestation.validator = text ∧ position ≤ h.attestation.lastId := by
    intro text htext
    obtain ⟨counted, hget, hle⟩ := htexts text htext
    obtain ⟨heard, hmem, key, hkey, hvalidator, hlast⟩ := h text counted hget
    exact ⟨heard, hmem, key, hkey, hvalidator, hlast ▸ hle⟩
  -- One text spells one key, so there are as many keys as texts.
  let keyOf : String → Bytes := fun text => (fromHex 32 text.toList).getD []
  have hkeyOf : ∀ {heard : Heard} {key : Bytes}, heard.VouchesFor env key →
      keyOf heard.attestation.validator = key := by
    intro heard key hkey
    show (fromHex 32 _).getD [] = key
    rw [hkey.names, Option.getD_some]
  refine ⟨texts.image keyOf, ?_, ?_⟩
  · rw [Finset.card_image_of_injOn]
    · omega
    · intro text htext text' htext' heq
      obtain ⟨heard, hmem, key, hkey, rfl, -⟩ := hheard text htext
      obtain ⟨heard', hmem', key', hkey', rfl, -⟩ := hheard text' htext'
      rw [hkeyOf hkey, hkeyOf hkey'] at heq
      subst heq
      exact hspelling.spelling heard hmem heard' hmem' key hkey hkey'
  · intro key hkey
    obtain ⟨text, htext, rfl⟩ := Finset.mem_image.1 hkey
    obtain ⟨heard, hmem, key, hvouches, rfl, hle⟩ := hheard text htext
    rw [hkeyOf hvouches]
    exact ⟨heard, hmem, hvouches, hspelling.sameRun heard hmem key hvouches, hle⟩

/-! ## Whole runs of the process -/

namespace System

/-- The mark of a run has a quorum behind it. -/
def Stands (env : Primitives) (validators : List String) (s : System) : Prop :=
  s.exchange.quorumVerifiedAt = 0 ∨
    Quorum env validators s.run s.exchange.quorumVerifiedAt s.standing

theorem settle_quorumVerifiedAt (validators : List String) (s : System) :
    (s.settle validators).exchange.quorumVerifiedAt = s.exchange.quorumVerifiedAt ∨
      s.exchange.quorumVerifiedAt < (s.settle validators).exchange.quorumVerifiedAt ∧
        quorumPosition s.polling.matching (quorum validators.length) =
          some (s.settle validators).exchange.quorumVerifiedAt := by
  simp only [settle, Exchange.settle]
  split
  · rename_i position hposition
    split_ifs with hhigher
    · exact Or.inr ⟨hhigher, hposition⟩
    · exact Or.inl rfl
  · exact Or.inl rfl

variable {env : Primitives} {validators : List String} {s t : System} {action : Action}

/-- Everything one action can do. -/
inductive Performed (env : Primitives) (validators : List String) (s : System) :
    Action → System → Prop
  | consumed (feedSession : Option String) (recentChains : List (OrderId × Bytes)) :
      Performed env validators s (.consumed feedSession recentChains) { s with
        exchange := { s.exchange with feedSession := feedSession, recentChains := recentChains } }
  | newRun (feedSession : Option String) :
      Performed env validators s (.newRun feedSession)
        { s with run := s.run + 1, exchange := ⟨feedSession, [], 0, 0, 0⟩, standing := [] }
  | silent (rest : List String) : Performed env validators s .silent { s with waiting := rest }
  | answered (url : String) (rest : List String) (a : WireAttestation) :
      Performed env validators s (.answered a) { s with
        waiting := rest
        polling := s.polling.observe env s.exchange url a
        heard := s.heard ++ [⟨a, s.exchange, s.run⟩] }
  | settled : Performed env validators s .settled (s.settle validators)

theorem performed (h : s.perform env validators action = some t) :
    Performed env validators s action t := by
  cases action with
  | consumed feedSession recentChains =>
      cases h
      exact .consumed feedSession recentChains
  | newRun feedSession =>
      cases h
      exact .newRun feedSession
  | silent =>
      simp only [perform] at h
      split at h
      · cases h
      · cases h
        exact .silent _
  | answered a =>
      simp only [perform] at h
      split at h
      · cases h
      · cases h
        exact .answered _ _ a
  | settled =>
      simp only [perform] at h
      split at h
      · cases h
        exact .settled
      · cases h

theorem counted_perform (h : s.Counted env) (hstep : s.perform env validators action = some t) :
    t.Counted env := by
  cases performed hstep with
  | consumed | newRun | silent => exact h
  | answered url rest a => exact h.answered url rest a
  | settled =>
      intro text position hget
      cases hget

theorem stands_perform (h : s.Counted env) (hstands : s.Stands env validators)
    (hspelling : action = .settled → s.OneSpelling env)
    (hstep : s.perform env validators action = some t) : t.Stands env validators := by
  cases performed hstep with
  | consumed | silent | answered => exact hstands
  | newRun => exact Or.inl rfl
  | settled =>
      rcases settle_quorumVerifiedAt validators s with hsame | ⟨hhigher, hposition⟩
      · have hstanding : (s.settle validators).standing = s.standing :=
          if_neg (not_lt.2 hsame.le)
        rw [Stands, hsame, hstanding]
        exact hstands
      · have hstanding : (s.settle validators).standing = s.heard := if_pos hhigher
        rw [Stands, hstanding]
        exact Or.inr (h.quorum (hspelling rfl) hposition)

/-- No action but a new run lowers the mark. -/
theorem mark_perform (hstep : s.perform env validators action = some t) :
    t.run = s.run ∧ s.exchange.quorumVerifiedAt ≤ t.exchange.quorumVerifiedAt ∨ s.run < t.run := by
  cases performed hstep with
  | consumed | silent | answered => exact Or.inl ⟨rfl, le_rfl⟩
  | newRun => exact Or.inr (Nat.lt_succ_self _)
  | settled =>
      refine Or.inl ⟨rfl, ?_⟩
      rcases settle_quorumVerifiedAt validators s with hsame | ⟨hhigher, -⟩
      · exact hsame.ge
      · exact hhigher.le

theorem performAll_cons {rest : List Action}
    (h : s.performAll env validators (action :: rest) = some t) :
    ∃ u, s.perform env validators action = some u ∧ u.performAll env validators rest = some t := by
  rw [performAll, List.foldlM_cons] at h
  exact Option.bind_eq_some_iff.1 h

theorem stands_performAll :
    ∀ {actions : List Action} {s t : System}, s.Counted env → s.Stands env validators →
      s.Meets env validators actions → s.performAll env validators actions = some t →
      t.Stands env validators
  | [], s, t, _, hstands, _, h => by
      cases h
      exact hstands
  | action :: rest, s, t, hcounted, hstands, hmeets, h => by
      obtain ⟨u, hu, h⟩ := performAll_cons h
      exact stands_performAll (counted_perform hcounted hu)
        (stands_perform hcounted hstands hmeets.1 hu) (hmeets.2 u hu) h

theorem mark_performAll :
    ∀ {actions : List Action} {s t : System}, s.performAll env validators actions = some t →
      s.run ≤ t.run ∧
        (t.run = s.run → s.exchange.quorumVerifiedAt ≤ t.exchange.quorumVerifiedAt)
  | [], s, t, h => by
      cases h
      exact ⟨le_rfl, fun _ => le_rfl⟩
  | action :: rest, s, t, h => by
      obtain ⟨u, hu, h⟩ := performAll_cons h
      obtain ⟨hrun, hmark⟩ := mark_performAll h
      rcases mark_perform hu with ⟨hsame, hle⟩ | hnew
      · exact ⟨hsame ▸ hrun, fun heq => hle.trans (hmark (heq.trans hsame.symm))⟩
      · exact ⟨hnew.le.trans hrun, fun heq => absurd hrun (by omega)⟩

end System

/-- In every run of the process whose rounds are counted with one spelling for each key, the mark of
every state has a quorum of different keys behind it, and no run ever lowers its mark. -/
theorem quorum_counts_keys {env : Primitives} {validators : List String}
    {feedSession : Option String} {recentChains : List (OrderId × Bytes)}
    {before later : List Action} {s t : System}
    (hs : (System.start validators feedSession recentChains).performAll env validators before =
      some s)
    (hmeets : (System.start validators feedSession recentChains).Meets env validators before)
    (ht : s.performAll env validators later = some t) :
    s.Stands env validators ∧
      (t.run = s.run → s.exchange.quorumVerifiedAt ≤ t.exchange.quorumVerifiedAt) :=
  ⟨System.stands_performAll (fun _ _ hget => by cases hget) (Or.inl rfl) hmeets hs,
    (System.mark_performAll ht).2⟩

/-! ## One key, written in two ways -/

namespace Sample

def session : String := "5f0c2a7e91b34d6688aa10c3e2f4b7d9"

def chain : String := "90ca13fb20cb74c33fc1e558c0711f3ad2e0a8ea05860b0c8f1d37369c45f703"

def key : String := "d75a980182b10ab7d54bfed3c964073a0ee172f3daa62325af021a68f707511a"

/-- The same key with its letters in upper case. -/
def upperKey : String := "D75A980182B10AB7D54BFED3C964073A0EE172F3DAA62325AF021A68F707511A"

def signature : String :=
  "14bfdd0742d97109443975f4f3df9d76d4d69cedd44ef70a318428a09ea90dac" ++
    "e203b91a42117f4b3a01d299864875efeaac39243debc9f0a4afd50466f6fa0e"

def bytesOf (text : String) : Bytes := (hexBytes text.toList).getD []

/-- The third-party functions at the values these answers give them. -/
def env : Primitives where
  sha256 := fun bytes => bytes
  isVerifyingKey := fun bytes => bytes = bytesOf key
  verifyStrict := fun bytes statement signed =>
    bytes = bytesOf key && signed = bytesOf signature &&
      statement = "\n".intercalate
        ["exchange-validator-attest-v2", session, "4", chain, "false", "false"]
  canonicalBytes := fun _ => []

/-- What one validator signed at message 4, under a spelling of its key. -/
def attestation (spelling : String) : WireAttestation where
  validator := spelling
  session := session
  lastId := 4
  chain := chain
  signature := signature
  disputed := false
  stalled := false

def exchange : Exchange := ⟨some session, [(4, bytesOf chain)], 0, 0, 0⟩

def start (validators : List String) : System :=
  System.start validators (some session) [(4, bytesOf chain)]

/-- A process after these actions. -/
def after (validators : List String) (actions : List Action) : System :=
  ((start validators).performAll env validators actions).getD (start validators)

end Sample

theorem quorum_counts_keys_sample :
    (Sample.after ["http://a"] [.answered (Sample.attestation Sample.key),
        .settled]).exchange.quorumVerifiedAt = 4 ∧
      (Sample.after ["http://a"] [.answered (Sample.attestation Sample.key), .settled]).Stands
        Sample.env ["http://a"] := by
  have hvalues : ((Sample.start ["http://a"]).performAll Sample.env ["http://a"]
        [.answered (Sample.attestation Sample.key), .settled]).isSome = true ∧
      (Sample.after ["http://a"] [.answered (Sample.attestation Sample.key),
        .settled]).exchange.quorumVerifiedAt = 4 := by
    decide +kernel
  obtain ⟨hsome, hmark⟩ := hvalues
  have hrun : (Sample.start ["http://a"]).performAll Sample.env ["http://a"]
      [.answered (Sample.attestation Sample.key), .settled] =
        some (Sample.after ["http://a"] [.answered (Sample.attestation Sample.key), .settled]) := by
    obtain ⟨s, hs⟩ := Option.isSome_iff_exists.1 hsome
    rw [Sample.after, hs, Option.getD_some]
  have hmeets : (Sample.start ["http://a"]).Meets Sample.env ["http://a"]
      [.answered (Sample.attestation Sample.key), .settled] := by
    refine ⟨(nomatch ·), fun t ht => ⟨fun _ => ?_, fun _ _ => trivial⟩⟩
    have hheard : t.heard = [⟨Sample.attestation Sample.key, Sample.exchange, 0⟩] ∧ t.run = 0 := by
      cases ht
      exact ⟨rfl, rfl⟩
    refine ⟨?_, ?_⟩
    · intro h hh h' hh' _ _ _
      rw [hheard.1, List.mem_singleton] at hh hh'
      rw [hh, hh']
    · intro h hh _ _
      rw [hheard.1, List.mem_singleton] at hh
      rw [hh, hheard.2]
  exact ⟨hmark, (@quorum_counts_keys Sample.env ["http://a"] (some Sample.session)
    [(4, Sample.bytesOf Sample.chain)] _ [] _ _ hrun hmeets rfl).1⟩

theorem Sample.not_stands_of_one {validators : List String} {s : System}
    (hmark : s.exchange.quorumVerifiedAt = 4) (hquorum : 1 < quorum validators.length)
    (hone : ∀ h ∈ s.standing, fromHex 32 h.attestation.validator.toList =
      some (Sample.bytesOf Sample.key)) : ¬s.Stands Sample.env validators := by
  rintro (hzero | ⟨keys, hcard, hkeys⟩)
  · rw [hmark] at hzero
    cases hzero
  · have hsubset : keys ⊆ {Sample.bytesOf Sample.key} := by
      intro key hkey
      obtain ⟨h, hh, hvouches, -⟩ := hkeys key hkey
      have hsame := (hone h hh).symm.trans hvouches.names
      exact Finset.mem_singleton.2 (Option.some.inj hsame).symm
    have hle : keys.card ≤ 1 := Finset.card_le_card hsubset
    exact absurd (hcard.trans hle) (not_le.2 hquorum)

theorem Sample.not_stands_of_old_run {validators : List String} {s : System}
    (hmark : s.exchange.quorumVerifiedAt = 4) (hquorum : 0 < quorum validators.length)
    (hold : ∀ h ∈ s.standing, h.run ≠ s.run) : ¬s.Stands Sample.env validators := by
  rintro (hzero | ⟨keys, hcard, hkeys⟩)
  · rw [hmark] at hzero
    cases hzero
  · obtain ⟨key, hkey⟩ : keys.Nonempty := Finset.card_pos.1 (hquorum.trans_le hcard)
    obtain ⟨h, hh, -, hsame, -⟩ := hkeys key hkey
    exact hold h hh hsame

/-- One key in two spellings is counted twice, and an answer compared in an old run moves the mark
of a new one. -/
theorem quorum_without_keys :
    (∃ s, (Sample.start ["http://a", "http://b"]).performAll Sample.env ["http://a", "http://b"]
        [.answered (Sample.attestation Sample.key), .answered (Sample.attestation Sample.upperKey),
          .settled] = some s ∧
      s.exchange.quorumVerifiedAt = 4 ∧ ¬s.Stands Sample.env ["http://a", "http://b"]) ∧
    ∃ s, (Sample.start ["http://a"]).performAll Sample.env ["http://a"]
        [.answered (Sample.attestation Sample.key), .newRun none, .settled] = some s ∧
      s.exchange.quorumVerifiedAt = 4 ∧ ¬s.Stands Sample.env ["http://a"] := by
  have htwice : ((Sample.start ["http://a", "http://b"]).performAll Sample.env
      ["http://a", "http://b"] [.answered (Sample.attestation Sample.key),
        .answered (Sample.attestation Sample.upperKey), .settled]).any (fun s =>
      s.exchange.quorumVerifiedAt = 4 ∧ ∀ h ∈ s.standing,
        fromHex 32 h.attestation.validator.toList = some (Sample.bytesOf Sample.key)) = true := by
    decide +kernel
  have hold : ((Sample.start ["http://a"]).performAll Sample.env ["http://a"]
      [.answered (Sample.attestation Sample.key), .newRun none, .settled]).any (fun s =>
      s.exchange.quorumVerifiedAt = 4 ∧ ∀ h ∈ s.standing, h.run ≠ s.run) = true := by
    decide +kernel
  constructor
  · obtain ⟨s, hs, hvalues⟩ := (Option.any_eq_true _ _).1 htwice
    obtain ⟨hmark, hone⟩ := of_decide_eq_true hvalues
    exact ⟨s, hs, hmark, Sample.not_stands_of_one hmark (by decide) hone⟩
  · obtain ⟨s, hs, hvalues⟩ := (Option.any_eq_true _ _).1 hold
    obtain ⟨hmark, hold⟩ := of_decide_eq_true hvalues
    exact ⟨s, hs, hmark, Sample.not_stands_of_old_run hmark (by decide) hold⟩

end Validators
end Matcher
end VerifiableExchange
