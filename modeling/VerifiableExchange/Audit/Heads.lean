import VerifiableExchange.Audit.CheckRun
import VerifiableExchange.Validator.Positions

/-!
# Heads — the two signed heads an audit relies on

An audit that passes has compared the chain head's key with the key the run pinned, and both
signatures with the keys the heads name themselves. The key of the tree head and the sessions of the
two heads are compared with nothing.
-/

namespace VerifiableExchange
namespace Audit

open Lib Matcher Merkle Reporting

/-- The key the run pinned on first contact, as bytes. -/
def RunFacts.pinnedKey (facts : RunFacts) : Option Bytes :=
  facts.feedPubkey.bind (fun key => Operator.fromHex 32 key.toList)

/-- The head names this key, and its signature verifies under it. -/
def FeedHead.SignedBy (env : Primitives) (key : Bytes) (head : FeedHead) : Prop :=
  Operator.fromHex 32 head.publicKey.toList = some key ∧ env.isVerifyingKey key = true ∧
    ∃ signature chain, Operator.fromHex 64 head.signature.toList = some signature ∧
      Operator.fromHex 32 head.chain.toList = some chain ∧
      env.verifyStrict key (Poller.headStatement head.session head.lastId chain) signature = true

/-- The tree head names this key, and its signature verifies under it. -/
def RawTreeHead.SignedBy (env : Primitives) (key : Bytes) (raw : RawTreeHead) : Prop :=
  Operator.fromHex 32 raw.publicKey.toList = some key ∧ env.isVerifyingKey key = true ∧
    ∃ signature root, Operator.fromHex 64 raw.signature.toList = some signature ∧
      Logchain.readHash raw.rootHash = some root ∧
      verifyTreeHead env key raw.session raw.timestamp raw.treeSize root signature = true

/-- Both heads are of the run's pinned key and of the run's own session. -/
structure OneHistory (env : Primitives) (facts : RunFacts) (head : FeedHead) (raw : RawTreeHead) :
    Prop where
  chainKey : ∃ key, facts.pinnedKey = some key ∧ head.SignedBy env key
  treeKey : ∃ key, facts.pinnedKey = some key ∧ raw.SignedBy env key
  chainSession : facts.session = some head.session
  treeSession : facts.session = some raw.session

/-- The three comparisons an audit leaves out, made on what was served. -/
structure SameOrigin (facts : RunFacts) (head : FeedHead) (raw : RawTreeHead) : Prop where
  treeKey : Operator.fromHex 32 raw.publicKey.toList = facts.pinnedKey
  chainSession : facts.session = some head.session
  treeSession : facts.session = some raw.session

/-! ## What each check says when it passes -/

theorem not_passed_fail (check : Check) (reason : String) : ¬(check.fail reason).passed :=
  Nat.succ_ne_zero _

theorem not_passed_unchecked (name reason : String) : ¬(unchecked name reason).passed :=
  not_passed_fail _ _

/-- A feed shown to serve another history fails the session check. -/
theorem not_replaced_of_passed {facts : RunFacts} {wireSession : Option String}
    (h : (sessionCheck facts wireSession).1.passed) :
    (sessionCheck facts wireSession).2 = false := by
  rcases facts with ⟨_, _, _, session, _, _, _⟩
  rcases session with _ | ours
  · exact absurd h (not_passed_fail _ _)
  · rcases wireSession with _ | theirs
    · exact absurd h (not_passed_fail _ _)
    · unfold sessionCheck at h ⊢
      by_cases hsame : ours = theirs
      · simp only [if_pos hsame]
      · simp only [if_neg hsame] at h
        exact absurd h (not_passed_fail _ _)

theorem FeedHead.signedBy_of_verifies {env : Primitives} {head : FeedHead}
    (h : head.verifies env = true) : ∃ key, head.SignedBy env key := by
  rw [FeedHead.verifies] at h
  split at h
  · rename_i key signature chain hkey hsignature hchain
    rw [Bool.and_eq_true] at h
    exact ⟨key, hkey, h.1, signature, chain, hsignature, hchain, h.2⟩
  · cases h

/-- A passing signature check compared the head's key with the pinned one. -/
theorem signed_of_passed {env : Primitives} {runId : Int} {pinned : Option String}
    {head : FeedHead} (h : (signatureCheck env runId pinned head).passed) :
    head.verifies env = true ∧ pinned = some head.publicKey := by
  rcases pinned with _ | pinned
  · exact absurd h (not_passed_fail _ _)
  · unfold signatureCheck at h
    by_cases hsame : pinned = head.publicKey
    · simp only [if_pos hsame] at h
      by_cases hverifies : head.verifies env = true
      · exact ⟨hverifies, congrArg some hsame⟩
      · simp only [if_neg hverifies] at h
        exact absurd h (not_passed_fail _ _)
    · simp only [if_neg hsame] at h
      exact absurd h (not_passed_fail _ _)

/-- A passing tree head check is of a tree head that was read. -/
theorem treeHead_of_passed {sth : Except String TreeHead} {fold : RootFold}
    (h : (treeHeadCheck sth fold).passed) : ∃ treeHead, sth = .ok treeHead := by
  cases sth with
  | error reason => exact absurd h (not_passed_fail _ _)
  | ok treeHead => exact ⟨treeHead, rfl⟩

/-- A tree head that was read is signed by the key it names. -/
theorem signed_of_fetchTreeHead {env : Primitives} {url : String}
    {served : Except String RawTreeHead} {treeHead : TreeHead}
    (h : fetchTreeHead env url served = .ok treeHead) :
    ∃ raw key, served = .ok raw ∧ raw.SignedBy env key := by
  cases served with
  | error reason => cases h
  | ok raw =>
      unfold fetchTreeHead at h
      obtain ⟨_, hraw, h⟩ := bind_eq_ok.1 h
      cases hraw
      split at h
      · cases h
      · rename_i root hroot
        split at h
        · cases h
        · rename_i key hkey
          split at h
          · cases h
          · rename_i signature hsignature
            by_cases hvalid : env.isVerifyingKey key = true
            · by_cases hverified : verifyTreeHead env key raw.session raw.timestamp
                  raw.treeSize root signature = true
              · exact ⟨raw, key, rfl, hkey, hvalid, signature, root, hsignature, hroot, hverified⟩
              · rw [if_neg (not_not_intro hvalid), if_neg hverified] at h
                cases h
            · rw [if_pos hvalid] at h
              cases h

/-! ## What an audit that passes has compared -/

section

variable {surroundings : Surroundings} {inputs : Inputs} {answers : Answers} {fuel : Nat}
  {outcome : Outcome}

/-- What a program that answered was told by its first part. -/
theorem exists_of_bind {α β : Type} {prog : Fueled String α} {next : α → Fueled String β} {b : β}
    (h : (prog >>= next) fuel = .ok b) : ∃ a, next a fuel = .ok b := by
  change Fueled.andThen prog next fuel = _ at h
  rw [Fueled.andThen] at h
  split at h
  · exact ⟨_, h⟩
  · cases h

/-- An audit reports over nothing where the feed serves another history, and else over what it
read. -/
theorem checkRun_cases (h : checkRun surroundings inputs answers fuel = .ok outcome) :
    ((sessionCheck inputs.facts inputs.wireSession).2 = true ∧ ∃ tree, outcome =
      reportReplaced surroundings inputs answers (sessionCheck inputs.facts inputs.wireSession).1
        tree) ∨
    ∃ w, outcome =
      report surroundings inputs (sessionCheck inputs.facts inputs.wireSession).1 w := by
  unfold checkRun at h
  by_cases hreplaced : (sessionCheck inputs.facts inputs.wireSession).2 = true
  · simp only [if_pos hreplaced] at h
    exact .inl ⟨hreplaced, _, (Except.ok.inj h).symm⟩
  · simp only [if_neg hreplaced] at h
    obtain ⟨engine, h⟩ := exists_of_bind h
    obtain ⟨read, h⟩ := exists_of_bind h
    obtain ⟨w, h⟩ := exists_of_bind h
    exact .inr ⟨w, (Except.ok.inj h).symm⟩

/-- The tree checks open with the check of the tree head. -/
theorem treeHeadCheck_mem (tree : TreeWalk) :
    treeHeadCheck inputs.sth tree.fold ∈ (treePart inputs tree).1 := by
  have hfirst : treeHeadCheck inputs.sth tree.fold ∈
      (checkTree inputs.sth inputs.rootAnchors tree.fold).1 := by
    rcases inputs.rootAnchors with _ | ⟨reason | history⟩ <;> exact List.mem_cons_self
  exact List.mem_append_left _ hfirst

/-- Every report over messages holds the checks of both heads. -/
theorem heads_mem_report (session : Check) (w : Walk) {check : Check}
    (h : check ∈ checkHead surroundings.env inputs.facts inputs.head w.fold
        (w.replay.finish inputs.facts.cursor).claimsTo ∨
      check = treeHeadCheck inputs.sth w.tree.fold) :
    check ∈ (report surroundings inputs session w).checks := by
  have htree := @treeHeadCheck_mem inputs w.tree
  unfold report
  rcases w.replay.tooOld with _ | tooOld
  · rcases h with h | rfl
    · exact List.mem_append_left _ (List.mem_append_left _
        (List.mem_cons_of_mem _ (List.mem_append_left _ h)))
    · exact List.mem_append_right _ htree
  · rcases h with h | rfl
    · exact List.mem_append_left _ (List.mem_cons_of_mem _ (List.mem_append_left _ h))
    · exact List.mem_append_right _ htree

/-- An audit all of whose checks pass has passed the checks of both heads. -/
theorem heads_of_passed (h : checkRun surroundings inputs answers fuel = .ok outcome)
    (hpassed : outcome.Passed) : ∃ w : Walk,
      (∀ check ∈ checkHead surroundings.env inputs.facts inputs.head w.fold
        (w.replay.finish inputs.facts.cursor).claimsTo, check.passed) ∧
      (treeHeadCheck inputs.sth w.tree.fold).passed := by
  rcases checkRun_cases h with ⟨hreplaced, tree, rfl⟩ | ⟨w, rfl⟩
  · have hsame := not_replaced_of_passed (hpassed _ List.mem_cons_self)
    rw [hsame] at hreplaced
    cases hreplaced
  · exact ⟨w, fun check hcheck => hpassed _ (heads_mem_report _ w (.inl hcheck)),
      hpassed _ (heads_mem_report _ w (.inr rfl))⟩

/-- Where every check of an audit passes, both heads are of the pinned key and of the run's session
exactly where the comparisons hold that the audit does not make. -/
theorem one_history_iff {url : String} {served : Except String RawTreeHead}
    (hserved : inputs.sth = fetchTreeHead surroundings.env url served)
    (h : checkRun surroundings inputs answers fuel = .ok outcome) (hpassed : outcome.Passed) :
    ∃ head raw, inputs.head = .ok head ∧ served = .ok raw ∧
      (OneHistory surroundings.env inputs.facts head raw ↔ SameOrigin inputs.facts head raw) := by
  obtain ⟨w, hheads, htree⟩ := heads_of_passed h hpassed
  obtain ⟨treeHead, hsth⟩ := treeHead_of_passed htree
  obtain ⟨raw, treeKey, rfl, hraw⟩ := signed_of_fetchTreeHead (hserved.symm.trans hsth)
  rcases hhead : inputs.head with reason | head
  · rw [hhead] at hheads
    exact absurd (hheads _ List.mem_cons_self) (not_passed_unchecked _ _)
  · refine ⟨head, raw, rfl, rfl, ?_⟩
    rw [hhead] at hheads
    obtain ⟨hverifies, hpinned⟩ :=
      signed_of_passed (hheads _ (List.mem_cons_of_mem _ List.mem_cons_self))
    obtain ⟨chainKey, hchain⟩ := FeedHead.signedBy_of_verifies hverifies
    -- The chain head's key is the pinned one, by the comparison the audit makes.
    have hkey : inputs.facts.pinnedKey = some chainKey := by
      rw [RunFacts.pinnedKey, hpinned]
      exact hchain.1
    constructor
    · rintro ⟨-, ⟨key, hpin, hsigned⟩, hchainSession, htreeSession⟩
      exact ⟨hsigned.1.trans hpin.symm, hchainSession, htreeSession⟩
    · rintro ⟨hsame, hchainSession, htreeSession⟩
      have hraw' : inputs.facts.pinnedKey = some treeKey := hsame.symm.trans hraw.1
      exact ⟨⟨chainKey, hkey, hchain⟩, ⟨treeKey, hraw', hraw⟩, hchainSession, htreeSession⟩

end

/-! ## A tree head of another key -/

namespace Sample

open MatcherState.Sample (hex limitOrder)
open Validator.Sample (session otherSession feedKey firstChain firstHead)

/-- A key of nobody's. -/
def otherKey : String := "3d4017c3e843895a92b70aa74d1b7ebc9c982ccf2ec4968cc0cd55f12af4660c"

def sale : ReadMessage :=
  ⟨(limitOrder 1 1001 1 .sell 101 2).2, .ok (limitOrder 1 1001 1 .sell 101 2).1⟩

def leafBytes : Array UInt8 :=
  #[219, 245, 97, 46, 248, 253, 224, 23, 138, 153, 188, 27, 3, 0, 35, 90, 160, 46, 155, 55, 227,
    224, 254, 180, 107, 185, 54, 209, 119, 204, 55, 223]

theorem leafBytes_size : leafBytes.size = 32 := rfl

def leaf : Hash := ⟨leafBytes, leafBytes_size⟩

/-- The tree over the sale, signed by the other key as another session's. -/
def strangeTree : RawTreeHead where
  session := otherSession
  timestamp := 1700000000000
  treeSize := 1
  rootHash := Logchain.toHex leaf.toList
  publicKey := otherKey
  signature :=
    "d100877de12a8310741b74e45075bb4194344fe0eaf50d5762600e35156a663a" ++
      "e06269cc93d604543d3832c399c1a5726b7c2a0854e6a91ae8a49000cc473807"

def chainHead : FeedHead where
  session := session
  lastId := 1
  chain := Logchain.toHex firstChain
  publicKey := feedKey
  signature := Logchain.toHex firstHead.signature

/-- The third-party functions at the values of this audit. -/
def surroundings : Surroundings where
  env := {
    sha256 := fun bytes => if bytes = MatcherState.emptyChain ++ sale.bytes then firstChain else []
    isVerifyingKey := fun key => key = hex feedKey || key = hex otherKey
    verifyStrict := fun key statement signature =>
      (key = hex feedKey && statement = Poller.headStatement session 1 firstChain &&
        signature = firstHead.signature) ||
      (key = hex otherKey && statement = treeHeadText otherSession 1700000000000 1 leaf &&
        signature = hex strangeTree.signature)
    canonicalBytes := fun _ => sale.bytes }
  sha256 := fun bytes =>
    if bytes = leafInput sale.bytes then leaf else ⟨Array.replicate 32 0, rfl⟩
  age := fun _ => "an hour ago"

/-- A run that has committed nothing yet, of the feed that serves the sale. -/
def inputs : Inputs where
  facts := {
    rootVersion := 5
    executionGenesis := none
    runId := 1
    session := some session
    feedPubkey := some feedKey
    matcherPubkey := some feedKey
    cursor := 0 }
  tie := .signedClaims
  head := .ok chainHead
  wireSession := some session
  horizon := some 0
  anchors := none
  sth := fetchTreeHead surroundings.env "http://127.0.0.1:3001/sth" (.ok strangeTree)
  rootAnchors := none

def answers : Answers where
  pages := fun _ => .ok ⟨[sale], some session⟩
  nodes := fun _ => .served [⟨0, 0, Logchain.toHex leaf.toList⟩]
  claims := fun _ => .ok []
  trades := fun _ => .ok []
  claimsHint := none

/-- How many failures each check of an audit counted. -/
def failures (result : Except (Stop String) Outcome) : Option (List Nat) :=
  result.toOption.map (fun outcome => outcome.checks.map Check.failed)

theorem failures_audit : failures (checkRun surroundings inputs answers 3) =
    some [0, 0, 0, 0, 0, 0, 0, 0, 0, 0, 0, 0, 0] := by
  decide +kernel

/-- Every check of this audit passes. -/
theorem passed_audit :
    ∃ outcome, checkRun surroundings inputs answers 3 = .ok outcome ∧ outcome.Passed := by
  have hfailures := failures_audit
  rcases hrun : checkRun surroundings inputs answers 3 with stop | outcome
  · rw [hrun] at hfailures
    cases hfailures
  · refine ⟨outcome, rfl, fun check hcheck => ?_⟩
    rw [hrun] at hfailures
    have hnone : outcome.checks.map Check.failed = List.replicate 13 0 := Option.some.inj hfailures
    exact List.eq_of_mem_replicate (hnone ▸ List.mem_map_of_mem hcheck)

end Sample

/-- A tree head that another key signed as another session's, and an audit that passes on it. -/
theorem strange_tree_passes :
    ∃ outcome, checkRun Sample.surroundings Sample.inputs Sample.answers 3 = .ok outcome ∧
      outcome.Passed ∧
      ¬OneHistory Sample.surroundings.env Sample.inputs.facts Sample.chainHead
        Sample.strangeTree := by
  obtain ⟨outcome, hrun, hpassed⟩ := Sample.passed_audit
  refine ⟨outcome, hrun, hpassed, fun hone => ?_⟩
  have hsame := Option.some.inj hone.treeSession
  revert hsame
  decide +kernel

theorem one_history_iff_sample :
    ∃ outcome, checkRun Sample.surroundings Sample.inputs Sample.answers 3 = .ok outcome ∧
      ∃ head raw, Sample.inputs.head = .ok head ∧
        (.ok Sample.strangeTree : Except String RawTreeHead) = .ok raw ∧
        (OneHistory Sample.surroundings.env Sample.inputs.facts head raw ↔
          SameOrigin Sample.inputs.facts head raw) := by
  obtain ⟨outcome, hrun, hpassed⟩ := Sample.passed_audit
  exact ⟨outcome, hrun, one_history_iff rfl hrun hpassed⟩

end Audit
end VerifiableExchange
