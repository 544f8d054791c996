import VerifiableExchange.Feed.Lasting

/-!
# No gap — when the published ids are 1 to N

The law of a published log in its own terms, and exactly when one more event keeps it: a drain pass
must not give ids to two entries of one entry id.
-/

namespace VerifiableExchange
namespace Feed

open Lib Merkle Logchain Inbox

variable {sha256 : Bytes → Hash} {env : Primitives} {serde : Wire.Serde}
  {verify : Bytes → Bytes → Bytes → Bool} {world next : World} {event : Event}

/-- The published log and what the sequencer holds of it. -/
structure NoGap (sha256 : Bytes → Hash) (serde : Wire.Serde) (world : World) : Prop where
  ids : idsOf world.log = List.range' 1 world.log.length
  next : world.sequencer.feed.lastId + 1 = world.sequencer.feed.nextId
  /-- The window is the newest messages, with a link for each of them. -/
  window : world.sequencer.feed.messages = newest MESSAGE_WINDOW (rowsOf serde world.log)
  held : world.sequencer.feed.chains.length = world.sequencer.feed.messages.length
  /-- A link is the fold of the bytes up to its message. -/
  links : ∀ index link, world.sequencer.feed.chains[index]? = some link →
    link = ((textsOf serde world.log).take
      (world.log.length - world.sequencer.feed.messages.length + index + 1)).foldl
        (extendBytes sha256) EMPTY_CHAIN
  tree : world.sequencer.feed.treeSize = world.log.length

theorem getElem?_chainsAfter (rows : List Published) (chain : Chain) (index : Nat) (link : Chain)
    (h : (chainsAfter sha256 chain rows)[index]? = some link) :
    link = ((rows.map Published.json).take (index + 1)).foldl (extendBytes sha256) chain := by
  induction rows generalizing chain index with
  | nil => simp [chainsAfter] at h
  | cons row rest ih =>
      rw [chainsAfter] at h
      cases index with
      | zero =>
          rw [List.getElem?_cons_zero] at h
          cases h
          rfl
      | succ index =>
          rw [List.getElem?_cons_succ] at h
          rw [ih _ _ h]
          rfl

theorem length_eq_lastId {feed : FeedState} {log : List Entry}
    (hids : idsOf log = List.range' 1 log.length)
    (hwindow : feed.messages = newest MESSAGE_WINDOW (rowsOf serde log)) :
    log.length = feed.lastId := by
  have hlast : (feed.messages.getLast?.map Published.id) = (idsOf log).getLast? := by
    rw [hwindow, getLast?_newest (by decide), ← List.getLast?_map, rowsOf, List.map_map]
    rfl
  rw [FeedState.lastId, hlast, hids]
  cases log.length with
  | zero => rfl
  | succ n =>
      rw [List.range'_concat, List.getLast?_concat, Option.getD_some, Nat.one_mul, Nat.add_comm]

/-- The ids are 1 to N, and the next one is N + 1. -/
structure Gapless (sha256 : Bytes → Hash) (serde : Wire.Serde) (world : World) : Prop where
  lasting : Lasting sha256 serde world
  ids : idsOf world.log = List.range' 1 world.log.length
  next : world.log.length + 1 = world.sequencer.feed.nextId

namespace Gapless

theorem noGap (h : Gapless sha256 serde world) : NoGap sha256 serde world where
  ids := h.ids
  next := by rw [← length_eq_lastId h.ids h.lasting.windows.messages, h.next]
  window := h.lasting.windows.messages
  held := by
    rw [h.lasting.windows.messages, h.lasting.windows.chains, length_newest, length_newest,
      h.lasting.windows.length]
  links := fun index link hlink => by
    rw [h.lasting.windows.chains, getElem?_newest, ← h.lasting.windows.length, length_rowsOf] at hlink
    rw [h.lasting.windows.messages, length_newest, length_rowsOf, ← rowsOf_json]
    have hfold := getElem?_chainsAfter _ _ _ _ hlink
    have hindex : world.log.length - min world.log.length MESSAGE_WINDOW + index + 1 =
        world.log.length - MESSAGE_WINDOW + index + 1 := by
      omega
    rw [hindex]
    exact hfold
  tree := by
    rw [FeedState.treeSize, h.lasting.tree.leaves_eq, length_textsOf]

theorem start (h : World.Starts sha256 env serde verify world) : Gapless sha256 serde world where
  lasting := .start h
  ids := by
    cases h <;> rfl
  next := by
    cases h with
    | memory => rfl
    | disk config draw sequencer hstart =>
        obtain ⟨scan, session, signedRoot, nodes, accounts, hstarted, rfl⟩ := withDb_eq_ok.1 hstart
        exact congrArg (· + 1) (scanRows_scanned hstarted.scan_eq).count.symm

/-- A group that does not go in gives its ids back. -/
theorem group_refused (h : Gapless sha256 serde world) (hholdable : event.Holdable)
    (hdistinct : event.Distinct env serde world.sequencer) {group : Group}
    (hgroup : event.group env serde world.sequencer = some group) {after : Sequencer}
    {error : SequenceError} (hsequenced : group.sequenced sha256 serde = .ok (after, .error error)) :
    after.feed = world.sequencer.feed := by
  have htook := Event.group_took hgroup
  obtain ⟨hcases, -, -⟩ := Group.sequenced_cases (textsOf serde world.log)
    (htook.storage_eq ▸ h.lasting.tree) hsequenced
  generalize hfeed : after.feed = feed at hcases
  cases hcases with
  | refused detail hguard =>
      rw [Event.group_guard hgroup hdistinct] at hguard
      cases hguard
  | notWritten first count lastId reason hguard hfirst =>
      rw [htook.frame, h.lasting.first_id hholdable hgroup hfirst]

/-- One event keeps the log without a hole. -/
theorem step (h : Gapless sha256 serde world) (hholdable : event.Holdable)
    (hdistinct : event.Distinct env serde world.sequencer)
    (hstep : world.step sha256 env serde verify event = some next) (hnext : next.Holdable) :
    Gapless sha256 serde next := by
  have hlasting := h.lasting.step hholdable hstep hnext
  cases step_stepped hstep with
  | idle left _ hidle =>
      refine ⟨hlasting, h.ids, ?_⟩
      dsimp only
      rw [hidle.feed_eq, h.next]
  | restarted config draw _ _ hrestart =>
      obtain ⟨-, hids, hafter⟩ := h.lasting.restart hrestart
      exact ⟨hlasting, hids, hafter⟩
  | sequenced group after outcome head hgroup hsequenced =>
      obtain ⟨hids, hafter⟩ := h.lasting.group_ids hholdable hgroup
      cases outcome with
      | error error =>
          have hsame := h.group_refused hholdable hdistinct hgroup hsequenced
          rw [Group.published_of_error hsequenced, List.append_nil] at hlasting ⊢
          refine ⟨hlasting, h.ids, ?_⟩
          dsimp only
          rw [hsame, h.next]
      | ok =>
          have htook := Event.group_took hgroup
          obtain ⟨hcases, -, -⟩ := Group.sequenced_cases (textsOf serde world.log)
            (htook.storage_eq ▸ h.lasting.tree) hsequenced
          have hnextId : after.feed.nextId = group.state.feed.nextId := by
            generalize after.feed = feed at hcases
            cases hcases with
            | nothing => rfl
            | written => exact FeedState.appended_nextId _ _ _
          rw [Group.published_of_ok hsequenced] at hlasting ⊢
          refine ⟨hlasting, ?_, ?_⟩
          · rw [idsOf, List.map_append, ← idsOf, ← idsOf, h.ids, hids, ← h.next, List.length_append,
              Nat.add_comm world.log.length 1, List.range'_append_1]
          · dsimp only
            rw [hnextId, ← hafter, ← h.next, List.length_append]
            omega

/-- A page with two entries that get ids for one entry id loses the ids it took. -/
theorem group_repeats (h : Gapless sha256 serde world) (hholdable : event.Holdable)
    (hrepeats : ¬event.Distinct env serde world.sequencer) {group : Group}
    (hgroup : event.group env serde world.sequencer = some group) {after : Sequencer}
    {outcome : Except SequenceError Unit}
    (hsequenced : group.sequenced sha256 serde = .ok (after, outcome)) :
    group.published sha256 serde = [] ∧ world.log.length + 1 < after.feed.nextId := by
  have htook := Event.group_took hgroup
  obtain ⟨-, hnext⟩ := h.lasting.group_ids hholdable hgroup
  have hkeys : ¬(group.batch.filterMap Prod.fst).Nodup := by
    cases event with
    | drain epoch due c =>
        rw [Event.group] at hgroup
        split_ifs at hgroup
        cases hgroup
        exact fun hnodup => hrepeats fun _ => hnodup
    | submit | submitOperator | generate | restart => exact absurd trivial hrepeats
  have hne : group.batch ≠ [] := by
    intro hnil
    rw [hnil] at hkeys
    exact hkeys List.nodup_nil
  have hguard : group.state.feed.checkRetentionBatch group.batch ≠ .ok () := fun hok =>
    hkeys (FeedState.checkRetentionBatch_eq_ok.1 hok).2.2.2.2.1
  obtain ⟨hcases, -, -⟩ := Group.sequenced_cases (textsOf serde world.log)
    (htook.storage_eq ▸ h.lasting.tree) hsequenced
  generalize hfeed : after.feed = feed at hcases
  cases hcases with
  | nothing hnil => exact absurd hnil hne
  | notWritten _ _ _ _ hok => exact absurd hok hguard
  | written _ _ hok => exact absurd hok hguard
  | refused detail =>
      refine ⟨Group.published_of_error hsequenced, ?_⟩
      have hlength := List.length_pos_iff.2 hne
      rw [← hnext, ← h.next]
      omega

end Gapless

/-- In a run whose drain passes see no entry twice, every world has a log without a hole. -/
theorem World.Reaches.gapless
    (h : World.Reaches sha256 env serde verify
      (fun world event => event.Distinct env serde world.sequencer) world) :
    Gapless sha256 serde world := by
  induction h with
  | start hstart => exact .start hstart
  | step _ hdistinct hholdable hstep hnext ih => exact ih.step hholdable hdistinct hstep hnext

/-- In every run whose drain passes give no two ids to one entry of the separate service, the log is
without a hole, and one more event keeps it so exactly when it does not do that either. -/
theorem published_log_has_no_gap
    (h : World.Reaches sha256 env serde verify
      (fun world event => event.Distinct env serde world.sequencer) world) :
    NoGap sha256 serde world ∧
      (∀ (event : Event) (group : Group) (after : Sequencer) (error : SequenceError), event.Holdable →
        event.group env serde world.sequencer = some group →
        group.sequenced sha256 serde = .ok (after, .error error) →
        (after.feed = world.sequencer.feed ↔ event.Distinct env serde world.sequencer)) ∧
      ∀ (event : Event) (next : World), event.Holdable → next.Holdable →
        world.step sha256 env serde verify event = some next →
        (NoGap sha256 serde next ↔ event.Distinct env serde world.sequencer) := by
  have hgapless := h.gapless
  refine ⟨hgapless.noGap, fun event group after error hholdable hgroup hsequenced => ?_,
    fun event next hholdable hnext hstep => ?_⟩
  · refine ⟨fun hsame => ?_, fun hdistinct =>
      hgapless.group_refused hholdable hdistinct hgroup hsequenced⟩
    by_contra hrepeats
    obtain ⟨-, hless⟩ := hgapless.group_repeats hholdable hrepeats hgroup hsequenced
    rw [hsame, ← hgapless.next] at hless
    exact lt_irrefl _ hless
  · refine ⟨fun hnogap => ?_, fun hdistinct =>
      (hgapless.step hholdable hdistinct hstep hnext).noGap⟩
    by_contra hrepeats
    cases step_stepped hstep with
    | idle left hgroup =>
        cases event with
        | drain epoch due c =>
            -- A pass that does not run gives no ids.
            rw [Event.group] at hgroup
            split_ifs at hgroup with hopen
            exact hrepeats fun hruns => absurd hruns hopen
        | submit | submitOperator | generate | restart => exact hrepeats trivial
    | sequenced group after outcome head hgroup hsequenced =>
        obtain ⟨hnone, hless⟩ := hgapless.group_repeats hholdable hrepeats hgroup hsequenced
        rw [hnone, List.append_nil] at hnogap
        have hlast := length_eq_lastId hnogap.ids hnogap.window
        have hafter := hnogap.next
        rw [← hlast] at hafter
        exact absurd hafter (Nat.ne_of_lt hless)
    | restarted config draw _ hevent =>
        subst hevent
        exact hrepeats trivial

namespace Sample

/-- A stand-in for the hash: a sum in the first byte. -/
def sum32 (bytes : Bytes) : Hash := (Vector.replicate 32 0).set 0 (bytes.foldl (· + ·) 0)

def accountKey : String := "d75a980182b10ab7d54bfed3c964073a0ee172f3daa62325af021a68f707511a"

/-- Two cancels one account signed, each under a nonce of its own. -/
def firstCancel : SignedSubmission where
  submission := .cancel ⟨3, 7, some "000102030405060708090a0b0c0d0e0f", some "00112233aabbccdd"⟩
  publicKey := accountKey
  signature :=
    "a9c9442dbef8532a9ced5ebd31466ec514946e02126e22f061dd9f7adc47a4b1" ++
      "7bf7212ef7e8b10d3d325b04a37da27e451df1973ff564b029f71386a5c87603"

def secondCancel : SignedSubmission where
  submission := .cancel ⟨3, 8, some "101112131415161718191a1b1c1d1e1f", some "00112233aabbccdd"⟩
  publicKey := accountKey
  signature :=
    "f24b2c46c96d724b52ca5708ecd0cf3fbe0db9f5213aa6c04e420a37a596b5c6" ++
      "6921482eef642c43d7a27125d78b3c7c77c79ea3b7ed62f8959a62bdfc39fb0e"

/-- The third-party functions at the values the two cancels give them. -/
def signatures : Primitives where
  sha256 := fun _ => []
  isVerifyingKey := fun key => Operator.fromHex 32 accountKey.toList = some key
  verifyStrict := fun key statement signature =>
    Operator.fromHex 32 accountKey.toList = some key &&
      ((statement =
          "exchange-account-cancel-v3\n00112233aabbccdd\n3\n7\n000102030405060708090a0b0c0d0e0f" &&
        Operator.fromHex 64 firstCancel.signature.toList = some signature) ||
      (statement =
          "exchange-account-cancel-v3\n00112233aabbccdd\n3\n8\n101112131415161718191a1b1c1d1e1f" &&
        Operator.fromHex 64 secondCancel.signature.toList = some signature))
  canonicalBytes := fun _ => []

/-- No message of these runs has a number with a fraction. -/
def plainText : Wire.Serde := ⟨fun _ => [48], fun _ => none⟩

def config : Config where
  limits := .default
  maxAccounts := 100
  maxRetryRecords := 100
  signingKey :=
    ⟨List.replicate 32 7, fun statement => statement.foldl (· + ·) 0 :: List.replicate 63 0⟩
  operatorKey := none
  numAccounts := 10

def startDraw : StartDraw := ⟨"00112233aabbccdd", 1000, fun _ => 0, true⟩

def openedWorld : World := ⟨Sequencer.new config startDraw, []⟩

def calm : Circumstances := ⟨true, 1000, true, true⟩

def cancelled : World :=
  (openedWorld.step sum32 signatures plainText (fun _ _ _ => true)
    (.submit firstCancel calm)).getD openedWorld

def entry (inboxId : Int) (signed : SignedSubmission) : Due :=
  ⟨⟨inboxId, 900, signed, none, none, none⟩, 1000, true⟩

/-- A page that shows one entry id twice, with two submissions. -/
def twice : Event := .drain "epoch" [entry 1 firstCancel, entry 1 secondCancel]
  ⟨fun _ => false, fun _ _ => false, true, 1000⟩

def afterTwice : World :=
  (openedWorld.step sum32 signatures plainText (fun _ _ _ => true) twice).getD openedWorld

end Sample

theorem Sample.cancelled_eq : Sample.openedWorld.step Sample.sum32 Sample.signatures
    Sample.plainText (fun _ _ _ => true) (.submit Sample.firstCancel Sample.calm) =
      some Sample.cancelled ∧ Sample.cancelled.log.length = 1 ∧
        Sample.cancelled.sequencer.feed.nextId = 2 := by
  have hvalues : (Sample.openedWorld.step Sample.sum32 Sample.signatures Sample.plainText
      (fun _ _ _ => true) (.submit Sample.firstCancel Sample.calm)).isSome = true ∧
        Sample.cancelled.log.length = 1 ∧ Sample.cancelled.sequencer.feed.nextId = 2 := by
    decide +kernel
  obtain ⟨world, hworld⟩ := Option.isSome_iff_exists.1 hvalues.1
  refine ⟨?_, hvalues.2⟩
  rw [Sample.cancelled, hworld]
  rfl

theorem Sample.reaches_cancelled : World.Reaches Sample.sum32 Sample.signatures Sample.plainText
    (fun _ _ _ => true)
    (fun world event => event.Distinct Sample.signatures Sample.plainText world.sequencer)
    Sample.cancelled := by
  have hstart : World.Starts Sample.sum32 Sample.signatures Sample.plainText (fun _ _ _ => true)
      Sample.openedWorld := .memory Sample.config Sample.startDraw (by decide)
  refine .step (.start hstart) ?_ ?_ Sample.cancelled_eq.1 ?_
  · exact trivial
  · exact trivial
  · exact ⟨by rw [Sample.cancelled_eq.2.1]; decide, by rw [Sample.cancelled_eq.2.2]; decide⟩

theorem published_log_has_no_gap_sample : NoGap Sample.sum32 Sample.plainText Sample.cancelled :=
  (published_log_has_no_gap Sample.reaches_cancelled).1

/-- One entry id shown twice: the pass takes the ids 1 and 2, publishes nothing, and the next message
of this log would be message 3. -/
theorem gap_after_repeated_entry :
    World.Starts Sample.sum32 Sample.signatures Sample.plainText (fun _ _ _ => true)
      Sample.openedWorld ∧
    Sample.openedWorld.step Sample.sum32 Sample.signatures Sample.plainText (fun _ _ _ => true)
      Sample.twice = some Sample.afterTwice ∧
    Sample.afterTwice.log = [] ∧ Sample.afterTwice.sequencer.feed.lastId = 0 ∧
    Sample.afterTwice.sequencer.feed.nextId = 3 ∧
    ¬NoGap Sample.sum32 Sample.plainText Sample.afterTwice := by
  have hvalues : (Sample.openedWorld.step Sample.sum32 Sample.signatures Sample.plainText
      (fun _ _ _ => true) Sample.twice).isSome = true ∧
        Sample.afterTwice.log.length = 0 ∧ Sample.afterTwice.sequencer.feed.lastId = 0 ∧
          Sample.afterTwice.sequencer.feed.nextId = 3 := by
    decide +kernel
  obtain ⟨hsome, hlog, hlast, hnext⟩ := hvalues
  obtain ⟨world, hworld⟩ := Option.isSome_iff_exists.1 hsome
  refine ⟨.memory Sample.config Sample.startDraw (by decide), ?_, List.length_eq_zero_iff.1 hlog, hlast, hnext,
    fun hnogap => ?_⟩
  · rw [Sample.afterTwice, hworld]
    rfl
  · have hafter := hnogap.next
    rw [hlast, hnext] at hafter
    exact absurd hafter (by decide)

end Feed
end VerifiableExchange
