import VerifiableExchange.Feed.Groups

/-!
# Step — what one event can do to a world

An event is over before `sequence` is called, or it is one group on its way into the log, or it is a
restart. Every invariant of a run is a case analysis on these three.
-/

namespace VerifiableExchange
namespace Feed

open Lib Merkle Logchain Inbox

variable {sha256 : Bytes → Hash} {env : Primitives} {serde : Wire.Serde}
  {verify : Bytes → Bytes → Bytes → Bool} {world next : World} {event : Event}

/-! ## One event -/

/-- A key may have been fixed to an account, and nothing else has moved. -/
inductive Idle (env : Primitives) (state : Sequencer) : Sequencer → Prop
  | same : Idle env state state
  | pinned (signed : SignedSubmission) (key : Bytes) (left : Sequencer) :
      Authorised env signed key → Pinned state signed.submission.accountOf key left →
      Idle env state left

theorem Idle.feed_eq {state left : Sequencer} (h : Idle env state left) : left.feed = state.feed := by
  cases h with
  | same => rfl
  | pinned _ _ _ _ hpin => exact hpin.feed_eq

/-- What an event does to a world. -/
inductive Stepped (sha256 : Bytes → Hash) (env : Primitives) (serde : Wire.Serde)
    (verify : Bytes → Bytes → Bytes → Bool) (world : World) (event : Event) : World → Prop
  | idle (left : Sequencer) :
      event.group env serde world.sequencer = none → Idle env world.sequencer left →
      Stepped sha256 env serde verify world event ⟨left, world.log⟩
  | sequenced (group : Group) (after : Sequencer) (outcome : Except SequenceError Unit)
      (head : Option SignedTreeHead) :
      event.group env serde world.sequencer = some group →
      group.sequenced sha256 serde = .ok (after, outcome) →
      Stepped sha256 env serde verify world event
        ⟨{ after with feed := { after.feed with treeHead := head } },
          world.log ++ group.published sha256 serde⟩
  | restarted (config : Config) (draw : StartDraw) (next : World) :
      event = .restart config draw →
      world.restart sha256 env serde verify config draw = some next →
      Stepped sha256 env serde verify world event next

theorem publishNext_eq_ok {state after : Sequencer} {message : OrderId → OrderMessage}
    {commits : Bool} {answer : Except SubmitError (OrderId × SignedHead)}
    (h : state.publishNext sha256 serde message commits = .ok (after, answer)) :
    ∃ outcome, (Group.single state message commits).sequenced sha256 serde = .ok (after, outcome) := by
  unfold Sequencer.publishNext at h
  dsimp only at h
  obtain ⟨⟨left, outcome⟩, hsequenced, h⟩ := bind_eq_ok.1 h
  cases outcome <;> cases h <;> exact ⟨_, hsequenced⟩

theorem signedTreeHead_feed {feed after : FeedState} {now : UInt64} {refused : Nat → Nat → Bool}
    {head : SignedTreeHead} (h : feed.signedTreeHead sha256 now refused = .ok (head, after)) :
    ∃ kept, after = { feed with treeHead := kept } := by
  unfold FeedState.signedTreeHead at h
  split at h
  case h_1 =>
    cases h
    exact ⟨_, rfl⟩
  case h_2 =>
    dsimp only at h
    obtain ⟨top, -, h⟩ := bind_eq_ok.1 h
    cases h
    exact ⟨_, rfl⟩

theorem sequenceDrained_eq_ok {state left : Sequencer} {epoch : String} {due : List Due}
    {c : DrainCircumstances} {marks : List PendingMark} {refused : List (Int × IntakeRefusal)}
    (h : state.sequenceDrained sha256 env serde epoch due c = .ok (left, marks, refused)) :
    ∃ after outcome head,
      (passOver env serde state epoch due c).state.sequence sha256 serde
          (passOver env serde state epoch due c).batch c.commits = .ok (after, outcome) ∧
        left = { after with feed := { after.feed with treeHead := head } } := by
  unfold Sequencer.sequenceDrained at h
  obtain ⟨⟨after, outcome⟩, hsequenced, h⟩ := bind_eq_ok.1 h
  refine ⟨after, outcome, ?_⟩
  dsimp only at h
  split_ifs at h
  · cases h
    exact ⟨_, hsequenced, rfl⟩
  · split at h
    case h_1 => cases h
    case h_2 =>
      cases h
      exact ⟨_, hsequenced, rfl⟩
    case h_3 head feed hhead =>
      obtain ⟨kept, rfl⟩ := signedTreeHead_feed hhead
      obtain ⟨_, -, h⟩ := bind_eq_ok.1 h
      cases h
      exact ⟨_, hsequenced, rfl⟩

theorem step_stepped (h : world.step sha256 env serde verify event = some next) :
    Stepped sha256 env serde verify world event next := by
  -- An event that is answered with a group.
  have sequenced (group : Group) {after : Sequencer} {outcome : Except SequenceError Unit}
      (head : Option SignedTreeHead) (hgroup : event.group env serde world.sequencer = some group)
      (hsequenced : group.sequenced sha256 serde = .ok (after, outcome))
      (hnext : next = ⟨{ after with feed := { after.feed with treeHead := head } },
        world.log ++ ((event.group env serde world.sequencer).elim []
          (Group.published sha256 serde))⟩) :
      Stepped sha256 env serde verify world event next := by
    rw [hnext, hgroup]
    exact .sequenced group after outcome head hgroup hsequenced
  -- An event that is answered without one.
  have idle {left : Sequencer} (hgroup : event.group env serde world.sequencer = none)
      (hidle : Idle env world.sequencer left)
      (hnext : next = ⟨left, world.log ++ ((event.group env serde world.sequencer).elim []
        (Group.published sha256 serde))⟩) : Stepped sha256 env serde verify world event next := by
    rw [hnext, hgroup, Option.elim_none, List.append_nil]
    exact .idle left hgroup hidle
  unfold World.step at h
  split at h
  case h_1 config draw => exact .restarted config draw next rfl h
  case h_2 hne =>
  split at h
  case h_1 => cases h
  case h_2 left hanswer =>
  have hnext := (Option.some.inj h).symm
  cases event with
  | submit signed c =>
      rw [Event.answer] at hanswer
      obtain ⟨⟨after, answer⟩, hsubmit, hleft⟩ := bind_eq_ok.1 hanswer
      cases hleft
      rw [Sequencer.submit] at hsubmit
      cases hpassed : world.sequencer.admitSubmission env signed c with
      | error refused =>
          obtain ⟨kept, error⟩ := refused
          rw [hpassed] at hsubmit
          cases hsubmit
          refine idle (by rw [Event.group, hpassed]) ?_ hnext
          rcases admit_eq_error hpassed with rfl | ⟨key, hauthorised, hpin⟩
          · exact .same
          · exact .pinned signed key _ hauthorised hpin
      | ok admitted =>
          rw [hpassed] at hsubmit
          obtain ⟨outcome, hsequenced⟩ := publishNext_eq_ok hsubmit
          exact sequenced _ after.feed.treeHead (by rw [Event.group, hpassed]) hsequenced hnext
  | submitOperator req c =>
      rw [Event.answer] at hanswer
      obtain ⟨⟨after, answer⟩, hsubmit, hleft⟩ := bind_eq_ok.1 hanswer
      cases hleft
      rw [Sequencer.submitOperator] at hsubmit
      cases hpassed : world.sequencer.admitOperator env req c with
      | error error =>
          rw [hpassed] at hsubmit
          cases hsubmit
          exact idle (by rw [Event.group, hpassed]) .same hnext
      | ok =>
          rw [hpassed] at hsubmit
          obtain ⟨outcome, hsequenced⟩ := publishNext_eq_ok hsubmit
          exact sequenced _ after.feed.treeHead (by rw [Event.group, hpassed]) hsequenced hnext
  | drain epoch due c =>
      rw [Event.answer] at hanswer
      split_ifs at hanswer with hopen
      · obtain ⟨⟨after, marks, refused⟩, hdrained, hleft⟩ := bind_eq_ok.1 hanswer
        cases hleft
        obtain ⟨kept, outcome, head, hsequenced, rfl⟩ := sequenceDrained_eq_ok hdrained
        exact sequenced ⟨_, _, _⟩ head (by rw [Event.group, if_pos hopen]) hsequenced hnext
      · cases hanswer
        exact idle (by rw [Event.group, if_neg hopen]) .same hnext
  | generate draws commits =>
      rw [Event.answer] at hanswer
      obtain ⟨⟨after, answer⟩, hgenerate, hleft⟩ := bind_eq_ok.1 hanswer
      cases hleft
      rw [Sequencer.generate] at hgenerate
      split_ifs at hgenerate with hopen
      · cases hgenerate
        exact idle (by rw [Event.group, if_pos hopen]) .same hnext
      · cases hroom : world.sequencer.feed.checkRetentionGrowth draws.length 0 0 with
        | error =>
            rw [hroom] at hgenerate
            cases hgenerate
            exact idle (by rw [Event.group, if_neg hopen, hroom]) .same hnext
        | ok =>
            rw [hroom] at hgenerate
            dsimp only at hgenerate
            obtain ⟨⟨kept, outcome⟩, hsequenced, hleft⟩ := bind_eq_ok.1 hgenerate
            cases hleft
            exact sequenced ⟨_, _, _⟩ kept.feed.treeHead (by rw [Event.group, if_neg hopen, hroom])
              hsequenced hnext
  | restart config draw => exact absurd rfl (hne config draw)

/-! ## What `sequence` leaves of a sequencer -/

/-- The published state moves as `sequence` says, and orders can only go off the generator's list. -/
theorem Group.sequenced_cases {group : Group} {after : Sequencer}
    {outcome : Except SequenceError Unit} (published : List Bytes)
    (hkeeps : Keeps sha256 group.state.feed.storage published)
    (h : group.sequenced sha256 serde = .ok (after, outcome)) :
    FeedState.Sequenced sha256 serde group.state.feed published group.batch after.feed outcome ∧
      after = { group.state with feed := after.feed, openOrders := after.openOrders } ∧
      (∀ held ∈ after.openOrders, held ∈ group.state.openOrders) ∧
      ∀ count lastId reason, outcome = .error (.notWritten count lastId reason) →
        ∀ held ∈ after.openOrders, held.id < after.feed.nextId := by
  obtain ⟨feed, answer, hsequence, hcases⟩ :=
    FeedState.sequence_cases serde hkeeps group.batch group.commits
  rw [Group.sequenced, Sequencer.sequence, hsequence] at h
  simp only [bind, Except.bind, pure, Except.pure, Except.ok.injEq, Prod.mk.injEq] at h
  obtain ⟨hafter, rfl⟩ := h
  subst hafter
  refine ⟨hcases, rfl, fun held hheld => ?_, fun count lastId reason houtcome held hheld => ?_⟩
  · dsimp only at hheld
    split at hheld
    · exact (List.mem_filter.1 hheld).1
    · exact hheld
  · subst houtcome
    exact of_decide_eq_true (List.mem_filter.1 hheld).2

theorem Group.published_of_ok {group : Group} {after : Sequencer}
    (h : group.sequenced sha256 serde = .ok (after, .ok ())) :
    group.published sha256 serde = group.batch := by
  rw [Group.published, h]

theorem Group.published_of_error {group : Group} {after : Sequencer} {error : SequenceError}
    (h : group.sequenced sha256 serde = .ok (after, .error error)) :
    group.published sha256 serde = [] := by
  rw [Group.published, h]

end Feed
end VerifiableExchange
