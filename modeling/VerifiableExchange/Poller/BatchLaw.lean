import VerifiableExchange.Poller.Turns

/-!
# BatchLaw — what a response does to the published state

Every response ends in one of a few ways, and each way says exactly what is published after it: the
batch is run and committed as a whole, or what is published stays as it was, less what that refusal
is counted under. A response of another session ends the run, and a statement the store refuses
stops execution; both are how the source means them.
-/

namespace VerifiableExchange
namespace Poller

open Lib Matcher Store

/-! ## The ways a response can end -/

namespace Published

/-- What the first head and the first session of a run teach. -/
def learnt (s : Published) (head : SignedHead) (session : String) : Published :=
  (s.pinned head.publicKey).adopted session

/-- The two states differ in their failure counters at most. -/
def SameButFailures (s t : Published) : Prop :=
  t = { s with
    feedIntegrityFailures := t.feedIntegrityFailures
    feedChainMismatches := t.feedChainMismatches }

/-- The two states differ in what the comparison of a head leaves at most. -/
def SameButMarks (s t : Published) : Prop :=
  t = { s with
    chainVerifiedAt := t.chainVerifiedAt
    feedChainMismatches := t.feedChainMismatches }

/-- The state once the store refused some more writes. -/
def Silenced (s t : Published) : Prop := ∃ refusals, t = Nat.iterate paused refusals s

theorem Silenced.refl (s : Published) : s.Silenced s := ⟨0, rfl⟩

theorem Silenced.of_heartbeat {s t : Published} (h : t = s ∨ t = s.paused) : s.Silenced t :=
  h.elim (fun heq => ⟨0, heq⟩) (fun heq => ⟨1, heq⟩)

theorem Silenced.trans {s t u : Published} (h : s.Silenced t) (h' : t.Silenced u) :
    s.Silenced u := by
  obtain ⟨m, rfl⟩ := h
  obtain ⟨n, rfl⟩ := h'
  exact ⟨n + m, (Function.iterate_add_apply paused n m s).symm⟩

end Published

/-- The session is the one the cursor counts messages of, or the first one of an empty run. -/
def Follows (s : MatcherState) (session : String) : Prop :=
  s.feedSession = some session ∨ (s.feedSession = none ∧ s.lastSeen = 0)

/-- How a response can end, for a poller `p`: what is published after it, and the database. -/
inductive Received (env : Primitives) (sign : String → Bytes) (p : Poller) :
    Option String → Option SignedHead → List ReadMessage → Published → Disk → Prop where
  /-- Execution is stopped, and nothing is asked for. -/
  | stopped {session head messages disk} (h : p.published.executionPaused = true) :
      Received env sign p session head messages p.published disk
  /-- Nothing says which history the response is from, or who stands behind it. -/
  | unsigned {session head messages after disk} (h : session = none ∨ head = none)
      (hafter : p.published.counted.Silenced after) :
      Received env sign p session head messages after disk
  /-- Another key, or a signature that does not verify. -/
  | untrusted {session head messages after disk}
      (h : ¬Trusted env p.published.matcher head session)
      (hafter : p.published.counted.Silenced after) :
      Received env sign p (some session) (some head) messages after disk
  /-- Another session, or a history shorter than the cursor: an empty run begins. -/
  | replaced {session head messages disk} (hhead : Trusted env p.published.matcher head session)
      (hsession : ¬Follows p.published.matcher session ∨ messages = []) (ledger : Ledger)
      (store : Option Handle) (hstore : store.isSome = p.store.isSome) :
      Received env sign p (some session) (some head) messages
        (p.restarted env (freshMatcher (p.published.pinned head.publicKey).matcher (some session)
          ledger (store.map fun _ => [])) (store.map Handle.runId)).published disk
  /-- No messages: the head is compared with the history the run has. -/
  | idle {session head base marked after disk}
      (hhead : Trusted env p.published.matcher head session)
      (hsession : Follows p.published.matcher session)
      (hbase : base = p.published.learnt head session ∨
        base = (p.published.pinned head.publicKey).paused)
      (hmarked : base.SameButMarks marked) (hafter : marked.Silenced after) :
      Received env sign p (some session) (some head) [] after disk
  /-- A gap or a repeat, a head that stands elsewhere, or another chain. -/
  | uncovered {session head messages counted after disk}
      (hhead : Trusted env p.published.matcher head session)
      (hsession : Follows p.published.matcher session)
      (hbatch : Uncovered env p.published.matcher messages head)
      (hcounted : (p.published.learnt head session).SameButFailures counted)
      (hafter : counted.Silenced after) :
      Received env sign p (some session) (some head) messages after disk
  /-- A message this build cannot interpret, at any position of a batch that is covered. -/
  | unread {session head messages after disk}
      (hhead : Trusted env p.published.matcher head session)
      (hsession : Follows p.published.matcher session)
      (hbatch : ¬Uncovered env p.published.matcher messages head)
      (hunread : firstUnread messages ≠ none)
      (hafter : (p.published.learnt head session).Silenced after) :
      Received env sign p (some session) (some head) messages after disk
  /-- Everything holds, and every message is run in order and committed. -/
  | accepted {session head messages disk} (hhead : Trusted env p.published.matcher head session)
      (hsession : Follows p.published.matcher session)
      (hbatch : ¬Uncovered env p.published.matcher messages head)
      (hread : firstUnread messages = none) (matcher : MatcherState)
      (hrun : MatcherState.run env (p.published.learnt head session).matcher (logOf messages) =
        .ok matcher)
      (hcommitted : ∀ store, p.store = some store → CommittedAs env sign p store matcher disk) :
      Received env sign p (some session) (some head) messages
        (ranTo (p.published.learnt head session) head matcher p.store.isSome) disk
  /-- The store refused a write before the batch was committed. -/
  | refused {session head messages before after disk}
      (hhead : Trusted env p.published.matcher head session)
      (hbefore : before = p.published ∨ before = p.published.pinned head.publicKey ∨
        before = p.published.learnt head session)
      (hafter : before.paused.Silenced after) :
      Received env sign p (some session) (some head) messages after disk

/-- A batch that was refused is refused whatever is written after it. -/
theorem Applied.of_rejection {env : Primitives} {sign : String → Bytes} {p p' : Poller}
    {messages : List ReadMessage} {head : SignedHead} {rejection : BatchRejection} {disk : Disk}
    (h : Applied env sign p messages head (p', some rejection) disk) (disk' : Disk) :
    Applied env sign p messages head (p', some rejection) disk' := by
  cases h with
  | uncovered hrunning h => exact .uncovered hrunning h
  | unread hrunning h hunread => exact .unread hrunning h hunread

/-! ## A page of the session the run follows -/

section

variable {env : Primitives} {sign : String → Bytes} {pid : Int} {p q : Poller} {disk : Disk}

theorem checkIdleChain_marks (p : Poller) (head : SignedHead) :
    p.published.SameButMarks (p.checkIdleChain head).published := by
  unfold checkIdleChain
  split
  · rfl
  · split
    · rfl
    · split <;> rfl

/-- The poller once it looked at the head and the session of a page: it knows both, or the store
refused to keep the session. -/
structure Learnt (env : Primitives) (p : Poller) (head : SignedHead) (session : String)
    (q : Poller) : Prop where
  running : p.published.executionPaused = false
  trusted : Trusted env p.published.matcher head session
  follows : Follows p.published.matcher session
  store : q.store = p.store
  committed : q.committed = p.committed
  published : q.published = p.published.learnt head session ∨
    (q.published = (p.published.pinned head.publicKey).paused ∧ p.published.matcher.lastSeen = 0)

variable {head : SignedHead} {session : String} {messages : List ReadMessage}

/-- An empty run that took the place of this one, or could not. -/
theorem received_restarted {p' : Poller} (htrusted : Trusted env p.published.matcher head session)
    (hsession : ¬Follows p.published.matcher session ∨ messages = [])
    (hq : q.published = p.published.pinned head.publicKey ∨
      q.published = p.published.learnt head session)
    (hstore : q.store.isSome = p.store.isSome) (h : Restarted env q (some session) p') :
    Received env sign p (some session) (some head) messages p'.published disk := by
  rcases h with hpaused | ⟨ledger, store, hsome, hfresh⟩
  · rw [hpaused]
    exact .refused htrusted (hq.elim (fun heq => .inr (.inl heq)) (fun heq => .inr (.inr heq)))
      (.refl _)
  · have hsame : p'.published = (p.restarted env (freshMatcher
        (p.published.pinned head.publicKey).matcher (some session) ledger
          (store.map fun _ => [])) (store.map Handle.runId)).published := by
      rw [hfresh]
      rcases hq with heq | heq
      · unfold restarted
        rw [heq]
        rfl
      · unfold restarted
        rw [heq]
        rfl
    rw [hsame]
    exact .replaced htrusted hsession ledger store (hsome.trans hstore)

namespace Learnt

theorem pubkey (h : Learnt env p head session q) :
    q.published.matcher.feedPubkey.isSome = true := by
  have hsome : (p.published.matcher.feedPubkey.or (some head.publicKey)).isSome = true := by
    cases p.published.matcher.feedPubkey <;> rfl
  rcases h.published with heq | ⟨heq, -⟩
  · rw [heq]
    exact hsome
  · rw [heq]
    exact hsome

/-- A batch that was taken, as a response of the page it came in. -/
theorem received {answer : Poller × Option BatchRejection} (h : Learnt env p head session q)
    (happlied : Applied env sign q messages head answer disk) {after : Published}
    (hafter : answer.1.published.Silenced after)
    (hsame : answer.2 = none → after = answer.1.published) :
    Received env sign p (some session) (some head) messages after disk := by
  rcases h.published with heq | ⟨heq, -⟩
  · cases happlied with
    | stopped hstopped =>
        rw [heq] at hstopped
        exact absurd (hstopped.symm.trans h.running) (by decide)
    | uncovered _ huncovered =>
        rw [heq] at huncovered hafter
        have hcounted : (p.published.learnt head session).SameButFailures
          (p.published.learnt head session) := rfl
        exact .uncovered h.trusted h.follows huncovered hcounted hafter
    | unread _ hcovered hunread =>
        rw [heq] at hcovered hafter
        exact .unread h.trusted h.follows hcovered hunread hafter
    | refused =>
        refine .refused h.trusted (.inr (.inr rfl)) ?_
        rw [← heq]
        exact hafter
    | @committed _ _ matcher _ hcovered hread hrun hpublished hdisk =>
        rw [hsame rfl, hpublished, heq, h.store]
        rw [heq] at hcovered hrun
        refine .accepted h.trusted h.follows hcovered hread matcher hrun (fun store hstore => ?_)
        obtain ⟨root, pending, kept, tables, now, htaken, hcommit⟩ := hdisk store
          (h.store.trans hstore)
        refine ⟨root, pending, kept, tables, now, htaken, ?_⟩
        rw [← hcommit]
        unfold claimFor
        rw [h.committed]
  · have hstopped : q.published.executionPaused = true := by
      rw [heq]
      rfl
    cases happlied with
    | stopped =>
        refine .refused h.trusted (.inr (.inl rfl)) ?_
        rw [← heq]
        exact hafter
    | uncovered hrunning | unread hrunning | refused hrunning | committed hrunning =>
        exact absurd (hstopped.symm.trans hrunning) (by decide)

/-- A page without messages of a feed that is not behind the cursor. -/
theorem ensures_idle {due : Bool} (h : Learnt env p head session q) (hheld : Held env q disk) :
    Durable.Ensures (do
        let q ← (q.checkIdleChain head).commit env sign
        q.heartbeat due) disk (Sound env)
      (fun p' disk' => Held env p' disk' ∧
        Received env sign p (some session) (some head) [] p'.published disk') := by
  refine .bind (ensures_commit (hheld.checkIdleChain head))
    (fun p₁ disk₁ ⟨h₁, _, hdone₁⟩ => ?_)
  refine .mono (ensures_heartbeat h₁) (fun p' disk' hdone => ⟨hdone.1, ?_⟩)
  have hcommitted : (q.checkIdleChain head).published.Silenced p₁.published :=
    .of_heartbeat (hdone₁.imp_left And.left)
  exact .idle h.trusted h.follows (h.published.imp_right And.left) (checkIdleChain_marks q head)
    (hcommitted.trans (.of_heartbeat hdone.2))

/-- A page of the session, with messages or without. -/
theorem ensures_takePage {due : Bool} {newest : Option OrderId} (h : Learnt env p head session q)
    (hheld : Held env q disk) :
    Durable.Ensures (q.takePage env sign pid due session head messages newest) disk (Sound env)
      (fun p' disk' => Held env p' disk' ∧
        Received env sign p (some session) (some head) messages p'.published disk') := by
  unfold takePage
  by_cases hempty : messages = []
  · subst hempty
    simp only [if_true]
    split
    · rename_i hprobe
      have hlearnt : q.published = p.published.learnt head session := by
        refine h.published.resolve_right (fun hpaused => ?_)
        obtain ⟨-, hbehind⟩ := Bool.and_eq_true_iff.1 hprobe
        obtain ⟨newest, -, hlt⟩ := (Option.any_eq_true _ _).1 hbehind
        have hzero : q.published.matcher.lastSeen = 0 := by
          rw [hpaused.1]
          exact hpaused.2
        rw [hzero] at hlt
        exact absurd (of_decide_eq_true hlt) (Nat.not_lt_zero _)
      have hrunning : q.published.executionPaused = false := by
        rw [hlearnt]
        exact h.running
      refine .mono (ensures_startNewRun (hheld.of_same ⟨rfl, rfl, rfl, rfl, rfl, id⟩) hrunning)
        (fun p' disk' hdone => ⟨hdone.1, ?_⟩)
      exact received_restarted h.trusted (.inr rfl) (.inr hlearnt) (by rw [h.store]) hdone.2
    · have hsame : Learnt env p head session { q with
          emptyPolls := if decide (EMPTY_POLLS_BEFORE_PROBE ≤ q.emptyPolls + 1) = true then 0
            else q.emptyPolls + 1 } := { h with }
      exact hsame.ensures_idle (hheld.of_same ⟨rfl, rfl, rfl, rfl, rfl, id⟩)
  · simp only [hempty, if_false]
    refine .bind (ensures_applyCommittedBatch (hheld.of_same ⟨rfl, rfl, rfl, rfl, rfl, id⟩)
      h.pubkey hempty) (fun answer disk₁ ⟨h₁, happlied⟩ => ?_)
    have hsame : Learnt env p head session { q with emptyPolls := 0 } := { h with }
    obtain ⟨p₁, rejection⟩ := answer
    cases rejection with
    | none => exact .pure h₁.sound ⟨h₁, hsame.received happlied (.refl _) (fun _ => rfl)⟩
    | some rejection =>
        refine .mono (ensures_heartbeat h₁) (fun p' disk' hdone => ⟨hdone.1, ?_⟩)
        exact hsame.received (happlied.of_rejection disk') (.of_heartbeat hdone.2)
          (fun hnone => by cases hnone)

end Learnt

/-! ## One turn of the loop -/

/-- A page with a trusted head, by the session it names. -/
theorem ensures_session {due : Bool} {newest : Option OrderId} (h : Held env q disk)
    (hrunning : p.published.executionPaused = false)
    (htrusted : Trusted env p.published.matcher head session)
    (hpublished : q.published = p.published.pinned head.publicKey) (hstore : q.store = p.store)
    (hcommitted : q.committed = p.committed) :
    Durable.Ensures (
        match q.published.matcher.feedSession with
        | some known =>
            if known ≠ session then q.startNewRun env sign pid (some session)
            else q.takePage env sign pid due session head messages newest
        | none =>
            if 0 < q.published.matcher.lastSeen then q.startNewRun env sign pid (some session)
            else do
              let q ← q.adoptSession env session
              q.takePage env sign pid due session head messages newest) disk (Sound env)
      (fun p' disk' => Held env p' disk' ∧
        Received env sign p (some session) (some head) messages p'.published disk') := by
  have hrunning' : q.published.executionPaused = false := by
    rw [hpublished]
    exact hrunning
  have hknown : p.published.matcher.feedSession = q.published.matcher.feedSession := by
    rw [hpublished]
    rfl
  have hseen : p.published.matcher.lastSeen = q.published.matcher.lastSeen := by
    rw [hpublished]
    rfl
  have hnewRun (hother : ¬Follows p.published.matcher session) :
      Durable.Ensures (q.startNewRun env sign pid (some session)) disk (Sound env)
        (fun p' disk' => Held env p' disk' ∧
          Received env sign p (some session) (some head) messages p'.published disk') :=
    .mono (ensures_startNewRun h hrunning') (fun p' disk' hdone => ⟨hdone.1,
      received_restarted htrusted (.inl hother) (.inl hpublished) (by rw [hstore]) hdone.2⟩)
  cases hsession : q.published.matcher.feedSession with
  | some known =>
      simp only
      split
      · rename_i hother
        refine hnewRun (fun hfollows => ?_)
        unfold Follows at hfollows
        rw [hknown, hsession] at hfollows
        rcases hfollows with hsame | ⟨hnone, -⟩
        · exact hother (Option.some.inj hsame)
        · cases hnone
      · rename_i hsame
        have hfollows : p.published.matcher.feedSession = some session := by
          rw [hknown, hsession, not_not.1 hsame]
        have hlearnt : p.published.learnt head session = p.published.pinned head.publicKey :=
          Published.adopted_of_some (s := p.published.pinned head.publicKey) hfollows session
        exact Learnt.ensures_takePage ⟨hrunning, htrusted, .inl hfollows, hstore, hcommitted,
          .inl (hpublished.trans hlearnt.symm)⟩ h
  | none =>
      simp only
      split
      · rename_i hpos
        refine hnewRun (fun hfollows => ?_)
        unfold Follows at hfollows
        rw [hknown, hsession, hseen] at hfollows
        rcases hfollows with hsome | ⟨-, hzero⟩
        · cases hsome
        · exact hpos.ne' hzero
      · rename_i hzero
        have hzero' : q.published.matcher.lastSeen = 0 := Nat.eq_zero_of_not_pos hzero
        refine .bind (ensures_adoptSession h hrunning' hsession hzero')
          (fun q₁ disk₁ ⟨h₁, hstore₁, hcommitted₁, hdone₁⟩ => ?_)
        refine Learnt.ensures_takePage ⟨hrunning, htrusted,
          .inr ⟨hknown.trans hsession, hseen.trans hzero'⟩, hstore₁.trans hstore,
          hcommitted₁.trans hcommitted, ?_⟩ h₁
        rw [hpublished] at hdone₁
        exact hdone₁.imp id (fun hpaused => ⟨hpaused, hseen.trans hzero'⟩)

/-- Every turn keeps the poller at the end of its claims, and a page ends in one of the ways a
response can end. -/
theorem ensures_poll {answer : Answer} {due : Bool} (h : Held env p disk) :
    Durable.Ensures (p.poll env sign pid answer due) disk (Sound env)
      (fun p' disk' => Held env p' disk' ∧ ∀ session head messages newest,
        answer = .page session head messages newest →
          Received env sign p session head messages p'.published disk') := by
  unfold poll
  cases hrunning : p.published.executionPaused with
  | true =>
      exact .pure h.sound ⟨h, fun _ _ _ _ _ => .stopped hrunning⟩
  | false =>
      simp only [Bool.false_eq_true, if_false]
      match answer with
      | .unreadable =>
          exact .mono (ensures_heartbeat h) (fun p' disk' hdone => ⟨hdone.1, fun _ _ _ _ heq => by
            cases heq⟩)
      | .page none head messages newest =>
          refine .mono (ensures_heartbeat h.countIntegrityFailure) (fun p' disk' hdone =>
            ⟨hdone.1, fun _ _ _ _ heq => ?_⟩)
          cases heq
          exact .unsigned (.inl rfl) (.of_heartbeat hdone.2)
      | .page (some session) none messages newest =>
          refine .mono (ensures_heartbeat h.countIntegrityFailure) (fun p' disk' hdone =>
            ⟨hdone.1, fun _ _ _ _ heq => ?_⟩)
          cases heq
          exact .unsigned (.inr rfl) (.of_heartbeat hdone.2)
      | .page (some session) (some head) messages newest =>
          suffices hpage : Durable.Ensures _ disk (Sound env) (fun p' disk' => Held env p' disk' ∧
              Received env sign p (some session) (some head) messages p'.published disk') from
            .mono hpage (fun p' disk' hdone => ⟨hdone.1, fun _ _ _ _ heq => by
              cases heq; exact hdone.2⟩)
          refine .bind (ensures_acceptHead h hrunning) (fun answer disk₁ ⟨h₁, hseen⟩ => ?_)
          cases hseen with
          | untrusted huntrusted =>
              refine .mono (ensures_heartbeat h₁) (fun p' disk' hdone => ⟨hdone.1, ?_⟩)
              exact .untrusted huntrusted (.of_heartbeat hdone.2)
          | refused htrusted =>
              refine .mono (ensures_heartbeat h₁) (fun p' disk' hdone => ⟨hdone.1, ?_⟩)
              exact .refused htrusted (.inl rfl) (.of_heartbeat hdone.2)
          | trusted htrusted hpublished hstore hcommitted =>
              exact ensures_session h₁ hrunning htrusted hpublished hstore hcommitted

/-! ## Processes one after the other -/

theorem ensures_turns {life : Lifetime} :
    ∀ {turns : List (Answer × Bool)} {p : Poller} {disk : Disk}, Held env p disk →
      Durable.Ensures (turns.foldlM (fun p turn => p.poll env life.sign life.settings.pid turn.1
        turn.2) p) disk (Sound env) (fun p' disk' => Held env p' disk')
  | [], _, _, h => .pure h.sound h
  | _ :: _, _, _, h => by
      rw [List.foldlM_cons]
      exact .bind (ensures_poll h) (fun _ _ hdone => ensures_turns hdone.1)

theorem ensures_live {life : Lifetime} (h : Sound env disk) :
    Durable.Ensures (life.live env) disk (Sound env) (fun p disk' => Held env p disk') :=
  .bind (ensures_launch h) (fun _ _ hheld => ensures_turns hheld)

theorem ensures_serve {life : Lifetime} (h : Sound env disk) :
    Durable.Ensures (life.serve env) disk (Sound env) (fun p disk' => Held env p disk') :=
  .bind (ensures_live h) (fun _ _ hheld => ensures_finish hheld)

theorem sound_empty (env : Primitives) : Sound env .empty := fun _ =>
  { chain := .nil
    cursor := fun _ hpoint => by cases hpoint
    keys := fun _ he => by cases he
    pinned := fun _ hrow => by cases hrow
    unclaimed := fun _ => ⟨fun _ => rfl, fun _ => rfl, fun _ => rfl, fun _ hpoint => by
      cases hpoint⟩
    unopened := fun _ => rfl }

theorem sound_after (env : Primitives) (lives : List (Lifetime × List (Fate Int StoreError))) :
    Sound env (Disk.after env lives) := by
  induction lives using List.reverseRecOn with
  | nil => exact sound_empty env
  | append_singleton lives life ih =>
      unfold Disk.after at ih ⊢
      rw [List.foldl_append]
      exact (ensures_serve ih life.2).1

end

namespace Sample

def otherSession : String := "c81e4b0d7f2a496395d3e6a1b08c7f54"

/-- The head over the empty history of the first session. -/
def firstHead : SignedHead where
  lastId := 0
  chain := MatcherState.emptyChain
  publicKey := MatcherState.Sample.operatorKey
  signature := MatcherState.Sample.hex ("03932270109b8c3416c8ba6cdc51f120a9912250cf6aad7371bef033b2fa3172" ++
    "692b24617402d3cfaaf00354d57c3637542d9a947efe88ad85de5ab15cca3505")

/-- The head over the first message of the other session. -/
def otherHead : SignedHead where
  lastId := 1
  chain := MatcherState.Sample.hex "ad31866b580c62e8b6c6a71b87688635c5d3b85b04c07c4ee18b63f03e14cf4a"
  publicKey := MatcherState.Sample.operatorKey
  signature := MatcherState.Sample.hex ("e46c6080e0fdbd3f9ecd83885834fb43cb7e6998577410670b51b58e96bef00e" ++
    "a70de693c3a3df994eddc80d2882566f0b11e45967c0b0f0904d942e4bc01c0a")

/-- The third-party functions at the values these two heads give them. -/
def env : Primitives :=
  { MatcherState.Sample.env with
    verifyStrict := fun key statement signed =>
      key = MatcherState.Sample.hex MatcherState.Sample.operatorKey &&
        ((signed = firstHead.signature && statement =
            headStatement MatcherState.Sample.session firstHead.lastId firstHead.chain) ||
          (signed = otherHead.signature && statement =
            headStatement otherSession otherHead.lastId otherHead.chain)) }

def page : List ReadMessage :=
  [⟨MatcherState.Sample.listing.2, .ok MatcherState.Sample.listing.1⟩]

/-- A process without a database that has read one page of the first session. -/
def life : Lifetime where
  settings :=
    { stateDb := none, feedUrl := "http://127.0.0.1:3000", graceMs := 30000, procfs := none, pid := 7,
      reset := false, ledger := .syntheticLegacy,
      claimKey := MatcherState.Sample.hex MatcherState.Sample.operatorKey, validators := 0 }
  sign := fun _ => []
  turns := [(.page (some MatcherState.Sample.session) (some firstHead) [] none, false)]

def opened : Option Poller := (life.live env .empty []).1

def ended : Option Poller :=
  opened.bind (fun p => (p.poll env life.sign life.settings.pid
    (.page (some otherSession) (some otherHead) page none) false .empty []).1)

end Sample

end Poller
end VerifiableExchange
