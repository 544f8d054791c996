import VerifiableExchange.Poller.Resume

/-!
# Turns — what each function of the poller leaves

Every function of the poller keeps the claims of its run in one chain wherever it is cut, and leaves
the poller tied to them. With that goes what it leaves published: each function has one rule, and
the turns of the loop are put together from the rules.
-/

namespace VerifiableExchange
namespace Poller

open Lib Matcher Store

/-! ## What is published after a response -/

namespace Published

/-- One more response refused because it cannot be trusted. -/
def counted (s : Published) : Published :=
  { s with feedIntegrityFailures := saturatingAddU64 s.feedIntegrityFailures 1 }

/-- One more failure of the store, which stops execution. -/
def paused (s : Published) : Published :=
  { s with
    executionPaused := true
    stateCommitFailures := saturatingAddU64 s.stateCommitFailures 1 }

/-- The first key whose head verified is fixed. -/
def pinned (s : Published) (key : String) : Published :=
  { s with matcher := { s.matcher with feedPubkey := s.matcher.feedPubkey.or (some key) } }

/-- The first session is taken. -/
def adopted (s : Published) (session : String) : Published :=
  { s with matcher := { s.matcher with feedSession := s.matcher.feedSession.or (some session) } }

theorem pinned_of_some {s : Published} {known : String} (h : s.matcher.feedPubkey = some known)
    (key : String) : s.pinned key = s := by
  unfold pinned
  rw [h, Option.some_or, ← h]

theorem adopted_of_some {s : Published} {known : String} (h : s.matcher.feedSession = some known)
    (session : String) : s.adopted session = s := by
  unfold adopted
  rw [h, Option.some_or, ← h]

end Published

/-- The head names the key this run fixed, if it fixed one, and that key signed it. -/
structure Trusted (env : Primitives) (s : MatcherState) (head : SignedHead) (session : String) :
    Prop where
  key : ∀ pinned, s.feedPubkey = some pinned → pinned = head.publicKey
  verified : verifyHead env session head = true

/-! ## The invariant of the poller -/

/-- The poller stands where the claims of its run end. -/
structure Current (env : Primitives) (p : Poller) (store : Handle) (tables : Tables) : Prop where
  committed : p.committed.lastSeen = p.published.matcher.lastSeen
  root : p.committedRoot = stateRoot env p.published.matcher
  tied : Tied env tables store.runId p.published.matcher

/-- What holds of a poller and its database between two statements. A poller that stopped in the
middle of starting a run has nothing left to write. -/
structure Held (env : Primitives) (p : Poller) (disk : Disk) : Prop where
  sound : Sound env disk
  steady : ∀ store, p.store = some store → p.published.matcher.pending = some [] ∧
    p.published.durableLastSeen = p.published.matcher.lastSeen
  current : ∀ store, p.store = some store → Current env p store disk.tables ∨
    (p.published.executionPaused = true ∧ counters p.published.matcher = p.committed)

/-- The two pollers hold the same engine, over the same claims. -/
structure SameEngine (p p' : Poller) : Prop where
  store : p'.store = p.store
  committed : p'.committed = p.committed
  committedRoot : p'.committedRoot = p.committedRoot
  matcher : p'.published.matcher = p.published.matcher
  durable : p'.published.durableLastSeen = p.published.durableLastSeen
  stopped : p.published.executionPaused = true → p'.published.executionPaused = true

namespace Held

variable {env : Primitives} {p p' : Poller} {disk : Disk} {tables : Tables}

theorem of_same (h : Held env p disk) (hsame : SameEngine p p') : Held env p' disk where
  sound := h.sound
  steady store hstore := by
    rw [hsame.matcher, hsame.durable]
    exact h.steady store (hsame.store ▸ hstore)
  current store hstore := by
    rcases h.current store (hsame.store ▸ hstore) with hcurrent | ⟨hstopped, hcounters⟩
    · refine .inl ⟨?_, ?_, ?_⟩
      · rw [hsame.committed, hsame.matcher]
        exact hcurrent.committed
      · rw [hsame.committedRoot, hsame.matcher]
        exact hcurrent.root
      · rw [hsame.matcher]
        exact hcurrent.tied
    · refine .inr ⟨hsame.stopped hstopped, ?_⟩
      rw [hsame.matcher, hsame.committed]
      exact hcounters

theorem of_kept (h : Held env p disk) (hkept : ∀ run, KeptRun disk.tables tables run) :
    Held env p { disk with tables := tables } where
  sound := h.sound.of_kept hkept
  steady := h.steady
  current store hstore := (h.current store hstore).imp_left fun hcurrent =>
    ⟨hcurrent.committed, hcurrent.root, hcurrent.tied.of_kept (hkept _)⟩

theorem pause (h : Held env p disk) : Held env p.pause disk :=
  h.of_same ⟨rfl, rfl, rfl, rfl, rfl, fun _ => rfl⟩

theorem countIntegrityFailure (h : Held env p disk) : Held env p.countIntegrityFailure disk :=
  h.of_same ⟨rfl, rfl, rfl, rfl, rfl, id⟩

theorem checkIdleChain (h : Held env p disk) (head : SignedHead) :
    Held env (p.checkIdleChain head) disk := by
  unfold Poller.checkIdleChain
  split
  · exact h
  · split
    · exact h
    · split <;> exact h.of_same ⟨rfl, rfl, rfl, rfl, rfl, id⟩

theorem current_of_running (h : Held env p disk) (hrunning : p.published.executionPaused = false)
    {store : Handle} (hstore : p.store = some store) : Current env p store disk.tables := by
  rcases h.current store hstore with hcurrent | ⟨hstopped, -⟩
  · exact hcurrent
  · rw [hrunning] at hstopped
    cases hstopped

/-- A poller without a database has nothing to keep but the database itself. -/
theorem of_none (hsound : Sound env disk) (hstore : p.store = none) : Held env p disk where
  sound := hsound
  steady store h := by
    rw [hstore] at h
    cases h
  current store h := by
    rw [hstore] at h
    cases h

/-- A run that consumed nothing learns its session or its key: the root of its first claim moves
with them. -/
theorem learn (h : Held env p disk) (hrunning : p.published.executionPaused = false)
    (hkept : ∀ run, KeptRun disk.tables tables run) {s : MatcherState}
    (hgenesis : AtGenesis p.published.matcher → AtGenesis s)
    (hpending : s.pending = p.published.matcher.pending)
    (hzero : ∀ store, p.store = some store → p.published.matcher.lastSeen = 0)
    (hrecorded : ∀ store, p.store = some store → Recorded tables store.runId s) :
    Held env ((p.withMatcher s).rootAtGenesis env) { disk with tables := tables } := by
  have hstores : ((p.withMatcher s).rootAtGenesis env).store = p.store := by
    unfold rootAtGenesis
    split <;> rfl
  have hpublished : ((p.withMatcher s).rootAtGenesis env).published =
      { p.published with matcher := s } := by
    unfold rootAtGenesis
    split <;> rfl
  refine ⟨h.sound.of_kept hkept, fun store hstore => ?_, fun store hstore => .inl ?_⟩
  · rw [hstores] at hstore
    have hcurrent := h.current_of_running hrunning hstore
    obtain ⟨hsteady, hdurable⟩ := h.steady store hstore
    have hs := hgenesis (hcurrent.tied.genesis (hzero store hstore))
    rw [hpublished]
    refine ⟨hpending.trans hsteady, ?_⟩
    change p.published.durableLastSeen = s.lastSeen
    rw [hdurable, hzero store hstore, hs.lastSeen]
  · rw [hstores] at hstore
    have hcurrent := h.current_of_running hrunning hstore
    have hs := hgenesis (hcurrent.tied.genesis (hzero store hstore))
    have hcommitted : p.committed.lastSeen = 0 := hcurrent.committed.trans (hzero store hstore)
    have hrooted : (p.withMatcher s).rootAtGenesis env =
        { p.withMatcher s with committedRoot := stateRoot env s } := by
      unfold rootAtGenesis
      rw [if_pos (show (p.withMatcher s).committed.lastSeen = 0 from hcommitted)]
      rfl
    rw [hrooted]
    have hnil := hcurrent.tied.claims_eq_nil (h.sound store.runId) (hzero store hstore)
    refine ⟨hcommitted.trans hs.lastSeen.symm, rfl, .of_genesis ?_ hs (hrecorded store hstore)⟩
    rw [(hkept store.runId).rows.claimsOf]
    exact hnil

end Held

section

variable {env : Primitives} {sign : String → Bytes} {p : Poller} {disk : Disk}

/-! ## Single statements -/

/-- A statement on the tables and what follows it. -/
theorem ensures_statement {α β : Type} {Good : Disk → Prop} {Post : β → Disk → Prop}
    {run : Tables → Int → Except StoreError (Tables × α)} {next : Except StoreError α → Stored β}
    (hgood : Good disk)
    (hruns : ∀ now tables a, run disk.tables now = .ok (tables, a) →
      Good { disk with tables := tables } ∧
        Durable.Ensures (next (.ok a)) { disk with tables := tables } Good Post)
    (hrefused : ∀ error, Durable.Ensures (next (.error error)) disk Good Post) :
    Durable.Ensures (statement run >>= next) disk Good Post := by
  refine Durable.Ensures.attempt_bind hgood (fun now disk' a h => ?_) hrefused
  obtain ⟨⟨tables, answer⟩, hrun, h⟩ := bind_eq_ok.1 h
  cases h
  exact hruns now tables a hrun

theorem ensures_write {β : Type} {Good : Disk → Prop} {Post : β → Disk → Prop}
    {run : Tables → Int → Except StoreError Tables} {next : Except StoreError Unit → Stored β}
    (hgood : Good disk)
    (hruns : ∀ now tables, run disk.tables now = .ok tables →
      Good { disk with tables := tables } ∧
        Durable.Ensures (next (.ok ())) { disk with tables := tables } Good Post)
    (hrefused : ∀ error, Durable.Ensures (next (.error error)) disk Good Post) :
    Durable.Ensures (write run >>= next) disk Good Post := by
  refine ensures_statement hgood (fun now tables a h => ?_) hrefused
  obtain ⟨tables', hrun, h⟩ := bind_eq_ok.1 h
  cases h
  exact hruns now tables hrun

theorem ensures_heartbeat {due : Bool} (h : Held env p disk) :
    Durable.Ensures (p.heartbeat due) disk (Sound env) (fun p' disk' => Held env p' disk' ∧
      (p'.published = p.published ∨ p'.published = p.published.paused)) := by
  unfold heartbeat
  split
  · refine ensures_write h.sound (fun now tables hrun => ?_) (fun error => ?_)
    · have hheld := h.of_kept (fun run => .of_updateOwned hrun (fun _ hkey => hkey) run)
      exact ⟨hheld.sound, .pure hheld.sound ⟨hheld, .inl rfl⟩⟩
    · exact .pure h.sound ⟨h.pause, .inr rfl⟩
  · exact .pure h.sound ⟨h, .inl rfl⟩

/-! ## The head and the session -/

/-- What the poller is left with once it looked at a head. -/
inductive HeadSeen (env : Primitives) (p : Poller) (head : SignedHead) (session : String) :
    Poller × Bool → Prop where
  | untrusted (h : ¬Trusted env p.published.matcher head session) :
      HeadSeen env p head session (p.countIntegrityFailure, false)
  | refused (h : Trusted env p.published.matcher head session) :
      HeadSeen env p head session (p.pause, false)
  | trusted {p' : Poller} (h : Trusted env p.published.matcher head session)
      (hpublished : p'.published = p.published.pinned head.publicKey)
      (hstore : p'.store = p.store) (hcommitted : p'.committed = p.committed) :
      HeadSeen env p head session (p', true)

theorem rootAtGenesis_kept (p : Poller) : (p.rootAtGenesis env).published = p.published ∧
    (p.rootAtGenesis env).store = p.store ∧ (p.rootAtGenesis env).committed = p.committed := by
  unfold rootAtGenesis
  split <;> exact ⟨rfl, rfl, rfl⟩

theorem recorded_setFeedPubkey {tables tables' : Tables} {store : Handle} {key : String}
    {s : MatcherState} (h : tables.setFeedPubkey store key = .ok tables') :
    Recorded tables' store.runId s := by
  intro _ row hrow
  obtain ⟨_, -, -, rfl⟩ := Tables.updateOwned_eq_ok.1 h
  rw [SortedMap.get?_insert_self] at hrow
  cases hrow
  rfl

theorem ensures_acceptHead {head : SignedHead} {session : String} (h : Held env p disk)
    (hrunning : p.published.executionPaused = false) :
    Durable.Ensures (p.acceptHead env head session) disk (Sound env)
      (fun answer disk' => Held env answer.1 disk' ∧ HeadSeen env p head session answer) := by
  unfold acceptHead
  cases hpinned : p.published.matcher.feedPubkey with
  | some known =>
      by_cases hkey : known = head.publicKey
      · cases hverified : verifyHead env session head with
        | false =>
            simp only [Option.any_some, hkey, ne_eq, not_true_eq_false, decide_false, if_false,
              Bool.not_false, if_true, Bool.false_eq_true]
            have huntrusted : ¬Trusted env p.published.matcher head session := fun htrusted => by
              have htrue := htrusted.verified
              rw [hverified] at htrue
              cases htrue
            exact .pure h.sound ⟨h.countIntegrityFailure, .untrusted huntrusted⟩
        | true =>
            simp only [Option.any_some, hkey, ne_eq, not_true_eq_false, decide_false, if_false,
              Bool.not_true, Bool.false_eq_true, Option.isSome_some, if_true]
            have htrusted : Trusted env p.published.matcher head session :=
              ⟨fun pinned hsome => Option.some.inj (hpinned.symm.trans hsome) ▸ hkey, hverified⟩
            exact .pure h.sound
              ⟨h, .trusted htrusted (Published.pinned_of_some hpinned _).symm rfl rfl⟩
      · simp only [Option.any_some, ne_eq, hkey, not_false_eq_true, decide_true, if_true]
        exact .pure h.sound ⟨h.countIntegrityFailure,
          .untrusted (fun htrusted => hkey (htrusted.key known hpinned))⟩
  | none =>
      cases hverified : verifyHead env session head with
      | false =>
          simp only [Option.any_none, Bool.false_eq_true, if_false, Bool.not_false, if_true]
          have huntrusted : ¬Trusted env p.published.matcher head session := fun htrusted => by
            have htrue := htrusted.verified
            rw [hverified] at htrue
            cases htrue
          exact .pure h.sound ⟨h.countIntegrityFailure, .untrusted huntrusted⟩
      | true =>
          simp only [Option.any_none, Bool.false_eq_true, if_false, Bool.not_true,
            Option.isSome_none]
          have htrusted : Trusted env p.published.matcher head session :=
            ⟨fun pinned hsome => (by rw [hpinned] at hsome; cases hsome), hverified⟩
          have hseen : HeadSeen env p head session ((p.withMatcher { p.published.matcher with
              feedPubkey := some head.publicKey }).rootAtGenesis env, true) := by
            obtain ⟨hpublished, hstore, hcommitted⟩ := @rootAtGenesis_kept env
              (p.withMatcher { p.published.matcher with feedPubkey := some head.publicKey })
            refine .trusted htrusted (hpublished.trans ?_) hstore hcommitted
            unfold withMatcher Published.pinned
            rw [hpinned, Option.none_or]
          cases hstore : p.store with
          | none =>
              refine .pure h.sound ⟨.of_none h.sound ?_, hseen⟩
              exact (rootAtGenesis_kept _).2.1.trans hstore
          | some store =>
              refine ensures_write h.sound (fun now tables hrun => ?_) (fun error => ?_)
              · have hkept : ∀ run, KeptRun disk.tables tables run := fun run =>
                  .of_updateOwned hrun (fun _ _ => rfl) run
                -- A run that consumed a message has its key already.
                have hzero : p.published.matcher.lastSeen = 0 := by
                  by_contra hne
                  have hsome := (h.current_of_running hrunning hstore).tied.pinned
                    (Nat.pos_of_ne_zero hne)
                  rw [hpinned] at hsome
                  cases hsome
                have hheld := @Held.learn _ _ _ _ h hrunning hkept
                  { p.published.matcher with feedPubkey := some head.publicKey }
                  (fun hgenesis => { hgenesis with }) rfl (fun _ _ => hzero)
                  (fun store' hstore' => by
                    cases hstore.symm.trans hstore'
                    exact recorded_setFeedPubkey hrun)
                exact ⟨hheld.sound, .pure hheld.sound ⟨hheld, hseen⟩⟩
              · exact .pure h.sound ⟨h.pause, .refused htrusted⟩

theorem ensures_adoptSession {session : String} (h : Held env p disk)
    (hrunning : p.published.executionPaused = false)
    (hsession : p.published.matcher.feedSession = none)
    (hzero : p.published.matcher.lastSeen = 0) :
    Durable.Ensures (p.adoptSession env session) disk (Sound env) (fun p' disk' =>
      Held env p' disk' ∧ p'.store = p.store ∧ p'.committed = p.committed ∧
        (p'.published = p.published.adopted session ∨ p'.published = p.published.paused)) := by
  unfold adoptSession
  have hadopted : (p.withMatcher { p.published.matcher with
      feedSession := some session }).published = p.published.adopted session := by
    unfold withMatcher Published.adopted
    rw [hsession, Option.none_or]
  obtain ⟨hpublished, hstores, hcommitted⟩ := @rootAtGenesis_kept env
    (p.withMatcher { p.published.matcher with feedSession := some session })
  cases hstore : p.store with
  | none =>
      exact .pure h.sound ⟨.of_none h.sound (hstores.trans hstore), hstores.trans hstore,
        hcommitted, .inl (hpublished.trans hadopted)⟩
  | some store =>
      refine ensures_write h.sound (fun now tables hrun => ?_) (fun error => ?_)
      · have hkept : ∀ run, KeptRun disk.tables tables run := fun run =>
          .of_updateOwned hrun (fun _ hkey => hkey) run
        have htied := (h.current_of_running hrunning hstore).tied
        have hheld := @Held.learn _ _ _ _ h hrunning hkept
          { p.published.matcher with feedSession := some session }
          (fun hgenesis => { hgenesis with }) rfl (fun _ _ => hzero)
          (fun store' hstore' => by
            cases hstore.symm.trans hstore'
            exact htied.recorded.of_kept (hkept _))
        exact ⟨hheld.sound, .pure hheld.sound ⟨hheld, hstores.trans hstore, hcommitted,
          .inl (hpublished.trans hadopted)⟩⟩
      · exact .pure h.sound ⟨h.pause, hstore, rfl, .inr rfl⟩

/-! ## Commits without a batch -/

/-- What an engine hands over that recorded nothing since its last commit. -/
theorem takePending_steady {s : MatcherState} (h : s.pending = some []) :
    takePending env s = some ({ changes := []
                                counters := counters s
                                root := stateRoot env s
                                tradesTotal := s.tradesTotal
                                session := s.feedSession.getD "" }, s) := by
  unfold takePending
  rw [h, Option.map_some, ← h]
  rfl

theorem requeue_nil (s : MatcherState) : requeue s [] = s := by
  unfold requeue
  cases hpending : s.pending with
  | none => rw [Option.map_none, ← hpending]
  | some pending => rw [Option.map_some, List.nil_append, ← hpending]

/-- The engine of a run stays tied to claims that a commit without a batch leaves alone. -/
theorem Tied.of_commit {tables tables' : Tables} {store : Handle} {now : Int}
    {changes : List Change} {counted : Counters} {s : MatcherState}
    (h : Tied env tables store.runId s)
    (hcommit : tables.commit store now changes counted none = .ok tables') :
    Tied env tables' store.runId s := by
  have hclaims : tables'.claimsOf store.runId = tables.claimsOf store.runId := by
    unfold Tables.claimsOf
    rw [Tables.claims_commit hcommit, Option.elim_none]
  obtain ⟨row, hrow, -, hruns⟩ := (Tables.commit_eq_ok hcommit).owned
  refine ⟨hclaims ▸ h.cursor, hclaims ▸ h.last, h.genesis, h.pinned, fun hsome row' hrow' => ?_⟩
  rw [hruns, SortedMap.get?_insert_self] at hrow'
  cases hrow'
  exact h.recorded hsome row hrow

/-- A commit without a batch writes the counters of an engine that stands at its cursor. -/
theorem Sound.of_counters {tables : Tables} {store : Handle} {now : Int} {changes : List Change}
    {s : MatcherState} (h : Sound env disk) (htied : Tied env disk.tables store.runId s)
    (hchanges : changes = [] ∨ changes = [.executionState s.executionState])
    (hcommit : disk.tables.commit store now changes (counters s) none = .ok tables) :
    Sound env { disk with tables := tables } := by
  refine (h.commit hcommit htied.cursor.symm (fun hzero => ?_)).1
  have hgenesis := htied.genesis hzero
  refine ⟨hchanges.imp_right (fun heq => ⟨_, heq, hgenesis.midWindows⟩), hgenesis.feedChain,
    hgenesis.operatorKey, ?_⟩
  change s.rules.version = 1
  rw [hgenesis.rules]
  rfl

theorem ensures_commit (h : Held env p disk) :
    Durable.Ensures (p.commit env sign) disk (Sound env) (fun p' disk' => Held env p' disk' ∧
      p'.store = p.store ∧
        (p'.published = p.published ∧
            (p'.store.isSome = true → counters p'.published.matcher = p'.committed) ∨
          p'.published = p.published.paused)) := by
  unfold commit
  cases hstore : p.store with
  | none =>
      refine .pure h.sound ⟨h, hstore, .inl ⟨rfl, fun hsome => ?_⟩⟩
      rw [hstore] at hsome
      cases hsome
  | some store =>
      obtain ⟨hpending, hdurable⟩ := h.steady store hstore
      rw [takePending_steady hpending]
      simp only [true_and]
      split
      · rename_i hcounters
        exact .pure h.sound ⟨h, hstore, .inl ⟨rfl, fun _ => hcounters⟩⟩
      · rename_i hcounters
        have hcurrent : Current env p store disk.tables :=
          (h.current store hstore).resolve_right (fun hstopped => hcounters hstopped.2)
        have hclaim : ¬p.committed.lastSeen < (counters p.published.matcher).lastSeen := by
          rw [hcurrent.committed]
          exact lt_irrefl _
        rw [if_neg hclaim]
        refine ensures_write h.sound (fun now tables hrun => ?_) (fun error => ?_)
        · have hsound := h.sound.of_counters hcurrent.tied (.inl rfl) hrun
          have hpublished : { p.published with
              durableLastSeen := p.published.matcher.lastSeen } = p.published := by
            rw [← hdurable]
          refine ⟨hsound, .pure hsound ⟨⟨hsound, fun _ _ => ⟨hpending, rfl⟩, ?_⟩, hstore,
            .inl ⟨hpublished, fun _ => rfl⟩⟩⟩
          intro store' hstore'
          cases hstore.symm.trans hstore'
          exact .inl ⟨rfl, rfl, hcurrent.tied.of_commit hrun⟩
        · rw [requeue_nil]
          exact .pure h.sound ⟨h.pause, hstore, .inr rfl⟩

/-! ## A batch -/

/-- The ids do not continue the cursor, or no signature covers these messages. -/
def Uncovered (env : Primitives) (s : MatcherState) (messages : List ReadMessage)
    (head : SignedHead) : Prop :=
  firstGap s.nextExpectedId messages ≠ none ∨
    ∃ chain, s.feedChain = some chain ∧
      (messages.getLast?.map ReadMessage.id ≠ some head.lastId ∨
        extendedBy env chain messages ≠ head.chain)

/-- How the check of a batch ends. -/
inductive Checked (env : Primitives) (s : Published) (messages : List ReadMessage)
    (head : SignedHead) : Published × Option BatchRejection → Prop where
  | uncovered {result : Published × Option BatchRejection}
      (h : Uncovered env s.matcher messages head) (hrejected : result.2.isSome = true) :
      Checked env s messages head result
  | unread {result : Published × Option BatchRejection}
      (h : ¬Uncovered env s.matcher messages head) (hunread : firstUnread messages ≠ none)
      (hrejected : result.2.isSome = true) : Checked env s messages head result
  | ran (h : ¬Uncovered env s.matcher messages head) (hread : firstUnread messages = none)
      {matcher : MatcherState} (hrun : MatcherState.run env s.matcher (logOf messages) = .ok matcher) :
      Checked env s messages head
        ({ s with
            matcher := matcher
            chainVerifiedAt := if matcher.feedChain.isSome then head.lastId
              else s.chainVerifiedAt }, none)

theorem applyBatch_eq_ok {s : Published} {messages : List ReadMessage} {head : SignedHead}
    {result : Published × Option BatchRejection} (hne : messages ≠ [])
    (h : applyBatch env s messages head = .ok result) : Checked env s messages head result := by
  unfold applyBatch at h
  cases hgap : firstGap s.matcher.nextExpectedId messages with
  | some gap =>
      rw [hgap] at h
      cases h
      exact .uncovered (.inl (by rw [hgap]; exact Option.some_ne_none _)) rfl
  | none =>
      rw [hgap] at h
      obtain ⟨last, hlast⟩ := Option.ne_none_iff_exists'.1 (mt List.getLast?_eq_none_iff.1 hne)
      simp only [hlast] at h
      split at h
      · rename_i rejection hunproven
        cases h
        obtain ⟨chain, hchain, hrejection⟩ := Option.bind_eq_some_iff.1 hunproven
        refine .uncovered (.inr ⟨chain, hchain, ?_⟩) rfl
        split at hrejection
        · rename_i hid
          refine .inl (fun heq => hid ?_)
          rw [hlast] at heq
          exact (Option.some.inj heq).symm
        · split at hrejection
          · rename_i hextended
            exact .inr hextended
          · cases hrejection
      · rename_i hproven
        have hcovered : ¬Uncovered env s.matcher messages head := by
          rintro (hno | ⟨chain, hchain, hwrong⟩)
          · exact hno hgap
          · rw [hchain, Option.bind_some] at hproven
            split at hproven
            · cases hproven
            · rename_i hid
              split at hproven
              · cases hproven
              · rename_i hextended
                refine hwrong.elim (fun hother => hother ?_) hextended
                rw [hlast, Option.map_some, not_not.1 hid]
        split at h
        · rename_i tooOld hunread
          cases h
          exact .unread hcovered (by rw [hunread]; exact Option.some_ne_none _) rfl
        · rename_i hread
          obtain ⟨matcher, hrun, h⟩ := bind_eq_ok.1 h
          cases h
          exact .ran hcovered hread hrun

/-- The messages of a page that reads are the ones of the page. -/
theorem ids_logOf : ∀ {messages : List ReadMessage}, firstUnread messages = none →
    (logOf messages).map (fun m => m.1.id) = messages.map ReadMessage.id
  | [], _ => rfl
  | m :: rest, h => by
      unfold firstUnread at h
      rw [List.findSome?_cons] at h
      cases hparsed : m.parsed with
      | error tooOld =>
          simp only [hparsed] at h
          cases h
      | ok message =>
          simp only [hparsed] at h
          have hhead : logOf (m :: rest) = (message, some m.bytes) :: logOf rest := by
            unfold logOf
            rw [List.filterMap_cons, hparsed]
            rfl
          have hid : m.id = message.id := by
            unfold ReadMessage.id
            rw [hparsed]
          rw [hhead, List.map_cons, List.map_cons, ids_logOf h, hid]

/-- The claim over a batch that ran covers it. -/
theorem covers_of_run {messages : List ReadMessage} {matcher kept : MatcherState}
    {pending : PendingCommit} {runId : Int} (hne : messages ≠ [])
    (hread : firstUnread messages = none)
    (hrun : MatcherState.run env p.published.matcher (logOf messages) = .ok matcher)
    (htaken : takePending env matcher = some (pending, kept))
    (hfits : (pending.counters.lastSeen : Int) ≤ i64Max)
    (hcommitted : p.committed.lastSeen = p.published.matcher.lastSeen)
    (hroot : p.committedRoot = stateRoot env p.published.matcher) :
    Covers env ⟨runId, p.published.matcher, messages, kept⟩ (claimFor sign p pending) ∧
      kept = { matcher with pending := some [] } ∧ pending.counters = counters kept ∧
        pending.root = stateRoot env kept ∧ kept.feedPubkey = p.published.matcher.feedPubkey := by
  obtain ⟨changes, hpending, hmade⟩ := Option.map_eq_some_iff.1 htaken
  cases hmade
  have hbelow : matcher.lastSeen < u64Max := by
    have hseen : (matcher.lastSeen : Int) ≤ i64Max := hfits
    have hmax : i64Max < (u64Max : Int) := by decide
    exact_mod_cast lt_of_le_of_lt hseen hmax
  obtain ⟨hlast, hids, hfeed⟩ := MatcherState.consumed_run hrun hbelow
  have hlength : (logOf messages).length = messages.length := by
    have hmapped := congrArg List.length (ids_logOf hread)
    rwa [List.length_map, List.length_map] at hmapped
  rw [hlength] at hlast hids
  have hpos : 0 < messages.length := List.length_pos_of_ne_nil hne
  refine ⟨?_, rfl, rfl, rfl, congrArg Prod.snd hfeed⟩
  refine ⟨by rw [← hcommitted]; rfl, rfl, ?_, hroot, rfl, rfl, ?_, matcher, hread, hrun, rfl⟩
  · change p.committed.lastSeen + 1 ≤ matcher.lastSeen
    rw [hcommitted, hlast]
    exact Nat.add_le_add_left hpos _
  · change messages.map ReadMessage.id =
      List.range' (p.committed.lastSeen + 1) (matcher.lastSeen + 1 - (p.committed.lastSeen + 1))
    rw [← ids_logOf hread, hids, hcommitted, hlast, Nat.add_sub_add_right, Nat.add_sub_cancel_left]

/-- What is published once a batch has run to `matcher`. -/
def ranTo (s : Published) (head : SignedHead) (matcher : MatcherState) (stored : Bool) :
    Published :=
  { s with
    matcher := if stored then { matcher with pending := some [] } else matcher
    chainVerifiedAt := if matcher.feedChain.isSome then head.lastId else s.chainVerifiedAt
    durableLastSeen := if stored then matcher.lastSeen else s.durableLastSeen }

/-- The batch that ran to `matcher` went into the tables, with its changes and the claim over it. -/
def CommittedAs (env : Primitives) (sign : String → Bytes) (p : Poller) (store : Handle)
    (matcher : MatcherState) (disk : Disk) : Prop :=
  ∃ root pending kept tables now, takePending env matcher = some (pending, kept) ∧
    Tables.commit tables store now pending.changes pending.counters
      (some (claimFor sign { p with committedRoot := root } pending)) = .ok disk.tables

/-- What the poller is left with once it took a batch. -/
inductive Applied (env : Primitives) (sign : String → Bytes) (p : Poller)
    (messages : List ReadMessage) (head : SignedHead) :
    Poller × Option BatchRejection → Disk → Prop where
  | stopped {disk : Disk} (h : p.published.executionPaused = true) :
      Applied env sign p messages head (p, none) disk
  | uncovered {disk : Disk} {rejection : BatchRejection}
      (hrunning : p.published.executionPaused = false)
      (h : Uncovered env p.published.matcher messages head) :
      Applied env sign p messages head (p, some rejection) disk
  | unread {disk : Disk} {rejection : BatchRejection}
      (hrunning : p.published.executionPaused = false)
      (h : ¬Uncovered env p.published.matcher messages head) (hunread : firstUnread messages ≠ none) :
      Applied env sign p messages head (p, some rejection) disk
  | refused {disk : Disk} (hrunning : p.published.executionPaused = false) :
      Applied env sign p messages head (p.pause, none) disk
  | committed {disk : Disk} {p' : Poller} {matcher : MatcherState}
      (hrunning : p.published.executionPaused = false)
      (h : ¬Uncovered env p.published.matcher messages head) (hread : firstUnread messages = none)
      (hrun : MatcherState.run env p.published.matcher (logOf messages) = .ok matcher)
      (hpublished : p'.published = ranTo p.published head matcher p.store.isSome)
      (hdisk : ∀ store, p.store = some store → CommittedAs env sign p store matcher disk) :
      Applied env sign p messages head (p', none) disk

/-- The commit of a batch that ran leaves the poller at the end of one more claim. -/
theorem Held.commitBatch {store : Handle} {messages : List ReadMessage}
    {matcher kept : MatcherState} {pending : PendingCommit} {now : Int} {tables : Tables}
    (h : Held env p disk) (hrunning : p.published.executionPaused = false)
    (hstore : p.store = some store) (hpinned : p.published.matcher.feedPubkey.isSome = true)
    (hne : messages ≠ []) (hread : firstUnread messages = none)
    (hrun : MatcherState.run env p.published.matcher (logOf messages) = .ok matcher)
    (htaken : takePending env matcher = some (pending, kept))
    (hcommit : disk.tables.commit store now pending.changes pending.counters
      (some (claimFor sign p pending)) = .ok tables) {p' : Poller}
    (hp' : p'.store = some store ∧ p'.published.matcher = kept ∧
      p'.published.durableLastSeen = pending.counters.lastSeen ∧
        p'.committed = pending.counters ∧ p'.committedRoot = pending.root) :
    Held env p' ⟨tables, disk.batches ++ [⟨store.runId, p.published.matcher, messages, kept⟩]⟩ := by
  obtain ⟨hstore', hmatcher, hdurable, hcommitted, hroot⟩ := hp'
  have hcurrent := h.current_of_running hrunning hstore
  have hdone := Tables.commit_eq_ok hcommit
  obtain ⟨hcovers, hkept, hcounters, hafter, hpubkey⟩ := @covers_of_run env sign p messages matcher
    kept pending store.runId hne hread hrun htaken hdone.fits hcurrent.committed hcurrent.root
  have hto : (claimFor sign p pending).toMsg = kept.lastSeen := hcovers.toMsg
  obtain ⟨hsound, hclaims⟩ := @Sound.commitBatch env disk tables store h.sound
    ⟨store.runId, p.published.matcher, messages, kept⟩ now pending.changes pending.counters
    (claimFor sign p pending) rfl hcommit hcovers rfl
    (hcovers.fromMsg.trans (congrArg (· + 1) hcurrent.tied.cursor.symm))
    (fun last hlast => hcurrent.root.trans (hcurrent.tied.last last hlast).symm)
    (fun hnil => by
      have hzero : p.published.matcher.lastSeen = 0 := by
        rw [← hcurrent.tied.cursor, hnil]
        rfl
      exact hcurrent.root.trans (hcurrent.tied.genesis hzero).root)
    (hcurrent.tied.recorded hpinned)
  refine ⟨hsound, fun _ _ => ?_, fun store'' hstore'' => .inl ?_⟩
  · rw [hmatcher, hdurable, hcounters, hkept]
    exact ⟨rfl, rfl⟩
  · cases hstore'.symm.trans hstore''
    refine ⟨?_, ?_, ?_⟩
    · rw [hcommitted, hcounters, hmatcher]
      rfl
    · rw [hroot, hafter, hmatcher]
    · rw [hmatcher]
      refine ⟨?_, fun claim hclaim => ?_, fun hzero => ?_, fun _ => hpubkey ▸ hpinned,
        fun _ row' hrow' => ?_⟩
      · change claimedUpTo (tables.claimsOf store.runId) = kept.lastSeen
        rw [hclaims, claimedUpTo, List.getLast?_concat, ← hto]
        rfl
      · change (tables.claimsOf store.runId).getLast? = some claim at hclaim
        rw [hclaims, List.getLast?_concat] at hclaim
        cases hclaim
        exact hcovers.rootAfter
      · have hnonempty := hcovers.nonempty
        rw [hto, hzero, hcovers.fromMsg] at hnonempty
        cases hnonempty
      · obtain ⟨row, hrow, -, hruns⟩ := hdone.owned
        change tables.runs.get? store.runId = some row' at hrow'
        rw [hruns, SortedMap.get?_insert_self] at hrow'
        cases hrow'
        exact hcurrent.tied.recorded hpinned row hrow

/-- The poller after the commit of a batch that ran to `matcher`. -/
def ranPoller (p : Poller) (store : Handle) (head : SignedHead) (matcher kept : MatcherState)
    (pending : PendingCommit) : Poller :=
  { p with
    store := some store
    published := publishOver
      { p.published with
        matcher := kept
        chainVerifiedAt := if matcher.feedChain.isSome then head.lastId
          else p.published.chainVerifiedAt
        durableLastSeen := pending.counters.lastSeen } p.published
    committed := pending.counters
    committedRoot := pending.root }

theorem ranPoller_fields {store : Handle} {head : SignedHead} {matcher kept : MatcherState}
    {pending : PendingCommit} :
    (ranPoller p store head matcher kept pending).store = some store ∧
      (ranPoller p store head matcher kept pending).published.matcher = kept ∧
        (ranPoller p store head matcher kept pending).published.durableLastSeen =
          pending.counters.lastSeen ∧
        (ranPoller p store head matcher kept pending).committed = pending.counters ∧
          (ranPoller p store head matcher kept pending).committedRoot = pending.root :=
  ⟨rfl, rfl, rfl, rfl, rfl⟩

theorem ensures_applyCommittedBatch {messages : List ReadMessage} {head : SignedHead}
    (h : Held env p disk) (hpinned : p.published.matcher.feedPubkey.isSome = true)
    (hne : messages ≠ []) :
    Durable.Ensures (p.applyCommittedBatch env sign messages head) disk (Sound env)
      (fun answer disk' => Held env answer.1 disk' ∧
        Applied env sign p messages head answer disk') := by
  unfold applyCommittedBatch
  cases hrunning : p.published.executionPaused with
  | true => exact .pure h.sound ⟨h, .stopped hrunning⟩
  | false =>
      simp only [Bool.false_eq_true, if_false]
      cases happly : applyBatch env p.published messages head with
      | error _ => exact .stop h.sound
      | ok result =>
          cases applyBatch_eq_ok hne happly with
          | uncovered huncovered hrejected =>
              obtain ⟨candidate, rejection⟩ := result
              obtain ⟨rejection, rfl⟩ := Option.isSome_iff_exists.1 hrejected
              exact .pure h.sound ⟨h, .uncovered hrunning huncovered⟩
          | unread hcovered hunread hrejected =>
              obtain ⟨candidate, rejection⟩ := result
              obtain ⟨rejection, rfl⟩ := Option.isSome_iff_exists.1 hrejected
              exact .pure h.sound ⟨h, .unread hrunning hcovered hunread⟩
          | @ran hcovered hread matcher hrun =>
              cases hstore : p.store with
              | none =>
                  refine .pure h.sound
                    ⟨.of_none h.sound rfl, .committed hrunning hcovered hread hrun ?_ ?_⟩
                  · rw [hstore]
                    rfl
                  · intro store hsome
                    rw [hstore] at hsome
                    cases hsome
              | some store =>
                  simp only
                  cases htaken : takePending env matcher with
                  | none => exact .stop h.sound
                  | some taken =>
                      obtain ⟨pending, kept⟩ := taken
                      refine .attempt_bind h.sound (fun now disk' answer hstatement => ?_)
                        (fun error => .pure h.sound ⟨h.pause, .refused hrunning⟩)
                      obtain ⟨tables, hcommit, hdone⟩ := bind_eq_ok.1 hstatement
                      cases hdone
                      have hheld := h.commitBatch hrunning hstore hpinned hne hread hrun htaken
                        hcommit (@ranPoller_fields p store head matcher kept pending)
                      refine ⟨hheld.sound, .pure hheld.sound ⟨hheld, ?_⟩⟩
                      refine .committed hrunning hcovered hread hrun ?_ (fun store' hstore' => ?_)
                      · obtain ⟨changes, -, hmade⟩ := Option.map_eq_some_iff.1 htaken
                        cases hmade
                        rw [hstore]
                        rfl
                      · cases hstore.symm.trans hstore'
                        exact ⟨p.committedRoot, pending, kept, _, now, htaken, hcommit⟩

/-! ## A new run -/

/-- A setting that is there or not: what holds of the database either way is what follows. -/
theorem ensures_writeSetting {β : Type} {Good Mid : Disk → Prop} {Post : β → Disk → Prop}
    {value : Option String} {set : String → Tables → Except StoreError Tables}
    {next : Except StoreError Unit → Stored β} (hgood : Good disk)
    (hnone : value = none → Mid disk)
    (hruns : ∀ setting tables, value = some setting → set setting disk.tables = .ok tables →
      Mid { disk with tables := tables })
    (hmid : ∀ disk', Mid disk' → Good disk' ∧ Durable.Ensures (next (.ok ())) disk' Good Post)
    (hrefused : ∀ error, Durable.Ensures (next (.error error)) disk Good Post) :
    Durable.Ensures (writeSetting value set >>= next) disk Good Post := by
  cases value with
  | none => exact .bind (.pure hgood rfl) (fun answer disk' (h : (answer, disk') = (.ok (), disk)) =>
      by cases h; exact (hmid _ (hnone rfl)).2)
  | some setting =>
      exact ensures_write hgood (fun _ tables hrun => hmid _ (hruns setting tables rfl hrun))
        hrefused

theorem ensures_openingLedger {β : Type} {Good : Disk → Prop} {Post : β → Disk → Prop}
    {config : Option FundingConfig} {next : Ledger → Stored β} (hgood : Good disk)
    (hnext : ∀ ledger, Durable.Ensures (next ledger) disk Good Post) :
    Durable.Ensures (openingLedger config >>= next) disk Good Post := by
  have hopening : Durable.Ensures (openingLedger config) disk Good (fun _ disk' => disk' = disk) := by
    unfold openingLedger
    split
    · exact .pure hgood rfl
    · exact .pure hgood rfl
    · exact .stop hgood
  exact .bind hopening (fun ledger disk' h => by cases h; exact hnext ledger)

theorem atGenesis_freshMatcher (old : MatcherState) (session : Option String) (ledger : Ledger)
    (pending : Option (List Change)) : AtGenesis (freshMatcher old session ledger pending) :=
  ⟨rfl, rfl, rfl, rfl, rfl, rfl, rfl, rfl, rfl⟩

/-- A run that was opened but not yet configured: the poller has nothing to write to it. -/
structure Opened (env : Primitives) (p : Poller) (store : Handle) (disk : Disk) : Prop where
  sound : Sound env disk
  hasStore : p.store = some store
  claims : disk.tables.claimsOf store.runId = []
  pending : p.published.matcher.pending = some []
  durable : p.published.durableLastSeen = p.published.matcher.lastSeen
  counters : counters p.published.matcher = p.committed

namespace Opened

variable {store : Handle} {tables : Tables}

theorem pause (h : Opened env p store disk) : Held env p.pause disk where
  sound := h.sound
  steady _ _ := ⟨h.pending, h.durable⟩
  current _ _ := .inr ⟨rfl, h.counters⟩

theorem of_kept (h : Opened env p store disk) (hkept : ∀ run, KeptRun disk.tables tables run) :
    Opened env p store { disk with tables := tables } :=
  { h with
    sound := h.sound.of_kept hkept
    claims := (hkept store.runId).rows.claimsOf.trans h.claims }

/-- The empty engine of the run is the first thing written to it. -/
theorem commit (h : Opened env p store disk) {s : MatcherState} {now : Int} (runId : Option Int)
    (hgenesis : AtGenesis s) (hpending : s.pending = some [])
    (hrecorded : Recorded disk.tables store.runId s)
    (hcommit : disk.tables.commit store now [.executionState s.executionState]
      (Poller.counters s) none = .ok tables) :
    Held env (p.restarted env s runId) { disk with tables := tables } := by
  have htied : Tied env disk.tables store.runId s := .of_genesis h.claims hgenesis hrecorded
  refine ⟨h.sound.of_counters htied (.inr rfl) hcommit, fun _ _ => ⟨hpending, rfl⟩,
    fun store' hstore' => .inl ⟨hgenesis.lastSeen.symm, rfl, ?_⟩⟩
  cases h.hasStore.symm.trans hstore'
  exact htied.of_commit hcommit

end Opened

/-- The poller's engine is stopped where it was, or an empty run took its place. -/
def Restarted (env : Primitives) (p : Poller) (session : Option String) (p' : Poller) : Prop :=
  p'.published = p.published.paused ∨
    ∃ (ledger : Ledger) (store : Option Handle), store.isSome = p.store.isSome ∧
      p'.published = (p.restarted env (freshMatcher p.published.matcher session ledger
        (store.map fun _ => [])) (store.map Handle.runId)).published

theorem Restarted.of_same {p' q : Poller} {session : Option String}
    (hpublished : p'.published = p.published) (hstore : p'.store.isSome = p.store.isSome)
    (h : Restarted env p' session q) : Restarted env p session q := by
  unfold Restarted restarted at h ⊢
  rw [hpublished, hstore] at h
  exact h

theorem ensures_beginRun {session : Option String} {store : Handle} (h : Opened env p store disk) :
    Durable.Ensures (p.beginRun env session store) disk (Sound env)
      (fun p' disk' => Held env p' disk' ∧ Restarted env p session p') := by
  unfold beginRun
  refine ensures_writeSetting h.sound (fun _ => h)
    (fun _ tables _ hset => h.of_kept (fun run => .of_updateOwned hset (fun _ hkey => hkey) run))
    (fun disk₁ h₁ => ⟨h₁.sound, ?_⟩) (fun _ => .pure h.sound ⟨h.pause, .inl rfl⟩)
  -- The key is on disk before the empty engine is.
  refine @ensures_writeSetting _ _ _ (fun disk₂ => Opened env p store disk₂ ∧
      Recorded disk₂.tables store.runId p.published.matcher)
    _ _ _ _ h₁.sound (fun hnone => ⟨h₁, fun hsome => ?_⟩) (fun key tables _ hset => ⟨?_, ?_⟩)
    (fun disk₂ ⟨h₂, hrecorded⟩ => ⟨h₂.sound, ?_⟩) (fun _ => .pure h₁.sound ⟨h₁.pause, .inl rfl⟩)
  · rw [hnone] at hsome
    cases hsome
  · exact h₁.of_kept (fun run => .of_updateOwned hset (fun _ _ => rfl) run)
  · exact recorded_setFeedPubkey hset
  refine @ensures_writeSetting _ _ _ (fun disk₃ => Opened env p store disk₃ ∧
      Recorded disk₃.tables store.runId p.published.matcher)
    _ _ _ _ h₂.sound (fun _ => ⟨h₂, hrecorded⟩) (fun _ tables _ hset => ?_)
    (fun disk₃ ⟨h₃, hrecorded₃⟩ => ⟨h₃.sound, ensures_openingLedger h₃.sound (fun ledger => ?_)⟩)
    (fun _ => .pure h₂.sound ⟨h₂.pause, .inl rfl⟩)
  · have hkept : ∀ run, KeptRun disk₂.tables tables run := fun run =>
      .of_updateOwned hset (fun _ hkey => hkey) run
    exact ⟨h₂.of_kept hkept, hrecorded.of_kept (hkept _)⟩
  · refine ensures_write h₃.sound (fun _ tables hcommit => ?_)
      (fun _ => .pure h₃.sound ⟨h₃.pause, .inl rfl⟩)
    have hheld := h₃.commit (some store.runId) (atGenesis_freshMatcher _ _ _ _) rfl hrecorded₃
      hcommit
    exact ⟨hheld.sound, .pure hheld.sound ⟨hheld, .inr ⟨ledger, some store, by rw [h₃.hasStore],
      rfl⟩⟩⟩

theorem ensures_startNewRun {pid : Int} {session : Option String} (h : Held env p disk)
    (hrunning : p.published.executionPaused = false) :
    Durable.Ensures (p.startNewRun env sign pid session) disk (Sound env)
      (fun p' disk' => Held env p' disk' ∧ Restarted env p session p') := by
  unfold startNewRun
  refine .bind (ensures_commit h) (fun p₁ disk₁ ⟨h₁, hstore₁, hdone₁⟩ => ?_)
  rcases hdone₁ with ⟨hpublished, hcounters⟩ | hpaused
  · have hrunning₁ : p₁.published.executionPaused = false := by
      rw [hpublished]
      exact hrunning
    have hsame : p₁.store.isSome = p.store.isSome := by rw [hstore₁]
    suffices hrestarted : Durable.Ensures _ disk₁ (Sound env) (fun p' disk' =>
        Held env p' disk' ∧ Restarted env p₁ session p') from
      .mono hrestarted (fun p' disk' hdone => ⟨hdone.1, .of_same hpublished hsame hdone.2⟩)
    simp only [hrunning₁, Bool.false_eq_true, if_false]
    cases hstore : p₁.store with
    | none =>
        exact ensures_openingLedger h₁.sound (fun ledger => .pure h₁.sound
          ⟨.of_none h₁.sound hstore, .inr ⟨ledger, none, by rw [hstore], rfl⟩⟩)
    | some closed =>
        obtain ⟨hpending, hdurable⟩ := h₁.steady closed hstore
        refine ensures_write h₁.sound (fun _ tables hclose => ?_)
          (fun _ => .pure h₁.sound ⟨h₁.pause, .inl rfl⟩)
        have h₂ := h₁.of_kept (fun run => .of_updateOwned hclose (fun _ hkey => hkey) run)
        refine ⟨h₂.sound, ensures_statement h₂.sound (fun _ tables store hstart => ?_)
          (fun _ => .pure h₂.sound ⟨h₂.pause, .inl rfl⟩)⟩
        obtain ⟨hsound, hclaims, -⟩ := h₂.sound.startRun hstart
        have h₃ : Opened env { p₁ with store := some store } store _ :=
          ⟨hsound, rfl, hclaims, hpending, hdurable, hcounters (by rw [hstore]; rfl)⟩
        refine ⟨h₃.sound, .mono (ensures_beginRun h₃) (fun p' disk' (hdone : Held env p' disk' ∧
          Restarted env { p₁ with store := some store } session p') =>
            ⟨hdone.1, @Restarted.of_same env p₁ { p₁ with store := some store } p' session rfl
              (by rw [hstore]; rfl) hdone.2⟩)⟩
  · have hstopped : p₁.published.executionPaused = true := by
      rw [hpaused]
      rfl
    simp only [hstopped, if_true]
    exact .pure h₁.sound ⟨h₁, .inl hpaused⟩

/-! ## The start of a process -/

theorem ensures_orExit {α β : Type} {Good : Disk → Prop} {Post : β → Disk → Prop}
    {run : Tables → Int → Except StoreError (Tables × α)} {next : α → Stored β}
    (hgood : Good disk)
    (hruns : ∀ now tables a, run disk.tables now = .ok (tables, a) →
      Good { disk with tables := tables } ∧
        Durable.Ensures (next a) { disk with tables := tables } Good Post) :
    Durable.Ensures (orExit (statement run) >>= next) disk Good Post := by
  refine .bind ?_ (fun a disk' (h : Durable.Ensures (next a) disk' Good Post) => h)
  unfold orExit
  refine ensures_statement hgood (fun now tables a hrun => ?_) (fun _ => .stop hgood)
  obtain ⟨hgood', hnext⟩ := hruns now tables a hrun
  exact ⟨hgood', .pure hgood' hnext⟩

theorem ensures_orExit_write {Good : Disk → Prop} {Post : Disk → Prop}
    {run : Tables → Int → Except StoreError Tables} (hgood : Good disk)
    (hruns : ∀ now tables, run disk.tables now = .ok tables →
      Good { disk with tables := tables } ∧ Post { disk with tables := tables }) :
    Durable.Ensures (orExit (write run)) disk Good (fun _ disk' => Post disk') := by
  unfold orExit
  refine ensures_write hgood (fun now tables hrun => ?_) (fun _ => .stop hgood)
  obtain ⟨hgood', hpost⟩ := hruns now tables hrun
  exact ⟨hgood', .pure hgood' hpost⟩

theorem ensures_claimOpenRun {settings : Settings} {path : String} (h : Sound env disk) :
    Durable.Ensures (claimOpenRun settings path) disk (Sound env)
      (fun _ disk' => Sound env disk') := by
  unfold claimOpenRun
  refine ensures_orExit h (fun now tables found hinspect => ?_)
  obtain ⟨found', -, hinspect⟩ := bind_eq_ok.1 hinspect
  cases hinspect
  refine ⟨h, ?_⟩
  cases found with
  | none => exact .pure h h
  | some seen =>
      refine ensures_orExit h (fun now tables claimed htake => ?_)
      obtain rfl : tables = (disk.tables.takeRun seen now settings.pid).1 := by
        cases htake
        rfl
      have htaken : Sound env { disk with tables := (disk.tables.takeRun seen now settings.pid).1 } :=
        h.of_kept (fun run => .of_takeRun run)
      refine ⟨htaken, ?_⟩
      split
      · exact .stop htaken
      · split
        · refine .bind (ensures_orExit_write htaken (fun now tables hclose => ?_))
            (fun _ disk' (h' : Sound env disk') => .pure h' h')
          have hclosed := htaken.of_kept
            (fun run => .of_updateOwned hclose (fun _ hkey => hkey) run)
          exact ⟨hclosed, hclosed⟩
        · exact .pure htaken htaken

theorem underPolicy_eq (settings : Settings) (snapshot : Snapshot) (restored : MatcherState) :
    ∃ ledger, underPolicy settings snapshot restored = { restored with ledger := ledger } := by
  unfold underPolicy
  dsimp only
  split
  · exact ⟨_, rfl⟩
  · exact ⟨restored.ledger, rfl⟩

theorem ensures_resumeState {settings : Settings} {store : Handle} (h : Sound env disk) :
    Durable.Ensures (resumeState env settings store) disk (Sound env) (fun state disk' =>
      Sound env disk' ∧ Tied env disk'.tables store.runId state ∧ state.pending = some []) := by
  unfold resumeState
  refine ensures_orExit h (fun now tables loaded hload => ?_)
  obtain ⟨snapshot, hsnapshot, hload⟩ := bind_eq_ok.1 hload
  cases hload
  refine ⟨h, ?_⟩
  simp only
  split
  · rename_i restored hauth hrestore
    split
    · exact .stop h
    · split
      · exact .stop h
      · rename_i hroots
        refine .pure h ⟨h, ?_⟩
        refine tied_of_load (h store.runId) hsnapshot hauth hrestore
          (underPolicy_eq settings snapshot restored) (fun root hroot => ?_)
        rw [hroot] at hroots
        simpa using hroots
  · exact .stop h

theorem ensures_openRun {settings : Settings} {path : String} (h : Sound env disk) :
    Durable.Ensures (openRun env settings path) disk (Sound env) (fun opened disk' =>
      Sound env disk' ∧ Tied env disk'.tables opened.1.runId opened.2 ∧
        opened.2.pending = some []) := by
  unfold openRun
  refine .bind (ensures_claimOpenRun h) (fun found disk₁ (h₁ : Sound env disk₁) => ?_)
  cases found with
  | some store =>
      exact .bind (ensures_resumeState h₁) (fun state disk₂ hstate => .pure hstate.1 hstate)
  | none =>
      refine ensures_orExit h₁ (fun now tables store hstart => ?_)
      obtain ⟨h₂, hclaims, -⟩ := h₁.startRun hstart
      have hgenesis : AtGenesis { MatcherState.recording with ledger := settings.ledger } :=
        ⟨rfl, rfl, rfl, rfl, rfl, rfl, rfl, rfl, rfl⟩
      exact ⟨h₂, .pure h₂ ⟨h₂, .of_genesis hclaims hgenesis (fun hsome => by cases hsome), rfl⟩⟩

theorem ensures_persistGenesis {store : Handle} {state : MatcherState} (h : Sound env disk)
    (htied : Tied env disk.tables store.runId state) :
    Durable.Ensures (persistGenesis store state) disk (Sound env) (fun _ disk' =>
      Sound env disk' ∧ Tied env disk'.tables store.runId state) := by
  unfold persistGenesis
  split
  · refine ensures_orExit_write h (fun now tables hcommit => ?_)
    have hsound := h.of_counters htied (.inr rfl) hcommit
    exact ⟨hsound, hsound, htied.of_commit hcommit⟩
  · exact .pure h ⟨h, htied⟩

theorem ensures_pinClaimKey {store : Handle} {pubkey : String} (h : Sound env disk) :
    Durable.Ensures (pinClaimKey store pubkey) disk (Sound env) (fun _ disk' =>
      ∃ tables, disk' = { disk with tables := tables } ∧
        ∀ run, KeptRun disk.tables tables run) := by
  unfold pinClaimKey
  refine ensures_orExit h (fun now tables recorded hread => ?_)
  obtain ⟨run, -, hread⟩ := bind_eq_ok.1 hread
  cases hread
  refine ⟨h, ?_⟩
  split
  · split
    · exact .pure h ⟨_, rfl, .refl _⟩
    · exact .stop h
  · refine ensures_orExit_write h (fun now tables hset => ?_)
    have hkept : ∀ run, KeptRun disk.tables tables run := fun run =>
      .of_updateOwned hset (fun _ hkey => hkey) run
    exact ⟨h.of_kept hkept, tables, rfl, hkept⟩

theorem ensures_openState {settings : Settings} (h : Sound env disk) :
    Durable.Ensures (openState env settings) disk (Sound env) (fun opened disk' =>
      Sound env disk' ∧ ∀ store, opened.1 = some store →
        Tied env disk'.tables store.runId opened.2 ∧ opened.2.pending = some []) := by
  unfold openState
  cases settings.stateDb with
  | none => exact .pure h ⟨h, fun store hstore => by cases hstore⟩
  | some path =>
      refine .bind (ensures_openRun h) (fun opened disk₁ ⟨h₁, htied, hpending⟩ => ?_)
      refine .bind (ensures_persistGenesis h₁ htied) (fun _ disk₂ ⟨h₂, htied₂⟩ => ?_)
      refine .pure h₂ ⟨h₂, fun store hstore => ?_⟩
      cases hstore
      exact ⟨htied₂, hpending⟩

/-- A process starts with a poller that stands where the claims of its run end. -/
theorem ensures_launch {settings : Settings} (h : Sound env disk) :
    Durable.Ensures (launch env settings) disk (Sound env) (fun p disk' => Held env p disk') := by
  unfold launch
  refine .bind (ensures_openState h) (fun opened disk₁ ⟨h₁, hopened⟩ => ?_)
  obtain ⟨store, state⟩ := opened
  cases store with
  | none => exact .pure h₁ (.of_none h₁ rfl)
  | some store =>
      obtain ⟨htied, hpending⟩ := hopened store rfl
      refine .bind (ensures_pinClaimKey h₁) (fun _ disk₂ hpinned => ?_)
      obtain ⟨tables, rfl, hkept⟩ := hpinned
      have h₂ := h₁.of_kept hkept
      refine .pure h₂ ⟨h₂, fun _ _ => ⟨hpending, rfl⟩, fun store' hstore' => .inl ?_⟩
      cases hstore'
      exact ⟨rfl, rfl, htied.of_kept (hkept _)⟩

/-- The last commit, and the run marked stopped. -/
theorem ensures_finish (h : Held env p disk) :
    Durable.Ensures (p.finish env sign) disk (Sound env) (fun p' disk' => Held env p' disk') := by
  unfold finish
  refine .bind (ensures_commit h) (fun p₁ disk₁ ⟨h₁, _⟩ => ?_)
  split
  · exact .pure h₁.sound h₁
  · split
    · exact .pure h₁.sound h₁
    · refine ensures_write h₁.sound (fun now tables hclose => ?_)
        (fun _ => .pure h₁.sound h₁.pause)
      have h₂ := h₁.of_kept (fun run => .of_updateOwned hclose (fun _ hkey => hkey) run)
      exact ⟨h₂.sound, .pure h₂.sound h₂⟩

end

end Poller
end VerifiableExchange
