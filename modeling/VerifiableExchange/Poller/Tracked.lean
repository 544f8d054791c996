import VerifiableExchange.Poller.Backed

/-!
# Tracked — what each function of the poller leaves on disk

Every function of the poller, and every process that starts, leaves each run on disk as the run of
an engine. The published engine is the one its run stands at, and a process that resumes the run
goes on from there.
-/

namespace VerifiableExchange
namespace Poller

open Lib Matcher Store MatcherState

/-! ## The invariant of the poller -/

/-- The engine stands where the batches of the run left it, with nothing left to write. -/
structure Stands (disk : Disk) (run : Int) (s : MatcherState) : Prop where
  market : SameMarket (disk.standing run) s
  pending : s.pending = some []
  opened : (disk.tables.runs.get? run).isSome = true

/-- The published engine is that of its run, and what the poller would write goes to that run. A
poller that stopped in the middle of starting a run has nothing left to write. -/
structure Tracked (env : Primitives) (start : Tables) (p : Poller) (disk : Disk) : Prop where
  base : Backed env start disk
  engine : ∀ run, p.published.runId = some run → Stands disk run p.published.matcher
  unnamed : p.store = none → p.published.runId = none
  stored : ∀ store, p.store = some store → p.published.runId = some store.runId ∨
    (p.published.executionPaused = true ∧ p.published.matcher.pending = some [] ∧
      counters p.published.matcher = p.committed)

/-- The two pollers stand at the same place of the same run. -/
structure SamePlace (p p' : Poller) : Prop where
  store : p'.store = p.store
  runId : p'.published.runId = p.published.runId
  market : SameMarket p.published.matcher p'.published.matcher
  pending : p'.published.matcher.pending = p.published.matcher.pending
  stopped : p.published.executionPaused = true → p'.published.executionPaused = true
  counted : counters p.published.matcher = p.committed →
    counters p'.published.matcher = p'.committed

theorem Stands.of_kept {disk : Disk} {tables : Tables} {run : Int} {s : MatcherState}
    (h : Stands disk run s) (hkept : KeptRun disk.tables tables run) :
    Stands { disk with tables := tables } run s where
  market := h.market
  pending := h.pending
  opened := by
    rw [Option.isSome_iff_ne_none]
    intro hnone
    have hopened := h.opened
    rw [hkept.unopened hnone] at hopened
    cases hopened

section

variable {env : Primitives} {sign : String → Bytes} {pid : Int} {start : Tables} {p p' : Poller}
  {disk : Disk} {tables : Tables}

namespace Tracked

theorem of_same (h : Tracked env start p disk) (hsame : SamePlace p p') :
    Tracked env start p' disk where
  base := h.base
  engine run hrun := by
    obtain ⟨hmarket, hpending, hopened⟩ := h.engine run (hsame.runId ▸ hrun)
    exact ⟨hmarket.trans hsame.market, hsame.pending.trans hpending, hopened⟩
  unnamed hnone := hsame.runId.trans (h.unnamed (hsame.store ▸ hnone))
  stored store hstore := by
    rw [hsame.runId, hsame.pending]
    exact (h.stored store (hsame.store ▸ hstore)).imp_right
      (fun hpaused => ⟨hsame.stopped hpaused.1, hpaused.2.1, hsame.counted hpaused.2.2⟩)

theorem of_kept (h : Tracked env start p disk)
    (hkept : ∀ run, KeptRun disk.tables tables run) :
    Tracked env start p { disk with tables := tables } where
  base := h.base.of_kept hkept
  engine run hrun := (h.engine run hrun).of_kept (hkept run)
  unnamed := h.unnamed
  stored := h.stored

theorem pause (h : Tracked env start p disk) : Tracked env start p.pause disk :=
  h.of_same ⟨rfl, rfl, .refl _, rfl, fun _ => rfl, id⟩

theorem countIntegrityFailure (h : Tracked env start p disk) :
    Tracked env start p.countIntegrityFailure disk :=
  h.of_same ⟨rfl, rfl, .refl _, rfl, id, id⟩

theorem checkIdleChain (h : Tracked env start p disk) (head : SignedHead) :
    Tracked env start (p.checkIdleChain head) disk := by
  unfold Poller.checkIdleChain
  split
  · exact h
  · split
    · exact h
    · split <;> exact h.of_same ⟨rfl, rfl, .refl _, rfl, id, id⟩

/-- A poller that runs writes to the run it shows. -/
theorem runId_eq (h : Tracked env start p disk) (hrunning : p.published.executionPaused = false)
    {store : Handle} (hstore : p.store = some store) : p.published.runId = some store.runId := by
  rcases h.stored store hstore with hrun | ⟨hpaused, -⟩
  · exact hrun
  · rw [hrunning] at hpaused
    cases hpaused

theorem pending (h : Tracked env start p disk) {store : Handle} (hstore : p.store = some store) :
    p.published.matcher.pending = some [] :=
  (h.stored store hstore).elim (fun hrun => (h.engine _ hrun).pending) (fun hpaused => hpaused.2.1)

theorem withMatcher (h : Tracked env start p disk) {s : MatcherState}
    (hmarket : SameMarket p.published.matcher s)
    (hpending : s.pending = p.published.matcher.pending)
    (hcounters : counters s = counters p.published.matcher) :
    Tracked env start ((p.withMatcher s).rootAtGenesis env) disk := by
  obtain ⟨hpublished, hstore, hcommitted⟩ := @rootAtGenesis_kept env (p.withMatcher s)
  refine h.of_same ⟨hstore, ?_, ?_, ?_, ?_, ?_⟩
  · rw [hpublished]
    rfl
  · rw [hpublished]
    exact hmarket
  · rw [hpublished]
    exact hpending
  · rw [hpublished]
    exact id
  · rw [hpublished, hcommitted]
    exact hcounters.trans

end Tracked

/-! ## Each function of the poller -/

theorem tracked_heartbeat {due : Bool} (h : Tracked env start p disk) :
    Durable.Ensures (p.heartbeat due) disk (Backed env start)
      (fun p' disk' => Tracked env start p' disk') := by
  unfold heartbeat
  split
  · refine ensures_write h.base (fun now tables hrun => ?_) (fun error => .pure h.base h.pause)
    have hkept := h.of_kept (fun run => .of_updateOwned hrun (fun _ hkey => hkey) run)
    exact ⟨hkept.base, .pure hkept.base hkept⟩
  · exact .pure h.base h

/-- A head that is looked at moves nothing, and leaves the poller running where it trusts it. -/
theorem tracked_acceptHead {head : SignedHead} {session : String} (h : Tracked env start p disk)
    (hrunning : p.published.executionPaused = false) :
    Durable.Ensures (p.acceptHead env head session) disk (Backed env start)
      (fun answer disk' => Tracked env start answer.1 disk' ∧
        (answer.2 = true → answer.1.published.executionPaused = false)) := by
  unfold acceptHead
  have hpinned := @Tracked.withMatcher env start p disk h
    { p.published.matcher with feedPubkey := some head.publicKey } ⟨rfl, rfl, rfl, rfl, rfl⟩ rfl rfl
  have hstill : ((p.withMatcher { p.published.matcher with
      feedPubkey := some head.publicKey }).rootAtGenesis env).published.executionPaused =
        false := by
    rw [(rootAtGenesis_kept _).1]
    exact hrunning
  dsimp only
  split
  · exact .pure h.base ⟨h.countIntegrityFailure, fun hfalse => by cases hfalse⟩
  · split
    · exact .pure h.base ⟨h.countIntegrityFailure, fun hfalse => by cases hfalse⟩
    · split
      · exact .pure h.base ⟨h, fun _ => hrunning⟩
      · split
        · exact .pure h.base ⟨hpinned, fun _ => hstill⟩
        · refine ensures_write h.base (fun now tables hrun => ?_)
            (fun error => .pure h.base ⟨h.pause, fun hfalse => by cases hfalse⟩)
          have hkept := hpinned.of_kept (fun run => .of_updateOwned hrun (fun _ _ => rfl) run)
          exact ⟨hkept.base, .pure hkept.base ⟨hkept, fun _ => hstill⟩⟩

theorem tracked_adoptSession {session : String} (h : Tracked env start p disk) :
    Durable.Ensures (p.adoptSession env session) disk (Backed env start)
      (fun p' disk' => Tracked env start p' disk') := by
  unfold adoptSession
  have hadopted := @Tracked.withMatcher env start p disk h
    { p.published.matcher with feedSession := some session } ⟨rfl, rfl, rfl, rfl, rfl⟩ rfl rfl
  dsimp only
  split
  · exact .pure h.base hadopted
  · refine ensures_write h.base (fun now tables hrun => ?_) (fun error => .pure h.base h.pause)
    have hkept := hadopted.of_kept (fun run => .of_updateOwned hrun (fun _ hkey => hkey) run)
    exact ⟨hkept.base, .pure hkept.base hkept⟩

/-- A commit without a batch, after which a poller that runs has nothing left to write. -/
theorem tracked_commit (h : Tracked env start p disk) :
    Durable.Ensures (p.commit env sign) disk (Backed env start) (fun p' disk' =>
      Tracked env start p' disk' ∧ p'.store = p.store ∧
        (p'.published.executionPaused = false → p'.store.isSome = true →
          counters p'.published.matcher = p'.committed)) := by
  unfold commit
  cases hstore : p.store with
  | none =>
      refine .pure h.base ⟨h, hstore, fun _ hsome => ?_⟩
      rw [hstore] at hsome
      cases hsome
  | some store =>
      rw [takePending_steady (h.pending hstore)]
      simp only [true_and]
      split
      · rename_i hcounters
        exact .pure h.base ⟨h, hstore, fun _ _ => hcounters⟩
      · rename_i hcounters
        have hrun : p.published.runId = some store.runId :=
          (h.stored store hstore).resolve_right (fun hpaused => hcounters hpaused.2.2)
        have hstands := h.engine store.runId hrun
        refine ensures_write h.base (fun now tables hcommit => ?_) (fun error => ?_)
        · have hbase := h.base.commit hstands.market (.inl rfl) rfl hcommit
          refine ⟨hbase, .pure hbase ⟨⟨hbase, fun run hname => ?_, fun hnone => ?_, ?_⟩, hstore,
            fun _ _ => rfl⟩⟩
          · obtain rfl : store.runId = run := Option.some.inj (hrun.symm.trans hname)
            refine ⟨hstands.market, hstands.pending, ?_⟩
            rw [Option.isSome_iff_ne_none]
            exact fun hnone => (Backed.unopened_of_commit hcommit hnone).2 rfl
          · cases hstore.symm.trans hnone
          · intro store' hstore'
            cases hstore.symm.trans hstore'
            exact .inl hrun
        · rw [requeue_nil]
          refine .pure h.base ⟨h.pause, hstore, fun hstopped => ?_⟩
          cases hstopped

/-- A batch that ran and went in is one more of the run. -/
theorem tracked_applyCommittedBatch {messages : List ReadMessage} {head : SignedHead}
    (h : Tracked env start p disk) (hne : messages ≠ []) :
    Durable.Ensures (p.applyCommittedBatch env sign messages head) disk (Backed env start)
      (fun answer disk' => Tracked env start answer.1 disk') := by
  unfold applyCommittedBatch
  cases hrunning : p.published.executionPaused with
  | true => exact .pure h.base h
  | false =>
      simp only [Bool.false_eq_true, if_false]
      cases happly : applyBatch env p.published messages head with
      | error _ => exact .stop h.base
      | ok result =>
          cases applyBatch_eq_ok hne happly with
          | uncovered _ hrejected =>
              obtain ⟨candidate, rejection⟩ := result
              obtain ⟨rejection, rfl⟩ := Option.isSome_iff_exists.1 hrejected
              exact .pure h.base h
          | unread _ _ hrejected =>
              obtain ⟨candidate, rejection⟩ := result
              obtain ⟨rejection, rfl⟩ := Option.isSome_iff_exists.1 hrejected
              exact .pure h.base h
          | @ran _ hread matcher hrun =>
              cases hstore : p.store with
              | none =>
                  have hunnamed := h.unnamed hstore
                  refine .pure h.base ⟨h.base, fun run hname => ?_, fun _ => hunnamed,
                    fun store hsome => ?_⟩
                  · cases hunnamed.symm.trans hname
                  · cases hsome
              | some store =>
                  simp only
                  cases htaken : takePending env matcher with
                  | none => exact .stop h.base
                  | some taken =>
                      obtain ⟨pending, kept⟩ := taken
                      have hname := h.runId_eq hrunning hstore
                      have hstands := h.engine store.runId hname
                      refine .attempt_bind h.base (fun now disk' answer hstatement => ?_)
                        (fun error => .pure h.base h.pause)
                      obtain ⟨tables, hcommit, hdone⟩ := bind_eq_ok.1 hstatement
                      cases hdone
                      obtain ⟨hbase, hkept⟩ := h.base.commitBatch hstands.market hstands.pending
                        hread hrun htaken hcommit
                      refine ⟨hbase, .pure hbase ⟨hbase, fun run hother => ?_, fun hnone => ?_,
                        fun store' hstore' => ?_⟩⟩
                      · obtain rfl : store.runId = run := Option.some.inj (hname.symm.trans hother)
                        refine ⟨?_, ?_, ?_⟩
                        · rw [hkept]
                          exact .refl kept
                        · obtain ⟨_, -, hmade⟩ := Option.map_eq_some_iff.1 htaken
                          cases hmade
                          rfl
                        · rw [Option.isSome_iff_ne_none]
                          exact fun hfree => (Backed.unopened_of_commit hcommit hfree).2 rfl
                      · cases hnone
                      · cases hstore'
                        exact .inl hname

/-! ## A new run -/

/-- A run that was opened and holds nothing, while the poller still shows the run before it. -/
structure Opening (env : Primitives) (start : Tables) (p : Poller) (store : Handle)
    (disk : Disk) : Prop where
  stopped : Tracked env start p.pause disk
  hasStore : p.store = some store
  empty : disk.batchesOf store.runId = []

namespace Opening

variable {store : Handle}

theorem of_kept (h : Opening env start p store disk)
    (hkept : ∀ run, KeptRun disk.tables tables run) :
    Opening env start p store { disk with tables := tables } :=
  ⟨h.stopped.of_kept hkept, h.hasStore, h.empty⟩

/-- The empty engine of the run takes the place of the other. -/
theorem commit (h : Opening env start p store disk) {session : Option String} {ledger : Ledger}
    {now : Int} {s : MatcherState}
    (hs : s = freshMatcher p.published.matcher session ledger (some []))
    (hcommit : disk.tables.commit store now [.executionState s.executionState] (counters s) none =
      .ok tables) :
    Tracked env start (p.restarted env s (some store.runId)) { disk with tables := tables } := by
  have hstanding : disk.standing store.runId = .new := by
    rw [Disk.standing, h.empty]
    rfl
  have hmarket : SameMarket (disk.standing store.runId) s := by
    rw [hstanding, hs]
    exact ⟨rfl, rfl, rfl, rfl, rfl⟩
  have hbase := h.stopped.base.commit hmarket (.inr ⟨_, rfl⟩) rfl hcommit
  refine ⟨hbase, fun run hname => ?_, fun hnone => ?_, fun store' hstore' => ?_⟩
  · obtain rfl : store.runId = run := Option.some.inj hname
    refine ⟨hmarket, by rw [hs]; rfl, ?_⟩
    rw [Option.isSome_iff_ne_none]
    exact fun hfree => (Backed.unopened_of_commit hcommit hfree).2 rfl
  · cases h.hasStore.symm.trans hnone
  · cases h.hasStore.symm.trans hstore'
    exact .inl rfl

end Opening

theorem tracked_beginRun {session : Option String} {store : Handle}
    (h : Opening env start p store disk) :
    Durable.Ensures (p.beginRun env session store) disk (Backed env start)
      (fun p' disk' => Tracked env start p' disk') := by
  unfold beginRun
  refine ensures_writeSetting h.stopped.base (fun _ => h)
    (fun _ tables _ hset => h.of_kept (fun run => .of_updateOwned hset (fun _ hkey => hkey) run))
    (fun disk₁ h₁ => ⟨h₁.stopped.base, ?_⟩) (fun _ => .pure h.stopped.base h.stopped)
  refine ensures_writeSetting h₁.stopped.base (fun _ => h₁)
    (fun _ tables _ hset => h₁.of_kept (fun run => .of_updateOwned hset (fun _ _ => rfl) run))
    (fun disk₂ h₂ => ⟨h₂.stopped.base, ?_⟩) (fun _ => .pure h₁.stopped.base h₁.stopped)
  refine ensures_writeSetting h₂.stopped.base (fun _ => h₂)
    (fun _ tables _ hset => h₂.of_kept (fun run => .of_updateOwned hset (fun _ hkey => hkey) run))
    (fun disk₃ h₃ => ⟨h₃.stopped.base, ensures_openingLedger h₃.stopped.base (fun ledger => ?_)⟩)
    (fun _ => .pure h₂.stopped.base h₂.stopped)
  refine ensures_write h₃.stopped.base (fun _ tables hcommit => ?_)
    (fun _ => .pure h₃.stopped.base h₃.stopped)
  have hbegun := h₃.commit rfl hcommit
  exact ⟨hbegun.base, .pure hbegun.base hbegun⟩

theorem tracked_startNewRun {session : Option String} (h : Tracked env start p disk) :
    Durable.Ensures (p.startNewRun env sign pid session) disk (Backed env start)
      (fun p' disk' => Tracked env start p' disk') := by
  unfold startNewRun
  refine .bind (tracked_commit h) (fun p₁ disk₁ ⟨h₁, _, hcounters⟩ => ?_)
  dsimp only
  split
  · exact .pure h₁.base h₁
  · rename_i hrunning
    rw [Bool.not_eq_true] at hrunning
    cases hstore : p₁.store with
    | none =>
        refine ensures_openingLedger h₁.base (fun ledger => .pure h₁.base ⟨h₁.base, ?_, ?_, ?_⟩)
        · exact fun run hname => by cases hname
        · exact fun _ => rfl
        · exact fun store hsome => by cases hstore.symm.trans hsome
    | some closed =>
        refine ensures_write h₁.base (fun _ tables hclose => ?_)
          (fun _ => .pure h₁.base h₁.pause)
        have h₂ := h₁.of_kept (fun run => .of_updateOwned hclose (fun _ hkey => hkey) run)
        refine ⟨h₂.base, ensures_statement h₂.base (fun _ tables store hstart => ?_)
          (fun _ => .pure h₂.base h₂.pause)⟩
        obtain ⟨hbase, hempty, -⟩ := h₂.base.startRun hstart
        have hopening : Opening env start { p₁ with store := some store } store
            ⟨tables, disk₁.batches⟩ := by
          refine ⟨⟨hbase, fun run hname => ?_, fun hnone => ?_, fun store' hstore' => .inr ?_⟩, rfl,
            hempty⟩
          · obtain ⟨hmarket, hpending, hopened⟩ := h₂.engine run hname
            refine ⟨hmarket, hpending, ?_⟩
            obtain ⟨-, ⟨row, hruns⟩, -⟩ := Tables.startRun_rows hstart
            rw [hruns, SortedMap.get?_insert]
            split
            · rfl
            · exact hopened
          · cases hnone
          · refine ⟨rfl, h₂.pending hstore, hcounters hrunning ?_⟩
            rw [hstore]
            rfl
        exact ⟨hbase, tracked_beginRun hopening⟩

/-! ## One turn of the loop -/

theorem tracked_takePage {due : Bool} {session : String} {head : SignedHead}
    {messages : List ReadMessage} {newest : Option OrderId} (h : Tracked env start p disk) :
    Durable.Ensures (p.takePage env sign pid due session head messages newest) disk
      (Backed env start) (fun p' disk' => Tracked env start p' disk') := by
  unfold takePage
  by_cases hempty : messages = []
  · subst hempty
    simp only [if_true]
    have hpolled : ∀ polls, Tracked env start { p with emptyPolls := polls } disk := fun polls =>
      h.of_same ⟨rfl, rfl, .refl _, rfl, id, id⟩
    split
    · exact tracked_startNewRun (hpolled _)
    · exact .bind (tracked_commit ((hpolled _).checkIdleChain head))
        (fun p₁ disk₁ hdone => tracked_heartbeat hdone.1)
  · simp only [hempty, if_false]
    have hpolled : Tracked env start { p with emptyPolls := 0 } disk :=
      h.of_same ⟨rfl, rfl, .refl _, rfl, id, id⟩
    refine .bind (tracked_applyCommittedBatch hpolled hempty) (fun answer disk₁ h₁ => ?_)
    obtain ⟨p₁, rejection⟩ := answer
    dsimp only
    split
    · exact tracked_heartbeat h₁
    · exact .pure (Tracked.base h₁) h₁

theorem tracked_poll {answer : Answer} {due : Bool} (h : Tracked env start p disk) :
    Durable.Ensures (p.poll env sign pid answer due) disk (Backed env start)
      (fun p' disk' => Tracked env start p' disk') := by
  unfold poll
  cases hrunning : p.published.executionPaused with
  | true => exact .pure h.base h
  | false =>
      simp only [Bool.false_eq_true, if_false]
      split
      · refine .bind (tracked_acceptHead h hrunning) (fun answer disk₁ ⟨h₁, _⟩ => ?_)
        obtain ⟨p₁, accepted⟩ := answer
        dsimp only
        split
        · exact tracked_heartbeat h₁
        · split
          · split
            · exact tracked_startNewRun h₁
            · exact tracked_takePage h₁
          · split
            · exact tracked_startNewRun h₁
            · exact .bind (tracked_adoptSession h₁) (fun _ _ h₂ => tracked_takePage h₂)
      · exact tracked_heartbeat h.countIntegrityFailure
      · exact tracked_heartbeat h

/-! ## The start of a process -/

theorem backed_claimOpenRun {settings : Settings} {path : String} (h : Backed env start disk) :
    Durable.Ensures (claimOpenRun settings path) disk (Backed env start)
      (fun found disk' => Backed env start disk' ∧ disk'.batches = disk.batches ∧
        ∀ store, found = some store → (disk'.tables.runs.get? store.runId).isSome = true) := by
  unfold claimOpenRun
  refine ensures_orExit h (fun now tables found hinspect => ?_)
  obtain ⟨found', -, hinspect⟩ := bind_eq_ok.1 hinspect
  cases hinspect
  refine ⟨h, ?_⟩
  cases found with
  | none => exact .pure h ⟨h, rfl, fun store hnone => by cases hnone⟩
  | some seen =>
      refine ensures_orExit h (fun now tables claimed htake => ?_)
      obtain rfl : tables = (disk.tables.takeRun seen now settings.pid).1 := by
        cases htake
        rfl
      have htaken : Backed env start
          { disk with tables := (disk.tables.takeRun seen now settings.pid).1 } :=
        h.of_kept (fun run => .of_takeRun run)
      refine ⟨htaken, ?_⟩
      split
      · exact .stop htaken
      · rename_i hclaimed
        split
        · refine .bind (ensures_orExit_write htaken (fun now tables hclose => ?_))
            (fun _ disk' (h' : Backed env start disk' ∧ disk'.batches = disk.batches) =>
              .pure h'.1 ⟨h'.1, h'.2, fun store hnone => by cases hnone⟩)
          have hclosed := htaken.of_kept
            (fun run => .of_updateOwned hclose (fun _ hkey => hkey) run)
          exact ⟨hclosed, hclosed, rfl⟩
        · refine .pure htaken ⟨htaken, rfl, fun store hstore => ?_⟩
          cases hstore
          have htrue : disk.tables.takeRun seen now settings.pid =
              ((disk.tables.takeRun seen now settings.pid).1, true) := by
            cases htake
            rw [Bool.not_eq_true, Bool.not_eq_false'] at hclaimed
            exact Prod.ext rfl hclaimed
          obtain ⟨row, -, -, -, hruns⟩ := Tables.takeRun_true htrue
          rw [hruns, SortedMap.get?_insert_self]
          rfl

/-- The engine that is resumed stands where the run stands. -/
theorem stands_resumeState {settings : Settings} {store : Handle} (h : Backed env start disk)
    (hopened : (disk.tables.runs.get? store.runId).isSome = true) :
    Durable.Ensures (resumeState env settings store) disk (Backed env start) (fun state disk' =>
      Backed env start disk' ∧ disk'.batches = disk.batches ∧ Stands disk' store.runId state) := by
  unfold resumeState
  refine ensures_orExit h (fun now tables loaded hload => ?_)
  obtain ⟨snapshot, hsnapshot, hload⟩ := bind_eq_ok.1 hload
  cases hload
  refine ⟨h, ?_⟩
  simp only
  split
  · rename_i restored hauth hrestore
    split
    · exact .stop h
    · split
      · exact .stop h
      · have hmarket := (h.backs store.runId).reloaded hsnapshot hrestore
        have hpending : restored.pending = some [] := by
          obtain ⟨limits, mids, _, -, rfl⟩ := MatcherState.restore_eq_ok hrestore
          exact (MatcherState.restored_fields env snapshot limits mids _ _).2.1
        obtain ⟨ledger, hpolicy⟩ := underPolicy_eq settings snapshot restored
        refine .pure h ⟨h, rfl, ?_⟩
        rw [hpolicy]
        exact ⟨hmarket.trans ⟨rfl, rfl, rfl, rfl, rfl⟩, hpending, hopened⟩
  · exact .stop h

theorem stands_openRun {settings : Settings} {path : String} (h : Backed env start disk) :
    Durable.Ensures (openRun env settings path) disk (Backed env start) (fun opened disk' =>
      Backed env start disk' ∧ disk'.batches = disk.batches ∧
        Stands disk' opened.1.runId opened.2) := by
  unfold openRun
  refine .bind (backed_claimOpenRun h) (fun found disk₁ ⟨h₁, hsame, hfound⟩ => ?_)
  cases found with
  | some store =>
      exact .bind (stands_resumeState h₁ (hfound store rfl))
        (fun state disk₂ hstate => .pure hstate.1 ⟨hstate.1, hstate.2.1.trans hsame, hstate.2.2⟩)
  | none =>
      refine ensures_orExit h₁ (fun now tables store hstart => ?_)
      obtain ⟨h₂, hempty, hopened⟩ := h₁.startRun hstart
      have hstanding : Disk.standing ⟨tables, disk₁.batches⟩ store.runId = .new := by
        have hnone : Disk.batchesOf ⟨tables, disk₁.batches⟩ store.runId = [] := hempty
        rw [Disk.standing, hnone]
        rfl
      refine ⟨h₂, .pure h₂ ⟨h₂, hsame, ?_, rfl, hopened⟩⟩
      rw [hstanding]
      exact ⟨rfl, rfl, rfl, rfl, rfl⟩

theorem stands_persistGenesis {store : Handle} {state : MatcherState} (h : Backed env start disk)
    (hstands : Stands disk store.runId state) :
    Durable.Ensures (persistGenesis store state) disk (Backed env start) (fun _ disk' =>
      Backed env start disk' ∧ disk'.batches = disk.batches ∧ Stands disk' store.runId state) := by
  unfold persistGenesis
  split
  · refine ensures_orExit_write h (fun now tables hcommit => ?_)
    have hbase := h.commit hstands.market (.inr ⟨_, rfl⟩) rfl hcommit
    refine ⟨hbase, hbase, rfl, hstands.market, hstands.pending, ?_⟩
    rw [Option.isSome_iff_ne_none]
    exact fun hfree => (Backed.unopened_of_commit hcommit hfree).2 rfl
  · exact .pure h ⟨h, rfl, hstands⟩

theorem backed_pinClaimKey {store : Handle} {pubkey : String} (h : Backed env start disk) :
    Durable.Ensures (pinClaimKey store pubkey) disk (Backed env start) (fun _ disk' =>
      ∃ tables, disk' = { disk with tables := tables } ∧
        ∀ run, KeptRun disk.tables tables run) := by
  unfold pinClaimKey
  refine ensures_orExit h (fun now tables recorded hread => ?_)
  obtain ⟨run, -, hread⟩ := bind_eq_ok.1 hread
  cases hread
  refine ⟨h, ?_⟩
  split
  · split
    · exact .pure h ⟨_, rfl, .refl _⟩
    · exact .stop h
  · refine ensures_orExit_write h (fun now tables hset => ?_)
    have hkept : ∀ run, KeptRun disk.tables tables run := fun run =>
      .of_updateOwned hset (fun _ hkey => hkey) run
    exact ⟨h.of_kept hkept, tables, rfl, hkept⟩

theorem stands_openState {settings : Settings} (h : Backed env start disk) :
    Durable.Ensures (openState env settings) disk (Backed env start) (fun opened disk' =>
      Backed env start disk' ∧ disk'.batches = disk.batches ∧
        ∀ store, opened.1 = some store → Stands disk' store.runId opened.2) := by
  unfold openState
  cases settings.stateDb with
  | none => exact .pure h ⟨h, rfl, fun store hstore => by cases hstore⟩
  | some path =>
      refine .bind (stands_openRun h) (fun opened disk₁ ⟨h₁, hsame, hstands⟩ => ?_)
      refine .bind (stands_persistGenesis h₁ hstands) (fun _ disk₂ ⟨h₂, hsame₂, hstands₂⟩ => ?_)
      refine .pure h₂ ⟨h₂, hsame₂.trans hsame, fun store hstore => ?_⟩
      cases hstore
      exact hstands₂

/-- A process starts with a poller that stands where its run stands. -/
theorem tracked_launch {settings : Settings} (h : Backed env start disk) :
    Durable.Ensures (launch env settings) disk (Backed env start)
      (fun p disk' => Tracked env start p disk') := by
  unfold launch
  refine .bind (stands_openState h) (fun opened disk₁ ⟨h₁, _, hopened⟩ => ?_)
  obtain ⟨store, state⟩ := opened
  cases store with
  | none =>
      refine .pure h₁ ⟨h₁, fun run hname => ?_, fun _ => rfl, fun store hstore => ?_⟩
      · cases hname
      · cases hstore
  | some store =>
      refine .bind (backed_pinClaimKey h₁) (fun _ disk₂ hpinned => ?_)
      obtain ⟨tables, rfl, hkept⟩ := hpinned
      have h₂ := h₁.of_kept hkept
      refine .pure h₂ ⟨h₂, fun run hname => ?_, fun hnone => ?_, fun store' hstore => ?_⟩
      · obtain rfl : store.runId = run := Option.some.inj hname
        exact (hopened store rfl).of_kept (hkept _)
      · cases hnone
      · cases hstore
        exact .inl rfl

/-! ## Processes one after the other -/

theorem tracked_turns {life : Lifetime} :
    ∀ {turns : List (Answer × Bool)} {p : Poller} {disk : Disk}, Tracked env start p disk →
      Durable.Ensures (turns.foldlM (fun p turn => p.poll env life.sign life.settings.pid turn.1
        turn.2) p) disk (Backed env start) (fun p' disk' => Tracked env start p' disk')
  | [], _, _, h => .pure h.base h
  | _ :: _, _, _, h => by
      rw [List.foldlM_cons]
      exact .bind (tracked_poll h) (fun _ _ hdone => tracked_turns hdone)

theorem tracked_live {life : Lifetime} (h : Backed env start disk) :
    Durable.Ensures (life.live env) disk (Backed env start)
      (fun p disk' => Tracked env start p disk') :=
  .bind (tracked_launch h) (fun _ _ hlaunched => tracked_turns hlaunched)

/-- The last commit, and the run marked stopped. -/
theorem tracked_finish (h : Tracked env start p disk) :
    Durable.Ensures (p.finish env sign) disk (Backed env start)
      (fun p' disk' => Tracked env start p' disk') := by
  unfold finish
  refine .bind (tracked_commit h) (fun p₁ disk₁ hdone => ?_)
  have h₁ := hdone.1
  split
  · exact .pure h₁.base h₁
  · split
    · exact .pure h₁.base h₁
    · refine ensures_write h₁.base (fun now tables hclose => ?_) (fun _ => .pure h₁.base h₁.pause)
      have h₂ := h₁.of_kept (fun run => .of_updateOwned hclose (fun _ hkey => hkey) run)
      exact ⟨h₂.base, .pure h₂.base h₂⟩

theorem tracked_serve {life : Lifetime} (h : Backed env start disk) :
    Durable.Ensures (life.serve env) disk (Backed env start)
      (fun p disk' => Tracked env start p disk') :=
  .bind (tracked_live h) (fun _ _ hlived => tracked_finish hlived)

theorem backed_empty (env : Primitives) : Backed env Disk.empty.tables .empty where
  backs run :=
    { shown := ⟨.empty, ⟨fun _ _ => rfl, fun hrow => (by cases hrow), fun hrow => (by cases hrow),
        fun _ => rfl, rfl⟩, shows_new⟩
      steady := steady_new
      fits := (by decide : ((0 : Nat) : Int) ≤ i64Max)
      cursor := fun point hpoint => by cases hpoint }
  told run := fun front batch back hsplit => by
    have hlength := congrArg List.length hsplit
    rw [List.length_append, List.length_cons] at hlength
    exact absurd hlength (Nat.ne_of_lt (Nat.succ_pos _))
  unopened _ _ := rfl
  grown := .refl _

/-- What a database has, the processes after keep. -/
theorem Backed.serve_all (lives : List (Lifetime × List (Fate Int StoreError)))
    (h : Backed env start disk) :
    Backed env start (lives.foldl (fun disk life => (life.1.serve env disk life.2).2.1) disk) := by
  induction lives generalizing disk with
  | nil => exact h
  | cons life lives ih => exact ih (tracked_serve h life.2).1

theorem backed_after (env : Primitives) (lives : List (Lifetime × List (Fate Int StoreError))) :
    Backed env Disk.empty.tables (Disk.after env lives) :=
  (backed_empty env).serve_all lives

end

/-! ## What is read back -/

/-- The rows on disk tell the story of a run: they are those of the engine its batches left, and
each batch ran from where the ones before it ended. -/
structure Faithful (env : Primitives) (disk : Disk) (run : Int) : Prop where
  rows : disk.tables.Backs run (disk.standing run)
  told : Told env (disk.batchesOf run)

/-- Whatever processes wrote the database, and wherever each was cut or refused, the rows of every
run are those of the engine its committed batches left. -/
theorem rows_of_batches (env : Primitives)
    (lives : List (Lifetime × List (Fate Int StoreError))) (run : Int) :
    Faithful env (Disk.after env lives) run :=
  have h := backed_after env lives
  ⟨h.backs run, h.told run⟩

/-- A process that resumes a run serves the books, the markets, the trades and the cursor that the
process before it served, whatever its own settings are. -/
theorem restart_resumes (env : Primitives)
    (earlier : List (Lifetime × List (Fate Int StoreError))) (life : Lifetime)
    (settings : Settings) :
    Durable.Ensures (life.live env) (Disk.after env earlier)
      (Backed env (Disk.after env earlier).tables) (fun p disk =>
        ∀ run, p.published.runId = some run →
          Durable.Ensures (openState env settings) disk (Backed env disk.tables) (fun opened _ =>
            ∀ store, opened.1 = some store → store.runId = run →
              SameMarket p.published.matcher opened.2)) := by
  refine .mono (tracked_live (backed_after env earlier).rebased) (fun p disk h run hname => ?_)
  refine .mono (stands_openState h.base.rebased) (fun opened disk' hopened store hstore hrun => ?_)
  obtain ⟨-, hbatches, hstands⟩ := hopened
  have hmarket := (hstands store hstore).market
  rw [hrun, Disk.standing, Disk.batchesOf, hbatches] at hmarket
  exact (h.engine run hname).market.symm.trans hmarket

end Poller
end VerifiableExchange
