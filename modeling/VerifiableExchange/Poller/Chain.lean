import VerifiableExchange.Matcher.Authority
import VerifiableExchange.Poller.Loop
import VerifiableExchange.Store.Claims
import Mathlib.Data.List.Chain

/-!
# Chain — the claims of a run, one after the other

Each claim covers one committed batch: the messages it consumed, the root before it and the root
after it. The claims of a run follow each other without a hole, from the empty engine of the run up
to its cursor, and every statement of the poller and of a process that starts keeps them so.
-/

namespace VerifiableExchange
namespace Poller

open Lib Matcher Store

/-! ## What the claims of a run say -/

/-- The batches that were committed to one run, the oldest first. -/
def Disk.batchesOf (disk : Disk) (run : Int) : List Batch :=
  disk.batches.filter (fun batch => batch.runId = run)

/-- The root of an engine that consumed nothing, under the policy, the session and the key of
`s`. -/
def genesisRoot (env : Primitives) (s : MatcherState) : Bytes :=
  stateRoot env { MatcherState.new with
    executionExtensions := s.executionExtensions
    resourceLimits := s.resourceLimits
    ledger := s.ledger
    feedSession := s.feedSession
    feedPubkey := s.feedPubkey }

/-- The claim covers the batch: its messages, the two roots and the count of trades. -/
structure Covers (env : Primitives) (batch : Batch) (claim : ClaimRow) : Prop where
  fromMsg : claim.fromMsg = batch.before.lastSeen + 1
  toMsg : claim.toMsg = batch.after.lastSeen
  nonempty : claim.fromMsg ≤ claim.toMsg
  rootBefore : claim.rootBefore = stateRoot env batch.before
  rootAfter : claim.rootAfter = stateRoot env batch.after
  tradesTotal : claim.tradesTotal = batch.after.tradesTotal
  ids : batch.messages.map ReadMessage.id =
    List.range' claim.fromMsg (claim.toMsg + 1 - claim.fromMsg)
  ran : ∃ matcher, firstUnread batch.messages = none ∧
    MatcherState.run env batch.before (logOf batch.messages) = .ok matcher ∧
      batch.after = { matcher with pending := some [] }

/-- One claim follows another. -/
structure Linked (claim next : ClaimRow) : Prop where
  fromMsg : next.fromMsg = claim.toMsg + 1
  rootBefore : next.rootBefore = claim.rootAfter

/-- The claims cover the batches one by one, and follow each other from the empty engine on. -/
structure ClaimChain (env : Primitives) (batches : List Batch) (claims : List ClaimRow) : Prop where
  covers : List.Forall₂ (Covers env) batches claims
  links : claims.IsChain Linked
  first : ∀ batch claim, batches.head? = some batch → claims.head? = some claim →
    claim.fromMsg = 1 ∧ claim.rootBefore = genesisRoot env batch.before

/-- The last message the claims cover. -/
def claimedUpTo (claims : List ClaimRow) : OrderId :=
  (claims.getLast?.map ClaimRow.toMsg).getD 0

namespace ClaimChain

variable {env : Primitives} {batches : List Batch} {claims : List ClaimRow}

theorem nil : ClaimChain env [] [] :=
  ⟨.nil, .nil, fun _ _ h => by cases h⟩

/-- A claim that begins where the others end is one more of the chain. -/
theorem snoc {batch : Batch} {claim : ClaimRow} (h : ClaimChain env batches claims)
    (hcovers : Covers env batch claim) (hfrom : claim.fromMsg = claimedUpTo claims + 1)
    (hroot : ∀ last, claims.getLast? = some last → claim.rootBefore = last.rootAfter)
    (hgenesis : claims = [] → claim.rootBefore = genesisRoot env batch.before) :
    ClaimChain env (batches ++ [batch]) (claims ++ [claim]) where
  covers := List.rel_append h.covers (.cons hcovers .nil)
  links := by
    refine List.isChain_append.2 ⟨h.links, .singleton _, fun last hlast next hnext => ?_⟩
    cases Option.some.inj hnext
    have hlast' : claims.getLast? = some last := hlast
    refine ⟨?_, hroot last hlast'⟩
    rw [hfrom, claimedUpTo, hlast']
    rfl
  first b c hb hc := by
    cases hclaims : claims with
    | nil =>
        have hbatches : batches = [] := by
          have hlength := h.covers.length_eq
          rw [hclaims] at hlength
          exact List.length_eq_zero_iff.1 hlength
        rw [hbatches] at hb
        rw [hclaims] at hc
        cases hb
        cases hc
        refine ⟨?_, hgenesis hclaims⟩
        rw [hfrom, hclaims]
        rfl
    | cons c' rest =>
        cases hbatches : batches with
        | nil =>
            have hlength := h.covers.length_eq
            rw [hclaims, hbatches] at hlength
            cases hlength
        | cons b' rest' =>
            rw [hbatches] at hb
            rw [hclaims] at hc
            cases hb
            cases hc
            exact h.first b c (by rw [hbatches]; rfl) (by rw [hclaims]; rfl)

theorem exists_batch {claim : ClaimRow} (h : List.Forall₂ (Covers env) batches claims)
    (hmem : claim ∈ claims) : ∃ batch ∈ batches, Covers env batch claim := by
  induction h with
  | nil => cases hmem
  | @cons batch head batches claims hcovers _ ih =>
      rcases List.mem_cons.1 hmem with rfl | hmem
      · exact ⟨batch, List.mem_cons_self, hcovers⟩
      · obtain ⟨found, hfound, h⟩ := ih hmem
        exact ⟨found, List.mem_cons_of_mem _ hfound, h⟩

theorem nonempty (h : ClaimChain env batches claims) {claim : ClaimRow} (hmem : claim ∈ claims) :
    claim.fromMsg ≤ claim.toMsg := by
  obtain ⟨batch, -, hcovers⟩ := exists_batch h.covers hmem
  exact hcovers.nonempty

/-- Every claim ends before the ones after it begin. -/
theorem pairwise (h : ClaimChain env batches claims) :
    claims.Pairwise (fun c d => c.toMsg < d.fromMsg ∧ d.fromMsg ≤ d.toMsg) := by
  have hchain : claims.IsChain (fun c d => c.toMsg < d.fromMsg ∧ d.fromMsg ≤ d.toMsg) := by
    refine List.IsChain.imp_of_mem_imp (fun c d _ hd hlinked => ⟨?_, h.nonempty hd⟩) h.links
    rw [hlinked.fromMsg]
    exact Nat.lt_succ_self _
  have htrans : IsTrans ClaimRow (fun c d => c.toMsg < d.fromMsg ∧ d.fromMsg ≤ d.toMsg) :=
    ⟨fun _ _ _ hcd hde => ⟨lt_of_lt_of_le hcd.1 (le_trans hcd.2 hde.1.le), hde.2⟩⟩
  exact List.isChain_iff_pairwise.1 hchain

/-- No claim ends past the last one, and no other claim ends where it does. -/
theorem toMsg_le (h : ClaimChain env batches claims) {claim : ClaimRow} (hmem : claim ∈ claims) :
    claim.toMsg ≤ claimedUpTo claims ∧
      (claim.toMsg = claimedUpTo claims → claims.getLast? = some claim) := by
  obtain ⟨front, last, hclaims⟩ : ∃ front last, claims = front ++ [last] := by
    rcases List.eq_nil_or_concat claims with hnil | ⟨front, last, hlast⟩
    · rw [hnil] at hmem
      cases hmem
    · exact ⟨front, last, by rw [hlast, List.concat_eq_append]⟩
  have hlast : claims.getLast? = some last := by
    rw [hclaims, List.getLast?_concat]
  have hupTo : claimedUpTo claims = last.toMsg := by
    rw [claimedUpTo, hlast]
    rfl
  have hpairwise := h.pairwise
  rw [hclaims] at hmem hpairwise
  rw [hupTo, hlast]
  rcases List.mem_append.1 hmem with hmem | hmem
  · have hbefore := (List.pairwise_append.1 hpairwise).2.2 claim hmem last List.mem_cons_self
    have hlt : claim.toMsg < last.toMsg := lt_of_lt_of_le hbefore.1 hbefore.2
    exact ⟨hlt.le, fun heq => absurd heq hlt.ne⟩
  · rw [List.mem_singleton.1 hmem]
    exact ⟨le_refl _, fun _ => rfl⟩

/-- A chain without claims covers nothing, and one with claims covers a message. -/
theorem claimedUpTo_pos (h : ClaimChain env batches claims) (hne : claims ≠ []) :
    0 < claimedUpTo claims := by
  obtain ⟨claim, hmem⟩ := List.exists_mem_of_ne_nil claims hne
  obtain ⟨batch, -, hcovers⟩ := exists_batch h.covers hmem
  have hpos : 0 < claim.fromMsg := by
    rw [hcovers.fromMsg]
    exact Nat.succ_pos _
  exact lt_of_lt_of_le hpos (le_trans hcovers.nonempty (h.toMsg_le hmem).1)

end ClaimChain

/-! ## The invariant of the database -/

/-- What holds of one run in the database, wherever a process is cut. -/
structure RunSound (env : Primitives) (disk : Disk) (run : Int) : Prop where
  chain : ClaimChain env (disk.batchesOf run) (disk.tables.claimsOf run)
  cursor : ∀ point, disk.tables.resumePoint.get? run = some point →
    point.lastSeen.val = claimedUpTo (disk.tables.claimsOf run)
  keys : ∀ e ∈ Tables.rowsOf disk.tables.claims run, e.1 = e.2.fromMsg
  pinned : ∀ row, disk.tables.runs.get? run = some row → disk.tables.claimsOf run ≠ [] →
    row.feedPubkey.isSome = true
  unclaimed : disk.tables.claimsOf run = [] → disk.tables.Unclaimed run
  unopened : disk.tables.runs.get? run = none → disk.tables.claimsOf run = []

def Sound (env : Primitives) (disk : Disk) : Prop := ∀ run, RunSound env disk run

/-- A run that keeps its rows, its row of the table of runs, and a key that is fixed there. -/
structure KeptRun (t t' : Tables) (run : Int) : Prop where
  rows : t.Untouched t' run
  opened : ∀ row', t'.runs.get? run = some row' →
    ∃ row, t.runs.get? run = some row ∧
      (row.feedPubkey.isSome = true → row'.feedPubkey.isSome = true)
  unopened : t'.runs.get? run = none → t.runs.get? run = none

theorem RunSound.of_kept {env : Primitives} {disk : Disk} {tables : Tables} {run : Int}
    (h : RunSound env disk run) (hkept : KeptRun disk.tables tables run) :
    RunSound env { disk with tables := tables } run := by
  have hclaims : tables.claimsOf run = disk.tables.claimsOf run := hkept.rows.claimsOf
  refine ⟨?_, fun point hpoint => ?_, ?_, fun row' hrow' hne => ?_, fun hnil => ?_, fun hnone => ?_⟩
  · change ClaimChain env (disk.batchesOf run) (tables.claimsOf run)
    rw [hclaims]
    exact h.chain
  · change point.lastSeen.val = claimedUpTo (tables.claimsOf run)
    rw [hclaims]
    exact h.cursor point (hkept.rows.point ▸ hpoint)
  · change ∀ e ∈ Tables.rowsOf tables.claims run, e.1 = e.2.fromMsg
    rw [Tables.rowsOf_congr hkept.rows.claims]
    exact h.keys
  · obtain ⟨row, hrow, hkey⟩ := hkept.opened row' hrow'
    exact hkey (h.pinned row hrow (hclaims ▸ hne))
  · exact (h.unclaimed (hclaims ▸ hnil)).of_untouched hkept.rows
  · exact hclaims.trans (h.unopened (hkept.unopened hnone))

/-! ## The statements -/

namespace KeptRun

variable {t t' : Tables} {store : Handle}

theorem refl (t : Tables) (run : Int) : KeptRun t t run :=
  ⟨.refl t run, fun row hrow => ⟨row, hrow, id⟩, id⟩

/-- A row of the table of runs written over, with the key it has. -/
theorem of_insert {id : Int} {row row' : RunRow} (hrow : t.runs.get? id = some row)
    (hkey : row.feedPubkey.isSome = true → row'.feedPubkey.isSome = true) (run : Int) :
    KeptRun t { t with runs := t.runs.insert id row' } run := by
  refine ⟨{ Tables.Untouched.refl t run with }, fun after hafter => ?_, fun hnone => ?_⟩
  · by_cases hrun : run = id
    · rw [hrun, SortedMap.get?_insert_self] at hafter
      cases hafter
      exact ⟨row, hrun ▸ hrow, hkey⟩
    · rw [SortedMap.get?_insert_of_ne _ hrun] at hafter
      exact ⟨after, hafter, fun h => h⟩
  · by_cases hrun : run = id
    · rw [hrun, SortedMap.get?_insert_self] at hnone
      cases hnone
    · rwa [SortedMap.get?_insert_of_ne _ hrun] at hnone

theorem of_updateOwned {set : RunRow → RunRow} (h : t.updateOwned store set = .ok t')
    (hset : ∀ row, row.feedPubkey.isSome = true → (set row).feedPubkey.isSome = true)
    (run : Int) : KeptRun t t' run := by
  obtain ⟨row, hrow, -, rfl⟩ := Tables.updateOwned_eq_ok.1 h
  exact of_insert hrow (hset row) run

theorem of_takeRun {seen : SeenRun} {now pid : Int} (run : Int) :
    KeptRun t (t.takeRun seen now pid).1 run := by
  rcases htake : t.takeRun seen now pid with ⟨after, claimed⟩
  cases claimed with
  | true =>
      obtain ⟨row, hrow, -, -, rfl⟩ := Tables.takeRun_true htake
      have hkept : ∀ row' : RunRow, row'.feedPubkey = row.feedPubkey →
          KeptRun t { t with runs := t.runs.insert seen.runId row' } run := fun row' hkey =>
        of_insert hrow (fun h => hkey ▸ h) run
      exact hkept _ rfl
  | false =>
      cases Tables.takeRun_false htake
      exact refl t run

/-- A batch keeps every other run. -/
theorem of_commit {now : Int} {changes : List Change} {counters : Counters}
    {claim : Option ClaimRow} (h : t.commit store now changes counters claim = .ok t') {run : Int}
    (hne : run ≠ store.runId) : KeptRun t t' run := by
  obtain ⟨row, -, -, hruns⟩ := (Tables.commit_eq_ok h).owned
  have hget : t'.runs.get? run = t.runs.get? run := by
    rw [hruns, SortedMap.get?_insert_of_ne _ hne]
  exact ⟨Tables.commit_untouched h hne, fun after hafter => ⟨after, hget ▸ hafter, id⟩,
    fun hnone => hget ▸ hnone⟩

end KeptRun

namespace Sound

variable {env : Primitives} {disk : Disk} {tables : Tables} {store : Handle}

theorem of_kept (h : Sound env disk) (hkept : ∀ run, KeptRun disk.tables tables run) :
    Sound env { disk with tables := tables } := fun run => (h run).of_kept (hkept run)

/-- A run that starts has neither batches nor claims. -/
theorem startRun (h : Sound env disk) {feedUrl : String} {now pid : Int}
    (hstart : disk.tables.startRun feedUrl now pid = .ok (tables, store)) :
    Sound env { disk with tables := tables } ∧ tables.claimsOf store.runId = [] ∧
      tables.Unclaimed store.runId := by
  obtain ⟨hfree, ⟨row, hruns⟩, hothers, hclaims, hunclaimed⟩ := Tables.startRun_rows hstart
  have hnone : disk.tables.claimsOf store.runId = [] := (h store.runId).unopened hfree
  have hnil : tables.claimsOf store.runId = [] := by
    unfold Tables.claimsOf at hnone ⊢
    rw [hclaims, hnone]
  have hfresh := hunclaimed ((h store.runId).unclaimed hnone)
  refine ⟨fun run => ?_, hnil, hfresh⟩
  by_cases hrun : run = store.runId
  · subst hrun
    refine ⟨?_, fun point hpoint => ?_, ?_, fun _ _ hne => absurd hnil hne, fun _ => hfresh,
      fun _ => hnil⟩
    · change ClaimChain env (disk.batchesOf store.runId) (tables.claimsOf store.runId)
      rw [hnil, ← hnone]
      exact (h store.runId).chain
    · change point.lastSeen.val = claimedUpTo (tables.claimsOf store.runId)
      rw [hnil]
      exact (hfresh.point point hpoint).1
    · change ∀ e ∈ Tables.rowsOf tables.claims store.runId, e.1 = e.2.fromMsg
      rw [hclaims]
      exact (h store.runId).keys
  · have hget : tables.runs.get? run = disk.tables.runs.get? run := by
      rw [hruns, SortedMap.get?_insert_of_ne _ hrun]
    exact (h run).of_kept ⟨hothers run hrun, fun after hafter => ⟨after, hget ▸ hafter, id⟩,
      fun hnone => hget ▸ hnone⟩

/-- Counters and an execution state written without a batch, at the cursor where the run stands. -/
theorem commit (h : Sound env disk) {now : Int} {changes : List Change} {counters : Counters}
    (hcommit : disk.tables.commit store now changes counters none = .ok tables)
    (hseen : counters.lastSeen = claimedUpTo (disk.tables.claimsOf store.runId))
    (hgenesis : counters.lastSeen = 0 →
      (changes = [] ∨ ∃ execution, changes = [.executionState execution] ∧
        execution.midWindows = .empty) ∧
      counters.chain = some MatcherState.emptyChain ∧ counters.operatorKey = none ∧
        counters.ruleVersion = 1) :
    Sound env { disk with tables := tables } ∧
      tables.claimsOf store.runId = disk.tables.claimsOf store.runId := by
  have hclaims : tables.claims = disk.tables.claims := Tables.claims_commit hcommit
  have hsame : tables.claimsOf store.runId = disk.tables.claimsOf store.runId := by
    unfold Tables.claimsOf
    rw [hclaims]
  refine ⟨fun run => ?_, hsame⟩
  by_cases hrun : run = store.runId
  · subst hrun
    have hdone := Tables.commit_eq_ok hcommit
    obtain ⟨row, hrow, -, hruns⟩ := hdone.owned
    refine ⟨?_, fun point hpoint => ?_, ?_, fun row' hrow' hne => ?_, fun hnil => ?_,
      fun hnone => ?_⟩
    · change ClaimChain env (disk.batchesOf store.runId) (tables.claimsOf store.runId)
      rw [hsame]
      exact (h store.runId).chain
    · change point.lastSeen.val = claimedUpTo (tables.claimsOf store.runId)
      have hcursor := hdone.cursor
      rw [hpoint, Option.map_some, Option.some.injEq] at hcursor
      rw [hcursor, integer_val hdone.fits, hsame, hseen]
    · change ∀ e ∈ Tables.rowsOf tables.claims store.runId, e.1 = e.2.fromMsg
      rw [hclaims]
      exact (h store.runId).keys
    · rw [hruns, SortedMap.get?_insert_self] at hrow'
      cases hrow'
      exact (h store.runId).pinned row hrow (hsame ▸ hne)
    · have hnil' : disk.tables.claimsOf store.runId = [] := hsame ▸ hnil
      have hzero : counters.lastSeen = 0 := by
        rw [hseen, hnil']
        rfl
      obtain ⟨hchanges, hchain, hkey, hrules⟩ := hgenesis hzero
      exact ((h store.runId).unclaimed hnil').of_commit hcommit hchanges hzero hchain hkey hrules
    · rw [hruns, SortedMap.get?_insert_self] at hnone
      cases hnone
  · exact (h run).of_kept (.of_commit hcommit hrun)

/-- A batch and the claim over it go in together. -/
theorem commitBatch (h : Sound env disk) {batch : Batch} {now : Int} {changes : List Change}
    {counters : Counters} {claim : ClaimRow} (hrunId : batch.runId = store.runId)
    (hcommit : disk.tables.commit store now changes counters (some claim) = .ok tables)
    (hcovers : Covers env batch claim) (hseen : counters.lastSeen = claim.toMsg)
    (hfrom : claim.fromMsg = claimedUpTo (disk.tables.claimsOf store.runId) + 1)
    (hroot : ∀ last, (disk.tables.claimsOf store.runId).getLast? = some last →
      claim.rootBefore = last.rootAfter)
    (hgenesis : disk.tables.claimsOf store.runId = [] →
      claim.rootBefore = genesisRoot env batch.before)
    (hpinned : ∀ row, disk.tables.runs.get? store.runId = some row →
      row.feedPubkey.isSome = true) :
    Sound env ⟨tables, disk.batches ++ [batch]⟩ ∧
      tables.claimsOf store.runId = disk.tables.claimsOf store.runId ++ [claim] := by
  have hdone := Tables.commit_eq_ok hcommit
  have hclaims : tables.claims =
      disk.tables.claims.insert (toLex (store.runId, asI64 claim.fromMsg)) claim :=
    Tables.claims_commit hcommit
  -- A claim that fits is stored under its own first message.
  have hkey : asI64 claim.fromMsg = claim.fromMsg := by
    refine integer_val (le_trans ?_ hdone.fits)
    rw [hseen]
    exact_mod_cast hcovers.nonempty
  have hbefore : ∀ e ∈ Tables.rowsOf disk.tables.claims store.runId,
      e.1 < asI64 claim.fromMsg := by
    intro e he
    have hmem : e.2 ∈ disk.tables.claimsOf store.runId := List.mem_map_of_mem he
    have hle := ((h store.runId).chain.toMsg_le hmem).1
    have hnonempty := (h store.runId).chain.nonempty hmem
    rw [(h store.runId).keys e he, hkey, hfrom]
    exact_mod_cast Nat.lt_succ_of_le (le_trans hnonempty hle)
  have hrows : Tables.rowsOf tables.claims store.runId =
      Tables.rowsOf disk.tables.claims store.runId ++ [(asI64 claim.fromMsg, claim)] := by
    rw [hclaims]
    exact Tables.rowsOf_insert_last hbefore
  have hsnoc : tables.claimsOf store.runId = disk.tables.claimsOf store.runId ++ [claim] := by
    unfold Tables.claimsOf
    rw [hrows, List.map_append]
    rfl
  refine ⟨fun run => ?_, hsnoc⟩
  by_cases hrun : run = store.runId
  · subst hrun
    obtain ⟨row, hrow, -, hruns⟩ := hdone.owned
    have hne : tables.claimsOf store.runId ≠ [] := by
      rw [hsnoc]
      exact List.append_ne_nil_of_right_ne_nil _ (List.cons_ne_nil _ _)
    refine ⟨?_, fun point hpoint => ?_, fun e he => ?_, fun row' hrow' _ => ?_,
      fun hnil => absurd hnil hne, fun hnone => ?_⟩
    · have hbatches : Disk.batchesOf ⟨tables, disk.batches ++ [batch]⟩ store.runId =
          disk.batchesOf store.runId ++ [batch] := by
        unfold Disk.batchesOf
        rw [List.filter_append, List.filter_singleton, decide_eq_true hrunId]
        rfl
      rw [hbatches]
      change ClaimChain env _ (tables.claimsOf store.runId)
      rw [hsnoc]
      exact (h store.runId).chain.snoc hcovers hfrom hroot hgenesis
    · change point.lastSeen.val = claimedUpTo (tables.claimsOf store.runId)
      have hcursor := hdone.cursor
      change tables.resumePoint.get? store.runId = some point at hpoint
      rw [hpoint, Option.map_some, Option.some.injEq] at hcursor
      rw [hcursor, integer_val hdone.fits, hsnoc, claimedUpTo, List.getLast?_concat, hseen]
      rfl
    · change e ∈ Tables.rowsOf tables.claims store.runId at he
      rw [hrows] at he
      rcases List.mem_append.1 he with he | he
      · exact (h store.runId).keys e he
      · rw [List.mem_singleton.1 he]
        exact hkey
    · change tables.runs.get? store.runId = some row' at hrow'
      rw [hruns, SortedMap.get?_insert_self] at hrow'
      cases hrow'
      exact hpinned row hrow
    · change tables.runs.get? store.runId = none at hnone
      rw [hruns, SortedMap.get?_insert_self] at hnone
      cases hnone
  · have hkept := (h run).of_kept (.of_commit hcommit hrun)
    have hbatches : Disk.batchesOf ⟨tables, disk.batches ++ [batch]⟩ run =
        disk.batchesOf run := by
      unfold Disk.batchesOf
      have hother : ¬batch.runId = run := fun heq => hrun (heq.symm.trans hrunId)
      rw [List.filter_append, List.filter_singleton, decide_eq_false hother]
      exact List.append_nil _
    exact { hkept with
      chain := by
        rw [hbatches]
        exact hkept.chain }

end Sound

end Poller
end VerifiableExchange
