import VerifiableExchange.Store.Load
import VerifiableExchange.Matcher.Root

/-!
# Claims — what a batch leaves in the tables of one run

The claims of a run are read in the order of their first messages, so a claim that begins past all
the others is read last. A batch writes rows of its own run only, and a batch that carries no more
than the execution state leaves a run that consumed nothing as it is. What is read back of a run is
stated in terms of its rows.
-/

namespace VerifiableExchange
namespace Store

open Lib Matcher

namespace Tables

/-! ## The rows of one run -/

section Rows

variable {K V : Type} [LinearOrder K] {table table' : SortedMap (RunKey K) V} {run : Int}

theorem mem_rowsOf {k : K} {v : V} :
    (k, v) ∈ rowsOf table run ↔ table.get? (toLex (run, k)) = some v := by
  rw [← SortedMap.mem_entries]
  simp only [rowsOf, List.mem_filterMap, Option.ite_none_right_eq_some, Option.some.injEq,
    Prod.mk.injEq]
  constructor
  · rintro ⟨⟨key, w⟩, hmem, hrun, hk, rfl⟩
    have hkey : key = toLex (run, k) := by
      rw [← hrun, ← hk]
      rfl
    rwa [hkey] at hmem
  · intro hmem
    exact ⟨_, hmem, rfl, rfl, rfl⟩

theorem sorted_rowsOf : Entries.Sorted (rowsOf table run) := by
  unfold Entries.Sorted rowsOf
  rw [List.pairwise_filterMap]
  refine table.sorted.imp (fun {a b} hab x hx y hy => ?_)
  simp only [Option.ite_none_right_eq_some, Option.some.injEq] at hx hy
  obtain ⟨ha, rfl⟩ := hx
  obtain ⟨hb, rfl⟩ := hy
  exact (Prod.Lex.lt_iff'.1 hab).2 (ha.trans hb.symm)

theorem lookup_rowsOf (k : K) :
    Entries.lookup k (rowsOf table run) = table.get? (toLex (run, k)) := by
  ext v
  rw [← mem_rowsOf]
  exact ⟨Entries.mem_of_lookup, Entries.lookup_of_mem sorted_rowsOf⟩

/-- A table that answers the same for a run has the same rows of it. -/
theorem rowsOf_congr (h : ∀ k, table'.get? (toLex (run, k)) = table.get? (toLex (run, k))) :
    rowsOf table' run = rowsOf table run :=
  Entries.ext_of_lookup sorted_rowsOf sorted_rowsOf (fun k => by
    rw [lookup_rowsOf, lookup_rowsOf, h])

theorem rowsOf_eq_nil (h : ∀ k, table.get? (toLex (run, k)) = none) : rowsOf table run = [] := by
  refine List.eq_nil_iff_forall_not_mem.2 (fun e he => ?_)
  have hsome := mem_rowsOf.1 he
  rw [h] at hsome
  cases hsome

omit [LinearOrder K] in
theorem ne_key {other : Int} (hne : run ≠ other) (k k' : K) :
    (toLex (run, k) : RunKey K) ≠ toLex (other, k') := fun h =>
  hne (congrArg (fun key => (ofLex key).1) h)

/-- A row past all the rows of its run is the last of them. -/
theorem rowsOf_insert_last {k : K} {v : V} (h : ∀ e ∈ rowsOf table run, e.1 < k) :
    rowsOf (table.insert (toLex (run, k)) v) run = rowsOf table run ++ [(k, v)] := by
  have hsorted : Entries.Sorted (rowsOf table run ++ [(k, v)]) := by
    refine List.pairwise_append.2 ⟨sorted_rowsOf, List.pairwise_singleton _ _, ?_⟩
    intro e he last hlast
    rw [List.mem_singleton.1 hlast]
    exact h e he
  refine Entries.ext_of_lookup sorted_rowsOf hsorted (fun q => ?_)
  rw [lookup_rowsOf, SortedMap.get?_insert]
  ext w
  constructor
  · intro hw
    split at hw
    · rename_i heq
      cases hw
      have hq : q = k := congrArg (fun key => (ofLex key).2) heq
      rw [hq]
      exact Entries.lookup_of_mem hsorted (List.mem_append_right _ (List.mem_singleton.2 rfl))
    · exact Entries.lookup_of_mem hsorted (List.mem_append_left _ (mem_rowsOf.2 hw))
  · intro hw
    rcases List.mem_append.1 (Entries.mem_of_lookup hw) with hmem | hmem
    · have hne : q ≠ k := ne_of_lt (h _ hmem)
      have hkey : (toLex (run, q) : RunKey K) ≠ toLex (run, k) := fun heq =>
        hne (congrArg (fun key => (ofLex key).2) heq)
      rw [if_neg hkey]
      exact mem_rowsOf.1 hmem
    · cases List.mem_singleton.1 hmem
      rw [if_pos rfl]

end Rows

/-! ## What a batch writes -/

/-- The rows of one run as a batch of another run leaves them. -/
structure Untouched (t t' : Tables) (run : Int) : Prop where
  openOrders : ∀ k, t'.openOrders.get? (toLex (run, k)) = t.openOrders.get? (toLex (run, k))
  trades : ∀ k, t'.trades.get? (toLex (run, k)) = t.trades.get? (toLex (run, k))
  listings : ∀ k, t'.listings.get? (toLex (run, k)) = t.listings.get? (toLex (run, k))
  claims : ∀ k, t'.claims.get? (toLex (run, k)) = t.claims.get? (toLex (run, k))
  point : t'.resumePoint.get? run = t.resumePoint.get? run

theorem Untouched.refl (t : Tables) (run : Int) : Untouched t t run :=
  ⟨fun _ => rfl, fun _ => rfl, fun _ => rfl, fun _ => rfl, rfl⟩

theorem Untouched.trans {t u v : Tables} {run : Int} (h : Untouched t u run)
    (h' : Untouched u v run) : Untouched t v run where
  openOrders k := (h'.openOrders k).trans (h.openOrders k)
  trades k := (h'.trades k).trans (h.trades k)
  listings k := (h'.listings k).trans (h.listings k)
  claims k := (h'.claims k).trans (h.claims k)
  point := h'.point.trans h.point

theorem Untouched.claimsOf {t t' : Tables} {run : Int} (h : Untouched t t' run) :
    t'.claimsOf run = t.claimsOf run :=
  congrArg (List.map Prod.snd) (rowsOf_congr h.claims)

theorem writeChange_untouched {t t' : Tables} {runId run : Int} {change : Change}
    (hne : run ≠ runId) (h : writeChange runId t change = .ok t') : Untouched t t' run := by
  cases change with
  | executionState execution =>
      simp only [writeChange] at h
      split at h
      · cases h
        exact { Untouched.refl t run with
          point := SortedMap.get?_insert_of_ne _ hne _ }
      · cases h
        exact .refl _ _
  | orderRested row =>
      simp only [writeChange, bind_eq_ok] at h
      obtain ⟨_, _, h⟩ := h
      cases h
      exact { Untouched.refl t run with
        openOrders := fun k => SortedMap.get?_insert_of_ne _ (ne_key hne k _) _ }
  | orderReduced orderId qtyTenths =>
      simp only [writeChange] at h
      split at h
      · simp only [bind_eq_ok] at h
        obtain ⟨_, _, h⟩ := h
        cases h
        exact { Untouched.refl t run with
          openOrders := fun k => SortedMap.get?_insert_of_ne _ (ne_key hne k _) _ }
      · cases h
        exact .refl _ _
  | orderClosed orderId =>
      cases h
      exact { Untouched.refl t run with
        openOrders := fun k => SortedMap.get?_erase_of_ne _ (ne_key hne k _) }
  | traded row =>
      simp only [writeChange, bind_eq_ok] at h
      obtain ⟨_, _, h⟩ := h
      cases h
      exact { Untouched.refl t run with
        trades := fun k => SortedMap.get?_insert_of_ne _ (ne_key hne k _) _ }
  | symbolListed row =>
      simp only [writeChange, bind_eq_ok] at h
      obtain ⟨_, _, h⟩ := h
      cases h
      exact { Untouched.refl t run with
        listings := fun k => SortedMap.get?_insert_of_ne _ (ne_key hne k _) _ }
  | symbolDelisted symbol =>
      simp only [writeChange] at h
      split at h
      · cases h
        exact { Untouched.refl t run with
          listings := fun k => SortedMap.get?_insert_of_ne _ (ne_key hne k _) _ }
      · cases h
        exact .refl _ _
  | consumed message =>
      cases h
      exact { Untouched.refl t run with }

theorem claims_writeChange {t t' : Tables} {runId : Int} {change : Change}
    (h : writeChange runId t change = .ok t') : t'.claims = t.claims := by
  unfold writeChange at h
  split at h
  · split at h <;> cases h <;> rfl
  · simp only [bind_eq_ok] at h
    obtain ⟨_, _, h⟩ := h
    cases h
    rfl
  · split at h
    · simp only [bind_eq_ok] at h
      obtain ⟨_, _, h⟩ := h
      cases h
      rfl
    · cases h
      rfl
  · cases h
    rfl
  · simp only [bind_eq_ok] at h
    obtain ⟨_, _, h⟩ := h
    cases h
    rfl
  · simp only [bind_eq_ok] at h
    obtain ⟨_, _, h⟩ := h
    cases h
    rfl
  · split at h <;> cases h <;> rfl
  · cases h
    rfl

theorem writeKind_tables {t t' : Tables} {runId : Int} {kind : String × Nat}
    (h : writeKind runId t kind = .ok t') :
    ∃ kinds, t' = { t with ordersIgnoredKinds := kinds } := by
  simp only [writeKind, bind_eq_ok] at h
  obtain ⟨_, _, h⟩ := h
  cases h
  exact ⟨_, rfl⟩

/-- A batch that went in: `u` holds its changes, and the cursor and the claim come after them. -/
structure Written (u : Tables) (store : Handle) (counters : Counters) (claim : Option ClaimRow)
    (t' : Tables) : Prop where
  openOrders : t'.openOrders = u.openOrders
  trades : t'.trades = u.trades
  listings : t'.listings = u.listings
  resumePoint : t'.resumePoint = (u.writeResumePoint store.runId counters).resumePoint
  claims : t'.claims = claim.elim u.claims (fun c =>
    u.claims.insert (toLex (store.runId, asI64 c.fromMsg)) c)

theorem beat_tables (t : Tables) (runId now : Int) :
    ∃ runs, t.beat runId now = { t with runs := runs } := by
  unfold beat updateRun
  split
  · exact ⟨_, rfl⟩
  · exact ⟨_, rfl⟩

theorem commit_written {t t' : Tables} {store : Handle} {now : Int} {changes : List Change}
    {counters : Counters} {claim : Option ClaimRow}
    (h : t.commit store now changes counters claim = .ok t') :
    ∃ u, changes.foldlM (writeChange store.runId) t = .ok u ∧
      Written u store counters claim t' := by
  simp only [commit, bind_eq_ok] at h
  obtain ⟨_, -, _, -, _, -, u, hu, v, hv, w, hw, h⟩ := h
  cases h
  obtain ⟨kinds, rfl⟩ := foldlM_invariant
    (fun v => ∃ kinds, v = { (u.trimRecent store.runId).writeResumePoint store.runId counters with
      ordersIgnoredKinds := kinds })
    (fun a kind b ha hb => by
      obtain ⟨kinds, rfl⟩ := ha
      obtain ⟨kinds', rfl⟩ := writeKind_tables hb
      exact ⟨kinds', rfl⟩) _ _ _ ⟨_, rfl⟩ hv
  obtain ⟨runs, hbeat⟩ := beat_tables w store.runId now
  refine ⟨u, hu, ?_⟩
  rw [hbeat]
  cases claim with
  | none =>
      cases hw
      exact ⟨rfl, rfl, rfl, rfl, rfl⟩
  | some claim =>
      simp only [Option.elim_some, writeClaim] at hw
      split at hw
      · cases hw
      · cases hw
        exact ⟨rfl, rfl, rfl, rfl, rfl⟩

/-- A batch leaves the rows of every other run alone. -/
theorem commit_untouched {t t' : Tables} {store : Handle} {now : Int} {changes : List Change}
    {counters : Counters} {claim : Option ClaimRow}
    (h : t.commit store now changes counters claim = .ok t') {run : Int}
    (hne : run ≠ store.runId) : Untouched t t' run := by
  obtain ⟨u, hu, hwritten⟩ := commit_written h
  have htu : Untouched t u run :=
    foldlM_invariant (fun v => Untouched t v run)
      (fun _ _ _ hv hstep => hv.trans (writeChange_untouched hne hstep)) _ _ _ (.refl t run) hu
  refine htu.trans ⟨fun k => by rw [hwritten.openOrders], fun k => by rw [hwritten.trades],
    fun k => by rw [hwritten.listings], fun k => ?_, ?_⟩
  · rw [hwritten.claims]
    cases claim with
    | none => rfl
    | some c => exact SortedMap.get?_insert_of_ne _ (ne_key hne k _) _
  · rw [hwritten.resumePoint]
    exact SortedMap.get?_insert_of_ne _ hne _

/-- The claims of the run a batch belongs to, once it went in. -/
theorem claims_commit {t t' : Tables} {store : Handle} {now : Int} {changes : List Change}
    {counters : Counters} {claim : Option ClaimRow}
    (h : t.commit store now changes counters claim = .ok t') :
    t'.claims = claim.elim t.claims (fun c =>
      t.claims.insert (toLex (store.runId, asI64 c.fromMsg)) c) := by
  obtain ⟨u, hu, hwritten⟩ := commit_written h
  have htu : u.claims = t.claims :=
    foldlM_invariant (fun v => v.claims = t.claims)
      (fun _ _ _ hv hstep => (claims_writeChange hstep).trans hv) _ _ _ rfl hu
  rw [hwritten.claims, htu]

/-! ## A run that claimed nothing -/

/-- A run whose books, trades and markets are empty, and whose cursor still stands at nothing. -/
structure Unclaimed (t : Tables) (run : Int) : Prop where
  openOrders : ∀ k, t.openOrders.get? (toLex (run, k)) = none
  trades : ∀ k, t.trades.get? (toLex (run, k)) = none
  listings : ∀ k, t.listings.get? (toLex (run, k)) = none
  point : ∀ point, t.resumePoint.get? run = some point → point.lastSeen.val = 0 ∧
    point.chainHash = some MatcherState.emptyChain ∧ point.operatorKey = none ∧
      (point.ruleVersion = none ∨ point.ruleVersion = some 1) ∧
        ∀ execution, point.executionState = some execution → execution.midWindows = .empty

theorem Unclaimed.of_untouched {t t' : Tables} {run : Int} (h : Untouched t t' run)
    (ht : Unclaimed t run) : Unclaimed t' run where
  openOrders k := (h.openOrders k).trans (ht.openOrders k)
  trades k := (h.trades k).trans (ht.trades k)
  listings k := (h.listings k).trans (ht.listings k)
  point point hpoint := ht.point point (h.point ▸ hpoint)

/-- The execution state and the counters of an empty engine leave a run unclaimed. -/
theorem Unclaimed.of_commit {t t' : Tables} {store : Handle} {now : Int} {changes : List Change}
    {counters : Counters} (ht : Unclaimed t store.runId)
    (h : t.commit store now changes counters none = .ok t')
    (hchanges : changes = [] ∨
      ∃ execution, changes = [.executionState execution] ∧ execution.midWindows = .empty)
    (hseen : counters.lastSeen = 0) (hchain : counters.chain = some MatcherState.emptyChain)
    (hkey : counters.operatorKey = none) (hrules : counters.ruleVersion = 1) :
    Unclaimed t' store.runId := by
  obtain ⟨u, hu, hwritten⟩ := commit_written h
  have hkept : Unclaimed u store.runId := by
    rcases hchanges with rfl | ⟨execution, rfl, hempty⟩
    · cases hu
      exact ht
    · rw [List.foldlM_cons, bind_eq_ok] at hu
      obtain ⟨v, hv, hu⟩ := hu
      cases hu
      simp only [writeChange] at hv
      split at hv
      · rename_i point hpoint
        cases hv
        obtain ⟨hcursor, hhash, hnone, hversion, -⟩ := ht.point point hpoint
        refine ⟨ht.openOrders, ht.trades, ht.listings, fun point' hpoint' => ?_⟩
        rw [SortedMap.get?_insert_self] at hpoint'
        cases hpoint'
        exact ⟨hcursor, hhash, hnone, hversion, fun e he => by cases he; exact hempty⟩
      · cases hv
        exact ht
  refine ⟨fun k => by rw [hwritten.openOrders, hkept.openOrders],
    fun k => by rw [hwritten.trades, hkept.trades],
    fun k => by rw [hwritten.listings, hkept.listings], fun point hpoint => ?_⟩
  rw [hwritten.resumePoint, writeResumePoint, SortedMap.get?_insert_self] at hpoint
  obtain rfl := Option.some.inj hpoint
  have hcursor : (integer counters.lastSeen).val = 0 := by
    rw [hseen, integer_val (by decide)]
    rfl
  refine ⟨hcursor, hchain, hkey, .inr (by rw [hrules]; rfl), fun e he => ?_⟩
  obtain ⟨before, hbefore, hexecution⟩ := Option.bind_eq_some_iff.1 he
  exact (hkept.point before hbefore).2.2.2.2 e hexecution

/-! ## A run that starts -/

/-- A run that starts has an id no row has, and rows of its own only where the schema puts them. -/
theorem startRun_rows {t t' : Tables} {store : Handle} {feedUrl : String} {now pid : Int}
    (h : t.startRun feedUrl now pid = .ok (t', store)) :
    t.runs.get? store.runId = none ∧
      (∃ row, t'.runs = t.runs.insert store.runId row) ∧
      (∀ run, run ≠ store.runId → Untouched t t' run) ∧
      t'.claims = t.claims ∧ (Unclaimed t store.runId → Unclaimed t' store.runId) := by
  simp only [startRun, bind_eq_ok, require_eq_ok] at h
  obtain ⟨_, _, _, _, h⟩ := h
  cases h
  refine ⟨t.get?_highestRun (Int.lt_succ _), ⟨_, rfl⟩, fun run hne => ?_, rfl, fun ht => ?_⟩
  · exact { Untouched.refl t run with point := SortedMap.get?_insert_of_ne _ hne _ }
  · refine ⟨ht.openOrders, ht.trades, ht.listings, fun point hpoint => ?_⟩
    rw [SortedMap.get?_insert_self] at hpoint
    obtain rfl := Option.some.inj hpoint
    exact ⟨integer_val (by decide), rfl, rfl, .inl rfl, fun e he => by cases he⟩

/-! ## What is read back -/

theorem fixed_eq_ok {length : Nat} {blob found : Option Bytes} {reason : Nat → String}
    (h : fixed length blob reason = .ok found) : found = blob := by
  unfold fixed at h
  split at h
  · cases h
    rfl
  · split at h
    · cases h
      rfl
    · cases h

theorem loadCounters_eq_ok {t : Tables} {run : Int} {point : ResumePoint} {counters : Counters}
    (h : t.loadCounters run point = .ok counters) :
    counters.lastSeen = asU64 point.lastSeen.val ∧ counters.chain = point.chainHash ∧
      counters.operatorKey = point.operatorKey ∧
      (point.ruleVersion = none ∨ point.ruleVersion = some 1 → counters.ruleVersion = 1) := by
  simp only [loadCounters, bind_eq_ok] at h
  obtain ⟨chain, hchain, key, hkey, _, -, h⟩ := h
  cases h
  refine ⟨rfl, fixed_eq_ok hchain, fixed_eq_ok hkey, ?_⟩
  rintro (hnone | hsome)
  · simp only [hnone]
  · simp only [hsome]
    decide

/-- What a run that is read back holds, in terms of its rows. -/
structure Loaded (t : Tables) (run : Int) (point : ResumePoint) (row : RunRow)
    (snapshot : Snapshot) : Prop where
  hasPoint : t.resumePoint.get? run = some point
  hasRow : t.runs.get? run = some row
  counters : t.loadCounters run point = .ok snapshot.counters
  orders : snapshot.orders = (rowsOf t.openOrders run).map Prod.snd
  listings : snapshot.listings = (rowsOf t.listings run).map Prod.snd
  feedPubkey : snapshot.feedPubkey = row.feedPubkey
  lastClaim : snapshot.lastClaim = t.latestClaim run
  lastClaimRoot : snapshot.lastClaimRoot = (t.latestClaim run).map ClaimRow.rootAfter
  midWindows : (∀ execution, point.executionState = some execution →
    execution.midWindows = .empty) → snapshot.executionState.midWindows = .empty

theorem load_eq_ok {t : Tables} {run : Int} {snapshot : Snapshot}
    (h : t.load run = .ok snapshot) : ∃ point row, Loaded t run point row snapshot := by
  simp only [load, bind_eq_ok, orFail_eq_ok] at h
  obtain ⟨point, hpoint, counters, hcounters, listings, hlistings, _, -, row, hrow, root, hroot, _,
    -, execution, hexecution, last, hlast, _, -, h⟩ := h
  cases h
  refine ⟨point, row, hpoint, hrow, hcounters, rfl, ?_, rfl, ?_, fixed_eq_ok hroot,
    fun hempty => ?_⟩
  · simp only [loadListings, bind_eq_ok] at hlistings
    obtain ⟨_, -, hlistings⟩ := hlistings
    cases hlistings
    rfl
  · cases hlatest : t.latestClaim run with
    | none =>
        rw [hlatest] at hlast
        cases hlast
        rfl
    | some claim =>
        rw [hlatest] at hlast
        cases hread : readClaim claim with
        | error _ =>
            rw [Option.elim_some, hread] at hlast
            cases hlast
        | ok found =>
            rw [Option.elim_some, hread] at hlast
            cases hlast
            simp only [readClaim, bind_eq_ok] at hread
            obtain ⟨_, -, _, -, hread⟩ := hread
            cases hread
            rfl
  · cases hstored : point.executionState with
    | some stored =>
        simp only [loadExecution, hstored, bind_eq_ok] at hexecution
        obtain ⟨_, -, _, -, found, hfound, _, -, hexecution⟩ := hexecution
        obtain rfl := Except.ok.inj hfound
        obtain rfl := Except.ok.inj hexecution
        exact hempty _ hstored
    | none =>
        simp only [loadExecution, hstored, bind_eq_ok] at hexecution
        obtain ⟨_, -, _, -, hexecution⟩ := hexecution
        split at hexecution
        · obtain ⟨found, hfound, hexecution⟩ := bind_eq_ok.1 hexecution
          obtain ⟨_, -, hexecution⟩ := bind_eq_ok.1 hexecution
          obtain rfl := Except.ok.inj hfound
          obtain rfl := Except.ok.inj hexecution
          rfl
        · cases hexecution

end Tables

/-- A claim the key file vouches for ends at the cursor it was read back with. -/
theorem authenticateSnapshot_eq_ok {env : Primitives} {snapshot : Snapshot} {trusted : Bytes}
    {claim : ClaimRow} (h : authenticateSnapshot env snapshot trusted = .ok ())
    (hclaim : snapshot.lastClaim = some claim) : claim.toMsg = snapshot.counters.lastSeen := by
  unfold authenticateSnapshot at h
  rw [hclaim, if_neg (fun hnone => by cases hnone.2)] at h
  simp only [bind_eq_ok, require_eq_ok, orFail_eq_ok, Option.some.injEq] at h
  obtain ⟨_, -, found, rfl, _, ⟨-, -, hto, -⟩, -⟩ := h
  exact hto

end Store
end VerifiableExchange
