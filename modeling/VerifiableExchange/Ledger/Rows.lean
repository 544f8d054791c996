import VerifiableExchange.Ledger.Lifecycle
import VerifiableExchange.Poller.Restore

/-!
# Rows — the ledger written as rows and read back

A snapshot is the rows of a database nobody has to trust. Reading it back refuses two rows of one
key, a reservation outside the applied history and every ledger that is not valid; and it reads a
ledger the engine wrote at the end of a message back as it was.
-/

namespace VerifiableExchange
namespace Ledger

open Lib

def ledgerVersion : Nat := 1

/-- How many units one asset has. -/
def assetScale : Int := 1000

structure BalanceRow where
  account : AccountId
  asset : String
  balance : Balance
  deriving DecidableEq

structure LedgerSnapshot where
  version : Nat
  mode : LedgerMode
  assetScale : Int
  config : Option FundingConfig
  lastSequence : OrderId
  balances : List BalanceRow
  reservations : List Reservation
  deriving DecidableEq

def BalanceRow.key (row : BalanceRow) : AccountKey := accountKey row.account row.asset

def snapshot (l : Ledger) : LedgerSnapshot where
  version := ledgerVersion
  mode := l.mode
  assetScale := assetScale
  config := l.config
  lastSequence := l.lastSequence
  balances := l.balances.entries.map (fun e => ⟨(ofLex e.1).1, (ofLex e.1).2, e.2⟩)
  reservations := l.reservations.entries.map Prod.snd

namespace LedgerSnapshot

def addBalance (balances : SortedMap AccountKey Balance) (row : BalanceRow) :
    Except String (SortedMap AccountKey Balance) := do
  require (balances.get? row.key = none) "duplicate balance row"
  return balances.insert row.key row.balance

def addReservation (lastSequence : OrderId) (reservations : SortedMap OrderId Reservation)
    (row : Reservation) : Except String (SortedMap OrderId Reservation) := do
  require (row.orderId ≠ 0 ∧ row.orderId ≤ lastSequence)
    "reservation is outside applied history"
  require (reservations.get? row.orderId = none) "duplicate reservation row"
  return reservations.insert row.orderId row

/-- A stored ledger read back from its rows. -/
def fromSnapshot (snapshot : LedgerSnapshot) : Except String Ledger := do
  require (snapshot.version = ledgerVersion ∧ snapshot.assetScale = Ledger.assetScale)
    "unsupported ledger version or asset scale"
  match snapshot.mode with
  | .syntheticLegacy => do
      require (snapshot.config = none ∧ snapshot.balances = [] ∧ snapshot.reservations = [])
        "synthetic ledger cannot contain funded state"
      return { syntheticLegacy with lastSequence := snapshot.lastSequence }
  | .fundedSimulation => do
      let config ← orFail snapshot.config "funded config missing"
      let opened ← funded config
      let balances ← snapshot.balances.foldlM addBalance .empty
      let reservations ←
        snapshot.reservations.foldlM (addReservation snapshot.lastSequence) opened.reservations
      let ledger : Ledger :=
        { opened with lastSequence := snapshot.lastSequence, balances, reservations }
      ledger.validate
      return ledger

end LedgerSnapshot

/-! ## Rows of distinct keys -/

section FreshKeys

variable {K V Row : Type} [LinearOrder K] {guard : Row → Prop} {key : Row → K} {value : Row → V}
  {add : SortedMap K V → Row → Except String (SortedMap K V)}

/-- Rows added one by one, each under a key that has none yet. -/
theorem foldlM_fresh
    (hadd : ∀ m row m', add m row = .ok m' ↔
      guard row ∧ m.get? (key row) = none ∧ m' = m.insert (key row) (value row)) :
    ∀ {rows : List Row} {m m' : SortedMap K V},
      rows.foldlM add m = .ok m' ↔
        (∀ row ∈ rows, guard row) ∧ (rows.map key).Nodup ∧
          (∀ row ∈ rows, m.get? (key row) = none) ∧
          m' = (rows.map (fun row => (key row, value row))).foldl
            (fun m e => m.insert e.1 e.2) m
  | [], m, m' => by
      simp [pure, Except.pure, eq_comm]
  | row :: rest, m, m' => by
      rw [List.foldlM_cons, bind_eq_ok, List.map_cons, List.nodup_cons, List.map_cons,
        List.foldl_cons, List.forall_mem_cons, List.forall_mem_cons]
      constructor
      · rintro ⟨next, hnext, hrest⟩
        obtain ⟨hguard, hfresh, rfl⟩ := (hadd _ _ _).1 hnext
        obtain ⟨hguards, hnodup, hothers, rfl⟩ := (foldlM_fresh hadd).1 hrest
        have hnot : ∀ other ∈ rest, key other ≠ key row := by
          intro other hother heq
          have hnone := hothers other hother
          rw [heq, SortedMap.get?_insert_self] at hnone
          cases hnone
        refine ⟨⟨hguard, hguards⟩, ⟨?_, hnodup⟩, ⟨hfresh, fun other hother => ?_⟩, rfl⟩
        · intro hmem
          obtain ⟨other, hother, heq⟩ := List.mem_map.1 hmem
          exact hnot other hother heq
        · have hnone := hothers other hother
          rwa [SortedMap.get?_insert_of_ne _ (hnot other hother)] at hnone
      · rintro ⟨⟨hguard, hguards⟩, ⟨hnot, hnodup⟩, ⟨hfresh, hothers⟩, rfl⟩
        refine ⟨_, (hadd _ _ _).2 ⟨hguard, hfresh, rfl⟩,
          (foldlM_fresh hadd).2 ⟨hguards, hnodup, fun other hother => ?_, rfl⟩⟩
        have hne : key other ≠ key row := fun heq => hnot (heq ▸ List.mem_map_of_mem hother)
        rw [SortedMap.get?_insert_of_ne _ hne]
        exact hothers other hother

end FreshKeys

theorem addBalance_eq_ok (m : SortedMap AccountKey Balance) (row : BalanceRow)
    (m' : SortedMap AccountKey Balance) :
    LedgerSnapshot.addBalance m row = .ok m' ↔
      True ∧ m.get? row.key = none ∧ m' = m.insert row.key row.balance := by
  simp only [LedgerSnapshot.addBalance, bind_eq_ok, require_eq_ok, true_and]
  constructor
  · rintro ⟨_, hfresh, h⟩
    cases h
    exact ⟨hfresh, rfl⟩
  · rintro ⟨hfresh, rfl⟩
    exact ⟨(), hfresh, rfl⟩

theorem addReservation_eq_ok {lastSequence : OrderId} (m : SortedMap OrderId Reservation)
    (row : Reservation) (m' : SortedMap OrderId Reservation) :
    LedgerSnapshot.addReservation lastSequence m row = .ok m' ↔
      (row.orderId ≠ 0 ∧ row.orderId ≤ lastSequence) ∧ m.get? row.orderId = none ∧
        m' = m.insert row.orderId row := by
  simp only [LedgerSnapshot.addReservation, bind_eq_ok, require_eq_ok]
  constructor
  · rintro ⟨_, hrange, _, hfresh, h⟩
    cases h
    exact ⟨hrange, hfresh, rfl⟩
  · rintro ⟨hrange, hfresh, rfl⟩
    exact ⟨(), hrange, (), hfresh, rfl⟩

/-! ## What is accepted -/

/-- The ledger the rows are of: no key twice, and the markets and grants in the ledger's order. -/
structure Describes (rows : LedgerSnapshot) (l : Ledger) : Prop where
  mode : l.mode = rows.mode
  sequence : l.lastSequence = rows.lastSequence
  config : l.config = rows.config.map sortedConfig
  balanceKeys : (rows.balances.map BalanceRow.key).Nodup
  balances : l.balances = .ofList (rows.balances.map (fun row => (row.key, row.balance)))
  orderIds : (rows.reservations.map Reservation.orderId).Nodup
  reservations : l.reservations = .ofList (rows.reservations.map (fun r => (r.orderId, r)))

/-- A synthetic ledger with nothing in it, or a funded one that keeps the law under a
configuration that passes its checks. -/
def Law (l : Ledger) : Prop :=
  (l.mode = .syntheticLegacy ∧ l.config = none ∧ l.balances = .empty ∧ l.reservations = .empty) ∨
    ∃ config, validateConfig (sortedConfig config) = .ok () ∧ Conserving (sortedConfig config) l

/-- No reservation of a later message than this one, and the law. -/
structure LawfulUpTo (last : OrderId) (l : Ledger) : Prop where
  applied : ∀ id r, l.reservations.get? id = some r → id ≠ 0 ∧ id ≤ last
  law : l.Law

theorem funded_eq_ok {config : FundingConfig} {l : Ledger} :
    funded config = .ok l ↔ validateConfig (sortedConfig config) = .ok () ∧
      l = { mode := .fundedSimulation, config := some (sortedConfig config), lastSequence := 0,
            balances := .ofList ((sortedConfig config).funding.map (fun grant =>
              (accountKey grant.account grant.asset, { available := grant.units, reserved := 0 }))),
            reservations := .empty } := by
  simp only [funded, bind_eq_ok]
  constructor
  · rintro ⟨_, hvalid, h⟩
    cases h
    exact ⟨hvalid, rfl⟩
  · rintro ⟨hvalid, rfl⟩
    exact ⟨(), hvalid, rfl⟩

theorem keyed_ofList {rows : List Reservation} (hnodup : (rows.map Reservation.orderId).Nodup) :
    ∀ id r, (SortedMap.ofList (rows.map (fun r => (r.orderId, r)))).get? id = some r ↔
      r ∈ rows ∧ r.orderId = id := by
  intro id r
  have hkeys : ((rows.map (fun r => (r.orderId, r))).map Prod.fst).Nodup := by
    simpa [Function.comp_def] using hnodup
  rw [SortedMap.get?_ofList_iff hkeys, List.mem_map]
  constructor
  · rintro ⟨row, hrow, heq⟩
    cases heq
    exact ⟨hrow, rfl⟩
  · rintro ⟨hr, rfl⟩
    exact ⟨r, hr, rfl⟩

/-- What is read back is the ledger the rows are of, and it keeps the law. -/
theorem describes_of_fromSnapshot {rows : LedgerSnapshot} {l : Ledger}
    (h : rows.fromSnapshot = .ok l) : Describes rows l ∧ LawfulUpTo l.lastSequence l := by
  simp only [LedgerSnapshot.fromSnapshot, bind_eq_ok, require_eq_ok] at h
  obtain ⟨_, -, h⟩ := h
  cases hmode : rows.mode with
  | syntheticLegacy =>
      simp only [hmode, bind_eq_ok, require_eq_ok] at h
      obtain ⟨_, ⟨hconfig, hbalances, hreservations⟩, h⟩ := h
      cases h
      refine ⟨⟨hmode.symm, rfl, ?_, ?_, ?_, ?_, ?_⟩, ⟨?_, .inl ⟨rfl, rfl, rfl, rfl⟩⟩⟩
      · rw [hconfig]
        rfl
      · rw [hbalances]
        exact List.nodup_nil
      · rw [hbalances]
        rfl
      · rw [hreservations]
        exact List.nodup_nil
      · rw [hreservations]
        rfl
      · intro id r hr
        cases hr
  | fundedSimulation =>
      simp only [hmode, bind_eq_ok, orFail_eq_ok] at h
      obtain ⟨config, hconfig, opened, hopened, balances, hbalances, reservations, hreservations,
        _, hvalidate, h⟩ := h
      cases h
      obtain ⟨hvalid, rfl⟩ := funded_eq_ok.1 hopened
      obtain ⟨-, hbalanceKeys, -, rfl⟩ := (foldlM_fresh addBalance_eq_ok).1 hbalances
      obtain ⟨hrange, horderIds, -, rfl⟩ := (foldlM_fresh addReservation_eq_ok).1 hreservations
      have hkeyed := keyed_ofList horderIds
      refine ⟨⟨hmode.symm, rfl, ?_, hbalanceKeys, rfl, horderIds, rfl⟩,
        ⟨?_, .inr ⟨config, hvalid, ?_⟩⟩⟩
      · rw [hconfig]
        rfl
      · intro id r hr
        obtain ⟨hmem, rfl⟩ := (hkeyed id r).1 hr
        exact hrange r hmem
      · exact (valid_iff_conserving rfl rfl).1
          ⟨fun id r hr => ((hkeyed id r).1 hr).2, hvalidate⟩

/-- Rows of a lawful ledger read back as the ledger. -/
theorem fromSnapshot_of_describes {rows : LedgerSnapshot} {l : Ledger}
    (hversion : rows.version = ledgerVersion ∧ rows.assetScale = assetScale)
    (h : Describes rows l) (hlawful : LawfulUpTo l.lastSequence l) :
    rows.fromSnapshot = .ok l := by
  simp only [LedgerSnapshot.fromSnapshot, bind_eq_ok, require_eq_ok]
  refine ⟨(), hversion, ?_⟩
  have hkeyed := keyed_ofList h.orderIds
  rcases hlawful.law with ⟨hmode, hconfig, hbalances, hreservations⟩ | ⟨config, hvalid, hconserving⟩
  · have hrowsMode : rows.mode = .syntheticLegacy := h.mode ▸ hmode
    have hnoConfig : rows.config = none := by
      have hnone := h.config.symm.trans hconfig
      exact Option.map_eq_none_iff.1 hnone
    have hnoBalances : rows.balances = [] :=
      SortedMap.eq_nil_of_ofList h.balanceKeys (h.balances ▸ hbalances)
    have hnoReservations : rows.reservations = [] :=
      SortedMap.eq_nil_of_ofList h.orderIds (h.reservations ▸ hreservations)
    simp only [hrowsMode, bind_eq_ok, require_eq_ok]
    refine ⟨(), ⟨hnoConfig, hnoBalances, hnoReservations⟩, ?_⟩
    obtain ⟨mode, config, lastSequence, balances, reservations⟩ := l
    have hsequence : lastSequence = rows.lastSequence := h.sequence
    dsimp only at hmode hconfig hbalances hreservations
    subst hmode hconfig hbalances hreservations hsequence
    rfl
  · have hrowsMode : rows.mode = .fundedSimulation := h.mode ▸ hconserving.mode
    obtain ⟨stored, hstored, hsorted⟩ : ∃ stored, rows.config = some stored ∧
        sortedConfig stored = sortedConfig config :=
      Option.map_eq_some_iff.1 (h.config.symm.trans hconserving.config_eq)
    simp only [hrowsMode, bind_eq_ok, orFail_eq_ok]
    refine ⟨stored, hstored, _, funded_eq_ok.2 ⟨hsorted ▸ hvalid, rfl⟩, _,
      (foldlM_fresh addBalance_eq_ok).2 ⟨fun _ _ => trivial, h.balanceKeys, fun _ _ => rfl, rfl⟩, _,
      (foldlM_fresh addReservation_eq_ok).2 ⟨fun r hr => ?_, h.orderIds, fun _ _ => rfl, rfl⟩, ?_⟩
    · have hget := (hkeyed r.orderId r).2 ⟨hr, rfl⟩
      rw [← h.reservations] at hget
      exact h.sequence ▸ hlawful.applied _ _ hget
    · have hsame : ({
          mode := .fundedSimulation
          config := some (sortedConfig stored)
          lastSequence := rows.lastSequence
          balances := .ofList (rows.balances.map (fun row => (row.key, row.balance)))
          reservations := .ofList (rows.reservations.map (fun r => (r.orderId, r))) } : Ledger) =
            l := by
        obtain ⟨mode, lconfig, lastSequence, balances, reservations⟩ := l
        rw [hsorted, ← hconserving.config_eq, ← h.sequence, ← h.balances, ← h.reservations]
        have hkind : LedgerMode.fundedSimulation = mode := hconserving.mode.symm
        rw [hkind]
      refine ⟨(), ?_, congrArg Except.ok hsame⟩
      rw [← hsame] at hconserving
      exact hconserving.validate

/-! ## What the engine writes -/

theorem map_key_snapshot (l : Ledger) :
    l.snapshot.balances.map (fun row => (row.key, row.balance)) = l.balances.entries := by
  unfold snapshot
  rw [List.map_map]
  exact List.map_id _

theorem map_orderId_snapshot {l : Ledger} (h : l.Keyed) :
    l.snapshot.reservations.map (fun r => (r.orderId, r)) = l.reservations.entries := by
  unfold snapshot
  rw [List.map_map]
  refine (List.map_congr_left (fun e he => ?_)).trans (List.map_id _)
  have hid := h e.1 e.2 (SortedMap.mem_entries.1 he)
  exact Prod.ext hid rfl

theorem nodup_orderId_snapshot {l : Ledger} (h : l.Keyed) :
    (l.snapshot.reservations.map Reservation.orderId).Nodup := by
  have hids := congrArg (List.map Prod.fst) (map_orderId_snapshot h)
  rw [List.map_map] at hids
  show (l.snapshot.reservations.map (Prod.fst ∘ fun r => (r.orderId, r))).Nodup
  rw [hids]
  exact l.reservations.nodup_keys

theorem nodup_key_snapshot (l : Ledger) : (l.snapshot.balances.map BalanceRow.key).Nodup := by
  have hkeys := congrArg (List.map Prod.fst) (map_key_snapshot l)
  rw [List.map_map] at hkeys
  show (l.snapshot.balances.map (Prod.fst ∘ fun row => (row.key, row.balance))).Nodup
  rw [hkeys]
  exact l.balances.nodup_keys

theorem sortedConfig_sortedConfig (config : FundingConfig) :
    sortedConfig (sortedConfig config) = sortedConfig config := by
  have hmarkets := (List.pairwise_insertionSort (fun a b : MarketAssets => a.symbol ≤ b.symbol)
    config.markets).insertionSort_eq
  have hfunding := (List.pairwise_insertionSort
    (fun a b : Funding => accountKey a.account a.asset ≤ accountKey b.account b.asset)
    config.funding).insertionSort_eq
  unfold sortedConfig
  rw [hmarkets, hfunding]

theorem Law.valid {l : Ledger} (h : l.Law) : l.Valid := by
  rcases h with ⟨hmode, -, -, hreservations⟩ | ⟨config, -, hconserving⟩
  · refine ⟨keyed_of_empty hreservations, ?_⟩
    simp [Ledger.validate, isFunded, hmode]
  · exact hconserving.valid

/-- A lawful ledger is the one its own rows describe. -/
theorem LawfulUpTo.describes {l : Ledger} {last : OrderId} (h : LawfulUpTo last l) :
    Describes l.snapshot l := by
  have hkeyed : l.Keyed := h.law.valid.keyed
  refine ⟨rfl, rfl, ?_, ?_, ?_, ?_, ?_⟩
  · show l.config = l.config.map sortedConfig
    rcases h.law with ⟨-, hconfig, -, -⟩ | ⟨config, -, hconserving⟩
    · rw [hconfig]
      rfl
    · rw [hconserving.config_eq, Option.map_some, sortedConfig_sortedConfig]
  · exact nodup_key_snapshot l
  · rw [map_key_snapshot, SortedMap.ofList_entries]
  · exact nodup_orderId_snapshot hkeyed
  · rw [map_orderId_snapshot hkeyed, SortedMap.ofList_entries]

/-! ## Ledgers at the end of a message -/

/-- No call moves the sequence back. -/
theorem lastSequence_le_next {l l' : Ledger} {call : Call} {answer : Answer}
    (h : call.next l = .ok (l', answer)) : l.lastSequence ≤ l'.lastSequence := by
  cases call with
  | reserve orderId account symbol side limitCents qtyTenths =>
      obtain ⟨hreserve, -⟩ := answering_eq_ok.1 h
      exact (lastSequence_reserve hreserve).ge
  | settleFill makerOrder takerOrder priceCents qtyTenths =>
      obtain ⟨hsettle, -⟩ := answering_eq_ok.1 h
      exact (lastSequence_settleFill hsettle).ge
  | release orderId =>
      simp only [Call.next] at h
      cases hrelease : l.release orderId with
      | error reason =>
          rw [hrelease] at h
          cases h
      | ok result =>
          rw [hrelease] at h
          cases h
          exact (lastSequence_release hrelease).ge
  | finishSequence sequence =>
      obtain ⟨hfinish, -⟩ := answering_eq_ok.1 h
      obtain ⟨rfl, -, hnext⟩ := finishSequence_eq_ok hfinish
      have hsame := congrArg Ledger.lastSequence hnext
      exact hsame ▸ Nat.le_succ _

/-- Only the order the sequence expects is set aside. -/
theorem reserves_next {l l' : Ledger} {id : OrderId} {call : Call} {answer : Answer}
    (hfunded : l.isFunded = true) (hcall : call.reserves id = true)
    (h : call.next l = .ok (l', answer)) : id = l.lastSequence + 1 := by
  cases call with
  | reserve orderId account symbol side limitCents qtyTenths =>
      obtain rfl : orderId = id := of_decide_eq_true hcall
      obtain ⟨hreserve, -⟩ := answering_eq_ok.1 h
      simp only [Ledger.reserve, hfunded, Bool.not_true, Bool.false_eq_true, if_false, bind_eq_ok,
        require_eq_ok, nextSequence_eq_ok] at hreserve
      obtain ⟨_, ⟨-, hnext⟩, _, ⟨horder, -⟩, -⟩ := hreserve
      exact horder.trans hnext.symm
  | settleFill makerOrder takerOrder priceCents qtyTenths => cases hcall
  | release orderId => cases hcall
  | finishSequence sequence => cases hcall

/-- A call keeps the law. -/
theorem Law.next {l l' : Ledger} (h : l.Law) {call : Call} {answer : Answer}
    (hnext : call.next l = .ok (l', answer)) : l'.Law := by
  rcases h with ⟨hmode, hconfig, hbalances, hreservations⟩ | ⟨config, hvalid, hconserving⟩
  · -- A synthetic ledger with nothing in it changes in its sequence alone.
    have hunfunded : l.isFunded = false := by simp [isFunded, hmode]
    refine .inl ?_
    cases call with
    | reserve orderId account symbol side limitCents qtyTenths =>
        obtain ⟨hreserve, -⟩ := answering_eq_ok.1 hnext
        simp only [Ledger.reserve, hunfunded, Bool.not_false, if_true] at hreserve
        cases hreserve
        exact ⟨hmode, hconfig, hbalances, hreservations⟩
    | settleFill makerOrder takerOrder priceCents qtyTenths =>
        obtain ⟨hsettle, -⟩ := answering_eq_ok.1 hnext
        simp only [Ledger.settleFill, hunfunded, Bool.not_false, if_true] at hsettle
        cases hsettle
        exact ⟨hmode, hconfig, hbalances, hreservations⟩
    | release orderId =>
        have hnone : l.reservations.get? orderId = none := by rw [hreservations]; rfl
        simp only [Call.next, Ledger.release, hnone, Except.map] at hnext
        cases hnext
        exact ⟨hmode, hconfig, hbalances, hreservations⟩
    | finishSequence sequence =>
        obtain ⟨hfinish, -⟩ := answering_eq_ok.1 hnext
        obtain ⟨-, -, hresult⟩ := finishSequence_eq_ok hfinish
        dsimp only at hresult
        rw [hresult]
        exact ⟨hmode, hconfig, hbalances, hreservations⟩
  · exact .inr ⟨config, hvalid, (next_conserving hconserving hnext).1⟩

/-- Inside a message, a call leaves no reservation past the order the sequence expects. -/
theorem LawfulUpTo.next {l l' : Ledger} (h : LawfulUpTo (l.lastSequence + 1) l) {call : Call}
    {answer : Answer} (hnext : call.next l = .ok (l', answer)) :
    LawfulUpTo (l'.lastSequence + 1) l' := by
  have hle := lastSequence_le_next hnext
  refine ⟨fun id r hr => ?_, h.law.next hnext⟩
  cases hcall : call.reserves id with
  | true =>
      by_cases hfunded : l.isFunded = true
      · have hid := reserves_next hfunded hcall hnext
        exact ⟨hid ▸ Nat.succ_ne_zero _, hid ▸ Nat.succ_le_succ hle⟩
      · -- A synthetic ledger reserves nothing.
        rcases h.law.next hnext with ⟨-, -, -, hempty⟩ | ⟨config, -, hconserving⟩
        · rw [hempty] at hr
          cases hr
        · exact absurd ((next_unfunded (Bool.eq_false_iff.2 hfunded) hnext).1.symm.trans
            hconserving.mode) (fun hmode => hfunded (by simp [isFunded, hmode]))
  | false =>
      cases hbefore : l.reservations.get? id with
      | none =>
          have hnone := absent_next h.law.valid hbefore hcall hnext
          rw [hr] at hnone
          cases hnone
      | some before =>
          obtain ⟨hpos, hbound⟩ := h.applied id before hbefore
          exact ⟨hpos, hbound.trans (Nat.succ_le_succ hle)⟩

theorem LawfulUpTo.run {l : Ledger} (h : LawfulUpTo (l.lastSequence + 1) l) (calls : List Call) :
    LawfulUpTo ((l.run calls).lastSequence + 1) (l.run calls) := by
  induction calls generalizing l with
  | nil => exact h
  | cons call rest ih =>
      refine @ih (l.after call) ?_
      cases hnext : call.next l with
      | error reason =>
          rw [after_of_error hnext]
          exact h
      | ok result =>
          rw [after_of_ok hnext]
          exact h.next hnext

/-- The ledgers an engine has between two messages: a new one, one read back, and what any calls
that end by finishing the sequence leave. -/
inductive AtBoundary : Ledger → Prop
  | synthetic : AtBoundary syntheticLegacy
  | funded {config : FundingConfig} {l : Ledger} (h : Ledger.funded config = .ok l) : AtBoundary l
  | restored {rows : LedgerSnapshot} {l : Ledger} (h : rows.fromSnapshot = .ok l) : AtBoundary l
  | message {l l' : Ledger} {calls : List Call} {sequence : OrderId} {answer : Answer}
      (h : AtBoundary l)
      (hfinish : (Call.finishSequence sequence).next (l.run calls) = .ok (l', answer)) :
      AtBoundary l'

theorem AtBoundary.lawful {l : Ledger} (h : AtBoundary l) : LawfulUpTo l.lastSequence l := by
  induction h with
  | synthetic => exact ⟨fun id r hr => (by cases hr), .inl ⟨rfl, rfl, rfl, rfl⟩⟩
  | funded h =>
      have hconserving := conserving_funded h
      obtain ⟨hvalid, rfl⟩ := funded_eq_ok.1 h
      exact ⟨fun id r hr => (by cases hr), .inr ⟨_, hvalid, hconserving⟩⟩
  | restored h => exact (describes_of_fromSnapshot h).2
  | @message l l' calls sequence answer _ hfinish ih =>
      have hstart : LawfulUpTo (l.lastSequence + 1) l :=
        ⟨fun id r hr => (ih.applied id r hr).imp_right (fun hle => hle.trans (Nat.le_succ _)),
          ih.law⟩
      have hinside := hstart.run calls
      have hlaw := hinside.law.next hfinish
      obtain ⟨hresult, -⟩ := answering_eq_ok.1 hfinish
      obtain ⟨rfl, -, hnext⟩ := finishSequence_eq_ok hresult
      dsimp only at hnext
      subst hnext
      exact ⟨hinside.applied, hlaw⟩

/-! ## The law, in the rows -/

/-- What the rows of an accepted snapshot add up to. -/
structure RowsLaw (config : FundingConfig) (rows : LedgerSnapshot) : Prop where
  conserved : ∀ asset, (rows.balances.map (fun row =>
    if row.asset = asset then row.balance.available + row.balance.reserved else 0)).sum =
      granted config asset
  nonnegative : ∀ row ∈ rows.balances, 0 ≤ row.balance.available ∧ 0 ≤ row.balance.reserved
  backed : ∀ row ∈ rows.balances, row.balance.reserved = (rows.reservations.map (fun r =>
    if keyOf r = row.key then r.units else 0)).sum
  covered : ∀ r ∈ rows.reservations, ∃ row ∈ rows.balances, row.key = keyOf r

theorem rowsLaw_of_conserving {config : FundingConfig} {rows : LedgerSnapshot} {l : Ledger}
    (hrows : Describes rows l) (h : Conserving config l) : RowsLaw config rows := by
  have hkeys : ((rows.balances.map (fun row => (row.key, row.balance))).map Prod.fst).Nodup := by
    simpa [Function.comp_def] using hrows.balanceKeys
  have hbalance : ∀ row ∈ rows.balances, l.balances.get? row.key = some row.balance := by
    intro row hrow
    rw [hrows.balances, SortedMap.get?_ofList_iff hkeys]
    exact List.mem_map_of_mem (f := fun row => (BalanceRow.key row, row.balance)) hrow
  have hreservation : ∀ r ∈ rows.reservations, l.reservations.get? r.orderId = some r := by
    intro r hr
    rw [hrows.reservations]
    exact (keyed_ofList hrows.orderIds r.orderId r).2 ⟨hr, rfl⟩
  refine ⟨fun asset => ?_, fun row hrow => ?_, fun row hrow => ?_, fun r hr => ?_⟩
  · have hconserved := h.conserved asset
    unfold holdings at hconserved
    rw [hrows.balances, SortedMap.total_ofList hrows.balanceKeys] at hconserved
    exact hconserved
  · obtain ⟨havailable, hreserved, -⟩ := checkBalance_eq_ok.1 (h.balance _ _ (hbalance row hrow)).1
    exact ⟨havailable, hreserved⟩
  · have hbacked := h.backed row.key
    unfold obligation at hbacked
    rw [hrows.reservations, SortedMap.total_ofList hrows.orderIds, SortedMap.getD,
      hbalance row hrow] at hbacked
    exact hbacked
  · -- What a reservation requires is part of a reserved balance, so there is one.
    have hget := hreservation r hr
    have hle := h.units_le_reserved hget
    have hpos := reserveUnits_pos (h.reservation _ _ hget).units_eq
    cases hb : l.balances.get? (accountKey r.account r.asset) with
    | none =>
        rw [SortedMap.getD, hb] at hle
        exact absurd (hpos.trans_le hle) (lt_irrefl 0)
    | some b =>
        rw [hrows.balances, SortedMap.get?_ofList_iff hkeys] at hb
        obtain ⟨row, hrow, heq⟩ := List.mem_map.1 hb
        exact ⟨row, hrow, congrArg Prod.fst heq⟩

/-! ## The engine's restore -/

/-- Rows of distinct keys, one of them outside the applied history. -/
theorem foldlM_addReservation_outside {lastSequence : OrderId} :
    ∀ {rows : List Reservation} {m : SortedMap OrderId Reservation},
      (rows.map Reservation.orderId).Nodup → (∀ row ∈ rows, m.get? row.orderId = none) →
        (¬ ∀ row ∈ rows, row.orderId ≠ 0 ∧ row.orderId ≤ lastSequence) →
          rows.foldlM (LedgerSnapshot.addReservation lastSequence) m =
            .error "reservation is outside applied history"
  | [], _, _, _, houtside => absurd (fun row hrow => nomatch hrow) houtside
  | row :: rest, m, hnodup, hfresh, houtside => by
      obtain ⟨hnot, hnodup⟩ := List.nodup_cons.1 hnodup
      obtain ⟨hnone, hothers⟩ := List.forall_mem_cons.1 hfresh
      rw [List.foldlM_cons]
      by_cases hrange : row.orderId ≠ 0 ∧ row.orderId ≤ lastSequence
      · rw [(addReservation_eq_ok m row _).2 ⟨hrange, hnone, rfl⟩]
        refine foldlM_addReservation_outside hnodup (fun other hother => ?_)
          (fun hrest => houtside (List.forall_mem_cons.2 ⟨hrange, hrest⟩))
        have hne : other.orderId ≠ row.orderId := fun heq => hnot (heq ▸ List.mem_map_of_mem hother)
        rw [SortedMap.get?_insert_of_ne _ hne]
        exact hothers other hother
      · have hrefused : LedgerSnapshot.addReservation lastSequence m row =
            .error "reservation is outside applied history" := by
          unfold LedgerSnapshot.addReservation
          rw [require_eq_error.2 ⟨hrange, rfl⟩]
          rfl
        rw [hrefused]
        rfl

/-- The engine restores a stored ledger as its rows are read back. -/
theorem fromSnapshot_snapshot {l : Ledger} (h : l.Keyed) :
    l.snapshot.fromSnapshot = Ledger.fromSnapshot l := by
  have hversion : require (l.snapshot.version = ledgerVersion ∧
      l.snapshot.assetScale = assetScale) "unsupported ledger version or asset scale" =
        .ok () := require_eq_ok.2 ⟨rfl, rfl⟩
  unfold LedgerSnapshot.fromSnapshot Ledger.fromSnapshot
  rw [hversion]
  have hmode : l.snapshot.mode = l.mode := rfl
  rw [hmode]
  cases l.mode with
  | syntheticLegacy =>
      have hempty : (l.snapshot.config = none ∧ l.snapshot.balances = [] ∧
          l.snapshot.reservations = []) ↔
          (l.config = none ∧ l.balances.isEmpty = true ∧ l.reservations.isEmpty = true) := by
        have hbalances : l.snapshot.balances = [] ↔ l.balances.isEmpty = true :=
          List.map_eq_nil_iff.trans List.isEmpty_iff.symm
        have hreservations : l.snapshot.reservations = [] ↔ l.reservations.isEmpty = true :=
          List.map_eq_nil_iff.trans List.isEmpty_iff.symm
        rw [hbalances, hreservations]
        rfl
      simp only [hempty]
      rfl
  | fundedSimulation =>
      have hconfig : l.snapshot.config = l.config := rfl
      rw [hconfig]
      cases hstored : l.config with
      | none => rfl
      | some config =>
          show (funded config >>= _) = (funded config >>= _)
          cases hopened : funded config with
          | error reason => rfl
          | ok opened =>
              obtain ⟨-, rfl⟩ := funded_eq_ok.1 hopened
              have hbalances := (foldlM_fresh addBalance_eq_ok).2 ⟨fun _ _ => trivial,
                nodup_key_snapshot l, fun _ _ => SortedMap.get?_empty _, rfl⟩
              have hrows : (l.snapshot.balances.map (fun row => (row.key, row.balance))).foldl
                  (fun m e => m.insert e.1 e.2) .empty = l.balances := by
                rw [map_key_snapshot]
                exact SortedMap.ofList_entries l.balances
              rw [hrows] at hbalances
              have horders : (l.snapshot.reservations.map (fun r => (r.orderId, r))).foldl
                  (fun m e => m.insert e.1 e.2) .empty = l.reservations := by
                rw [map_orderId_snapshot h]
                exact SortedMap.ofList_entries l.reservations
              have hsame : (∀ r ∈ l.snapshot.reservations,
                  r.orderId ≠ 0 ∧ r.orderId ≤ l.lastSequence) ↔
                    ∀ e ∈ l.reservations.entries, e.1 ≠ 0 ∧ e.1 ≤ l.lastSequence := by
                have hmem : ∀ e ∈ l.reservations.entries, e.2.orderId = e.1 := fun e he =>
                  h e.1 e.2 (SortedMap.mem_entries.1 he)
                unfold snapshot
                simp only [List.forall_mem_map]
                exact forall₂_congr (fun e he => by rw [hmem e he])
              show (l.snapshot.balances.foldlM LedgerSnapshot.addBalance .empty >>= _) = _
              rw [hbalances]
              show (l.snapshot.reservations.foldlM
                (LedgerSnapshot.addReservation l.lastSequence) .empty >>= _) = _
              by_cases hrange : ∀ r ∈ l.snapshot.reservations,
                  r.orderId ≠ 0 ∧ r.orderId ≤ l.lastSequence
              · have hreservations := (foldlM_fresh addReservation_eq_ok).2 ⟨hrange,
                  nodup_orderId_snapshot h, fun _ _ => SortedMap.get?_empty _, rfl⟩
                rw [horders] at hreservations
                rw [hreservations]
                show _ = (require _ _ >>= _)
                rw [(require_eq_ok.2 (hsame.1 hrange) : require _ _ = .ok ())]
                rfl
              · rw [foldlM_addReservation_outside (nodup_orderId_snapshot h)
                  (fun _ _ => SortedMap.get?_empty _) hrange]
                show _ = (require _ _ >>= _)
                rw [require_eq_error.2 ⟨mt hsame.2 hrange, rfl⟩]
                rfl

/-- A ledger at the end of a message reads back as it was. What is read back is the ledger of its
rows, no two rows share a key, and the rows keep the law. -/
theorem snapshot_round_trip :
    (∀ l, AtBoundary l → l.snapshot.fromSnapshot = .ok l) ∧
      ∀ rows l, LedgerSnapshot.fromSnapshot rows = .ok l →
        Describes rows l ∧ l.validate = .ok () ∧
          (l.mode = .syntheticLegacy ∧ rows.balances = [] ∧ rows.reservations = [] ∨
            ∃ config, l.config = some config ∧ Conserving config l ∧ RowsLaw config rows) := by
  refine ⟨fun l h => ?_, fun rows l h => ?_⟩
  · have hlawful := h.lawful
    exact fromSnapshot_of_describes ⟨rfl, rfl⟩ hlawful.describes hlawful
  · obtain ⟨hrows, hlawful⟩ := describes_of_fromSnapshot h
    refine ⟨hrows, hlawful.law.valid.passes, ?_⟩
    rcases hlawful.law with ⟨hmode, -, hbalances, hreservations⟩ | ⟨config, -, hconserving⟩
    · exact .inl ⟨hmode, SortedMap.eq_nil_of_ofList hrows.balanceKeys (hrows.balances ▸ hbalances),
        SortedMap.eq_nil_of_ofList hrows.orderIds (hrows.reservations ▸ hreservations)⟩
    · exact .inr ⟨_, hconserving.config_eq, hconserving, rowsLaw_of_conserving hrows hconserving⟩

/-- The sample ledger after its calls, written and read back. -/
theorem snapshot_sample :
    (Sample.opened.run Sample.calls).snapshot.fromSnapshot =
        .ok (Sample.opened.run Sample.calls) ∧
      Describes (Sample.opened.run Sample.calls).snapshot (Sample.opened.run Sample.calls) := by
  have hopened : Ledger.funded Sample.traders = .ok Sample.opened := by decide
  have hboundary : AtBoundary (Sample.opened.run Sample.calls) := by
    have hfirst := AtBoundary.funded hopened
    have hfinish : (Call.finishSequence 2).next (Sample.opened.run Sample.calls.dropLast) =
        .ok (Sample.opened.run Sample.calls, .done) := by decide
    exact hfirst.message hfinish
  have hread := snapshot_round_trip.1 _ hboundary
  exact ⟨hread, (snapshot_round_trip.2 _ _ hread).1⟩

end Ledger
end VerifiableExchange
