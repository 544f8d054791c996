import VerifiableExchange.LedgerLaws

/-!
# Validity — what a ledger that passes its own validation is

The validation is exact: a funded ledger whose reservations stand under their own ids passes it
only where it keeps the law of conservation and exact backing.
-/

namespace VerifiableExchange
namespace Ledger

open Lib

/-- Every reservation is kept under its own order. -/
def Keyed (l : Ledger) : Prop := ∀ id r, l.reservations.get? id = some r → r.orderId = id

theorem keyed_of_empty {l : Ledger} (h : l.reservations = .empty) : l.Keyed := by
  intro id r hr
  rw [h] at hr
  cases hr

theorem Keyed.reserve {l l' : Ledger} (hl : l.Keyed) {orderId : OrderId} {account : AccountId}
    {symbol : String} {side : Side} {limit qty : Int}
    (h : l.reserve orderId account symbol side limit qty = .ok l') : l'.Keyed := by
  cases hfunded : l.isFunded with
  | false =>
      simp only [Ledger.reserve, hfunded, Bool.not_false, if_true] at h
      cases h
      exact hl
  | true =>
      obtain ⟨asset, units, hreservations⟩ := reservations_reserve hfunded h
      intro id r hr
      rw [hreservations, SortedMap.get?_insert] at hr
      split_ifs at hr with hid
      · cases hr
        exact hid.symm
      · exact hl id r hr

theorem keyed_putReservation {reservations : SortedMap OrderId Reservation} {next : Reservation}
    (h : ∀ id r, reservations.get? id = some r → r.orderId = id) :
    ∀ id r, (putReservation reservations next).get? id = some r → r.orderId = id := by
  intro id r hr
  rw [get?_putReservation] at hr
  split_ifs at hr with hid
  · cases hr
    exact hid.symm
  · exact h id r hr

theorem Keyed.settleFill {l l' : Ledger} (hl : l.Keyed) {maker taker : OrderId} {price qty : Int}
    (h : l.settleFill maker taker price qty = .ok l') : l'.Keyed := by
  cases hfunded : l.isFunded with
  | false =>
      simp only [Ledger.settleFill, hfunded, Bool.not_false, if_true] at h
      cases h
      exact hl
  | true =>
      obtain ⟨_, _, _, hs⟩ := settleFill_eq_ok hfunded h
      rw [hs.result]
      exact keyed_putReservation (keyed_putReservation hl)

theorem Keyed.release {l : Ledger} (hl : l.Keyed) {orderId : OrderId} {result : Ledger × Bool}
    (h : l.release orderId = .ok result) : result.1.Keyed := by
  intro id r hr
  rw [reservations_release h, SortedMap.get?_erase] at hr
  split_ifs at hr
  exact hl id r hr

/-- A ledger that passes its own validation. -/
structure Valid (l : Ledger) : Prop where
  keyed : l.Keyed
  passes : l.validate = .ok ()

/-! ## The checks, taken apart -/

theorem addObligation_eq_ok {l : Ledger} {obligations obligations' : SortedMap AccountKey Int}
    {r : Reservation} (h : l.addObligation obligations r = .ok obligations') :
    (∃ market, l.market r.symbol = .ok market ∧ r.asset = reservedAsset market r.side) ∧
      reserveUnits r.side r.limitCents r.remainingTenths = .ok r.units ∧
      obligations' = obligations.insert (accountKey r.account r.asset)
        (obligations.getD (accountKey r.account r.asset) 0 + r.units) := by
  simp only [addObligation, bind_eq_ok, require_eq_ok, orFail_eq_ok, checkedAdd_eq_some] at h
  obtain ⟨market, hmarket, _, hasset, units, hunits, _, hsame, _, ⟨-, rfl⟩, h⟩ := h
  cases h
  exact ⟨⟨market, hmarket, hasset⟩, hsame ▸ hunits, rfl⟩

/-- Obligations added up in full are the sums, and every row on the way passed its checks. -/
theorem foldlM_addObligation_eq_ok {l : Ledger} :
    ∀ {entries : List (OrderId × Reservation)} {obligations left : SortedMap AccountKey Int},
      entries.foldlM (fun obligations e => l.addObligation obligations e.2) obligations =
          .ok left →
        (∀ e ∈ entries,
          (∃ market, l.market e.2.symbol = .ok market ∧
            e.2.asset = reservedAsset market e.2.side) ∧
          reserveUnits e.2.side e.2.limitCents e.2.remainingTenths = .ok e.2.units) ∧
        ∀ key, left.getD key 0 = obligations.getD key 0 + (entries.map (fun e =>
          if accountKey e.2.account e.2.asset = key then e.2.units else 0)).sum
  | [], obligations, left, h => by
      cases h
      exact ⟨fun e he => (nomatch he), fun key => by simp⟩
  | e :: rest, obligations, left, h => by
      rw [List.foldlM_cons] at h
      obtain ⟨next, hnext, hrest⟩ := bind_eq_ok.1 h
      obtain ⟨hterms, hunits, rfl⟩ := addObligation_eq_ok hnext
      obtain ⟨hrows, hsums⟩ := foldlM_addObligation_eq_ok hrest
      refine ⟨List.forall_mem_cons.2 ⟨⟨hterms, hunits⟩, hrows⟩, fun key => ?_⟩
      rw [hsums key, SortedMap.getD_insert, List.map_cons, List.sum_cons]
      by_cases hkey : key = accountKey e.2.account e.2.asset
      · rw [if_pos hkey, if_pos hkey.symm, hkey, add_assoc]
      · rw [if_neg hkey, if_neg (Ne.symm hkey), zero_add]

/-- Every balance agreed with its obligation, and the ones left over have no balance. -/
theorem foldlM_matchObligation_eq_ok :
    ∀ {entries : List (AccountKey × Balance)} {obligations left : SortedMap AccountKey Int},
      (entries.map Prod.fst).Nodup → entries.foldlM matchObligation obligations = .ok left →
        (∀ e ∈ entries, e.2.reserved = obligations.getD e.1 0) ∧
          ∀ key, key ∉ entries.map Prod.fst → left.get? key = obligations.get? key
  | [], obligations, left, _, h => by
      cases h
      exact ⟨fun e he => (nomatch he), fun key _ => rfl⟩
  | e :: rest, obligations, left, hnodup, h => by
      obtain ⟨hnot, hnodup⟩ := List.nodup_cons.1 hnodup
      rw [List.foldlM_cons] at h
      obtain ⟨next, hnext, hrest⟩ := bind_eq_ok.1 h
      simp only [matchObligation, bind_eq_ok, require_eq_ok] at hnext
      obtain ⟨_, hagrees, hnext⟩ := hnext
      cases hnext
      obtain ⟨hrows, hleft⟩ := foldlM_matchObligation_eq_ok hnodup hrest
      constructor
      · refine List.forall_mem_cons.2 ⟨hagrees, fun x hx => ?_⟩
        have hne : x.1 ≠ e.1 := fun heq => hnot (heq ▸ List.mem_map_of_mem hx)
        rw [hrows x hx, SortedMap.getD, SortedMap.get?_erase_of_ne _ hne, SortedMap.getD]
      · intro key hkey
        obtain ⟨hne, hlater⟩ := not_or.1 (mt List.mem_cons.2 hkey)
        rw [hleft key hlater, SortedMap.get?_erase_of_ne _ hne]

/-! ## The validation is exact -/

theorem exists_conserving {l : Ledger} (hfunded : l.mode = .fundedSimulation) (h : l.Valid) :
    ∃ config, l.config = some config ∧ Conserving config l := by
  have hpasses := h.passes
  have hmode : l.isFunded = true := by simp [isFunded, hfunded]
  simp only [Ledger.validate, hmode, Bool.not_true, Bool.false_eq_true, if_false, bind_eq_ok,
    orFail_eq_ok, require_eq_ok] at hpasses
  obtain ⟨config, hconfig, _, hbalances, _, htotals, obligations, hobligations, left, hleft,
    hempty⟩ := hpasses
  obtain ⟨hrows, hsums⟩ := foldlM_addObligation_eq_ok hobligations
  obtain ⟨hagree, hothers⟩ := foldlM_matchObligation_eq_ok l.balances.nodup_keys hleft
  have hvalue : ∀ key, obligations.getD key 0 = obligation l.reservations key := by
    intro key
    rw [hsums key, SortedMap.getD, SortedMap.get?_empty, Option.getD_none, zero_add]
    rfl
  have hmarket : ∀ symbol market, l.market symbol = .ok market →
      config.markets.find? (fun m => m.symbol = symbol) = some market := by
    intro symbol market hfound
    simpa [Ledger.market, hconfig] using hfound
  refine ⟨config, hconfig, hfunded, hconfig, ?_, ?_, ?_, ?_⟩
  · intro id r hr
    obtain ⟨⟨market, hfound, hasset⟩, hunits⟩ := hrows (id, r) (SortedMap.mem_entries.2 hr)
    exact ⟨h.keyed id r hr, ⟨market, hmarket _ _ hfound, hasset⟩, hunits⟩
  · intro key
    rw [← hvalue key]
    cases hb : l.balances.get? key with
    | some b =>
        rw [SortedMap.getD, hb, Option.getD_some]
        exact hagree (key, b) (SortedMap.mem_entries.2 hb)
    | none =>
        -- A key without a balance was not taken off, and nothing was left over.
        have hnot : key ∉ l.balances.entries.map Prod.fst := by
          intro hmem
          obtain ⟨e, he, rfl⟩ := List.mem_map.1 hmem
          have hget := SortedMap.mem_entries.1 he
          rw [hb] at hget
          cases hget
        have hnone : obligations.get? key = none :=
          (hothers key hnot).symm.trans (SortedMap.isEmpty_iff.1 hempty key)
        rw [SortedMap.getD, hb, SortedMap.getD, hnone]
        rfl
  · intro key b hb
    have hvalid := forM_eq_ok.1 hbalances (key, b) (SortedMap.mem_entries.2 hb)
    simp only [validBalance, bind_eq_ok, require_eq_ok] at hvalid
    obtain ⟨_, hcheck, hconfigured⟩ := hvalid
    exact ⟨hcheck, hconfigured⟩
  · intro asset
    have hasset := SortedMap.getD_of_filter_ne_zero htotals asset
    rw [SortedMap.getD_accumulate, SortedMap.getD_accumulate, List.map_map, List.map_map] at hasset
    exact hasset.symm

theorem Conserving.valid {config : FundingConfig} {l : Ledger} (h : Conserving config l) :
    l.Valid :=
  ⟨fun id r hr => (h.reservation id r hr).id_eq, h.validate⟩

/-- A funded ledger is valid exactly where it keeps the law. -/
theorem valid_iff_conserving {config : FundingConfig} {l : Ledger}
    (hfunded : l.mode = .fundedSimulation) (hconfig : l.config = some config) :
    l.Valid ↔ Conserving config l := by
  refine ⟨fun h => ?_, Conserving.valid⟩
  obtain ⟨config', hconfig', hconserving⟩ := exists_conserving hfunded h
  cases hconfig.symm.trans hconfig'
  exact hconserving

end Ledger
end VerifiableExchange
