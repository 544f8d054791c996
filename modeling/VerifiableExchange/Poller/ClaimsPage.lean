import VerifiableExchange.Poller.Chain

/-!
# ClaimsPage — what the exchange serves of its claims

The header of a page says where the engine stands at one moment, and the rows are read from the
database at a later one. A page that is asked for a page of messages below a claim's last message
holds the claim, however many claims came after it.
-/

namespace VerifiableExchange

namespace Lib
namespace Entries

/-- The first rows of a sorted list hold every key that is close to the lower bound of them all. -/
theorem mem_take_of_key_le {V : Type} {e : Int × V} :
    ∀ {rows : List (Int × V)} {bound : Int} {limit : Nat}, Sorted rows →
      (∀ row ∈ rows, bound < row.1) → e ∈ rows → e.1 ≤ bound + limit → e ∈ rows.take limit
  | row :: rest, bound, 0, _, hbound, hmem, hle => by
      have hlt := hbound e hmem
      rw [Nat.cast_zero, add_zero] at hle
      exact absurd hlt (not_lt.2 hle)
  | row :: rest, bound, limit + 1, hsorted, hbound, hmem, hle => by
      rw [List.take_succ_cons]
      rcases List.mem_cons.1 hmem with rfl | hmem
      · exact List.mem_cons_self
      · obtain ⟨hfirst, hrest⟩ := List.pairwise_cons.1 hsorted
        have hnext : ∀ later ∈ rest, bound + 1 < later.1 := fun later hlater =>
          lt_of_le_of_lt (Int.add_one_le_iff.2 (hbound row List.mem_cons_self))
            (hfirst later hlater)
        refine List.mem_cons_of_mem _ (mem_take_of_key_le hrest hnext hmem ?_)
        rwa [add_assoc, add_comm 1, ← Nat.cast_succ]

end Entries
end Lib

open Lib Matcher

namespace Store
namespace Tables

/-! ## One page of rows -/

/-- A claim out of its row. Its numbers read back as they were written. -/
def claimOfRow (claim : ClaimRow) : Except StoreError ClaimRow := do
  let root (n : Nat) : String := s!"claim root has {n} bytes, expected 32"
  let _ ← fixed 32 (some claim.rootBefore) root
  let _ ← fixed 32 (some claim.rootAfter) root
  let _ ← fixed 64 claim.signature (fun n => s!"claim signature has {n} bytes, expected 64")
  return claim

/-- One page of a run's claims, in message order, starting after `since`. -/
def claimsSince (t : Tables) (runId : Int) (since : OrderId) (limit : Nat) :
    Except StoreError (List ClaimRow) :=
  (((rowsOf t.claims runId).filter (fun row => asI64 since < row.1)).take limit).mapM
    (fun row => claimOfRow row.2)

theorem claimOfRow_eq_ok {claim read : ClaimRow} (h : claimOfRow claim = .ok read) :
    read = claim := by
  simp only [claimOfRow, bind_eq_ok] at h
  obtain ⟨-, -, -, -, -, -, h⟩ := h
  exact (Except.ok.inj h).symm

variable {t : Tables} {runId : Int} {since : OrderId} {limit : Nat} {page : List ClaimRow}

theorem claimsSince_eq_ok (h : t.claimsSince runId since limit = .ok page) :
    page = (((rowsOf t.claims runId).filter (fun row => asI64 since < row.1)).take limit).map
      Prod.snd :=
  (mapM_eq_ok (fun _ _ hread => claimOfRow_eq_ok hread) h).1

theorem mem_claimsOf_of_claimsSince (h : t.claimsSince runId since limit = .ok page)
    {claim : ClaimRow} (hmem : claim ∈ page) : claim ∈ t.claimsOf runId := by
  rw [claimsSince_eq_ok h] at hmem
  obtain ⟨row, hrow, rfl⟩ := List.mem_map.1 hmem
  exact List.mem_map_of_mem (List.mem_filter.1 (List.mem_of_mem_take hrow)).1

/-- The page holds the row of every first message it is asked for. -/
theorem mem_claimsSince (h : t.claimsSince runId since limit = .ok page) {row : Int × ClaimRow}
    (hrow : row ∈ rowsOf t.claims runId) (hafter : asI64 since < row.1)
    (hwithin : row.1 ≤ asI64 since + limit) : row.2 ∈ page := by
  rw [claimsSince_eq_ok h]
  refine List.mem_map_of_mem (Entries.mem_take_of_key_le ?_ ?_ ?_ hwithin)
  · exact List.Pairwise.filter _ sorted_rowsOf
  · intro other hother
    exact of_decide_eq_true (List.mem_filter.1 hother).2
  · exact List.mem_filter.2 ⟨hrow, decide_eq_true hafter⟩

end Tables
end Store

namespace Poller

open Store

/-! ## The response -/

/-- Rows in one page, for claims as for messages. -/
def PAGE_LIMIT : Nat := 1000

/-- What the engine writes right now: the run, its session, its cursor and the keys. -/
structure RunHeader where
  runId : Int
  session : String
  cursor : OrderId
  matcherPublicKey : String
  feedPublicKey : Option String
  deriving DecidableEq

/-- Why a request for claims gets none. -/
inductive ClaimsRefusal
  | withoutDatabase
  | history (error : StoreError)

/-- The run header; an engine without a database has no claim history to serve. -/
def runHeader (s : Published) : Except ClaimsRefusal RunHeader :=
  match s.runId, s.matcherPubkey with
  | some runId, some matcherPublicKey =>
      .ok {
        runId := runId
        session := s.matcher.feedSession.getD ""
        cursor := s.durableLastSeen
        matcherPublicKey := matcherPublicKey
        feedPublicKey := s.matcher.feedPubkey }
  | _, _ => .error .withoutDatabase

/-- One execution claim, as the API serves it. -/
structure ClaimView where
  fromMsg : OrderId
  toMsg : OrderId
  rootBefore : String
  rootAfter : String
  tradesTotal : Nat
  signature : Option String
  deriving DecidableEq

def ClaimView.of (claim : ClaimRow) : ClaimView where
  fromMsg := claim.fromMsg
  toMsg := claim.toMsg
  rootBefore := Logchain.toHex claim.rootBefore
  rootAfter := Logchain.toHex claim.rootAfter
  tradesTotal := claim.tradesTotal
  signature := claim.signature.map Logchain.toHex

/-- One page of the current run's claims, with what a caller needs to check them. -/
structure ClaimsResponse where
  header : RunHeader
  claims : List ClaimView

/-- `GET /claims`: the header of what is published, and the rows of the tables as they are once it
was read. -/
def getClaims (s : Published) (t : Tables) (since : OrderId) : Except ClaimsRefusal ClaimsResponse := do
  let header ← runHeader s
  let rows ← (t.claimsSince header.runId since PAGE_LIMIT).mapError .history
  return ⟨header, rows.map ClaimView.of⟩

/-! ## The claim that ends at a message -/

namespace RunSound

variable {env : Primitives} {disk : Disk} {run : Int} {since : OrderId} {page : List ClaimRow}

/-- Two claims of one run that end at one message are one. -/
theorem eq_of_toMsg (h : RunSound env disk run) {c d : ClaimRow}
    (hc : c ∈ disk.tables.claimsOf run) (hd : d ∈ disk.tables.claimsOf run)
    (hto : c.toMsg = d.toMsg) : c = d := by
  obtain ⟨i, hi, rfl⟩ := List.getElem_of_mem hc
  obtain ⟨j, hj, rfl⟩ := List.getElem_of_mem hd
  have hpairs := List.pairwise_iff_getElem.1 h.chain.pairwise
  rcases lt_trichotomy i j with hlt | rfl | hgt
  · obtain ⟨hbefore, hwhole⟩ := hpairs i j hi hj hlt
    exact absurd hto (lt_of_lt_of_le hbefore hwhole).ne
  · rfl
  · obtain ⟨hbefore, hwhole⟩ := hpairs j i hj hi hgt
    exact absurd hto (lt_of_lt_of_le hbefore hwhole).ne'

/-- The page after `since` holds every claim that begins within a page of it, and no other claim
that ends where it does. -/
theorem find?_claimsSince (h : RunSound env disk run)
    (hpage : disk.tables.claimsSince run since PAGE_LIMIT = .ok page) {claim : ClaimRow}
    (hmem : claim ∈ disk.tables.claimsOf run) (hafter : since < claim.fromMsg)
    (hwithin : claim.fromMsg ≤ since + PAGE_LIMIT) (hfits : (claim.fromMsg : Int) ≤ i64Max) :
    page.find? (fun found => found.toMsg = claim.toMsg) = some claim := by
  obtain ⟨row, hrow, rfl⟩ := List.mem_map.1 hmem
  have hkey : row.1 = row.2.fromMsg := h.keys row hrow
  have hsince : asI64 since = since :=
    integer_val (le_trans (Int.ofNat_le.2 hafter.le) hfits)
  have hin : row.2 ∈ page := by
    refine Tables.mem_claimsSince hpage hrow ?_ ?_
    · rw [hsince, hkey]
      exact Int.ofNat_lt.2 hafter
    · rw [hsince, hkey]
      exact_mod_cast hwithin
  cases hfound : page.find? (fun found => found.toMsg = row.2.toMsg) with
  | none => exact absurd (decide_eq_true rfl) (List.find?_eq_none.1 hfound row.2 hin)
  | some found =>
      have hends : found.toMsg = row.2.toMsg := by simpa using List.find?_some hfound
      have hread := Tables.mem_claimsOf_of_claimsSince hpage (List.mem_of_find?_eq_some hfound)
      rw [h.eq_of_toMsg hread hmem hends]

end RunSound

end Poller
end VerifiableExchange
