import VerifiableExchange.Poller.BatchLaw

/-!
# ClaimChain — every accepted message in one claim

Over every sequence of processes, each refused or cut short wherever it may be, the claims of each
run cover its batches one by one, from the empty engine up to the cursor. What the rules of the
poller keep at each statement is read here as one law of the database.
-/

namespace VerifiableExchange
namespace Poller

open Lib Matcher Store

/-- What the database says of one run: its claims are one chain over its batches, every message of
a batch is inside exactly one claim, and the cursor is where the last claim ends. -/
structure ClaimsCover (env : Primitives) (disk : Disk) (run : Int) : Prop where
  chain : ClaimChain env (disk.batchesOf run) (disk.tables.claimsOf run)
  once : ∀ batch ∈ disk.batchesOf run, ∀ m ∈ batch.messages,
    ∃! claim, claim ∈ disk.tables.claimsOf run ∧ claim.fromMsg ≤ m.id ∧ m.id ≤ claim.toMsg
  cursor : ∀ point, disk.tables.resumePoint.get? run = some point →
    point.lastSeen.val = claimedUpTo (disk.tables.claimsOf run)

namespace ClaimChain

variable {env : Primitives} {batches : List Batch} {claims : List ClaimRow}

theorem exists_claim {batch : Batch} (h : List.Forall₂ (Covers env) batches claims)
    (hmem : batch ∈ batches) : ∃ claim ∈ claims, Covers env batch claim := by
  induction h with
  | nil => cases hmem
  | @cons head claim batches claims hcovers _ ih =>
      rcases List.mem_cons.1 hmem with rfl | hmem
      · exact ⟨claim, List.mem_cons_self, hcovers⟩
      · obtain ⟨found, hfound, h⟩ := ih hmem
        exact ⟨found, List.mem_cons_of_mem _ hfound, h⟩

/-- Two claims of a chain that share a message are one. -/
theorem eq_of_shared (h : ClaimChain env batches claims) {c d : ClaimRow} (hc : c ∈ claims)
    (hd : d ∈ claims) {id : OrderId} (hcid : c.fromMsg ≤ id ∧ id ≤ c.toMsg)
    (hdid : d.fromMsg ≤ id ∧ id ≤ d.toMsg) : c = d := by
  by_contra hne
  have hapart : (c.toMsg < d.fromMsg ∧ d.fromMsg ≤ d.toMsg) ∨
      (d.toMsg < c.fromMsg ∧ c.fromMsg ≤ c.toMsg) :=
    (List.pairwise_iff_getElem.1 h.pairwise |> fun hpairs => by
      obtain ⟨i, hi, rfl⟩ := List.getElem_of_mem hc
      obtain ⟨j, hj, rfl⟩ := List.getElem_of_mem hd
      rcases lt_trichotomy i j with hlt | heq | hgt
      · exact .inl (hpairs i j hi hj hlt)
      · subst heq
        exact absurd rfl hne
      · exact .inr (hpairs j i hj hi hgt))
  rcases hapart with ⟨hlt, -⟩ | ⟨hlt, -⟩
  · exact absurd (le_trans hdid.1 hcid.2) (not_le.2 hlt)
  · exact absurd (le_trans hcid.1 hdid.2) (not_le.2 hlt)

/-- Every message of a batch is inside the claim over the batch, and inside no other. -/
theorem once (h : ClaimChain env batches claims) {batch : Batch} (hbatch : batch ∈ batches)
    {m : ReadMessage} (hm : m ∈ batch.messages) :
    ∃! claim, claim ∈ claims ∧ claim.fromMsg ≤ m.id ∧ m.id ≤ claim.toMsg := by
  obtain ⟨claim, hclaim, hcovers⟩ := exists_claim h.covers hbatch
  have hinside : claim.fromMsg ≤ m.id ∧ m.id ≤ claim.toMsg := by
    have hmem : m.id ∈ List.range' claim.fromMsg (claim.toMsg + 1 - claim.fromMsg) := by
      rw [← hcovers.ids]
      exact List.mem_map_of_mem hm
    obtain ⟨hfrom, hto⟩ := List.mem_range'_1.1 hmem
    rw [Nat.add_sub_cancel' (le_trans hcovers.nonempty (Nat.le_succ _))] at hto
    exact ⟨hfrom, Nat.lt_succ_iff.1 hto⟩
  exact ⟨claim, ⟨hclaim, hinside⟩, fun other hother =>
    h.eq_of_shared hother.1 hclaim hother.2 hinside⟩

end ClaimChain

theorem Sound.claimsCover {env : Primitives} {disk : Disk} (h : Sound env disk) (run : Int) :
    ClaimsCover env disk run where
  chain := (h run).chain
  once _ hbatch _ hm := (h run).chain.once hbatch hm
  cursor := (h run).cursor

/-- Wherever a process is cut, and whatever ran before it, the claims of every run are one chain
over all of its messages; and an engine that still executes stands where they end. -/
theorem claims_form_one_chain (env : Primitives)
    (earlier : List (Lifetime × List (Fate Int StoreError))) (life : Lifetime) :
    Durable.Ensures (life.serve env) (Disk.after env earlier)
      (fun disk => ∀ run, ClaimsCover env disk run)
      (fun p disk => p.published.executionPaused = false → ∀ store, p.store = some store →
        p.published.matcher.lastSeen = claimedUpTo (disk.tables.claimsOf store.runId)) := by
  intro fates
  obtain ⟨hsound, hheld⟩ := (ensures_serve (sound_after env earlier) :
    Durable.Ensures (life.serve env) _ _ _) fates
  refine ⟨hsound.claimsCover, fun p hp hrunning store hstore => ?_⟩
  exact ((hheld p hp).current_of_running hrunning hstore).tied.cursor.symm

end Poller
end VerifiableExchange
