import Mathlib.Data.List.DropRight
import VerifiableExchange.Validator.Positions

/-!
# Stall — how long a validator has not been able to check

The count of unchecked polls says how many of the last polls in a row confirmed nothing. A head that
opens a new session starts the count again before the rest of its page is checked, so a sequencer
that opens one in every poll is never counted. In a run in which no page does that the count is
exact, through restarts that find it on disk.
-/

namespace VerifiableExchange
namespace Validator

open Lib Matcher Matcher.Validators
open Poller (SignedHead)

/-- Whether the poll confirmed the cursor. -/
def Ingest.confirms : Ingest → Bool
  | .verified _ => true
  | _ => false

/-- How many of the last polls in a row confirmed nothing. -/
def streak (polls : List Ingest) : Nat := (polls.rtakeWhile (fun poll => !poll.confirms)).length

theorem streak_confirmed {polls : List Ingest} {poll : Ingest} (h : poll.confirms = true) :
    streak (polls ++ [poll]) = 0 := by
  simp [streak, h]

theorem streak_missed {polls : List Ingest} {poll : Ingest} (h : poll.confirms = false) :
    streak (polls ++ [poll]) = streak polls + 1 := by
  simp [streak, h]

namespace System

variable {env : Primitives} {key : SigningKey} {s s' : System}

/-- What an action polls, where it does. -/
def pollOf (env : Primitives) (s : System) : Action → List Ingest
  | .poll answer _ => if s.state.disputed then [] else [(s.state.receive env answer).2]
  | .attest | .restart | .clearDispute => []

/-- What the polls of a run ended in, the first one first. -/
def polls (env : Primitives) (key : SigningKey) (s : System) : List Action → List Ingest
  | [] => []
  | action :: rest =>
      pollOf env s action ++ ((s.perform env key action).elim [] fun s' => polls env key s' rest)

/-- The count in memory is the number of polls in a row that confirmed nothing, and the attestation
says so from the limit on. -/
structure Counts (key : SigningKey) (s : System) (polls : List Ingest) : Prop where
  exact : s.state.uncheckedPolls = min (streak polls) u32Max
  stalled : UNCHECKED_POLLS_BEFORE_STALL ≤ streak polls → (s.state.attest key).stalled = true
  current : ∀ cursor, polls.getLast? = some (.verified cursor) →
    (s.state.attest key).stalled = false

theorem counts_of_exact {polls : List Ingest}
    (h : s.state.uncheckedPolls = min (streak polls) u32Max) : Counts key s polls := by
  have hstalled : (s.state.attest key).stalled =
      decide (UNCHECKED_POLLS_BEFORE_STALL ≤ s.state.uncheckedPolls) := rfl
  refine ⟨h, fun hlong => ?_, fun cursor hlast => ?_⟩
  · rw [hstalled, h]
    have hlimit : UNCHECKED_POLLS_BEFORE_STALL ≤ u32Max := by decide
    exact decide_eq_true (le_min hlong hlimit)
  · obtain ⟨front, rfl⟩ := List.getLast?_eq_some_iff.1 hlast
    rw [hstalled, h, streak_confirmed rfl]
    decide

/-- A page that opens another session while polls are being missed is verified, no page is caught,
and a restart finds the count on disk. -/
def Steady (env : Primitives) (s : System) (action : Action) : Prop :=
  (∀ session head messages saved,
      action = .poll (.page (some session) (some head) messages) saved →
      s.state.disputed = false → s.state.Vouched env session head →
        (s.state.session ≠ some session → s.state.uncheckedPolls ≠ 0 →
          s.state.Passes env session head messages) ∧
        (s.state.Covered env session head messages → s.state.Passes env session head messages)) ∧
    (action = .restart →
      s.state.uncheckedPolls = ((s.disk.map Row.uncheckedPolls).getD 0).toNat)

/-- What a run keeps: an exact count, and no verdict. -/
structure Exact (s : System) (polls : List Ingest) : Prop where
  exact : s.state.uncheckedPolls = min (streak polls) u32Max
  undisputed : s.state.disputed = false
  stored : ∀ row ∈ s.disk, row.disputed = 0

/-- A head that counts leaves the count where it is, or starts it again. -/
theorem uncheckedPolls_trust {s : ValidatorState} {session : String} {head : SignedHead} :
    (s.trust session head).uncheckedPolls =
      if s.session = some session then s.uncheckedPolls else 0 := by
  have hpin : ∀ publicKey, (s.pin publicKey).uncheckedPolls = s.uncheckedPolls := by
    intro publicKey
    unfold ValidatorState.pin
    split_ifs <;> rfl
  unfold ValidatorState.trust ValidatorState.enter
  rw [ValidatorState.pin_session]
  by_cases hsession : s.session = some session
  · rw [if_neg (not_not_intro hsession), if_pos hsession, hpin]
  · rw [if_pos hsession, if_neg hsession]

/-- One more missed poll, on a count that is exact. -/
theorem exact_uncheckedOnce {t : ValidatorState} {polls : List Ingest} {why : Unchecked}
    (h : t.uncheckedPolls = min (streak polls) u32Max) :
    t.uncheckedOnce.uncheckedPolls = min (streak (polls ++ [.unchecked why])) u32Max := by
  rw [streak_missed rfl]
  show min (t.uncheckedPolls + 1) u32Max = min (streak polls + 1) u32Max
  rw [h]
  omega

/-- An answer on an exact count. -/
theorem Exact.receive {polls : List Ingest} (h : s.Exact polls) {answer : Answer} {saved : Bool}
    (hsteady : s.Steady env (.poll answer saved)) {state : ValidatorState} {outcome : Ingest}
    (hreceived : ValidatorState.Received env s.state answer state outcome) :
    state.uncheckedPolls = min (streak (polls ++ [outcome])) u32Max ∧ state.disputed = false := by
  cases hreceived with
  | unread _ why _ => exact ⟨exact_uncheckedOnce h.exact, h.undisputed⟩
  | refused session head messages why hvouched hnot =>
      refine ⟨exact_uncheckedOnce ?_, ValidatorState.trust_disputed.trans h.undisputed⟩
      rw [uncheckedPolls_trust]
      by_cases hsession : s.state.session = some session
      · rw [if_pos hsession]
        exact h.exact
      · rw [if_neg hsession]
        -- The count starts again, so it must have stood at the start.
        by_contra hcount
        have hmissed : s.state.uncheckedPolls ≠ 0 := by
          rw [h.exact]
          exact Ne.symm hcount
        have hpasses := (hsteady.1 session head messages saved rfl h.undisputed hvouched).1
          hsession hmissed
        exact hnot hpasses.toCovered
  | caught session head messages reason hcovered hchain =>
      have hpasses := (hsteady.1 session head messages saved rfl h.undisputed
        hcovered.toVouched).2 hcovered
      exact absurd hpasses.produced hchain
  | verified session head messages hpasses =>
      refine ⟨?_, ValidatorState.trust_disputed.trans h.undisputed⟩
      rw [streak_confirmed rfl]
      rfl

theorem Exact.poll {polls : List Ingest} (h : s.Exact polls) {answer : Answer} {saved : Bool}
    (hsteady : s.Steady env (.poll answer saved)) :
    (s.poll env answer saved).Exact (polls ++ pollOf env s (.poll answer saved)) := by
  have houtcome : pollOf env s (.poll answer saved) = [(s.state.receive env answer).2] := by
    simp [pollOf, h.undisputed]
  obtain ⟨hexact, hundisputed⟩ :=
    h.receive hsteady (ValidatorState.received env s.state answer)
  have hpoll : ¬s.state.disputed = true := by
    rw [h.undisputed]
    decide
  have hstate : (s.poll env answer saved).state = (s.state.receive env answer).1 := by
    unfold System.poll
    rw [if_neg hpoll]
  have hdisk : (s.poll env answer saved).disk =
      if saved then some (save (s.state.receive env answer).1) else s.disk := by
    unfold System.poll
    rw [if_neg hpoll]
  rw [houtcome]
  refine ⟨hstate ▸ hexact, hstate ▸ hundisputed, fun row hrow => ?_⟩
  rw [hdisk] at hrow
  split_ifs at hrow
  · cases hrow
    simp [save, hundisputed]
  · exact h.stored row hrow

theorem Exact.perform {polls : List Ingest} (h : s.Exact polls) {action : Action}
    (hsteady : s.Steady env action) (hperform : s.perform env key action = some s') :
    s'.Exact (polls ++ pollOf env s action) := by
  cases action with
  | poll answer saved =>
      cases hperform
      exact h.poll hsteady
  | attest =>
      cases hperform
      rw [pollOf, List.append_nil]
      exact ⟨h.exact, h.undisputed, h.stored⟩
  | restart =>
      obtain ⟨state, hopened, rfl⟩ := perform_restart hperform
      have hfound := hsteady.2 rfl
      rw [pollOf, List.append_nil]
      have hbound : s.state.uncheckedPolls ≤ u32Max := h.exact ▸ min_le_right _ _
      have hopens : state.uncheckedPolls = s.state.uncheckedPolls ∧ state.disputed = false := by
        cases hdisk : s.disk with
        | none =>
            rw [hdisk] at hopened hfound
            cases hopened
            exact ⟨hfound.symm, rfl⟩
        | some row =>
            have hrow := h.stored row hdisk
            rw [hdisk] at hopened hfound
            rw [openValidatorDb] at hopened
            split_ifs at hopened
            cases hopened
            refine ⟨?_, by simp [hrow]⟩
            have hcount : s.state.uncheckedPolls = row.uncheckedPolls.toNat := hfound
            show (max row.uncheckedPolls 0).toNat % (u32Max + 1) = s.state.uncheckedPolls
            unfold u32Max at hbound ⊢
            omega
      exact ⟨hopens.1.trans h.exact, hopens.2, h.stored⟩
  | clearDispute =>
      cases hperform
      rw [pollOf, List.append_nil]
      refine ⟨h.exact, h.undisputed, fun row hrow => ?_⟩
      obtain ⟨before, hbefore, rfl⟩ := Option.map_eq_some_iff.1 hrow
      have hclear := h.stored before hbefore
      unfold Validator.clearDispute
      rw [if_neg (not_not_intro hclear)]
      exact hclear

theorem Exact.run {actions : List Action} : ∀ {s s' : System} {past : List Ingest},
    s.Exact past → s.Meets env key (Steady env) actions →
      s.performAll env key actions = some s' → s'.Exact (past ++ polls env key s actions) := by
  induction actions with
  | nil =>
      intro s s' past h _ hrun
      cases hrun
      rwa [polls, List.append_nil]
  | cons action rest ih =>
      intro s s' past h hmeets hrun
      rw [performAll, List.foldlM_cons] at hrun
      obtain ⟨m, hm, hend⟩ := Option.bind_eq_some_iff.1 hrun
      have hnext := ih (h.perform hmeets.1 hm) (hmeets.2 m hm) hend
      rw [List.append_assoc] at hnext
      rw [polls, hm]
      exact hnext

/-- In every run whose steps are steady, the count is exact at every moment. -/
theorem stall_counts {actions before : List Action} (h : start.Meets env key (Steady env) actions)
    (hbefore : before <+: actions) (hrun : start.performAll env key before = some s) :
    Counts key s (polls env key start before) := by
  obtain ⟨after, rfl⟩ := hbefore
  have hstart : start.Exact [] := ⟨rfl, rfl, fun row hrow => by cases hrow⟩
  exact counts_of_exact (hstart.run h.append.1 hrun).exact

/-- Two polls without an answer, found on disk by the restart between them. -/
theorem stall_counts_sample :
    ∃ s, start.performAll Sample.env Sample.key
        [.poll .silent true, .restart, .poll .silent true] = some s ∧
      Counts Sample.key s (polls Sample.env Sample.key start
        [.poll .silent true, .restart, .poll .silent true]) := by
  have hsilent : ∀ t : System, t.Steady Sample.env (.poll .silent true) := by
    refine fun t => ⟨?_, fun hrestart => by cases hrestart⟩
    rintro session head messages saved hpoll
    cases hpoll
  have hmeets : start.Meets Sample.env Sample.key (Steady Sample.env)
      [.poll .silent true, .restart, .poll .silent true] := by
    refine ⟨hsilent _, fun t ht => ⟨⟨?_, fun _ => ?_⟩, fun u _ => ⟨hsilent u, fun _ _ => trivial⟩⟩⟩
    · rintro session head messages saved hpoll
      cases hpoll
    · cases ht
      rfl
  exact ⟨_, rfl, stall_counts hmeets (List.prefix_refl _) rfl⟩

/-- A page of one session and a page of another, where the head of neither stands at the last
message beside it. -/
def Sample.turns : List Action :=
  [Sample.page Sample.otherSession Sample.otherHead [Sample.first] true,
    Sample.page Sample.session Sample.firstHead [] true]

/-- A sequencer that opens a session in every poll is never counted: twenty polls in a row confirm
nothing, and the attestation is not stalled. -/
theorem never_stalls :
    ∃ s, start.performAll Sample.env Sample.key
        (Sample.page Sample.session Sample.firstHead [Sample.first] true ::
          (List.replicate 10 Sample.turns).flatten) = some s ∧
      streak (polls Sample.env Sample.key start
        (Sample.page Sample.session Sample.firstHead [Sample.first] true ::
          (List.replicate 10 Sample.turns).flatten)) = UNCHECKED_POLLS_BEFORE_STALL ∧
      s.state.uncheckedPolls = 1 ∧ (s.state.attest Sample.key).stalled = false := by
  have hvalues : (start.performAll Sample.env Sample.key
      (Sample.page Sample.session Sample.firstHead [Sample.first] true ::
        (List.replicate 10 Sample.turns).flatten)).any (fun s =>
      decide (s.state.uncheckedPolls = 1)) = true := by
    decide +kernel
  obtain ⟨s, hs, hcount⟩ := (Option.any_eq_true _ _).1 hvalues
  have hone : s.state.uncheckedPolls = 1 := of_decide_eq_true hcount
  refine ⟨s, hs, by decide +kernel, hone, ?_⟩
  show decide (UNCHECKED_POLLS_BEFORE_STALL ≤ s.state.uncheckedPolls) = false
  rw [hone]
  decide

end System
end Validator
end VerifiableExchange
