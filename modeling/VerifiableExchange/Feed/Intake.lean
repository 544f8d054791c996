import VerifiableExchange.Feed.Drain
import VerifiableExchange.Feed.Sequence

/-!
# Intake — what a request is let through for

One inversion per path into the log: what `POST /order`, `POST /cancel`, `POST /operator` and one
entry of a drained page have passed by the time an id is taken, and what they may have changed.
-/

namespace VerifiableExchange
namespace Feed

open Lib Merkle Logchain Inbox

/-! ## Keys of accounts -/

/-- The key is the one fixed to the account, and may have been fixed by this request. -/
inductive Pinned (state : Sequencer) (account : AccountId) (key : Bytes) : Sequencer → Prop
  | known : state.accounts.lookup account = some key → Pinned state account key state
  | inMemory :
      state.accounts.lookup account = none → state.accounts.entries.length < state.maxAccounts →
      state.feed.storage.isMemory = true → Pinned state account key (state.pin account key)
  | onDisk :
      state.accounts.lookup account = none → state.accounts.entries.length < state.maxAccounts →
      state.feed.storage.isMemory = false →
      (∀ row ∈ state.accountRows, row.account ≠ account.val) →
      Pinned state account key { state.pin account key with
        accountRows := state.accountRows ++ [⟨account.val, toHex key⟩] }

namespace Pinned

variable {state pinned : Sequencer} {account : AccountId} {key : Bytes}

theorem of_eq_ok {commits : Bool}
    (h : state.pinOrCheckAccount account key commits = .ok pinned) :
    Pinned state account key pinned := by
  rw [Sequencer.pinOrCheckAccount, checkAccountKey.eq_def] at h
  cases hpin : state.accounts.lookup account with
  | some known =>
      simp only [hpin] at h
      by_cases hkey : known = key
      · simp only [hkey, if_true, Except.ok.injEq] at h
        subst h
        exact .known (hkey ▸ hpin)
      · simp [hkey] at h
  | none =>
      simp only [hpin] at h
      split_ifs at h with hroom hmemory hwritten
      · cases h
        exact .inMemory hpin (by omega) hmemory
      · cases h
        obtain ⟨-, hrow⟩ := not_or.1 hwritten
        refine .onDisk hpin (by omega) (by simpa using hmemory) fun row hmem heq => hrow ?_
        exact List.any_eq_true.2 ⟨row, hmem, decide_eq_true heq⟩

/-- A pin touches the accounts alone. -/
theorem frame (h : Pinned state account key pinned) :
    pinned = { state with accounts := pinned.accounts, accountRows := pinned.accountRows } := by
  cases h <;> rfl

theorem feed_eq (h : Pinned state account key pinned) : pinned.feed = state.feed := by
  rw [h.frame]

theorem lookup_eq (h : Pinned state account key pinned) :
    pinned.accounts.lookup account = some key := by
  cases h with
  | known hknown => exact hknown
  | inMemory | onDisk => exact AList.lookup_insert _

/-- No key that is fixed changes. -/
theorem mono (h : Pinned state account key pinned) {other : AccountId} {fixed : Bytes}
    (hfixed : state.accounts.lookup other = some fixed) :
    pinned.accounts.lookup other = some fixed := by
  cases h with
  | known => exact hfixed
  | inMemory hnone | onDisk hnone =>
      have hne : other ≠ account := by
        rintro rfl
        rw [hnone] at hfixed
        cases hfixed
      exact (AList.lookup_insert_ne hne).trans hfixed

end Pinned

/-! ## Single messages -/

theorem nonceKey_messageFrom (id : OrderId) (timestamp : Nat) {submission : Submission}
    {nonce : Bytes} (h : checkedNonce submission = .ok nonce) :
    nonceKey (messageFrom id timestamp submission) = some (submission.accountOf, nonce) := by
  rw [nonceKey, messageFrom_nonce, messageFrom_account, checkedNonce_eq_ok.1 h]
  rfl

/-- What `POST /order` and `POST /cancel` have checked when an id is taken. -/
structure Admitted (env : Primitives) (state : Sequencer) (signed : SignedSubmission) (key : Bytes)
    (nonce : Bytes) (admitted : Sequencer) : Prop where
  authorised : Authorised env signed key
  nonce_eq : checkedNonce signed.submission = .ok nonce
  logIsOpen : state.logIsOpen = true
  session_eq : checkSession state.feed.session signed.submission = .ok ()
  pinned : Pinned state signed.submission.accountOf key admitted
  unspent : state.feed.nonces.lookup (signed.submission.accountOf, nonce) = none
  room : state.feed.checkRetentionGrowth 1 1 0 = .ok ()

variable {env : Primitives} {state : Sequencer}

theorem admit_eq_ok {signed : SignedSubmission} {c : Circumstances} {admitted : Sequencer}
    (h : state.admitSubmission env signed c = .ok admitted) :
    ∃ key nonce, Admitted env state signed key nonce admitted := by
  rw [Sequencer.admitSubmission] at h
  obtain ⟨_, hvalid, h⟩ := bind_eq_ok.1 h
  obtain ⟨key, hkey, h⟩ := bind_eq_ok.1 h
  obtain ⟨nonce, hnonce, h⟩ := bind_eq_ok.1 h
  obtain ⟨_, -, h⟩ := bind_eq_ok.1 h
  obtain ⟨_, hopen, h⟩ := bind_eq_ok.1 h
  obtain ⟨_, hsession, h⟩ := bind_eq_ok.1 h
  obtain ⟨pinned, hpinned, h⟩ := bind_eq_ok.1 h
  have hpin := Pinned.of_eq_ok (mapError_eq_ok.1 hpinned)
  split at h
  case h_1 => cases h
  case h_2 hunspent =>
    obtain ⟨_, hroom, h⟩ := bind_eq_ok.1 h
    cases h
    rw [hpin.feed_eq] at hunspent hroom
    exact ⟨key, nonce, ⟨mapError_eq_ok.1 hvalid, mapError_eq_ok.1 hkey⟩, mapError_eq_ok.1 hnonce,
      require_eq_ok.1 hopen, mapError_eq_ok.1 hsession, hpin, hunspent, mapError_eq_ok.1 hroom⟩

/-- A refused request may still have fixed a key. -/
theorem admit_eq_error {signed : SignedSubmission} {c : Circumstances} {left : Sequencer}
    {error : SubmitError} (h : state.admitSubmission env signed c = .error (left, error)) :
    left = state ∨ ∃ key, Authorised env signed key ∧
      Pinned state signed.submission.accountOf key left := by
  rw [Sequencer.admitSubmission] at h
  have same {α : Type} {x : Except Refusal α}
      (hx : (x.mapError fun refusal => (state, SubmitError.refused refusal)) =
        .error (left, error)) : left = state := by
    cases x with
    | ok => cases hx
    | error =>
        cases hx
        rfl
  rcases bind_eq_error.1 h with hx | ⟨_, hvalid, h⟩
  · exact Or.inl (same hx)
  rcases bind_eq_error.1 h with hx | ⟨key, hkey, h⟩
  · exact Or.inl (same hx)
  rcases bind_eq_error.1 h with hx | ⟨nonce, hnonce, h⟩
  · exact Or.inl (same hx)
  rcases bind_eq_error.1 h with hx | ⟨_, -, h⟩
  · exact Or.inl (congrArg Prod.fst (require_eq_error.1 hx).2).symm
  rcases bind_eq_error.1 h with hx | ⟨_, hopen, h⟩
  · exact Or.inl (congrArg Prod.fst (require_eq_error.1 hx).2).symm
  rcases bind_eq_error.1 h with hx | ⟨_, hsession, h⟩
  · exact Or.inl (same hx)
  rcases bind_eq_error.1 h with hx | ⟨pinned, hpinned, h⟩
  · left
    cases hpin : state.pinOrCheckAccount signed.submission.accountOf key c.pinCommits with
    | ok => simp [hpin, Except.mapError] at hx
    | error =>
        rw [hpin] at hx
        cases hx
        rfl
  · right
    refine ⟨key, ⟨mapError_eq_ok.1 hvalid, mapError_eq_ok.1 hkey⟩, ?_⟩
    have hpin := Pinned.of_eq_ok (mapError_eq_ok.1 hpinned)
    split at h
    case h_1 =>
      cases h
      exact hpin
    case h_2 =>
      rcases bind_eq_error.1 h with hx | ⟨_, -, h⟩
      · cases hroom : pinned.feed.checkRetentionGrowth 1 1 0 with
        | ok => simp [hroom, Except.mapError] at hx
        | error =>
            rw [hroom] at hx
            cases hx
            exact hpin
      · cases h

/-- What `POST /operator` has checked when an id is taken. -/
structure OperatorAdmitted (env : Primitives) (state : Sequencer) (req : SubmitOperatorRequest)
    (nonce : Bytes) : Prop where
  nonce_eq : Operator.canonicalNonce req.nonce = some nonce
  verified : ∃ key, state.operatorKey = some key ∧
    Operator.verify env (req.message 0 0) state.feed.session key = true
  unspent : state.feed.nonces.lookup (OPERATOR_ACCOUNT, nonce) = none
  room : state.feed.checkRetentionGrowth 1 1 0 = .ok ()

theorem admitOperator_eq_ok {req : SubmitOperatorRequest} {c : Circumstances}
    (h : state.admitOperator env req c = .ok ()) : ∃ nonce, OperatorAdmitted env state req nonce := by
  rw [Sequencer.admitOperator] at h
  obtain ⟨nonce, hnonce, h⟩ := bind_eq_ok.1 h
  obtain ⟨_, -, h⟩ := bind_eq_ok.1 h
  obtain ⟨key, hkey, h⟩ := bind_eq_ok.1 h
  obtain ⟨_, -, h⟩ := bind_eq_ok.1 h
  obtain ⟨_, hverified, h⟩ := bind_eq_ok.1 h
  obtain ⟨_, -, h⟩ := bind_eq_ok.1 h
  split at h
  case h_1 => cases h
  case h_2 hunspent =>
    exact ⟨nonce, orFail_eq_ok.1 hnonce, ⟨key, orFail_eq_ok.1 hkey, require_eq_ok.1 hverified⟩,
      hunspent, mapError_eq_ok.1 h⟩

/-! ## Entries of a page -/

/-- What has been checked of an entry that becomes the next message. -/
structure Given (env : Primitives) (pass : Pass) (epoch : String) (due : Due) (key nonce : Bytes)
    (pinned : Sequencer) : Prop where
  authorised : Authorised env due.entry.signed key
  pinned : Pinned pass.state due.entry.signed.submission.accountOf key pinned
  session_eq : checkSession pass.state.feed.session due.entry.signed.submission = .ok ()
  nonce_eq : checkedNonce due.entry.signed.submission = .ok nonce
  unpaired : pass.state.feed.inboxSequenced.lookup (epoch, due.entry.inboxId) = none
  unspent : pass.already (due.entry.signed.submission.accountOf, nonce) = none
  room : pass.state.feed.checkRetentionGrowth (pass.batch.length + 1) (pass.batch.length + 1)
    (pass.batch.length + 1) = .ok ()

/-- What has been checked of an entry whose nonce is used already. -/
structure Resolved (env : Primitives) (serde : Wire.Serde) (unread : OrderId → Bool) (pass : Pass)
    (due : Due) (key nonce : Bytes) (pinned : Sequencer) (feedId : OrderId) (inBatch : Bool) :
    Prop where
  authorised : Authorised env due.entry.signed key
  pinned : Pinned pass.state due.entry.signed.submission.accountOf key pinned
  session_eq : checkSession pass.state.feed.session due.entry.signed.submission = .ok ()
  nonce_eq : checkedNonce due.entry.signed.submission = .ok nonce
  already_eq : pass.already (due.entry.signed.submission.accountOf, nonce) = some (feedId, inBatch)
  judged_eq : pass.judged serde unread due.entry.signed.submission feedId inBatch = some true

/-- What the loop makes of one entry. -/
inductive Took (env : Primitives) (serde : Wire.Serde) (unread : OrderId → Bool) (epoch : String)
    (pass : Pass) (due : Due) : Pass → Prop
  | paired (feedId : OrderId) :
      pass.state.feed.inboxSequenced.lookup (epoch, due.entry.inboxId) = some feedId →
      Took env serde unread epoch pass due (pass.pair due.entry.inboxId feedId false)
  | refused (reason : IntakeRefusal) :
      Took env serde unread epoch pass due (pass.refuse due.entry.inboxId reason)
  | pinnedOnly (key : Bytes) (pinned : Sequencer) (reason : IntakeRefusal) :
      Authorised env due.entry.signed key →
      Pinned pass.state due.entry.signed.submission.accountOf key pinned →
      Took env serde unread epoch pass due
        ({ pass with state := pinned }.refuse due.entry.inboxId reason)
  | resolved (key nonce : Bytes) (pinned : Sequencer) (feedId : OrderId) (inBatch : Bool) :
      Resolved env serde unread pass due key nonce pinned feedId inBatch →
      Took env serde unread epoch pass due
        ({ pass with state := pinned }.pair due.entry.inboxId feedId inBatch)
  | given (key nonce : Bytes) (pinned : Sequencer) :
      Given env pass epoch due key nonce pinned →
      Took env serde unread epoch pass due
        ({ pass with state := pinned }.give (epoch, due.entry.inboxId)
          (due.entry.signed.submission.accountOf, nonce)
          fun id => messageFrom id due.now.toNat due.entry.signed.submission)

theorem takeEntry_took (serde : Wire.Serde) (unread : OrderId → Bool) (epoch : String) (pass : Pass)
    (due : Due) :
    Took env serde unread epoch pass due (pass.takeEntry env serde unread epoch due) := by
  rw [Pass.takeEntry]
  split
  case h_1 feedId hpaired => exact .paired feedId hpaired
  case h_2 hunpaired =>
  split
  case h_1 refusal _ => exact .refused _
  case h_2 hvalid =>
  split
  case h_1 refusal _ => exact .refused _
  case h_2 key hverified =>
  split
  case h_1 error _ => exact .refused _
  case h_2 pinned hpinned =>
  have hpin := Pinned.of_eq_ok hpinned
  have hauthorised : Authorised env due.entry.signed key := ⟨hvalid, hverified⟩
  split
  case h_1 refusal _ => exact .pinnedOnly key pinned _ hauthorised hpin
  case h_2 hsession =>
  split
  case h_1 refusal _ => exact .pinnedOnly key pinned _ hauthorised hpin
  case h_2 nonce hnonce =>
  rw [hpin.feed_eq] at hsession
  rw [Pass.resolve]
  have halready : Pass.already { pass with state := pinned }
      (due.entry.signed.submission.accountOf, nonce) =
        pass.already (due.entry.signed.submission.accountOf, nonce) := by
    rw [Pass.already, Pass.already]
    simp only [hpin.feed_eq]
  dsimp only
  rw [halready]
  split
  case h_1 feedId inBatch hused =>
    have hjudged : Pass.judged serde unread { pass with state := pinned }
        due.entry.signed.submission feedId inBatch = pass.judged serde unread due.entry.signed.submission feedId inBatch := by
      rw [Pass.judged, Pass.judged]
      simp only [hpin.feed_eq]
    rw [hjudged]
    split
    case h_1 hmatched =>
      exact .resolved key nonce pinned feedId inBatch
        ⟨hauthorised, hpin, hsession, hnonce, hused, hmatched⟩
    case h_2 => exact .pinnedOnly key pinned _ hauthorised hpin
    case h_3 => exact .pinnedOnly key pinned _ hauthorised hpin
  case h_2 hunused =>
    rw [hpin.feed_eq]
    split
    case h_1 => exact .pinnedOnly key pinned _ hauthorised hpin
    case h_2 hroom =>
      exact .given key nonce pinned
        ⟨hauthorised, hpin, hsession, hnonce, hunpaired, hunused, hroom⟩

end Feed
end VerifiableExchange
