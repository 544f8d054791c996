import VerifiableExchange.Feed.State
import VerifiableExchange.Merkle.Agreement
import VerifiableExchange.Merkle.Interrupted

/-!
# Publishing keeps the tree

Whatever group is published and whether or not its write succeeds, the storage holds the tree over
exactly the bytes published so far.
-/

namespace VerifiableExchange
namespace Feed

open Lib Merkle Logchain

variable {sha256 : Bytes → Hash} {toJson : OrderMessage → Except String Bytes}
  {published : List Bytes}

/-- The storage holds the tree over the published bytes. Before the first publish the rows of a
database may be anything: that publish clears them. -/
inductive Keeps (sha256 : Bytes → Hash) : Storage → List Bytes → Prop where
  | memory (published : List Bytes) :
      Keeps sha256 (.memory ⟨storedLevels sha256 published⟩) published
  | disk (conn : Database) (published : List Bytes)
      (hnodes : published = [] ∨ conn.nodes = storedRows sha256 published) :
      Keeps sha256 (.disk conn published.length) published

namespace Keeps

variable {storage : Storage}

theorem holds (h : Keeps sha256 storage published) :
    Holds sha256 published storage.nodes.source := by
  cases h with
  | memory => exact holds_nodes_memory sha256 published
  | disk conn _ hnodes =>
      rcases hnodes with rfl | hnodes
      · exact ⟨rfl, fun hfull => absurd hfull (by simp [Full])⟩
      · rw [Storage.nodes, hnodes]
        exact holds_disk sha256 published

theorem leaves_eq (h : Keeps sha256 storage published) : storage.leaves = published.length := by
  cases h with
  | memory => exact (holds_memory sha256 published).size
  | disk => rfl

end Keeps

/-- A request reads what is stored, as far as SQLite lets it. -/
theorem Storage.refusing (storage : Storage) (refused : Nat → Nat → Bool) :
    Refusing (storage.source refused) storage.nodes.source where
  size := rfl
  node level index := by
    rw [Storage.source]
    dsimp only
    split_ifs
    · exact .refused Unreadable.sql _
    · exact .refl _

/-! ## One root -/

/-- A root that is answered is the root of the tree, and a read that fails is no more than that. -/
theorem Keeps.root_cases {storage : Storage} (h : Keeps sha256 storage published)
    (refused : Nat → Nat → Bool) :
    root sha256 (storage.source refused) published.length = .ok (treeHash sha256 published) ∨
      ∃ e, root sha256 (storage.source refused) published.length = .error (.failed e) := by
  have hread : Interrupted TreeError.source (mth sha256 (storage.source refused) published.length)
      (mth sha256 storage.nodes.source published.length) :=
    (storage.refusing refused).mth published.length
  have hwhole := h.holds.mth_eq le_rfl
  rw [List.take_length] at hwhole
  rw [root]
  rcases hread with hsame | ⟨e, hfailed⟩
  · rw [hsame, hwhole]
    exact Or.inl rfl
  · rw [hfailed]
    exact Or.inr ⟨e, rfl⟩

/-! ## One transaction -/

/-- An insert is refused, or it leaves the nodes alone. -/
theorem insertEntry_cases (conn : Database) (row : Entry × Published × Chain) :
    (∃ e, insertEntry conn row = .error (.failed e)) ∨
      ∃ conn', insertEntry conn row = .ok conn' ∧ conn'.nodes = conn.nodes := by
  rw [insertEntry, insertMessage]
  split_ifs
  · exact Or.inl ⟨_, rfl⟩
  · simp only [bind, Except.bind]
    cases row.1.1 with
    | none => exact Or.inr ⟨_, rfl, rfl⟩
    | some key =>
        dsimp only
        rw [insertInbox]
        split_ifs
        · exact Or.inl ⟨_, rfl⟩
        · exact Or.inr ⟨_, rfl, rfl⟩

theorem insertEntries_cases (rows : List (Entry × Published × Chain)) (conn : Database) :
    (∃ e, rows.foldlM insertEntry conn = .error (.failed e)) ∨
      ∃ conn', rows.foldlM insertEntry conn = .ok conn' ∧ conn'.nodes = conn.nodes := by
  induction rows generalizing conn with
  | nil => exact Or.inr ⟨conn, rfl, rfl⟩
  | cons row rest ih =>
      rw [List.foldlM_cons]
      rcases insertEntry_cases conn row with ⟨e, hfailed⟩ | ⟨next, hinserted, hnodes⟩
      · rw [hfailed]
        exact Or.inl ⟨e, rfl⟩
      · rw [hinserted]
        rcases ih next with ⟨e, hfailed⟩ | ⟨conn', hrest, hsame⟩
        · exact Or.inl ⟨e, hfailed⟩
        · exact Or.inr ⟨conn', hrest, hsame.trans hnodes⟩

/-- A transaction is refused, or its nodes are those of the tree over the longer history. -/
theorem transaction_cases {conn : Database} (key : SigningKey) (session : String) (lastId : OrderId)
    (chain : Chain) (rows : List (Entry × Published × Chain)) (batch : List Bytes)
    (hnodes : published = [] ∨ conn.nodes = storedRows sha256 published) :
    (∃ e, transaction sha256 key session lastId chain published.length
      (batch.map (leafHash sha256)) rows conn = .error (.failed e)) ∨
    ∃ conn', transaction sha256 key session lastId chain published.length
        (batch.map (leafHash sha256)) rows conn = .ok conn' ∧
      conn'.nodes = storedRows sha256 (published ++ batch) := by
  rw [transaction]
  rcases insertEntries_cases rows conn with ⟨e, hfailed⟩ | ⟨conn', hinserted, hsame⟩
  · rw [hfailed]
    exact Or.inl ⟨e, rfl⟩
  · rw [hinserted]
    right
    -- An empty file is cleared before the first batch, whatever it held.
    have hbefore : (if published.length = 0 then [] else conn'.nodes) =
        storedRows sha256 published := by
      rcases hnodes with rfl | hnodes
      · rfl
      · split_ifs with hzero
        · rw [List.length_eq_zero_iff.1 hzero]
          rfl
        · rw [hsame, hnodes]
    obtain ⟨written, happend, -⟩ := append_eq sha256 published batch
    have hlength : published.length + (batch.map (leafHash sha256)).length =
        (published ++ batch).length := by
      rw [List.length_map, List.length_append]
    have hroot : root sha256 (Nodes.disk (storedRows sha256 (published ++ batch))
        (published ++ batch).length).source (published ++ batch).length =
        .ok (treeHash sha256 (published ++ batch)) := by
      rw [root, (holds_disk sha256 (published ++ batch)).mth_eq le_rfl, List.take_length]
    simp only [bind, Except.bind, hbefore, happend, hlength, hroot]
    exact ⟨_, rfl, rfl⟩

namespace Keeps

variable {storage : Storage}

/-- A write is refused, or the storage it leaves grows into the tree over the longer history. -/
theorem write_cases (h : Keeps sha256 storage published) (commits : Bool) (key : SigningKey)
    (session : String) (lastId : OrderId) (chain : Chain) (rows : List (Entry × Published × Chain))
    (batch : List Bytes) :
    let written := storage.write commits fun leavesBefore =>
      transaction sha256 key session lastId chain leavesBefore (batch.map (leafHash sha256)) rows
    (∃ e, written = .error (.failed e)) ∨
      ∃ before after, written = .ok before ∧
        before.grow sha256 (batch.map (leafHash sha256)) = .ok after ∧
        Keeps sha256 after (published ++ batch) := by
  cases h with
  | memory =>
      refine Or.inr ⟨_, .memory ⟨storedLevels sha256 (published ++ batch)⟩, rfl, ?_, .memory _⟩
      rw [Storage.grow, List.foldlM_map]
      have hpush := foldlM_pushEntry sha256 published batch
      simp only [MerkleTree.pushEntry] at hpush
      rw [hpush]
      rfl
  | disk conn _ hnodes =>
      dsimp only
      rw [Storage.write]
      split_ifs
      · -- The commit goes through: only a row that is there already can stop it.
        rcases transaction_cases key session lastId chain rows batch hnodes with
          ⟨e, hfailed⟩ | ⟨conn', hcommitted, hrows⟩
        · rw [hfailed]
          exact Or.inl ⟨e, rfl⟩
        · rw [hcommitted]
          refine Or.inr ⟨.disk conn' published.length, .disk conn' (published ++ batch).length, rfl,
            ?_, .disk conn' _ (Or.inr hrows)⟩
          rw [Storage.grow, List.length_map, List.length_append]
      · -- The commit fails: nothing of the batch is in the database.
        exact Or.inl ⟨_, rfl⟩

end Keeps

/-! ## One group -/

theorem serialize_eq_ok {rows : List Published} :
    ∀ {batch : List Entry}, serialize toJson batch = .ok rows →
      batch.filterMap (fun entry => (toJson entry.2).toOption) = rows.map Published.json
  | [], h => by
      cases h
      rfl
  | entry :: rest, h => by
      rw [serialize, List.mapM_cons] at h
      obtain ⟨row, hrow, h⟩ := bind_eq_ok.1 h
      obtain ⟨more, hmore, h⟩ := bind_eq_ok.1 h
      cases h
      split at hrow
      case h_2 => cases hrow
      case h_1 json hjson =>
        cases hrow
        rw [List.filterMap_cons, hjson, List.map_cons, ← serialize_eq_ok hmore]
        rfl

@[simp] theorem FeedState.record_treeHead (state : FeedState) (row : Entry × Published × Chain) :
    (state.record row).treeHead = state.treeHead := by
  rw [FeedState.record, FeedState.pushWindow]
  split_ifs <;> rfl

theorem FeedState.foldl_record_treeHead (rows : List (Entry × Published × Chain))
    (state : FeedState) : (rows.foldl FeedState.record state).treeHead = state.treeHead := by
  induction rows generalizing state with
  | nil => rfl
  | cons row rest ih => rw [List.foldl_cons, ih, FeedState.record_treeHead]

/-- What a group added to the log. -/
def addedBy (toJson : OrderMessage → Except String Bytes) (batch : List Entry) :
    Except SequenceError Unit → List Bytes
  | .ok () => batch.filterMap fun entry => (toJson entry.2).toOption
  | .error _ => []

/-- A group never stops the process: it is published whole, or the tree stays as it was. -/
theorem Keeps.sequence {feed : FeedState} (h : Keeps sha256 feed.storage published)
    (batch : List Entry) (commits : Bool) :
    ∃ feed' outcome, feed.sequence sha256 toJson batch commits = .ok (feed', outcome) ∧
      feed'.treeHead = feed.treeHead ∧
      Keeps sha256 feed'.storage (published ++ addedBy toJson batch outcome) := by
  have hnone : Keeps sha256 feed.storage (published ++ []) := by rwa [List.append_nil]
  rw [FeedState.sequence.eq_def]
  split
  · -- An empty batch.
    exact ⟨feed, .ok (), rfl, rfl, hnone⟩
  case h_2 first rest =>
    split
    · exact ⟨feed, _, rfl, rfl, hnone⟩
    split
    · exact ⟨feed, _, rfl, rfl, hnone⟩
    case h_2 rows hserialized =>
      -- The leaves of the rows are those of the bytes they publish.
      have hleaves : rows.map (fun row => leafHash sha256 row.json) =
          (rows.map Published.json).map (leafHash sha256) := by
        rw [List.map_map]
        rfl
      rw [hleaves]
      dsimp only
      rcases h.write_cases commits feed.signingKey feed.session _ _ _ (rows.map Published.json) with
        ⟨e, hrefused⟩ | ⟨before, after, hwritten, hgrown, hkeeps⟩
      · -- A refused write takes the ids back and adds no leaf.
        rw [hrefused]
        exact ⟨_, _, rfl, rfl, hnone⟩
      · rw [hwritten]
        simp only [hgrown, bind, Except.bind]
        refine ⟨_, .ok (), rfl, FeedState.foldl_record_treeHead _ _, ?_⟩
        rw [addedBy, serialize_eq_ok hserialized]
        exact hkeeps

end Feed
end VerifiableExchange
