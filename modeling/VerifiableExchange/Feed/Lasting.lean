import VerifiableExchange.Feed.File
import VerifiableExchange.Feed.Step

/-!
# Lasting — what every run keeps, with or without a hole in the ids

The ids rise, the window and the links run over the newest messages, the tables hold what was
published, and the tree has a leaf for each message. A start that is accepted finds the ids 1 to N.
-/

namespace VerifiableExchange
namespace Feed

open Lib Merkle Logchain Inbox

variable {sha256 : Bytes → Hash} {env : Primitives} {serde : Wire.Serde}
  {verify : Bytes → Bytes → Bytes → Bool} {world next : World} {event : Event}

/-! ## Logs -/

/-- The links of a log. -/
def linksOf (sha256 : Bytes → Hash) (serde : Wire.Serde) (log : List Entry) : List Chain :=
  chainsAfter sha256 EMPTY_CHAIN (rowsOf serde log)

@[simp] theorem length_linksOf (log : List Entry) :
    (linksOf sha256 serde log).length = log.length := by
  rw [linksOf, length_chainsAfter, length_rowsOf]

theorem rowsOf_append (log batch : List Entry) :
    rowsOf serde (log ++ batch) = rowsOf serde log ++ rowsOf serde batch := List.map_append

theorem textsOf_append (log batch : List Entry) :
    textsOf serde (log ++ batch) = textsOf serde log ++ textsOf serde batch := List.map_append

theorem linksOf_append (log batch : List Entry) :
    linksOf sha256 serde (log ++ batch) = linksOf sha256 serde log ++
      chainsAfter sha256 ((linksOf sha256 serde log).getLastD EMPTY_CHAIN) (rowsOf serde batch) := by
  rw [linksOf, rowsOf_append, chainsAfter_append]
  rfl

theorem getLastD_linksOf_append (log batch : List Entry) :
    (linksOf sha256 serde (log ++ batch)).getLastD EMPTY_CHAIN =
      (chainsAfter sha256 ((linksOf sha256 serde log).getLastD EMPTY_CHAIN)
        (rowsOf serde batch)).getLastD ((linksOf sha256 serde log).getLastD EMPTY_CHAIN) := by
  rw [linksOf, rowsOf_append, getLastD_chainsAfter]
  rfl

theorem messageRows_append {rows more : List Published} {chains later : List Chain}
    (h : rows.length = chains.length) :
    messageRows (rows ++ more) (chains ++ later) =
      messageRows rows chains ++ messageRows more later := by
  rw [messageRows, List.zip_append h, List.map_append]
  rfl

theorem Numbered.idsOf_eq {log : List Entry} (h : Numbered (rowsOf serde log)) :
    idsOf log = List.range' 1 log.length := by
  have hids := h.ids
  rw [length_rowsOf, rowsOf, List.map_map] at hids
  exact hids

/-! ## The invariant -/

/-- What a sequencer keeps of its log. -/
structure Lasting (sha256 : Bytes → Hash) (serde : Wire.Serde) (world : World) : Prop where
  rising : (idsOf world.log).Pairwise (· < ·)
  taken : ∀ id ∈ idsOf world.log, 1 ≤ id ∧ id < world.sequencer.feed.nextId
  counted : 1 ≤ world.sequencer.feed.nextId
  windows : world.sequencer.feed.Windows (rowsOf serde world.log) (linksOf sha256 serde world.log)
  chain : world.sequencer.feed.chain = (linksOf sha256 serde world.log).getLastD EMPTY_CHAIN
  tree : Keeps sha256 world.sequencer.feed.storage (textsOf serde world.log)
  table : ∀ conn leaves, world.sequencer.feed.storage = .disk conn leaves →
    conn.messages = messageRows (rowsOf serde world.log) (linksOf sha256 serde world.log)
  holdable : world.Holdable

namespace Lasting

/-- Ids may have been taken, and the tree head may be another one. -/
theorem of_feed_eq (h : Lasting sha256 serde world) {left : Sequencer}
    (heq : left.feed = { world.sequencer.feed with
      nextId := left.feed.nextId, treeHead := left.feed.treeHead })
    (hmore : world.sequencer.feed.nextId ≤ left.feed.nextId)
    (hholdable : World.Holdable ⟨left, world.log⟩) : Lasting sha256 serde ⟨left, world.log⟩ := by
  constructor <;> try dsimp only
  · exact h.rising
  · exact fun id hid => ⟨(h.taken id hid).1, (h.taken id hid).2.trans_le hmore⟩
  · exact h.counted.trans hmore
  · rw [heq]
    exact ⟨h.windows.messages, h.windows.chains, h.windows.length⟩
  · rw [heq]
    exact h.chain
  · rw [heq]
    exact h.tree
  · rw [heq]
    exact h.table
  · exact hholdable

/-- The ids of a group go on from the next id. -/
theorem group_ids (h : Lasting sha256 serde world) (hholdable : event.Holdable) {group : Group}
    (hgroup : event.group env serde world.sequencer = some group) :
    idsOf group.batch = List.range' world.sequencer.feed.nextId group.batch.length ∧
      group.batch.length + world.sequencer.feed.nextId = group.state.feed.nextId := by
  exact (Event.group_took hgroup).ids
    (Nat.add_lt_add_of_lt_of_le (Event.group_length hgroup hholdable) h.holdable.ids)

/-- A write that fails hands out the first id of its group again. -/
theorem first_id (h : Lasting sha256 serde world) (hholdable : event.Holdable) {group : Group}
    (hgroup : event.group env serde world.sequencer = some group) {first : Entry}
    (hfirst : group.batch.head? = some first) : first.2.id = world.sequencer.feed.nextId := by
  obtain ⟨hids, -⟩ := h.group_ids hholdable hgroup
  cases hbatch : group.batch with
  | nil => simp [hbatch] at hfirst
  | cons head rest =>
      rw [hbatch] at hids hfirst
      cases hfirst
      exact (List.cons.inj hids).1

theorem sequenced (h : Lasting sha256 serde world) (hevent : event.Holdable) {group : Group}
    (hgroup : event.group env serde world.sequencer = some group) {after : Sequencer}
    {outcome : Except SequenceError Unit} (head : Option SignedTreeHead)
    (hsequenced : group.sequenced sha256 serde = .ok (after, outcome))
    (hholdable : World.Holdable ⟨{ after with feed := { after.feed with treeHead := head } },
      world.log ++ group.published sha256 serde⟩) :
    Lasting sha256 serde ⟨{ after with feed := { after.feed with treeHead := head } },
      world.log ++ group.published sha256 serde⟩ := by
  have htook := Event.group_took hgroup
  obtain ⟨hids, hnext⟩ := h.group_ids hevent hgroup
  have hframe : group.state.feed =
      { world.sequencer.feed with nextId := group.state.feed.nextId } := htook.frame
  have hmore : world.sequencer.feed.nextId ≤ group.state.feed.nextId := by
    rw [← hnext]
    exact Nat.le_add_left _ _
  obtain ⟨hcases, -, -⟩ :=
    Group.sequenced_cases (textsOf serde world.log) (htook.storage_eq ▸ h.tree) hsequenced
  generalize hfeed : after.feed = feed at hcases hholdable
  cases hcases with
  | nothing hnil =>
      rw [Group.published_of_ok hsequenced, hnil, List.append_nil] at hholdable ⊢
      refine h.of_feed_eq ?_ hmore hholdable
      dsimp only
      rw [hframe]
  | refused =>
      rw [Group.published_of_error hsequenced, List.append_nil] at hholdable ⊢
      refine h.of_feed_eq ?_ hmore hholdable
      dsimp only
      rw [hframe]
  | notWritten first count lastId reason hguard hfirst =>
      rw [Group.published_of_error hsequenced, List.append_nil] at hholdable ⊢
      refine h.of_feed_eq ?_ (h.first_id hevent hgroup hfirst).ge hholdable
      dsimp only
      rw [hframe]
  | written storage hne hguard hwrote hkeeps =>
      rw [Group.published_of_ok hsequenced] at hholdable ⊢
      have hchain : group.state.feed.chain =
          (linksOf sha256 serde world.log).getLastD EMPTY_CHAIN := by
        rw [hframe]
        exact h.chain
      have hall : idsOf (world.log ++ group.batch) = idsOf world.log ++
          List.range' world.sequencer.feed.nextId group.batch.length := by
        rw [← hids, idsOf, List.map_append]
        rfl
      constructor <;> try dsimp only
      · rw [hall]
        refine List.pairwise_append.2 ⟨h.rising, List.pairwise_lt_range', fun a ha b hb => ?_⟩
        exact (h.taken a ha).2.trans_le (List.mem_range'_1.1 hb).1
      · intro id hid
        rw [hall, List.mem_append] at hid
        rw [FeedState.appended_nextId, ← hnext]
        rcases hid with hold | hnew
        · exact ⟨(h.taken id hold).1, (h.taken id hold).2.trans_le (Nat.le_add_left _ _)⟩
        · obtain ⟨hfrom, hto⟩ := List.mem_range'_1.1 hnew
          exact ⟨h.counted.trans hfrom, by rwa [Nat.add_comm]⟩
      · rw [FeedState.appended_nextId]
        exact h.counted.trans hmore
      · rw [rowsOf_append, linksOf_append, ← hchain]
        have hbefore : group.state.feed.Windows (rowsOf serde world.log)
            (linksOf sha256 serde world.log) := by
          rw [hframe]
          exact ⟨h.windows.messages, h.windows.chains, h.windows.length⟩
        have hafter := hbefore.appended sha256 serde group.batch storage
        exact ⟨hafter.messages, hafter.chains, hafter.length⟩
      · rw [FeedState.appended_chain, getLastD_linksOf_append, hchain]
      · rw [textsOf_append]
        exact hkeeps
      · intro conn leaves hstorage
        rw [FeedState.appended_storage] at hstorage
        subst hstorage
        cases hwrote with
        | disk before hbefore =>
            rw [htook.storage_eq] at hbefore
            rw [Database.added]
            dsimp only
            rw [h.table before _ hbefore, rowsOf_append, linksOf_append, ← hchain,
              messageRows_append h.windows.length]
      · exact hholdable

/-! ## Starts -/

theorem new (config : Config) (draw : StartDraw) :
    Lasting sha256 serde ⟨Sequencer.new config draw, []⟩ where
  rising := List.Pairwise.nil
  taken := fun _ h => absurd h List.not_mem_nil
  counted := le_rfl
  windows := ⟨(newest_nil _).symm, (newest_nil _).symm, rfl⟩
  chain := rfl
  tree := .memory []
  table := fun _ _ h => by cases h
  holdable := ⟨Nat.zero_lt_succ _, Nat.succ_le_succ (Nat.zero_le _)⟩

theorem idAsI64_eq (h : Lasting sha256 serde world) {id : OrderId} (hid : id ∈ idsOf world.log) :
    idAsI64 id = id :=
  if_pos ((h.taken id hid).2.trans_le h.holdable.ids)

theorem file_ids (h : Lasting sha256 serde world) :
    ((messageRows (rowsOf serde world.log) (linksOf sha256 serde world.log)).map FileRow.of).map
      FileRow.id = (idsOf world.log).map idAsI64 := by
  have hfst := congrArg (List.map fun row : Published => idAsI64 row.id)
    (List.map_fst_zip h.windows.length.le)
  rw [List.map_map] at hfst
  rw [messageRows, List.map_map, List.map_map]
  refine hfst.trans ?_
  rw [rowsOf, idsOf, List.map_map, List.map_map]
  rfl

/-- The rows of a log are sorted as they stand. -/
theorem inIdOrder_eq (h : Lasting sha256 serde world) {conn : Database} {leaves : Nat}
    (hstorage : world.sequencer.feed.storage = .disk conn leaves) (rows : List AccountRow) :
    inIdOrder (fileOf conn rows).messages =
      (messageRows (rowsOf serde world.log) (linksOf sha256 serde world.log)).map FileRow.of := by
  have hmessages : (fileOf conn rows).messages =
      (messageRows (rowsOf serde world.log) (linksOf sha256 serde world.log)).map FileRow.of := by
    rw [← h.table conn leaves hstorage]
    rfl
  rw [hmessages]
  apply List.Pairwise.insertionSort_eq
  have hsorted : (((messageRows (rowsOf serde world.log) (linksOf sha256 serde world.log)).map
      FileRow.of).map FileRow.id).Pairwise (· ≤ ·) := by
    rw [h.file_ids, List.pairwise_map]
    refine h.rising.imp_of_mem fun {a b} ha hb hlt => ?_
    rw [h.idAsI64_eq ha, h.idAsI64_eq hb]
    exact Int.ofNat_le.2 hlt.le
  exact List.pairwise_map.1 hsorted

/-- A pass that goes through has found the ids 1 to N. -/
theorem scanned (h : Lasting sha256 serde world) {conn : Database} {leaves : Nat}
    (hstorage : world.sequencer.feed.storage = .disk conn leaves) {config : Config}
    {rows : List AccountRow} {scan : Scan}
    (hscan : scanRows sha256 serde config (fileOf conn rows) = .ok scan) :
    Numbered (rowsOf serde world.log) ∧
      Scanned sha256 serde config (storedLeaves (fileOf conn rows).nodes)
        ((messageRows (rowsOf serde world.log) (linksOf sha256 serde world.log)).map FileRow.of)
        scan := by
  have hread := scanRows_scanned hscan
  rw [h.inIdOrder_eq hstorage] at hread
  refine ⟨⟨?_, by rw [length_rowsOf]; exact h.holdable.log⟩, hread⟩
  have hids := hread.ids
  have hlength : ((messageRows (rowsOf serde world.log) (linksOf sha256 serde world.log)).map
      FileRow.of).length = world.log.length := by
    rw [List.length_map, messageRows, List.length_map, List.length_zip, ← h.windows.length, min_self,
      length_rowsOf]
  rw [h.file_ids, hlength] at hids
  rw [length_rowsOf, rowsOf, List.map_map]
  refine List.map_injective_iff.2 Int.ofNat_injective (Eq.trans ?_ hids)
  rw [List.map_map, idsOf, List.map_map]
  exact List.map_congr_left fun entry hentry => (h.idAsI64_eq (List.mem_map_of_mem hentry)).symm

/-- What comes up from the rows of a log without a hole holds that log. -/
theorem comesUp {log : List Entry} {config : Config} {file : FeedFile} {draw : StartDraw}
    {scan : Scan} {session : String} {nodes : List NodeRow}
    {accounts : AList fun _ : AccountId => Bytes} {leaves : Nat}
    (hnumbered : Numbered (rowsOf serde log))
    (hscan : Scanned sha256 serde config leaves
      ((messageRows (rowsOf serde log) (linksOf sha256 serde log)).map FileRow.of) scan)
    (hnodes : textsOf serde log = [] ∨ nodes = storedRows sha256 (textsOf serde log)) :
    Lasting sha256 serde ⟨Feed.comesUp config file draw scan session nodes accounts, log⟩ := by
  have hlength : (rowsOf serde log).length = (linksOf sha256 serde log).length := by
    rw [length_rowsOf, length_linksOf]
  have hfound := hnumbered.file_found hlength
  have hcount : scan.count = log.length := by
    rw [hscan.count, List.length_map, messageRows, List.length_map, List.length_zip, ← hlength,
      min_self, length_rowsOf]
  have hmessages := hscan.messages
  have hchains := hscan.chains
  have hchain := hscan.chain
  have hrows := hscan.rows
  rw [hfound] at hmessages hchains hchain hrows
  rw [show chainsAfter sha256 EMPTY_CHAIN (rowsOf serde log) = linksOf sha256 serde log from rfl]
    at hchains hchain hrows
  rw [zip_file] at hrows
  have hids := hnumbered.idsOf_eq
  have hfew := hnumbered.few
  rw [length_rowsOf] at hfew
  constructor <;> try dsimp only [Feed.comesUp]
  · rw [hids]
    exact List.pairwise_lt_range'
  · intro id hid
    rw [hids] at hid
    rw [hcount, Nat.add_comm]
    exact List.mem_range'_1.1 hid
  · exact Nat.le_add_left _ _
  · exact ⟨hmessages, hchains, hlength⟩
  · exact hchain
  · have htexts : (textsOf serde log).length = log.length := length_textsOf log
    rw [hcount, ← htexts]
    exact .disk _ _ hnodes
  · intro conn leaves hstorage
    cases hstorage
    exact hrows
  · refine ⟨hfew, ?_⟩
    change scan.count + 1 ≤ _
    rw [hcount]
    exact hfew

theorem start (h : World.Starts sha256 env serde verify world) : Lasting sha256 serde world := by
  cases h with
  | memory config draw _ => exact new config draw
  | disk config draw sequencer hstart =>
      obtain ⟨scan, session, signedRoot, nodes, accounts, hstarted, rfl⟩ := withDb_eq_ok.1 hstart
      exact comesUp ⟨rfl, Nat.zero_lt_succ _⟩ (scanRows_scanned hstarted.scan_eq) (Or.inl rfl)

/-- The nodes a start goes on with are those of the tree over the log. -/
theorem started_nodes (h : Lasting sha256 serde world) {conn : Database} {leaves : Nat}
    (hstorage : world.sequencer.feed.storage = .disk conn leaves) {config : Config} {draw : StartDraw}
    {rows : List AccountRow} {scan : Scan} {session : String} {signedRoot : Option Hash}
    {nodes : List NodeRow} {accounts : AList fun _ : AccountId => Bytes}
    (hstarted : Started sha256 env serde verify config (fileOf conn rows) draw scan session signedRoot
      nodes accounts) :
    textsOf serde world.log = [] ∨ nodes = storedRows sha256 (textsOf serde world.log) := by
  obtain ⟨hnumbered, hscan⟩ := h.scanned hstorage hstarted.scan_eq
  have hlength : (textsOf serde world.log).length < 9223372036854775808 := by
    rw [length_textsOf]
    exact h.holdable.log
  refine restoreNodes_cases hlength ?_ ?_ ?_ hstarted.nodes_eq
  · refine (h.tree.nodes_eq hstorage).imp_right fun hnodes => ?_
    rw [← hnodes]
    rfl
  · rw [hscan.count, List.length_map, messageRows, List.length_map, List.length_zip,
      ← h.windows.length, min_self, length_rowsOf, length_textsOf]
  · rw [hscan.rows, hnumbered.file_found h.windows.length]
    rw [show chainsAfter sha256 EMPTY_CHAIN (rowsOf serde world.log) =
      linksOf sha256 serde world.log from rfl, zip_file, ← rowsOf_json, messageRows, List.map_map]
    have hfst := congrArg (List.map Published.json) (List.map_fst_zip h.windows.length.le)
    rw [List.map_map] at hfst
    exact hfst

/-- A start that is accepted goes on with the same log, or with none where there is no database, and
its ids are 1 to N. -/
theorem restart (h : Lasting sha256 serde world) {config : Config} {draw : StartDraw}
    (hrestart : world.restart sha256 env serde verify config draw = some next) :
    Lasting sha256 serde next ∧ idsOf next.log = List.range' 1 next.log.length ∧
      next.log.length + 1 = next.sequencer.feed.nextId := by
  unfold World.restart at hrestart
  split at hrestart
  case h_1 =>
    split_ifs at hrestart
    cases hrestart
    exact ⟨new config draw, rfl, rfl⟩
  case h_2 conn leaves hstorage =>
    split at hrestart
    case h_2 => cases hrestart
    case h_1 sequencer hstart =>
      cases hrestart
      obtain ⟨scan, session, signedRoot, nodes, accounts, hstarted, rfl⟩ := withDb_eq_ok.1 hstart
      obtain ⟨hnumbered, hscan⟩ := h.scanned hstorage hstarted.scan_eq
      refine ⟨comesUp hnumbered hscan (h.started_nodes hstorage hstarted), hnumbered.idsOf_eq, ?_⟩
      change world.log.length + 1 = scan.count + 1
      rw [hscan.count, List.length_map, messageRows, List.length_map, List.length_zip,
        ← h.windows.length, min_self, length_rowsOf]

/-- Every event keeps it. -/
theorem step (h : Lasting sha256 serde world) (hevent : event.Holdable)
    (hstep : world.step sha256 env serde verify event = some next) (hnext : next.Holdable) :
    Lasting sha256 serde next := by
  cases step_stepped hstep with
  | idle left _ hidle =>
      have hfeed := hidle.feed_eq
      refine h.of_feed_eq ?_ (by rw [hfeed]) hnext
      rw [hfeed]
  | sequenced group after outcome head hgroup hsequenced =>
      exact h.sequenced hevent hgroup head hsequenced hnext
  | restarted config draw _ _ hrestart => exact (h.restart hrestart).1

end Lasting

theorem World.Reaches.lasting {condition : World → Event → Prop}
    (h : World.Reaches sha256 env serde verify condition world) : Lasting sha256 serde world := by
  induction h with
  | start hstart => exact .start hstart
  | step _ _ hevent hstep hnext ih => exact ih.step hevent hstep hnext

end Feed
end VerifiableExchange
