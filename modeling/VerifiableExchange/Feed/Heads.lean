import Mathlib.Data.UInt
import VerifiableExchange.Feed.Publish

/-!
# Signed tree heads — what one process may say about its log

A sequencer answers publishes, tree heads and proofs in any order, at any clock reading. The heads it
has served never contradict each other or the proofs it serves, as long as no timestamp wraps.
-/

namespace VerifiableExchange
namespace Feed

open Lib Merkle Logchain

variable {sha256 : Bytes → Hash} {toJson : OrderMessage → Except String Bytes}
  {published : List Bytes}

/-! ## What a reader checks -/

/-- A proof, as a reader takes it off the wire. -/
def readPath (served : List String) : Option (List Hash) := served.mapM readHash

theorem readPath_toHex (p : List Hash) :
    readPath (p.map fun node => toHex node.toList) = some p := by
  induction p with
  | nil => rfl
  | cons node rest ih =>
      rw [readPath] at ih
      rw [readPath, List.map_cons, List.mapM_cons, readHash_toHex, ih]
      rfl

namespace SignedTreeHead

/-- A reader who holds the head checks that `entry` is the leaf at `leafIndex`. -/
def acceptsInclusion (sha256 : Bytes → Hash) (head : SignedTreeHead) (leafIndex : Nat)
    (entry : Bytes) (served : List String) : Bool :=
  match readHash head.rootHash, readPath served with
  | some root, some p => verifyEntryInclusion sha256 leafIndex head.treeSize entry p root
  | _, _ => false

/-- A reader who holds both heads checks that the first tree is the start of the second. -/
def acceptsConsistency (sha256 : Bytes → Hash) (first second : SignedTreeHead)
    (served : List String) : Bool :=
  match readHash first.rootHash, readHash second.rootHash, readPath served with
  | some firstRoot, some secondRoot, some p =>
      verifyConsistency sha256 first.treeSize second.treeSize firstRoot secondRoot p
  | _, _, _ => false

/-- What a head states about the published bytes is true. -/
structure Truthful (sha256 : Bytes → Hash) (published : List Bytes) (head : SignedTreeHead) : Prop where
  size : head.treeSize ≤ published.length
  root : head.rootHash = toHex (treeHash sha256 (published.take head.treeSize)).toList

end SignedTreeHead

/-- Served whenever the nodes can be read, and accepted whenever it is served. -/
structure Served (answer : (Nat → Nat → Bool) → Except (Fault (TreeError Unreadable)) (List String))
    (accepts : List String → Bool) : Prop where
  answered : ∃ served, answer (fun _ _ => false) = .ok served
  accepted : ∀ refused served, answer refused = .ok served → accepts served = true

/-- A walk that finds an accepted path in the stored nodes serves it, however many reads fail. -/
theorem served_of_walk {storage : Storage} {p : List Hash} {accepts : List String → Bool}
    (walk : NodeSource Unreadable → Except (Fault (TreeError Unreadable)) (List Hash))
    (hwalk : ∀ refused, Interrupted TreeError.source (walk (storage.source refused))
      (walk storage.nodes.source))
    (hfound : walk storage.nodes.source = .ok p)
    (haccepts : accepts (p.map fun node => toHex node.toList) = true) :
    Served (fun refused => do
      let path ← walk (storage.source refused)
      return path.map fun node => toHex node.toList) accepts where
  answered := by
    -- A source that refuses no row reads as the nodes themselves.
    have hall : storage.source (fun _ _ => false) = storage.nodes.source := by
      rw [Storage.source]
      simp
      rfl
    refine ⟨p.map fun node => toHex node.toList, ?_⟩
    rw [hall, hfound]
    rfl
  accepted refused served hserved := by
    obtain ⟨path, hpath, hserved⟩ := bind_eq_ok.1 hserved
    cases hserved
    -- A walk that lost a row stops, so what was answered is the whole path.
    have hsame := (hwalk refused).eq_ok hpath
    rw [hfound] at hsame
    cases hsame
    exact haccepts

namespace Keeps

variable {feed : FeedState}

/-- The inclusion proof of a leaf below the size of a true head. -/
theorem served_inclusion (h : Keeps sha256 feed.storage published) {head : SignedTreeHead}
    (hhead : head.Truthful sha256 published) {leafIndex : Nat} (hleaf : leafIndex < head.treeSize) :
    ∃ entry, published[leafIndex]? = some entry ∧
      Served (fun refused => feed.inclusionProof sha256 refused leafIndex head.treeSize)
        (head.acceptsInclusion sha256 leafIndex entry) := by
  obtain ⟨entry, p, hentry, hpath, hverify⟩ :=
    h.holds.serves.inclusion leafIndex head.treeSize hleaf hhead.size
  refine ⟨entry, hentry, served_of_walk (fun nodes => path sha256 nodes leafIndex head.treeSize)
    (fun refused => (feed.storage.refusing refused).path leafIndex head.treeSize) hpath ?_⟩
  rw [SignedTreeHead.acceptsInclusion, hhead.root, readHash_toHex, readPath_toHex]
  exact hverify

/-- The consistency proof between two sizes, the empty tree included. -/
theorem verifies_consistency {storage : Storage} (h : Keeps sha256 storage published)
    {first second : Nat} (hle : first ≤ second) (hsize : second ≤ published.length) :
    ∃ p, proof sha256 storage.nodes.source first second = .ok p ∧
      verifyConsistency sha256 first second (treeHash sha256 (published.take first))
        (treeHash sha256 (published.take second)) p = true := by
  rcases Nat.eq_zero_or_pos first with rfl | hpos
  · refine ⟨[], ?_, ?_⟩
    · rw [proof, checkedSize, h.holds.size, if_neg (by omega)]
      rfl
    · have hempty : treeHash sha256 (published.take 0) = emptyRoot sha256 := by
        rw [List.take_zero, treeHash_eq]
        exact HashTree.mth_nil
      rw [verifyConsistency, if_neg (by omega), if_pos rfl, hempty]
      simp
  · obtain ⟨p, hproof, hverify, -⟩ := h.holds.serves.consistency first second hpos hle hsize
    exact ⟨p, hproof, hverify⟩

/-- The consistency proof between the sizes of two true heads. -/
theorem served_consistency (h : Keeps sha256 feed.storage published) {first second : SignedTreeHead}
    (hfirst : first.Truthful sha256 published) (hsecond : second.Truthful sha256 published)
    (hle : first.treeSize ≤ second.treeSize) :
    Served (fun refused => feed.consistencyProof sha256 refused first.treeSize second.treeSize)
      (first.acceptsConsistency sha256 second) := by
  obtain ⟨p, hproof, hverify⟩ := h.verifies_consistency hle hsecond.size
  refine served_of_walk (fun nodes => proof sha256 nodes first.treeSize second.treeSize)
    (fun refused => (feed.storage.refusing refused).proof first.treeSize second.treeSize) hproof ?_
  rw [SignedTreeHead.acceptsConsistency, hfirst.root, hsecond.root, readHash_toHex, readHash_toHex,
    readPath_toHex]
  exact hverify

end Keeps

/-! ## One process -/

inductive Request where
  | takeId
  | publish (batch : List Entry) (commits : Bool)
  | treeHead (now : UInt64) (refused : Nat → Nat → Bool)

/-- A process at one moment: its state, the bytes of every message published, and the heads it has
served, the first one first. -/
structure Moment where
  feed : FeedState
  published : List Bytes
  heads : List SignedTreeHead

namespace Moment

def step (sha256 : Bytes → Hash) (toJson : OrderMessage → Except String Bytes) (m : Moment) :
    Request → Except (Fault Empty) Moment
  | .takeId => .ok { m with feed := m.feed.takeId.2 }
  | .publish batch commits => do
      let (feed, outcome) ← m.feed.sequence sha256 toJson batch commits
      return { m with feed := feed, published := m.published ++ addedBy toJson batch outcome }
  | .treeHead now refused =>
      match m.feed.signedTreeHead sha256 now refused with
      | .ok (head, feed) => .ok { m with feed := feed, heads := m.heads ++ [head] }
      | .error (.failed _) => .ok m
      | .error .panicked => .error .panicked

def run (sha256 : Bytes → Hash) (toJson : OrderMessage → Except String Bytes) (m : Moment)
    (requests : List Request) : Except (Fault Empty) Moment :=
  requests.foldlM (step sha256 toJson) m

end Moment

/-- How a process starts, and what was published before it: with nothing, with what the publishes of
earlier processes left in the database, or with a database that lost its messages. -/
inductive Opened (sha256 : Bytes → Hash) : FeedState → List Bytes → Prop where
  | memory (feed : FeedState) (hstorage : feed.storage = .memory .new) (hhead : feed.treeHead = none) :
      Opened sha256 feed []
  | disk (feed : FeedState) (conn : Database) (batches : List (List Bytes))
      (hnodes : appendBatches sha256 [] 0 batches = .ok conn.nodes)
      (hstorage : feed.storage = .disk conn batches.flatten.length) (hhead : feed.treeHead = none) :
      Opened sha256 feed batches.flatten
  | emptied (feed : FeedState) (conn : Database) (hstorage : feed.storage = .disk conn 0)
      (hhead : feed.treeHead = none) : Opened sha256 feed []

theorem Opened.keeps {feed : FeedState} (h : Opened sha256 feed published) :
    Keeps sha256 feed.storage published ∧ feed.treeHead = none := by
  cases h with
  | memory hstorage hhead => exact ⟨hstorage ▸ .memory [], hhead⟩
  | disk conn batches hnodes hstorage hhead =>
      have hrows := appendBatches_eq sha256 [] batches
      rw [List.nil_append] at hrows
      have hsame : conn.nodes = storedRows sha256 batches.flatten :=
        Except.ok.inj (hnodes.symm.trans hrows)
      exact ⟨hstorage ▸ .disk conn _ (Or.inr hsame), hhead⟩
  | emptied conn hstorage hhead => exact ⟨hstorage ▸ .disk conn [] (Or.inl rfl), hhead⟩

/-! ## The heads of one process -/

/-- One head served after another. -/
structure Precedes (old new : SignedTreeHead) : Prop where
  timestamp : old = new ∨ old.timestamp < new.timestamp
  treeSize : old.treeSize ≤ new.treeSize

theorem Precedes.refl (head : SignedTreeHead) : Precedes head head := ⟨Or.inl rfl, le_rfl⟩

theorem Precedes.trans {a b c : SignedTreeHead} (h : Precedes a b) (h' : Precedes b c) :
    Precedes a c where
  timestamp := by
    rcases h.timestamp with rfl | hab
    · exact h'.timestamp
    · rcases h'.timestamp with rfl | hbc
      · exact Or.inr hab
      · exact Or.inr (UInt64.lt_trans hab hbc)
  treeSize := h.treeSize.trans h'.treeSize

/-- What holds of a process between requests. -/
structure Steady (sha256 : Bytes → Hash) (m : Moment) : Prop where
  keeps : Keeps sha256 m.feed.storage m.published
  truthful : ∀ head ∈ m.heads, head.Truthful sha256 m.published
  ordered : m.heads.Pairwise Precedes
  /-- The head the state keeps is the last one served. -/
  standing : ∀ last, m.feed.treeHead = some last → last ∈ m.heads
  latest : ∀ head ∈ m.heads, ∃ last, m.feed.treeHead = some last ∧ Precedes head last

theorem SignedTreeHead.Truthful.append {head : SignedTreeHead}
    (h : head.Truthful sha256 published) (batch : List Bytes) :
    head.Truthful sha256 (published ++ batch) where
  size := h.size.trans (by rw [List.length_append]; exact Nat.le_add_right _ _)
  root := by rw [List.take_append_of_le_length h.size]; exact h.root

theorem Opened.steady {feed : FeedState} (h : Opened sha256 feed published) :
    Steady sha256 ⟨feed, published, []⟩ where
  keeps := h.keeps.1
  truthful _ hmem := absurd hmem List.not_mem_nil
  ordered := List.Pairwise.nil
  standing last hlast := by
    rw [h.keeps.2] at hlast
    cases hlast
  latest _ hmem := absurd hmem List.not_mem_nil

/-! ## One request -/

/-- The largest timestamp there is. -/
def LAST_MILLISECOND : UInt64 := 18446744073709551615

/-- A head is asked for after a publish when no timestamp is later than the last head's, and the
nodes can be read. -/
def Wraps (sha256 : Bytes → Hash) (feed : FeedState) : Request → Bool
  | .treeHead _ refused =>
      feed.treeHead.any (fun last =>
        last.timestamp = LAST_MILLISECOND ∧ last.treeSize ≠ feed.treeSize) &&
        (feed.treeRoot sha256 refused).toOption.isSome
  | _ => false

theorem lt_max_succ {last : UInt64} (now : UInt64) (h : last ≠ LAST_MILLISECOND) :
    last < max now (last + 1) := by
  have hlast : last < last + 1 := by
    have hne : last.toNat ≠ 18446744073709551615 := fun heq => h (UInt64.toNat_inj.1 heq)
    have hbound := last.toNat_lt
    have hone : (1 : UInt64).toNat = 1 := rfl
    rw [UInt64.lt_iff_toNat_lt, UInt64.toNat_add, hone]
    omega
  change last < if now ≤ last + 1 then last + 1 else now
  split_ifs with hle
  · exact hlast
  · exact UInt64.lt_trans hlast (UInt64.not_le.1 hle)

/-- A head is served as true and later than every head before it, or the read of the root failed. -/
theorem Steady.signedTreeHead {m : Moment} (h : Steady sha256 m) (now : UInt64)
    (refused : Nat → Nat → Bool) (hclock : Wraps sha256 m.feed (.treeHead now refused) = false) :
    (∃ e, m.feed.signedTreeHead sha256 now refused = .error (.failed e)) ∨
    ∃ head, m.feed.signedTreeHead sha256 now refused =
        .ok (head, { m.feed with treeHead := some head }) ∧
      head.Truthful sha256 m.published ∧
      ∀ last, m.feed.treeHead = some last → Precedes last head := by
  have hsize : m.feed.treeSize = m.published.length := h.keeps.leaves_eq
  rw [FeedState.signedTreeHead]
  cases hstanding : m.feed.standingHead now with
  | some last =>
      -- Nothing the last head states has changed.
      obtain ⟨hlast, -⟩ := Option.filter_eq_some_iff.1 hstanding
      have hkept : { m.feed with treeHead := some last } = m.feed := by
        rw [← hlast]
      refine Or.inr ⟨last, ?_, h.truthful last (h.standing last hlast), fun last' hlast' => ?_⟩
      · rw [hkept]
      · rw [hlast] at hlast'
        cases hlast'
        exact .refl last
  | none =>
      dsimp only
      rw [FeedState.treeRoot, hsize]
      rcases h.keeps.root_cases refused with hroot | ⟨e, hfailed⟩
      · rw [hroot]
        refine Or.inr ⟨_, rfl, ⟨le_rfl, ?_⟩, fun last hlast => ⟨Or.inr ?_, ?_⟩⟩
        · rw [List.take_length]
        · have hnot : ¬(last.treeSize = m.feed.treeSize ∧ now ≤ last.timestamp) := by
            intro hkept
            have hsome : m.feed.standingHead now = some last :=
              Option.filter_eq_some_iff.2 ⟨hlast, decide_eq_true hkept⟩
            rw [hstanding] at hsome
            cases hsome
          rw [hlast]
          refine lt_max_succ now fun hmax => ?_
          -- At the largest timestamp no clock reading is later, so the tree has grown.
          have hnow : now ≤ last.timestamp := by
            rw [hmax, UInt64.le_iff_toNat_le]
            exact Nat.le_of_lt_succ now.toNat_lt
          have hgrown : last.treeSize ≠ m.feed.treeSize := fun hsame => hnot ⟨hsame, hnow⟩
          rw [Wraps, FeedState.treeRoot, hlast, hsize, hroot, Option.any_some,
            decide_eq_true ⟨hmax, hsize ▸ hgrown⟩] at hclock
          cases hclock
        · exact (h.truthful last (h.standing last hlast)).size
      · rw [hfailed]
        exact Or.inl ⟨e, rfl⟩

namespace Steady

variable {m : Moment}

theorem takeId (h : Steady sha256 m) :
    Steady sha256 { m with feed := m.feed.takeId.2 } where
  keeps := h.keeps
  truthful := h.truthful
  ordered := h.ordered
  standing := h.standing
  latest := h.latest

theorem publish {feed' : FeedState} {batch : List Bytes} (h : Steady sha256 m)
    (hhead : feed'.treeHead = m.feed.treeHead)
    (hkeeps : Keeps sha256 feed'.storage (m.published ++ batch)) :
    Steady sha256 ⟨feed', m.published ++ batch, m.heads⟩ where
  keeps := hkeeps
  truthful head hmem := (h.truthful head hmem).append batch
  ordered := h.ordered
  standing last hlast := h.standing last (hhead ▸ hlast)
  latest head hmem := by
    rw [hhead]
    exact h.latest head hmem

theorem treeHead {head : SignedTreeHead} (h : Steady sha256 m)
    (htrue : head.Truthful sha256 m.published)
    (hlater : ∀ last, m.feed.treeHead = some last → Precedes last head) :
    Steady sha256 ⟨{ m.feed with treeHead := some head }, m.published, m.heads ++ [head]⟩ := by
  have hall : ∀ old ∈ m.heads, Precedes old head := by
    intro old hold
    obtain ⟨last, hlast, hbefore⟩ := h.latest old hold
    exact hbefore.trans (hlater last hlast)
  exact {
    keeps := h.keeps
    truthful := by
      intro old hold
      rcases List.mem_append.1 hold with hold | hnew
      · exact h.truthful old hold
      · rw [List.mem_singleton.1 hnew]
        exact htrue
    ordered := by
      rw [List.pairwise_append]
      refine ⟨h.ordered, List.pairwise_singleton _ _, fun old hold new hnew => ?_⟩
      rw [List.mem_singleton.1 hnew]
      exact hall old hold
    standing := by
      rintro last ⟨⟩
      exact List.mem_append_right _ (List.mem_singleton_self head)
    latest := by
      intro old hold
      refine ⟨head, rfl, ?_⟩
      rcases List.mem_append.1 hold with hold | hnew
      · exact hall old hold
      · rw [List.mem_singleton.1 hnew]
        exact .refl head }

/-- Every request is answered, and what holds between requests holds after it. -/
theorem step (h : Steady sha256 m) (request : Request) (hclock : Wraps sha256 m.feed request = false) :
    ∃ m', m.step sha256 toJson request = .ok m' ∧ Steady sha256 m' := by
  cases request with
  | takeId => exact ⟨_, rfl, h.takeId⟩
  | publish batch commits =>
      obtain ⟨feed', outcome, hsequence, hhead, hkeeps⟩ := h.keeps.sequence batch commits
      refine ⟨_, ?_, h.publish hhead hkeeps⟩
      rw [Moment.step, hsequence]
      rfl
  | treeHead now refused =>
      rcases h.signedTreeHead now refused hclock with
        ⟨e, hfailed⟩ | ⟨head, hserved, htrue, hlater⟩
      · refine ⟨m, ?_, h⟩
        rw [Moment.step, hfailed]
      · refine ⟨_, ?_, h.treeHead htrue hlater⟩
        rw [Moment.step, hserved]

end Steady

/-! ## Whole runs -/

/-- No request of the run asks for a head whose timestamp would wrap. -/
def NeverWraps (sha256 : Bytes → Hash) (toJson : OrderMessage → Except String Bytes) :
    Moment → List Request → Bool
  | _, [] => true
  | m, request :: rest =>
      !Wraps sha256 m.feed request &&
        match m.step sha256 toJson request with
        | .ok m' => NeverWraps sha256 toJson m' rest
        | .error _ => true

theorem Steady.run {m : Moment} (h : Steady sha256 m) (requests : List Request)
    (hclock : NeverWraps sha256 toJson m requests = true) :
    ∃ m', m.run sha256 toJson requests = .ok m' ∧ Steady sha256 m' := by
  induction requests generalizing m with
  | nil => exact ⟨m, rfl, h⟩
  | cons request rest ih =>
      rw [NeverWraps, Bool.and_eq_true, Bool.not_eq_true'] at hclock
      obtain ⟨hnow, hlater⟩ := hclock
      obtain ⟨next, hstep, hnext⟩ : ∃ next, m.step sha256 toJson request = .ok next ∧
          Steady sha256 next := h.step request hnow
      rw [hstep] at hlater
      obtain ⟨m', hrest, hm'⟩ := ih hnext hlater
      refine ⟨m', ?_, hm'⟩
      rw [Moment.run, List.foldlM_cons, hstep]
      exact hrest

/-- Nothing the process has said contradicts anything else it has said, or says now. -/
structure Consistent (sha256 : Bytes → Hash) (m : Moment) : Prop where
  timestamps : m.heads.Pairwise fun old new => old = new ∨ old.timestamp < new.timestamp
  sizes : m.heads.Pairwise fun old new => old.treeSize ≤ new.treeSize
  one_head : ∀ a ∈ m.heads, ∀ b ∈ m.heads, a.timestamp = b.timestamp → a = b
  root : ∀ head ∈ m.heads, head.treeSize ≤ m.published.length ∧
    head.rootHash = toHex (treeHash sha256 (m.published.take head.treeSize)).toList
  inclusion : ∀ head ∈ m.heads, ∀ leafIndex < head.treeSize, ∃ entry,
    m.published[leafIndex]? = some entry ∧
      Served (fun refused => m.feed.inclusionProof sha256 refused leafIndex head.treeSize)
        (head.acceptsInclusion sha256 leafIndex entry)
  consistency : ∀ first ∈ m.heads, ∀ second ∈ m.heads, first.treeSize ≤ second.treeSize →
    Served (fun refused => m.feed.consistencyProof sha256 refused first.treeSize second.treeSize)
      (first.acceptsConsistency sha256 second)

theorem Steady.consistent {m : Moment} (h : Steady sha256 m) : Consistent sha256 m where
  timestamps := h.ordered.imp Precedes.timestamp
  sizes := h.ordered.imp Precedes.treeSize
  one_head := by
    have hsame : m.heads.Pairwise fun a b => a.timestamp = b.timestamp → a = b := by
      refine h.ordered.imp fun hab heq => hab.timestamp.resolve_right fun hlt => ?_
      rw [heq] at hlt
      exact UInt64.lt_irrefl _ hlt
    have hsymm : Std.Symm fun a b : SignedTreeHead => a.timestamp = b.timestamp → a = b :=
      ⟨fun _ _ hab heq => (hab heq.symm).symm⟩
    intro a ha b hb
    exact hsame.forall_of_forall (fun _ _ _ => rfl) ha hb
  root head hmem := ⟨(h.truthful head hmem).size, (h.truthful head hmem).root⟩
  inclusion head hmem leafIndex hleaf := h.keeps.served_inclusion (h.truthful head hmem) hleaf
  consistency first hfirst second hsecond hle :=
    h.keeps.served_consistency (h.truthful first hfirst) (h.truthful second hsecond) hle

/-! ## The edge of the clock -/

theorem not_last_lt (timestamp : UInt64) : ¬LAST_MILLISECOND < timestamp := by
  have hbound := timestamp.toNat_lt
  have hlast : LAST_MILLISECOND.toNat = 18446744073709551615 := rfl
  rw [UInt64.lt_iff_toNat_lt, hlast]
  omega

/-- A head whose timestamp wraps is not later than the head before it, and tells of another tree. -/
theorem Steady.wrapped {m : Moment} (h : Steady sha256 m) {request : Request}
    (hwraps : Wraps sha256 m.feed request = true) :
    ∃ m', m.step sha256 toJson request = .ok m' ∧
      ¬m'.heads.Pairwise fun old new => old = new ∨ old.timestamp < new.timestamp := by
  cases request with
  | takeId => cases hwraps
  | publish batch commits => cases hwraps
  | treeHead now refused =>
      rw [Wraps, Bool.and_eq_true, Option.any_eq_true] at hwraps
      obtain ⟨⟨last, hlast, hedge⟩, hread⟩ := hwraps
      obtain ⟨hmax, hgrown⟩ := of_decide_eq_true hedge
      obtain ⟨top, htop⟩ := Option.isSome_iff_exists.1 hread
      have hroot := toOption_eq_some.1 htop
      -- The tree grew in the last millisecond of u64, so the head in memory does not stand.
      have hnone : m.feed.standingHead now = none := by
        rw [FeedState.standingHead, hlast, Option.filter_some, if_neg]
        exact fun hkept => hgrown (of_decide_eq_true hkept).1
      rw [Moment.step, FeedState.signedTreeHead, hnone]
      simp only [hroot, bind, Except.bind]
      refine ⟨_, rfl, fun hordered => ?_⟩
      have hpair := (List.pairwise_append.1 hordered).2.2 last (h.standing last hlast) _
        (List.mem_singleton_self _)
      -- The new head wrapped to that same millisecond: neither equal nor later.
      rcases hpair with hsame | hlt
      · exact hgrown (congrArg SignedTreeHead.treeSize hsame)
      · exact not_last_lt _ (hmax ▸ hlt)

/-- A head that was served stays served. -/
theorem Moment.step_heads {m m' : Moment} {request : Request}
    (h : m.step sha256 toJson request = .ok m') : m.heads <+: m'.heads := by
  cases request with
  | takeId =>
      cases h
      exact List.prefix_rfl
  | publish batch commits =>
      obtain ⟨answer, -, h⟩ := bind_eq_ok.1 h
      cases h
      exact List.prefix_rfl
  | treeHead now refused =>
      rw [Moment.step] at h
      split at h
      · cases h
        exact List.prefix_append _ _
      · cases h
        exact List.prefix_rfl
      · cases h

theorem Moment.run_heads {requests : List Request} {m m' : Moment}
    (h : m.run sha256 toJson requests = .ok m') : m.heads <+: m'.heads :=
  foldlM_invariant (fun next => m.heads <+: next.heads)
    (fun _ _ _ hprefix hstep => hprefix.trans (Moment.step_heads hstep)) requests m m'
    List.prefix_rfl h

theorem Steady.not_consistent {m m' : Moment} {requests : List Request} (h : Steady sha256 m)
    (hclock : NeverWraps sha256 toJson m requests = false)
    (hrun : m.run sha256 toJson requests = .ok m') : ¬Consistent sha256 m' := by
  induction requests generalizing m with
  | nil => cases hclock
  | cons request rest ih =>
      rw [Moment.run, List.foldlM_cons] at hrun
      obtain ⟨next, hstep, hrest⟩ := bind_eq_ok.1 hrun
      cases hwraps : Wraps sha256 m.feed request with
      | true =>
          obtain ⟨_, hwrapped, hbad⟩ : ∃ bad, m.step sha256 toJson request = .ok bad ∧
              ¬bad.heads.Pairwise fun old new => old = new ∨ old.timestamp < new.timestamp :=
            h.wrapped hwraps
          obtain rfl := Except.ok.inj (hstep.symm.trans hwrapped)
          exact fun hgood => hbad (hgood.timestamps.sublist (Moment.run_heads hrest).sublist)
      | false =>
          obtain ⟨_, hsame, hnext⟩ : ∃ good, m.step sha256 toJson request = .ok good ∧
              Steady sha256 good := h.step request hwraps
          obtain rfl := Except.ok.inj (hstep.symm.trans hsame)
          rw [NeverWraps, hwraps, hstep] at hclock
          exact ih hnext hclock hrest

/-- However publishes, failed writes, heads and proofs are interleaved and whatever the clock reads,
a process answers and contradicts nothing it has said, exactly when no timestamp wraps. -/
theorem heads_consistent_iff {feed : FeedState} (hopened : Opened sha256 feed published)
    (requests : List Request) :
    (∃ m, Moment.run sha256 toJson ⟨feed, published, []⟩ requests = .ok m ∧ Consistent sha256 m) ↔
      NeverWraps sha256 toJson ⟨feed, published, []⟩ requests = true := by
  constructor
  · rintro ⟨m, hrun, hgood⟩
    by_contra hclock
    exact hopened.steady.not_consistent (Bool.eq_false_iff.2 hclock) hrun hgood
  · intro hclock
    obtain ⟨m, hrun, hsteady⟩ := hopened.steady.run requests hclock
    exact ⟨m, hrun, hsteady.consistent⟩

namespace Sample

/-- A message in one byte. -/
def idByte (msg : OrderMessage) : Except String Bytes := .ok [UInt8.ofNat msg.id]

def emptyDatabase : Database := ⟨[], [], none, none, []⟩

/-- A sequencer on a database nothing was written to. -/
def opened : FeedState where
  retentionLimits := .default
  messages := []
  chains := []
  nextId := 1
  session := "00112233aabbccdd"
  storage := .disk emptyDatabase 0
  chain := EMPTY_CHAIN
  treeHead := none
  signingKey := ⟨[7], fun statement => [statement.sum]⟩
  inboxSequenced := ∅
  nonces := ∅

def publishCancel (id : OrderId) (commits : Bool) : Request :=
  .publish [(none, .cancel ⟨id, 1000, 3, 1, none⟩)] commits

/-- A write that fails and two that do not, with a head after each, at one clock reading. -/
def headsAt (now : UInt64) : List Request :=
  [publishCancel 1 false, publishCancel 1 true, .treeHead now fun _ _ => false,
    publishCancel 2 true, .treeHead now fun _ _ => false]

end Sample

theorem heads_consistent_iff_sample :
    ∃ m, Moment.run byteSum Sample.idByte ⟨Sample.opened, [], []⟩ (Sample.headsAt 1000) = .ok m ∧
      Consistent byteSum m :=
  (heads_consistent_iff (.emptied Sample.opened Sample.emptyDatabase rfl rfl)
    (Sample.headsAt 1000)).2 (by decide +kernel)

/-- With the clock at its last reading both heads carry it, over trees of one leaf and of two. -/
theorem not_consistent_at_last_millisecond :
    Opened byteSum Sample.opened [] ∧
    ∃ m, Moment.run byteSum Sample.idByte ⟨Sample.opened, [], []⟩
        (Sample.headsAt LAST_MILLISECOND) = .ok m ∧
      m.heads.map (fun head => (head.timestamp, head.treeSize)) =
        [(LAST_MILLISECOND, 1), (LAST_MILLISECOND, 2)] ∧
      ¬Consistent byteSum m := by
  have hopened : Opened byteSum Sample.opened [] :=
    .emptied Sample.opened Sample.emptyDatabase rfl rfl
  have hheads : (Moment.run byteSum Sample.idByte ⟨Sample.opened, [], []⟩
      (Sample.headsAt LAST_MILLISECOND)).map
        (fun m => m.heads.map fun head => (head.timestamp, head.treeSize)) =
      .ok [(LAST_MILLISECOND, 1), (LAST_MILLISECOND, 2)] := by
    decide +kernel
  have hwraps : NeverWraps byteSum Sample.idByte ⟨Sample.opened, [], []⟩
      (Sample.headsAt LAST_MILLISECOND) = false := by
    decide +kernel
  cases hrun : Moment.run byteSum Sample.idByte ⟨Sample.opened, [], []⟩
      (Sample.headsAt LAST_MILLISECOND) with
  | error e =>
      rw [hrun] at hheads
      cases hheads
  | ok m =>
      rw [hrun] at hheads
      exact ⟨hopened, m, rfl, Except.ok.inj hheads, hopened.steady.not_consistent hwraps hrun⟩

end Feed
end VerifiableExchange
