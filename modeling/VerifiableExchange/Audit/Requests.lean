import VerifiableExchange.Audit.Heads
import VerifiableExchange.Lib.MachineInt

/-!
# Requests — how many requests an audit makes

Every paging loop of an audit but one goes on only with an answer that brings it further: a page of
messages to a higher id, a page of claims to a claim ahead, a page of trades to a comparison. The
loop that reads the rest of the trades counts nothing, and a source that repeats a page within the
audit's view never lets it end.
-/

namespace VerifiableExchange
namespace Audit

open Lib Matcher Merkle Reporting Store

/-- Every served message has an id a u64 can hold. -/
def Answers.WellFormed (answers : Answers) : Prop :=
  ∀ asked page, answers.pages asked = .ok page → ∀ msg ∈ page.messages, msg.id ≤ u64Max

/-! ## What a page brings forward -/

namespace Replay

theorem compareEach_frame (rows : List DbTrade) (r : Replay) :
    (r.compareEach rows).engine = r.engine ∧ (r.compareEach rows).tradesEnded = r.tradesEnded ∧
      (r.compareEach rows).tradesBound = r.tradesBound ∧
      r.comparedTrades ≤ (r.compareEach rows).comparedTrades := by
  induction rows generalizing r with
  | nil => exact ⟨rfl, rfl, rfl, le_rfl⟩
  | cons row rest ih =>
      rw [compareEach]
      split
      · rename_i ours _
        obtain ⟨hengine, hended, hbound, hle⟩ := ih _
        exact ⟨hengine, hended, hbound, Nat.le_of_succ_le hle⟩
      · split
        · obtain ⟨hengine, hended, hbound, hle⟩ := ih _
          exact ⟨hengine, hended, hbound, Nat.le_of_succ_le hle⟩
        · split
          · exact ⟨rfl, rfl, rfl, le_rfl⟩
          · exact ⟨rfl, rfl, rfl, le_rfl⟩

/-- A row the re-execution has passed is compared. -/
theorem comparedTrades_lt_compareEach {r : Replay} (row : DbTrade) (rest : List DbTrade)
    (h : r.comparedTrades < r.engine.tradesTotal) :
    r.comparedTrades < (r.compareEach (row :: rest)).comparedTrades := by
  rw [compareEach]
  split
  · refine Nat.lt_of_lt_of_le ?_ (compareEach_frame rest _).2.2.2
    exact Nat.lt_succ_self _
  · rw [if_pos (Nat.succ_le_of_lt h)]
    refine Nat.lt_of_lt_of_le ?_ (compareEach_frame rest _).2.2.2
    exact Nat.lt_succ_self _

theorem takeRows_frame (rows : List DbTrade) (r : Replay) :
    (r.takeRows rows).engine = r.engine ∧ (r.takeRows rows).comparedTrades = r.comparedTrades ∧
      (r.takeRows rows).tradesBound = r.tradesBound ∧
      r.pendingTrades <+: (r.takeRows rows).pendingTrades := by
  induction rows generalizing r with
  | nil => exact ⟨rfl, rfl, rfl, List.prefix_rfl⟩
  | cons row rest ih =>
      rw [takeRows]
      split
      · exact ⟨rfl, rfl, rfl, List.prefix_rfl⟩
      · obtain ⟨hengine, hcompared, hbound, hprefix⟩ := ih _
        exact ⟨hengine, hcompared, hbound, (List.prefix_append _ _).trans hprefix⟩

/-- A page ends the trades exactly where it holds a row past the view. -/
theorem tradesEnded_takeRows (rows : List DbTrade) (r : Replay) :
    (r.takeRows rows).tradesEnded = (r.tradesEnded || rows.any r.pastBound) := by
  induction rows generalizing r with
  | nil => exact (Bool.or_false _).symm
  | cons row rest ih =>
      rw [takeRows]
      split
      · rename_i hpast
        rw [List.any_cons, hpast, Bool.true_or, Bool.or_true]
      · rename_i hpast
        rw [ih, List.any_cons, Bool.eq_false_iff.2 hpast, Bool.false_or]
        rfl

/-- A page of trades brings the comparison forward, or is the end of the trades. -/
theorem pushTrades_advances {r : Replay} {rows : List DbTrade} (hrows : rows ≠ [])
    (h : r.comparedTrades < r.engine.tradesTotal) :
    (r.pushTrades rows).tradesEnded = true ∨
      r.comparedTrades < (r.pushTrades rows).comparedTrades := by
  obtain ⟨row, rest, rfl⟩ := List.exists_cons_of_ne_nil hrows
  obtain ⟨hengine, hcompared, -, hprefix⟩ := takeRows_frame (row :: rest) r
  rw [pushTrades, compareTrades]
  by_cases hpast : r.pastBound row = true
  · refine .inl ?_
    rw [(compareEach_frame _ _).2.1, tradesEnded_takeRows, List.any_cons, hpast, Bool.true_or,
      Bool.or_true]
  · refine .inr ?_
    have hpending : (r.takeRows (row :: rest)).pendingTrades ≠ [] := by
      rw [takeRows, if_neg hpast]
      refine fun hnil => ?_
      have htaken := (takeRows_frame rest { r with
        lastTradeId := max r.lastTradeId row.tradeId
        pendingTrades := r.pendingTrades ++ [row] }).2.2.2
      rw [hnil] at htaken
      exact List.append_ne_nil_of_right_ne_nil _ (List.cons_ne_nil _ _)
        (List.prefix_nil.1 htaken)
    obtain ⟨first, others, hfirst⟩ := List.exists_cons_of_ne_nil hpending
    rw [hfirst, ← hcompared]
    exact comparedTrades_lt_compareEach first others (by rw [hcompared, hengine]; exact h)

/-- How many comparisons are left where trades are asked for. -/
def behind (r : Replay) : Nat :=
  if r.wantsTrades then r.engine.tradesTotal - r.comparedTrades else 0

theorem behind_of_ended {r : Replay} (h : r.tradesEnded = true) : r.behind = 0 := by
  have hwants : r.wantsTrades = false := by
    rw [wantsTrades, h]
    rfl
  rw [behind, hwants]
  rfl

theorem comparedTrades_lt_of_wantsTrades {r : Replay} (h : r.wantsTrades = true) :
    r.comparedTrades < r.engine.tradesTotal := by
  rw [wantsTrades, Bool.and_eq_true] at h
  exact of_decide_eq_true h.2

theorem behind_pos {r : Replay} (h : r.wantsTrades = true) : 0 < r.behind := by
  rw [behind, if_pos h]
  exact Nat.sub_pos_of_lt (comparedTrades_lt_of_wantsTrades h)

/-- Every page of trades leaves less to compare. -/
theorem behind_pushTrades {r : Replay} {rows : List DbTrade} (hrows : rows ≠ [])
    (hwants : r.wantsTrades = true) : (r.pushTrades rows).behind < r.behind := by
  have hlt := comparedTrades_lt_of_wantsTrades hwants
  rcases pushTrades_advances hrows hlt with hended | hmore
  · rw [behind_of_ended hended]
    exact behind_pos hwants
  · have hengine : (r.pushTrades rows).engine = r.engine :=
      (compareEach_frame _ _).1.trans (takeRows_frame rows _).1
    rw [behind]
    split
    · rw [behind, if_pos hwants, hengine]
      exact Nat.sub_lt_sub_left hlt hmore
    · exact behind_pos hwants

/-- A page of claims leaves a claim ahead, or is the end of them. -/
theorem not_wantsClaims_pushClaims (r : Replay) (page : List ClaimRow) :
    (r.pushClaims page).wantsClaims = false := by
  have hahead : ∀ (page : List ClaimRow) (r : Replay), r.ahead ≠ [] →
      (r.pushEach page).ahead ≠ [] := by
    intro page
    induction page with
    | nil => exact fun r h => h
    | cons claim rest ih =>
        intro r h
        rw [pushEach]
        split
        · exact List.append_ne_nil_of_left_ne_nil h _
        · exact ih _ (List.append_ne_nil_of_left_ne_nil h _)
  rw [pushClaims]
  split
  · rfl
  · rename_i hpage
    have hnonempty : page ≠ [] := by
      rintro rfl
      exact hpage rfl
    obtain ⟨claim, rest, rfl⟩ := List.exists_cons_of_ne_nil hnonempty
    have hne : (r.pushEach (claim :: rest)).ahead ≠ [] := by
      have hone : (r.pushClaim claim).ahead ≠ [] :=
        List.append_ne_nil_of_right_ne_nil _ (List.cons_ne_nil _ _)
      rw [pushEach]
      split
      · exact hone
      · exact hahead rest _ hone
    rw [wantsClaims, List.isEmpty_eq_false_iff.2 hne, Bool.and_false]

end Replay

namespace Walk

variable {env : Primitives} {sha256 : Bytes → Hash} {inputs : Inputs} {answers : Answers}

/-! ## The loops between two messages -/

/-- After one page of claims there is one ahead, or no more of them. -/
theorem not_wantsClaims_readClaims {w next : Walk}
    (h : w.readClaims env inputs answers = .ok next) : next.replay.wantsClaims = false := by
  rcases hserved : answers.claims w.asked.claims with reason | page
  · rw [readClaims, hserved] at h
    cases h
  · rw [readClaims, hserved] at h
    have hpage := w.replay.not_wantsClaims_pushClaims page
    cases h
    rw [Replay.wantsClaims, Bool.and_eq_false_iff] at hpage ⊢
    rcases hpage with hended | hahead
    · have hclosed : (w.replay.pushClaims page).claimsEnded = true := by
        rwa [Bool.not_eq_false'] at hended
      left
      rw [Bool.not_eq_false']
      exact Bool.or_eq_true_iff.2 (.inl hclosed)
    · exact .inr hahead

theorem finishes_fetchClaims (w : Walk) :
    (w.fetchClaims env inputs answers).Finishes (fun _ => True) := by
  refine Fueled.finishes_loop (I := fun _ => True)
    (fun w => if w.replay.wantsClaims then 1 else 0) (fun w _ => ?_) trivial
  by_cases hwants : w.replay.wantsClaims = true
  · rw [if_pos hwants]
    refine Fueled.Finishes.map (Fueled.finishes_lift (fun next hnext => ⟨trivial, ?_⟩))
    have hdone := not_wantsClaims_readClaims hnext
    simp only [hwants, hdone, if_true, Bool.false_eq_true, if_false]
    exact Nat.zero_lt_one
  · rw [if_neg hwants]
    exact Fueled.finishes_pure trivial

/-- A page of trades leaves less to compare, and the walk where it is. -/
theorem behind_readTrades {w next : Walk} (hwants : w.replay.wantsTrades = true)
    (h : w.readTrades answers = .ok next) :
    next.reached = w.reached ∧ next.replay.behind < w.replay.behind := by
  rcases hserved : answers.trades w.asked.trades with reason | rows
  · rw [readTrades, hserved] at h
    cases h
  · rw [readTrades, hserved] at h
    cases h
    refine ⟨rfl, ?_⟩
    by_cases hrows : rows.isEmpty = true
    · simp only [if_pos hrows]
      rw [Replay.behind_of_ended rfl]
      exact Replay.behind_pos hwants
    · simp only [if_neg hrows]
      exact Replay.behind_pushTrades (fun hnil => hrows (List.isEmpty_iff.2 hnil)) hwants

theorem finishes_fetchTrades (w : Walk) :
    (w.fetchTrades answers).Finishes (fun next => next.reached = w.reached) := by
  refine Fueled.finishes_loop (I := fun v => v.reached = w.reached) (fun v => v.replay.behind)
    (fun v hv => ?_) rfl
  by_cases hwants : v.replay.wantsTrades = true
  · rw [if_pos hwants]
    refine Fueled.Finishes.map (Fueled.finishes_lift (fun next hnext => ?_))
    obtain ⟨hreached, hless⟩ := behind_readTrades hwants hnext
    exact ⟨hreached.trans hv, hless⟩
  · rw [if_neg hwants]
    exact Fueled.finishes_pure hv

/-! ## The pages of messages -/

/-- A message ends where its claims and trades do, and the walk has reached it. -/
theorem finishes_takeMessage (w : Walk) (msg : ReadMessage) :
    (w.takeMessage env sha256 inputs answers msg).Finishes (fun next => next.reached = msg.id) := by
  refine Fueled.Finishes.bind (Fueled.finishes_lift (fun _ _ => trivial)) (fun tree _ _ => ?_)
  refine Fueled.Finishes.bind (finishes_fetchClaims _) (fun w _ _ => ?_)
  refine Fueled.Finishes.bind (Fueled.finishes_lift (fun _ _ => trivial)) (fun replay _ _ => ?_)
  exact finishes_fetchTrades _

theorem finishes_takeMessages {bound : Nat} (messages : List ReadMessage)
    (hids : ∀ msg ∈ messages, msg.id ≤ bound) (w : Walk) (hw : w.reached ≤ bound) :
    (w.takeMessages env sha256 inputs answers messages).Finishes
      (fun next => next.reached ≤ bound) := by
  induction messages generalizing w with
  | nil => exact Fueled.finishes_pure hw
  | cons msg rest ih =>
      refine Fueled.Finishes.bind (finishes_takeMessage w msg) (fun next _ hnext => ?_)
      refine ih (fun m hm => hids m (List.mem_cons_of_mem _ hm)) next ?_
      exact hnext ▸ hids msg List.mem_cons_self

theorem reached_readNodes (w : Walk) : (w.readNodes answers).reached = w.reached := by
  rw [readNodes]
  split
  · rfl
  · rfl

theorem reached_nameSession {w next : Walk} {session : Option String}
    (h : w.nameSession session = .ok next) : next.reached = w.reached := by
  unfold nameSession at h
  split at h
  · cases h
    rfl
  · split at h
    · cases h
      rfl
    · cases h
  · cases h
    rfl

/-- A page of messages is the last one, or carries the history to a higher id. -/
theorem finishes_readPage (hwell : answers.WellFormed) (w : Walk) (hw : w.reached ≤ u64Max) :
    (w.readPage env sha256 inputs answers).Finishes
      (Fueled.Progress (fun v => v.reached ≤ u64Max) (fun v => u64Max - v.reached)
        (fun _ => True) w) := by
  refine Fueled.Finishes.bind (Fueled.finishes_lift (fun page hpage => hpage))
    (fun page _ hpage => ?_)
  refine Fueled.Finishes.bind (Fueled.finishes_lift (fun v hv => reached_nameSession hv))
    (fun v _ hv => ?_)
  by_cases hempty : page.messages.isEmpty = true
  · simp only [if_pos hempty]
    exact Fueled.finishes_pure trivial
  · simp only [if_neg hempty]
    have hv' : v.reached = w.reached := hv
    refine Fueled.Finishes.bind (finishes_takeMessages page.messages (hwell _ page hpage) v
      (hv' ▸ hw)) (fun next _ hnext => ?_)
    by_cases hstuck : next.reached ≤ v.reached
    · rw [if_pos hstuck]
      exact Fueled.finishes_fail _ _
    · rw [if_neg hstuck]
      have hforward : w.reached < next.reached := hv' ▸ Nat.lt_of_not_le hstuck
      have hread := @reached_readNodes answers next
      refine Fueled.finishes_pure ⟨hread.le.trans hnext, ?_⟩
      show u64Max - (next.readNodes answers).reached < u64Max - w.reached
      rw [hread]
      exact Nat.sub_lt_sub_left (Nat.lt_of_lt_of_le hforward hnext) hforward

theorem finishes_readHistory (hwell : answers.WellFormed) (wantedLeaves : Nat) (w : Walk)
    (hw : w.reached ≤ u64Max) :
    (w.readHistory env sha256 inputs answers wantedLeaves).Finishes (fun _ => True) := by
  refine Fueled.finishes_loop (I := fun v => v.reached ≤ u64Max)
    (fun v => u64Max - v.reached) (fun v hv => ?_) hw
  by_cases hmore : v.moreNeeded inputs wantedLeaves = true
  · rw [if_pos hmore]
    exact finishes_readPage hwell v hv
  · rw [if_neg hmore]
    exact Fueled.finishes_pure trivial

/-- An audit reaches the end of the messages and of the claims, whatever it is served. -/
theorem ends_readAll (hwell : answers.WellFormed) (wantedLeaves : Nat) (w : Walk)
    (hw : w.reached ≤ u64Max) :
    (w.readAll env sha256 inputs answers wantedLeaves).Ends := by
  refine Fueled.Finishes.ends (P := fun _ => True) ?_
  refine Fueled.Finishes.bind (finishes_readHistory hwell wantedLeaves w hw) (fun v _ _ => ?_)
  refine Fueled.Finishes.bind (finishes_fetchClaims v) (fun v _ _ => ?_)
  exact Fueled.finishes_pure trivial

/-! ## The rest of the trades -/

/-- An answer after which no more trades are asked for. -/
def LastAnswer (r : Replay) : Except String (List DbTrade) → Prop
  | .error _ => True
  | .ok rows => rows = [] ∨ ∃ row ∈ rows, r.pastBound row = true

/-- A walk whose trades have ended, or whose trades source ends them. -/
def StopsAt (answers : Answers) (w : Walk) : Prop :=
  w.replay.tradesEnded = true ∨
    ∃ asked, w.asked.trades ≤ asked ∧ LastAnswer w.replay (answers.trades asked)

/-- What a page of trades leaves as it is, and when it is the last one. -/
theorem pushTrades_view (r : Replay) (rows : List DbTrade) :
    (r.pushTrades rows).tradesBound = r.tradesBound ∧
      (r.pushTrades rows).tradesEnded = (r.tradesEnded || rows.any r.pastBound) := by
  obtain ⟨-, hended, hbound, -⟩ :=
    Replay.compareEach_frame (r.takeRows rows).pendingTrades (r.takeRows rows)
  exact ⟨hbound.trans (Replay.takeRows_frame rows r).2.2.1,
    hended.trans (Replay.tradesEnded_takeRows rows r)⟩

theorem LastAnswer.congr {r r' : Replay} (h : r'.tradesBound = r.tradesBound)
    {answer : Except String (List DbTrade)} (hlast : LastAnswer r answer) :
    LastAnswer r' answer := by
  rcases answer with reason | rows
  · exact trivial
  · rcases hlast with hnil | ⟨row, hrow, hpast⟩
    · exact .inl hnil
    · refine .inr ⟨row, hrow, ?_⟩
      rw [Replay.pastBound, h]
      exact hpast

/-- The rest of the trades is read in finitely many requests where the source ends it. -/
theorem ends_drainTrades {w : Walk} (h : StopsAt answers w) : (w.drainTrades answers).Ends := by
  refine Fueled.Finishes.ends (P := fun _ => True) ?_
  rcases h with hended | ⟨asked, hasked, hlast⟩
  · refine Fueled.finishes_loop (I := fun v => v.replay.tradesEnded = true) (fun _ => 0)
      (fun v hv => ?_) hended
    rw [if_pos hv]
    exact Fueled.finishes_pure trivial
  · -- Until the trades have ended, the request that ends them is still to come.
    refine Fueled.finishes_loop
      (I := fun v => v.replay.tradesBound = w.replay.tradesBound ∧
        (v.replay.tradesEnded = true ∨ v.asked.trades ≤ asked))
      (fun v => if v.replay.tradesEnded then 0 else asked + 1 - v.asked.trades)
      (fun v hv => ?_) ⟨rfl, .inr hasked⟩
    obtain ⟨hbound, hopen⟩ := hv
    by_cases hended : v.replay.tradesEnded = true
    · rw [if_pos hended]
      exact Fueled.finishes_pure trivial
    · rw [if_neg hended]
      have hle : v.asked.trades ≤ asked := hopen.resolve_left hended
      refine Fueled.Finishes.bind (Fueled.finishes_lift (fun rows hrows => hrows))
        (fun rows _ hrows => ?_)
      by_cases hempty : rows.isEmpty = true
      · simp only [if_pos hempty]
        exact Fueled.finishes_pure trivial
      · simp only [if_neg hempty]
        obtain ⟨hbound', hended'⟩ := pushTrades_view v.replay rows
        have hnext : (v.replay.pushTrades rows).tradesEnded = true ∨
            v.asked.trades + 1 ≤ asked := by
          rcases Nat.lt_or_eq_of_le hle with hlt | heq
          · exact .inr hlt
          · have hstop := hlast.congr hbound
            rw [← heq, hrows] at hstop
            rcases hstop with hnil | ⟨row, hrow, hpast⟩
            · exact absurd (List.isEmpty_iff.2 hnil) hempty
            · left
              rw [hended', List.any_eq_true.2 ⟨row, hrow, hpast⟩, Bool.or_true]
        refine Fueled.finishes_pure ⟨⟨hbound'.trans hbound, hnext⟩, ?_⟩
        simp only [hended, if_false, Bool.false_eq_true]
        split
        · exact Nat.sub_pos_of_lt (Nat.lt_succ_of_le hle)
        · exact Nat.sub_lt_sub_left (Nat.lt_succ_of_le hle) (Nat.lt_succ_self _)

/-- The rest of the trades is never read where every page is one more page. -/
theorem runsDry_drainTrades {w : Walk} (h : ¬StopsAt answers w) :
    (w.drainTrades answers).RunsDry := by
  rw [StopsAt, not_or] at h
  obtain ⟨hopen, hmore⟩ := h
  refine Fueled.runsDry_loop
    (I := fun v => v.replay.tradesBound = w.replay.tradesBound ∧ ¬v.replay.tradesEnded = true ∧
      w.asked.trades ≤ v.asked.trades) (fun v hv => ?_) ⟨rfl, hopen, le_rfl⟩
  obtain ⟨hbound, hended, hle⟩ := hv
  have hnot : ¬LastAnswer v.replay (answers.trades v.asked.trades) :=
    fun hlast => hmore ⟨_, hle, hlast.congr hbound.symm⟩
  rcases hserved : answers.trades v.asked.trades with reason | rows
  · rw [hserved] at hnot
    exact absurd trivial hnot
  · rw [hserved, LastAnswer, not_or] at hnot
    obtain ⟨hrows, hwithin⟩ := hnot
    obtain ⟨hbound', hended'⟩ := pushTrades_view v.replay rows
    refine ⟨{ v with
      replay := v.replay.pushTrades rows
      asked := { v.asked with trades := v.asked.trades + 1 } },
      ⟨hbound'.trans hbound, ?_, Nat.le_succ_of_le hle⟩, fun fuel => ?_⟩
    · have hnone : rows.any v.replay.pastBound = false := by
        rw [List.any_eq_false]
        exact fun row hrow hpast => hwithin ⟨row, hrow, hpast⟩
      show ¬(v.replay.pushTrades rows).tradesEnded = true
      rw [hended', hnone, Bool.or_false]
      exact hended
    · simp only [if_neg hended]
      have hfull : ¬rows.isEmpty = true := fun hempty => hrows (List.isEmpty_iff.1 hempty)
      show (if rows.isEmpty = true then _ else _ : Fueled String (Walk ⊕ Walk)) fuel = _
      rw [if_neg hfull]
      rfl

end Walk

/-! ## The whole audit -/

section

variable (surroundings : Surroundings) (inputs : Inputs) (answers : Answers)

/-- The audit has read every message and claim it wants, and comes to the rest of the trades. -/
def AtRest (w : Walk) : Prop :=
  (sessionCheck inputs.facts inputs.wireSession).2 = false ∧ ∃ engine,
    openingEngine inputs = .ok engine ∧
    ((startWalk surroundings inputs engine
        (TreeWalk.new surroundings.sha256 (rootSizes inputs.sth inputs.rootAnchors))).readAll
      surroundings.env surroundings.sha256 inputs answers
      ((rootSizes inputs.sth inputs.rootAnchors).getLast?.getD 0)).Settles (.ok w)

variable {surroundings inputs answers}

/-- An audit that comes to the rest of the trades ends exactly where the source ends them. -/
theorem ends_iff_stopsAt {w : Walk} (h : AtRest surroundings inputs answers w) :
    (checkRun surroundings inputs answers).Ends ↔ w.StopsAt answers := by
  obtain ⟨hsame, engine, hengine, hread⟩ := h
  have hopened : (Fueled.lift (openingEngine inputs)).Settles (.ok engine) :=
    hengine ▸ Fueled.settles_lift _
  unfold checkRun
  simp only [hsame, Bool.false_eq_true, if_false]
  rw [Fueled.ends_bind_iff hopened, Fueled.ends_bind_iff hread]
  constructor
  · intro hends
    by_contra hnot
    exact (Walk.runsDry_drainTrades hnot).bind.not_ends hends
  · intro hstops
    obtain ⟨result, hdrain⟩ := Walk.ends_drainTrades hstops
    exact (Fueled.Finishes.bind ⟨result, hdrain, fun _ _ => trivial⟩
      (fun _ _ _ => Fueled.finishes_pure trivial)).ends (P := fun _ => True)

/-- An audit of well-formed answers ends exactly where the trades source lets the reading of the
rest of the trades end. -/
theorem audit_ends_iff (hwell : answers.WellFormed) :
    (checkRun surroundings inputs answers).Ends ↔
      ∀ w, AtRest surroundings inputs answers w → w.StopsAt answers := by
  constructor
  · exact fun hends w hrest => (ends_iff_stopsAt hrest).1 hends
  · intro hstops
    by_cases hreplaced : (sessionCheck inputs.facts inputs.wireSession).2 = true
    · unfold checkRun
      simp only [if_pos hreplaced]
      exact ⟨_, Fueled.settles_pure _⟩
    · have hsame := Bool.eq_false_iff.2 hreplaced
      rcases hengine : openingEngine inputs with reason | engine
      · unfold checkRun
        simp only [if_neg hreplaced, hengine]
        exact ⟨_, (Fueled.settles_lift _).bind_error⟩
      · obtain ⟨result, hread⟩ := @Walk.ends_readAll surroundings.env surroundings.sha256 inputs
          answers hwell ((rootSizes inputs.sth inputs.rootAnchors).getLast?.getD 0)
          (startWalk surroundings inputs engine
            (TreeWalk.new surroundings.sha256 (rootSizes inputs.sth inputs.rootAnchors)))
          (Nat.zero_le _)
        rcases result with reason | w
        · unfold checkRun
          simp only [if_neg hreplaced, hengine]
          exact ⟨_, (Fueled.settles_lift (.ok engine)).bind hread.bind_error⟩
        · have hrest : AtRest surroundings inputs answers w := ⟨hsame, engine, hengine, hread⟩
          exact (ends_iff_stopsAt hrest).2 (hstops w hrest)

end

/-! ## A source that repeats a page -/

namespace Sample

/-- The only claim of a run: it committed one message and one trade. -/
def claim : ClaimRow where
  fromMsg := 1
  toMsg := 1
  rootBefore := MatcherState.emptyChain
  rootAfter := MatcherState.emptyChain
  tradesTotal := 1
  signature := none

def fill : DbTrade where
  tradeId := 1
  timestamp := 1001
  symbol := "ETH-USDC"
  priceCents := 10100
  qtyTenths := 20
  makerOrder := 1
  makerAccount := 1
  takerOrder := 2
  takerAccount := 2
  takerSide := "Buy"

/-- A run that committed one message. -/
def claimedInputs : Inputs :=
  { inputs with
    facts := { inputs.facts with executionGenesis := some .synthetic, cursor := 1 }
    horizon := some 1 }

/-- A feed that serves no message, and an exchange that answers every request for trades alike. -/
def repeating : Answers where
  pages := fun _ => .ok ⟨[], some Validator.Sample.session⟩
  nodes := fun _ => .noSource
  claims := fun _ => .ok [claim]
  trades := fun _ => .ok [fill]
  claimsHint := none

def engine : MatcherState := (openingEngine claimedInputs).toOption.getD .new

theorem openingEngine_claimed : openingEngine claimedInputs = .ok engine :=
  eq_ok_getD (by decide +kernel)

/-- The walk after the empty page and the claim. -/
def read : Walk :=
  let w := startWalk surroundings claimedInputs engine
    (TreeWalk.new surroundings.sha256 (rootSizes claimedInputs.sth claimedInputs.rootAnchors))
  { w with
    replay := { w.replay.pushClaim claim with replayEnded := true }.setTradesBound
    signatures := checkClaimSignatures surroundings.env claimedInputs.facts Validator.Sample.session
      [claim] w.signatures
    feedSession := some Validator.Sample.session
    historyEndsAt := some 0
    asked := ⟨1, 0, 1, 0⟩ }

theorem readAll_repeating (fuel : Nat) :
    (startWalk surroundings claimedInputs engine
      (TreeWalk.new surroundings.sha256
        (rootSizes claimedInputs.sth claimedInputs.rootAnchors))).readAll surroundings.env
      surroundings.sha256 claimedInputs repeating
      ((rootSizes claimedInputs.sth claimedInputs.rootAnchors).getLast?.getD 0) (fuel + 2) =
      .ok read := by
  rfl

theorem atRest_read : AtRest surroundings claimedInputs repeating read := by
  refine ⟨by decide +kernel, engine, openingEngine_claimed, 2, fun fuel hfuel => ?_⟩
  obtain ⟨fuel, rfl⟩ := Nat.exists_eq_add_of_le' hfuel
  exact readAll_repeating fuel

theorem wellFormed_repeating : repeating.WellFormed := by
  intro asked page hpage msg hmsg
  cases hpage
  cases hmsg

/-- The repeated page holds no row past the one trade the claim counts. -/
theorem not_stopsAt_read : ¬read.StopsAt repeating := by
  rintro (hended | ⟨asked, -, hnil | ⟨row, hrow, hpast⟩⟩)
  · exact absurd hended (by decide +kernel)
  · cases hnil
  · rw [List.mem_singleton.1 hrow] at hpast
    exact absurd hpast (by decide +kernel)

end Sample

/-- An exchange that answers every request for trades with one page keeps an audit from ending. -/
theorem repeated_page_never_ends : Sample.repeating.WellFormed ∧
    ¬(checkRun Sample.surroundings Sample.claimedInputs Sample.repeating).Ends :=
  ⟨Sample.wellFormed_repeating,
    fun hends => Sample.not_stopsAt_read ((ends_iff_stopsAt Sample.atRest_read).1 hends)⟩

theorem audit_ends_iff_sample :
    (checkRun Sample.surroundings Sample.claimedInputs Sample.repeating).Ends ↔
      ∀ w, AtRest Sample.surroundings Sample.claimedInputs Sample.repeating w →
        w.StopsAt Sample.repeating :=
  audit_ends_iff Sample.wellFormed_repeating

end Audit
end VerifiableExchange
