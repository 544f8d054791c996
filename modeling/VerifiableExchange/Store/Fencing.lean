import VerifiableExchange.Store.Tables

/-!
# Fencing — any number of processes on one state database

A process opens the store, claims a run or starts one, and then writes through its handle. Each of
those functions runs one statement or one transaction after another, and another process may run
any of its own in between. A run's epoch counts the processes that took it; the statements here
are about one run and the processes that hold a handle on it. Two processes that both find nothing
to resume each start a run of their own, and neither writes the other's rows.
-/

namespace VerifiableExchange
namespace Store

open Lib Matcher

/-! ## What claiming a run reads -/

/-- Whether the process that last claimed a run still runs. `procfs` lists the processes there are,
on a system that can tell. -/
def processIsAlive (procfs : Option (List Int)) (pid : Int) : Bool :=
  if pid ≤ 0 then false else
    match procfs with
    | none => true
    | some pids => pids.contains pid

namespace Tables

/-- The newest run that can be taken up again. -/
def newestResumable (t : Tables) : Option (Int × RunRow) :=
  (t.runs.filter (fun _ row => row.status.resumable)).last?

/-- What `claim_open_run` does before it takes a run: the run it will try to take, if any. -/
def inspect (t : Tables) (path : String) (graceMs now : Nat) (procfs : Option (List Int)) :
    Except StoreError (Option SeenRun) :=
  match t.newestResumable with
  | none => .ok none
  | some (runId, row) =>
      let age := now - row.heartbeatMs.toNat
      if row.status = .isOpen ∧ age < graceMs ∧ processIsAlive procfs row.ownerPid = true then
        .error (.busy ("run " ++ toString runId ++ " in " ++ path ++ " is live (pid "
          ++ toString row.ownerPid ++ ", heartbeat " ++ toString age ++ "ms ago); "
          ++ "another matcher is already using this database"))
      else .ok (some ⟨runId, row.heartbeatMs, row.ownerPid, row.epoch⟩)

end Tables

/-! ## What an owner writes -/

/-- One call of an owner that is one statement or one transaction. -/
inductive Write
  | closeRun (status : Status) (now : Int)
  | setFeedSession (session : String)
  | setFeedPubkey (pubkey : String)
  | setMatcherPubkey (pubkey : String)
  | heartbeat (now : Int)
  | commit (now : Int) (changes : List Change) (counters : Counters) (claim : Option ClaimRow)

def Tables.write (t : Tables) (store : Handle) : Write → Except StoreError Tables
  | .closeRun status now => t.closeRun store status now
  | .setFeedSession session => t.setFeedSession store session
  | .setFeedPubkey pubkey => t.setFeedPubkey store pubkey
  | .setMatcherPubkey pubkey => t.setMatcherPubkey store pubkey
  | .heartbeat now => t.heartbeat store now
  | .commit now changes counters claim => t.commit store now changes counters claim

/-! ## The processes -/

/-- Where one process stands. -/
inductive Phase
  /-- It holds no handle. -/
  | out
  /-- `claim_open_run` has read a run and not taken it. -/
  | seen (run : SeenRun) (reset : Bool)
  /-- `claim_open_run` has taken a run that it is about to abandon. -/
  | abandoning (store : Handle)
  /-- The next statement opens a new run. The handle is of the run just closed, when the caller
  already held one. -/
  | starting (old : Option Handle)
  /-- The caller holds the handle. -/
  | holding (store : Handle)
  deriving DecidableEq

/-- The run and the epoch a process took itself to own. -/
def Phase.owner? : Phase → Option Handle
  | .out | .seen _ _ => none
  | .abandoning store | .holding store => some store
  | .starting old => old

/-- What a call that failed leaves its caller with. -/
def Phase.failed : Phase → Phase
  | .out | .seen _ _ | .abandoning _ | .starting none => .out
  | .starting (some old) | .holding old => .holding old

inductive Action
  /-- `Store::open` reads the newest resumable run. -/
  | inspect (path : String) (graceMs now : Nat) (procfs : Option (List Int)) (reset : Bool)
  | take (now pid : Int)
  | abandon (now : Int)
  | startRun (feedUrl : String) (now pid : Int)
  | write (write : Write)
  /-- `start_new_run` closes the run of a feed that restarted. -/
  | startNewRun (now : Int)
  /-- SQLite refuses the next statement. -/
  | refused
  /-- The process drops its handle, or ends. -/
  | leave

structure System where
  tables : Tables
  phase : Nat → Phase

namespace System

/-- No process has opened the store yet. -/
def opening (tables : Tables) : System := ⟨tables, fun _ => .out⟩

/-- One process moves on, over these tables. -/
def move (s : System) (p : Nat) (tables : Tables) (phase : Phase) : System :=
  ⟨tables, Function.update s.phase p phase⟩

/-- One process's next statement, where it can be that one. -/
def perform (s : System) (p : Nat) : Action → Option System
  | .inspect path graceMs now procfs reset =>
      match s.phase p with
      | .out =>
          match s.tables.inspect path graceMs now procfs with
          | .ok (some run) => some (s.move p s.tables (.seen run reset))
          | .ok none => some (s.move p s.tables (.starting none))
          | .error _ => some s
      | _ => none
  | .take now pid =>
      match s.phase p with
      | .seen run reset =>
          match s.tables.takeRun run now pid with
          | (tables, true) =>
              let store : Handle := ⟨run.runId, run.epoch + 1⟩
              some (s.move p tables (if reset then .abandoning store else .holding store))
          | (tables, false) => some (s.move p tables .out)
      | _ => none
  | .abandon now =>
      match s.phase p with
      | .abandoning store =>
          match s.tables.closeRun store .reset now with
          | .ok tables => some (s.move p tables (.starting none))
          | .error _ => some (s.move p s.tables .out)
      | _ => none
  | .startRun feedUrl now pid =>
      match s.phase p with
      | .starting old =>
          match s.tables.startRun feedUrl now pid with
          | .ok (tables, store) => some (s.move p tables (.holding store))
          | .error _ => some (s.move p s.tables (Phase.starting old).failed)
      | _ => none
  | .write w =>
      match s.phase p with
      | .holding store =>
          match s.tables.write store w with
          | .ok tables => some (s.move p tables (.holding store))
          | .error _ => some s
      | _ => none
  | .startNewRun now =>
      match s.phase p with
      | .holding store =>
          match s.tables.closeRun store .feedRestarted now with
          | .ok tables => some (s.move p tables (.starting (some store)))
          | .error _ => some s
      | _ => none
  | .refused =>
      match s.phase p with
      | .out => none
      | phase => some (s.move p s.tables phase.failed)
  | .leave => some (s.move p s.tables .out)

def performAll (s : System) (actions : List (Nat × Action)) : Option System :=
  actions.foldlM (fun s a => s.perform a.1 a.2) s

end System

/-! ## What no statement undoes -/

/-- Later tables of the same database. -/
structure Later (t t' : Tables) : Prop where
  epoch : ∀ run row, t.runs.get? run = some row →
    ∃ row', t'.runs.get? run = some row' ∧ row.epoch ≤ row'.epoch
  ended : ∀ run row, t.runs.get? run = some row → row.status.resumable = false →
    t'.runs.get? run = some row
  cursor : ∀ run point, t.resumePoint.get? run = some point →
    ∃ point', t'.resumePoint.get? run = some point' ∧ point.lastSeen.val ≤ point'.lastSeen.val

namespace Later

variable {t u v : Tables}

theorem refl (t : Tables) : Later t t :=
  ⟨fun _ row h => ⟨row, h, le_refl _⟩, fun _ _ h _ => h, fun _ point h => ⟨point, h, le_refl _⟩⟩

theorem trans (h : Later t u) (h' : Later u v) : Later t v where
  epoch := fun run row hrow => by
    obtain ⟨row₁, hrow₁, hle₁⟩ := h.epoch run row hrow
    obtain ⟨row₂, hrow₂, hle₂⟩ := h'.epoch run row₁ hrow₁
    exact ⟨row₂, hrow₂, hle₁.trans hle₂⟩
  ended := fun run row hrow hended => h'.ended run row (h.ended run row hrow hended) hended
  cursor := fun run point hpoint => by
    obtain ⟨point₁, hpoint₁, hle₁⟩ := h.cursor run point hpoint
    obtain ⟨point₂, hpoint₂, hle₂⟩ := h'.cursor run point₁ hpoint₁
    exact ⟨point₂, hpoint₂, hle₁.trans hle₂⟩

/-- The row of a run that can be taken up again changes, and its epoch does not go down. -/
theorem of_row {run : Int} {row row' : RunRow} (hrow : t.runs.get? run = some row)
    (hresumable : row.status.resumable = true) (hepoch : row.epoch ≤ row'.epoch)
    (hruns : u.runs = t.runs.insert run row')
    (hcursor : ∀ other point, t.resumePoint.get? other = some point →
      ∃ point', u.resumePoint.get? other = some point' ∧ point.lastSeen.val ≤ point'.lastSeen.val) :
    Later t u where
  epoch := fun other old hold => by
    rw [hruns, SortedMap.get?_insert]
    split
    · subst other
      cases hrow.symm.trans hold
      exact ⟨row', rfl, hepoch⟩
    · exact ⟨old, hold, le_refl _⟩
  ended := fun other old hold hended => by
    rw [hruns, SortedMap.get?_insert_of_ne _ ?_, hold]
    rintro rfl
    cases hrow.symm.trans hold
    rw [hresumable] at hended
    cases hended
  cursor := hcursor

theorem of_updateOwned {store : Handle} {set : RunRow → RunRow}
    (h : t.updateOwned store set = .ok u) (hset : ∀ row, (set row).epoch = row.epoch) :
    Later t u := by
  obtain ⟨row, hrow, howns, rfl⟩ := Tables.updateOwned_eq_ok.1 h
  simp only [Handle.owns, Bool.and_eq_true, decide_eq_true_eq] at howns
  exact of_row hrow (by simp [howns.2, Status.resumable]) (hset row).ge rfl
    (fun _ point hpoint => ⟨point, hpoint, le_refl _⟩)

theorem of_commit {store : Handle} {now : Int} {counters : Counters}
    (h : Tables.Committed t store now counters u) : Later t u := by
  obtain ⟨row, hrow, howns, hruns⟩ := h.owned
  simp only [Handle.owns, Bool.and_eq_true, decide_eq_true_eq] at howns
  refine of_row hrow (by simp [howns.2, Status.resumable]) ?_ hruns (fun run point hpoint => ?_)
  · exact le_refl row.epoch
  by_cases hrun : run = store.runId
  · subst hrun
    obtain ⟨found, hfound, hle⟩ := h.forward
    cases hpoint.symm.trans hfound
    obtain ⟨point', hpoint', hlast⟩ := Option.map_eq_some_iff.1 h.cursor
    refine ⟨point', hpoint', ?_⟩
    rw [hlast, integer_val h.fits]
    exact hle
  · have hsame := h.others run hrun
    rw [hpoint] at hsame
    obtain ⟨point', hpoint', hlast⟩ := Option.map_eq_some_iff.1 hsame
    exact ⟨point', hpoint', by rw [hlast]⟩

theorem of_write {store : Handle} {w : Write} (h : t.write store w = .ok u) : Later t u := by
  cases w with
  | closeRun status now | setFeedSession session | setFeedPubkey pubkey
  | setMatcherPubkey pubkey | heartbeat now => exact of_updateOwned h (fun _ => rfl)
  | commit now changes counters claim => exact of_commit (Tables.commit_eq_ok h)

theorem of_takeRun {seen : SeenRun} {now pid : Int} (h : t.takeRun seen now pid = (u, true)) :
    Later t u := by
  obtain ⟨row, hrow, hresumable, -, rfl⟩ := Tables.takeRun_true h
  exact of_row hrow hresumable (by simp) rfl (fun _ point hpoint => ⟨point, hpoint, le_refl _⟩)

theorem of_startRun {store : Handle} {feedUrl : String} {now pid : Int}
    (h : t.startRun feedUrl now pid = .ok (u, store)) : Later t u := by
  obtain ⟨hfree, hfree', -, run, point, -, -, rfl⟩ := Tables.startRun_eq_ok h
  have hother {V : Type} {m : SortedMap Int V} {k : Int} {v : V} (hm : m.get? k = some v)
      (hnone : m.get? store.runId = none) : k ≠ store.runId := by
    rintro rfl
    rw [hnone] at hm
    cases hm
  refine ⟨fun k row hrow => ⟨row, ?_, le_refl _⟩, fun k row hrow _ => ?_,
    fun k old hold => ⟨old, ?_, le_refl _⟩⟩
  · simpa [SortedMap.get?_insert_of_ne _ (hother hrow hfree)] using hrow
  · simpa [SortedMap.get?_insert_of_ne _ (hother hrow hfree)] using hrow
  · simpa [SortedMap.get?_insert_of_ne _ (hother hold hfree')] using hold

end Later

/-! ## What one step does -/

/-- What the tables say of a process at this point: the run it took is there, and nobody took away
an epoch below its own. A run it closed for good stays as it closed it. -/
def Phase.Stands (t : Tables) : Phase → Prop
  | .out | .seen _ _ | .starting none => True
  | .abandoning store | .holding store =>
      ∃ row, t.runs.get? store.runId = some row ∧ store.epoch ≤ row.epoch
  | .starting (some old) =>
      ∃ row, t.runs.get? old.runId = some row ∧ old.epoch = row.epoch ∧
        row.status.resumable = false

theorem Phase.Stands.later {t t' : Tables} (h : Later t t') {phase : Phase}
    (hphase : phase.Stands t) : phase.Stands t' := by
  match phase, hphase with
  | .out, _ | .seen _ _, _ | .starting none, _ => trivial
  | .abandoning store, ⟨row, hrow, hle⟩ | .holding store, ⟨row, hrow, hle⟩ =>
      obtain ⟨row', hrow', hle'⟩ := h.epoch _ row hrow
      exact ⟨row', hrow', hle.trans hle'⟩
  | .starting (some old), ⟨row, hrow, heq, hended⟩ =>
      exact ⟨row, h.ended _ row hrow hended, heq, hended⟩

theorem Phase.Stands.failed {t : Tables} {phase : Phase} (h : phase.Stands t) :
    phase.failed.Stands t := by
  match phase, h with
  | .out, _ | .seen _ _, _ | .abandoning _, _ | .starting none, _ => trivial
  | .holding _, h => exact h
  | .starting (some _), ⟨row, hrow, heq, _⟩ => exact ⟨row, hrow, heq.le⟩

theorem Phase.owner?_failed {phase : Phase} {store : Handle}
    (h : phase.failed.owner? = some store) : phase.owner? = some store := by
  match phase, h with
  | .starting (some _), h | .holding _, h => exact h

/-- One statement of process `p`, which is at `phase` after it. -/
structure Stepped (s : System) (p : Nat) (s' : System) (phase : Phase) : Prop where
  moved : s' = s.move p s'.tables phase
  later : Later s.tables s'.tables
  stands : phase.Stands s'.tables
  /-- A handle the process did not have before is of an epoch nobody had before. -/
  owner : ∀ store, phase.owner? = some store → (s.phase p).owner? = some store ∨
    ∀ row, s.tables.runs.get? store.runId = some row → row.epoch < store.epoch

namespace System

theorem move_self (s : System) (p : Nat) : s.move p s.tables (s.phase p) = s := by
  simp [move, Function.update_eq_self]

/-- A step that writes nothing. -/
theorem stepped_idle {s : System} {p : Nat} {phase : Phase} (hstands : phase.Stands s.tables)
    (howner : ∀ store, phase.owner? = some store → (s.phase p).owner? = some store) :
    Stepped s p (s.move p s.tables phase) phase :=
  ⟨rfl, .refl _, hstands, fun store h => .inl (howner store h)⟩

theorem stepped_stay {s : System} {p : Nat} (hstands : (s.phase p).Stands s.tables) :
    Stepped s p s (s.phase p) := by
  have h := stepped_idle (s := s) (p := p) hstands (fun _ h => h)
  rwa [move_self] at h

/-- A step that loses the handle, or fails. -/
theorem stepped_failed {s : System} {p : Nat} (hstands : (s.phase p).Stands s.tables) :
    Stepped s p (s.move p s.tables (s.phase p).failed) (s.phase p).failed :=
  stepped_idle hstands.failed (fun _ => Phase.owner?_failed)

theorem stepped_out (s : System) (p : Nat) : Stepped s p (s.move p s.tables .out) .out :=
  stepped_idle trivial (fun _ h => by cases h)

theorem stepped_inspect {s s' : System} {p : Nat} {path : String} {graceMs now : Nat}
    {procfs : Option (List Int)} {reset : Bool} (hstands : (s.phase p).Stands s.tables)
    (h : s.perform p (.inspect path graceMs now procfs reset) = some s') :
    ∃ phase, Stepped s p s' phase := by
  simp only [perform] at h
  split at h
  · split at h
    all_goals cases h
    · exact ⟨_, stepped_idle trivial (fun _ h => by cases h)⟩
    · exact ⟨_, stepped_idle trivial (fun _ h => by cases h)⟩
    · exact ⟨_, stepped_stay hstands⟩
  · cases h

theorem stepped_take {s s' : System} {p : Nat} {now pid : Int}
    (h : s.perform p (.take now pid) = some s') : ∃ phase, Stepped s p s' phase := by
  simp only [perform] at h
  split at h
  · rename_i run reset hphase
    split at h
    · rename_i tables htake
      cases h
      have hlater := Later.of_takeRun htake
      obtain ⟨row, hrow, -, hepoch, rfl⟩ := Tables.takeRun_true htake
      let store : Handle := ⟨run.runId, run.epoch + 1⟩
      let phase : Phase := if reset then .abandoning store else .holding store
      have howner : phase.owner? = some store := by
        cases reset <;> rfl
      refine ⟨phase, rfl, hlater, ?_, fun taken htaken => .inr fun found hfound => ?_⟩
      · have hstands : ∃ row', ((s.tables.runs.insert run.runId { row with
            status := .isOpen, closedAt := none, heartbeatMs := now, ownerPid := pid
            epoch := row.epoch + 1 }).get? store.runId) = some row' ∧ store.epoch ≤ row'.epoch :=
          ⟨_, SortedMap.get?_insert_self _ _ _, by simp [store, hepoch]⟩
        cases reset
        · exact hstands
        · exact hstands
      · cases howner.symm.trans htaken
        cases hrow.symm.trans hfound
        simp [store, hepoch]
    · rename_i tables htake
      cases h
      rw [Tables.takeRun_false htake]
      exact ⟨_, stepped_out s p⟩
  · cases h

theorem stepped_abandon {s s' : System} {p : Nat} {now : Int}
    (h : s.perform p (.abandon now) = some s') : ∃ phase, Stepped s p s' phase := by
  simp only [perform] at h
  split at h
  · split at h
    · rename_i tables hclose
      cases h
      exact ⟨_, rfl, Later.of_updateOwned hclose (fun _ => rfl), trivial, fun _ h => by cases h⟩
    · cases h
      exact ⟨_, stepped_out s p⟩
  · cases h

theorem stepped_startRun {s s' : System} {p : Nat} {feedUrl : String} {now pid : Int}
    (hstands : (s.phase p).Stands s.tables)
    (h : s.perform p (.startRun feedUrl now pid) = some s') : ∃ phase, Stepped s p s' phase := by
  simp only [perform] at h
  split at h
  · rename_i old hphase
    split at h
    · rename_i tables store hstart
      cases h
      have hlater := Later.of_startRun hstart
      obtain ⟨hfree, -, hepoch, run, point, -, hrun, rfl⟩ := Tables.startRun_eq_ok hstart
      refine ⟨.holding store, rfl, hlater, ⟨run, SortedMap.get?_insert_self _ _ _, ?_⟩,
        fun taken htaken => .inr fun found hfound => ?_⟩
      · rw [hepoch, hrun]
      · cases htaken
        rw [hfree] at hfound
        cases hfound
    · cases h
      rw [← hphase]
      exact ⟨_, stepped_failed hstands⟩
  · cases h

theorem stepped_write {s s' : System} {p : Nat} {w : Write}
    (hstands : (s.phase p).Stands s.tables) (h : s.perform p (.write w) = some s') :
    ∃ phase, Stepped s p s' phase := by
  simp only [perform] at h
  split at h
  · rename_i store hphase
    split at h
    · rename_i tables hwrite
      cases h
      have hlater := Later.of_write hwrite
      rw [hphase] at hstands
      exact ⟨.holding store, rfl, hlater, hstands.later hlater, fun _ h => .inl (by rwa [hphase])⟩
    · cases h
      exact ⟨_, stepped_stay hstands⟩
  · cases h

theorem stepped_startNewRun {s s' : System} {p : Nat} {now : Int}
    (hstands : (s.phase p).Stands s.tables) (h : s.perform p (.startNewRun now) = some s') :
    ∃ phase, Stepped s p s' phase := by
  simp only [perform] at h
  split at h
  · rename_i store hphase
    split at h
    · rename_i tables hclose
      cases h
      have hlater := Later.of_updateOwned hclose (fun _ => rfl)
      obtain ⟨row, hrow, howns, rfl⟩ := Tables.updateOwned_eq_ok.1 hclose
      simp only [Handle.owns, Bool.and_eq_true, decide_eq_true_eq] at howns
      exact ⟨.starting (some store), rfl, hlater,
        ⟨_, SortedMap.get?_insert_self _ _ _, howns.1.symm, rfl⟩,
        fun _ h => .inl (by rw [hphase]; exact h)⟩
    · cases h
      exact ⟨_, stepped_stay hstands⟩
  · cases h

/-- Every step is one statement of one process. -/
theorem perform_steps {s s' : System} {p : Nat} {action : Action}
    (hstands : (s.phase p).Stands s.tables) (h : s.perform p action = some s') :
    ∃ phase, Stepped s p s' phase := by
  cases action with
  | inspect path graceMs now procfs reset => exact stepped_inspect hstands h
  | take now pid => exact stepped_take h
  | abandon now => exact stepped_abandon h
  | startRun feedUrl now pid => exact stepped_startRun hstands h
  | write w => exact stepped_write hstands h
  | startNewRun now => exact stepped_startNewRun hstands h
  | refused =>
      simp only [perform] at h
      split at h
      · cases h
      · cases h
        exact ⟨_, stepped_failed hstands⟩
  | leave =>
      cases h
      exact ⟨_, stepped_out s p⟩

end System

/-! ## Whole runs -/

/-- Nobody holds an epoch that was not given out, and no two processes hold the same one. -/
structure System.Owned (s : System) : Prop where
  stands : ∀ p, (s.phase p).Stands s.tables
  unique : ∀ p q store, (s.phase p).owner? = some store → (s.phase q).owner? = some store → p = q

theorem Phase.Stands.epoch_le {t : Tables} {phase : Phase} {store : Handle}
    (h : phase.Stands t) (howner : phase.owner? = some store) :
    ∃ row, t.runs.get? store.runId = some row ∧ store.epoch ≤ row.epoch := by
  match phase, h, howner with
  | .abandoning _, h, rfl | .holding _, h, rfl => exact h
  | .starting (some _), ⟨row, hrow, heq, _⟩, rfl => exact ⟨row, hrow, heq.le⟩

namespace System

variable {s s' : System}

theorem owned_opening (tables : Tables) : (opening tables).Owned :=
  ⟨fun _ => trivial, fun _ _ _ h => by cases h⟩

theorem Owned.perform (h : s.Owned) {p : Nat} {action : Action}
    (hstep : s.perform p action = some s') : s'.Owned ∧ Later s.tables s'.tables := by
  obtain ⟨phase, hstepped⟩ := perform_steps (h.stands p) hstep
  have hphase (q : Nat) : s'.phase q = if q = p then phase else s.phase q := by
    rw [hstepped.moved]
    simp [move, Function.update_apply]
  -- A handle that is new to `p` is of an epoch above the one any other process can hold.
  have hother {q : Nat} {store : Handle} (hq : q ≠ p) (hp : phase.owner? = some store)
      (hqs : (s.phase q).owner? = some store) : False := by
    cases hstepped.owner store hp with
    | inl hold => exact hq (h.unique q p store hqs hold)
    | inr hfresh =>
        obtain ⟨row, hrow, hle⟩ := (h.stands q).epoch_le hqs
        exact absurd (hfresh row hrow) (not_lt.2 hle)
  refine ⟨⟨fun q => ?_, fun q r store hq hr => ?_⟩, hstepped.later⟩
  · rw [hphase q]
    split
    · exact hstepped.stands
    · exact (h.stands q).later hstepped.later
  · rw [hphase] at hq hr
    split at hq <;> split at hr
    · rename_i hqp hrp
      rw [hqp, hrp]
    · rename_i _ hrp
      exact (hother hrp hq hr).elim
    · rename_i hqp _
      exact (hother hqp hr hq).elim
    · exact h.unique q r store hq hr

theorem Owned.performAll : ∀ {actions : List (Nat × Action)} {s s' : System}, s.Owned →
    s.performAll actions = some s' → s'.Owned ∧ Later s.tables s'.tables
  | [], _, _, h, hrun => by
      cases hrun
      exact ⟨h, .refl _⟩
  | (p, action) :: rest, s, s', h, hrun => by
      rw [System.performAll, List.foldlM_cons] at hrun
      obtain ⟨s₁, hstep, hrest⟩ := Option.bind_eq_some_iff.1 hrun
      obtain ⟨howned, hlater⟩ := h.perform hstep
      obtain ⟨howned', hlater'⟩ := howned.performAll hrest
      exact ⟨howned', hlater.trans hlater'⟩

end System

/-! ## Fencing -/

/-- Whatever an owner writes, it writes over the run row that names its own epoch. -/
theorem Tables.owns_of_write {t t' : Tables} {store : Handle} {w : Write}
    (h : t.write store w = .ok t') :
    ∃ row, t.runs.get? store.runId = some row ∧ row.epoch = store.epoch := by
  have howns : ∃ row, t.runs.get? store.runId = some row ∧ store.owns row = true := by
    cases w with
    | commit now changes counters claim =>
        obtain ⟨row, hrow, howns, -⟩ := (commit_eq_ok h).owned
        exact ⟨row, hrow, howns⟩
    | closeRun status now | setFeedSession session | setFeedPubkey pubkey
    | setMatcherPubkey pubkey | heartbeat now =>
        obtain ⟨row, hrow, howns, -⟩ := updateOwned_eq_ok.1 h
        exact ⟨row, hrow, howns⟩
  obtain ⟨row, hrow, howns⟩ := howns
  simp only [Handle.owns, Bool.and_eq_true, decide_eq_true_eq] at howns
  exact ⟨row, hrow, howns.1⟩

theorem Tables.epoch_eq_of_write {t t' : Tables} {store : Handle} {w : Write} {row : RunRow}
    (h : t.write store w = .ok t') (hrow : t.runs.get? store.runId = some row) :
    row.epoch = store.epoch := by
  obtain ⟨found, hfound, hepoch⟩ := owns_of_write h
  cases hrow.symm.trans hfound
  exact hepoch

/-- A process that still holds an older epoch of a run. -/
structure System.Stale (s : System) (p : Nat) (store : Handle) : Prop where
  holds : (s.phase p).owner? = some store
  taken : ∃ row, s.tables.runs.get? store.runId = some row ∧ store.epoch < row.epoch

/-- Nothing such a process does next changes the tables. -/
theorem System.Stale.unchanged {s s' : System} {p : Nat} {store : Handle} {action : Action}
    (h : s.Stale p store) (hstands : (s.phase p).Stands s.tables)
    (hstep : s.perform p action = some s') : s'.tables = s.tables := by
  obtain ⟨row, hrow, hlt⟩ := h.taken
  have hrefused (w : Write) (t : Tables) : s.tables.write store w ≠ .ok t := fun hwrite =>
    absurd (Tables.epoch_eq_of_write hwrite hrow) hlt.ne'
  have howner := h.holds
  cases hphase : s.phase p with
  | out | seen run reset =>
      rw [hphase] at howner
      cases howner
  | abandoning held =>
      rw [hphase] at howner
      cases howner
      cases action with
      | abandon now =>
          simp only [perform, hphase] at hstep
          split at hstep
          · rename_i tables hclose
            exact absurd hclose (hrefused (.closeRun .reset now) tables)
          · cases hstep
            rfl
      | refused =>
          simp only [perform, hphase] at hstep
          cases hstep
          rfl
      | leave =>
          cases hstep
          rfl
      | inspect | take | startRun | write | startNewRun => simp [perform, hphase] at hstep
  | starting old =>
      rw [hphase] at howner hstands
      cases howner
      -- A run closed for good is not taken again.
      obtain ⟨found, hfound, heq, -⟩ := hstands
      cases hrow.symm.trans hfound
      exact absurd heq hlt.ne
  | holding held =>
      rw [hphase] at howner
      cases howner
      cases action with
      | write w =>
          simp only [perform, hphase] at hstep
          split at hstep
          · rename_i tables hwrite
            exact absurd hwrite (hrefused w tables)
          · cases hstep
            rfl
      | startNewRun now =>
          simp only [perform, hphase] at hstep
          split at hstep
          · rename_i tables hclose
            exact absurd hclose (hrefused (.closeRun .feedRestarted now) tables)
          · cases hstep
            rfl
      | refused =>
          simp only [perform, hphase] at hstep
          cases hstep
          rfl
      | leave =>
          cases hstep
          rfl
      | inspect | take | abandon | startRun => simp [perform, hphase] at hstep

theorem System.Stale.later {s s' : System} {p : Nat} {store : Handle} (h : s.Stale p store)
    (hlater : Later s.tables s'.tables) (hholds : (s'.phase p).owner? = some store) :
    s'.Stale p store := by
  obtain ⟨row, hrow, hlt⟩ := h.taken
  obtain ⟨row', hrow', hle⟩ := hlater.epoch _ row hrow
  exact ⟨hholds, row', hrow', hlt.trans_le hle⟩

/-- What the epochs guarantee from one moment on. -/
structure System.Fencing (s : System) : Prop where
  /-- Once a newer epoch is taken, nothing an older epoch's owner does changes a row, however long
  it goes on. -/
  stale : ∀ p store, s.Stale p store → ∀ after s₁, s.performAll after = some s₁ →
    (s₁.phase p).owner? = some store → ∀ action s₂, s₁.perform p action = some s₂ →
      s₂.tables = s₁.tables
  /-- Of the owners of one run, one alone can write. -/
  one : ∀ p q storeP storeQ, (s.phase p).owner? = some storeP → (s.phase q).owner? = some storeQ →
    storeP.runId = storeQ.runId → ∀ writeP writeQ tP tQ, s.tables.write storeP writeP = .ok tP →
      s.tables.write storeQ writeQ = .ok tQ → p = q ∧ storeP = storeQ
  /-- The cursor of a run never goes down. -/
  cursor : ∀ after s₁, s.performAll after = some s₁ → ∀ run point,
    s.tables.resumePoint.get? run = some point →
      ∃ point', s₁.tables.resumePoint.get? run = some point' ∧
        point.lastSeen.val ≤ point'.lastSeen.val
  /-- A batch that is refused leaves every table as it was. -/
  refused : ∀ p store now changes counters claim error s₁, s.phase p = .holding store →
    s.tables.commit store now changes counters claim = .error error →
      s.perform p (.write (.commit now changes counters claim)) = some s₁ → s₁.tables = s.tables

theorem System.Owned.fencing {s : System} (h : s.Owned) : s.Fencing where
  stale := fun p store hstale after s₁ hafter hholds action s₂ hstep => by
    obtain ⟨howned, hlater⟩ := h.performAll hafter
    exact (hstale.later hlater hholds).unchanged (howned.stands p) hstep
  one := fun p q storeP storeQ hp hq hrun writeP writeQ tP tQ hP hQ => by
    obtain ⟨row, hrow, hepoch⟩ := Tables.owns_of_write hP
    have hepoch' := Tables.epoch_eq_of_write hQ (hrun ▸ hrow)
    have hstore : storeP = storeQ := by
      cases storeP
      cases storeQ
      simp_all
    subst hstore
    exact ⟨h.unique p q storeP hp hq, rfl⟩
  cursor := fun after s₁ hafter run point hpoint => (h.performAll hafter).2.cursor run point hpoint
  refused := fun p store now changes counters claim error s₁ hphase herror hstep => by
    have hwrite : s.tables.write store (.commit now changes counters claim) = .error error := herror
    simp only [System.perform, hphase, hwrite, Option.some.injEq] at hstep
    rw [hstep]

/-- On any database and for every order in which any number of processes open the store, claim a
run, take it over, beat, commit and close, the epochs fence off every writer but the newest. -/
theorem store_fencing {tables : Tables} {actions : List (Nat × Action)} {s : System}
    (h : (System.opening tables).performAll actions = some s) : s.Fencing :=
  ((System.owned_opening tables).performAll h).1.fencing

namespace Sample

def noTables : Tables := ⟨.empty, 0, .empty, .empty, .empty, .empty, .empty, .empty, .empty⟩

def twoMessages : Counters := { Counters.default with lastSeen := 2, messagesProcessed := 2 }

/-- A process starts a run, commits a batch and stalls; another one takes the run over. -/
def takeover : List (Nat × Action) :=
  [(0, .inspect "state.db" 30000 1000 (some [7]) false),
    (0, .startRun "http://feed" 1000 7),
    (0, .write (.commit 1200 [] twoMessages (some ⟨1, 2, [], [1], 0, some []⟩))),
    (1, .inspect "state.db" 30000 40000 (some [7, 8]) false),
    (1, .take 40000 8)]

def takenOver : System := ((System.opening noTables).performAll takeover).getD (.opening noTables)

end Sample

theorem store_fencing_sample :
    Sample.takenOver.Stale 0 ⟨1, 1⟩ ∧ Sample.takenOver.phase 1 = .holding ⟨1, 2⟩ ∧
      Sample.takenOver.Fencing := by
  have hsome : ((System.opening Sample.noTables).performAll Sample.takeover).isSome = true ∧
      (Sample.takenOver.phase 0).owner? = some ⟨1, 1⟩ ∧
      Sample.takenOver.phase 1 = .holding ⟨1, 2⟩ ∧
      (Sample.takenOver.tables.runs.get? 1).map RunRow.epoch = some 2 := by
    decide +kernel
  obtain ⟨hran, hold, hnew, hepoch⟩ := hsome
  obtain ⟨row, hrow, htwo⟩ := Option.map_eq_some_iff.1 hepoch
  obtain ⟨s, hs⟩ := Option.isSome_iff_exists.1 hran
  have hrun : (System.opening Sample.noTables).performAll Sample.takeover =
      some Sample.takenOver := by
    rw [Sample.takenOver, hs, Option.getD_some]
  exact ⟨⟨hold, row, hrow, by rw [htwo]; decide⟩, hnew, store_fencing hrun⟩

end Store
end VerifiableExchange
