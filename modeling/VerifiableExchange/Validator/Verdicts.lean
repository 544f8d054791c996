import VerifiableExchange.Validator.Positions

/-!
# Verdicts — what a validator's position and its accusation stand on

A validator accuses the sequencer only over messages that were served to it one by one and a head
signed over the last of them. The accusation outlives answers and restarts as far as it was written
to disk: the poll that makes it saves once, and a disputed validator does not poll again.
-/

namespace VerifiableExchange
namespace Validator

open Lib Matcher
open Poller (SignedHead verifyHead)

namespace System

variable {env : Primitives} {key : SigningKey} {s s' : System}

/-! ## What was received -/

/-- Every one of these messages arrived in a page of this session. -/
def Served (actions : List Action) (session : Option String) (log : List RawMessage) : Prop :=
  ∀ m ∈ log, ∃ name head messages saved, session = some name ∧
    .poll (.page (some name) (some head) messages) saved ∈ actions ∧ m ∈ messages

theorem Served.mono {actions more : List Action} {session : Option String} {log : List RawMessage}
    (h : Served actions session log) (hmore : actions ⊆ more) : Served more session log := by
  intro m hm
  obtain ⟨name, head, messages, saved, hname, hmem, hserved⟩ := h m hm
  exact ⟨name, head, messages, saved, hname, hmore hmem, hserved⟩

/-- What an accusation rests on: messages that were served in the session, numbered from 1, a head
of the session that verified under the pinned key and stands at the last of them, and another
chain than the one they produce. -/
structure Evidence (env : Primitives) (actions : List Action) (s : ValidatorState)
    (session : String) (head : SignedHead) (log : List RawMessage) : Prop where
  vouched : s.Vouched env session head
  numbered : log.map RawMessage.id = List.range' 1 log.length
  stands : head.lastId = log.length
  served : Served actions (some session) log
  differs : ValidatorState.extendedBy env MatcherState.emptyChain log ≠ head.chain

/-! ## The verdicts -/

/-- A sequencer with one log for each session: wherever a head of it verifies, the page is a stretch
of that session's log, and the head stands at its end. -/
def Honest (env : Primitives) (logs : String → List RawMessage) (action : Action) : Prop :=
  ∀ session head messages saved, action = .poll (.page (some session) (some head) messages) saved →
    verifyHead env session head = true →
      ∃ start stop, start ≤ stop ∧ stop ≤ (logs session).length ∧
        messages = ((logs session).take stop).drop start ∧ head.lastId = stop ∧
        head.chain =
          ValidatorState.extendedBy env MatcherState.emptyChain ((logs session).take stop)

/-- Everything a validator that ran through these actions may be believed. -/
structure Sound (env : Primitives) (key : SigningKey) (actions : List Action) : Prop where
  /-- Its position is where a session begins, or where a verified head stands over what it received. -/
  position : ∀ before t, before <+: actions → start.performAll env key before = some t →
    ∃ log, t.state.Stands env log ∧ Served before t.state.session log
  /-- It accuses only on evidence. -/
  recorded : ∀ before action t t', before ++ [action] <+: actions →
    start.performAll env key before = some t → t.perform env key action = some t' →
    t.state.disputed = false → t'.state.disputed = true →
      ∃ session head messages saved log,
        action = .poll (.page (some session) (some head) messages) saved ∧
        Evidence env (before ++ [action]) t.state session head (log ++ messages)
  /-- No answer and no restart takes an accusation back. -/
  kept : ∀ before action after t t' u, before ++ action :: after <+: actions →
    start.performAll env key before = some t → t.perform env key action = some t' →
    t.state.disputed = false → t'.state.disputed = true → .clearDispute ∉ after →
    t'.performAll env key after = some u → u.state.disputed = true
  /-- An answer without a head that verified changes none of the four fields. -/
  unmoved : ∀ before answer saved t, before ++ [.poll answer saved] <+: actions →
    start.performAll env key before = some t →
    (∀ session head messages, answer = .page (some session) (some head) messages →
      ¬t.state.Vouched env session head) →
    (t.poll env answer saved).state.session = t.state.session ∧
      (t.poll env answer saved).state.feedPubkey = t.state.feedPubkey ∧
      (t.poll env answer saved).state.cursor = t.state.cursor ∧
      (t.poll env answer saved).state.chain = t.state.chain
  /-- An honest sequencer is never accused. -/
  honest : ∀ logs, (∀ action ∈ actions, Honest env logs action) → ∀ before t,
    before <+: actions → start.performAll env key before = some t → t.state.disputed = false

/-- A page that is covered numbers its messages within 64 bits, and an accusation is saved. -/
def Lasting (env : Primitives) (s : System) (action : Action) : Prop :=
  ∀ session head messages saved, action = .poll (.page (some session) (some head) messages) saved →
    s.state.disputed = false → s.state.Covered env session head messages →
      (s.state.trust session head).cursor + messages.length ≤ u64Max ∧
        (ValidatorState.extendedBy env (s.state.trust session head).chain messages ≠ head.chain →
          saved = true)

theorem Lasting.fits {action : Action} (h : s.Lasting env action) : s.Fits env action :=
  fun session head messages saved haction hdisputed hpasses =>
    (h session head messages saved haction hdisputed hpasses.toCovered).1

/-! ## One step -/

/-- A database never holds an accusation the process does not hold. -/
def Heeds (s : System) : Prop :=
  ∀ state, openValidatorDb s.disk = .ok state → state.disputed = true → s.state.disputed = true

/-- A process that is not disputed changes in one of three ways in a poll. -/
theorem poll_disputed {answer : Answer} {saved : Bool} (hdisputed : s.state.disputed = false)
    (h : (s.poll env answer saved).state.disputed = true) :
    ∃ session head messages, answer = .page (some session) (some head) messages ∧
      s.state.Covered env session head messages ∧
      ValidatorState.extendedBy env (s.state.trust session head).chain messages ≠ head.chain := by
  obtain ⟨state, outcome, log, hreceived, -, hpoll⟩ := poll_cases env s answer saved hdisputed
  rw [hpoll] at h
  have htrust : ∀ session head, (s.state.trust session head).disputed = false :=
    fun session head => ValidatorState.trust_disputed.trans hdisputed
  cases hreceived with
  | unread => exact absurd (hdisputed.symm.trans h) (by decide)
  | refused session head => exact absurd ((htrust session head).symm.trans h) (by decide)
  | caught session head messages reason hcovered hchain =>
      exact ⟨session, head, messages, rfl, hcovered, hchain⟩
  | verified session head => exact absurd ((htrust session head).symm.trans h) (by decide)

theorem openValidatorDb_disputed {s t : ValidatorState}
    (h : openValidatorDb (some (save s)) = .ok t) : t.disputed = s.disputed := by
  rw [openValidatorDb] at h
  split_ifs at h with hlength
  cases h
  cases hdisputed : s.disputed <;> simp [save, hdisputed]

theorem Heeds.perform {action : Action} (h : s.Heeds)
    (hperform : s.perform env key action = some s') : s'.Heeds := by
  cases action with
  | poll answer saved =>
      cases hperform
      cases hdisputed : s.state.disputed with
      | true => rwa [poll_of_disputed hdisputed]
      | false =>
          obtain ⟨state, outcome, log, -, -, hpoll⟩ := poll_cases env s answer saved hdisputed
          rw [hpoll]
          intro opened hopened htrue
          cases saved with
          | true => exact (openValidatorDb_disputed hopened).symm.trans htrue
          | false => exact absurd (hdisputed.symm.trans (h opened hopened htrue)) (by decide)
  | attest =>
      cases hperform
      exact h
  | restart =>
      obtain ⟨state, hstate, rfl⟩ := perform_restart hperform
      intro opened hopened htrue
      have hsame : opened = state := Except.ok.inj (hopened.symm.trans hstate)
      rwa [hsame] at htrue
  | clearDispute =>
      cases hperform
      intro opened hopened htrue
      cases hdisk : s.disk with
      | none =>
          rw [hdisk] at hopened
          exact h opened (by rw [hdisk]; exact hopened) htrue
      | some row =>
          rw [hdisk] at hopened
          obtain ⟨state, hstate, -, -, -, -, -, hbefore⟩ := openValidatorDb_clear hopened
          exact h state (by rw [hdisk]; exact hstate) (hbefore htrue)

/-- Only a poll accuses. -/
theorem Heeds.accuses {action : Action} (h : s.Heeds)
    (hperform : s.perform env key action = some s') (hbefore : s.state.disputed = false)
    (hafter : s'.state.disputed = true) : ∃ answer saved, action = .poll answer saved := by
  cases action with
  | poll answer saved => exact ⟨answer, saved, rfl⟩
  | attest =>
      cases hperform
      exact absurd (hbefore.symm.trans hafter) (by decide)
  | restart =>
      obtain ⟨state, hstate, rfl⟩ := perform_restart hperform
      exact absurd (hbefore.symm.trans (h state hstate hafter)) (by decide)
  | clearDispute =>
      cases hperform
      exact absurd (hbefore.symm.trans hafter) (by decide)

/-- An accusation that is on disk stands until the operator clears it. -/
def Accused (s : System) : Prop :=
  s.state.disputed = true ∧ ∀ state, openValidatorDb s.disk = .ok state → state.disputed = true

theorem Accused.perform {action : Action} (h : s.Accused) (hnot : action ≠ .clearDispute)
    (hperform : s.perform env key action = some s') : s'.Accused := by
  cases action with
  | poll answer saved =>
      cases hperform
      rwa [poll_of_disputed h.1]
  | attest =>
      cases hperform
      exact h
  | restart =>
      obtain ⟨state, hstate, rfl⟩ := perform_restart hperform
      exact ⟨h.2 state hstate, h.2⟩
  | clearDispute => exact absurd rfl hnot

theorem Accused.run {actions : List Action} (h : s.Accused) (hclear : .clearDispute ∉ actions)
    (hrun : s.performAll env key actions = some s') : s'.Accused := by
  induction actions generalizing s with
  | nil =>
      cases hrun
      exact h
  | cons action rest ih =>
      rw [performAll, List.foldlM_cons] at hrun
      obtain ⟨m, hm, hend⟩ := Option.bind_eq_some_iff.1 hrun
      have hne : action ≠ .clearDispute := fun heq => hclear (heq ▸ List.mem_cons_self)
      exact ih (h.perform hne hm) (fun hmem => hclear (List.mem_cons_of_mem _ hmem)) hend

/-- A poll that accuses and is saved writes down what it found. -/
theorem accused_poll {answer : Answer} (hdisputed : s.state.disputed = false)
    (h : (s.poll env answer true).state.disputed = true) : (s.poll env answer true).Accused := by
  refine ⟨h, fun opened hopened => ?_⟩
  obtain ⟨state, outcome, log, -, -, hpoll⟩ := poll_cases env s answer true hdisputed
  rw [hpoll] at h hopened
  exact (openValidatorDb_disputed hopened).trans h

/-- The messages behind both positions keep being ones that were received in their session. -/
theorem holds_served {actions : List Action} {action : Action}
    (h : s.Holds (fun state log => Served actions state.session log)) (hmem : action ∈ actions)
    (hperform : s.perform env key action = some s') :
    s'.Holds (fun state log => Served actions state.session log) := by
  refine h.perform hperform (fun _ _ => id) ?_ ?_ ?_
  · rintro answer saved rfl hdisputed
    obtain ⟨state, outcome, log, hreceived, rfl, hpoll⟩ := poll_cases env s answer saved hdisputed
    rw [hpoll]
    have hbase : ∀ session, Served actions (some session) (s.state.baseIn session s.log) := by
      intro session
      unfold ValidatorState.baseIn
      split_ifs with hsession
      · exact hsession ▸ h.memory
      · exact fun m hm => absurd hm List.not_mem_nil
    have hkept : ∀ {session : String} {t : ValidatorState}, t.session = some session →
        Served actions t.session (if t.session = s.state.session then s.log else []) := by
      intro session t hsession
      rw [ValidatorState.kept_eq_baseIn hsession, hsession]
      exact hbase session
    cases hreceived with
    | unread _ why hnot =>
        have hlog : logAfter s.log s.state s.state.uncheckedOnce answer (.unchecked why) = s.log :=
          if_pos rfl
        dsimp only
        rw [hlog]
        exact h.memory
    | refused => exact hkept ValidatorState.trust_session
    | caught => exact hkept ValidatorState.trust_session
    | verified session head messages hpasses =>
        intro m hm
        rcases List.mem_append.1 hm with hold | hnew
        · exact hkept ValidatorState.trust_session m hold
        · exact ⟨session, head, messages, saved, ValidatorState.trust_session, hmem, hnew⟩
  · intro state log opened hserved hopened
    rw [openValidatorDb_session hopened]
    exact hserved
  · intro row log opened hserved hopened
    obtain ⟨state, hstate, hsession, -⟩ := openValidatorDb_clear hopened
    rw [hsession]
    exact hserved state hstate

/-! ## An honest sequencer -/

/-- The messages behind a position are the beginning of its session's log. -/
def Begins (logs : String → List RawMessage) (state : ValidatorState) (log : List RawMessage) : Prop :=
  ∀ session, state.session = some session → log <+: logs session

/-- A page that is covered goes on in the log exactly where the position stands. -/
theorem Honest.covered {logs : String → List RawMessage} {session : String} {head : SignedHead}
    {messages : List RawMessage} {saved : Bool}
    (h : Honest env logs (.poll (.page (some session) (some head) messages) saved))
    (hstands : s.state.Stands env s.log) (hbegins : Begins logs s.state s.log)
    (hcovered : s.state.Covered env session head messages)
    (hfits : (s.state.trust session head).cursor + messages.length ≤ u64Max) :
    s.state.baseIn session s.log ++ messages <+: logs session ∧
      ValidatorState.extendedBy env (s.state.trust session head).chain messages = head.chain := by
  obtain ⟨-, hlast, hfold⟩ := hstands.extend hcovered hfits
  obtain ⟨first, stop, hle, hstop, hpage, hat, hchain⟩ :=
    h session head messages saved rfl hcovered.signed
  have hbase : s.state.baseIn session s.log <+: logs session := by
    unfold ValidatorState.baseIn
    split_ifs with hsession
    · exact hbegins session hsession
    · exact List.nil_prefix
  have hlength : messages.length = stop - first := by
    rw [hpage, List.length_drop, List.length_take, min_eq_left hstop]
  -- The head stands at the end of the page and at the end of what was followed with it.
  have hfirst : (s.state.baseIn session s.log).length = first := by
    have hsum : stop = (s.state.baseIn session s.log).length + messages.length := by
      rw [← List.length_append, ← hlast, hat]
    omega
  have htake : s.state.baseIn session s.log = ((logs session).take stop).take first := by
    rw [List.take_take, min_eq_left hle, ← hfirst]
    exact List.prefix_iff_eq_take.1 hbase
  have hwhole : s.state.baseIn session s.log ++ messages = (logs session).take stop := by
    rw [hpage, htake, List.take_append_drop]
  refine ⟨hwhole ▸ List.take_prefix _ _, ?_⟩
  rw [hfold, hwhole, hchain]

/-- An honest sequencer is not accused by a step, and the positions stay in its logs. -/
theorem Honest.perform {logs : String → List RawMessage} {action : Action}
    (h : Honest env logs action) (hlasting : s.Lasting env action) (hheeds : s.Heeds)
    (hstands : s.Holds (ValidatorState.Stands env)) (hbegins : s.Holds (Begins logs))
    (hdisputed : s.state.disputed = false) (hperform : s.perform env key action = some s') :
    s'.Holds (Begins logs) ∧ s'.state.disputed = false := by
  constructor
  · refine hbegins.perform hperform (fun _ _ => id) ?_ ?_ ?_
    · rintro answer saved rfl -
      obtain ⟨state, outcome, log, hreceived, rfl, hpoll⟩ :=
        poll_cases env s answer saved hdisputed
      rw [hpoll]
      have hkept : ∀ {session : String} {t : ValidatorState}, t.session = some session →
          Begins logs t (if t.session = s.state.session then s.log else []) := by
        intro session t hsession name hname
        split_ifs with hsame
        · exact hbegins.memory name (hsame.symm.trans hname)
        · exact List.nil_prefix
      cases hreceived with
      | unread _ why hnot =>
          have hlog : logAfter s.log s.state s.state.uncheckedOnce answer (.unchecked why) = s.log :=
            if_pos rfl
          dsimp only
          rw [hlog]
          exact hbegins.memory
      | refused => exact hkept ValidatorState.trust_session
      | caught => exact hkept ValidatorState.trust_session
      | verified session head messages hpasses =>
          have hlog := @ValidatorState.kept_eq_baseIn s.state session s.log
            ((s.state.trust session head).advance head.lastId head.chain)
            ValidatorState.trust_session
          have hfits := hlasting.fits session head messages saved rfl hdisputed hpasses
          have hcovered := (h.covered hstands.memory hbegins.memory hpasses.toCovered hfits).1
          intro name hname
          have hsession : session = name :=
            Option.some.inj (ValidatorState.trust_session.symm.trans hname)
          rw [← hsession]
          rw [← hlog] at hcovered
          exact hcovered
    · intro state log opened hlog hopened session hsession
      exact hlog session ((openValidatorDb_session hopened).symm.trans hsession)
    · intro row log opened hlog hopened name hname
      obtain ⟨state, hstate, hsession, -⟩ := openValidatorDb_clear hopened
      exact hlog state hstate name (hsession.symm.trans hname)
  · by_contra hafter
    have htrue := Bool.of_not_eq_false hafter
    obtain ⟨answer, saved, rfl⟩ := hheeds.accuses hperform hdisputed htrue
    cases hperform
    obtain ⟨session, head, messages, rfl, hcovered, hdiffers⟩ := poll_disputed hdisputed htrue
    have hfits := (hlasting session head messages saved rfl hdisputed hcovered).1
    exact hdiffers (h.covered hstands.memory hbegins.memory hcovered hfits).2

/-! ## Runs -/

/-- What holds after every run whose steps all meet the condition. -/
theorem holds_run {actions : List Action} (h : start.Meets env key (Lasting env) actions)
    (hrun : start.performAll env key actions = some s) :
    s.Holds (ValidatorState.Stands env) ∧
      s.Holds (fun state log => Served actions state.session log) ∧ s.Heeds := by
  have hstart : start.Holds (fun state log => Served actions state.session log) :=
    ⟨fun m hm => absurd hm List.not_mem_nil, fun _ _ m hm => absurd hm List.not_mem_nil⟩
  have hheeds : start.Heeds := fun state hstate htrue => by
    cases hstate
    exact htrue
  refine @Meets.induction env key start _ (fun t => t.Holds (ValidatorState.Stands env) ∧
    t.Holds (fun state log => Served actions state.session log) ∧ t.Heeds) _ s h hrun
    ⟨holds_start env, hstart, hheeds⟩ ?_
  rintro t action t' ⟨hstands, hserved, hheeds⟩ hlasting hmem hperform
  exact ⟨hstands.stands hlasting.fits hperform, holds_served hserved hmem hperform,
    hheeds.perform hperform⟩

theorem prefix_run {before actions : List Action} (h : start.Meets env key (Lasting env) actions)
    (hbefore : before <+: actions) : start.Meets env key (Lasting env) before := by
  obtain ⟨after, rfl⟩ := hbefore
  exact h.append.1

/-- The step after the beginning of a run meets the condition too. -/
theorem prefix_step {before actions : List Action} {action : Action}
    (h : start.Meets env key (Lasting env) actions) (hbefore : before ++ [action] <+: actions)
    (hrun : start.performAll env key before = some s) : s.Lasting env action :=
  ((prefix_run h hbefore).append.2 s hrun).1

/-- A poll that accuses does so on evidence. -/
theorem exists_evidence {before : List Action} {session : String} {head : SignedHead}
    {messages : List RawMessage} {saved : Bool} (hstands : s.state.Stands env s.log)
    (hserved : Served before s.state.session s.log)
    (hcovered : s.state.Covered env session head messages)
    (hfits : (s.state.trust session head).cursor + messages.length ≤ u64Max)
    (hdiffers : ValidatorState.extendedBy env (s.state.trust session head).chain messages ≠
      head.chain) :
    Evidence env (before ++ [.poll (.page (some session) (some head) messages) saved]) s.state session
      head (s.state.baseIn session s.log ++ messages) := by
  obtain ⟨hnumbered, hlast, hfold⟩ := hstands.extend hcovered hfits
  refine ⟨hcovered.toVouched, hnumbered, hlast, ?_, hfold ▸ hdiffers⟩
  intro m hm
  rcases List.mem_append.1 hm with hold | hnew
  · unfold ValidatorState.baseIn at hold
    split_ifs at hold with hsession
    · rw [hsession] at hserved
      exact hserved.mono (List.subset_append_left _ _) m hold
    · exact absurd hold List.not_mem_nil
  · exact ⟨session, head, messages, saved, rfl, List.mem_append_right _ List.mem_cons_self, hnew⟩

/-- Every verdict of a validator whose accusation reaches the disk can be believed. -/
theorem verdicts_sound {actions : List Action}
    (h : start.Meets env key (Lasting env) actions) : Sound env key actions where
  position := by
    intro before t hbefore hrun
    obtain ⟨hstands, hserved, -⟩ := holds_run (prefix_run h hbefore) hrun
    exact ⟨t.log, hstands.memory, hserved.memory⟩
  recorded := by
    intro before action t t' hbefore hrun hperform hnot hdisputed
    have hlasting := prefix_step h hbefore hrun
    obtain ⟨hstands, hserved, hheeds⟩ :=
      holds_run (prefix_run h ((List.prefix_append _ _).trans hbefore)) hrun
    obtain ⟨answer, saved, rfl⟩ := hheeds.accuses hperform hnot hdisputed
    cases hperform
    obtain ⟨session, head, messages, rfl, hcovered, hdiffers⟩ := poll_disputed hnot hdisputed
    have hfits := (hlasting session head messages saved rfl hnot hcovered).1
    exact ⟨session, head, messages, saved, _, rfl,
      exists_evidence hstands.memory hserved.memory hcovered hfits hdiffers⟩
  kept := by
    intro before action after t t' u hbefore hrun hperform hnot hdisputed hclear hafter
    have hshort : before ++ [action] <+: actions := by
      refine List.IsPrefix.trans ?_ hbefore
      rw [List.append_cons before action after]
      exact List.prefix_append _ _
    have hlasting := prefix_step h hshort hrun
    obtain ⟨-, -, hheeds⟩ := holds_run (prefix_run h ((List.prefix_append _ _).trans hbefore)) hrun
    obtain ⟨answer, saved, rfl⟩ := hheeds.accuses hperform hnot hdisputed
    cases hperform
    obtain ⟨session, head, messages, rfl, hcovered, hdiffers⟩ := poll_disputed hnot hdisputed
    have hsaved := (hlasting session head messages saved rfl hnot hcovered).2 hdiffers
    rw [hsaved] at hdisputed hafter
    exact ((accused_poll hnot hdisputed).run hclear hafter).1
  unmoved := by
    intro before answer saved t hbefore hrun hnot
    cases hdisputed : t.state.disputed with
    | true =>
        rw [poll_of_disputed hdisputed]
        exact ⟨rfl, rfl, rfl, rfl⟩
    | false =>
        obtain ⟨state, outcome, log, hreceived, -, hpoll⟩ :=
          poll_cases env t answer saved hdisputed
        rw [hpoll]
        cases hreceived with
        | unread => exact ⟨rfl, rfl, rfl, rfl⟩
        | refused session head messages why hvouched => exact absurd hvouched (hnot _ _ _ rfl)
        | caught session head messages reason hcovered =>
            exact absurd hcovered.toVouched (hnot _ _ _ rfl)
        | verified session head messages hpasses =>
            exact absurd hpasses.toVouched (hnot _ _ _ rfl)
  honest := by
    intro logs hhonest before t hbefore hrun
    have hstart : start.Holds (Begins logs) :=
      ⟨fun _ _ => List.nil_prefix, fun _ _ _ _ => List.nil_prefix⟩
    have hmeets := prefix_run h hbefore
    have hgood := @Meets.induction env key start _ (fun t => (t.Holds (ValidatorState.Stands env) ∧
      t.Heeds) ∧ t.Holds (Begins logs) ∧ t.state.disputed = false) _ t hmeets hrun
      ⟨⟨holds_start env, fun state hstate htrue => by cases hstate; exact htrue⟩, hstart, rfl⟩ ?_
    · exact hgood.2.2
    · rintro t action t' ⟨⟨hstands, hheeds⟩, hbegins, hnot⟩ hlasting hmem hperform
      exact ⟨⟨hstands.stands hlasting.fits hperform, hheeds.perform hperform⟩,
        (hhonest action (hbefore.subset hmem)).perform hlasting hheeds hstands hbegins hnot hperform⟩

theorem verdicts_sound_sample :
    Sound Sample.env Sample.key
        [Sample.page Sample.session Sample.firstHead [Sample.rewritten] true, .restart] ∧
      ∃ s, start.performAll Sample.env Sample.key
        [Sample.page Sample.session Sample.firstHead [Sample.rewritten] true, .restart] = some s ∧
        s.state.disputed = true := by
  have hvalues : (start.performAll Sample.env Sample.key
      [Sample.page Sample.session Sample.firstHead [Sample.rewritten] true, .restart]).any
      (fun s => s.state.disputed) = true := by
    decide +kernel
  refine ⟨verdicts_sound ⟨?_, fun _ _ => ⟨?_, fun _ _ => trivial⟩⟩, (Option.any_eq_true _ _).1 hvalues⟩
  · rintro session head messages saved haction - -
    obtain ⟨⟨rfl, rfl, rfl⟩, rfl⟩ := Action.poll.inj haction
    exact ⟨by decide, fun _ => rfl⟩
  · rintro session head messages saved haction
    cases haction

/-- An accusation whose save failed is gone after a restart. -/
theorem accusation_lost :
    ¬Sound Sample.env Sample.key
      [Sample.page Sample.session Sample.firstHead [Sample.rewritten] false, .restart] := by
  intro hsound
  have haccused : (start.perform Sample.env Sample.key
      (Sample.page Sample.session Sample.firstHead [Sample.rewritten] false)).any
      (fun s => s.state.disputed && decide ((s.performAll Sample.env Sample.key [.restart]).any
        (fun t => !t.state.disputed))) = true := by
    decide +kernel
  obtain ⟨t, ht, hvalues⟩ := (Option.any_eq_true _ _).1 haccused
  obtain ⟨hdisputed, hrestart⟩ := Bool.and_eq_true_iff.1 hvalues
  obtain ⟨u, hu, hcleared⟩ := (Option.any_eq_true _ _).1 (of_decide_eq_true hrestart)
  have hkept := hsound.kept [] _ [.restart] start t u (List.prefix_refl _) rfl ht rfl hdisputed
    (by simp) hu
  rw [hkept] at hcleared
  exact absurd hcleared (by decide)

end System
end Validator
end VerifiableExchange
