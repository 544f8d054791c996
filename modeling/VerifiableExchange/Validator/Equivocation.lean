import VerifiableExchange.Validator.Positions

/-!
# Equivocation — one chain for each number a validator signs

A validator signs the position it holds in memory. Two positions of one session and number carry one
chain exactly as far as the messages behind them are the same; and the sequencer, which signs every
head itself, can send a validator that left a session, or lost a save, down another history of it.
-/

namespace VerifiableExchange
namespace Validator

open Lib Matcher

/-! ## Messages that agree -/

/-- Two sequences carry the same bytes at every number they share. -/
def Agree (messages others : List RawMessage) : Prop :=
  ∀ m ∈ messages, ∀ other ∈ others, m.id = other.id → m.bytes = other.bytes

theorem Agree.symm {messages others : List RawMessage} (h : Agree messages others) :
    Agree others messages :=
  fun m hm other hother hid => (h other hother m hm hid.symm).symm

theorem Agree.append_right {messages others more : List RawMessage} (h : Agree messages others)
    (hmore : Agree messages more) : Agree messages (others ++ more) := by
  intro m hm other hother hid
  rcases List.mem_append.1 hother with hleft | hright
  · exact h m hm other hleft hid
  · exact hmore m hm other hright hid

theorem agree_self {messages : List RawMessage}
    (h : messages.map RawMessage.id = List.range' 1 messages.length) : Agree messages messages := by
  intro m hm other hother hid
  have hnodup : (messages.map RawMessage.id).Nodup := by
    rw [h]
    exact List.nodup_range'
  rw [List.inj_on_of_nodup_map hnodup hm hother hid]

/-- Sequences of one length that agree are hashed alike. -/
theorem Agree.map_bytes {messages others : List RawMessage} (h : Agree messages others)
    (hmessages : messages.map RawMessage.id = List.range' 1 messages.length)
    (hothers : others.map RawMessage.id = List.range' 1 others.length)
    (hlength : messages.length = others.length) :
    messages.map RawMessage.bytes = others.map RawMessage.bytes := by
  have hids : messages.map RawMessage.id = others.map RawMessage.id := by
    rw [hmessages, hothers, hlength]
  refine List.ext_getElem (by simpa using hlength) ?_
  intro i hleft hright
  rw [List.getElem_map, List.getElem_map]
  refine h _ (List.getElem_mem _) _ (List.getElem_mem _) ?_
  have hat := List.getElem_of_eq hids (by simpa using hleft)
  rwa [List.getElem_map, List.getElem_map] at hat

namespace System

variable {env : Primitives} {key : SigningKey} {s s' : System}

/-! ## What was followed -/

/-- No two attestations of one session and number carry different chains. -/
def Single (s : System) : Prop :=
  ∀ a ∈ s.signed, ∀ b ∈ s.signed, a.session = b.session → a.lastId = b.lastId → a.chain = b.chain

/-- Where a page that passes repeats a number that was followed in its session before, it carries the
bytes that were followed then; and its numbers end within 64 bits. -/
def Repeats (env : Primitives) (s : System) (action : Action) : Prop :=
  ∀ session head messages saved, action = .poll (.page (some session) (some head) messages) saved →
    s.state.disputed = false → s.state.Passes env session head messages →
      (∀ f ∈ s.followed, f.session = session → Agree messages f.messages) ∧
        (s.state.trust session head).cursor + messages.length ≤ u64Max

/-- The messages behind a position were followed, in its session. -/
def Known (followed : List Followed) (state : ValidatorState) (log : List RawMessage) : Prop :=
  log = [] ∨ ⟨state.session.getD "", log⟩ ∈ followed

/-- What was followed in one session is one history, and everything signed is a place in it. -/
structure OneHistory (env : Primitives) (s : System) : Prop where
  stands : s.Holds (ValidatorState.Stands env)
  known : s.Holds (Known s.followed)
  numbered : ∀ f ∈ s.followed, f.messages.map RawMessage.id = List.range' 1 f.messages.length
  agree : ∀ f ∈ s.followed, ∀ g ∈ s.followed, f.session = g.session → Agree f.messages g.messages
  signed : ∀ a ∈ s.signed, ∃ log, a.lastId = log.length ∧
    a.chain = Logchain.toHex (ValidatorState.extendedBy env MatcherState.emptyChain log) ∧
    (log = [] ∨ ⟨a.session, log⟩ ∈ s.followed)

/-- Then nothing signed contradicts anything else signed. -/
theorem OneHistory.single (h : s.OneHistory env) : s.Single := by
  intro a ha b hb hsession hlast
  obtain ⟨log, hlength, hchain, hlog⟩ := h.signed a ha
  obtain ⟨other, hlength', hchain', hother⟩ := h.signed b hb
  have hsame : log.length = other.length := hlength.symm.trans (hlast.trans hlength')
  suffices hbytes : log.map RawMessage.bytes = other.map RawMessage.bytes by
    rw [hchain, hchain', ValidatorState.extendedBy_congr hbytes]
  rcases hlog with rfl | hlog
  · rw [List.length_eq_zero_iff.1 hsame.symm]
  · rcases hother with rfl | hother
    · rw [List.length_eq_zero_iff.1 hsame]
    · exact (h.agree _ hlog _ hother hsession).map_bytes (h.numbered _ hlog) (h.numbered _ hother)
        hsame

/-! ## One step -/

/-- Only a page that passes adds to what was followed. -/
theorem followed_perform {action : Action} (h : s.perform env key action = some s') :
    s'.followed = s.followed ∨ ∃ session head messages saved,
      action = .poll (.page (some session) (some head) messages) saved ∧
        s.state.disputed = false ∧ s.state.Passes env session head messages ∧
        s'.followed = s.followed ++ [⟨session, s.state.baseIn session s.log ++ messages⟩] := by
  cases action with
  | poll answer saved =>
      cases h
      cases hdisputed : s.state.disputed with
      | true => exact .inl (by rw [poll_of_disputed hdisputed])
      | false =>
          obtain ⟨state, outcome, log, hreceived, rfl, hpoll⟩ :=
            poll_cases env s answer saved hdisputed
          rw [hpoll]
          cases hreceived with
          | unread => exact .inl rfl
          | refused => exact .inl rfl
          | caught => exact .inl rfl
          | verified session head messages hpasses =>
              refine .inr ⟨session, head, messages, saved, rfl, rfl, hpasses, ?_⟩
              have hsession : ((s.state.trust session head).advance head.lastId head.chain).session =
                  some session := ValidatorState.trust_session
              have hlog := @ValidatorState.kept_eq_baseIn s.state session s.log _ hsession
              have hname : ((s.state.trust session head).advance head.lastId
                  head.chain).session.getD "" = session := by
                rw [hsession, Option.getD_some]
              have hboth : ∀ name log, name = session → log = s.state.baseIn session s.log →
                  s.followed ++ [⟨name, log ++ messages⟩] =
                    s.followed ++ [⟨session, s.state.baseIn session s.log ++ messages⟩] := by
                rintro _ _ rfl rfl
                rfl
              exact hboth _ _ hname hlog
  | attest =>
      cases h
      exact .inl rfl
  | restart =>
      obtain ⟨state, -, rfl⟩ := perform_restart h
      exact .inl rfl
  | clearDispute =>
      cases h
      exact .inl rfl

/-- Only a reader makes the validator sign. -/
theorem signed_perform {action : Action} (h : s.perform env key action = some s') :
    s'.signed = s.signed ∨ s'.signed = s.signed ++ [s.state.attest key] := by
  cases action with
  | poll answer saved =>
      cases h
      refine .inl ?_
      cases hdisputed : s.state.disputed with
      | true => rw [poll_of_disputed hdisputed]
      | false =>
          obtain ⟨state, outcome, log, -, -, hpoll⟩ := poll_cases env s answer saved hdisputed
          rw [hpoll]
  | attest =>
      cases h
      exact .inr rfl
  | restart =>
      obtain ⟨state, -, rfl⟩ := perform_restart h
      exact .inl rfl
  | clearDispute =>
      cases h
      exact .inl rfl

theorem followed_subset {action : Action} (h : s.perform env key action = some s') :
    s.followed ⊆ s'.followed := by
  rcases followed_perform h with hsame | ⟨session, head, messages, saved, -, -, -, hnew⟩
  · rw [hsame]
    exact List.Subset.refl _
  · rw [hnew]
    exact List.subset_append_left _ _

theorem Known.mono {followed more : List Followed} {state : ValidatorState} {log : List RawMessage}
    (h : Known followed state log) (hmore : followed ⊆ more) : Known more state log :=
  h.imp_right fun hmem => hmore hmem

theorem Known.base (h : Known s.followed s.state s.log) (session : String) :
    s.state.baseIn session s.log = [] ∨
      ⟨session, s.state.baseIn session s.log⟩ ∈ s.followed := by
  unfold ValidatorState.baseIn
  split_ifs with hsession
  · refine h.imp_right fun hmem => ?_
    rwa [hsession] at hmem
  · exact .inl rfl

/-- A poll ends at messages that were followed. -/
theorem known_poll {answer : Answer} {saved : Bool} (h : Known s.followed s.state s.log)
    (hdisputed : s.state.disputed = false) :
    Known (s.poll env answer saved).followed (s.poll env answer saved).state
      (s.poll env answer saved).log := by
  have hkept : ∀ {session : String} {state : ValidatorState}, state.session = some session →
      Known s.followed state (if state.session = s.state.session then s.log else []) := by
    intro session state hsession
    rw [ValidatorState.kept_eq_baseIn hsession, Known, hsession]
    exact h.base session
  obtain ⟨state, outcome, log, hreceived, rfl, hpoll⟩ := poll_cases env s answer saved hdisputed
  rw [hpoll]
  cases hreceived with
  | unread _ why hnot =>
      have hlog : logAfter s.log s.state s.state.uncheckedOnce answer (.unchecked why) = s.log :=
        if_pos rfl
      dsimp only
      rw [hlog]
      exact h
  | refused => exact hkept ValidatorState.trust_session
  | caught => exact hkept ValidatorState.trust_session
  | verified => exact .inr (List.mem_append_right _ List.mem_cons_self)

theorem known_perform {action : Action} (h : s.Holds (Known s.followed))
    (hstands : s'.Holds (ValidatorState.Stands env))
    (hperform : s.perform env key action = some s') : s'.Holds (Known s'.followed) := by
  have hmore := followed_subset hperform
  refine h.perform hperform (fun _ _ hknown => hknown.mono hmore) ?_ ?_ ?_
  · rintro answer saved rfl hdisputed
    cases hperform
    exact known_poll h.memory hdisputed
  · intro state log opened hknown hopened
    rw [Known, openValidatorDb_session hopened]
    exact hknown
  · intro row log opened hknown hopened
    obtain ⟨state, hstate, hsession, -⟩ := openValidatorDb_clear hopened
    rw [Known, hsession]
    exact hknown state hstate

/-- A step keeps one history for each session. -/
theorem OneHistory.perform {action : Action} (h : s.OneHistory env) (hrepeats : s.Repeats env action)
    (hperform : s.perform env key action = some s') : s'.OneHistory env := by
  have hfits : s.Fits env action := fun session head messages saved haction hdisputed hpasses =>
    (hrepeats session head messages saved haction hdisputed hpasses).2
  have hstands := h.stands.stands hfits hperform
  have hmore := followed_subset hperform
  have hsigned : ∀ a ∈ s'.signed, ∃ log, a.lastId = log.length ∧
      a.chain = Logchain.toHex (ValidatorState.extendedBy env MatcherState.emptyChain log) ∧
      (log = [] ∨ ⟨a.session, log⟩ ∈ s'.followed) := by
    intro a ha
    have hbefore : a ∈ s.signed ∨ a = s.state.attest key := by
      rcases signed_perform hperform with hsame | hnew
      · exact .inl (hsame ▸ ha)
      · rw [hnew, List.mem_append, List.mem_singleton] at ha
        exact ha
    rcases hbefore with ha | rfl
    · obtain ⟨log, hlast, hchain, hlog⟩ := h.signed a ha
      exact ⟨log, hlast, hchain, hlog.imp_right fun hmem => hmore hmem⟩
    · have hmemory := h.stands.memory
      exact ⟨s.log, hmemory.cursor, congrArg Logchain.toHex hmemory.chain,
        h.known.memory.imp_right fun hmem => hmore hmem⟩
  refine ⟨hstands, known_perform h.known hstands hperform, ?_, ?_, hsigned⟩
  all_goals
    rcases followed_perform hperform with hsame | ⟨session, head, messages, saved, rfl, hdisputed,
      hpasses, hnew⟩
  · rw [hsame]
    exact h.numbered
  · rw [hnew]
    intro f hf
    rcases List.mem_append.1 hf with hf | hf
    · exact h.numbered f hf
    · rw [List.mem_singleton.1 hf]
      exact (h.stands.memory.extend hpasses.toCovered (hrepeats session head messages saved rfl hdisputed
        hpasses).2).1
  · rw [hsame]
    exact h.agree
  · rw [hnew]
    obtain ⟨hsame, hbound⟩ := hrepeats session head messages saved rfl hdisputed hpasses
    have hnumbered := (h.stands.memory.extend hpasses.toCovered hbound).1
    -- What is new agrees with all that was followed before it in the session.
    have hagree : ∀ f ∈ s.followed, f.session = session →
        Agree f.messages (s.state.baseIn session s.log ++ messages) := by
      intro f hf hsession
      refine Agree.append_right ?_ (hsame f hf hsession).symm
      rcases h.known.memory.base session with hbase | hbase
      · rw [hbase]
        exact fun m _ other hother => absurd hother List.not_mem_nil
      · exact h.agree f hf _ hbase hsession
    intro f hf g hg hsession
    rcases List.mem_append.1 hf with hf | hf
    · rcases List.mem_append.1 hg with hg | hg
      · exact h.agree f hf g hg hsession
      · rw [List.mem_singleton.1 hg] at hsession ⊢
        exact hagree f hf hsession
    · rw [List.mem_singleton.1 hf] at hsession ⊢
      rcases List.mem_append.1 hg with hg | hg
      · exact (hagree g hg hsession.symm).symm
      · rw [List.mem_singleton.1 hg]
        exact agree_self hnumbered

theorem oneHistory_start (env : Primitives) : start.OneHistory env where
  stands := holds_start env
  known := ⟨.inl rfl, fun _ _ => .inl rfl⟩
  numbered := fun _ hf => absurd hf List.not_mem_nil
  agree := fun _ hf => absurd hf List.not_mem_nil
  signed := fun _ ha => absurd ha List.not_mem_nil

/-- A validator that is shown no second version of a message it followed never contradicts itself,
whatever sessions it is led through, whatever saves fail and whenever it is restarted. -/
theorem never_equivocates {actions : List Action}
    (h : start.Meets env key (Repeats env) actions)
    (hrun : start.performAll env key actions = some s) : s.Single := by
  have hhistory : s.OneHistory env :=
    h.induction hrun (oneHistory_start env)
      fun _ _ _ hgood hrepeats _ hperform => hgood.perform hrepeats hperform
  exact hhistory.single

theorem never_equivocates_sample :
    ∃ s, start.performAll Sample.env Sample.key Sample.actions = some s ∧ s.signed.length = 2 ∧
      s.Single := by
  have hvalues : (start.performAll Sample.env Sample.key Sample.actions).any
      (fun s => s.signed.length = 2) = true := by
    decide +kernel
  obtain ⟨s, hs, hlength⟩ := (Option.any_eq_true _ _).1 hvalues
  refine ⟨s, hs, of_decide_eq_true hlength,
    @never_equivocates Sample.env Sample.key s Sample.actions ?_ hs⟩
  have hidle : ∀ {t : System} {action : Action}, (∀ answer saved, action ≠ .poll answer saved) →
      t.Repeats Sample.env action := by
    intro t action hne session head messages saved haction
    exact absurd haction (hne _ _)
  refine ⟨?_, fun _ _ => ⟨hidle (by simp), fun _ _ => ⟨hidle (by simp), fun _ _ =>
    ⟨hidle (by simp), fun _ _ => trivial⟩⟩⟩⟩
  rintro session head messages saved haction - -
  obtain ⟨⟨rfl, rfl, rfl⟩, rfl⟩ := Action.poll.inj haction
  exact ⟨fun f hf => absurd hf List.not_mem_nil, by decide⟩

theorem not_single {s : System}
    (h : s.signed.any (fun a => s.signed.any (fun b =>
      a.lastId = b.lastId ∧ a.chain ≠ b.chain ∧ a.session = b.session)) = true) : ¬s.Single := by
  obtain ⟨a, ha, hany⟩ := List.any_eq_true.1 h
  obtain ⟨b, hb, hdiffer⟩ := List.any_eq_true.1 hany
  obtain ⟨hlast, hchain, hsession⟩ := of_decide_eq_true hdiffer
  exact fun hsingle => hchain (hsingle a ha b hb hsession hlast)

/-- Led into another session and back, or restarted after a save that failed, a validator follows a
second history under the name of the first, and has then signed two chains for one number. -/
theorem equivocates :
    (∃ s, start.performAll Sample.env Sample.key
        [Sample.page Sample.session Sample.firstHead [Sample.first] true, .attest,
          Sample.page Sample.otherSession Sample.otherHead [] true,
          Sample.page Sample.session Sample.rewrittenHead [Sample.rewritten] true, .attest] = some s ∧
      ¬s.Single) ∧
    ∃ s, start.performAll Sample.env Sample.key
        [Sample.page Sample.session Sample.firstHead [Sample.first] false, .attest, .restart,
          Sample.page Sample.session Sample.rewrittenHead [Sample.rewritten] true, .attest] = some s ∧
      ¬s.Single := by
  have hswitched : (start.performAll Sample.env Sample.key
      [Sample.page Sample.session Sample.firstHead [Sample.first] true, .attest,
        Sample.page Sample.otherSession Sample.otherHead [] true,
        Sample.page Sample.session Sample.rewrittenHead [Sample.rewritten] true, .attest]).any
      (fun s => s.signed.any (fun a => s.signed.any (fun b =>
        a.lastId = b.lastId ∧ a.chain ≠ b.chain ∧ a.session = b.session))) = true := by
    decide +kernel
  have hunsaved : (start.performAll Sample.env Sample.key
      [Sample.page Sample.session Sample.firstHead [Sample.first] false, .attest, .restart,
        Sample.page Sample.session Sample.rewrittenHead [Sample.rewritten] true, .attest]).any
      (fun s => s.signed.any (fun a => s.signed.any (fun b =>
        a.lastId = b.lastId ∧ a.chain ≠ b.chain ∧ a.session = b.session))) = true := by
    decide +kernel
  obtain ⟨s, hs, hsigned⟩ := (Option.any_eq_true _ _).1 hswitched
  obtain ⟨t, ht, htsigned⟩ := (Option.any_eq_true _ _).1 hunsaved
  exact ⟨⟨s, hs, not_single hsigned⟩, t, ht, not_single htsigned⟩

end System
end Validator
end VerifiableExchange
