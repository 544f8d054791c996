import VerifiableExchange.Validator.State

/-!
# Positions — what a validator's cursor stands on

An answer is refused before its head counts, refused after it, caught, or verified; and only a head
signed by the pinned key changes anything but the count of unchecked polls. The position in memory
and the one on disk are therefore each the fold of messages that were received, numbered from 1.
-/

namespace VerifiableExchange

open Lib Validator Matcher Matcher.Validators
open Poller (SignedHead verifyHead)

namespace ValidatorState

variable {env : Primitives} {s : ValidatorState} {session : String} {head : SignedHead}
  {messages : List RawMessage}

/-! ## What a page has to pass -/

/-- The head is signed by the pinned key, or by the first key to verify. -/
structure Vouched (env : Primitives) (s : ValidatorState) (session : String) (head : SignedHead) :
    Prop where
  pinned : ∀ key ∈ s.feedPubkey, key = head.publicKey
  signed : verifyHead env session head = true

/-- The messages continue the cursor one by one, and such a head stands at the last of them. -/
structure Covered (env : Primitives) (s : ValidatorState) (session : String) (head : SignedHead)
    (messages : List RawMessage) : Prop extends Vouched env s session head where
  numbered : firstGap (saturatingAddU64 (s.trust session head).cursor 1) messages = none
  stands : head.lastId = servedTo (s.trust session head).cursor messages

/-- The messages also produce the chain the head signs. -/
structure Passes (env : Primitives) (s : ValidatorState) (session : String) (head : SignedHead)
    (messages : List RawMessage) : Prop extends Covered env s session head messages where
  produced : extendedBy env (s.trust session head).chain messages = head.chain

/-- Everything an answer can do to the state. -/
inductive Received (env : Primitives) (s : ValidatorState) :
    Answer → ValidatorState → Ingest → Prop where
  | unread (answer : Answer) (why : Unchecked)
      (h : ∀ session head messages, answer = .page (some session) (some head) messages →
        ¬Vouched env s session head) :
      Received env s answer s.uncheckedOnce (.unchecked why)
  | refused (session : String) (head : SignedHead) (messages : List RawMessage) (why : Unchecked)
      (h : Vouched env s session head) (hnot : ¬Covered env s session head messages) :
      Received env s (.page (some session) (some head) messages)
        (s.trust session head).uncheckedOnce (.unchecked why)
  | caught (session : String) (head : SignedHead) (messages : List RawMessage) (reason : String)
      (h : Covered env s session head messages)
      (hchain : extendedBy env (s.trust session head).chain messages ≠ head.chain) :
      Received env s (.page (some session) (some head) messages)
        ((s.trust session head).accuse reason) .disputed
  | verified (session : String) (head : SignedHead) (messages : List RawMessage)
      (h : Passes env s session head messages) :
      Received env s (.page (some session) (some head) messages)
        ((s.trust session head).advance head.lastId head.chain) (.verified head.lastId)

theorem received_page (env : Primitives) (s : ValidatorState) (session : String)
    (head : SignedHead) (messages : List RawMessage) :
    Received env s (.page (some session) (some head) messages)
      (s.ingest env (some session) (some head) messages).1
      (s.ingest env (some session) (some head) messages).2 := by
  -- A page whose head does not count changes no more than one that cannot be read.
  have hunread : ∀ why, ¬Vouched env s session head →
      Received env s (.page (some session) (some head) messages) s.uncheckedOnce
        (.unchecked why) := by
    intro why hnot
    refine .unread _ why ?_
    rintro _ _ _ ⟨rfl, rfl, rfl⟩
    exact hnot
  unfold ingest
  dsimp only
  split
  case h_1 pinned hpinned =>
    refine hunread _ fun hvouched => ?_
    obtain ⟨hkey, hne⟩ := Option.filter_eq_some_iff.1 hpinned
    exact absurd (hvouched.pinned pinned hkey) (of_decide_eq_true hne)
  case h_2 hpinned =>
    by_cases hsigned : verifyHead env session head = true
    case neg =>
      rw [if_pos hsigned]
      exact hunread _ fun hvouched => hsigned hvouched.signed
    case pos =>
      rw [if_neg (not_not_intro hsigned)]
      have hvouched : Vouched env s session head := by
        refine ⟨fun key hkey => ?_, hsigned⟩
        simpa using Option.filter_eq_none_iff.1 hpinned key hkey
      split
      case h_1 expected got hgap =>
        refine .refused _ _ _ _ hvouched fun hcovered => ?_
        rw [hcovered.numbered] at hgap
        cases hgap
      case h_2 hgap =>
        split_ifs with hstands hchain
        · exact .refused _ _ _ _ hvouched fun hcovered => hstands hcovered.stands
        · exact .caught _ _ _ _ ⟨hvouched, hgap, not_not.1 hstands⟩ hchain
        · have hpasses : Passes env s session head messages :=
            ⟨⟨hvouched, hgap, not_not.1 hstands⟩, not_not.1 hchain⟩
          rw [hpasses.produced, ← hpasses.stands]
          exact .verified _ _ _ hpasses

/-- Every answer does one of these things. -/
theorem received (env : Primitives) (s : ValidatorState) (answer : Answer) :
    Received env s answer (s.receive env answer).1 (s.receive env answer).2 := by
  match answer with
  | .silent => exact .unread _ _ fun _ _ _ h => by cases h
  | .unreadable _ => exact .unread _ _ fun _ _ _ h => by cases h
  | .page none _ _ => exact .unread _ _ fun _ _ _ h => by cases h
  | .page (some _) none _ => exact .unread _ _ fun _ _ _ h => by cases h
  | .page (some session) (some head) messages => exact received_page env s session head messages

/-! ## What a head that counts changes -/

@[simp] theorem trust_session : (s.trust session head).session = some session := by
  unfold trust enter
  split_ifs with hsession
  · rfl
  · exact not_not.1 hsession

theorem trust_feedPubkey (h : Vouched env s session head) :
    (s.trust session head).feedPubkey = some head.publicKey := by
  have hpin : (s.pin head.publicKey).feedPubkey = some head.publicKey := by
    unfold pin
    cases hkey : s.feedPubkey with
    | none => rfl
    | some key =>
        rw [if_neg (by simp), hkey, h.pinned key hkey]
  unfold trust enter
  split_ifs with hsession
  · exact hpin
  · exact hpin

@[simp] theorem pin_session {key : String} : (s.pin key).session = s.session := by
  unfold pin
  split_ifs with hkey <;> rfl

@[simp] theorem pin_cursor {key : String} : (s.pin key).cursor = s.cursor := by
  unfold pin
  split_ifs with hkey <;> rfl

@[simp] theorem pin_chain {key : String} : (s.pin key).chain = s.chain := by
  unfold pin
  split_ifs with hkey <;> rfl

@[simp] theorem pin_disputed {key : String} : (s.pin key).disputed = s.disputed := by
  unfold pin
  split_ifs with hkey <;> rfl

@[simp] theorem pin_uncheckedPolls {key : String} :
    (s.pin key).uncheckedPolls = s.uncheckedPolls := by
  unfold pin
  split_ifs with hkey <;> rfl

/-- In the session it follows, a validator keeps its position. -/
theorem trust_of_session (h : s.session = some session) :
    s.trust session head = s.pin head.publicKey := by
  unfold trust enter
  rw [if_neg (by rw [pin_session]; exact not_not_intro h)]

/-- In any other, it starts from the first message. -/
theorem trust_of_ne (h : s.session ≠ some session) :
    (s.trust session head).cursor = 0 ∧ (s.trust session head).chain = MatcherState.emptyChain := by
  unfold trust enter
  rw [if_pos (by rwa [pin_session])]
  exact ⟨rfl, rfl⟩

theorem trust_disputed : (s.trust session head).disputed = s.disputed := by
  unfold trust enter
  split_ifs with hsession <;> simp

/-! ## Numbers -/

theorem map_id_of_firstGap {cursor : Nat}
    (h : firstGap (saturatingAddU64 cursor 1) messages = none)
    (hfits : cursor + messages.length ≤ u64Max) :
    messages.map RawMessage.id = List.range' (cursor + 1) messages.length := by
  induction messages generalizing cursor with
  | nil => rfl
  | cons m rest ih =>
      rw [List.length_cons] at hfits
      have hnext : saturatingAddU64 cursor 1 = cursor + 1 := min_eq_left (by omega)
      rw [firstGap, hnext] at h
      split_ifs at h with hid
      rw [List.map_cons, List.length_cons, List.range'_succ, not_not.1 hid,
        ih h (by omega)]

theorem servedTo_eq {cursor : Nat}
    (h : messages.map RawMessage.id = List.range' (cursor + 1) messages.length) :
    servedTo cursor messages = cursor + messages.length := by
  rw [servedTo, ← List.getLast?_map, h]
  rcases hlength : messages.length with _ | n
  · rfl
  · rw [List.getLast?_range', if_neg (by omega), Option.getD_some]
    have hlast : ∀ a b : Nat, a + 1 + (b + 1) - 1 = a + (b + 1) := by omega
    exact hlast cursor n

@[simp] theorem extendedBy_append {chain : Bytes} {more : List RawMessage} :
    extendedBy env chain (messages ++ more) = extendedBy env (extendedBy env chain messages) more :=
  List.foldl_append

/-- Only the bytes are hashed. -/
theorem extendedBy_congr {others : List RawMessage} {chain : Bytes}
    (h : messages.map RawMessage.bytes = others.map RawMessage.bytes) :
    extendedBy env chain messages = extendedBy env chain others := by
  have hbytes : ∀ l : List RawMessage, extendedBy env chain l =
      (l.map RawMessage.bytes).foldl (fun chain bytes => env.sha256 (chain ++ bytes)) chain :=
    fun l => by rw [List.foldl_map]; rfl
  rw [hbytes, hbytes, h]

/-! ## A position -/

/-- A verified head of this session stands exactly here, under this key. -/
def HeadAt (env : Primitives) (session feedPubkey : Option String) (lastId : OrderId)
    (chain : Bytes) : Prop :=
  ∃ name head, session = some name ∧ feedPubkey = some head.publicKey ∧
    verifyHead env name head = true ∧ head.lastId = lastId ∧ head.chain = chain

/-- The state stands at the end of these messages. -/
structure Stands (env : Primitives) (s : ValidatorState) (log : List RawMessage) : Prop where
  numbered : log.map RawMessage.id = List.range' 1 log.length
  fits : log.length ≤ u64Max
  cursor : s.cursor = log.length
  chain : s.chain = extendedBy env MatcherState.emptyChain log
  head : log ≠ [] → HeadAt env s.session s.feedPubkey log.length s.chain
  counted : s.uncheckedPolls ≤ u32Max

/-- The messages a page of this session is counted on from. -/
def baseIn (s : ValidatorState) (session : String) (log : List RawMessage) : List RawMessage :=
  if s.session = some session then log else []

theorem Stands.trust {log : List RawMessage} (h : Stands env s log) :
    Stands env (s.trust session head) (s.baseIn session log) := by
  unfold baseIn
  split_ifs with hsession
  · rw [trust_of_session hsession]
    refine ⟨h.numbered, h.fits, by rw [pin_cursor, h.cursor], by rw [pin_chain, h.chain], ?_,
      by rw [pin_uncheckedPolls]; exact h.counted⟩
    intro hne
    obtain ⟨other, head', hother, hkey, hsigned, hlast, hchain⟩ := h.head hne
    refine ⟨other, head', by rw [pin_session, hother], ?_, hsigned, hlast, by rw [hchain, pin_chain]⟩
    rw [pin, if_neg (by simp [hkey]), hkey]
  · obtain ⟨hcursor, hchain⟩ := @trust_of_ne s session head hsession
    refine ⟨rfl, Nat.zero_le _, hcursor, hchain, fun hne => absurd rfl hne, ?_⟩
    unfold ValidatorState.trust enter
    rw [if_pos (by rwa [pin_session])]
    exact Nat.zero_le _

/-- What a page that passes adds to the messages behind the position. -/
theorem Stands.extend {log : List RawMessage} (h : Stands env s log)
    (hcovered : Covered env s session head messages)
    (hfits : (s.trust session head).cursor + messages.length ≤ u64Max) :
    (s.baseIn session log ++ messages).map RawMessage.id =
        List.range' 1 (s.baseIn session log ++ messages).length ∧
      head.lastId = (s.baseIn session log ++ messages).length ∧
      extendedBy env (s.trust session head).chain messages =
        extendedBy env MatcherState.emptyChain (s.baseIn session log ++ messages) := by
  have hbase : Stands env (s.trust session head) (s.baseIn session log) := h.trust
  have hcursor := hbase.cursor
  have hids := map_id_of_firstGap hcovered.numbered hfits
  refine ⟨?_, ?_, ?_⟩
  · rw [List.map_append, hbase.numbered, hids, hcursor, List.length_append, Nat.add_comm _ 1,
      List.range'_append_1]
  · rw [hcovered.stands, servedTo_eq hids, hcursor, List.length_append]
  · rw [hbase.chain, extendedBy_append]

/-- The messages kept by a page whose head counts. -/
theorem kept_eq_baseIn {log : List RawMessage} {s' : ValidatorState}
    (h : s'.session = some session) :
    (if s'.session = s.session then log else []) = s.baseIn session log := by
  unfold baseIn
  rw [h]
  exact if_congr eq_comm rfl rfl

/-- An answer leaves the state standing on messages that were received. -/
theorem Stands.receive {log : List RawMessage} {answer : Answer} {s' : ValidatorState}
    {outcome : Ingest} (h : Stands env s log) (hreceived : Received env s answer s' outcome)
    (hfits : ∀ session head messages, answer = .page (some session) (some head) messages →
      Passes env s session head messages →
      (s.trust session head).cursor + messages.length ≤ u64Max) :
    Stands env s' (System.logAfter log s s' answer outcome) := by
  have hcount : ∀ {t : ValidatorState} {l : List RawMessage}, Stands env t l →
      Stands env t.uncheckedOnce l := fun ht =>
    ⟨ht.numbered, ht.fits, ht.cursor, ht.chain, ht.head, min_le_right _ _⟩
  cases hreceived with
  | unread _ why hnot =>
      have hlog : System.logAfter log s s.uncheckedOnce answer (.unchecked why) = log := if_pos rfl
      rw [hlog]
      exact hcount h
  | refused session head messages why hvouched hnot =>
      have hlog : System.logAfter log s (s.trust session head).uncheckedOnce
          (.page (some session) (some head) messages) (.unchecked why) = s.baseIn session log :=
        kept_eq_baseIn trust_session
      rw [hlog]
      exact hcount h.trust
  | caught session head messages reason hcovered hchain =>
      have hlog : System.logAfter log s ((s.trust session head).accuse reason)
          (.page (some session) (some head) messages) .disputed = s.baseIn session log :=
        kept_eq_baseIn trust_session
      rw [hlog]
      have hbase := @Stands.trust env s session head log h
      exact ⟨hbase.numbered, hbase.fits, hbase.cursor, hbase.chain, hbase.head, hbase.counted⟩
  | verified session head messages hpasses =>
      have hlog : System.logAfter log s ((s.trust session head).advance head.lastId head.chain)
          (.page (some session) (some head) messages) (.verified head.lastId) =
            s.baseIn session log ++ messages :=
        congrArg (· ++ messages) (kept_eq_baseIn trust_session)
      have hbound := hfits session head messages rfl hpasses
      obtain ⟨hnumbered, hlast, hfold⟩ := h.extend hpasses.toCovered hbound
      have hbase := @Stands.trust env s session head log h
      rw [hlog]
      refine ⟨hnumbered, ?_, hlast, hpasses.produced.symm.trans hfold, fun _ => ?_, Nat.zero_le _⟩
      · rw [List.length_append, ← hbase.cursor]
        exact hbound
      · exact ⟨session, head, trust_session, trust_feedPubkey hpasses.toVouched, hpasses.signed,
          hlast, rfl⟩

end ValidatorState

namespace Validator

/-! ## The database -/

/-- A saved position is opened as it was. -/
theorem openValidatorDb_save {s t : ValidatorState} (hcursor : s.cursor ≤ u64Max)
    (hcount : s.uncheckedPolls ≤ u32Max) (h : openValidatorDb (some (save s)) = .ok t) : t = s := by
  have hnumber : Store.asU64 (Store.asI64 s.cursor) = s.cursor := by
    unfold u64Max at hcursor
    unfold Store.asU64 Store.asI64
    have hcast : ∀ n : Nat, n ≤ 18446744073709551615 →
        ((((n : Int) + 9223372036854775808) % 18446744073709551616 - 9223372036854775808) %
          18446744073709551616).toNat = n := by
      omega
    exact hcast s.cursor hcursor
  have hpolls : (max (s.uncheckedPolls : Int) 0).toNat % (u32Max + 1) = s.uncheckedPolls := by
    unfold u32Max at hcount ⊢
    omega
  have hflag : decide ((if s.disputed then (1 : Int) else 0) ≠ 0) = s.disputed := by
    cases s.disputed <;> rfl
  rw [openValidatorDb] at h
  split_ifs at h with hlength
  have hopen := (Except.ok.inj h).symm
  change t = ⟨s.session, s.feedPubkey, Store.asU64 (Store.asI64 s.cursor), s.chain,
    decide ((if s.disputed then (1 : Int) else 0) ≠ 0), s.disputeReason,
    (max (s.uncheckedPolls : Int) 0).toNat % (u32Max + 1)⟩ at hopen
  rw [hopen, hnumber, hpolls, hflag]

theorem openValidatorDb_session {s t : ValidatorState}
    (h : openValidatorDb (some (save s)) = .ok t) : t.session = s.session := by
  rw [openValidatorDb] at h
  split_ifs at h with hlength
  cases h
  rfl

/-- What the operator changes in the row is no part of the position. -/
theorem openValidatorDb_clear {row : Row} {t : ValidatorState}
    (h : openValidatorDb (some (clearDispute row)) = .ok t) :
    ∃ s, openValidatorDb (some row) = .ok s ∧ t.session = s.session ∧
      t.feedPubkey = s.feedPubkey ∧ t.cursor = s.cursor ∧ t.chain = s.chain ∧
      t.uncheckedPolls ≤ s.uncheckedPolls ∧ (t.disputed = true → s.disputed = true) := by
  unfold clearDispute at h
  split_ifs at h with hdisputed
  · rw [openValidatorDb] at h ⊢
    split_ifs at h with hlength
    rw [if_neg hlength]
    cases h
    exact ⟨_, rfl, rfl, rfl, rfl, rfl, Nat.zero_le _, fun hfalse => absurd hfalse (by simp)⟩
  · exact ⟨t, h, rfl, rfl, rfl, rfl, le_rfl, id⟩

/-! ## Positions in memory and on disk -/

namespace System

variable {env : Primitives} {key : SigningKey} {s s' : System}

/-- What holds of the position in memory with its messages, and of the one a restart would open. -/
structure Holds (Good : ValidatorState → List RawMessage → Prop) (s : System) : Prop where
  memory : Good s.state s.log
  stored : ∀ state, openValidatorDb s.disk = .ok state → Good state s.diskLog

theorem poll_of_disputed {answer : Answer} {saved : Bool} (h : s.state.disputed = true) :
    s.poll env answer saved = s := if_pos h

/-- What a validator that is not disputed holds after a poll, and whether the answer was verified. -/
theorem poll_cases (env : Primitives) (s : System) (answer : Answer) (saved : Bool)
    (h : s.state.disputed = false) :
    ∃ state outcome log, ValidatorState.Received env s.state answer state outcome ∧
      log = logAfter s.log s.state state answer outcome ∧
      s.poll env answer saved =
        { s with
          state := state
          disk := if saved then some (save state) else s.disk
          log := log
          diskLog := if saved then log else s.diskLog
          followed :=
            match outcome with
            | .verified _ => s.followed ++ [⟨state.session.getD "", log⟩]
            | _ => s.followed } :=
  ⟨_, _, _, ValidatorState.received env s.state answer, rfl, if_neg (by rw [h]; decide)⟩

theorem perform_restart (h : s.perform env key .restart = some s') :
    ∃ state, openValidatorDb s.disk = .ok state ∧ s' = { s with state := state, log := s.diskLog } := by
  rw [perform] at h
  cases hopened : openValidatorDb s.disk with
  | error reason =>
      rw [hopened] at h
      cases h
  | ok state =>
      rw [hopened] at h
      cases h
      exact ⟨state, rfl, rfl⟩

/-- What each action needs of a predicate on positions, for it to hold of memory and disk: an answer
keeps it, and so do a save that is opened again and the operator's edit. -/
theorem Holds.perform {Good Good' : ValidatorState → List RawMessage → Prop} {action : Action}
    (h : s.Holds Good) (hperform : s.perform env key action = some s')
    (hkeep : ∀ state log, Good state log → Good' state log)
    (hpolled : ∀ answer saved, action = .poll answer saved → s.state.disputed = false →
      Good' (s.poll env answer saved).state (s.poll env answer saved).log)
    (hsave : ∀ state log opened, Good' state log → openValidatorDb (some (save state)) = .ok opened →
      Good' opened log)
    (hclear : ∀ row log opened, (∀ state, openValidatorDb (some row) = .ok state → Good' state log) →
      openValidatorDb (some (Validator.clearDispute row)) = .ok opened → Good' opened log) :
    s'.Holds Good' := by
  have hkept : s.Holds Good' := ⟨hkeep _ _ h.memory, fun state ht => hkeep _ _ (h.stored state ht)⟩
  cases action with
  | poll answer saved =>
      cases hperform
      cases hdisputed : s.state.disputed with
      | true => rwa [poll_of_disputed hdisputed]
      | false =>
          have hmemory := hpolled answer saved rfl hdisputed
          obtain ⟨state, outcome, log, -, -, hpoll⟩ := poll_cases env s answer saved hdisputed
          rw [hpoll] at hmemory ⊢
          refine ⟨hmemory, ?_⟩
          intro opened hopened
          cases saved with
          | true => exact hsave state log opened hmemory hopened
          | false => exact hkept.stored opened hopened
  | attest =>
      cases hperform
      exact ⟨hkept.memory, hkept.stored⟩
  | restart =>
      obtain ⟨state, hopened, rfl⟩ := perform_restart hperform
      exact ⟨hkept.stored state hopened, hkept.stored⟩
  | clearDispute =>
      cases hperform
      refine ⟨hkept.memory, ?_⟩
      intro opened hopened
      cases hdisk : s.disk with
      | none =>
          rw [hdisk] at hopened
          exact hkept.stored opened (by rw [hdisk]; exact hopened)
      | some row =>
          rw [hdisk] at hopened
          exact hclear row s.diskLog opened
            (fun state hstate => hkept.stored state (by rw [hdisk]; exact hstate)) hopened

/-! ## Runs -/

/-- Every step of a run meets this condition. -/
def Meets (env : Primitives) (key : SigningKey) (condition : System → Action → Prop) (s : System) :
    List Action → Prop
  | [] => True
  | action :: rest =>
      condition s action ∧ ∀ t, s.perform env key action = some t → Meets env key condition t rest

theorem performAll_append {before after : List Action} :
    s.performAll env key (before ++ after) =
      (s.performAll env key before).bind (fun t => t.performAll env key after) :=
  List.foldlM_append

theorem performAll_concat {actions : List Action} {action : Action} {t : System}
    (h : s.performAll env key (actions ++ [action]) = some t) :
    ∃ m, s.performAll env key actions = some m ∧ m.perform env key action = some t := by
  rw [performAll_append] at h
  obtain ⟨m, hm, hstep⟩ := Option.bind_eq_some_iff.1 h
  refine ⟨m, hm, ?_⟩
  rw [performAll, List.foldlM_cons] at hstep
  obtain ⟨t', ht', hend⟩ := Option.bind_eq_some_iff.1 hstep
  cases hend
  exact ht'

theorem Meets.append {condition : System → Action → Prop} {before after : List Action}
    (h : s.Meets env key condition (before ++ after)) :
    s.Meets env key condition before ∧
      ∀ t, s.performAll env key before = some t → t.Meets env key condition after := by
  induction before generalizing s with
  | nil =>
      refine ⟨trivial, fun t ht => ?_⟩
      cases ht
      exact h
  | cons action rest ih =>
      obtain ⟨hcondition, hrest⟩ := h
      refine ⟨⟨hcondition, fun t ht => (ih (hrest t ht)).1⟩, fun t ht => ?_⟩
      rw [performAll, List.foldlM_cons] at ht
      obtain ⟨m, hm, hend⟩ := Option.bind_eq_some_iff.1 ht
      exact (ih (hrest m hm)).2 t hend

/-- What every step preserves holds after a run whose steps all meet the condition. -/
theorem Meets.induction {condition : System → Action → Prop} {Good : System → Prop}
    {actions : List Action} {t : System} (h : s.Meets env key condition actions)
    (hrun : s.performAll env key actions = some t) (hstart : Good s)
    (hstep : ∀ s action s', Good s → condition s action → action ∈ actions →
      s.perform env key action = some s' → Good s') : Good t := by
  induction actions generalizing s with
  | nil =>
      cases hrun
      exact hstart
  | cons action rest ih =>
      rw [performAll, List.foldlM_cons] at hrun
      obtain ⟨m, hm, hend⟩ := Option.bind_eq_some_iff.1 hrun
      refine ih (h.2 m hm) hend (hstep s action m hstart h.1 List.mem_cons_self hm) ?_
      intro s action s' hgood hcondition hmem
      exact hstep s action s' hgood hcondition (List.mem_cons_of_mem _ hmem)

/-- The pages that pass number their messages within 64 bits. -/
def Fits (env : Primitives) (s : System) (action : Action) : Prop :=
  ∀ session head messages saved, action = .poll (.page (some session) (some head) messages) saved →
    s.state.disputed = false → s.state.Passes env session head messages →
      (s.state.trust session head).cursor + messages.length ≤ u64Max

theorem holds_start (env : Primitives) : start.Holds (ValidatorState.Stands env) := by
  have hstands : ValidatorState.Stands env start.state [] :=
    ⟨rfl, Nat.zero_le _, rfl, rfl, fun hne => absurd rfl hne, Nat.zero_le _⟩
  refine ⟨hstands, fun state hstate => ?_⟩
  cases hstate
  exact hstands

/-- The positions in memory and on disk keep standing on messages that were received. -/
theorem Holds.stands {action : Action} (h : s.Holds (ValidatorState.Stands env))
    (hfits : s.Fits env action) (hperform : s.perform env key action = some s') :
    s'.Holds (ValidatorState.Stands env) := by
  refine h.perform hperform (fun _ _ => id) ?_ ?_ ?_
  · rintro answer saved rfl hdisputed
    obtain ⟨state, outcome, log, hreceived, rfl, hpoll⟩ := poll_cases env s answer saved hdisputed
    rw [hpoll]
    refine h.memory.receive hreceived ?_
    rintro session head messages rfl hpasses
    exact hfits session head messages saved rfl hdisputed hpasses
  · intro state log opened hstands hopened
    have hcursor : state.cursor ≤ u64Max := hstands.cursor ▸ hstands.fits
    rw [openValidatorDb_save hcursor hstands.counted hopened]
    exact hstands
  · intro row log opened hstands hopened
    obtain ⟨state, hstate, hsession, hkey, hcursor, hchain, hcount, -⟩ :=
      openValidatorDb_clear hopened
    have hbefore := hstands state hstate
    refine ⟨hbefore.numbered, hbefore.fits, hcursor.trans hbefore.cursor,
      hchain.trans hbefore.chain, ?_, hcount.trans hbefore.counted⟩
    rw [hsession, hkey, hchain]
    exact hbefore.head

end System

/-! ## Values from two histories

The sequencer of one session signs a head over either of two first messages, and one over another
session that has none. -/

namespace Sample

open MatcherState.Sample (ascii hex)

def session : String := "5f0c2a7e91b34d6688aa10c3e2f4b7d9"

def otherSession : String := "c81e728d9d4c2f636f067f89cc14862c"

def feedKey : String := "d75a980182b10ab7d54bfed3c964073a0ee172f3daa62325af021a68f707511a"

def first : RawMessage where
  id := 1
  bytes := ascii "\x7b\"New\":\x7b\"id\":1,\"timestamp\":1001,\"account\":1,\"symbol\":\"ETH-USDC\"," ++
    ascii "\"side\":\"Sell\",\"price\":101.0,\"quantity\":2.0\x7d\x7d"

/-- Another first message of the same session. -/
def rewritten : RawMessage where
  id := 1
  bytes := ascii "\x7b\"New\":\x7b\"id\":1,\"timestamp\":1002,\"account\":2,\"symbol\":\"ETH-USDC\"," ++
    ascii "\"side\":\"Buy\",\"price\":99.0,\"quantity\":3.0\x7d\x7d"

def firstChain : Bytes := hex "ceb882baceacdec42e381710c3eaed76367be0ecddcf30f60113dd2095cbb393"

def rewrittenChain : Bytes :=
  hex "e39a92ee80817f3020a0f8098d4cef788387c9631b90f4fc87e2364006ca47ec"

def firstHead : SignedHead where
  lastId := 1
  chain := firstChain
  publicKey := feedKey
  signature :=
    [81, 148, 232, 190, 65, 228, 199, 5, 50, 255, 226, 60, 53, 205, 18, 131, 29, 157, 12, 113, 6,
     57, 103, 213, 104, 1, 10, 70, 161, 251, 181, 19, 209, 145, 197, 81, 56, 161, 238, 229, 11, 157,
     67, 230, 206, 180, 163, 149, 165, 152, 210, 187, 45, 125, 150, 188, 158, 60, 175, 194, 215, 0,
     9, 2]

def rewrittenHead : SignedHead where
  lastId := 1
  chain := rewrittenChain
  publicKey := feedKey
  signature :=
    [215, 48, 254, 66, 98, 189, 86, 46, 252, 247, 165, 10, 30, 197, 167, 70, 219, 52, 150, 212, 100,
     205, 68, 23, 165, 34, 130, 196, 188, 183, 60, 50, 213, 189, 2, 252, 35, 41, 74, 186, 220, 250,
     89, 189, 15, 182, 14, 32, 31, 77, 10, 163, 28, 199, 64, 239, 170, 153, 153, 216, 125, 156, 246,
     15]

def otherHead : SignedHead where
  lastId := 0
  chain := MatcherState.emptyChain
  publicKey := feedKey
  signature :=
    [80, 49, 225, 122, 20, 67, 181, 34, 205, 118, 245, 27, 247, 120, 179, 24, 95, 64, 87, 26, 117,
     155, 180, 61, 180, 147, 1, 100, 121, 85, 32, 53, 56, 200, 249, 35, 240, 197, 252, 53, 3, 0,
     229, 222, 250, 40, 16, 31, 53, 238, 74, 213, 102, 32, 250, 157, 224, 160, 50, 20, 200, 118,
     139, 0]

/-- The third-party functions at the values of these histories. -/
def env : Primitives where
  sha256 := fun bytes =>
    if bytes = MatcherState.emptyChain ++ first.bytes then firstChain
    else if bytes = MatcherState.emptyChain ++ rewritten.bytes then rewrittenChain else []
  isVerifyingKey := fun key => key = hex feedKey
  verifyStrict := fun key statement signature =>
    key = hex feedKey && [(session, firstHead), (session, rewrittenHead), (otherSession, otherHead)].any
      (fun head => signature = head.2.signature &&
        statement = Poller.headStatement head.1 head.2.lastId head.2.chain)
  canonicalBytes := fun _ => []

/-- A validator's key, at the statements it signs here. -/
def key : SigningKey where
  verifyingKey := hex "3d4017c3e843895a92b70aa74d1b7ebc9c982ccf2ec4968cc0cd55f12af4660c"
  sign := fun statement =>
    if statement = attestStatement session 1 firstChain ⟨false, false⟩ then
      [136, 236, 131, 76, 176, 188, 93, 165, 66, 163, 183, 171, 126, 135, 67, 65, 109, 73, 253, 201,
       89, 219, 37, 48, 254, 161, 166, 126, 233, 222, 136, 220, 116, 150, 145, 131, 199, 0, 192,
       114, 193, 134, 45, 195, 218, 104, 184, 167, 47, 118, 196, 194, 16, 241, 214, 14, 27, 10, 150,
       39, 198, 216, 224, 8]
    else if statement = attestStatement session 1 rewrittenChain ⟨false, false⟩ then
      [78, 42, 15, 149, 239, 220, 87, 205, 145, 127, 243, 103, 17, 37, 47, 231, 62, 107, 47, 135,
       233, 89, 87, 93, 208, 69, 86, 96, 46, 69, 148, 219, 179, 86, 170, 174, 223, 131, 46, 56, 127,
       202, 17, 64, 39, 190, 5, 54, 207, 25, 82, 214, 65, 59, 254, 84, 39, 34, 141, 253, 225, 208,
       249, 13]
    else []

/-- A poll that gets this page of a session. -/
def page (session : String) (head : SignedHead) (messages : List RawMessage) (saved : Bool) :
    Action :=
  .poll (.page (some session) (some head) messages) saved

/-- One history, a reading, a restart and a reading. -/
def actions : List Action := [page session firstHead [first] true, .attest, .restart, .attest]

end Sample

end Validator
end VerifiableExchange
