import VerifiableExchange.Feed.Intake
import VerifiableExchange.Feed.Restart

/-!
# Runs — a sequencer from its first message on, restarts included

One event is one request, one drain pass, one burst or one restart. Beside the sequencer a run keeps
every group it has published: the log is what the events published, whatever still holds it.
-/

namespace VerifiableExchange
namespace Feed

open Lib Merkle Logchain Inbox

/-! ## Events -/

inductive Event
  | submit (signed : SignedSubmission) (c : Circumstances)
  | submitOperator (req : SubmitOperatorRequest) (c : Circumstances)
  | drain (epoch : String) (due : List Due) (c : DrainCircumstances)
  | generate (draws : List Draw) (commits : Bool)
  | restart (config : Config) (draw : StartDraw)

/-- A group on its way into the log: its ids are taken, and `sequence` has not decided. -/
structure Group where
  state : Sequencer
  batch : List Entry
  commits : Bool

/-- The loop of a drain pass over its page. -/
def passOver (env : Primitives) (serde : Wire.Serde) (state : Sequencer) (epoch : String)
    (due : List Due) (c : DrainCircumstances) : Pass :=
  due.foldl (Pass.takeEntry env serde c.unread epoch) (Pass.start state)

/-- The message an event asks for, once its id is taken. -/
def Group.single (state : Sequencer) (message : OrderId → OrderMessage) (commits : Bool) : Group :=
  ⟨state.takeId.2, [(none, message state.takeId.1)], commits⟩

/-- The group an event brings to `sequence`, if it comes that far. -/
def Event.group (env : Primitives) (serde : Wire.Serde) (state : Sequencer) : Event → Option Group
  | submit signed c =>
      match state.admitSubmission env signed c with
      | .error _ => none
      | .ok admitted =>
          some (.single admitted (fun id => messageFrom id c.now.toNat signed.submission) c.commits)
  | submitOperator req c =>
      match state.admitOperator env req c with
      | .error _ => none
      | .ok () => some (.single state (fun id => req.message id c.now.toNat) c.commits)
  | drain epoch due c =>
      if state.logIsOpen then
        let pass := passOver env serde state epoch due c
        some ⟨pass.state, pass.batch, c.commits⟩
      else none
  | generate draws commits =>
      if state.logIsOpen = false then none
      else
        match state.feed.checkRetentionGrowth draws.length 0 0 with
        | .error _ => none
        | .ok () =>
            let (burst, state) := state.generateMessages draws
            some ⟨state, burst.map fun msg => (none, msg), commits⟩
  | restart _ _ => none

section

variable (sha256 : Bytes → Hash) (serde : Wire.Serde)

/-- What `sequence` makes of a group. -/
def Group.sequenced (group : Group) :
    Except (Fault Empty) (Sequencer × Except SequenceError Unit) :=
  group.state.sequence sha256 serde group.batch group.commits

/-- What a group adds to the log. -/
def Group.published (group : Group) : List Entry :=
  match group.sequenced sha256 serde with
  | .ok (_, .ok ()) => group.batch
  | _ => []

end

/-! ## Runs -/

/-- A sequencer with every group it published, in their order. -/
structure World where
  sequencer : Sequencer
  log : List Entry

/-- `FeedState::new`, under the settings of the deployment. -/
def Sequencer.new (config : Config) (draw : StartDraw) : Sequencer where
  feed := {
    retentionLimits := config.limits
    messages := []
    chains := []
    nextId := 1
    session := draw.session
    storage := .memory .new
    chain := EMPTY_CHAIN
    treeHead := none
    signingKey := config.signingKey
    inboxSequenced := ∅
    nonces := ∅ }
  maxAccounts := config.maxAccounts
  accounts := ∅
  accountRows := []
  operatorKey := config.operatorKey
  numAccounts := max config.numAccounts 1
  openOrders := []
  crossings := 0
  sinceCrossing := 0
  cancelsInARow := 0

/-- A file no sequencer has written to. -/
def FeedFile.empty : FeedFile := ⟨[], [], none, none, [], []⟩

section

variable (sha256 : Bytes → Hash) (env : Primitives) (serde : Wire.Serde)
  (verify : Bytes → Bytes → Bytes → Bool)

/-- The sequencer an event leaves; a restart is not answered here. -/
def Event.answer (state : Sequencer) : Event → Except (Fault Empty) Sequencer
  | submit signed c => (state.submit env sha256 serde signed c).map Prod.fst
  | submitOperator req c => (state.submitOperator env sha256 serde req c).map Prod.fst
  | drain epoch due c =>
      if state.logIsOpen then (state.sequenceDrained sha256 env serde epoch due c).map Prod.fst
      else .ok state
  | generate draws commits => (state.generate sha256 serde draws commits).map Prod.fst
  | restart _ _ => .ok state

/-- The sequencer a restart comes up with, and the history it has. Without a database nothing of the
last one is left. -/
def World.restart (world : World) (config : Config) (draw : StartDraw) : Option World :=
  match world.sequencer.feed.storage with
  | .memory _ => if config.valid then some ⟨Sequencer.new config draw, []⟩ else none
  | .disk conn _ =>
      match withDb sha256 env serde verify config (fileOf conn world.sequencer.accountRows) draw with
      | .ok sequencer => some ⟨sequencer, world.log⟩
      | .error _ => none

/-- One event. There is nothing after a start that is refused: the next start reads the same file. -/
def World.step (world : World) (event : Event) : Option World :=
  match event with
  | .restart config draw => world.restart sha256 env serde verify config draw
  | event =>
      match event.answer sha256 env serde world.sequencer with
      | .error _ => none
      | .ok sequencer =>
          let published := (event.group env serde world.sequencer).elim []
            (Group.published sha256 serde)
          some ⟨sequencer, world.log ++ published⟩

/-- A new history, in memory or in a new file. -/
inductive World.Starts : World → Prop
  | memory (config : Config) (draw : StartDraw) :
      config.valid = true → World.Starts ⟨Sequencer.new config draw, []⟩
  | disk (config : Config) (draw : StartDraw) (sequencer : Sequencer) :
      withDb sha256 env serde verify config .empty draw = .ok sequencer →
      World.Starts ⟨sequencer, []⟩

/-- No machine comes this far: a log is bounded by the address space and by the signed key of its
rows, and an id a nanosecond lasts for three centuries. -/
structure World.Holdable (world : World) : Prop where
  log : world.log.length < 9223372036854775808
  ids : world.sequencer.feed.nextId ≤ 9223372036854775808

/-- The same bound on what one event carries. -/
def Event.Holdable : Event → Prop
  | drain _ due _ => due.length < 9223372036854775808
  | generate draws _ => draws.length < 9223372036854775808
  | _ => True

/-- The worlds a run reaches. The condition is one on a step: the state before it, and the event. -/
inductive World.Reaches (condition : World → Event → Prop) : World → Prop
  | start {world : World} :
      World.Starts sha256 env serde verify world → World.Reaches condition world
  | step {world next : World} {event : Event} :
      World.Reaches condition world → condition world event → event.Holdable →
      world.step sha256 env serde verify event = some next → next.Holdable →
      World.Reaches condition next

/-- A weaker condition lets the same worlds be reached. -/
theorem World.Reaches.imp {sha256 : Bytes → Hash} {env : Primitives} {serde : Wire.Serde}
    {verify : Bytes → Bytes → Bytes → Bool} {condition weaker : World → Event → Prop} {world : World}
    (h : World.Reaches sha256 env serde verify condition world)
    (himp : ∀ before event, condition before event → weaker before event) :
    World.Reaches sha256 env serde verify weaker world := by
  induction h with
  | start hstart => exact .start hstart
  | step _ hcondition hevent hstep hnext ih =>
      exact ih.step (himp _ _ hcondition) hevent hstep hnext

end

end Feed
end VerifiableExchange
