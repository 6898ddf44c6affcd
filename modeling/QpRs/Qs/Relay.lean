import QpRs.Lib.Run
import QpRs.Qs.Decoder
import QpRs.Qs.Frontend
import QpRs.Qs.Interpreter

/-! The loop of the host (`tools/qspy/src/runtime.rs`) between a target and the front-ends: records
of the target go to the front-ends, and commands of the front-ends and of the keyboard go to the
target. -/

namespace QpRs.Qs

open QpRs.Lib

/-- What the network and the command channel do: whether a datagram of the `k`-th call of the
front-end server reaches an address, and whether the `k`-th write of a command succeeds. -/
structure Network (α : Type) where
  reaches : Nat → α → Bool
  writes : Nat → Bool

structure Relay (α : Type) where
  decoder : HdlcDecoder
  interpreter : FrameInterpreter
  frontend : FrontendServer α
  /-- The shared sender: what holds the connected command channel. -/
  sender : Option CommandSender
  /-- The datagrams sent so far. -/
  sent : List (Datagram α)
  calls : Nat
  writes : Nat

namespace Relay

variable {α : Type} [DecidableEq α] (net : Network α)
  (others : FrameInterpreter → QsFrame → FrameInterpreter × List String)

def new (interpreter : FrameInterpreter) : Relay α where
  decoder := .new
  interpreter := interpreter
  frontend := .new
  sender := none
  sent := []
  calls := 0
  writes := 0

/-- One call of the front-end server that sends to its clients. -/
def forward (r : Relay α)
    (call : FrontendServer α → (α → Bool) → FrontendServer α × List (Datagram α)) : Relay α :=
  let done := call r.frontend (net.reaches r.calls)
  { r with frontend := done.1, sent := r.sent ++ done.2, calls := r.calls + 1 }

def forwardLines (r : Relay α) (lines : List String) : Relay α :=
  lines.foldl (fun r line => r.forward net (·.forwardText line)) r

/-- The body of the loop of `process_chunk`. -/
def processFrame (r : Relay α) : Except DecodeError QsFrame → Relay α
  | .error _ => r
  | .ok frame =>
      let done := r.interpreter.interpret others frame
      let r := { r with interpreter := done.1 }.forwardLines net done.2
      r.forward net (·.forwardFrame frame.recordType frame.payload)

def processChunk (r : Relay α) (raw : List UInt8) : Except Halt (Relay α) := do
  let (decoder, results) ← r.decoder.pushBytes raw
  return results.foldl (processFrame net others) { r with decoder := decoder }

/-- `try_send`: a failed write closes the command channel. -/
def trySend (r : Relay α) (f : CommandSender → CommandSender) : Relay α :=
  match r.sender with
  | none => r
  | some s =>
      { r with
        sender := if net.writes r.writes then some (f s) else none
        writes := r.writes + 1 }

def dispatchFeCmd (r : Relay α) : FrontendCmd → Relay α
  | .command id p1 p2 p3 => r.trySend net (·.sendCommand id p1 p2 p3)
  | .rawQsRx id payload => r.trySend net (·.send id payload)
  | .info => r.trySend net (·.sendInfo)
  | _ => r

/-- One datagram in the loop of `poll`, with the commands so far. -/
def receive (done : Relay α × List FrontendCmd) (d : Datagram α) : Relay α × List FrontendCmd :=
  let r := done.1
  let handled := r.frontend.handlePacket d.2 d.1 (net.reaches r.calls)
  ({ r with frontend := handled.1, sent := r.sent ++ handled.2.1, calls := r.calls + 1 },
    done.2 ++ handled.2.2)

/-- The receive buffer of `poll` holds 2048 bytes, and what is behind them is dropped. -/
def fetched (d : Datagram α) : Datagram α := (d.1, d.2.take 2048)

/-- `poll`, and then the commands it has found. -/
def pollFrontend (r : Relay α) (arrived : List (Datagram α)) : Relay α :=
  let polled := (arrived.map fetched).foldl (receive net) (r, [])
  polled.2.foldl (dispatchFeCmd net) polled.1

/-- The commands of the keyboard, without `Custom`, which runs code of the project, and `Quit`,
which ends the run. -/
inductive UserCmd where
  | info
  | reset
  | tick (n : UInt8)
  | sendCommand (id : UInt8) (p1 p2 p3 : UInt32)
  | saveDict (path : String)
  | clearScreen
  | toggleQuiet
  | help
  | toggleTextOut
  | toggleBinOut
  deriving DecidableEq, Repr

def dispatchCmd (r : Relay α) : UserCmd → Relay α
  | .info => r.trySend net (·.sendInfo)
  | .reset => r.trySend net (·.sendReset)
  | .tick n => r.trySend net (·.sendTick n)
  | .sendCommand id p1 p2 p3 => r.trySend net (·.sendCommand id p1 p2 p3)
  -- The others write to the console, to the sinks or to a file.
  | _ => r

inductive Label (α : Type) where
  /-- Bytes of the target. -/
  | chunk (raw : List UInt8)
  /-- Datagrams of front-ends, each with the address of its peer. -/
  | poll (arrived : List (Datagram α))
  /-- A command of the keyboard. -/
  | user (c : UserCmd)
  /-- A target connects its command channel. -/
  | connect
  deriving DecidableEq, Repr

def step (r : Relay α) : Label α → Option (Relay α)
  | .chunk raw => (r.processChunk net others raw).toOption
  | .poll arrived => some (r.pollFrontend net arrived)
  | .user c => some (r.dispatchCmd net c)
  | .connect => some { r with sender := some .new }

section Streams

variable {net : Network α} {others : FrameInterpreter → QsFrame → FrameInterpreter × List String}
  {a : α} {channels : UInt8}

def numbered : UInt8 → List (List UInt8) → List (List UInt8)
  | _, [] => []
  | n, body :: rest => (n :: body) :: numbered (n + 1) rest

theorem numbered_append (n : UInt8) (first later : List (List UInt8)) :
    numbered n (first ++ later) =
      numbered n first ++ numbered (n + UInt8.ofNat first.length) later := by
  induction first generalizing n with
  | nil => simp [numbered]
  | cons body rest ih =>
      have count : n + 1 + UInt8.ofNat rest.length = n + UInt8.ofNat (rest.length + 1) := by
        rw [UInt8.ofNat_add, UInt8.add_assoc, UInt8.add_comm 1]
        rfl
      rw [List.cons_append, numbered, numbered, ih, count]
      rfl

/-- What a frame with its lines is for a client with these channels. -/
def bodiesOf (channels : UInt8) (frame : QsFrame) (lines : List String) : List (List UInt8) :=
  (if channels &&& CHANNEL_TEXT != 0 then lines.map fun line => 0x00 :: (utf8Bytes line ++ [10])
    else []) ++
  if channels &&& CHANNEL_BINARY != 0 then [frame.recordType :: frame.payload] else []

def bodies (others : FrameInterpreter → QsFrame → FrameInterpreter × List String)
    (channels : UInt8) : FrameInterpreter → List QsFrame → List (List UInt8)
  | _, [] => []
  | it, frame :: rest =>
      let done := it.interpret others frame
      bodiesOf channels frame done.2 ++ bodies others channels done.1 rest

def interpretAll (others : FrameInterpreter → QsFrame → FrameInterpreter × List String)
    (it : FrameInterpreter) (frames : List QsFrame) : FrameInterpreter :=
  frames.foldl (fun it frame => (it.interpret others frame).1) it

theorem bodies_append (it : FrameInterpreter) (first later : List QsFrame) :
    bodies others channels it (first ++ later) =
      bodies others channels it first ++
        bodies others channels (interpretAll others it first) later := by
  induction first generalizing it with
  | nil => rfl
  | cons frame rest ih =>
      rw [List.cons_append, bodies, bodies, ih, List.append_assoc]
      rfl

def Attached (a : α) (channels n : UInt8) (r : Relay α) : Prop :=
  r.frontend.clients.find a = some ⟨a, channels, n⟩

/-- Every datagram of the calls of the front-end server from `r` to `t` reaches the client. -/
def Reached (net : Network α) (a : α) (r t : Relay α) : Prop :=
  ∀ k, r.calls ≤ k → k < t.calls → net.reaches k a = true

/-- From `r` to `t` the client `a`, as long as it is reached, gets the datagrams of these bodies. -/
def Gets (net : Network α) (a : α) (channels : UInt8) (r t : Relay α)
    (bodies : List (List UInt8)) : Prop :=
  r.calls ≤ t.calls ∧ ∀ n, Attached a channels n r → Reached net a r t →
    Attached a channels (n + UInt8.ofNat bodies.length) t ∧
      FrontendServer.sentTo a t.sent = FrontendServer.sentTo a r.sent ++ numbered n bodies

variable {r t u : Relay α} {first later : List (List UInt8)}

theorem Gets.refl (r : Relay α) : Gets net a channels r r [] := by
  refine ⟨Nat.le_refl _, fun n attached _ => ⟨?_, (List.append_nil _).symm⟩⟩
  simpa using attached

theorem Gets.trans (one : Gets net a channels r t first) (two : Gets net a channels t u later) :
    Gets net a channels r u (first ++ later) := by
  obtain ⟨before, one⟩ := one
  obtain ⟨after, two⟩ := two
  refine ⟨Nat.le_trans before after, fun n attached reached => ?_⟩
  obtain ⟨between, sent⟩ :=
    one n attached fun k from_r to_t => reached k from_r (Nat.lt_of_lt_of_le to_t after)
  obtain ⟨last, more⟩ :=
    two _ between fun k from_t to_u => reached k (Nat.le_trans before from_t) to_u
  constructor
  · rw [List.length_append, UInt8.ofNat_add, ← UInt8.add_assoc]
    exact last
  · rw [more, sent, numbered_append, List.append_assoc]

theorem gets_forward (channel : UInt8) (body : List UInt8) :
    Gets net a channels r (r.forward net (·.forward channel body))
      (if channels &&& channel != 0 then [body] else []) := by
  refine ⟨Nat.le_succ _, fun n found reached => ?_⟩
  obtain ⟨now, sent⟩ := FrontendServer.forward_reached found channel body
    (reached r.calls (Nat.le_refl _) (Nat.lt_succ_self _))
  have grown : FrontendServer.sentTo a (r.forward net (·.forward channel body)).sent = _ :=
    FrontendServer.sentTo_append a r.sent _
  rw [sent] at grown
  by_cases listens : (channels &&& channel != 0) = true
  · have heard : Client.listens ⟨a, channels, n⟩ channel = true := listens
    rw [if_pos heard] at now grown
    rw [if_pos listens]
    exact ⟨now, grown⟩
  · have deaf : ¬Client.listens ⟨a, channels, n⟩ channel = true := listens
    rw [if_neg deaf] at now grown
    rw [if_neg listens]
    have same : n + UInt8.ofNat ([] : List (List UInt8)).length = n := UInt8.add_zero n
    rw [same]
    exact ⟨now, grown⟩

theorem gets_lines (lines : List String) :
    Gets net a channels r (r.forwardLines net lines)
      (if channels &&& CHANNEL_TEXT != 0 then
        lines.map fun line => 0x00 :: (utf8Bytes line ++ [10]) else []) := by
  by_cases heard : (channels &&& CHANNEL_TEXT != 0) = true
  · rw [if_pos heard]
    induction lines generalizing r with
    | nil => exact .refl r
    | cons line rest ih =>
        have one : Gets net a channels r (r.forward net (·.forwardText line)) _ :=
          gets_forward CHANNEL_TEXT _
        rw [if_pos heard] at one
        exact one.trans ih
  · rw [if_neg heard]
    induction lines generalizing r with
    | nil => exact .refl r
    | cons line rest ih =>
        have one : Gets net a channels r (r.forward net (·.forwardText line)) _ :=
          gets_forward CHANNEL_TEXT _
        rw [if_neg heard] at one
        exact one.trans ih

omit [DecidableEq α] in
theorem forwardLines_frame (net : Network α) (r : Relay α) (lines : List String) :
    (r.forwardLines net lines).decoder = r.decoder ∧
      (r.forwardLines net lines).interpreter = r.interpreter ∧
      (r.forwardLines net lines).sender = r.sender := by
  induction lines generalizing r with
  | nil => exact ⟨rfl, rfl, rfl⟩
  | cons line rest ih => exact ih (r.forward net (·.forwardText line))

theorem gets_frame (r : Relay α) (frame : QsFrame) :
    Gets net a channels r (r.processFrame net others (.ok frame))
      (bodiesOf channels frame (r.interpreter.interpret others frame).2) := by
  have lines : Gets net a channels r
      (forwardLines net { r with interpreter := (r.interpreter.interpret others frame).1 }
        (r.interpreter.interpret others frame).2) _ := gets_lines (r := { r with
          interpreter := (r.interpreter.interpret others frame).1 }) _
  exact lines.trans (gets_forward CHANNEL_BINARY _)

def framesOf (results : List (Except DecodeError QsFrame)) : List QsFrame :=
  results.filterMap Except.toOption

omit [DecidableEq α] in
theorem processFrames_frame (net : Network α)
    (others : FrameInterpreter → QsFrame → FrameInterpreter × List String) (r : Relay α)
    (results : List (Except DecodeError QsFrame)) :
    let t := results.foldl (processFrame net others) r
    t.decoder = r.decoder ∧ t.sender = r.sender ∧
      t.interpreter = interpretAll others r.interpreter (framesOf results) := by
  induction results generalizing r with
  | nil => exact ⟨rfl, rfl, rfl⟩
  | cons result rest ih =>
      cases result with
      | error e => exact ih r
      | ok frame =>
          obtain ⟨decoder, sender, interpreter⟩ := ih (r.processFrame net others (.ok frame))
          obtain ⟨same, it, link⟩ := forwardLines_frame net
            { r with interpreter := (r.interpreter.interpret others frame).1 }
            (r.interpreter.interpret others frame).2
          have now : (r.processFrame net others (.ok frame)).interpreter =
              (r.interpreter.interpret others frame).1 := it
          rw [now] at interpreter
          exact ⟨decoder.trans same, sender.trans link, interpreter⟩

theorem processFrames_gets (r : Relay α) (results : List (Except DecodeError QsFrame)) :
    Gets net a channels r (results.foldl (processFrame net others) r)
      (bodies others channels r.interpreter (framesOf results)) := by
  induction results generalizing r with
  | nil => exact .refl r
  | cons result rest ih =>
      cases result with
      | error e => exact ih r
      | ok frame =>
          have later := ih (r.processFrame net others (.ok frame))
          have now : (r.processFrame net others (.ok frame)).interpreter =
              (r.interpreter.interpret others frame).1 :=
            (processFrames_frame net others r [.ok frame]).2.2
          rw [now] at later
          exact (gets_frame r frame).trans later

omit [DecidableEq α] in
theorem processChunk_cases {raw : List UInt8}
    (chunked : (r.processChunk net others raw).toOption = some t) :
    ∃ decoder results, r.decoder.pushBytes raw = .ok (decoder, results) ∧
      t = results.foldl (processFrame net others) { r with decoder := decoder } := by
  unfold processChunk at chunked
  cases fed : r.decoder.pushBytes raw with
  | error e =>
      rw [fed] at chunked
      cases chunked
  | ok done =>
      rw [fed] at chunked
      exact ⟨done.1, done.2, rfl, (Option.some.inj chunked).symm⟩

theorem Gets.still (frontend : t.frontend = r.frontend) (calls : t.calls = r.calls)
    (sent : t.sent = r.sent) : Gets net a channels r t [] := by
  have kept : Gets net a channels r r [] := .refl r
  unfold Gets Attached Reached at kept ⊢
  rw [frontend, calls, sent]
  exact kept

omit [DecidableEq α] in
theorem trySend_frame (net : Network α) (r : Relay α) (f : CommandSender → CommandSender) :
    (r.trySend net f).frontend = r.frontend ∧ (r.trySend net f).calls = r.calls ∧
      (r.trySend net f).sent = r.sent ∧ (r.trySend net f).decoder = r.decoder ∧
      (r.trySend net f).interpreter = r.interpreter := by
  unfold trySend
  split <;> exact ⟨rfl, rfl, rfl, rfl, rfl⟩

omit [DecidableEq α] in
theorem dispatchCmd_frame (net : Network α) (r : Relay α) (c : UserCmd) :
    (r.dispatchCmd net c).frontend = r.frontend ∧ (r.dispatchCmd net c).calls = r.calls ∧
      (r.dispatchCmd net c).sent = r.sent ∧ (r.dispatchCmd net c).decoder = r.decoder ∧
      (r.dispatchCmd net c).interpreter = r.interpreter := by
  cases c with
  | info => exact trySend_frame net r _
  | reset => exact trySend_frame net r _
  | tick n => exact trySend_frame net r _
  | sendCommand id p1 p2 p3 => exact trySend_frame net r _
  | _ => exact ⟨rfl, rfl, rfl, rfl, rfl⟩

omit [DecidableEq α] in
theorem dispatch_frame (net : Network α) (r : Relay α) (cmds : List FrontendCmd) :
    let t := cmds.foldl (dispatchFeCmd net) r
    t.frontend = r.frontend ∧ t.calls = r.calls ∧ t.sent = r.sent ∧ t.decoder = r.decoder ∧
      t.interpreter = r.interpreter := by
  induction cmds generalizing r with
  | nil => exact ⟨rfl, rfl, rfl, rfl, rfl⟩
  | cons cmd rest ih =>
      obtain ⟨frontend, calls, sent, decoder, it⟩ := ih (r.dispatchFeCmd net cmd)
      have one : (r.dispatchFeCmd net cmd).frontend = r.frontend ∧
          (r.dispatchFeCmd net cmd).calls = r.calls ∧ (r.dispatchFeCmd net cmd).sent = r.sent ∧
          (r.dispatchFeCmd net cmd).decoder = r.decoder ∧
          (r.dispatchFeCmd net cmd).interpreter = r.interpreter := by
        cases cmd with
        | command id p1 p2 p3 => exact trySend_frame net r _
        | rawQsRx id payload => exact trySend_frame net r _
        | info => exact trySend_frame net r _
        | _ => exact ⟨rfl, rfl, rfl, rfl, rfl⟩
      obtain ⟨frontend', calls', sent', decoder', it'⟩ := one
      exact ⟨frontend.trans frontend', calls.trans calls', sent.trans sent',
        decoder.trans decoder', it.trans it'⟩

/-- No datagram of `a` with which it attaches, changes its channels or leaves. -/
def Settled (a : α) : Label α → Prop
  | .poll arrived => ∀ d ∈ arrived.map fetched, d.1 = a → ¬FrontendServer.Membership d.2
  | _ => True

theorem receive_gets (done : Relay α × List FrontendCmd) (d : Datagram α)
    (settled : d.1 = a → ¬FrontendServer.Membership d.2) :
    Gets net a channels done.1 (receive net done d).1 [] := by
  refine ⟨Nat.le_succ _, fun n found _ => ?_⟩
  obtain ⟨now, sent⟩ :=
    FrontendServer.handlePacket_keeps found settled (net.reaches done.1.calls)
  have grown : FrontendServer.sentTo a (receive net done d).1.sent = _ :=
    FrontendServer.sentTo_append a done.1.sent _
  rw [sent] at grown
  have same : n + UInt8.ofNat ([] : List (List UInt8)).length = n := UInt8.add_zero n
  rw [same]
  exact ⟨now, grown⟩

theorem receives_gets (net : Network α) (channels : UInt8) (arrived : List (Datagram α))
    (done : Relay α × List FrontendCmd)
    (settled : ∀ d ∈ arrived, d.1 = a → ¬FrontendServer.Membership d.2) :
    let t := arrived.foldl (receive net) done
    t.1.decoder = done.1.decoder ∧ t.1.interpreter = done.1.interpreter ∧
      Gets net a channels done.1 t.1 [] := by
  induction arrived generalizing done with
  | nil => exact ⟨rfl, rfl, .refl done.1⟩
  | cons d rest ih =>
      obtain ⟨first, rest_settled⟩ := List.forall_mem_cons.mp settled
      obtain ⟨decoder, it, gets⟩ := ih (receive net done d) rest_settled
      exact ⟨decoder, it, (receive_gets done d first).trans gets⟩

def Label.raw : Label α → List UInt8
  | .chunk raw => raw
  | _ => []

theorem step_gets {l : Label α} (settled : Settled a l)
    (stepped : r.step net others l = some t) :
    ∃ results, r.decoder.pushBytes l.raw = .ok (t.decoder, results) ∧
      t.interpreter = interpretAll others r.interpreter (framesOf results) ∧
      Gets net a channels r t (bodies others channels r.interpreter (framesOf results)) := by
  cases l with
  | chunk raw =>
      obtain ⟨decoder, results, fed, rfl⟩ := processChunk_cases stepped
      obtain ⟨same, -, it⟩ :=
        processFrames_frame net others { r with decoder := decoder } results
      refine ⟨results, ?_, it, processFrames_gets { r with decoder := decoder } results⟩
      rw [same]
      exact fed
  | poll arrived =>
      obtain rfl := Option.some.inj stepped
      obtain ⟨decoder, it, gets⟩ :=
        receives_gets net channels (arrived.map fetched) (r, []) settled
      obtain ⟨frontend, calls, sent, decoder', it'⟩ :=
        dispatch_frame net ((arrived.map fetched).foldl (receive net) (r, [])).1
          ((arrived.map fetched).foldl (receive net) (r, [])).2
      refine ⟨[], ?_, it'.trans it, gets.trans (.still frontend calls sent)⟩
      show Except.ok (r.decoder, []) = _
      rw [← decoder, ← decoder']
      rfl
  | user c =>
      obtain rfl := Option.some.inj stepped
      obtain ⟨frontend, calls, sent, decoder, it⟩ := dispatchCmd_frame net r c
      refine ⟨[], ?_, it, .still frontend calls sent⟩
      show Except.ok (r.decoder, []) = _
      rw [← decoder]
  | connect =>
      obtain rfl := Option.some.inj stepped
      exact ⟨[], rfl, rfl, .still rfl rfl rfl⟩

theorem framesOf_append (first later : List (Except DecodeError QsFrame)) :
    framesOf (first ++ later) = framesOf first ++ framesOf later := List.filterMap_append

/-- What a client gets in a run is what the target's bytes decode to, however they are cut into
chunks, and whatever the front-ends and the keyboard do meanwhile. -/
theorem run_gets (channels : UInt8) {labels : List (Label α)} (settled : ∀ l ∈ labels, Settled a l)
    (ran : run (step net others) r labels = some t) :
    ∃ results, r.decoder.pushBytes (labels.flatMap Label.raw) = .ok (t.decoder, results) ∧
      Gets net a channels r t (bodies others channels r.interpreter (framesOf results)) := by
  induction labels generalizing r with
  | nil =>
      cases ran
      exact ⟨[], rfl, .refl _⟩
  | cons l rest ih =>
      obtain ⟨u, stepped, ran⟩ := run_cons ran
      obtain ⟨here, later⟩ := List.forall_mem_cons.mp settled
      obtain ⟨results, fed, it, one⟩ := step_gets (a := a) here stepped
      obtain ⟨more, fed', two⟩ := ih later ran
      refine ⟨results ++ more, ?_, ?_⟩
      · rw [List.flatMap_cons]
        exact feed_append_ok fed fed'
      · rw [framesOf_append, bodies_append, ← it]
        exact one.trans two

/-- A front-end gets the target's stream: from any moment on at which the decoder is between two
frames, and until it attaches anew, leaves or cannot be reached, an attached front-end gets every
record and every line of its channels, each once, in order, in datagrams with consecutive numbers;
whatever other front-ends do, and however the bytes are cut into chunks. -/
theorem frontend_gets_stream (net : Network α)
    (others : FrameInterpreter → QsFrame → FrameInterpreter × List String) (r t : Relay α) (a : α)
    (channels n : UInt8) (records : List QsRecord) (labels : List (Label α))
    (between : r.decoder = .new) (attached : Attached a channels n r) (reached : Reached net a r t)
    (settled : ∀ l ∈ labels, Settled a l)
    (stream : labels.flatMap Label.raw = records.flatMap Tracer.buildFrame)
    (ran : run (step net others) r labels = some t) :
    let wanted := bodies others channels r.interpreter (records.map QsRecord.received)
    Attached a channels (n + UInt8.ofNat wanted.length) t ∧
      FrontendServer.sentTo a t.sent =
        FrontendServer.sentTo a r.sent ++ numbered n wanted := by
  obtain ⟨results, fed, gets⟩ := run_gets channels settled ran
  have decoded := HdlcDecoder.pushBytes_frames records
  rw [stream, between] at fed
  have same := (Prod.mk.inj (Except.ok.inj (fed.symm.trans decoded))).2
  have frames : framesOf results = records.map QsRecord.received := by
    rw [same, framesOf, List.filterMap_map]
    exact congrFun List.filterMap_eq_map records
  rw [frames] at gets
  exact gets.2 n attached reached

def patchy : Network Nat := ⟨fun k a => a = 1 || k < 3, fun _ => true⟩

def silentOthers (it : FrameInterpreter) (_ : QsFrame) : FrameInterpreter × List String := (it, [])

def lobby : Relay Nat := (Relay.new .new).pollFrontend patchy [(1, [9, 128, 3]), (2, [9, 128])]

def startRecords : List QsRecord := [⟨1, infra.QF_RUN, none, []⟩, ⟨2, infra.TEST_PAUSED, none, [7]⟩]

def startLabels : List (Label Nat) :=
  let raw := startRecords.flatMap Tracer.buildFrame
  [.chunk (raw.take 3), .poll [(1, [10, 141, 72, 105])], .chunk (raw.drop 3)]

theorem lobby_gets_stream : ∃ t, run (step patchy silentOthers) lobby startLabels = some t ∧
    t.frontend.clients.find 2 = none ∧ Attached 1 3 4 t ∧
    FrontendServer.sentTo 1 t.sent = FrontendServer.sentTo 1 lobby.sent ++
      numbered 0 (bodies silentOthers 3 .new (startRecords.map QsRecord.received)) := by
  refine ⟨_, rfl, rfl, ?_⟩
  have settled : ∀ l ∈ startLabels, Settled 1 l := by
    simp [startLabels, Settled, fetched, FrontendServer.Membership, QSPY_ATTACH, QSPY_DETACH]
  exact frontend_gets_stream patchy silentOthers lobby _ 1 3 0 startRecords startLabels rfl rfl
    (fun _ _ _ => rfl) settled rfl rfl

end Streams

section Commands

/-- The record of the target that a record of a front-end is passed on as. -/
def passedOn (recordId : UInt8) : Option UInt8 :=
  if recordId < 128 then some recordId
  else if recordId = QSPY_SEND_EVENT then some cmd.EVENT
  else if recordId = QSPY_SEND_AO_FILTER then some cmd.AO_FILTER
  else if recordId = QSPY_SEND_CURR_OBJ then some cmd.CURR_OBJ
  else if recordId = QSPY_SEND_TEST_PROBE then some cmd.TEST_PROBE
  else none

/-- The record and the payload that a front-end's datagram asks to have sent to the target. -/
def asks : List UInt8 → Option (UInt8 × List UInt8)
  | _ :: recordId :: payload =>
      if recordId = QSPY_ATTACH then some (cmd.INFO, [])
      else if recordId = QSPY_SEND_COMMAND then
        if 13 ≤ payload.length then some (cmd.COMMAND, payload.take 13) else none
      else (passedOn recordId).map (·, payload)
  | _ => none

def UserCmd.asked : UserCmd → Option CommandSender.Call
  | .info => some .info
  | .reset => some .reset
  | .tick n => some (.tick n)
  | .sendCommand id p1 p2 p3 => some (.command id p1 p2 p3)
  | _ => none

/-- What the target should read because of a label. -/
def Label.meant : Label α → List (Except Halt RxCmd)
  | .poll arrived =>
      (arrived.map fetched).filterMap fun d => (asks d.2).map fun q => RxParser.decodeCmd q.1 q.2
  | .user c => c.asked.toList.map fun call => .ok call.meant
  | _ => []

/-- If the command channel is still the same one, then just frames that mean this were written. -/
def Linked (meant : List (Except Halt RxCmd)) (before after : Option CommandSender) : Prop :=
  ∀ t, after = some t → ∃ (s : CommandSender) (sent : List Command), before = some s ∧
    t.written = s.written ++ sent.flatMap Command.frame ∧
      sent.map (fun c => RxParser.decodeCmd c.recordId c.payload) = meant

theorem Linked.refl (s : Option CommandSender) : Linked [] s s := by
  intro t same
  exact ⟨t, [], same, (List.append_nil _).symm, rfl⟩

theorem Linked.trans {first later : List (Except Halt RxCmd)} {s t u : Option CommandSender}
    (one : Linked first s t) (two : Linked later t u) : Linked (first ++ later) s u := by
  intro last same
  obtain ⟨between, more, same, wrote', decoded'⟩ := two last same
  obtain ⟨start, sent, same, wrote, decoded⟩ := one between same
  refine ⟨start, sent ++ more, same, ?_, ?_⟩
  · rw [wrote', wrote, List.flatMap_append, List.append_assoc]
  · rw [List.map_append, decoded, decoded']

variable {net : Network α}

omit [DecidableEq α] in
theorem linked_trySend (net : Network α) (r : Relay α) {f : CommandSender → CommandSender}
    {recordId : UInt8} {payload : List UInt8} (sends : ∀ s, f s = s.send recordId payload) :
    Linked [RxParser.decodeCmd recordId payload] r.sender (r.trySend net f).sender := by
  intro t same
  unfold trySend at same
  cases now : r.sender with
  | none =>
      rw [now] at same
      cases now.symm.trans same
  | some s =>
      rw [now] at same
      obtain ⟨-, same⟩ := Option.ite_none_right_eq_some.mp same
      obtain rfl := Option.some.inj same
      refine ⟨s, [⟨s.seq, recordId, payload⟩], rfl, ?_, rfl⟩
      rw [sends, List.flatMap_singleton]
      rfl

theorem u32At_write (payload : List UInt8) {first : Nat} (inside : first + 4 ≤ payload.length) :
    toLeBytes 4 (FrontendServer.u32At payload first).toNat = (payload.drop first).take 4 := by
  have sized : ((payload.drop first).take 4).length = 4 := by
    rw [List.length_take, List.length_drop]
    omega
  have bound := fromLeBytes_lt ((payload.drop first).take 4)
  have written := toLeBytes_fromLeBytes ((payload.drop first).take 4)
  rw [sized] at bound written
  have fits : fromLeBytes ((payload.drop first).take 4) % 2 ^ 32 = _ := Nat.mod_eq_of_lt bound
  rw [FrontendServer.u32At, UInt32.toNat_ofNat', fits, written]

/-- The numbers of a command go through the host as the bytes that they came as. -/
theorem sendCommand_verbatim {payload : List UInt8} (long : 13 ≤ payload.length)
    (s : CommandSender) :
    s.sendCommand (payload.headD 0) (FrontendServer.u32At payload 1)
        (FrontendServer.u32At payload 5) (FrontendServer.u32At payload 9) =
      s.send cmd.COMMAND (payload.take 13) := by
  have pieces : payload.take 13 = [payload.headD 0] ++ (payload.drop 1).take 4 ++
      (payload.drop 5).take 4 ++ (payload.drop 9).take 4 := by
    cases payload with
    | nil => simp at long
    | cons b rest =>
        have one := List.take_add (l := rest) (i := 4) (j := 8)
        have two := List.take_add (l := rest.drop 4) (i := 4) (j := 4)
        rw [List.drop_drop] at two
        simp only [List.headD_cons, List.drop_succ_cons, List.drop_zero, List.take_succ_cons]
        rw [one, two]
        simp
  rw [pieces, ← u32At_write payload (by omega), ← u32At_write payload (by omega),
    ← u32At_write payload (by omega)]
  rfl

omit [DecidableEq α] in
theorem linked_commandsOf (net : Network α) (r : Relay α) {recordId : UInt8}
    (payload : List UInt8) (feSeq : UInt8) (other : recordId ≠ QSPY_ATTACH) :
    Linked ((asks (feSeq :: recordId :: payload)).map fun q =>
        RxParser.decodeCmd q.1 q.2).toList r.sender
      ((FrontendServer.commandsOf recordId payload).foldl (dispatchFeCmd net) r).sender := by
  have silent : Linked [] r.sender r.sender := .refl r.sender
  have raw (id : UInt8) : Linked [RxParser.decodeCmd id payload] r.sender
      (r.trySend net (·.send id payload)).sender := linked_trySend net r fun _ => rfl
  rw [asks, if_neg other]
  unfold FrontendServer.commandsOf
  by_cases saveDict : recordId = QSPY_SAVE_DICT
  · subst saveDict
    exact silent
  rw [if_neg saveDict]
  by_cases clearScreen : recordId = QSPY_CLEAR_SCREEN
  · subst clearScreen
    exact silent
  rw [if_neg clearScreen]
  by_cases textOut : recordId = QSPY_TEXT_OUT
  · subst textOut
    exact silent
  rw [if_neg textOut]
  by_cases binOut : recordId = QSPY_BIN_OUT
  · subst binOut
    exact silent
  rw [if_neg binOut]
  by_cases showNote : recordId = QSPY_SHOW_NOTE
  · subst showNote
    exact silent
  rw [if_neg showNote]
  by_cases event : recordId = QSPY_SEND_EVENT
  · subst event
    exact raw cmd.EVENT
  rw [if_neg event]
  by_cases aoFilter : recordId = QSPY_SEND_AO_FILTER
  · subst aoFilter
    exact raw cmd.AO_FILTER
  rw [if_neg aoFilter]
  by_cases currObj : recordId = QSPY_SEND_CURR_OBJ
  · subst currObj
    exact raw cmd.CURR_OBJ
  rw [if_neg currObj]
  by_cases testProbe : recordId = QSPY_SEND_TEST_PROBE
  · subst testProbe
    exact raw cmd.TEST_PROBE
  rw [if_neg testProbe]
  by_cases command : recordId = QSPY_SEND_COMMAND
  · rw [if_pos command]
    by_cases long : 13 ≤ payload.length
    · rw [if_pos long, if_pos ⟨command, long⟩]
      exact linked_trySend net r fun s => sendCommand_verbatim long s
    · have large : ¬recordId < 128 := by
        rw [command]
        decide
      rw [if_neg long, if_neg fun both => long both.2, if_neg large]
      exact silent
  rw [if_neg command, if_neg fun both => command both.1]
  by_cases small : recordId < 128
  · rw [passedOn, if_pos small, if_pos small]
    exact raw recordId
  · rw [passedOn, if_neg small, if_neg small, if_neg event, if_neg aoFilter, if_neg currObj,
      if_neg testProbe]
    exact silent

theorem linked_packet (net : Network α) (r : Relay α) (s : FrontendServer α) (d : Datagram α)
    (reaches : α → Bool) :
    Linked ((asks d.2).map fun q => RxParser.decodeCmd q.1 q.2).toList r.sender
      ((s.handlePacket d.2 d.1 reaches).2.2.foldl (dispatchFeCmd net) r).sender := by
  obtain ⟨peer, data⟩ := d
  rcases data with _ | ⟨feSeq, _ | ⟨recordId, payload⟩⟩
  · exact .refl r.sender
  · exact .refl r.sender
  · by_cases attach : recordId = QSPY_ATTACH
    · subst attach
      exact linked_trySend net r fun _ => rfl
    · have commands := linked_commandsOf net r payload feSeq attach
      by_cases detach : recordId = QSPY_DETACH
      · subst detach
        exact .refl r.sender
      · simp only [FrontendServer.handlePacket, if_neg attach, if_neg detach]
        exact commands

theorem linked_receives (net : Network α) (r : Relay α) (arrived : List (Datagram α))
    (done : Relay α × List FrontendCmd) :
    Linked (arrived.filterMap fun d => (asks d.2).map fun q => RxParser.decodeCmd q.1 q.2)
      (done.2.foldl (dispatchFeCmd net) r).sender
      ((arrived.foldl (receive net) done).2.foldl (dispatchFeCmd net) r).sender := by
  induction arrived generalizing done with
  | nil => exact .refl _
  | cons d rest ih =>
      have later := ih (receive net done d)
      have one := linked_packet net (done.2.foldl (dispatchFeCmd net) r) done.1.frontend d
        (net.reaches done.1.calls)
      have folded : ((receive net done d).2.foldl (dispatchFeCmd net) r).sender = _ :=
        congrArg Relay.sender (List.foldl_append ..)
      rw [folded] at later
      have both := one.trans later
      rw [List.filterMap_cons]
      cases asked : asks d.2 with
      | none =>
          rw [asked] at both
          exact both
      | some q =>
          rw [asked] at both
          exact both

omit [DecidableEq α] in
theorem linked_user (net : Network α) (r : Relay α) (c : UserCmd) :
    Linked (c.asked.toList.map fun call => .ok call.meant) r.sender
      (r.dispatchCmd net c).sender := by
  have calls (call : CommandSender.Call) :
      Linked [.ok call.understood] r.sender (r.trySend net (·.call call)).sender := by
    obtain ⟨recordId, payload, sends, decoded⟩ := CommandSender.call_sends call
    have linked := linked_trySend net r sends
    rw [decoded] at linked
    exact linked
  cases c with
  | info => exact calls .info
  | reset => exact calls .reset
  | tick n => exact calls (.tick n)
  | sendCommand id p1 p2 p3 => exact calls (.command id p1 p2 p3)
  | _ => exact .refl r.sender

theorem receives_sender (net : Network α) (arrived : List (Datagram α))
    (done : Relay α × List FrontendCmd) :
    (arrived.foldl (receive net) done).1.sender = done.1.sender := by
  induction arrived generalizing done with
  | nil => rfl
  | cons d rest ih => exact ih (receive net done d)

theorem linked_step {others : FrameInterpreter → QsFrame → FrameInterpreter × List String}
    {r t : Relay α} {l : Label α} (same : l ≠ .connect)
    (stepped : r.step net others l = some t) : Linked l.meant r.sender t.sender := by
  cases l with
  | chunk raw =>
      obtain ⟨decoder, results, -, rfl⟩ := processChunk_cases stepped
      obtain ⟨-, sender, -⟩ := processFrames_frame net others { r with decoder := decoder } results
      rw [sender]
      exact .refl r.sender
  | poll arrived =>
      obtain rfl := Option.some.inj stepped
      have linked := linked_receives net ((arrived.map fetched).foldl (receive net) (r, [])).1
        (arrived.map fetched) (r, [])
      have sender : ((arrived.map fetched).foldl (receive net) (r, [])).1.sender = r.sender :=
        receives_sender net (arrived.map fetched) (r, [])
      rw [List.foldl_nil, sender] at linked
      exact linked
  | user c =>
      obtain rfl := Option.some.inj stepped
      exact linked_user net r c
  | connect => exact absurd rfl same

theorem linked_run {others : FrameInterpreter → QsFrame → FrameInterpreter × List String}
    {r t : Relay α} {labels : List (Label α)} (same : .connect ∉ labels)
    (ran : run (step net others) r labels = some t) :
    Linked (labels.flatMap Label.meant) r.sender t.sender := by
  induction labels generalizing r with
  | nil =>
      cases ran
      exact .refl _
  | cons l rest ih =>
      obtain ⟨u, stepped, ran⟩ := run_cons ran
      obtain ⟨here, later⟩ := not_or.mp (List.mem_cons.not.mp same)
      rw [List.flatMap_cons]
      exact (linked_step (Ne.symm here) stepped).trans (ih later ran)

/-- The target gets the commands: a target that has connected, and whose command channel is still
open, has read just the commands that the front-ends and the keyboard have asked for since, in
order, and as they asked for them. -/
theorem target_gets_commands (net : Network α)
    (others : FrameInterpreter → QsFrame → FrameInterpreter × List String) (r t : Relay α)
    (labels : List (Label α)) (same : .connect ∉ labels)
    (ran : run (step net others) r (.connect :: labels) = some t) (s : CommandSender)
    (linked : t.sender = some s) (p : RxParser) (idle : p.state = .idle) :
    ∃ q cmds, p.pushSlice s.written = .ok (q, cmds) ∧
      labels.flatMap Label.meant = cmds.map .ok := by
  obtain ⟨u, stepped, ran⟩ := run_cons ran
  obtain rfl := Option.some.inj stepped
  obtain ⟨start, sent, new, wrote, decoded⟩ := linked_run same ran s linked
  obtain rfl := Option.some.inj new
  obtain ⟨q, cmds, read, known⟩ := RxParser.pushSlice_frames_idle idle sent
  refine ⟨q, cmds, ?_, decoded.symm.trans known⟩
  rw [wrote]
  exact read

/-- A front-end attaches, the keyboard sends a tick, and two front-ends send a command and an
event. -/
def orders : List (Label Nat) :=
  [.poll [(1, [0, 128, 3])], .user (.tick 0),
    .poll [(1, [1, 138, 7, 1, 0, 0, 0, 2, 0, 0, 0, 3, 0, 0, 0]), (2, [0, 135, 5, 6, 0])]]

theorem orders_read : ∃ t s,
    run (step patchy silentOthers) (.new .new) (.connect :: orders) = some t ∧
    t.sender = some s ∧ ∃ q, RxParser.new.pushSlice s.written =
      .ok (q, [.info, .tick 0, .command 7 1 2 3, .event 5 6 []]) := by
  refine ⟨_, _, rfl, rfl, ?_⟩
  obtain ⟨q, cmds, read, known⟩ := target_gets_commands patchy silentOthers (.new .new) _ orders
    (by decide) rfl _ rfl .new rfl
  have meant : orders.flatMap Label.meant =
      [.info, .tick 0, .command 7 1 2 3, .event 5 6 []].map Except.ok := rfl
  rw [meant] at known
  rw [List.map_injective_iff.mpr (fun _ _ => Except.ok.inj) known]
  exact ⟨q, read⟩

end Commands

end Relay

end QpRs.Qs
