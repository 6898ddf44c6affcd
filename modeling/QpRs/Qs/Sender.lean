import QpRs.Qs.Resync

/-! The host's command sender (`tools/qspy/src/commands.rs`) against the target's decoder.

The writer is the byte string written so far. -/

namespace QpRs.Qs

open QpRs.Lib

namespace Commands

def QS_RX_INFO : UInt8 := 0
def QS_RX_COMMAND : UInt8 := 1
def QS_RX_RESET : UInt8 := 2
def QS_RX_TICK : UInt8 := 3
def QS_RX_TEST_SETUP : UInt8 := 7
def QS_RX_TEST_TEARDOWN : UInt8 := 8
def QS_RX_GLB_FILTER : UInt8 := 10
def QS_RX_AO_FILTER : UInt8 := 12
def QS_RX_CONTINUE : UInt8 := 14
def QS_RX_QUERY_CURR : UInt8 := 15

end Commands

structure CommandSender where
  written : List UInt8
  seq : UInt8
  deriving DecidableEq, Repr

namespace CommandSender

open Commands

def new : CommandSender := { written := [], seq := 0 }

def send (s : CommandSender) (recordId : UInt8) (payload : List UInt8) : CommandSender :=
  { written := s.written ++ buildFrame s.seq recordId payload, seq := s.seq + 1 }

def sendInfo (s : CommandSender) : CommandSender := s.send QS_RX_INFO []

def sendReset (s : CommandSender) : CommandSender := s.send QS_RX_RESET []

def sendTick (s : CommandSender) (rate : UInt8) : CommandSender := s.send QS_RX_TICK [rate]

def sendTestSetup (s : CommandSender) : CommandSender := s.send QS_RX_TEST_SETUP []

def sendTestTeardown (s : CommandSender) : CommandSender := s.send QS_RX_TEST_TEARDOWN []

def sendContinue (s : CommandSender) : CommandSender := s.send QS_RX_CONTINUE []

def sendAoFilter (s : CommandSender) (prio : UInt8) : CommandSender := s.send QS_RX_AO_FILTER [prio]

def sendQueryCurr (s : CommandSender) (kind : UInt8) : CommandSender :=
  s.send QS_RX_QUERY_CURR [kind]

def sendCommand (s : CommandSender) (id : UInt8) (p1 p2 p3 : UInt32) : CommandSender :=
  s.send QS_RX_COMMAND
    ([id] ++ toLeBytes 4 p1.toNat ++ toLeBytes 4 p2.toNat ++ toLeBytes 4 p3.toNat)

/-- A length byte stands before the mask. -/
def sendGlbFilter (s : CommandSender) (mask : Vector UInt8 16) : CommandSender :=
  s.send QS_RX_GLB_FILTER ([16] ++ mask.toList)

inductive Call where
  | info
  | reset
  | tick (rate : UInt8)
  | testSetup
  | testTeardown
  | continue
  | aoFilter (prio : UInt8)
  | queryCurr (kind : UInt8)
  | command (id : UInt8) (p1 p2 p3 : UInt32)
  | glbFilter (mask : Vector UInt8 16)
  deriving DecidableEq, Repr

def call (s : CommandSender) : Call → CommandSender
  | .info => s.sendInfo
  | .reset => s.sendReset
  | .tick rate => s.sendTick rate
  | .testSetup => s.sendTestSetup
  | .testTeardown => s.sendTestTeardown
  | .continue => s.sendContinue
  | .aoFilter prio => s.sendAoFilter prio
  | .queryCurr kind => s.sendQueryCurr kind
  | .command id p1 p2 p3 => s.sendCommand id p1 p2 p3
  | .glbFilter mask => s.sendGlbFilter mask

def run (s : CommandSender) (calls : List Call) : CommandSender := calls.foldl call s

/-- What the target should make of a call. -/
def Call.meant : Call → RxCmd
  | .info => .info
  | .reset => .reset
  | .tick rate => .tick rate
  | .testSetup => .testSetup
  | .testTeardown => .testTeardown
  | .continue => .testContinue
  | .aoFilter prio => .aoFilter prio
  | .queryCurr kind => .queryCurr kind
  | .command id p1 p2 p3 => .command id p1 p2 p3
  | .glbFilter mask => .glbFilter mask

/-- A mask behind its length byte, read from the length byte on. -/
def shifted (mask : Vector UInt8 16) : Vector UInt8 16 :=
  ⟨(16 :: mask.toList.take 15).toArray, by simp⟩

def Call.understood : Call → RxCmd
  | .glbFilter mask => .glbFilter (shifted mask)
  | c => c.meant

theorem shifted_eq_iff (mask : Vector UInt8 16) :
    shifted mask = mask ↔ mask = Vector.replicate 16 16 := by
  constructor
  · intro same
    have each : ∀ (i : Nat) (inside : i < 16), mask[i] = 16 := by
      intro i
      induction i with
      | zero =>
          intro inside
          rw [← same]
          rfl
      | succ i ih =>
          intro inside
          have moved : (shifted mask)[i + 1] = mask[i] := by simp [shifted]
          rw [← ih (by omega), ← moved, same]
    apply Vector.ext
    intro i inside
    rw [each i inside, Vector.getElem_replicate]
  · intro same
    rw [same]
    decide

theorem decodeCmd_glbFilter (mask : Vector UInt8 16) :
    RxParser.decodeCmd QS_RX_GLB_FILTER ([16] ++ mask.toList) =
      .ok (.glbFilter (shifted mask)) := by
  have long : cmd.GLB_FILTER = cmd.GLB_FILTER ∧ ([16] ++ mask.toList).length ≥ 16 :=
    ⟨rfl, by simp⟩
  have read : arrayAt Halt.fault ([16] ++ mask.toList) 0 16 = .ok (shifted mask) := by
    rw [arrayAt, slice_ok (by omega) (by simp)]
    simp [tryInto, shifted, bind, Except.bind]
  change (if cmd.GLB_FILTER = cmd.GLB_FILTER ∧ ([16] ++ mask.toList).length ≥ 16 then do
    return RxCmd.glbFilter (← arrayAt Halt.fault ([16] ++ mask.toList) 0 16) else _) = _
  rw [if_pos long, read]
  rfl

theorem u32_read (p : UInt32) : UInt32.ofNat (fromLeBytes (toLeBytes 4 p.toNat)) = p := by
  rw [fromLeBytes_toLeBytes p.toNat_lt, UInt32.ofNat_toNat]

theorem decodeCmd_command (id : UInt8) (p1 p2 p3 : UInt32) :
    RxParser.decodeCmd QS_RX_COMMAND
      ([id] ++ toLeBytes 4 p1.toNat ++ toLeBytes 4 p2.toNat ++ toLeBytes 4 p3.toNat) =
      .ok (.command id p1 p2 p3) := by
  have read : RxParser.decodeCmd QS_RX_COMMAND
      ([id] ++ toLeBytes 4 p1.toNat ++ toLeBytes 4 p2.toNat ++ toLeBytes 4 p3.toNat) =
      .ok (.command id (UInt32.ofNat (fromLeBytes (toLeBytes 4 p1.toNat)))
        (UInt32.ofNat (fromLeBytes (toLeBytes 4 p2.toNat)))
        (UInt32.ofNat (fromLeBytes (toLeBytes 4 p3.toNat)))) := rfl
  rw [read, u32_read, u32_read, u32_read]

/-- Every call sends one frame, and the frame's payload decodes to what is understood. -/
theorem call_sends (c : Call) : ∃ recordId payload, (∀ s : CommandSender,
    s.call c = s.send recordId payload) ∧
      RxParser.decodeCmd recordId payload = .ok c.understood := by
  cases c with
  | command id p1 p2 p3 => exact ⟨_, _, fun _ => rfl, decodeCmd_command id p1 p2 p3⟩
  | glbFilter mask => exact ⟨_, _, fun _ => rfl, decodeCmd_glbFilter mask⟩
  | _ => exact ⟨_, _, fun _ => rfl, rfl⟩

theorem run_sends (s : CommandSender) (calls : List Call) : ∃ sent : List Command,
    (s.run calls).written = s.written ++ sent.flatMap Command.frame ∧
      (sent.map fun c => RxParser.decodeCmd c.recordId c.payload) =
        (calls.map Call.understood).map .ok := by
  induction calls generalizing s with
  | nil => exact ⟨[], (List.append_nil _).symm, rfl⟩
  | cons c rest ih =>
      obtain ⟨recordId, payload, sends, decoded⟩ := call_sends c
      obtain ⟨sent, wrote, later⟩ := ih (s.send recordId payload)
      refine ⟨⟨s.seq, recordId, payload⟩ :: sent, ?_, ?_⟩
      · rw [run, List.foldl_cons, sends]
        exact wrote.trans (List.append_assoc _ _ _)
      · rw [List.map_cons, List.map_cons, List.map_cons, later, decoded]

theorem understood_eq_meant (calls : List Call) :
    calls.map Call.understood = calls.map Call.meant ↔
      ∀ mask, .glbFilter mask ∈ calls → mask = Vector.replicate 16 16 := by
  rw [List.map_inj_left]
  constructor
  · intro same mask member
    exact (shifted_eq_iff mask).mp (RxCmd.glbFilter.inj (same _ member))
  · intro fixed c member
    cases c with
    | glbFilter mask =>
        exact congrArg RxCmd.glbFilter ((shifted_eq_iff mask).mpr (fixed mask member))
    | _ => rfl

theorem pushSlice_run {p : RxParser} (idle : p.state = .idle) (calls : List Call) :
    ∃ q, p.pushSlice (new.run calls).written = .ok (q, calls.map Call.understood) := by
  obtain ⟨sent, wrote, decoded⟩ := run_sends new calls
  obtain ⟨q, cmds, fed, same⟩ := RxParser.pushSlice_frames_idle idle sent
  have known : cmds = calls.map Call.understood :=
    List.map_injective_iff.mpr (fun _ _ => Except.ok.inj) (same.symm.trans decoded)
  rw [known] at fed
  rw [wrote]
  exact ⟨q, fed⟩

/-- The target gets the calls of the host with their arguments exactly when every mask of the
global filter is the one that the length byte does not shift. -/
theorem calls_delivered_iff {p : RxParser} (idle : p.state = .idle) (calls : List Call) :
    (∃ q, p.pushSlice (new.run calls).written = .ok (q, calls.map Call.meant)) ↔
      ∀ mask, .glbFilter mask ∈ calls → mask = Vector.replicate 16 16 := by
  obtain ⟨q, fed⟩ := pushSlice_run idle calls
  rw [← understood_eq_meant]
  constructor
  · rintro ⟨r, meant⟩
    rw [fed] at meant
    exact (Prod.mk.inj (Except.ok.inj meant)).2
  · intro same
    rw [← same]
    exact ⟨q, fed⟩

def tickThenFilter : List Call :=
  [.tick 0x7E, .glbFilter (Vector.replicate 16 16), .command 1 2 3 4]

theorem tickThenFilter_delivered :
    ∃ q, RxParser.stale.pushSlice (new.run tickThenFilter).written =
      .ok (q, tickThenFilter.map Call.meant) := by
  have masks : ∀ mask, .glbFilter mask ∈ tickThenFilter → mask = Vector.replicate 16 16 := by
    simp [tickThenFilter]
  exact (calls_delivered_iff (show RxParser.stale.state = .idle from rfl) tickThenFilter).mpr masks

/-- The mask that lets every record pass reaches the target with sixteen in its first byte. -/
theorem full_mask_shifted :
    ¬∃ q, RxParser.new.pushSlice (new.run [.glbFilter (Vector.replicate 16 0xFF)]).written =
      .ok (q, [.glbFilter (Vector.replicate 16 0xFF)]) := by
  rintro ⟨q, meant⟩
  obtain ⟨r, fed⟩ := pushSlice_run (show RxParser.new.state = .idle from rfl)
    [.glbFilter (Vector.replicate 16 0xFF)]
  rw [fed] at meant
  have same := (Prod.mk.inj (Except.ok.inj meant)).2
  revert same
  decide

end CommandSender

end QpRs.Qs
