import QpRs.Qs.Rx

/-! The host's QS-RX frames, against the target's parser. -/

namespace QpRs.Qs

open QpRs.Lib

namespace Commands

/-- The raw bytes of a frame, before the stuffing: header, payload and checksum. -/
def raw (seq recordId : UInt8) (payload : List UInt8) : List UInt8 :=
  let raw := [seq] ++ [recordId] ++ payload
  raw ++ [~~~sum raw]

/-- The raw bytes stuffed, between two flags. -/
def delimit (raw : List UInt8) : List UInt8 := raw.foldl pushLiteral [FLAG] ++ [FLAG]

def buildFrame (seq recordId : UInt8) (payload : List UInt8) : List UInt8 :=
  delimit (raw seq recordId payload)

end Commands

/-- The arguments of one `build_frame`. -/
structure Command where
  seq : UInt8
  recordId : UInt8
  payload : List UInt8
  deriving DecidableEq, Repr

namespace Command

def raw (c : Command) : List UInt8 := Commands.raw c.seq c.recordId c.payload

def frame (c : Command) : List UInt8 := Commands.buildFrame c.seq c.recordId c.payload

end Command

namespace RxParser

/-- Inside a frame of which `raw` was accepted. -/
def opened (raw : List UInt8) : RxParser := ⟨.inFrame, raw, sum raw⟩

def stuffed (raw : List UInt8) : RxParser := ⟨.escaped, raw, sum raw⟩

theorem accept_opened (raw : List UInt8) (b : UInt8) :
    (opened raw).accept b = opened (raw ++ [b]) := by
  have grown : sum (raw ++ [b]) = sum raw + b := by
    rw [sum_append]
    exact congrArg (sum raw + ·) (UInt8.zero_add b)
  rw [opened, opened, accept, grown]

theorem unstuffs : hdlc.Unstuffs push opened stuffed where
  plain := by
    intro raw b ordinary unescaped
    have pushed : push (opened raw) b = .ok ((opened raw).accept b, none) := by
      simp only [push, opened, if_neg (show ¬b = FLAG from ordinary),
        if_neg (show ¬b = ESC from unescaped)]
    rw [pushed, accept_opened]
  escape := by
    intro raw
    rfl
  stood := by
    intro raw b _
    have pushed : push (stuffed raw) b = .ok ((opened raw).accept (b ^^^ ESC_XOR), none) := rfl
    rw [pushed, accept_opened]
    rfl

/-- A parser at rest takes a whole frame and decides it once, at the closing flag. -/
theorem pushSlice_delimit {p : RxParser} (idle : p.state = .idle) {raw : List UInt8}
    {result : Option RxCmd} (decided : (opened raw).tryDecode = .ok result) :
    pushSlice p (Commands.delimit raw) = .ok (new, result.toList) := by
  have opening : push p FLAG = .ok (opened [], none) := by
    simp only [push, idle]
    rfl
  have closing : push (opened raw) FLAG = .ok (new, result) := by
    simp only [push, opened, if_true]
    rw [opened] at decided
    rw [decided]
    rfl
  have body := unstuffs.feed_stuff [] raw
  rw [Commands.delimit, foldl_pushLiteral, List.append_assoc]
  exact feed_cons_ok opening (feed_append_ok body (feed_singleton_ok closing))

theorem tryDecode_raw (c : Command) {decoded : RxCmd}
    (meant : decodeCmd c.recordId c.payload = .ok decoded) :
    (opened c.raw).tryDecode = .ok (some decoded) := by
  have sized : c.raw.length = c.payload.length + 3 := by
    simp [Command.raw, Commands.raw]
  have long : ¬c.raw.length < 3 := by omega
  have checked : sum c.raw = 0xFF := sum_checked _
  have cut : c.raw.length - 1 = c.payload.length + 2 := by omega
  have second : index Halt.fault c.raw 1 = .ok c.recordId := rfl
  have content : slice Halt.fault c.raw 2 (c.payload.length + 2) = .ok c.payload := by
    rw [slice_ok (Nat.le_add_left 2 _) (by omega)]
    simp [Command.raw, Commands.raw]
  simp only [tryDecode, opened, if_neg long, checked, cut, second, content, meant, ne_eq,
    not_true_eq_false, if_false, bind, Except.bind, pure, Except.pure]

theorem tryDecode_changed (c : Command) {i : Nat} {b : UInt8} (inside : i < c.raw.length)
    (other : b ≠ c.raw[i]) : (opened (c.raw.set i b)).tryDecode = .ok none := by
  have wrong : sum (c.raw.set i b) ≠ 0xFF := by
    rw [← sum_checked ([c.seq] ++ [c.recordId] ++ c.payload)]
    exact sum_set_ne inside other
  by_cases short : (opened (c.raw.set i b)).buf.length < 3
  · exact if_pos short
  · exact (if_neg short).trans (if_pos wrong)

/-- On a clean channel every frame gives its command, and the parser ends at rest. A frame with one
wrong byte gives none and costs no other frame its command. -/
theorem commands_delivered {p : RxParser} (idle : p.state = .idle) (sent : List Command) :
    ∃ cmds, (sent.map fun c => decodeCmd c.recordId c.payload) = cmds.map .ok ∧
      (∃ q, q.state = .idle ∧ pushSlice p (sent.flatMap Command.frame) = .ok (q, cmds)) ∧
      ∀ (k i : Nat) (b : UInt8) (one : k < sent.length) (inside : i < sent[k].raw.length),
        b ≠ sent[k].raw[i] →
        ∃ q, q.state = .idle ∧
          pushSlice p ((sent.take k).flatMap Command.frame ++
            Commands.delimit (sent[k].raw.set i b) ++ (sent.drop (k + 1)).flatMap Command.frame) =
          .ok (q, cmds.take k ++ cmds.drop (k + 1)) := by
  choose decoded meant using fun c : Command => decodeCmd_returns c.recordId c.payload
  have each : ∀ (p : RxParser) (c : Command), p.state = .idle →
      ∃ q, q.state = .idle ∧ feed push p c.frame = .ok (q, [decoded c]) := by
    intro p c idle
    exact ⟨new, rfl, pushSlice_delimit idle (tryDecode_raw c (meant c))⟩
  have frames : ∀ {p : RxParser}, p.state = .idle → ∀ sent : List Command, ∃ q, q.state = .idle ∧
      feed push p (sent.flatMap Command.frame) = .ok (q, sent.map decoded) := by
    intro p idle sent
    obtain ⟨q, rested, fed⟩ := feed_segments each idle sent
    rw [← List.map_eq_flatMap] at fed
    exact ⟨q, rested, fed⟩
  refine ⟨sent.map decoded, ?_, frames idle sent, ?_⟩
  · rw [List.map_map]
    exact List.map_congr_left fun c _ => meant c
  · intro k i b one inside other
    obtain ⟨q, rested, before⟩ := frames idle (sent.take k)
    have lost := pushSlice_delimit rested (tryDecode_changed sent[k] inside other)
    obtain ⟨q', ended, after⟩ := frames (show new.state = .idle from rfl) (sent.drop (k + 1))
    refine ⟨q', ended, ?_⟩
    have all := feed_append_ok (feed_append_ok before lost) after
    rw [Option.toList_none, List.append_nil, List.map_take, List.map_drop] at all
    exact all

/-- At rest, with bytes and a checksum left behind. -/
def stale : RxParser := ⟨.idle, [1, 2], 7⟩

def tickInfo : List Command := [⟨1, cmd.TICK, [0x7E]⟩, ⟨2, cmd.INFO, []⟩]

theorem tickInfo_delivered :
    (∃ q, q.state = .idle ∧
      pushSlice stale (tickInfo.flatMap Command.frame) = .ok (q, [.tick 0x7E, .info])) ∧
    ∃ q, q.state = .idle ∧
      pushSlice stale ([] ++ Commands.delimit ([1, 3, 0x7E, 0x7D].set 2 0x7D) ++
        [⟨2, cmd.INFO, []⟩].flatMap Command.frame) = .ok (q, [.info]) := by
  have idle : stale.state = .idle := rfl
  obtain ⟨cmds, meant, all, changed⟩ := commands_delivered idle tickInfo
  have values : (tickInfo.map fun c => decodeCmd c.recordId c.payload) =
      [RxCmd.tick 0x7E, .info].map .ok := by decide +kernel
  have known : cmds = [.tick 0x7E, .info] :=
    List.map_injective_iff.mpr (fun _ _ => Except.ok.inj) (meant.symm.trans values)
  have bytes : (tickInfo.get ⟨0, by decide⟩).raw = [1, 3, 0x7E, 0x7D] := by decide +kernel
  rw [known] at all changed
  have none := changed 0 2 0x7D (by decide) (by decide) (by decide)
  rw [show tickInfo[0].raw = [1, 3, 0x7E, 0x7D] from bytes] at none
  exact ⟨all, none⟩

end RxParser

end QpRs.Qs
