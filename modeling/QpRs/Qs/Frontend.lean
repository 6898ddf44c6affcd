import QpRs.Lib.Keyed
import QpRs.Lib.Utf8
import QpRs.Qs.Sender
import Mathlib.Data.List.DropRight

/-! The server for front-ends (`tools/qspy/src/frontend.rs`): it keeps the front-ends that are
attached, sends them records and text lines in numbered datagrams, and turns their datagrams into
commands.

`α` are the addresses. Whether a `send_to` succeeds is up to `reaches`. -/

namespace QpRs.Qs

open QpRs.Lib

def QSPY_ATTACH : UInt8 := 128
def QSPY_DETACH : UInt8 := 129
def QSPY_SAVE_DICT : UInt8 := 130
def QSPY_TEXT_OUT : UInt8 := 131
def QSPY_BIN_OUT : UInt8 := 132
def QSPY_SEND_EVENT : UInt8 := 135
def QSPY_SEND_AO_FILTER : UInt8 := 136
def QSPY_SEND_CURR_OBJ : UInt8 := 137
def QSPY_SEND_COMMAND : UInt8 := 138
def QSPY_SEND_TEST_PROBE : UInt8 := 139
def QSPY_CLEAR_SCREEN : UInt8 := 140
def QSPY_SHOW_NOTE : UInt8 := 141

def CHANNEL_BINARY : UInt8 := 0x01
def CHANNEL_TEXT : UInt8 := 0x02

namespace Commands

def QS_RX_TEST_PROBE : UInt8 := 9
def QS_RX_CURR_OBJ : UInt8 := 13
def QS_RX_EVENT : UInt8 := 16

end Commands

inductive FrontendCmd where
  | command (id : UInt8) (p1 p2 p3 : UInt32)
  | saveDict
  | clearScreen
  | info
  | toggleTextOut
  | toggleBinOut
  | showNote (note : String)
  | rawQsRx (id : UInt8) (payload : List UInt8)
  deriving DecidableEq, Repr

structure Client (α : Type) where
  addr : α
  channels : UInt8
  seq : UInt8
  deriving DecidableEq, Repr

/-- A datagram with the address it is sent to. -/
abbrev Datagram (α : Type) := α × List UInt8

/-- No two clients have the same address. -/
structure FrontendServer (α : Type) where
  clients : Keyed (Client.addr (α := α))

namespace Client

variable {α : Type}

def listens (c : Client α) (channel : UInt8) : Bool := c.channels &&& channel != 0

/-- A client after the datagram for it, if there is one; it goes if that cannot be sent. -/
def served (channel : UInt8) (reaches : α → Bool) (c : Client α) : Option (Client α) :=
  if c.listens channel then
    if reaches c.addr then some { c with seq := c.seq + 1 } else none
  else some c

def packet (channel : UInt8) (body : List UInt8) (reaches : α → Bool) (c : Client α) :
    Option (List UInt8) :=
  if c.listens channel && reaches c.addr then some (c.seq :: body) else none

theorem served_addr (channel : UInt8) (reaches : α → Bool) (c d : Client α)
    (served : c.served channel reaches = some d) : d.addr = c.addr := by
  unfold Client.served at served
  split at served
  · split at served
    · rw [← Option.some.inj served]
    · cases served
  · rw [← Option.some.inj served]

end Client

namespace FrontendServer

variable {α : Type} [DecidableEq α]

def new : FrontendServer α := ⟨.empty⟩

/-- The loop of `forward_frame` and `forward_text`. -/
def forward (s : FrontendServer α) (channel : UInt8) (body : List UInt8) (reaches : α → Bool) :
    FrontendServer α × List (Datagram α) :=
  (⟨s.clients.visit (Client.served channel reaches) (Client.served_addr channel reaches)⟩,
    s.clients.items.filterMap fun c => (c.packet channel body reaches).map (c.addr, ·))

def forwardFrame (s : FrontendServer α) (recordType : UInt8) (payload : List UInt8) :=
  s.forward CHANNEL_BINARY (recordType :: payload)

def forwardText (s : FrontendServer α) (line : String) :=
  s.forward CHANNEL_TEXT (0x00 :: (utf8Bytes line ++ [10]))

/-- The change of the channels of a client that is attached already. -/
def retune (peer : α) (channels : UInt8) (c : Client α) : Option (Client α) :=
  some (if c.addr = peer then { c with channels := channels } else c)

theorem retune_addr (peer : α) (channels : UInt8) (c d : Client α)
    (changed : retune peer channels c = some d) : d.addr = c.addr := by
  rw [← Option.some.inj changed]
  split <;> rfl

def attach (s : FrontendServer α) (peer : α) (channels : UInt8) : FrontendServer α :=
  if attached : (s.clients.find peer).isSome then
    ⟨s.clients.visit (retune peer channels) (retune_addr peer channels)⟩
  else ⟨s.clients.push ⟨peer, channels, 0⟩ (Option.not_isSome_iff_eq_none.mp attached)⟩

def keepOthers (peer : α) (c : Client α) : Option (Client α) :=
  if c.addr ≠ peer then some c else none

theorem keepOthers_addr (peer : α) (c d : Client α) (kept : keepOthers peer c = some d) :
    d.addr = c.addr := by
  rw [Option.some.inj (Option.ite_none_right_eq_some.mp kept).2]

def detach (s : FrontendServer α) (peer : α) : FrontendServer α :=
  ⟨s.clients.visit (keepOthers peer) (keepOthers_addr peer)⟩

def u32At (payload : List UInt8) (first : Nat) : UInt32 :=
  UInt32.ofNat (fromLeBytes ((payload.drop first).take 4))

/-- The arms of `handle_packet` that leave the clients alone. -/
def commandsOf (recordId : UInt8) (payload : List UInt8) : List FrontendCmd :=
  if recordId = QSPY_SAVE_DICT then [.saveDict]
  else if recordId = QSPY_CLEAR_SCREEN then [.clearScreen]
  else if recordId = QSPY_TEXT_OUT then [.toggleTextOut]
  else if recordId = QSPY_BIN_OUT then [.toggleBinOut]
  else if recordId = QSPY_SHOW_NOTE then
    let note := (fromUtf8Lossy payload).toList.rdropWhile (· = '\x00')
    [.showNote (String.ofList note)]
  else if recordId = QSPY_SEND_EVENT then [.rawQsRx Commands.QS_RX_EVENT payload]
  else if recordId = QSPY_SEND_AO_FILTER then [.rawQsRx Commands.QS_RX_AO_FILTER payload]
  else if recordId = QSPY_SEND_CURR_OBJ then [.rawQsRx Commands.QS_RX_CURR_OBJ payload]
  else if recordId = QSPY_SEND_TEST_PROBE then [.rawQsRx Commands.QS_RX_TEST_PROBE payload]
  else if recordId = QSPY_SEND_COMMAND ∧ payload.length ≥ 13 then
    [.command (payload.headD 0) (u32At payload 1) (u32At payload 5) (u32At payload 9)]
  else if recordId < 128 then [.rawQsRx recordId payload]
  else []

def handlePacket (s : FrontendServer α) (data : List UInt8) (peer : α) (reaches : α → Bool) :
    FrontendServer α × List (Datagram α) × List FrontendCmd :=
  match data with
  | feSeq :: recordId :: payload =>
      if recordId = QSPY_ATTACH then
        let ack := [feSeq, QSPY_ATTACH]
        (s.attach peer (payload.headD CHANNEL_BINARY),
          if reaches peer then [(peer, ack)] else [], [.info])
      else if recordId = QSPY_DETACH then (s.detach peer, [], [])
      else (s, [], commandsOf recordId payload)
  | _ => (s, [], [])

def sentTo (a : α) (sent : List (Datagram α)) : List (List UInt8) :=
  (sent.filter fun m => m.1 = a).map Prod.snd

theorem sentTo_append (a : α) (first later : List (Datagram α)) :
    sentTo a (first ++ later) = sentTo a first ++ sentTo a later := by
  simp [sentTo]

section Session

variable {s : FrontendServer α} {a : α} {c : Client α}

theorem forward_reached (attached : s.clients.find a = some c) (channel : UInt8)
    (body : List UInt8) {reaches : α → Bool} (reached : reaches a = true) :
    (s.forward channel body reaches).1.clients.find a =
        some (if c.listens channel then { c with seq := c.seq + 1 } else c) ∧
      sentTo a (s.forward channel body reaches).2 =
        if c.listens channel then [c.seq :: body] else [] := by
  have here : c.addr = a := Keyed.find_key attached
  have served : c.served channel reaches =
      some (if c.listens channel then { c with seq := c.seq + 1 } else c) := by
    unfold Client.served
    rw [here, if_pos reached]
    split <;> rfl
  have packet : c.packet channel body reaches =
      if c.listens channel then some (c.seq :: body) else none := by
    simp [Client.packet, here, reached]
  constructor
  · calc (s.forward channel body reaches).1.clients.find a
        = (s.clients.find a).bind (Client.served channel reaches) :=
          Keyed.find_visit s.clients (Client.served_addr channel reaches) a
      _ = c.served channel reaches := by rw [attached, Option.bind_some]
      _ = _ := served
  · have sent : (s.forward channel body reaches).2.filter (fun m => m.1 = a) =
        (((s.clients.find a).bind (Client.packet channel body reaches)).map (a, ·)).toList :=
      Keyed.sent_to s.clients.distinct
    rw [sentTo, sent, attached, Option.bind_some, packet]
    split <;> rfl

theorem attach_other (attached : s.clients.find a = some c) {peer : α} (other : peer ≠ a)
    (channels : UInt8) : (s.attach peer channels).clients.find a = some c := by
  have here : c.addr = a := Keyed.find_key attached
  unfold attach
  split
  · have changed := Keyed.find_visit s.clients (retune_addr peer channels) a
    rw [changed, attached, Option.bind_some, retune, if_neg (by rw [here]; exact other.symm)]
  · rename_i absent
    have pushed := Keyed.find_push s.clients ⟨peer, channels, 0⟩
      (Option.not_isSome_iff_eq_none.mp absent) a
    rw [pushed, if_neg other, attached]

theorem detach_other (attached : s.clients.find a = some c) {peer : α} (other : peer ≠ a) :
    (s.detach peer).clients.find a = some c := by
  have here : c.addr = a := Keyed.find_key attached
  have kept := Keyed.find_visit s.clients (keepOthers_addr peer) a
  rw [detach, kept, attached, Option.bind_some, keepOthers, if_pos (by rw [here]; exact other.symm)]

/-- The datagrams with which a client attaches, changes its channels or leaves. -/
def Membership (data : List UInt8) : Prop :=
  ∃ feSeq payload, data = feSeq :: QSPY_ATTACH :: payload ∨ data = feSeq :: QSPY_DETACH :: payload

/-- No datagram of another peer, and no command of its own, touches a client. -/
theorem handlePacket_keeps (attached : s.clients.find a = some c) {peer : α} {data : List UInt8}
    (settled : peer = a → ¬Membership data) (reaches : α → Bool) :
    (s.handlePacket data peer reaches).1.clients.find a = some c ∧
      sentTo a (s.handlePacket data peer reaches).2.1 = [] := by
  rcases data with _ | ⟨feSeq, _ | ⟨recordId, payload⟩⟩
  · exact ⟨attached, rfl⟩
  · exact ⟨attached, rfl⟩
  · by_cases attach : recordId = QSPY_ATTACH
    · subst attach
      have other : peer ≠ a := fun same => settled same ⟨feSeq, payload, .inl rfl⟩
      refine ⟨attach_other attached other _, ?_⟩
      cases reached : reaches peer <;> simp [handlePacket, reached, sentTo, other]
    · by_cases detach : recordId = QSPY_DETACH
      · subst detach
        have other : peer ≠ a := fun same => settled same ⟨feSeq, payload, .inr rfl⟩
        exact ⟨detach_other attached other, rfl⟩
      · simp only [handlePacket, if_neg attach, if_neg detach]
        exact ⟨attached, rfl⟩

end Session

end FrontendServer

end QpRs.Qs
