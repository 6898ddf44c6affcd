import QpRs.LoraSend.Host
import Mathlib.Tactic.IntervalCases

/-! What the network hears of the LoRa example: the texts in order and none twice, and all of them
when the node is left to finish between two timeouts. -/

namespace QpRs.LoraSend

open Comms Hsm Lib

theorem sender_dispatch (checked traced : Bool) {m : SenderHsm}
    (here : m.state.get = some .sending) (e : RfDynEvent) :
    ∃ n, senderDispatch checked traced m e = .ok n ∧ n.state.get = some .sending ∧
      (e.signal = timeoutSig ∧ n.sm = { m.sm with posts := [] }.send checked ∨
        e.signal ≠ timeoutSig ∧ n.sm.count = m.sm.count ∧ n.sm.posts = [] ∧
          n.sm.panicked = m.sm.panicked) := by
  obtain ⟨⟨state, copy, agree⟩, temp, sm, history, calls, records⟩ := m
  obtain ⟨⟨⟨signal⟩, pool, count⟩, payload⟩ := e
  cases here
  -- The handler names no signal above 27.
  by_cases low : signal < 28
  · by_cases due : signal = 10
    · subst due
      cases traced <;> exact ⟨_, rfl, rfl, .inl ⟨rfl, rfl⟩⟩
    · have other : (⟨signal⟩ : Signal) ≠ timeoutSig := fun same => due (congrArg Signal.val same)
      interval_cases signal <;> first
        | exact absurd rfl due
        | cases traced <;> exact ⟨_, rfl, rfl, .inr ⟨other, rfl, rfl, rfl⟩⟩
  · obtain ⟨k, rfl⟩ : ∃ k, signal = k + 28 := ⟨signal - 28, by omega⟩
    have other : (⟨k + 28⟩ : Signal) ≠ timeoutSig := by
      intro same
      have value : k + 28 = 10 := congrArg Signal.val same
      omega
    cases traced <;> exact ⟨_, rfl, rfl, .inr ⟨other, rfl, rfl, rfl⟩⟩

theorem start_sender (checked traced : Bool) :
    (start checked traced).sender.state.get = some .sending ∧
      (start checked traced).sender.sm.count = 0 := by
  cases traced <;> exact ⟨rfl, rfl⟩

theorem request_sendable (count : UInt32) : Sendable (request count) := by
  refine ⟨rfl, ?_⟩
  have digits : (toString count.toNat).toList.length ≤ 10 := by
    change count.toNat.repr.toList.length ≤ 10
    rw [Nat.toList_repr]
    apply (Nat.length_toDigits_le_iff (by decide) (by decide)).mpr
    exact Nat.lt_trans count.toNat_lt (by decide)
  have bytes := length_utf8Bytes_le ("hello LoRa #" ++ toString count.toNat)
  rw [String.toList_append, List.length_append] at bytes
  have greeting : "hello LoRa #".toList.length = 12 := rfl
  change (utf8Bytes _).length ≤ 219
  omega

/-- The requests of the first `n` timeouts. -/
def requests (n : ℕ) : List RfTxReqPayload :=
  (List.range n).map fun k => request (UInt32.ofNat (k + 1))

theorem requests_succ (n : ℕ) :
    requests (n + 1) = requests n ++ [request (UInt32.ofNat (n + 1))] := by
  rw [requests, List.range_succ, List.map_append]
  rfl

theorem requests_sendable {n : ℕ} {req : RfTxReqPayload} (mem : req ∈ requests n) :
    Sendable req := by
  obtain ⟨k, _, rfl⟩ := List.mem_map.mp mem
  exact request_sendable _

def asked (req : RfTxReqPayload) : RfDynEvent := .withPayload rfTxReqSig (.txReq req)

def timeouts (queue : List RfDynEvent) : ℕ := queue.countP fun e => e.signal = timeoutSig

def takes (s : Node) : Label → ℕ
  | .dispatchSender => timeouts (s.senderQueue.take 1)
  | _ => 0

section Heard

variable [Crypto]

/-- How many timeouts the sender takes in a run of the example. -/
def timeoutsTaken (checked traced : Bool) (labels : List Label) : ℕ :=
  total takes (step checked traced) (start checked traced) labels

/-- The node after `n` timeouts: the frames that the radio was given, and the requests on the way to
the stack. -/
structure Sending (s : Node) (n : ℕ) (sent : List Uplink) (waiting : List RfTxReqPayload) :
    Prop where
  state : s.sender.state.get = some .sending
  count : s.sender.sm.count = UInt32.ofNat n
  host : Host s.rf sent
  queue : s.rfQueue = waiting.map asked
  order : (sent.map Uplink.request ++ s.rf.pendingTx.toList ++ waiting).Sublist (requests n)

variable {checked traced : Bool} {s t : Node} {n : ℕ} {sent : List Uplink}
  {waiting : List RfTxReqPayload}

omit [Crypto] in
theorem timeouts_posted (queue : List RfDynEvent) (posted : List Posted) :
    timeouts (queue ++ posted.map Posted.event) = timeouts queue := by
  have none_due : timeouts (posted.map Posted.event) = 0 := by
    apply List.countP_eq_zero.mpr
    intro e mem due
    obtain ⟨post, _, rfl⟩ := List.mem_map.mp mem
    have signal : (Posted.event post).signal = timeoutSig := of_decide_eq_true due
    cases post <;> cases signal
  rw [timeouts, List.countP_append]
  exact congrArg (timeouts queue + ·) none_due

theorem tick_does (stepped : step checked traced s .tick = some t) :
    ∃ timer due, due.length ≤ 1 ∧ t = { s with
      sender := { s.sender with sm := { s.sender.sm with timer := timer } }
      senderQueue := s.senderQueue ++ due } := by
  obtain rfl := Option.some.inj stepped
  refine ⟨_, _, ?_, rfl⟩
  rw [postsTo, List.length_map]
  apply (List.length_filter_le _ _).trans
  cases (s.sender.sm.timer.poll RfPayload).1 with
  | none => exact Nat.zero_le 1
  | some post => exact Nat.le_refl 1

theorem sender_does (here : s.sender.state.get = some .sending)
    (stepped : step checked traced s .dispatchSender = some t) :
    ∃ e rest m more, s.senderQueue = e :: rest ∧
      t = { s with
        sender := m, senderQueue := rest, rfQueue := s.rfQueue ++ more.map asked } ∧
      m.state.get = some .sending ∧
      (e.signal = timeoutSig ∧ m.sm.count = s.sender.sm.count + 1 ∧
          more = [request (s.sender.sm.count + 1)] ∨
        e.signal ≠ timeoutSig ∧ m.sm.count = s.sender.sm.count ∧ more = []) := by
  cases queued : s.senderQueue with
  | nil =>
      simp only [step, queued] at stepped
      cases stepped
  | cons e rest =>
      obtain ⟨m, dispatched, still, outcome⟩ := sender_dispatch checked traced here e
      simp only [step, queued, dispatched] at stepped
      split at stepped
      · cases stepped
      · rename_i alive
        obtain rfl := Option.some.inj stepped
        rcases outcome with ⟨due, sent⟩ | ⟨other, count, posts, _⟩
        · rw [LoRaSenderData.send] at sent
          split at sent
          · rw [sent] at alive
            exact absurd rfl alive
          · refine ⟨e, rest, m, [request (s.sender.sm.count + 1)], rfl, ?_, still,
              .inl ⟨due, congrArg LoRaSenderData.count sent, rfl⟩⟩
            rw [sent]
            rfl
        · refine ⟨e, rest, m, [], rfl, ?_, still, .inr ⟨other, count, rfl⟩⟩
          rw [posts]
          rfl

theorem Host.clear {rf : HostRfAo} (host : Host rf sent) : Host { rf with posted := [] } sent :=
  ⟨host.same rfl rfl rfl ⟨rfl, rfl⟩, host.once, host.phase⟩

theorem rf_does (checked traced : Bool) (host : Host s.rf sent) {req : RfTxReqPayload}
    {rest : List RfDynEvent}
    (queued : s.rfQueue = asked req :: rest) (sendable : Sendable req) :
    ∃ t, step checked traced s .dispatchRf = some t ∧ t.sender = s.sender ∧ t.rfQueue = rest ∧
      timeouts t.senderQueue = timeouts s.senderQueue ∧ irq t.rf = true ∧
      (irq s.rf = true ∧ Host t.rf sent ∧ t.rf.pendingTx = s.rf.pendingTx.or (some req) ∨
        irq s.rf = false ∧ t.rf.pendingTx = none ∧
          ∃ header, Host t.rf (sent ++ [⟨sent.length, req, header, 1⟩])) := by
  have dispatched {rf : HostRfAo}
      (done : RfStackAO.dispatch checked { s.rf with posted := [] } (asked req) = .ok rf) :
      step checked traced s .dispatchRf = some ({ s with rfQueue := rest }.withRf rf) := by
    simp only [step, queued, done]
  cases reports : irq s.rf with
  | true =>
      have waits := dispatch_busy checked host.clear reports req
      have again :
          Host { s.rf with posted := [], pendingTx := s.rf.pendingTx.or (some req) } sent := by
        refine ⟨host.same rfl rfl rfl ⟨rfl, rfl⟩, host.once, ?_⟩
        rcases host.phase with on_air | ⟨_, silent, _⟩
        · exact .inl on_air
        · rw [reports] at silent
          cases silent
      exact ⟨_, dispatched waits, rfl, rfl, timeouts_posted _ _, reports, .inl ⟨rfl, again, rfl⟩⟩
  | false =>
      obtain ⟨rf, header, launched, next, loud, pending, _⟩ :=
        dispatch_free checked host.clear reports sendable
      have empty : s.rf.pendingTx = none := by
        rcases host.phase with ⟨_, loud⟩ | ⟨_, _, empty⟩
        · rw [reports] at loud
          cases loud
        · exact empty
      exact ⟨_, dispatched launched, rfl, rfl, timeouts_posted _ _, loud,
        .inr ⟨rfl, pending.trans empty, header, next⟩⟩

theorem pump_does (checked traced : Bool) (host : Host s.rf sent)
    (sendable : ∀ req ∈ s.rf.pendingTx, Sendable req) :
    ∃ t later, step checked traced s .pump = some t ∧ t.sender = s.sender ∧
      t.rfQueue = s.rfQueue ∧ timeouts t.senderQueue = timeouts s.senderQueue ∧
      Host t.rf (sent ++ later) ∧ later.map Uplink.request = s.rf.pendingTx.toList ∧
      t.rf.pendingTx = none ∧ irq t.rf = s.rf.pendingTx.isSome := by
  have pumped {some_event : Bool} {rf : HostRfAo}
      (done : RfStackAO.pump checked { s.rf with posted := [] } = .ok (some_event, rf)) :
      step checked traced s .pump = some (s.withRf rf) := by
    simp only [step, done]
  cases reports : irq s.rf with
  | true =>
      obtain ⟨rf, later, done, next, went, empty, loud, _⟩ :=
        pump_reports checked host.clear reports sendable
      exact ⟨_, later, pumped done, rfl, rfl, timeouts_posted _ _, next, went, empty, loud⟩
  | false =>
      have empty : s.rf.pendingTx = none := by
        rcases host.phase with ⟨_, loud⟩ | ⟨_, _, empty⟩
        · rw [reports] at loud
          cases loud
        · exact empty
      have same : Host { s.rf with posted := [] } (sent ++ []) := by
        rw [List.append_nil]
        exact host.clear
      refine ⟨_, [], pumped (pump_silent checked reports), rfl, rfl, timeouts_posted _ _, same, ?_,
        empty, ?_⟩
      · rw [empty]
        rfl
      · rw [empty]
        exact reports

/-- Everything that is asked for or sent stems from a timeout. -/
theorem Sending.sendable (here : Sending s n sent waiting) {req : RfTxReqPayload}
    (mem : req ∈ sent.map Uplink.request ++ s.rf.pendingTx.toList ++ waiting) : Sendable req :=
  requests_sendable (here.order.mem mem)

theorem Sending.pending (here : Sending s n sent waiting) :
    ∀ req ∈ s.rf.pendingTx, Sendable req := by
  intro req waits
  apply here.sendable
  apply List.mem_append_left
  apply List.mem_append_right
  exact Option.mem_toList.mpr waits

theorem Sending.served (here : Sending s n sent waiting) (sender : t.sender = s.sender)
    {sent' : List Uplink} {waiting' : List RfTxReqPayload} (host : Host t.rf sent')
    (queue : t.rfQueue = waiting'.map asked)
    (kept : (sent'.map Uplink.request ++ t.rf.pendingTx.toList ++ waiting').Sublist
      (sent.map Uplink.request ++ s.rf.pendingTx.toList ++ waiting)) :
    Sending t n sent' waiting' where
  state := sender ▸ here.state
  count := sender ▸ here.count
  host := host
  queue := queue
  order := kept.trans here.order

theorem Sending.dispatchSender (here : Sending s n sent waiting)
    (stepped : step checked traced s .dispatchSender = some t) :
    t.rf = s.rf ∧
      timeouts s.senderQueue = timeouts t.senderQueue + takes s .dispatchSender ∧
      (takes s .dispatchSender = 1 ∧
          Sending t (n + 1) sent (waiting ++ [request (UInt32.ofNat (n + 1))]) ∨
        takes s .dispatchSender = 0 ∧ Sending t n sent waiting) := by
  obtain ⟨e, rest, m, more, queued, rfl, state, ⟨due, count, rfl⟩ | ⟨other, count, rfl⟩⟩ :=
    sender_does here.state stepped
  · have taken : takes s .dispatchSender = 1 := by
      rw [takes, queued]
      exact List.countP_cons_of_pos (decide_eq_true due)
    refine ⟨rfl, ?_, .inl ⟨taken, ?_⟩⟩
    · rw [queued, taken]
      exact List.countP_cons_of_pos (decide_eq_true due)
    · have next : s.sender.sm.count + 1 = UInt32.ofNat (n + 1) := by
        rw [here.count]
        exact (UInt32.ofNat_add n 1).symm
      rw [next] at count ⊢
      refine ⟨state, count, here.host, ?_, ?_⟩
      · rw [List.map_append, ← here.queue]
      · rw [requests_succ, ← List.append_assoc]
        exact here.order.append_right _
  · have unmarked : ¬decide (e.signal = timeoutSig) = true := by
      rw [decide_eq_true_iff]
      exact other
    have taken : takes s .dispatchSender = 0 := by
      rw [takes, queued]
      exact List.countP_cons_of_neg unmarked
    refine ⟨rfl, ?_, .inr ⟨taken, ?_⟩⟩
    · rw [queued, taken]
      exact List.countP_cons_of_neg unmarked
    · rw [List.map_nil, List.append_nil]
      exact ⟨state, count.trans here.count, here.host, here.queue, here.order⟩

theorem Sending.dispatchRf (here : Sending s n sent waiting)
    (stepped : step checked traced s .dispatchRf = some t) :
    ∃ req rest sent', waiting = req :: rest ∧ Sending t n sent' rest ∧
      timeouts t.senderQueue = timeouts s.senderQueue ∧ irq t.rf = true ∧
      (irq s.rf = false → t.rf.pendingTx = none ∧
        sent'.map Uplink.request = sent.map Uplink.request ++ [req]) := by
  cases waiting with
  | nil =>
      have empty : s.rfQueue = [] := here.queue
      simp only [step, empty] at stepped
      cases stepped
  | cons req rest =>
      obtain ⟨u, stepped', sender, queue, same, loud, outcome⟩ :=
        rf_does checked traced here.host here.queue
          (here.sendable (List.mem_append_right _ List.mem_cons_self))
      rw [stepped] at stepped'
      obtain rfl := Option.some.inj stepped'
      rcases outcome with ⟨reports, host, pending⟩ | ⟨_, pending, header, host⟩
      · refine ⟨req, rest, sent, rfl, here.served sender host queue ?_, same, loud, ?_⟩
        · rw [pending]
          cases s.rf.pendingTx with
          | none =>
              rw [Option.none_or, List.append_assoc, List.append_assoc]
              exact List.Sublist.refl _
          | some waits =>
              rw [Option.some_or]
              exact (List.sublist_cons_self req rest).append_left _
        · intro silent
          rw [reports] at silent
          cases silent
      · let frames : List Uplink := sent ++ [⟨sent.length, req, header, 1⟩]
        have went : frames.map Uplink.request = sent.map Uplink.request ++ [req] := List.map_append
        refine ⟨req, rest, frames, rfl, here.served sender host queue ?_, same, loud,
          fun _ => ⟨pending, went⟩⟩
        rw [pending, went, Option.toList_none, List.append_nil, List.append_assoc]
        exact (List.sublist_append_left _ _).append (List.Sublist.refl (req :: rest))

theorem Sending.pump (here : Sending s n sent waiting)
    (stepped : step checked traced s .pump = some t) :
    ∃ sent', Sending t n sent' waiting ∧ timeouts t.senderQueue = timeouts s.senderQueue ∧
      t.rf.pendingTx = none ∧ irq t.rf = s.rf.pendingTx.isSome ∧
      sent'.map Uplink.request = sent.map Uplink.request ++ s.rf.pendingTx.toList := by
  obtain ⟨u, later, stepped', sender, queue, same, host, went, empty, loud⟩ :=
    pump_does checked traced here.host here.pending
  rw [stepped] at stepped'
  obtain rfl := Option.some.inj stepped'
  have out : (sent ++ later).map Uplink.request =
      sent.map Uplink.request ++ s.rf.pendingTx.toList := by rw [List.map_append, went]
  refine ⟨_, here.served sender host (queue.trans here.queue) ?_, same, empty, loud, out⟩
  rw [empty, out, Option.toList_none, List.append_nil]

theorem step_sending (here : ∃ sent waiting, Sending s n sent waiting) {a : Label}
    (stepped : step checked traced s a = some t) :
    ∃ sent waiting, Sending t (n + takes s a) sent waiting := by
  obtain ⟨sent, waiting, here⟩ := here
  cases a with
  | tick =>
      obtain ⟨timer, due, _, rfl⟩ := tick_does stepped
      exact ⟨sent, waiting, here.state, here.count, here.host, here.queue, here.order⟩
  | dispatchSender =>
      rcases here.dispatchSender stepped with ⟨_, _, ⟨taken, next⟩ | ⟨taken, next⟩⟩
      · rw [taken]
        exact ⟨_, _, next⟩
      · rw [taken]
        exact ⟨_, _, next⟩
  | dispatchRf =>
      obtain ⟨_, rest, sent', _, next, _⟩ := here.dispatchRf stepped
      exact ⟨sent', rest, next⟩
  | pump =>
      obtain ⟨sent', next, _⟩ := here.pump stepped
      exact ⟨sent', waiting, next⟩

theorem start_sending (checked traced : Bool) : Sending (start checked traced) 0 [] [] := by
  obtain ⟨state, count⟩ := start_sender checked traced
  refine ⟨state, count, ⟨?_, List.forall_mem_nil _, .inr ⟨.inl rfl, rfl, rfl⟩⟩, rfl, ?_⟩
  · constructor
    case counts => exact ⟨0, rfl⟩
    case bounded => exact ⟨Nat.le_refl 0, Nat.le_refl 0⟩
    case air => rfl
    case increasing => exact List.Pairwise.nil
    case valid => exact List.forall_mem_nil _
    case requests => exact List.Sublist.refl _
    case again =>
      intro buf kept
      cases kept
  · exact List.Sublist.refl _

theorem Host.heard {rf : HostRfAo} (host : Host rf sent) :
    (heardBy testAbp rf.stack.phy.air).map (List.drop 5) =
      (sent.map Uplink.request).map RfTxReqPayload.data := by
  have once : rf.stack.phy.air = sent.map (Uplink.wire testAbp 1) := by
    rw [host.accounted.air]
    have single : ∀ u ∈ sent, u.given testAbp 1 = [u.wire testAbp 1] := by
      intro u mem
      rw [Uplink.given, host.once u mem]
      rfl
    rw [List.flatMap_def, List.map_congr_left single, ← List.flatMap_def]
    exact List.flatMap_pure_eq_map _ _
  have near : Near (2 ^ 16) Uplink.number 0 sent := by
    apply host.accounted.increasing.near (by decide)
    intro u mem
    have below := (host.accounted.valid u mem).below
    omega
  have opened : heardBy testAbp (sent.map (Uplink.wire testAbp 1)) = sent.map Uplink.pdu := by
    apply hearAll_near sent _ _ near
    · intro u _
      exact u.fcntOf_wire testAbp 1
    · intro u _
      exact openUplink_frame testAbp 1 (UInt32.ofNat u.number) u.pdu
  rw [once, opened, List.map_map, List.map_map]
  apply List.map_congr_left
  intro u mem
  exact List.drop_left' (host.accounted.valid u mem).sized

theorem run_sending {labels : List Label} {last : Node}
    (ran : run (step checked traced) (start checked traced) labels = some last) :
    ∃ sent waiting, Sending last (timeoutsTaken checked traced labels) sent waiting := by
  have first : ∃ sent waiting, Sending (start checked traced) 0 sent waiting :=
    ⟨[], [], start_sending checked traced⟩
  have counted := along_total takes
    (fun n s a t here _ stepped => step_sending (n := n) here stepped) first
    (along_of_forall (fun _ _ => trivial) _ labels) ran
  rwa [Nat.zero_add] at counted

/-- In whatever order the queues are served, the network gets the texts of the timeouts taken in
order and none of them twice, and the stack can always take its next request and poll its radio. -/
theorem heard_in_order (checked traced : Bool) (labels : List Label) (last : Node)
    (ran : run (step checked traced) (start checked traced) labels = some last) :
    last.sender.sm.count = UInt32.ofNat (timeoutsTaken checked traced labels) ∧
    ((heardBy testAbp last.rf.stack.phy.air).map (List.drop 5)).Sublist
      ((requests (timeoutsTaken checked traced labels)).map RfTxReqPayload.data) ∧
    (step checked traced last .pump).isSome ∧
    (last.rfQueue ≠ [] → (step checked traced last .dispatchRf).isSome) := by
  obtain ⟨sent, waiting, here⟩ := run_sending ran
  refine ⟨here.count, ?_, ?_, ?_⟩
  · rw [here.host.heard]
    apply List.Sublist.map
    have first : (sent.map Uplink.request).Sublist
        (sent.map Uplink.request ++ last.rf.pendingTx.toList ++ waiting) := by
      rw [List.append_assoc]
      exact List.sublist_append_left _ _
    exact first.trans here.order
  · obtain ⟨u, _, stepped, _⟩ := pump_does checked traced here.host here.pending
    rw [stepped]
    rfl
  · intro queued
    cases waiting with
    | nil => exact absurd here.queue queued
    | cons req rest =>
        obtain ⟨u, stepped, _⟩ := rf_does checked traced here.host here.queue
          (here.sendable (List.mem_append_right _ List.mem_cons_self))
        rw [stepped]
        rfl

/-- The node is left to finish between two ticks: no timeout waits, no request, no report. -/
def Paced (s : Node) (a : Label) : Prop :=
  a = .tick → timeouts s.senderQueue = 0 ∧ s.rfQueue = [] ∧ irq s.rf = false

instance (s : Node) (a : Label) : Decidable (Paced s a) := inferInstanceAs (Decidable (_ → _))

/-- A paced node has one thing at a time to do, and none of the texts is lost. -/
structure Whole (s : Node) (n : ℕ) (sent : List Uplink) (waiting : List RfTxReqPayload) : Prop
    extends Sending s n sent waiting where
  room : timeouts s.senderQueue + waiting.length + (irq s.rf).toNat ≤ 1
  slot : s.rf.pendingTx = none
  all : sent.map Uplink.request ++ waiting = requests n

theorem step_whole (here : ∃ sent waiting, Whole s n sent waiting) {a : Label}
    (paced : Paced s a) (stepped : step checked traced s a = some t) :
    ∃ sent waiting, Whole t (n + takes s a) sent waiting := by
  obtain ⟨sent, waiting, here⟩ := here
  have room := here.room
  cases a with
  | tick =>
      obtain ⟨free, empty, silent⟩ := paced rfl
      obtain ⟨timer, due, single, rfl⟩ := tick_does stepped
      have idle : waiting = [] := List.map_eq_nil_iff.mp (here.queue.symm.trans empty)
      refine ⟨sent, waiting, ⟨here.state, here.count, here.host, here.queue, here.order⟩, ?_,
        here.slot, here.all⟩
      have more : timeouts due ≤ 1 := List.countP_le_length.trans single
      change timeouts (s.senderQueue ++ due) + waiting.length + (irq s.rf).toNat ≤ 1
      rw [timeouts, List.countP_append, idle, silent]
      change timeouts s.senderQueue + timeouts due + 0 + 0 ≤ 1
      omega
  | dispatchSender =>
      rcases here.toSending.dispatchSender stepped with ⟨rf, left, ⟨taken, next⟩ | ⟨taken, next⟩⟩
      · rw [taken] at left ⊢
        refine ⟨_, _, next, ?_, rf ▸ here.slot, ?_⟩
        · rw [rf, List.length_append, List.length_singleton]
          omega
        · rw [← List.append_assoc, here.all, requests_succ]
      · rw [taken] at left ⊢
        refine ⟨_, _, next, ?_, rf ▸ here.slot, here.all⟩
        rw [rf]
        omega
  | dispatchRf =>
      obtain ⟨req, rest, sent', rfl, next, same, loud, outcome⟩ := here.toSending.dispatchRf stepped
      rw [List.length_cons] at room
      have silent : irq s.rf = false := by
        apply Bool.toNat_eq_zero.mp
        omega
      obtain ⟨slot, went⟩ := outcome silent
      refine ⟨sent', rest, next, ?_, slot, ?_⟩
      · rw [same, loud, Bool.toNat_true]
        omega
      · rw [went, List.append_assoc]
        exact here.all
  | pump =>
      obtain ⟨sent', next, same, slot, quiet, went⟩ := here.toSending.pump stepped
      rw [here.slot] at quiet went
      refine ⟨sent', waiting, next, ?_, slot, ?_⟩
      · rw [same, quiet]
        change timeouts s.senderQueue + waiting.length + 0 ≤ 1
        omega
      · rw [went, Option.toList_none, List.append_nil]
        exact here.all

/-- A paced node loses nothing: the network has got the texts of all timeouts taken but those that
still wait in the queue of the stack. -/
theorem all_heard (checked traced : Bool) (labels : List Label) (last : Node)
    (paced : Along (step checked traced) Paced (start checked traced) labels)
    (ran : run (step checked traced) (start checked traced) labels = some last) :
    last.sender.sm.count = UInt32.ofNat (timeoutsTaken checked traced labels) ∧
    ∃ waiting : List RfTxReqPayload, last.rfQueue = waiting.map asked ∧
      (heardBy testAbp last.rf.stack.phy.air).map (List.drop 5) ++
          waiting.map RfTxReqPayload.data =
        (requests (timeoutsTaken checked traced labels)).map RfTxReqPayload.data := by
  have first : ∃ sent waiting, Whole (start checked traced) 0 sent waiting :=
    ⟨[], [], start_sending checked traced, Nat.zero_le 1, rfl, rfl⟩
  have counted := along_total takes
    (fun n s a t here good stepped => step_whole (n := n) here good stepped) first paced ran
  rw [Nat.zero_add] at counted
  obtain ⟨sent, waiting, here⟩ := counted
  refine ⟨here.count, waiting, here.queue, ?_⟩
  rw [here.host.heard, ← List.map_append, here.all]
  rfl

end Heard

section Turns

attribute [local instance] Downlink.flatCrypto

/-- Five ticks, and what the loop of `main` does after the last of them. -/
def turn : List Label :=
  List.replicate 5 .tick ++ [.dispatchSender, .dispatchRf, .pump, .dispatchSender, .pump]

theorem turns_in_order : ∃ last, run (step true false) (start true false) (turn ++ turn) =
      some last ∧
    last.rf.stack.phy.air.length = 2 ∧
    ((heardBy testAbp last.rf.stack.phy.air).map (List.drop 5)).Sublist
      ((requests 2).map RfTxReqPayload.data) := by
  have seen : (run (step true false) (start true false) (turn ++ turn)).map
      (fun last => last.rf.stack.phy.air.length) = some 2 := by decide +kernel
  have taken : timeoutsTaken true false (turn ++ turn) = 2 := by decide +kernel
  obtain ⟨last, ran, aired⟩ := Option.map_eq_some_iff.mp seen
  have heard := (heard_in_order true false (turn ++ turn) last ran).2.1
  rw [taken] at heard
  exact ⟨last, ran, aired, heard⟩

theorem turns_heard : ∃ last, run (step true false) (start true false) (turn ++ turn) =
      some last ∧
    last.rfQueue.length = 0 ∧
    (heardBy testAbp last.rf.stack.phy.air).map (List.drop 5) =
      (requests 2).map RfTxReqPayload.data := by
  have seen : (run (step true false) (start true false) (turn ++ turn)).map
      (fun last => last.rfQueue.length) = some 0 := by decide +kernel
  have taken : timeoutsTaken true false (turn ++ turn) = 2 := by decide +kernel
  have paced : Along (step true false) Paced (start true false) (turn ++ turn) := by
    decide +kernel
  obtain ⟨last, ran, queue⟩ := Option.map_eq_some_iff.mp seen
  obtain ⟨_, waiting, queued, heard⟩ := all_heard true false (turn ++ turn) last paced ran
  rw [taken] at heard
  refine ⟨last, ran, queue, ?_⟩
  have idle : waiting = [] := by
    rw [queued, List.length_map] at queue
    exact List.length_eq_zero_iff.mp queue
  rw [← heard, idle, List.map_nil, List.append_nil]

end Turns

end QpRs.LoraSend
