import QpRs.Comms.Buf
import QpRs.Lib.Run
import QpRs.Lib.Window

/-! Sequences of calls on one frame, against the window on 256 bytes that the frame stands for. -/

namespace QpRs.Comms

open QpRs.Lib

inductive FrameCall where
  | writePayload (data : List UInt8)
  | prependHeader (hdr : List UInt8)
  | appendTrailer (trailer : List UInt8)
  | stripHeader (n : Nat)
  | trimTrailer (n : Nat)
  | setReceivedLen (n : Nat)
  deriving DecidableEq, Repr

namespace FrameCall

def refusal : FrameCall → CommsError
  | .stripHeader _ | .trimTrailer _ => .macError
  | _ => .bufferTooSmall

/-- What a call does to the bytes that the frame stands for: the bytes it returns and the window
afterwards, or a refusal. -/
def expected (w : Window UInt8 MAX_FRAME) :
    FrameCall → Option (List UInt8 × Window UInt8 MAX_FRAME)
  | .writePayload data => (w.write FRAME_HEADROOM data).map fun w' => ([], w')
  | .prependHeader hdr => (w.extendFront hdr).map fun w' => ([], w')
  | .appendTrailer trailer => (w.extendBack trailer).map fun w' => ([], w')
  | .stripHeader n => w.dropFront n
  | .trimTrailer n => w.dropBack n
  | .setReceivedLen n => some ([], w.firstCells n)

/-- The call does not move the end of the frame to 256, the one end that its byte cannot store. -/
def EndStored (f : Frame) : FrameCall → Prop
  | .writePayload data => FRAME_HEADROOM + data.length ≠ MAX_FRAME
  | .appendTrailer trailer => f.stop.toNat + trailer.length ≠ MAX_FRAME
  | .setReceivedLen n => n < MAX_FRAME
  | _ => True

end FrameCall

namespace Frame

def call (checked : Bool) (f : Frame) :
    FrameCall → Except Panic (Except CommsError (List UInt8) × Frame)
  | .writePayload data => (f.writePayload data).map fun out => (out.1.map fun _ => [], out.2)
  | .prependHeader hdr =>
      (f.prependHeader checked hdr).map fun out => (out.1.map fun _ => [], out.2)
  | .appendTrailer trailer =>
      (f.appendTrailer checked trailer).map fun out => (out.1.map fun _ => [], out.2)
  | .stripHeader n => f.stripHeader checked n
  | .trimTrailer n => f.trimTrailer checked n
  | .setReceivedLen n => .ok (.ok [], f.setReceivedLen n)

/-- The buffer and the cursors are those of the window. -/
structure Shows (f : Frame) (w : Window UInt8 MAX_FRAME) : Prop where
  cells : f.buf.toList = w.cells
  start : f.start.toNat = w.first
  stop : f.stop.toNat = w.last

/-- The call returns and does to the frame what it does to the window; a refused one leaves the
frame alone. -/
def Meets (checked : Bool) (f : Frame) (w : Window UInt8 MAX_FRAME) (c : FrameCall) : Prop :=
  match c.expected w with
  | none => f.call checked c = .ok (.error c.refusal, f)
  | some (bytes, w') => ∃ f', f.call checked c = .ok (.ok bytes, f') ∧
      f'.start.toNat ≤ f'.stop.toNat ∧ f'.stop.toNat ≤ MAX_FRAME ∧ f'.payload = .ok w'.within

end Frame

/-- A frame beside the window it stands for. -/
structure FrameRun where
  frame : Frame
  window : Window UInt8 MAX_FRAME

namespace FrameRun

def new : FrameRun where
  frame := Frame.new
  window := { before := List.replicate FRAME_HEADROOM 0, within := [],
              behind := List.replicate (MAX_FRAME - FRAME_HEADROOM) 0, sized := by simp; rfl }

/-- Every call can be made; after a panic there is no next state. -/
def step (checked : Bool) (s : FrameRun) (c : FrameCall) : Option FrameRun :=
  match s.frame.call checked c with
  | .error _ => none
  | .ok (_, f') => some ⟨f', ((c.expected s.window).map Prod.snd).getD s.window⟩

end FrameRun

namespace Frame

variable {f f' : Frame} {w w' : Window UInt8 MAX_FRAME} {checked : Bool}

theorem shows_new : FrameRun.new.frame.Shows FrameRun.new.window := by
  refine ⟨?_, rfl, rfl⟩
  change (Vector.replicate 256 (0 : UInt8)).toList =
    List.replicate 32 0 ++ [] ++ List.replicate 224 0
  rw [Vector.toList_replicate, List.append_nil, List.replicate_append_replicate]

theorem Shows.holds (shown : f.Shows w) : f.Holds w.within where
  ordered := by
    rw [shown.start, shown.stop]
    exact w.first_le_last
  between := by
    rw [shown.cells, shown.start, shown.stop]
    exact w.between

theorem Holds.shows {bytes : List UInt8} (holds : f.Holds bytes) :
    ∃ w : Window UInt8 MAX_FRAME, f.Shows w ∧ w.within = bytes := by
  have length := holds.length
  have bound := f.stop.toNat_lt
  have first : (f.buf.toList.take f.start.toNat).length = f.start.toNat := by
    rw [List.length_take, length_buf]
    omega
  refine ⟨⟨f.buf.toList.take f.start.toNat, bytes, f.buf.toList.drop f.stop.toNat, ?_⟩,
    ⟨?_, first.symm, ?_⟩, rfl⟩
  · rw [first, List.length_drop, length_buf]
    change f.start.toNat + bytes.length + (256 - f.stop.toNat) = 256
    omega
  · have middle := List.take_append_drop f.start.toNat (f.buf.toList.take f.stop.toNat)
    rw [holds.between, List.take_take, Nat.min_eq_left holds.ordered] at middle
    change f.buf.toList = f.buf.toList.take f.start.toNat ++ bytes ++ f.buf.toList.drop f.stop.toNat
    rw [middle, List.take_append_drop]
  · change f.stop.toNat = (f.buf.toList.take f.start.toNat).length + bytes.length
    rw [first, length]

/-- What `Meets` follows from: the frame shows the window that the call leaves. -/
def Follows (checked : Bool) (f : Frame) (w : Window UInt8 MAX_FRAME) (c : FrameCall) : Prop :=
  match c.expected w with
  | none => f.call checked c = .ok (.error c.refusal, f)
  | some (bytes, w') => ∃ f', f.call checked c = .ok (.ok bytes, f') ∧ f'.Shows w'

theorem Follows.meets {c : FrameCall} (followed : f.Follows checked w c) :
    f.Meets checked w c := by
  unfold Follows at followed
  unfold Meets
  split at followed
  · exact followed
  · obtain ⟨f', ran, shown⟩ := followed
    have holds := shown.holds
    exact ⟨f', ran, holds.ordered, f'.stop.toNat_lt.le, holds.payload_eq⟩

theorem follows_of_refused {c : FrameCall} (refused : c.expected w = none)
    (ran : f.call checked c = .ok (.error c.refusal, f)) : f.Follows checked w c := by
  rw [Follows, refused]
  exact ran

theorem follows_of_done {c : FrameCall} {bytes : List UInt8}
    (done : c.expected w = some (bytes, w')) (ran : f.call checked c = .ok (.ok bytes, f'))
    (shown : f'.Shows w') : f.Follows checked w c := by
  rw [Follows, done]
  exact ⟨f', ran, shown⟩

theorem toNat_small {n : Nat} (small : n < MAX_FRAME) : (UInt8.ofNat n).toNat = n :=
  UInt8.toNat_ofNat_of_lt' small

theorem overwrite_buf (f : Frame) {first : Nat} {data : List UInt8}
    (inside : first + data.length ≤ MAX_FRAME) :
    ∃ buf, overwrite Panic.bounds f.buf first data = .ok buf ∧ buf.toList =
      f.buf.toList.take first ++ data ++ f.buf.toList.drop (first + data.length) :=
  overwrite_ok f.buf inside

theorem writePayload_follows (shown : f.Shows w) {data : List UInt8}
    (stored : FRAME_HEADROOM + data.length ≠ MAX_FRAME) :
    f.Follows checked w (.writePayload data) := by
  change 32 + data.length ≠ 256 at stored
  cases wrote : w.write FRAME_HEADROOM data with
  | none =>
      have long : 256 < 32 + data.length := Window.write_none.mp wrote
      have refused : f.writePayload data = .ok (.error .bufferTooSmall, f) :=
        writePayload_long f (by omega)
      refine follows_of_refused (by rw [FrameCall.expected, wrote]; rfl) ?_
      rw [call, refused]
      rfl
  | some w' =>
      obtain ⟨front, within, cells⟩ := Window.write_some wrote
      have whole := w'.last_le
      rw [Window.last, ← Window.first, front, within] at whole
      have inside : 32 + data.length ≤ 256 := whole
      have short : ¬data.length > MAX_FRAME - FRAME_HEADROOM := by
        change ¬data.length > 224
        omega
      obtain ⟨buf, copied, bytes⟩ := overwrite_buf f whole
      have moved :
          f.writePayload data = .ok (.ok (), ⟨buf, 32, UInt8.ofNat (32 + data.length)⟩) := by
        rw [writePayload, if_neg short, copied]
        rfl
      refine follows_of_done (by rw [FrameCall.expected, wrote]; rfl) (by rw [call, moved]; rfl) ?_
      refine ⟨?_, ?_, ?_⟩
      · rw [bytes, cells, shown.cells]
      · exact front.symm
      · rw [Window.last, ← Window.first, front, within]
        exact toNat_small (show 32 + data.length < 256 by omega)

theorem Shows.prependHeader_eq (shown : f.Shows w) {hdr : List UInt8}
    (moved : w.extendFront hdr = some w') (checked : Bool) :
    ∃ f', f.prependHeader checked hdr = .ok (.ok (), f') ∧ f'.Shows w' := by
  have start := shown.start
  obtain ⟨front, last, within, cells⟩ := Window.extendFront_some moved
  have below := f.start.toNat_lt
  have small : (UInt8.ofNat hdr.length).toNat = hdr.length :=
    toNat_small (show hdr.length < 256 by omega)
  obtain ⟨at_front, ran, value⟩ := subU8_ok checked (a := f.start)
    (b := UInt8.ofNat hdr.length) (by omega)
  have first : at_front.toNat = w'.first := by omega
  have inside : at_front.toNat + hdr.length ≤ 256 := by omega
  obtain ⟨buf, copied, bytes⟩ := overwrite_buf f inside
  refine ⟨{ f with buf := buf, start := at_front }, ?_, ?_, first, ?_⟩
  · rw [prependHeader, if_neg (by omega), ran, ok_bind, copied]
    rfl
  · rw [bytes, cells, shown.cells, first]
  · rw [last]
    exact shown.stop

theorem prependHeader_follows (shown : f.Shows w) (hdr : List UInt8) :
    f.Follows checked w (.prependHeader hdr) := by
  cases moved : w.extendFront hdr with
  | none =>
      have short : f.start.toNat < hdr.length := by
        rw [shown.start]
        exact Window.extendFront_none.mp moved
      refine follows_of_refused (by rw [FrameCall.expected, moved]; rfl) ?_
      rw [call, prependHeader, if_pos short]
      rfl
  | some w' =>
      obtain ⟨f', stepped, later⟩ := shown.prependHeader_eq moved checked
      exact follows_of_done (by rw [FrameCall.expected, moved]; rfl) (by rw [call, stepped]; rfl)
        later

theorem Holds.prependHeader_eq {bytes : List UInt8} (holds : f.Holds bytes) (hdr : List UInt8)
    (room : hdr.length ≤ f.start.toNat) (checked : Bool) :
    ∃ f', f.prependHeader checked hdr = .ok (.ok (), f') ∧ f'.Holds (hdr ++ bytes) ∧
      f'.start.toNat + hdr.length = f.start.toNat ∧ f'.stop = f.stop := by
  obtain ⟨w, shown, rfl⟩ := holds.shows
  cases moved : w.extendFront hdr with
  | none =>
      have short := Window.extendFront_none.mp moved
      rw [← shown.start] at short
      omega
  | some w' =>
      obtain ⟨f', ran, later⟩ := shown.prependHeader_eq moved checked
      have cursors := prependHeader_cursors ran room
      have within := (Window.extendFront_some moved).2.2.1
      rw [← within]
      exact ⟨f', ran, later.holds, cursors.2.1, cursors.2.2⟩

theorem appendTrailer_follows (shown : f.Shows w) {trailer : List UInt8}
    (stored : f.stop.toNat + trailer.length ≠ MAX_FRAME) :
    f.Follows checked w (.appendTrailer trailer) := by
  change f.stop.toNat + trailer.length ≠ 256 at stored
  have stop := shown.stop
  cases moved : w.extendBack trailer with
  | none =>
      have long : 256 < w.last + trailer.length := Window.extendBack_none.mp moved
      have refused : f.stop.toNat + trailer.length > MAX_FRAME := by
        rw [stop]
        exact long
      refine follows_of_refused (by rw [FrameCall.expected, moved]; rfl) ?_
      rw [call, appendTrailer, if_pos refused]
      rfl
  | some w' =>
      obtain ⟨front, last, within, cells⟩ := Window.extendBack_some moved
      have whole : w'.last ≤ 256 := w'.last_le
      have fits : ¬f.stop.toNat + trailer.length > MAX_FRAME := by
        change ¬_ > 256
        omega
      have inside : f.stop.toNat + trailer.length ≤ 256 := by omega
      have small : (UInt8.ofNat trailer.length).toNat = trailer.length :=
        toNat_small (show trailer.length < 256 by omega)
      obtain ⟨buf, copied, bytes⟩ := overwrite_buf f inside
      obtain ⟨at_back, ran, value⟩ := addU8_ok checked (a := f.stop)
        (b := UInt8.ofNat trailer.length) (by omega)
      have stepped : f.appendTrailer checked trailer =
          .ok (.ok (), { f with buf := buf, stop := at_back }) := by
        rw [appendTrailer, if_neg fits, copied, ok_bind, ran]
        rfl
      refine follows_of_done
        (by rw [FrameCall.expected, moved]; rfl) (by rw [call, stepped]; rfl) ?_
      refine ⟨?_, ?_, ?_⟩
      · rw [bytes, cells, shown.cells, stop]
      · rw [front]
        exact shown.start
      · change at_back.toNat = w'.last
        omega

theorem Shows.len_eq (shown : f.Shows w) : f.len checked = .ok w.within.length :=
  shown.holds.len_eq checked

theorem stripHeader_follows (shown : f.Shows w) (n : Nat) :
    f.Follows checked w (.stripHeader n) := by
  have start := shown.start
  cases moved : w.dropFront n with
  | none =>
      have short : w.within.length < n := Window.dropFront_none.mp moved
      refine follows_of_refused moved ?_
      rw [call, stripHeader, shown.len_eq, ok_bind, if_pos short]
      rfl
  | some out =>
      obtain ⟨hdr, w'⟩ := out
      obtain ⟨front, last, cells, taken⟩ := Window.dropFront_some moved
      have present : ¬w.within.length < n := by
        intro short
        rw [Window.dropFront_none.mpr short] at moved
        cases moved
      have ordered := w'.first_le_last
      have short := f.stop.toNat_lt
      have stop := shown.stop
      have small : (UInt8.ofNat n).toNat = n := toNat_small (show n < 256 by omega)
      obtain ⟨at_front, ran, value⟩ := addU8_ok checked (a := f.start) (b := UInt8.ofNat n)
        (by omega)
      have stepped : f.stripHeader checked n = .ok (.ok hdr, { f with start := at_front }) := by
        rw [stripHeader, shown.len_eq, ok_bind, if_neg present, ran, ok_bind,
          slice_ok (Nat.le_add_right _ _) (by rw [length_buf]; omega), shown.cells, start, ← taken]
        rfl
      refine follows_of_done moved stepped ⟨?_, ?_, ?_⟩
      · rw [cells]
        exact shown.cells
      · change at_front.toNat = w'.first
        omega
      · rw [last]
        exact stop

theorem trimTrailer_follows (shown : f.Shows w) (n : Nat) :
    f.Follows checked w (.trimTrailer n) := by
  cases moved : w.dropBack n with
  | none =>
      have short : w.within.length < n := Window.dropBack_none.mp moved
      refine follows_of_refused moved ?_
      rw [call, trimTrailer, shown.len_eq, ok_bind, if_pos short]
      rfl
  | some out =>
      obtain ⟨trailer, w'⟩ := out
      obtain ⟨front, last, cells, taken⟩ := Window.dropBack_some moved
      have present : ¬w.within.length < n := by
        intro short
        rw [Window.dropBack_none.mpr short] at moved
        cases moved
      have short := f.stop.toNat_lt
      have stop := shown.stop
      have small : (UInt8.ofNat n).toNat = n := toNat_small (show n < 256 by omega)
      obtain ⟨at_back, ran, value⟩ := subU8_ok checked (a := f.stop) (b := UInt8.ofNat n) (by omega)
      have reached : at_back.toNat = w'.last := by omega
      have whole : at_back.toNat + n = w.last := by omega
      have stepped : f.trimTrailer checked n = .ok (.ok trailer, { f with stop := at_back }) := by
        rw [trimTrailer, shown.len_eq, ok_bind, if_neg present, ran, ok_bind,
          slice_ok (Nat.le_add_right _ _) (by rw [length_buf]; omega), shown.cells, whole, reached,
          ← taken]
        rfl
      refine follows_of_done moved stepped ⟨?_, ?_, reached⟩
      · rw [cells]
        exact shown.cells
      · rw [front]
        exact shown.start

theorem setReceivedLen_follows (shown : f.Shows w) {n : Nat} (stored : n < MAX_FRAME) :
    f.Follows checked w (.setReceivedLen n) := by
  refine follows_of_done rfl rfl ⟨?_, rfl, ?_⟩
  · rw [Window.cells_firstCells]
    exact shown.cells
  · rw [Window.last_firstCells]
    exact toNat_small (lt_of_le_of_lt (Nat.min_le_left _ _) stored)

theorem follows_of_stored (shown : f.Shows w) (c : FrameCall) (stored : c.EndStored f) :
    f.Follows checked w c := by
  cases c with
  | writePayload data => exact writePayload_follows shown stored
  | prependHeader hdr => exact prependHeader_follows shown hdr
  | appendTrailer trailer => exact appendTrailer_follows shown stored
  | stripHeader n => exact stripHeader_follows shown n
  | trimTrailer n => exact trimTrailer_follows shown n
  | setReceivedLen n => exact setReceivedLen_follows shown stored

theorem reach_of_payload {bytes : List UInt8} (read : f.payload = .ok bytes) :
    f.start.toNat + bytes.length = f.stop.toNat := by
  have ordered := ordered_of_returns ⟨bytes, read⟩
  have holds : f.Holds ((f.buf.toList.take f.stop.toNat).drop f.start.toNat) := ⟨ordered, rfl⟩
  rw [holds.payload_eq] at read
  cases read
  exact holds.length

theorem not_meets_of_full {c : FrameCall} {bytes : List UInt8}
    (done : c.expected w = some (bytes, w')) (full : w'.last = MAX_FRAME)
    (front : ∀ r f', f.call checked c = .ok (.ok r, f') → f'.start.toNat = w'.first) :
    ¬f.Meets checked w c := by
  intro met
  rw [Meets, done] at met
  obtain ⟨f', ran, _, _, read⟩ := met
  have start := front bytes f' ran
  have reached := reach_of_payload read
  have below : f'.stop.toNat < 256 := f'.stop.toNat_lt
  change w'.first + w'.within.length = 256 at full
  omega

theorem writePayload_full_not_meets {data : List UInt8}
    (full : FRAME_HEADROOM + data.length = MAX_FRAME) :
    ¬f.Meets checked w (.writePayload data) := by
  cases wrote : w.write FRAME_HEADROOM data with
  | none =>
      have long : 256 < 32 + data.length := Window.write_none.mp wrote
      change 32 + data.length = 256 at full
      omega
  | some w' =>
      obtain ⟨first, within, _⟩ := Window.write_some wrote
      have done : (FrameCall.writePayload data).expected w = some ([], w') := by
        rw [FrameCall.expected, wrote]
        rfl
      refine not_meets_of_full done ?_ ?_
      · rw [Window.last, ← Window.first, first, within]
        exact full
      · intro r f' ran
        have longest : data.length ≤ 224 := by
          change 32 + data.length = 256 at full
          omega
        obtain ⟨_, moved, start, _⟩ := writePayload_eq f longest
        rw [call, moved] at ran
        cases ran
        rw [start, first]

theorem appendTrailer_full_not_meets (shown : f.Shows w) {trailer : List UInt8}
    (full : f.stop.toNat + trailer.length = MAX_FRAME) :
    ¬f.Meets checked w (.appendTrailer trailer) := by
  rw [shown.stop] at full
  cases moved : w.extendBack trailer with
  | none =>
      have long : 256 < w.last + trailer.length := Window.extendBack_none.mp moved
      change _ = 256 at full
      omega
  | some w' =>
      obtain ⟨first, last, _⟩ := Window.extendBack_some moved
      have done : (FrameCall.appendTrailer trailer).expected w = some ([], w') := by
        rw [FrameCall.expected, moved]
        rfl
      refine not_meets_of_full done (last.trans full) ?_
      intro r f' ran
      obtain ⟨out, stepped, same⟩ := map_ok ran
      have cursors := @appendTrailer_cursors f checked trailer out.1 out.2 stepped
      cases same_frame : out.1 with
      | error e => simp [same_frame, Except.map] at same
      | ok u =>
          have left : out.2 = f' := congrArg Prod.snd same
          rw [← left, (cursors.2 same_frame).1, first]
          exact shown.start

theorem setReceivedLen_full_not_meets {n : Nat} (full : MAX_FRAME ≤ n) :
    ¬f.Meets checked w (.setReceivedLen n) := by
  have done : (FrameCall.setReceivedLen n).expected w = some ([], w.firstCells n) := rfl
  refine not_meets_of_full done ?_ ?_
  · rw [Window.last_firstCells]
    exact Nat.min_eq_right full
  · intro r f' ran
    cases ran
    rfl

theorem stored_of_meets (shown : f.Shows w) (c : FrameCall) (met : f.Meets checked w c) :
    c.EndStored f := by
  by_contra full
  cases c with
  | writePayload data => exact writePayload_full_not_meets (Decidable.not_not.mp full) met
  | appendTrailer trailer =>
      exact appendTrailer_full_not_meets shown (Decidable.not_not.mp full) met
  | setReceivedLen n => exact setReceivedLen_full_not_meets (Nat.le_of_not_lt full) met
  | prependHeader _ => exact full trivial
  | stripHeader _ => exact full trivial
  | trimTrailer _ => exact full trivial

theorem step_shows {s t : FrameRun} {c : FrameCall} (shown : s.frame.Shows s.window)
    (stored : c.EndStored s.frame) (stepped : s.step checked c = some t) :
    t.frame.Shows t.window := by
  have followed : s.frame.Follows checked s.window c := follows_of_stored shown c stored
  rw [FrameRun.step] at stepped
  rw [Follows] at followed
  split at followed
  · next refused =>
      rw [followed, refused] at stepped
      cases stepped
      exact shown
  · next done =>
      obtain ⟨f', ran, later⟩ := followed
      rw [ran, done] at stepped
      cases stepped
      exact later

end Frame

namespace FrameRun

def Shown (s : FrameRun) : Prop := s.frame.Shows s.window

/-- Every call of a sequence on a new frame does to the frame what it does to the window, exactly
where no call of the sequence moves the end to 256. -/
theorem calls_meet_iff (checked : Bool) (calls : List FrameCall) :
    Along (step checked) (fun s c => s.frame.Meets checked s.window c) new calls ↔
      Along (step checked) (fun s c => c.EndStored s.frame) new calls := by
  have start : Shown new := Frame.shows_new
  refine along_congr ?_ ?_ start
  · intro s c shown
    constructor
    · exact Frame.stored_of_meets shown c
    · intro stored
      exact (Frame.follows_of_stored shown c stored).meets
  · intro s c t shown stored stepped
    exact Frame.step_shows shown stored stepped

theorem full_payload_not_met (checked : Bool) {data : List UInt8}
    (full : FRAME_HEADROOM + data.length = MAX_FRAME) :
    ¬Along (step checked) (fun s c => s.frame.Meets checked s.window c) new
      [.writePayload data] := by
  intro called
  exact Frame.writePayload_full_not_meets full called.1

def longestPayload : List UInt8 := List.replicate (MAX_FRAME - FRAME_HEADROOM) 0

/-- The longest payload that is accepted leaves the end cursor below the start cursor. -/
theorem calls_meet_not_full :
    ¬∀ checked calls, Along (step checked) (fun s c => s.frame.Meets checked s.window c) new
      calls := by
  intro always
  have full : FRAME_HEADROOM + longestPayload.length = MAX_FRAME := by
    rw [longestPayload, List.length_replicate]
    rfl
  exact full_payload_not_met true full (always true [.writePayload longestPayload])

end FrameRun

end QpRs.Comms
