import QpRs.Qs.Commands

/-! The target's parser after noise on the line.

The parser tells an opening flag from a closing one by its state alone. Noise that ends inside a
frame turns every later flag into its opposite. -/

namespace QpRs.Qs

open QpRs.Lib

/-- The inside of a frame that is still open: every flag is the second byte of an escape pair, and
no escape byte waits for its second. -/
inductive Whole : List UInt8 → Prop
  | nil : Whole []
  | plain {body : List UInt8} (b : UInt8) :
      Whole body → b ≠ FLAG → b ≠ ESC → Whole (body ++ [b])
  | pair {body : List UInt8} (b : UInt8) : Whole body → Whole (body ++ [ESC] ++ [b])

/-- Bytes after which no frame is open. -/
inductive Quiet : List UInt8 → Prop
  | nil : Quiet []
  | skip {bytes : List UInt8} (b : UInt8) : Quiet bytes → b ≠ FLAG → Quiet (bytes ++ [b])
  | frame {bytes body : List UInt8} :
      Quiet bytes → Whole body → Quiet (bytes ++ [FLAG] ++ body ++ [FLAG])

/-- Bytes that end inside a frame, with no escape byte at the end. -/
def CutOff (noise : List UInt8) : Prop :=
  ∃ bytes body, noise = bytes ++ [FLAG] ++ body ∧ Quiet bytes ∧ Whole body

/-- Bytes that end inside a frame, with an escape byte at the end. -/
def Pending (noise : List UInt8) : Prop := ∃ cut, noise = cut ++ [ESC] ∧ CutOff cut

namespace RxParser

/-- What the parser is after some bytes, by the shape of the bytes. -/
def Fits (p : RxParser) (noise : List UInt8) : Prop :=
  (p.state = .idle ∧ Quiet noise) ∨ (∃ raw, p = opened raw ∧ CutOff noise) ∨
    ∃ raw, p = stuffed raw ∧ Pending noise

/-- The commands of the frames after the first come out while those frames are read. -/
def Resynchronised (noise : List UInt8) (first : Command) (rest : List Command) : Prop :=
  ∃ p q r early head cmds, pushSlice new noise = .ok (p, early) ∧
    pushSlice p first.frame = .ok (q, head) ∧
    pushSlice q (rest.flatMap Command.frame) = .ok (r, cmds) ∧
    (rest.map fun c => decodeCmd c.recordId c.payload) = cmds.map .ok

theorem tryDecode_returns (p : RxParser) : Returns p.tryDecode := by
  refine .ite (fun _ => .ok _) fun long => ?_
  refine .ite (fun _ => .ok _) fun _ => ?_
  refine (index_returns (by omega)).bind fun cmdType => ?_
  refine .bind_ok (slice_ok (by omega) (by omega)) ?_
  exact (decodeCmd_returns cmdType _).bind fun _ => .ok _

theorem push_flag_idle {p : RxParser} (idle : p.state = .idle) :
    push p FLAG = .ok (opened [], none) := by
  simp only [push, idle]
  rfl

theorem push_flag_opened (raw : List UInt8) : ∃ out, push (opened raw) FLAG = .ok (new, out) := by
  obtain ⟨out, decided⟩ := tryDecode_returns (opened raw)
  refine ⟨out, ?_⟩
  simp only [push, opened, if_true]
  rw [opened] at decided
  rw [decided]
  rfl

theorem push_stuffed (raw : List UInt8) (b : UInt8) :
    push (stuffed raw) b = .ok (opened (raw ++ [b ^^^ ESC_XOR]), none) := by
  have pushed : push (stuffed raw) b = .ok ((opened raw).accept (b ^^^ ESC_XOR), none) := rfl
  rw [pushed, accept_opened]

theorem Fits.push {p : RxParser} {noise : List UInt8} (fits : Fits p noise) (b : UInt8) :
    ∃ q out, push p b = .ok (q, out) ∧ Fits q (noise ++ [b]) := by
  obtain ⟨idle, quiet⟩ | ⟨raw, rfl, bytes, body, rfl, quiet, whole⟩ |
    ⟨raw, rfl, _, rfl, bytes, body, rfl, quiet, whole⟩ := fits
  · by_cases flag : b = FLAG
    · refine ⟨opened [], none, ?_, .inr (.inl ⟨[], rfl, noise, [], ?_, quiet, .nil⟩)⟩
      · rw [flag]
        exact push_flag_idle idle
      · rw [flag, List.append_nil]
    · refine ⟨p, none, ?_, .inl ⟨idle, .skip b quiet flag⟩⟩
      simp only [RxParser.push, idle, if_neg flag]
  · by_cases flag : b = FLAG
    · obtain ⟨out, closed⟩ := push_flag_opened raw
      refine ⟨new, out, ?_, .inl ⟨rfl, ?_⟩⟩
      · rw [flag]
        exact closed
      · rw [flag]
        exact .frame quiet whole
    · by_cases esc : b = ESC
      · refine ⟨stuffed raw, none, ?_,
          .inr (.inr ⟨raw, rfl, _, ?_, bytes, body, rfl, quiet, whole⟩)⟩
        · rw [esc]
          exact unstuffs.escape raw
        · rw [esc]
      · refine ⟨opened (raw ++ [b]), none, unstuffs.plain raw b flag esc, .inr (.inl ?_)⟩
        exact ⟨_, rfl, bytes, body ++ [b], by simp only [List.append_assoc], quiet,
          .plain b whole flag esc⟩
  · refine ⟨opened (raw ++ [b ^^^ ESC_XOR]), none, push_stuffed raw b, .inr (.inl ?_)⟩
    exact ⟨_, rfl, bytes, body ++ [ESC] ++ [b], by simp only [List.append_assoc], quiet,
      .pair b whole⟩

theorem noise_fits (noise : List UInt8) :
    ∃ p early, pushSlice new noise = .ok (p, early) ∧ Fits p noise := by
  induction noise using List.reverseRecOn with
  | nil => exact ⟨new, [], rfl, .inl ⟨rfl, .nil⟩⟩
  | append_singleton noise b ih =>
      obtain ⟨p, early, fed, fits⟩ := ih
      obtain ⟨q, out, pushed, next⟩ := fits.push b
      exact ⟨q, _, feed_append_ok fed (feed_singleton_ok pushed), next⟩

theorem feed_whole {body : List UInt8} (whole : Whole body) :
    ∃ raw out, feed push (opened []) body = .ok (opened raw, out) := by
  induction whole with
  | nil => exact ⟨[], [], rfl⟩
  | plain b _ ordinary unescaped ih =>
      obtain ⟨raw, out, fed⟩ := ih
      exact ⟨_, _, feed_append_ok fed (feed_singleton_ok (unstuffs.plain raw b ordinary unescaped))⟩
  | pair b _ ih =>
      obtain ⟨raw, out, fed⟩ := ih
      have escaped := feed_append_ok fed (feed_singleton_ok (unstuffs.escape raw))
      exact ⟨_, _, feed_append_ok escaped (feed_singleton_ok (push_stuffed raw b))⟩

theorem feed_quiet {bytes : List UInt8} (quiet : Quiet bytes) :
    ∃ p out, p.state = .idle ∧ feed push new bytes = .ok (p, out) := by
  induction quiet with
  | nil => exact ⟨new, [], rfl, rfl⟩
  | skip b _ other ih =>
      obtain ⟨p, out, idle, fed⟩ := ih
      have ignored : push p b = .ok (p, none) := by
        simp only [push, idle, if_neg other]
      exact ⟨p, _, idle, feed_append_ok fed (feed_singleton_ok ignored)⟩
  | frame _ whole ih =>
      obtain ⟨p, out, idle, fed⟩ := ih
      obtain ⟨raw, inside, body⟩ := feed_whole whole
      obtain ⟨last, closed⟩ := push_flag_opened raw
      have opening := feed_append_ok fed (feed_singleton_ok (push_flag_idle idle))
      have within := feed_append_ok opening body
      exact ⟨new, _, rfl, feed_append_ok within (feed_singleton_ok closed)⟩

theorem feed_cutOff {noise : List UInt8} (cut : CutOff noise) :
    ∃ raw out, pushSlice new noise = .ok (opened raw, out) := by
  obtain ⟨bytes, body, rfl, quiet, whole⟩ := cut
  obtain ⟨p, out, idle, fed⟩ := feed_quiet quiet
  obtain ⟨raw, inside, within⟩ := feed_whole whole
  have opening := feed_append_ok fed (feed_singleton_ok (push_flag_idle idle))
  exact ⟨raw, _, feed_append_ok opening within⟩

theorem feed_skipped {p : RxParser} (idle : p.state = .idle) {text : List UInt8}
    (clean : FLAG ∉ text) : feed push p text = .ok (p, []) := by
  induction text with
  | nil => rfl
  | cons b rest ih =>
      rw [List.mem_cons, not_or] at clean
      have ignored : push p b = .ok (p, none) := by
        simp only [push, idle, if_neg (Ne.symm clean.1)]
      exact feed_cons_ok ignored (ih clean.2)

theorem frame_eq (c : Command) : c.frame = [FLAG] ++ hdlc.stuff c.raw ++ [FLAG] := by
  rw [Command.frame, Commands.buildFrame, Commands.delimit, foldl_pushLiteral]
  rfl

/-- A parser out of phase closes at the opening flag and opens at the closing one. -/
theorem pushSlice_frame_opened (raw : List UInt8) (c : Command) :
    ∃ out, push (opened raw) FLAG = .ok (new, out) ∧
      pushSlice (opened raw) c.frame = .ok (opened [], out.toList) := by
  obtain ⟨out, closed⟩ := push_flag_opened raw
  have clean : FLAG ∉ hdlc.stuff c.raw := hdlc.flag_notMem_stuff (by decide) c.raw
  have body := feed_skipped (show new.state = .idle from rfl) clean
  have last := feed_singleton_ok (push_flag_idle (show new.state = .idle from rfl))
  have fed := feed_append_ok (feed_append_ok (feed_singleton_ok closed) body) last
  rw [Option.toList_none, List.append_nil, List.append_nil, ← frame_eq] at fed
  exact ⟨out, closed, fed⟩

theorem pushSlice_frames_opened (sent : List Command) :
    pushSlice (opened []) (sent.flatMap Command.frame) = .ok (opened [], []) := by
  have each : ∀ (p : RxParser) (c : Command), p = opened [] →
      ∃ q, q = opened [] ∧ feed push p c.frame = .ok (q, []) := by
    intro p c same
    obtain ⟨out, closed, fed⟩ := pushSlice_frame_opened [] c
    have empty : push (opened []) FLAG = .ok (new, none) := rfl
    rw [empty] at closed
    cases closed
    rw [same]
    exact ⟨opened [], rfl, fed⟩
  obtain ⟨q, rfl, fed⟩ := feed_segments each rfl sent
  rw [List.flatMap_eq_nil_iff.mpr fun _ _ => rfl] at fed
  exact fed

/-- With an escape byte pending the opening flag is data, and the closing flag is a closing one. -/
theorem pushSlice_frame_stuffed (raw : List UInt8) (c : Command) :
    ∃ out, pushSlice (stuffed raw) c.frame = .ok (new, out) := by
  have opening := feed_singleton_ok (push_stuffed raw FLAG)
  have body := unstuffs.feed_stuff (raw ++ [FLAG ^^^ ESC_XOR]) c.raw
  obtain ⟨out, closed⟩ := push_flag_opened (raw ++ [FLAG ^^^ ESC_XOR] ++ c.raw)
  rw [frame_eq]
  exact ⟨_, feed_append_ok (feed_append_ok opening body) (feed_singleton_ok closed)⟩

theorem pushSlice_frame_idle {p : RxParser} (idle : p.state = .idle) (c : Command) :
    ∃ decoded, decodeCmd c.recordId c.payload = .ok decoded ∧
      pushSlice p c.frame = .ok (new, [decoded]) := by
  obtain ⟨decoded, meant⟩ := decodeCmd_returns c.recordId c.payload
  exact ⟨decoded, meant, pushSlice_delimit idle (tryDecode_raw c meant)⟩

theorem pushSlice_frames_idle {p : RxParser} (idle : p.state = .idle) (sent : List Command) :
    ∃ q cmds, pushSlice p (sent.flatMap Command.frame) = .ok (q, cmds) ∧
      (sent.map fun c => decodeCmd c.recordId c.payload) = cmds.map .ok := by
  induction sent generalizing p with
  | nil => exact ⟨p, [], rfl, rfl⟩
  | cons c rest ih =>
      obtain ⟨decoded, meant, first⟩ := pushSlice_frame_idle idle c
      obtain ⟨q, cmds, later, same⟩ := ih (show new.state = .idle from rfl)
      refine ⟨q, decoded :: cmds, feed_append_ok first later, ?_⟩
      rw [List.map_cons, List.map_cons, meant, same]

/-- After noise that is cut off inside a frame, no frame but the first gives anything. -/
theorem cutOff_loses {noise : List UInt8} (cut : CutOff noise) (first c : Command)
    (rest : List Command) : ¬Resynchronised noise first (c :: rest) := by
  rintro ⟨p, q, r, early, head, cmds, fed, one, others, same⟩
  obtain ⟨raw, out, left⟩ := feed_cutOff cut
  rw [left] at fed
  cases fed
  obtain ⟨out, -, read⟩ := pushSlice_frame_opened raw first
  rw [read] at one
  cases one
  rw [pushSlice_frames_opened] at others
  cases others
  cases same

/-- Every frame after the first is delivered exactly when the noise does not end inside a frame. -/
theorem resynchronised_iff (noise : List UInt8) (first : Command) (rest : List Command) :
    Resynchronised noise first rest ↔ rest = [] ∨ ¬CutOff noise := by
  constructor
  · intro delivered
    cases rest with
    | nil => exact .inl rfl
    | cons c rest => exact .inr fun cut => cutOff_loses cut first c rest delivered
  · intro clean
    obtain ⟨p, early, fed, fits⟩ := noise_fits noise
    have tail (q : RxParser) (idle : q.state = .idle) {head : List RxCmd}
        (one : pushSlice p first.frame = .ok (q, head)) : Resynchronised noise first rest := by
      obtain ⟨r, cmds, others, same⟩ := pushSlice_frames_idle idle rest
      exact ⟨p, q, r, early, head, cmds, fed, one, others, same⟩
    obtain ⟨idle, -⟩ | ⟨raw, rfl, cut⟩ | ⟨raw, rfl, -⟩ := fits
    · obtain ⟨decoded, -, one⟩ := pushSlice_frame_idle idle first
      exact tail new rfl one
    · have alone : rest = [] := clean.resolve_right fun uncut => uncut cut
      obtain ⟨out, -, one⟩ := pushSlice_frame_opened raw first
      exact ⟨_, _, opened [], early, out.toList, [], fed, one, by rw [alone]; rfl,
        by rw [alone]; rfl⟩
    · obtain ⟨out, one⟩ := pushSlice_frame_stuffed raw first
      exact tail new rfl one

/-- One stray flag before two commands. -/
theorem stray_flag_loses :
    ¬Resynchronised [FLAG] ⟨0, cmd.INFO, []⟩ [⟨1, cmd.RESET, []⟩] :=
  cutOff_loses ⟨[], [], rfl, .nil, .nil⟩ _ _ _

end RxParser

end QpRs.Qs
