import Mathlib.Data.List.Infix
import Mathlib.Logic.Function.Iterate
import QpRs.Comms.StackAo
import QpRs.Lib.Crc

/-! The driver of a firmware transfer: what it posts to the RF active object. -/

namespace QpRs.Comms

open QpRs.Lib

abbrev FOTA_CHUNK_BYTES : Nat := 200

def PKT_ANNOUNCE : UInt8 := 0x00

def PKT_CHUNK : UInt8 := 0x01

def PKT_VERIFY : UInt8 := 0x03

def NET_BROADCAST_ADDR : UInt16 := 0xFFFF

def RfTxReqPayload.withReliability (data : List UInt8) (fport : UInt8) (reliable : Bool) :
    RfTxReqPayload :=
  { data := data, fport := fport, reliable := reliable, dst := NET_BROADCAST_ADDR, kind := 0 }

/-- `posted` is all that was posted to `rf_ao`. -/
structure FotaDriver where
  image : List UInt8
  totalChunks : Nat
  next : Nat
  failed : Bool
  posted : List RfTxReqPayload
  deriving DecidableEq, Repr

inductive FotaStatus where
  | sending
  | done
  | failed
  deriving DecidableEq, Repr

/-- A packet of two words behind its type, written into an array of `size` bytes. -/
def fotaPacket (size : Nat) (kind : UInt8) (first second : Nat) (data : List UInt8) :
    Except Panic (List UInt8) := do
  let pkt ← overwrite .bounds (Vector.replicate size 0) 0 [kind]
  let pkt ← overwrite .bounds pkt 1 (toLeBytes 4 first)
  let pkt ← overwrite .bounds pkt 5 (toLeBytes 4 second)
  let pkt ← overwrite .bounds pkt 9 data
  slice .bounds pkt.toList 0 (9 + data.length)

def crcBit (crc : UInt32) : UInt32 :=
  if crc &&& 1 ≠ 0 then (crc >>> 1) ^^^ 0xEDB88320 else crc >>> 1

def crcByte (crc : UInt32) (byte : UInt8) : UInt32 := crcBit^[8] (crc ^^^ byte.toUInt32)

namespace FotaDriver

def new (image : List UInt8) : FotaDriver :=
  let len := image.length % 2 ^ 32
  { image := image
    totalChunks := len / FOTA_CHUNK_BYTES + if len % FOTA_CHUNK_BYTES > 0 then 1 else 0
    next := 0
    failed := false
    posted := [] }

/-- It never answers an error. -/
def postTx (d : FotaDriver) (payload : List UInt8) (reliable : Bool) : FotaDriver :=
  { d with posted := d.posted ++ [.withReliability payload 2 reliable] }

def startAnnounce (d : FotaDriver) (fwVersion : UInt32) : FotaDriver :=
  d.postTx (PKT_ANNOUNCE :: toLeBytes 4 fwVersion.toNat) false

def computeCrc32 (d : FotaDriver) : UInt32 := ~~~(d.image.foldl crcByte 0xFFFFFFFF)

def sendVerify (d : FotaDriver) (imageSize : Nat) (crc32 : UInt32) : Except Panic FotaDriver := do
  let pkt ← fotaPacket 9 PKT_VERIFY imageSize crc32.toNat []
  pure (d.postTx pkt true)

def onTxDone (d : FotaDriver) : Except Panic (FotaStatus × FotaDriver) :=
  if d.failed then .ok (.failed, d)
  else if d.next ≥ d.totalChunks then do
    let sent ← d.sendVerify (d.image.length % 2 ^ 32) d.computeCrc32
    pure (.done, sent)
  else do
    let start := d.next * FOTA_CHUNK_BYTES
    let stop := min (start + FOTA_CHUNK_BYTES) d.image.length
    let chunk ← slice .bounds d.image start stop
    let pkt ← fotaPacket (9 + FOTA_CHUNK_BYTES) PKT_CHUNK d.next d.totalChunks chunk
    pure (.sending, { d.postTx pkt true with next := d.next + 1 })

def onTxFail (d : FotaDriver) : FotaDriver := { d with failed := true }

end FotaDriver

inductive FotaCall where
  | announce (fwVersion : UInt32)
  | txDone
  | txFail
  deriving DecidableEq, Repr

namespace FotaDriver

def step (d : FotaDriver) : FotaCall → Except Panic FotaDriver
  | .announce fwVersion => .ok (d.startAnnounce fwVersion)
  | .txDone => do
    let (_, after) ← d.onTxDone
    pure after
  | .txFail => .ok d.onTxFail

def run (d : FotaDriver) (calls : List FotaCall) : Except Panic FotaDriver := calls.foldlM step d

def reliable (d : FotaDriver) : List (List UInt8) :=
  (d.posted.filter RfTxReqPayload.reliable).map RfTxReqPayload.data

end FotaDriver

def announcements (calls : List FotaCall) : List RfTxReqPayload :=
  calls.filterMap fun
    | .announce version =>
      some (.withReliability (PKT_ANNOUNCE :: toLeBytes 4 version.toNat) 2 false)
    | _ => none

/-- The completions that come before the first failure. -/
def completions : List FotaCall → Nat
  | [] => 0
  | .announce _ :: rest => completions rest
  | .txDone :: rest => completions rest + 1
  | .txFail :: _ => 0

def chunkPacket (i total : Nat) (data : List UInt8) : List UInt8 :=
  PKT_CHUNK :: (toLeBytes 4 i ++ toLeBytes 4 total ++ data)

def verifyPacket (len : Nat) (crc : UInt32) : List UInt8 :=
  PKT_VERIFY :: (toLeBytes 4 len ++ toLeBytes 4 crc.toNat)

/-- The checksum of IEEE 802.3: the complement of the remainder of the image behind a start value of
ones. -/
def IsCrc32 (image : List UInt8) (crc : UInt32) : Prop :=
  Crc.poly (~~~crc).toBitVec = Crc.remainder 0xEDB88320#32 (BitVec.allOnes 32) image

section Division

open Polynomial

/-- The same checksum by its bits: the image and the ones before it, each byte lowest bit first,
divided by the generator of the standard. What is left is complemented and reversed. -/
noncomputable def ieeeCrc32 (image : List UInt8) : UInt32 :=
  let dividend := Crc.ofBits (Crc.bits image) * X ^ 32 +
    Crc.word (BitVec.allOnes 32) * X ^ (8 * image.length)
  let remainder := dividend %ₘ (X ^ 32 + Crc.word 0x04C11DB7#32)
  ⟨~~~(Crc.coefficients 32 remainder).reverse⟩

end Division

def Transfers (image : List UInt8) (packets : List (List UInt8)) : Prop :=
  ∃ (parts : List (List UInt8)) (crc : UInt32),
    parts.flatten = image ∧ (∀ part ∈ parts, part.length ≤ FOTA_CHUNK_BYTES) ∧
    parts.length = (FotaDriver.new image).totalChunks ∧ IsCrc32 image crc ∧
    packets = parts.mapIdx (fun i part => chunkPacket i parts.length part) ++
      [verifyPacket image.length crc]

/-- The reliable packets are those of a transfer that may have stopped early, and from the first
failure on only announcements are posted. -/
def Conforms (image : List UInt8) (calls : List FotaCall) (d : FotaDriver) : Prop :=
  (∃ packets, Transfers image packets ∧ d.reliable <+: packets) ∧
    ∀ before after, calls = before ++ .txFail :: after →
      ∃ stopped, (FotaDriver.new image).run before = .ok stopped ∧
        d.posted = stopped.posted ++ announcements after

/-! ## Packets -/

theorem overwrite_extends {n : Nat} {pkt : Vector UInt8 n} {written : List UInt8} (i j : Nat)
    (data : List UInt8) (so_far : pkt.toList.take i = written) (starts : written.length = i)
    (ends : i + data.length = j) (inside : j ≤ n) :
    ∃ pkt' : Vector UInt8 n, overwrite Panic.bounds pkt i data = .ok pkt' ∧
      pkt'.toList.take j = written ++ data := by
  subst ends
  obtain ⟨after, wrote, bytes⟩ := overwrite_ok pkt inside
  refine ⟨after, wrote, ?_⟩
  have both : (written ++ data).length = i + data.length := by rw [List.length_append, starts]
  rw [bytes, so_far, List.take_append_of_le_length both.ge, List.take_of_length_le both.le]

theorem fotaPacket_ok {size : Nat} (kind : UInt8) (first second : Nat) {data : List UInt8}
    (fits : 9 + data.length ≤ size) :
    fotaPacket size kind first second data =
      .ok (kind :: (toLeBytes 4 first ++ toLeBytes 4 second ++ data)) := by
  have four (value : Nat) : (toLeBytes 4 value).length = 4 := length_toLeBytes 4 value
  have blank : (Vector.replicate size (0 : UInt8)).toList.take 0 = [] := List.take_zero
  obtain ⟨_, typed, bytes⟩ := overwrite_extends 0 1 [kind] blank rfl rfl (by omega)
  obtain ⟨_, headed, bytes⟩ := overwrite_extends 1 5 (toLeBytes 4 first) bytes rfl
    (by rw [four]) (by omega)
  obtain ⟨_, numbered, bytes⟩ := overwrite_extends 5 9 (toLeBytes 4 second) bytes
    (by simp [four]) (by rw [four]) (by omega)
  obtain ⟨pkt, filled, bytes⟩ := overwrite_extends 9 (9 + data.length) data bytes
    (by simp [four]) rfl fits
  rw [fotaPacket, typed, ok_bind, headed, ok_bind, numbered, ok_bind, filled, ok_bind,
    slice_ok (Nat.zero_le _) (by rw [Vector.length_toList]; exact fits), List.drop_zero, bytes]
  simp

/-! ## The checksum -/

theorem crcBit_toBitVec (crc : UInt32) :
    (crcBit crc).toBitVec = Crc.shift 0xEDB88320#32 crc.toBitVec := by
  have low : crc &&& 1 ≠ 0 ↔ crc.toBitVec.getLsbD 0 = true := by
    rw [← BitVec.testBit_toNat, ← UInt32.toNat_inj.ne]
    simp [Nat.testBit_zero]
  rw [crcBit, Crc.shift]
  simp only [low]
  split <;> rfl

theorem crcByte_toBitVec (crc : UInt32) (byte : UInt8) :
    (crcByte crc byte).toBitVec = Crc.feedByte 0xEDB88320#32 crc.toBitVec byte := by
  have bits : Function.Semiconj UInt32.toBitVec crcBit (Crc.shift 0xEDB88320#32) := crcBit_toBitVec
  rw [crcByte, Crc.feedByte, (bits.iterate_right 8).eq]
  rfl

theorem foldl_crcByte_toBitVec (crc : UInt32) (image : List UInt8) :
    (image.foldl crcByte crc).toBitVec = Crc.feed 0xEDB88320#32 crc.toBitVec image := by
  induction image generalizing crc with
  | nil => rfl
  | cons byte rest ih =>
      rw [List.foldl_cons, ih, crcByte_toBitVec]
      rfl

theorem computeCrc32_isCrc32 (d : FotaDriver) : IsCrc32 d.image d.computeCrc32 := by
  have ones : (0xFFFFFFFF : UInt32).toBitVec = BitVec.allOnes 32 := rfl
  rw [IsCrc32, FotaDriver.computeCrc32, UInt32.not_not, foldl_crcByte_toBitVec, ones]
  exact Crc.poly_feed (by omega) _ _ _

section Division

open Polynomial

theorem IsCrc32.eq_ieee {image : List UInt8} {crc : UInt32} (is_crc : IsCrc32 image crc) :
    crc = ieeeCrc32 image := by
  have ones : (BitVec.allOnes 32).reverse = BitVec.allOnes 32 := by decide +kernel
  have mirrored : (0xEDB88320#32).reverse = 0x04C11DB7#32 := by decide +kernel
  have divisor : Crc.generator 0xEDB88320#32 = X ^ 32 + Crc.word 0x04C11DB7#32 := by
    rw [Crc.generator, Crc.poly_eq_word, mirrored]
  have dividend : X ^ (8 * image.length) * Crc.word (BitVec.allOnes 32) +
      X ^ 32 * Crc.message image = Crc.ofBits (Crc.bits image) * X ^ 32 +
        Crc.word (BitVec.allOnes 32) * X ^ (8 * image.length) := by
    rw [Crc.ofBits_bits]
    ring
  rw [IsCrc32, Crc.poly_eq_word, Crc.remainder, Crc.poly_eq_word, ones, divisor,
    dividend] at is_crc
  rw [ieeeCrc32, ← is_crc, Crc.coefficients_word, BitVec.reverse_reverse_eq, ← UInt32.toBitVec_not,
    UInt32.not_not]

end Division

namespace FotaDriver

/-- No burst of up to 32 wrong bits passes the check of the image. -/
theorem computeCrc32_ieee (d : FotaDriver) :
    d.computeCrc32 = ieeeCrc32 d.image ∧
      ∀ d' : FotaDriver, d'.image.length = d.image.length → d'.image ≠ d.image →
        ∀ k, Crc.SameOutside k 32 (Crc.bits d'.image) (Crc.bits d.image) →
          d'.computeCrc32 ≠ d.computeCrc32 := by
  refine ⟨(computeCrc32_isCrc32 d).eq_ieee, ?_⟩
  intro d' len differ k outside same
  have registers : d'.image.foldl crcByte 0xFFFFFFFF = d.image.foldl crcByte 0xFFFFFFFF :=
    UInt32.not_inj.mp same
  have fed := congrArg UInt32.toBitVec registers
  rw [foldl_crcByte_toBitVec, foldl_crcByte_toBitVec] at fed
  exact differ (Crc.burst_detected (by omega) (by decide) _ len outside fed)

theorem computeCrc32_ieee_three_bytes :
    (new [1, 2, 3]).computeCrc32 = ieeeCrc32 [1, 2, 3] ∧
      (new [1, 0xF2, 0x13]).computeCrc32 ≠ (new [1, 2, 3]).computeCrc32 := by
  obtain ⟨divides, detects⟩ := computeCrc32_ieee (new [1, 2, 3])
  exact ⟨divides, detects (new [1, 0xF2, 0x13]) rfl (by decide) 12 ⟨by decide, by decide⟩⟩

end FotaDriver

/-- The check value of the nine digits. -/
example : (FotaDriver.new [49, 50, 51, 52, 53, 54, 55, 56, 57]).computeCrc32 = 0xCBF43926 := by
  decide +kernel

/-! ## Runs -/

def part (image : List UInt8) (i : Nat) : List UInt8 :=
  (image.drop (i * FOTA_CHUNK_BYTES)).take FOTA_CHUNK_BYTES

/-- What the first `n` completions post: the chunks in order, and a verify packet each time after
them. -/
def sent (image : List UInt8) (n : Nat) : List (List UInt8) :=
  let d := FotaDriver.new image
  (List.range (min n d.totalChunks)).map (fun i => chunkPacket i d.totalChunks (part image i)) ++
    List.replicate (n - d.totalChunks) (verifyPacket image.length d.computeCrc32)

section Image

variable {image : List UInt8}

theorem totalChunks_spec (sized : image.length < 2 ^ 32) :
    (FotaDriver.new image).totalChunks * FOTA_CHUNK_BYTES <
      image.length + FOTA_CHUNK_BYTES ∧
    image.length ≤ (FotaDriver.new image).totalChunks * FOTA_CHUNK_BYTES := by
  simp only [FotaDriver.new, Nat.mod_eq_of_lt sized, FOTA_CHUNK_BYTES]
  split <;> omega

theorem flatten_parts (n : Nat) :
    ((List.range n).map (part image)).flatten = image.take (n * FOTA_CHUNK_BYTES) := by
  induction n with
  | zero => simp
  | succ n ih =>
      rw [List.range_succ, List.map_append, List.flatten_append, ih, Nat.succ_mul, List.take_add]
      simp [part]

theorem transfers_sent (sized : image.length < 2 ^ 32) :
    Transfers image (sent image ((FotaDriver.new image).totalChunks + 1)) := by
  refine ⟨(List.range (FotaDriver.new image).totalChunks).map (part image),
    (FotaDriver.new image).computeCrc32, ?_, ?_, ?_, computeCrc32_isCrc32 _, ?_⟩
  · rw [flatten_parts]
    exact List.take_of_length_le (totalChunks_spec sized).2
  · intro piece member
    obtain ⟨i, _, rfl⟩ := List.mem_map.mp member
    exact List.length_take_le _ _
  · rw [List.length_map, List.length_range]
  · have numbered : ((List.range (FotaDriver.new image).totalChunks).map (part image)).mapIdx
        (fun i piece => chunkPacket i (FotaDriver.new image).totalChunks piece) =
        (List.range (FotaDriver.new image).totalChunks).map
          (fun i => chunkPacket i (FotaDriver.new image).totalChunks (part image i)) := by
      refine List.ext_getElem (by simp) ?_
      intro i _ _
      simp
    rw [List.length_map, List.length_range, numbered, sent, Nat.min_eq_right (Nat.le_succ _),
      Nat.add_sub_cancel_left]
    rfl

theorem length_sent (n : Nat) : (sent image n).length = n := by
  simp only [sent, List.length_append, List.length_map, List.length_range, List.length_replicate]
  omega

theorem sent_chunk {n : Nat} (more : n < (FotaDriver.new image).totalChunks) :
    sent image (n + 1) = sent image n ++
      [chunkPacket n (FotaDriver.new image).totalChunks (part image n)] := by
  have here : min n (FotaDriver.new image).totalChunks = n := by omega
  have next : min (n + 1) (FotaDriver.new image).totalChunks = n + 1 := by omega
  have none_left : n - (FotaDriver.new image).totalChunks = 0 := by omega
  have none_left' : n + 1 - (FotaDriver.new image).totalChunks = 0 := by omega
  simp only [sent, here, next, none_left, none_left', List.range_succ, List.map_append,
    List.replicate_zero, List.append_nil, List.map_cons, List.map_nil]

theorem sent_verify {n : Nat} (all : (FotaDriver.new image).totalChunks ≤ n) :
    sent image (n + 1) = sent image n ++
      [verifyPacket image.length (FotaDriver.new image).computeCrc32] := by
  have here : min n (FotaDriver.new image).totalChunks = (FotaDriver.new image).totalChunks := by
    omega
  have next : min (n + 1) (FotaDriver.new image).totalChunks =
      (FotaDriver.new image).totalChunks := by omega
  have again : n + 1 - (FotaDriver.new image).totalChunks =
      n - (FotaDriver.new image).totalChunks + 1 := by omega
  simp only [sent, here, next, again, List.replicate_succ', List.append_assoc]

theorem sent_prefix {n m : Nat} (before : n ≤ m) : sent image n <+: sent image m := by
  induction m, before using Nat.le_induction with
  | base => exact List.prefix_rfl
  | succ m _ ih =>
      refine ih.trans ?_
      by_cases more : m < (FotaDriver.new image).totalChunks
      · rw [sent_chunk more]
        exact List.prefix_append _ _
      · rw [sent_verify (by omega)]
        exact List.prefix_append _ _

/-- The packets of a whole transfer hold `n` completions' worth exactly when one completion at most
follows the chunks. -/
theorem sent_transfers_iff (sized : image.length < 2 ^ 32) (n : Nat) :
    (∃ packets, Transfers image packets ∧ sent image n <+: packets) ↔
      n ≤ (FotaDriver.new image).totalChunks + 1 := by
  constructor
  · rintro ⟨packets, ⟨parts, crc, _, _, counted, _, rfl⟩, begins⟩
    have short := begins.length_le
    rw [length_sent, List.length_append, List.length_mapIdx, counted] at short
    exact short
  · intro few
    exact ⟨_, transfers_sent sized, sent_prefix few⟩

end Image

namespace FotaDriver

variable {image : List UInt8} {n : Nat} {d : FotaDriver}

/-- The driver of an image after `n` completions and no failure. -/
structure At (image : List UInt8) (n : Nat) (d : FotaDriver) : Prop where
  holds : d.image = image
  counts : d.totalChunks = (new image).totalChunks
  next : d.next = min n (new image).totalChunks
  running : d.failed = false
  posts : d.reliable = sent image n

theorem at_new (image : List UInt8) : At image 0 (new image) :=
  ⟨rfl, rfl, (Nat.zero_min _).symm, rfl, by simp [sent, reliable, new]⟩

theorem reliable_postTx (d : FotaDriver) (payload : List UInt8) :
    (d.postTx payload true).reliable = d.reliable ++ [payload] := by
  simp [reliable, postTx, RfTxReqPayload.withReliability]

theorem reliable_startAnnounce (d : FotaDriver) (version : UInt32) :
    (d.startAnnounce version).reliable = d.reliable := by
  simp [reliable, startAnnounce, postTx, RfTxReqPayload.withReliability]

theorem At.startAnnounce (here : At image n d) (version : UInt32) :
    At image n (d.startAnnounce version) :=
  { here with posts := (reliable_startAnnounce d version).trans here.posts }

theorem At.onTxDone (sized : image.length < 2 ^ 32) (here : At image n d) :
    ∃ status after, d.onTxDone = .ok (status, after) ∧ At image (n + 1) after := by
  obtain ⟨holds, counts, next, running, posts⟩ := here
  have going : ¬d.failed = true := by simp [running]
  rw [FotaDriver.onTxDone, if_neg going]
  by_cases more : n < (new image).totalChunks
  · have at_n : d.next = n := by omega
    have unfinished : ¬d.next ≥ d.totalChunks := by omega
    have inside : n * FOTA_CHUNK_BYTES < image.length := by
      have spec := totalChunks_spec sized
      simp only [FOTA_CHUNK_BYTES] at spec ⊢
      omega
    have piece : ((d.image.take (min (n * FOTA_CHUNK_BYTES + FOTA_CHUNK_BYTES) d.image.length)).drop
        (n * FOTA_CHUNK_BYTES)) = part image n := by
      rw [holds, List.drop_take, part, List.take_eq_take_iff, List.length_drop]
      omega
    have fits : 9 + (part image n).length ≤ 9 + FOTA_CHUNK_BYTES :=
      Nat.add_le_add_left (List.length_take_le _ _) 9
    rw [if_neg unfinished, at_n]
    simp only
    rw [slice_ok (by rw [holds]; omega) (Nat.min_le_right _ _), ok_bind, piece,
      fotaPacket_ok _ _ _ fits, ok_bind]
    refine ⟨_, _, rfl, holds, counts, ?_, running, ?_⟩
    · simp only
      omega
    · rw [sent_chunk more, ← posts, counts]
      exact reliable_postTx _ _
  · have all : (new image).totalChunks ≤ n := by omega
    have finished : d.next ≥ d.totalChunks := by omega
    have same : d.computeCrc32 = (new image).computeCrc32 := by
      rw [computeCrc32, holds]
      rfl
    rw [if_pos finished, sendVerify, fotaPacket_ok _ _ _ (by simp), ok_bind]
    refine ⟨_, _, rfl, holds, counts, ?_, running, ?_⟩
    · show d.next = _
      omega
    · rw [sent_verify all, ← posts, reliable_postTx, List.append_nil, holds,
        Nat.mod_eq_of_lt sized, same]
      rfl

theorem run_failed (stopped : d.failed = true) (calls : List FotaCall) :
    ∃ last, d.run calls = .ok last ∧ last.posted = d.posted ++ announcements calls := by
  induction calls generalizing d with
  | nil => exact ⟨d, rfl, (List.append_nil _).symm⟩
  | cons call rest ih =>
      cases call with
      | announce version =>
          obtain ⟨last, ran, posts⟩ := ih (d := d.startAnnounce version) stopped
          refine ⟨last, ran, posts.trans ?_⟩
          simp [announcements, startAnnounce, postTx]
      | txDone =>
          obtain ⟨last, ran, posts⟩ := ih stopped
          refine ⟨last, ?_, posts⟩
          rw [run, List.foldlM_cons, step, onTxDone, if_pos stopped]
          exact ran
      | txFail => exact ih (d := d.onTxFail) rfl

theorem reliable_announcements (calls : List FotaCall) :
    (announcements calls).filter RfTxReqPayload.reliable = [] := by
  rw [List.filter_eq_nil_iff]
  intro payload member
  obtain ⟨call, _, made⟩ := List.mem_filterMap.mp member
  cases call with
  | announce version =>
      cases made
      exact Bool.false_ne_true
  | txDone => cases made
  | txFail => cases made

theorem run_sends (sized : image.length < 2 ^ 32) (here : At image n d) (calls : List FotaCall) :
    ∃ last, d.run calls = .ok last ∧ last.reliable = sent image (n + completions calls) := by
  induction calls generalizing n d with
  | nil => exact ⟨d, rfl, here.posts⟩
  | cons call rest ih =>
      cases call with
      | announce version => exact ih (here.startAnnounce version)
      | txDone =>
          obtain ⟨status, after, ran, next⟩ := here.onTxDone sized
          obtain ⟨last, later, posts⟩ := ih next
          refine ⟨last, ?_, ?_⟩
          · rw [run, List.foldlM_cons, step, ran]
            exact later
          · rw [posts, completions]
            congr 1
            omega
      | txFail =>
          obtain ⟨last, ran, posts⟩ := run_failed (d := d.onTxFail) rfl rest
          refine ⟨last, ran, ?_⟩
          rw [reliable, posts, List.filter_append, reliable_announcements, List.append_nil]
          exact here.posts

/-- The driver never stops with a panic. Its reliable packets are those of one transfer exactly when
at most one completion beyond the chunks comes before the first failure. -/
theorem conforms_iff (image : List UInt8) (sized : image.length < 2 ^ 32) (calls : List FotaCall) :
    ∃ last, (new image).run calls = .ok last ∧
      (Conforms image calls last ↔ completions calls ≤ (new image).totalChunks + 1) := by
  obtain ⟨last, ran, posts⟩ := run_sends sized (at_new image) calls
  rw [Nat.zero_add] at posts
  refine ⟨last, ran, ?_⟩
  have stops : ∀ before after, calls = before ++ .txFail :: after →
      ∃ stopped, (new image).run before = .ok stopped ∧
        last.posted = stopped.posted ++ announcements after := by
    rintro before after rfl
    obtain ⟨stopped, until_then, _⟩ := run_sends sized (at_new image) before
    obtain ⟨final, later, after_that⟩ := run_failed (d := stopped.onTxFail) rfl after
    have whole : (new image).run (before ++ .txFail :: after) = .ok final := by
      rw [run, List.foldlM_append]
      rw [run] at until_then
      rw [until_then]
      exact later
    rw [ran] at whole
    cases whole
    exact ⟨stopped, until_then, after_that⟩
  rw [Conforms, posts, sent_transfers_iff sized]
  exact and_iff_left stops

theorem conforms_iff_four_bytes : [1, 2, 3, 4].length < 2 ^ 32 ∧
    ∃ last, (new [1, 2, 3, 4]).run [.txDone, .txDone, .txFail, .txDone] = .ok last ∧
      (Conforms [1, 2, 3, 4] [.txDone, .txDone, .txFail, .txDone] last ↔ 2 ≤ 2) :=
  ⟨by decide, conforms_iff [1, 2, 3, 4] (by decide) _⟩

/-- The completion of the verify packet makes the driver post it again. -/
theorem verify_posted_twice : ∃ last,
    (new [7]).run [.txDone, .txDone, .txDone] = .ok last ∧
      ¬Conforms [7] [.txDone, .txDone, .txDone] last := by
  obtain ⟨last, ran, posts⟩ := run_sends (by decide) (at_new [7]) [.txDone, .txDone, .txDone]
  refine ⟨last, ran, ?_⟩
  rintro ⟨once, _⟩
  rw [posts] at once
  have few := (sent_transfers_iff (by decide) _).mp once
  exact absurd few (by decide)

end FotaDriver

end QpRs.Comms
