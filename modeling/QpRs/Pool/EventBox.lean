import QpRs.Event
import QpRs.Pool.PoolArc

/-! Events in pool blocks, and the events without a static type that are made of them. -/

namespace QpRs.Pool.Events

open QpRs.Lib

structure Event (P : Type) where
  header : EventHeader
  payload : P

/-- The fields of the header are in range. -/
def Event.Fits {P : Type} (e : Event P) : Prop :=
  e.header.signal.val < 65536 ∧ (∀ id ∈ e.header.poolId, id < 256) ∧ e.header.refCount < 256

/-- What frees the block behind a payload of the dynamic build. -/
structure PoolBlock where
  ptr : Nat
  poolId : Nat
  deriving DecidableEq, Repr

structure EventBox where
  ptr : Nat
  poolId : Nat
  deriving DecidableEq, Repr

/-- The head of a `Block<T>`; the fat pointer to its value is an address and a type. -/
structure CtrlHeader (N : Type) where
  refCount : UInt32
  poolId : Dis
  value : Nat
  type : N
  deriving DecidableEq

def CtrlHeader.Fits {N : Type} (b : Build) (h : CtrlHeader N) : Prop :=
  h.poolId.value < 256 ∧ h.poolId.inverse < 256 ∧ h.value ≤ b.max

/-- `dyn Any`: a value together with its type, which is a type of the application or
`PoolPayload<T>` for one. -/
inductive DynAny (N : Type) (val : N → Type) where
  | plain (T : N) (value : val T)
  | poolPayload (T : N) (value : val T) (guard : PoolBlock)

structure ArcInner (N : Type) (val : N → Type) where
  strong : Nat
  value : DynAny N val

/-- `Arc<dyn Any>` of the dynamic build and `PoolArc` of the other. -/
inductive DynPayload where
  | arc (number : Nat)
  | pooled (ptr : Nat)
  deriving DecidableEq, Repr

abbrev DynEvent : Type := Event DynPayload

/-- How the types lie in memory. `offset`, `blockSize` and `blockAlign` are those of `Block<T>`. -/
structure Layout (b : Build) (N : Type) (val : N → Type) where
  event : ∀ T, Stored (Event.Fits (P := val T))
  header : Stored (CtrlHeader.Fits (N := N) b)
  value : ∀ T, Stored fun _ : val T => True
  offset : N → Nat
  blockSize : N → Nat
  blockAlign : N → Nat
  behind : ∀ T, header.size ≤ offset T
  inside : ∀ T, offset T + (value T).size ≤ blockSize T

structure Config (N : Type) (val : N → Type) where
  build : Build
  staticAlloc : Bool
  layout : Layout build N val

structure World (N : Type) (val : N → Type) where
  pools : RegistryWorld
  arcs : List (ArcInner N val)

variable {N : Type} {val : N → Type}

namespace World

def read {α : Type} {has : α → Prop} (w : World N val) (stored : Stored has) (ptr : Nat) : α :=
  stored.read w.pools.mem ptr

def store {α : Type} {has : α → Prop} (w : World N val) (stored : Stored has) (ptr : Nat)
    (x : α) : World N val :=
  { w with pools := { w.pools with mem := stored.write w.pools.mem ptr x } }

end World

/-! ## Reference counts -/

/-- `DisAtomicU16::increment` where no other context is in between. -/
def increment (word : UInt32) : Except Fault UInt32 := do
  let v ← DisAtomicU16.verify word
  if v.toNat + 1 < 65536 then pure (DisAtomicU16.pack (v + 1)) else .error .onError

/-- `DisAtomicU16::decrement`; the count before is returned. -/
def decrement (word : UInt32) : Except Fault (UInt16 × UInt32) := do
  let v ← DisAtomicU16.verify word
  if 1 ≤ v.toNat then pure (v, DisAtomicU16.pack (v - 1)) else .error .onError

/-! ## Payloads -/

namespace DynAny

variable [DecidableEq N]

def downcastRef (T : N) : DynAny N val → Option (val T)
  | .plain U value => if same : U = T then some (same ▸ value) else none
  | .poolPayload _ _ _ => none

end DynAny

def PoolBlock.drop (c : Config N val) (w : World N val) (block : PoolBlock) :
    Except Fault (World N val) :=
  if block.ptr ≠ 0 ∧ block.poolId ≠ 0 then do
    let pools ← w.pools.free c.build block.poolId block.ptr
    pure { w with pools := pools }
  else .ok w

/-- The values of the application own nothing. -/
def DynAny.drop (c : Config N val) (w : World N val) : DynAny N val → Except Fault (World N val)
  | .plain _ _ => .ok w
  | .poolPayload _ _ guard => guard.drop c w

namespace PoolArc

def tryFromValue (c : Config N val) (w : World N val) (T : N) (value : val T) :
    Except Fault (Option DynPayload × World N val) :=
  if c.build.align < c.layout.blockAlign T then .error .onError
  else do
    match ← w.pools.alloc c.build (c.layout.blockSize T) 0 with
    | (none, pools) => pure (none, { w with pools := pools })
    | (some (poolId, raw), pools) =>
      let header : CtrlHeader N :=
        { refCount := DisAtomicU16.pack 1
          poolId := Dis.new 255 poolId
          value := raw + c.layout.offset T
          type := T }
      let w := { w with pools := pools }
      pure (some (.pooled raw),
        (w.store (c.layout.value T) (raw + c.layout.offset T) value).store c.layout.header raw
          header)

def fromValue (c : Config N val) (w : World N val) (T : N) (value : val T) :
    Except Fault (DynPayload × World N val) := do
  match ← tryFromValue c w T value with
  | (some payload, w) => pure (payload, w)
  | (none, _) => .error .onError

end PoolArc

namespace DynPayload

def asAny (c : Config N val) (w : World N val) : DynPayload → Option (DynAny N val)
  | .arc number => w.arcs[number]?.map ArcInner.value
  | .pooled ptr =>
    let header := w.read c.layout.header ptr
    some (.plain header.type (w.read (c.layout.value header.type) header.value))

/-- `Arc::clone` aborts when the count is past `isize::MAX`. -/
def clone (c : Config N val) (w : World N val) : DynPayload → Except Fault (World N val)
  | .arc number =>
    match w.arcs[number]? with
    | none => .ok w
    | some inner =>
      if c.build.max / 2 < inner.strong then .error .overflow
      else .ok { w with arcs := w.arcs.set number { inner with strong := inner.strong + 1 } }
  | .pooled ptr => do
    let header := w.read c.layout.header ptr
    let refCount ← increment header.refCount
    pure (w.store c.layout.header ptr { header with refCount := refCount })

def drop (c : Config N val) (w : World N val) : DynPayload → Except Fault (World N val)
  | .arc number =>
    match w.arcs[number]? with
    | none => .ok w
    | some inner =>
      let w := { w with arcs := w.arcs.set number { inner with strong := inner.strong - 1 } }
      if inner.strong = 1 then inner.value.drop c w else .ok w
  | .pooled ptr => do
    let header := w.read c.layout.header ptr
    let (before, refCount) ← decrement header.refCount
    let w := w.store c.layout.header ptr { header with refCount := refCount }
    if before ≠ 1 then pure w
    else do
      let poolId ← header.poolId.get 255
      let pools ← w.pools.free c.build poolId ptr
      pure { w with pools := pools }

end DynPayload

/-! ## Events -/

def qNewX (c : Config N val) (w : World N val) (sig : UInt16) (T : N) (payload : val T)
    (margin : Nat) : Except Fault (Option EventBox × World N val) := do
  match ← w.pools.alloc c.build (c.layout.event T).size margin with
  | (none, pools) => pure (none, { w with pools := pools })
  | (some (poolId, raw), pools) =>
    let header := { EventHeader.new ⟨sig.toNat⟩ with poolId := some poolId }
    let event : Event (val T) := ⟨header, payload⟩
    pure (some ⟨raw, poolId⟩, World.store { w with pools := pools } (c.layout.event T) raw event)

def qNew (c : Config N val) (w : World N val) (sig : UInt16) (T : N) (payload : val T) :
    Except Fault (Option EventBox × World N val) :=
  qNewX c w sig T payload 0

/-- `EventBox<T>::into_dyn` of both builds. -/
def EventBox.intoDyn (c : Config N val) (w : World N val) (T : N) (box : EventBox) :
    Except Fault (DynEvent × World N val) :=
  let event := w.read (c.layout.event T) box.ptr
  if c.staticAlloc then do
    let pools ← w.pools.free c.build box.poolId box.ptr
    let (payload, w) ← PoolArc.fromValue c { w with pools := pools } T event.payload
    pure (⟨event.header, payload⟩, w)
  else
    let inner : ArcInner N val := ⟨1, .poolPayload T event.payload ⟨box.ptr, box.poolId⟩⟩
    .ok (⟨event.header, .arc w.arcs.length⟩, { w with arcs := w.arcs ++ [inner] })

/-! ## The clones of an event -/

/-- `live` holds the clones that have not been dropped. -/
structure Clones (N : Type) (val : N → Type) where
  world : World N val
  live : List DynEvent

inductive CloneOp where
  | clone (i : Nat)
  | drop (i : Nat)
  deriving DecidableEq, Repr

namespace Clones

/-- None where no clone has that place. -/
def perform (c : Config N val) (s : Clones N val) : CloneOp → Option (Except Fault (Clones N val))
  | .clone i => s.live[i]?.map fun e => do
    let w ← e.payload.clone c s.world
    pure ⟨w, s.live ++ [e]⟩
  | .drop i => s.live[i]?.map fun e => do
    let w ← e.payload.drop c s.world
    pure ⟨w, s.live.eraseIdx i⟩

def step (c : Config N val) (s : Clones N val) (op : CloneOp) : Option (Clones N val) :=
  (s.perform c op).bind Except.toOption

variable [DecidableEq N]

/-- The clones give the signal and the value, and without any of them the pools have as many free
blocks as `before`. -/
def Faithful (c : Config N val) (sig : UInt16) (T : N) (value : val T) (before : PoolRegistry)
    (s : Clones N val) : Prop :=
  (∀ e ∈ s.live, e.header.signal = ⟨sig.toNat⟩ ∧
    (e.payload.asAny c s.world).bind (DynAny.downcastRef T) = some value) ∧
  (s.live = [] → ∀ poolId,
    s.world.pools.registry.getFree c.build poolId = before.getFree c.build poolId)

end Clones

/-- `into_dyn` returns, and whatever the clones of its event are put through returns and keeps
signal, value and pools. -/
def KeepsPayload [DecidableEq N] (c : Config N val) (w : World N val) (sig : UInt16) (T : N)
    (value : val T) (before : PoolRegistry) (box : EventBox) (ops : List CloneOp) : Prop :=
  ∃ e w', box.intoDyn c w T = .ok (e, w') ∧
    Clones.Faithful c sig T value before ⟨w', [e]⟩ ∧
    Along (Clones.step c) (fun s op => ∀ outcome, s.perform c op = some outcome →
      ∃ s', outcome = .ok s' ∧ s'.Faithful c sig T value before) ⟨w', [e]⟩ ops

/-- The most clones that are alive at once, from `n` on. -/
def mostAlive : Nat → List CloneOp → Nat
  | n, [] => n
  | n, .clone i :: rest => if i < n then max n (mostAlive (n + 1) rest) else n
  | n, .drop i :: rest => if i < n then max n (mostAlive (n - 1) rest) else n

/-! ## A block that clones share -/

theorem toNat_ofNat {n : Nat} (few : n < 65536) : (UInt16.ofNat n).toNat = n := by
  rw [UInt16.toNat_ofNat', Nat.mod_eq_of_lt few]

theorem increment_pack {n : Nat} (few : n < 65536) :
    increment (DisAtomicU16.pack (.ofNat n)) =
      if n + 1 < 65536 then .ok (DisAtomicU16.pack (.ofNat (n + 1))) else .error .onError := by
  rw [increment, DisAtomicU16.verify_pack, ok_bind, toNat_ofNat few, UInt16.ofNat_add]
  rfl

theorem decrement_pack {n : Nat} (few : n + 1 < 65536) :
    decrement (DisAtomicU16.pack (.ofNat (n + 1))) =
      .ok (.ofNat (n + 1), DisAtomicU16.pack (.ofNat n)) := by
  have less : UInt16.ofNat (n + 1) - 1 = .ofNat n := by
    rw [UInt16.ofNat_add]
    exact UInt16.add_sub_cancel _ _
  rw [decrement, DisAtomicU16.verify_pack, ok_bind, toNat_ofNat few, less]
  exact if_pos (Nat.succ_pos n)

/-- The block at `ptr` holds the value, and `n` clones share it. When it comes back, the pools
offer what `offers` says. -/
structure Shared (c : Config N val) (T : N) (value : val T) (offers : List (Nat × Nat))
    (ptr n : Nat) (w : World N val) (poolId : Nat) (p : QMPool) : Prop where
  out : (poolId, ptr) ∈ w.pools.allocated
  slot : w.pools.registry.slot? poolId = some p
  fits : c.layout.blockSize T ≤ p.blockSize
  small : poolId ≤ 255
  reach : ptr + p.blockSize ≤ c.build.max
  header : w.read c.layout.header ptr =
    ⟨DisAtomicU16.pack (.ofNat n), Dis.new 255 poolId, ptr + c.layout.offset T, T⟩
  holds : w.read (c.layout.value T) (ptr + c.layout.offset T) = value
  back : ∃ shelves s, w.pools.Tracks c.build shelves ∧ shelves[poolId - 1]? = some s ∧
    (shelves.set (poolId - 1) (s.returned ptr)).map Shelf.offer = offers

variable {c : Config N val} {T : N} {value : val T} {offers : List (Nat × Nat)}
  {ptr n poolId : Nat} {w : World N val} {p : QMPool}

theorem tracks_store {α : Type} {has : α → Prop} {shelves : List (Shelf (Region c.build) Nat)}
    {addr : Nat} (tracks : w.pools.Tracks c.build shelves) (out : (poolId, ptr) ∈ w.pools.allocated)
    (slot : w.pools.registry.slot? poolId = some p) (stored : Stored has) (x : α)
    (first : ptr ≤ addr) (last : addr + stored.size ≤ ptr + p.blockSize) :
    (w.store stored addr x).pools.Tracks c.build shelves :=
  tracks.store out slot first (by rw [stored.length_bytes]; exact last)

theorem value_kept (T : N) (x : CtrlHeader N) :
    (w.store c.layout.header ptr x).read (c.layout.value T) (ptr + c.layout.offset T) =
      w.read (c.layout.value T) (ptr + c.layout.offset T) := by
  apply Stored.read_write_apart
  right
  rw [c.layout.header.length_bytes]
  exact Nat.add_le_add_left (c.layout.behind T) ptr

theorem header_fits (word : UInt32) (small : poolId ≤ 255) {addr : Nat}
    (reach : addr ≤ c.build.max) :
    CtrlHeader.Fits c.build ⟨word, Dis.new 255 poolId, addr, T⟩ :=
  ⟨Nat.lt_succ_of_le small, Nat.lt_succ_of_le (Nat.sub_le _ _), reach⟩

theorem Shared.recount (shared : Shared c T value offers ptr n w poolId p) (m : Nat) :
    Shared c T value offers ptr m (w.store c.layout.header ptr
      ⟨DisAtomicU16.pack (.ofNat m), Dis.new 255 poolId, ptr + c.layout.offset T, T⟩)
      poolId p := by
  obtain ⟨shelves, s, tracks, here, offer⟩ := shared.back
  have behind := c.layout.behind T
  have inside := c.layout.inside T
  have fits := shared.fits
  have reach := shared.reach
  exact
    { out := shared.out
      slot := shared.slot
      fits := fits
      small := shared.small
      reach := reach
      header := Stored.read_write _ (header_fits _ shared.small (by omega))
      holds := (value_kept T _).trans shared.holds
      back := ⟨shelves, s, tracks_store tracks shared.out shared.slot _ _ (Nat.le_refl _)
        (by omega), here, offer⟩ }

theorem Shared.clone (shared : Shared c T value offers ptr n w poolId p) (few : n < 65535) :
    ∃ w', (DynPayload.pooled ptr).clone c w = .ok w' ∧
      Shared c T value offers ptr (n + 1) w' poolId p := by
  refine ⟨_, ?_, shared.recount (n + 1)⟩
  rw [DynPayload.clone, shared.header, increment_pack (by omega), if_pos (by omega)]
  rfl

theorem Shared.clone_full (shared : Shared c T value offers ptr n w poolId p) (full : n = 65535) :
    (DynPayload.pooled ptr).clone c w = .error .onError := by
  subst full
  rw [DynPayload.clone, shared.header, increment_pack (by omega), if_neg (by omega)]
  rfl

theorem Shared.drop (shared : Shared c T value offers ptr (n + 2) w poolId p)
    (few : n + 2 ≤ 65535) : ∃ w', (DynPayload.pooled ptr).drop c w = .ok w' ∧
      Shared c T value offers ptr (n + 1) w' poolId p := by
  have more : UInt16.ofNat (n + 2) ≠ 1 := by
    intro one
    have back := congrArg UInt16.toNat one
    rw [toNat_ofNat (by omega)] at back
    change n + 2 = 1 at back
    omega
  refine ⟨_, ?_, shared.recount (n + 1)⟩
  rw [DynPayload.drop]
  dsimp only
  rw [shared.header, decrement_pack (by omega), ok_bind]
  dsimp only
  rw [if_pos more]
  rfl

theorem Shared.drop_last (shared : Shared c T value offers ptr 1 w poolId p) :
    ∃ w' shelves, (DynPayload.pooled ptr).drop c w = .ok w' ∧
      w'.pools.Tracks c.build shelves ∧ shelves.map Shelf.offer = offers := by
  have counted := shared.recount 0
  obtain ⟨shelves, s, tracks, here, offer⟩ := counted.back
  obtain ⟨pools, s', there, _, ran, next⟩ := tracks.free counted.out
  rw [here] at there
  cases there
  refine ⟨{ w with pools := pools }, _, ?_, next, offer⟩
  rw [DynPayload.drop]
  dsimp only
  rw [shared.header, decrement_pack (by omega), ok_bind]
  dsimp only
  rw [if_neg (fun more => more rfl), Dis.get_new shared.small, ok_bind, ran]
  rfl

/-! ## Clones come and go -/

structure Sharing (c : Config N val) (sig : UInt16) (T : N) (value : val T)
    (offers : List (Nat × Nat)) (ptr : Nat) (s : Clones N val) : Prop where
  few : s.live.length ≤ 65535
  alike : ∀ e ∈ s.live, e.header.signal = ⟨sig.toNat⟩ ∧ e.payload = .pooled ptr
  block : s.live ≠ [] → ∃ poolId p, Shared c T value offers ptr s.live.length s.world poolId p
  returned : s.live = [] →
    ∃ shelves, s.world.pools.Tracks c.build shelves ∧ shelves.map Shelf.offer = offers

variable {sig : UInt16} {s t : Clones N val} {op : CloneOp}

theorem Sharing.faithful [DecidableEq N] {before : PoolRegistry}
    (sharing : Sharing c sig T value offers ptr s)
    (counts : ∀ poolId, before.getFree c.build poolId =
      .ok (offers[poolId - 1]?.map Prod.snd)) : s.Faithful c sig T value before := by
  constructor
  · intro e member
    obtain ⟨signal, payload⟩ := sharing.alike e member
    obtain ⟨poolId, p, shared⟩ := sharing.block (List.ne_nil_of_mem member)
    refine ⟨signal, ?_⟩
    rw [payload, DynPayload.asAny, shared.header, Option.bind_some]
    dsimp only
    rw [shared.holds]
    exact dif_pos rfl
  · intro gone poolId
    obtain ⟨shelves, tracks, same⟩ := sharing.returned gone
    rw [tracks.getFree, counts, ← same, List.getElem?_map, Option.map_map]
    rfl

def Room (s : Clones N val) : CloneOp → Prop
  | .clone i => i < s.live.length → s.live.length < 65535
  | .drop _ => True

theorem length_step (stepped : s.step c op = some t) :
    t.live.length = match op with
      | .clone _ => s.live.length + 1
      | .drop _ => s.live.length - 1 := by
  obtain ⟨outcome, performed, ok⟩ := Option.bind_eq_some_iff.mp stepped
  cases op with
  | clone i =>
      obtain ⟨e, _, rfl⟩ := Option.map_eq_some_iff.mp performed
      cases cloned : e.payload.clone c s.world with
      | error fault =>
          rw [cloned] at ok
          cases ok
      | ok w =>
          rw [cloned] at ok
          cases ok
          exact List.length_append
  | drop i =>
      obtain ⟨e, found, rfl⟩ := Option.map_eq_some_iff.mp performed
      cases dropped : e.payload.drop c s.world with
      | error fault =>
          rw [dropped] at ok
          cases ok
      | ok w =>
          rw [dropped] at ok
          cases ok
          exact List.length_eraseIdx_of_lt (List.getElem?_eq_some_iff.mp found).1

theorem Sharing.clone (sharing : Sharing c sig T value offers ptr s) {i : Nat}
    (room : s.live.length < 65535) {e : DynEvent} (found : s.live[i]? = some e) :
    ∃ w', e.payload.clone c s.world = .ok w' ∧
      Sharing c sig T value offers ptr ⟨w', s.live ++ [e]⟩ := by
  have member := List.mem_of_getElem? found
  obtain ⟨poolId, p, shared⟩ := sharing.block (List.ne_nil_of_mem member)
  obtain ⟨w', ran, next⟩ := shared.clone room
  obtain ⟨_, payload⟩ := sharing.alike e member
  rw [payload]
  have length : (s.live ++ [e]).length = s.live.length + 1 := List.length_append
  refine ⟨w', ran, ?_, ?_, ?_, ?_⟩
  · rw [length]
    exact room
  · intro e' member'
    rcases List.mem_append.mp member' with old | new
    · exact sharing.alike e' old
    · rw [List.mem_singleton.mp new]
      exact sharing.alike e member
  · intro _
    rw [length]
    exact ⟨poolId, p, next⟩
  · intro none_left
    exact absurd none_left (List.append_ne_nil_of_right_ne_nil _ (List.cons_ne_nil _ _))

theorem Sharing.drop (sharing : Sharing c sig T value offers ptr s) {i : Nat} {e : DynEvent}
    (found : s.live[i]? = some e) : ∃ w', e.payload.drop c s.world = .ok w' ∧
      Sharing c sig T value offers ptr ⟨w', s.live.eraseIdx i⟩ := by
  have member := List.mem_of_getElem? found
  have few := sharing.few
  obtain ⟨poolId, p, shared⟩ := sharing.block (List.ne_nil_of_mem member)
  have length : (s.live.eraseIdx i).length = s.live.length - 1 :=
    List.length_eraseIdx_of_lt (List.getElem?_eq_some_iff.mp found).1
  have positive := List.length_pos_of_mem member
  have alike (e' : DynEvent) (member' : e' ∈ s.live.eraseIdx i) :
      e'.header.signal = ⟨sig.toNat⟩ ∧ e'.payload = .pooled ptr :=
    sharing.alike e' (List.mem_of_mem_eraseIdx member')
  rw [(sharing.alike e member).2]
  by_cases last : s.live.length = 1
  · rw [last] at shared
    obtain ⟨w', shelves, ran, tracks, same⟩ := shared.drop_last
    have empty : s.live.eraseIdx i = [] := List.length_eq_zero_iff.mp (by omega)
    exact ⟨w', ran, by rw [length]; omega, alike, fun some_left => absurd empty some_left,
      fun _ => ⟨shelves, tracks, same⟩⟩
  · obtain ⟨n, count⟩ : ∃ n, s.live.length = n + 2 := ⟨s.live.length - 2, by omega⟩
    rw [count] at shared
    obtain ⟨w', ran, next⟩ := shared.drop (by omega)
    have left : (s.live.eraseIdx i).length = n + 1 := by omega
    refine ⟨w', ran, by rw [length]; omega, alike, ?_, ?_⟩
    · intro _
      rw [left]
      exact ⟨poolId, p, next⟩
    · intro empty
      have none_left : s.live.eraseIdx i = [] := empty
      rw [none_left] at left
      cases left

theorem Sharing.perform (sharing : Sharing c sig T value offers ptr s)
    {outcome : Except Fault (Clones N val)} (performed : s.perform c op = some outcome) :
    (Room s op ∧ ∃ s', outcome = .ok s' ∧ Sharing c sig T value offers ptr s') ∨
      ¬Room s op ∧ ∃ fault, outcome = .error fault := by
  cases op with
  | clone i =>
      obtain ⟨e, found, rfl⟩ := Option.map_eq_some_iff.mp performed
      have inside : i < s.live.length := (List.getElem?_eq_some_iff.mp found).1
      by_cases room : s.live.length < 65535
      · obtain ⟨w', ran, next⟩ := sharing.clone room found
        refine .inl ⟨fun _ => room, _, ?_, next⟩
        rw [ran]
        rfl
      · have member := List.mem_of_getElem? found
        have few := sharing.few
        obtain ⟨poolId, p, shared⟩ := sharing.block (List.ne_nil_of_mem member)
        refine .inr ⟨fun has_room => room (has_room inside), .onError, ?_⟩
        rw [(sharing.alike e member).2, shared.clone_full (by omega)]
        rfl
  | drop i =>
      obtain ⟨e, found, rfl⟩ := Option.map_eq_some_iff.mp performed
      obtain ⟨w', ran, next⟩ := sharing.drop found
      refine .inl ⟨trivial, _, ?_, next⟩
      rw [ran]
      rfl

theorem Sharing.step (sharing : Sharing c sig T value offers ptr s) (room : Room s op)
    (stepped : s.step c op = some t) : Sharing c sig T value offers ptr t := by
  obtain ⟨outcome, performed, ok⟩ := Option.bind_eq_some_iff.mp stepped
  rcases sharing.perform performed with ⟨_, s', rfl, next⟩ | ⟨full, _⟩
  · cases ok
    exact next
  · exact absurd room full

theorem Sharing.steps (sharing : Sharing c sig T value offers ptr s) (room : Room s op)
    {outcome : Except Fault (Clones N val)} (performed : s.perform c op = some outcome) :
    ∃ t, s.step c op = some t := by
  rcases sharing.perform performed with ⟨_, s', rfl, _⟩ | ⟨full, _⟩
  · refine ⟨s', ?_⟩
    rw [Clones.step, performed]
    rfl
  · exact absurd room full

theorem le_mostAlive (n : Nat) (ops : List CloneOp) : n ≤ mostAlive n ops := by
  cases ops with
  | nil => exact Nat.le_refl n
  | cons op rest =>
      cases op with
      | clone i =>
          rw [mostAlive]
          split
          · exact Nat.le_max_left _ _
          · exact Nat.le_refl n
      | drop i =>
          rw [mostAlive]
          split
          · exact Nat.le_max_left _ _
          · exact Nat.le_refl n

theorem Sharing.along_room (sharing : Sharing c sig T value offers ptr s) (ops : List CloneOp) :
    Along (Clones.step c) Room s ops ↔ mostAlive s.live.length ops ≤ 65535 := by
  induction ops generalizing s with
  | nil => exact iff_of_true trivial sharing.few
  | cons op rest ih =>
      have few := sharing.few
      have next (u : Clones N val) (room : Room s op) (stepped : s.step c op = some u) :
          Along (Clones.step c) Room s (op :: rest) ↔ mostAlive u.live.length rest ≤ 65535 := by
        rw [← ih (sharing.step room stepped)]
        exact ⟨fun along => along.2 u stepped, along_cons stepped room⟩
      have stops (room : Room s op) (nowhere : s.perform c op = none) :
          Along (Clones.step c) Room s (op :: rest) := by
        refine ⟨room, ?_⟩
        intro u stepped
        rw [Clones.step, nowhere] at stepped
        cases stepped
      cases op with
      | clone i =>
          by_cases inside : i < s.live.length
          · rw [mostAlive, if_pos inside]
            by_cases small : s.live.length < 65535
            · have room : Room s (.clone i) := fun _ => small
              obtain ⟨u, stepped⟩ := sharing.steps room
                (congrArg (Option.map _) (List.getElem?_eq_getElem inside))
              rw [next u room stepped, length_step stepped, Nat.max_le]
              exact (and_iff_right few).symm
            · have more := le_mostAlive (s.live.length + 1) rest
              have full : ¬Along (Clones.step c) Room s (.clone i :: rest) :=
                fun along => small (along.1 inside)
              exact iff_of_false full (by omega)
          · rw [mostAlive, if_neg inside]
            have beyond : s.live[i]? = none := List.getElem?_eq_none (Nat.le_of_not_lt inside)
            exact iff_of_true (stops (fun low => absurd low inside)
              (congrArg (Option.map _) beyond)) few
      | drop i =>
          by_cases inside : i < s.live.length
          · have room : Room s (.drop i) := trivial
            obtain ⟨u, stepped⟩ := sharing.steps room
              (congrArg (Option.map _) (List.getElem?_eq_getElem inside))
            rw [mostAlive, if_pos inside, next u room stepped, length_step stepped, Nat.max_le]
            exact (and_iff_right few).symm
          · rw [mostAlive, if_neg inside]
            have beyond : s.live[i]? = none := List.getElem?_eq_none (Nat.le_of_not_lt inside)
            exact iff_of_true (stops trivial (congrArg (Option.map _) beyond)) few

theorem performs_clone {i : Nat} (inside : i < s.live.length) :
    ∃ outcome, s.perform c (.clone i) = some outcome :=
  ⟨_, congrArg (Option.map _) (List.getElem?_eq_getElem inside)⟩

theorem Sharing.along_faithful [DecidableEq N] {before : PoolRegistry}
    (sharing : Sharing c sig T value offers ptr s)
    (counts : ∀ poolId, before.getFree c.build poolId =
      .ok (offers[poolId - 1]?.map Prod.snd)) (ops : List CloneOp) :
    Along (Clones.step c) (fun s op => ∀ outcome, s.perform c op = some outcome →
        ∃ s', outcome = .ok s' ∧ s'.Faithful c sig T value before) s ops ↔
      Along (Clones.step c) Room s ops := by
  refine along_congr ?_ (fun s op t => Sharing.step) sharing
  intro s op sharing
  constructor
  · intro good
    cases op with
    | drop i => trivial
    | clone i =>
        intro inside
        obtain ⟨outcome, performed⟩ := @performs_clone N val c s i inside
        obtain ⟨s', returned, _⟩ := good outcome performed
        rcases sharing.perform performed with ⟨room, _⟩ | ⟨_, fault, failed⟩
        · exact room inside
        · rw [returned] at failed
          cases failed
  · intro room outcome performed
    rcases sharing.perform performed with ⟨_, s', returned, next⟩ | ⟨full, _⟩
    · exact ⟨s', returned, next.faithful counts⟩
    · exact absurd room full

/-! ## The payload of an event from a pool -/

theorem fromValue_shared {shelves : List (Shelf (Region c.build) Nat)}
    (tracks : w.pools.Tracks c.build shelves) (few : shelves.length ≤ MAX_POOLS)
    (aligned : c.layout.blockAlign T ≤ c.build.align) (value : val T)
    (serves : ∃ s ∈ shelves, s.Serves (c.layout.blockSize T) 0) :
    ∃ ptr w', PoolArc.fromValue c w T value = .ok (.pooled ptr, w') ∧
      ∃ poolId p, Shared c T value (shelves.map Shelf.offer) ptr 1 w' poolId p := by
  obtain ⟨pools, ran, _⟩ := tracks.alloc (c.layout.blockSize T) 0
  cases found : (Shelves.take (c.layout.blockSize T) 0 shelves).1 with
  | none =>
      obtain ⟨s, member, fits⟩ := serves
      exact absurd fits (Shelves.take_none.mp found s member)
  | some out =>
      obtain ⟨i, raw⟩ := out
      rw [found] at ran
      obtain ⟨shelves', p, s, next, out, slot, fits, reach, same, here, offer⟩ :=
        tracks.alloc_some ran
      have behind := c.layout.behind T
      have inside := c.layout.inside T
      have small : i + 1 ≤ 255 := by
        have low := (List.getElem?_eq_some_iff.mp here).1
        change shelves.length ≤ 15 at few
        omega
      let w₁ : World N val := { w with pools := pools }
      let header : CtrlHeader N :=
        { refCount := DisAtomicU16.pack 1
          poolId := Dis.new 255 (i + 1)
          value := raw + c.layout.offset T
          type := T }
      let w₂ := w₁.store (c.layout.value T) (raw + c.layout.offset T) value
      have valued : w₂.pools.Tracks c.build shelves' :=
        tracks_store (w := w₁) next out slot _ _ (Nat.le_add_right _ _) (by omega)
      have headed : (w₂.store c.layout.header raw header).pools.Tracks c.build shelves' :=
        tracks_store (w := w₂) valued out slot _ _ (Nat.le_refl _) (by omega)
      refine ⟨raw, w₂.store c.layout.header raw header, ?_, i + 1, p, ?_⟩
      · rw [PoolArc.fromValue, PoolArc.tryFromValue, if_neg (Nat.not_lt.mpr aligned), ran]
        rfl
      · exact
          { out := out
            slot := slot
            fits := fits
            small := small
            reach := reach
            header := Stored.read_write _ (header_fits _ small (by omega))
            holds := (value_kept T header).trans (Stored.read_write _ trivial)
            back := ⟨shelves', s, headed, here, offer⟩ }

theorem fromValue_fails {shelves : List (Shelf (Region c.build) Nat)}
    (tracks : w.pools.Tracks c.build shelves) (value : val T)
    (refused : ¬(c.layout.blockAlign T ≤ c.build.align ∧
      ∃ s ∈ shelves, s.Serves (c.layout.blockSize T) 0)) :
    PoolArc.fromValue c w T value = .error .onError := by
  rw [PoolArc.fromValue, PoolArc.tryFromValue]
  by_cases aligned : c.layout.blockAlign T ≤ c.build.align
  · obtain ⟨pools, ran, _⟩ := tracks.alloc (c.layout.blockSize T) 0
    have nothing : (Shelves.take (c.layout.blockSize T) 0 shelves).1 = none := by
      apply Shelves.take_none.mpr
      intro s member serves
      exact refused ⟨aligned, s, member, serves⟩
    rw [nothing] at ran
    rw [if_neg (Nat.not_lt.mpr aligned), ran]
    rfl
  · rw [if_pos (Nat.lt_of_not_le aligned)]
    rfl

theorem qNew_some {shelves : List (Shelf (Region c.build) Nat)} {w' : World N val}
    {box : EventBox} (tracks : w.pools.Tracks c.build shelves)
    (few : shelves.length ≤ MAX_POOLS) (made : qNew c w sig T value = .ok (some box, w')) :
    (∃ header, header.signal = ⟨sig.toNat⟩ ∧
      w'.read (c.layout.event T) box.ptr = ⟨header, value⟩) ∧
      ∃ pools shelves', w'.pools.free c.build box.poolId box.ptr = .ok pools ∧
        pools.Tracks c.build shelves' ∧ shelves'.length = shelves.length ∧
        shelves'.map Shelf.offer = shelves.map Shelf.offer := by
  rw [qNew, qNewX] at made
  obtain ⟨⟨answer, pools⟩, ran, made⟩ := bind_ok made
  cases answer with
  | none => cases made
  | some out =>
      obtain ⟨poolId, raw⟩ := out
      cases made
      obtain ⟨shelves', p, s, next, out, slot, fits, reach, same, here, offer⟩ :=
        tracks.alloc_some ran
      have small : poolId < 256 := by
        have low := (List.getElem?_eq_some_iff.mp here).1
        change shelves.length ≤ 15 at few
        omega
      let event : Event (val T) :=
        ⟨{ EventHeader.new ⟨sig.toNat⟩ with poolId := some poolId }, value⟩
      have has : event.Fits := by
        refine ⟨sig.toNat_lt, ?_, (by decide : 1 < 256)⟩
        intro id same
        cases same
        exact small
      refine ⟨⟨_, rfl, Stored.read_write _ has⟩, ?_⟩
      let w₁ : World N val := { w with pools := pools }
      have stored : (w₁.store (c.layout.event T) raw event).pools.Tracks c.build shelves' :=
        tracks_store (w := w₁) next out slot _ _ (Nat.le_refl _) (by omega)
      obtain ⟨pools', s', there, _, freed, after⟩ := stored.free out
      rw [here] at there
      cases there
      exact ⟨pools', _, freed, after, List.length_set.trans same, offer⟩

/-- On the build with a heap the payload is a `PoolPayload<T>`, never a `T`. -/
theorem not_keepsPayload_dynamic [DecidableEq N] {before : PoolRegistry} {box : EventBox}
    {ops : List CloneOp} (dynamic : c.staticAlloc = false) :
    ¬KeepsPayload c w sig T value before box ops := by
  rintro ⟨e, w', converted, ⟨alive, _⟩, _⟩
  rw [EventBox.intoDyn, dynamic] at converted
  cases converted
  have given := (alive _ List.mem_cons_self).2
  rw [DynPayload.asAny, List.getElem?_concat_length] at given
  cases given

theorem intoDyn_static {box : EventBox} {header : EventHeader} {freed : RegistryWorld}
    (static : c.staticAlloc = true) (event : w.read (c.layout.event T) box.ptr = ⟨header, value⟩)
    (free : w.pools.free c.build box.poolId box.ptr = .ok freed) :
    box.intoDyn c w T = (PoolArc.fromValue c { w with pools := freed } T value).map fun made =>
      (⟨header, made.1⟩, made.2) := by
  rw [EventBox.intoDyn, static]
  dsimp only
  rw [event, if_pos rfl, free, ok_bind]
  cases PoolArc.fromValue c { w with pools := freed } T value <;> rfl

/-- On the build without a heap the payload is kept as far as blocks and counter reach. -/
theorem keepsPayload_static [DecidableEq N] {before : PoolRegistry} {box : EventBox}
    {header : EventHeader} {freed : RegistryWorld} {shelves : List (Shelf (Region c.build) Nat)}
    (static : c.staticAlloc = true) (few : shelves.length ≤ MAX_POOLS)
    (signal : header.signal = ⟨sig.toNat⟩)
    (event : w.read (c.layout.event T) box.ptr = ⟨header, value⟩)
    (free : w.pools.free c.build box.poolId box.ptr = .ok freed)
    (after : freed.Tracks c.build shelves)
    (counts : ∀ poolId, before.getFree c.build poolId =
      .ok ((shelves.map Shelf.offer)[poolId - 1]?.map Prod.snd)) (ops : List CloneOp) :
    KeepsPayload c w sig T value before box ops ↔
      c.layout.blockAlign T ≤ c.build.align ∧
        (∃ s ∈ shelves, s.Serves (c.layout.blockSize T) 0) ∧ mostAlive 1 ops ≤ 65535 := by
  have converts := intoDyn_static static event free
  let emptied : World N val := { w with pools := freed }
  by_cases fits : c.layout.blockAlign T ≤ c.build.align ∧
      ∃ s ∈ shelves, s.Serves (c.layout.blockSize T) 0
  · obtain ⟨ptr, w', boxed, poolId, p, shared⟩ :=
      fromValue_shared (w := emptied) after few fits.1 value fits.2
    have converted : box.intoDyn c w T = .ok (⟨header, .pooled ptr⟩, w') := by
      rw [converts, boxed]
      rfl
    have sharing : Sharing c sig T value (shelves.map Shelf.offer) ptr
        ⟨w', [⟨header, .pooled ptr⟩]⟩ := by
      refine ⟨Nat.succ_le_succ (Nat.zero_le _), ?_, fun _ => ⟨poolId, p, shared⟩,
        fun gone => nomatch gone⟩
      intro e member
      rw [List.mem_singleton.mp member]
      exact ⟨signal, rfl⟩
    have enough := (sharing.along_faithful counts ops).trans (sharing.along_room ops)
    rw [List.length_singleton] at enough
    rw [and_iff_right fits.1, and_iff_right fits.2, ← enough]
    constructor
    · intro keeps
      obtain ⟨e, w'', same, _, along⟩ := keeps
      rw [converted] at same
      cases same
      exact along
    · intro along
      exact ⟨_, w', converted, sharing.faithful counts, along⟩
  · have failed : PoolArc.fromValue c emptied T value = .error .onError :=
      fromValue_fails after value fits
    refine iff_of_false ?_ (fun conditions => fits ⟨conditions.1, conditions.2.1⟩)
    intro keeps
    obtain ⟨e, w', converted, _⟩ := keeps
    rw [converts, failed] at converted
    cases converted

/-- The payload of an event from a pool is kept exactly on the build without a heap, if the block
with the counter is aligned and fits a pool and the counter can hold the clones. -/
theorem keepsPayload_iff [DecidableEq N] (c : Config N val) (pools : List (Region c.build × Nat))
    (reg : PoolRegistry) (mem linked : Memory)
    (registered : PoolRegistry.register c.build pools .new mem = .ok (reg, linked))
    (apart : (pools.map Prod.fst).Pairwise fun r r' => Apart r.raw r.len r'.raw r'.len)
    (past : List RegistryOp) (before : RegistryWorld)
    (ran : run (RegistryWorld.step c.build) (.start reg linked) past = some before)
    (arcs : List (ArcInner N val)) (sig : UInt16) (T : N) (value : val T) (box : EventBox)
    (w : World N val) (made : qNew c ⟨before, arcs⟩ sig T value = .ok (some box, w))
    (ops : List CloneOp) :
    KeepsPayload c w sig T value before.registry box ops ↔
      c.staticAlloc = true ∧ c.layout.blockAlign T ≤ c.build.align ∧
        (∃ p ∈ before.registry.slots, p.Serves c.build (c.layout.blockSize T) 0) ∧
        mostAlive 1 ops ≤ 65535 := by
  obtain ⟨shelves₀, begun⟩ := RegistryWorld.start_tracks registered apart
  obtain ⟨shelves, tracks, layouts⟩ := RegistryWorld.run_tracks begun ran
  have few : shelves.length ≤ MAX_POOLS := by
    have slots := register_few (Nat.zero_le _) registered
    have kept := congrArg List.length layouts
    rw [List.length_map, List.length_map] at kept
    rw [kept, ← begun.keeps.length_eq]
    exact slots
  obtain ⟨⟨header, signal, event⟩, freed, shelves', free, after, length, offers⟩ :=
    qNew_some (w := ⟨before, arcs⟩) tracks few made
  rw [tracks.serves_iff]
  have serves : (∃ s ∈ shelves', s.Serves (c.layout.blockSize T) 0) ↔
      ∃ s ∈ shelves, s.Serves (c.layout.blockSize T) 0 := Shelves.serves_congr offers
  have counts (poolId : Nat) : before.registry.getFree c.build poolId =
      .ok ((shelves.map Shelf.offer)[poolId - 1]?.map Prod.snd) := by
    rw [tracks.getFree, List.getElem?_map, Option.map_map]
    rfl
  cases static : c.staticAlloc with
  | false =>
      exact iff_of_false (not_keepsPayload_dynamic static)
        (fun conditions => Bool.false_ne_true conditions.1)
  | true =>
      rw [and_iff_right rfl, ← serves]
      exact keepsPayload_static static (length.trans_le few) signal event free after
        (offers ▸ counts) ops

/-! A target of 64 bits whose application has one type, of bytes. -/

def eventOfByte : Stored (Event.Fits (P := UInt8)) where
  size := 6
  bytes e :=
    (if e.header.poolId.isSome then 1 else 0) :: UInt8.ofNat (e.header.poolId.getD 0) ::
      UInt8.ofNat e.header.refCount :: e.payload :: toLeBytes 2 e.header.signal.val
  value
    | tag :: id :: refCount :: payload :: signal =>
      ⟨⟨⟨fromLeBytes signal⟩, if tag = 1 then some id.toNat else none, refCount.toNat⟩, payload⟩
    | _ => ⟨.new qEmptySig, 0⟩
  length_bytes e := by simp [length_toLeBytes]
  value_bytes := by
    rintro ⟨⟨⟨signal⟩, poolId, refCount⟩, payload⟩ ⟨small, known, few⟩
    have signal_back := @fromLeBytes_toLeBytes 2 signal small
    have count_back : (UInt8.ofNat refCount).toNat = refCount := by
      rw [UInt8.toNat_ofNat', Nat.mod_eq_of_lt few]
    cases poolId with
    | none => simp [signal_back, count_back]
    | some id =>
        have id_back : (UInt8.ofNat id).toNat = id := by
          rw [UInt8.toNat_ofNat', Nat.mod_eq_of_lt (known id rfl)]
        simp [signal_back, count_back, id_back]

def headerOfByte : Stored (CtrlHeader.Fits (N := Unit) RegistryWorld.target64) where
  size := 14
  bytes h :=
    UInt8.ofNat h.poolId.value :: UInt8.ofNat h.poolId.inverse ::
      (toLeBytes 4 h.refCount.toNat ++ toLeBytes 8 h.value)
  value
    | value :: inverse :: words =>
      { refCount := UInt32.ofNat (fromLeBytes (words.take 4))
        poolId := ⟨value.toNat, inverse.toNat⟩
        value := fromLeBytes (words.drop 4)
        type := () }
    | [] => ⟨0, ⟨0, 0⟩, 0, ()⟩
    | [_] => ⟨0, ⟨0, 0⟩, 0, ()⟩
  length_bytes h := by simp [length_toLeBytes]
  value_bytes := by
    rintro ⟨refCount, ⟨id, inverse⟩, value, type⟩ ⟨small, opposite, reach⟩
    have count_back := @fromLeBytes_toLeBytes 4 refCount.toNat refCount.toNat_lt
    have value_back : fromLeBytes (toLeBytes 8 value) = value :=
      fromLeBytes_toLeBytes (Nat.lt_succ_of_le reach)
    have id_back : (UInt8.ofNat id).toNat = id := by
      rw [UInt8.toNat_ofNat', Nat.mod_eq_of_lt small]
    have inverse_back : (UInt8.ofNat inverse).toNat = inverse := by
      rw [UInt8.toNat_ofNat', Nat.mod_eq_of_lt opposite]
    have first : (toLeBytes 4 refCount.toNat ++ toLeBytes 8 value).take 4 =
        toLeBytes 4 refCount.toNat := List.take_left' (length_toLeBytes _ _)
    have later : (toLeBytes 4 refCount.toNat ++ toLeBytes 8 value).drop 4 = toLeBytes 8 value :=
      List.drop_left' (length_toLeBytes _ _)
    simp [first, later, count_back, value_back, id_back, inverse_back]

def byte : Stored fun _ : UInt8 => True where
  size := 1
  bytes x := [x]
  value bytes := bytes.headD 0
  length_bytes _ := rfl
  value_bytes _ _ := rfl

def byteConfig (staticAlloc : Bool) : Config Unit fun _ => UInt8 where
  build := RegistryWorld.target64
  staticAlloc := staticAlloc
  layout :=
    { event := fun _ => eventOfByte
      header := headerOfByte
      value := fun _ => byte
      offset := fun _ => 14
      blockSize := fun _ => 24
      blockAlign := fun _ => 8
      behind := fun _ => Nat.le_refl _
      inside := fun _ => (by decide : 15 ≤ 24) }

theorem boxed_byte (staticAlloc : Bool) : ∃ reg linked before box w,
    PoolRegistry.register (byteConfig staticAlloc).build RegistryWorld.two .new (fun _ => 170) =
        .ok (reg, linked) ∧
      run (RegistryWorld.step (byteConfig staticAlloc).build) (.start reg linked) [.alloc 20 0] =
        some before ∧
      qNew (byteConfig staticAlloc) ⟨before, []⟩ 5 () 7 = .ok (some box, w) ∧
      ∃ p ∈ before.registry.slots, p.Serves (byteConfig staticAlloc).build 24 0 := by
  have runs : ((PoolRegistry.register (byteConfig staticAlloc).build RegistryWorld.two .new
      (fun _ => 170)).toOption.bind fun made =>
        (run (RegistryWorld.step (byteConfig staticAlloc).build) (.start made.1 made.2)
          [.alloc 20 0]).bind fun before =>
            if before.registry.slots.any fun p => 24 ≤ p.blockSize ∧
                (p.getFree (byteConfig staticAlloc).build).toOption = some 2 then
              (qNew (byteConfig staticAlloc) ⟨before, []⟩ 5 () 7).toOption.bind Prod.fst
            else none).isSome := by
    cases staticAlloc with
    | false => decide +kernel
    | true => decide +kernel
  obtain ⟨box, ran⟩ := Option.isSome_iff_exists.mp runs
  obtain ⟨⟨reg, linked⟩, made, ran⟩ := Option.bind_eq_some_iff.mp ran
  obtain ⟨before, reached, ran⟩ := Option.bind_eq_some_iff.mp ran
  split at ran
  · rename_i large
    obtain ⟨⟨answer, w⟩, boxed, some_box⟩ := Option.bind_eq_some_iff.mp ran
    cases some_box
    obtain ⟨p, member, holds⟩ := List.any_eq_true.mp large
    obtain ⟨fits, free⟩ := of_decide_eq_true holds
    exact ⟨reg, linked, before, box, w, ok_of_toOption made, reached, ok_of_toOption boxed, p,
      member, fits, 2, ok_of_toOption free, by decide⟩
  · cases ran

theorem byte_lost : ∃ reg linked before box w,
    PoolRegistry.register (byteConfig false).build RegistryWorld.two .new (fun _ => 170) =
        .ok (reg, linked) ∧
      run (RegistryWorld.step (byteConfig false).build) (.start reg linked) [.alloc 20 0] =
        some before ∧
      qNew (byteConfig false) ⟨before, []⟩ 5 () 7 = .ok (some box, w) ∧
      ¬KeepsPayload (byteConfig false) w 5 () 7 before.registry box [] := by
  obtain ⟨reg, linked, before, box, w, registered, reached, boxed, _⟩ := boxed_byte false
  exact ⟨reg, linked, before, box, w, registered, reached, boxed, not_keepsPayload_dynamic rfl⟩

theorem byte_kept : ∃ reg linked before box w,
    PoolRegistry.register (byteConfig true).build RegistryWorld.two .new (fun _ => 170) =
        .ok (reg, linked) ∧
      run (RegistryWorld.step (byteConfig true).build) (.start reg linked) [.alloc 20 0] =
        some before ∧
      qNew (byteConfig true) ⟨before, []⟩ 5 () 7 = .ok (some box, w) ∧
      KeepsPayload (byteConfig true) w 5 () 7 before.registry box
        [.clone 0, .drop 0, .clone 0, .clone 1, .drop 2, .drop 0, .drop 0] := by
  obtain ⟨reg, linked, before, box, w, registered, reached, boxed, serves⟩ := boxed_byte true
  refine ⟨reg, linked, before, box, w, registered, reached, boxed, ?_⟩
  apply (keepsPayload_iff (byteConfig true) RegistryWorld.two reg _ linked registered
    (List.pairwise_pair.mpr (.inl (by decide))) _ before reached [] 5 () 7 box w boxed _).mpr
  exact ⟨rfl, Nat.le_refl 8, serves, by decide⟩

end QpRs.Pool.Events
