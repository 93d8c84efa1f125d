import Mathlib.Logic.Function.Basic
import Mathlib.Tactic.IntervalCases
import Std.Data.TreeMap

/-!
# `net/Channel.h`: the interest of a channel

The fields of a `Channel` that the pollers read and write.  Each operation that changes
`events_` ends in `update()`, which calls the poller's `updateChannel`; the pollers' models
take the two together.  `handleEventWithGuard` is the callbacks that are called for what the
poller reports.
-/

namespace Rawmd

/-! ## `poll.h` -/

def POLLIN : BitVec 32 := 0x001#32
def POLLPRI : BitVec 32 := 0x002#32
def POLLOUT : BitVec 32 := 0x004#32
def POLLERR : BitVec 32 := 0x008#32
def POLLHUP : BitVec 32 := 0x010#32
def POLLNVAL : BitVec 32 := 0x020#32
def POLLRDHUP : BitVec 32 := 0x2000#32

structure Channel where
  fd : Int
  events : BitVec 32
  revents : BitVec 32
  /-- used by the pollers -/
  index : Int

namespace Channel

def kNoneEvent : BitVec 32 := 0#32
def kReadEvent : BitVec 32 := POLLIN ||| POLLPRI
def kWriteEvent : BitVec 32 := POLLOUT

/-- The constructor. -/
def make (fd : Int) : Channel := ⟨fd, 0#32, 0#32, -1⟩

variable (c : Channel)

def isNoneEvent : Bool := c.events == kNoneEvent

/-- The operations that end in `update()`. -/
inductive Op where
  | enableReading
  | enableWriting
  | disableWriting
  | disableAll
deriving DecidableEq

/-- The `events_` that an operation leaves; `disableWriting` is `events_ &= kWriteEvent`. -/
def Op.events (op : Op) (events : BitVec 32) : BitVec 32 :=
  match op with
  | .enableReading => events ||| kReadEvent
  | .enableWriting => events ||| kWriteEvent
  | .disableWriting => events &&& kWriteEvent
  | .disableAll => kNoneEvent

/-- What users do with the channels `κ`. -/
inductive Call (κ : Type) where
  | update (c : κ) (op : Op)
  | remove (c : κ)

inductive Callback where
  | close
  | error
  | read
  | write
deriving DecidableEq

/-- `if (revents_ & bits)` -/
def has (revents bits : BitVec 32) : Bool := revents &&& bits != 0

/-- The callbacks that are called, in order (where they are set). -/
def handleEventWithGuard (revents : BitVec 32) : List Callback :=
  (if has revents POLLHUP && !has revents POLLIN then [.close] else []) ++
    (if has revents (POLLERR ||| POLLNVAL) then [.error] else []) ++
    (if has revents (POLLIN ||| POLLPRI ||| POLLRDHUP) then [.read] else []) ++
    (if has revents POLLOUT then [.write] else [])

theorem has_or (revents a b : BitVec 32) :
    has revents (a ||| b) = (has revents a || has revents b) := by
  unfold has
  rw [BitVec.and_or_distrib_left, Bool.eq_iff_iff, Bool.or_eq_true, bne_iff_ne, bne_iff_ne,
    bne_iff_ne, ← not_and_or, not_iff_not]
  exact BitVec.or_eq_zero_iff

/-- Nothing outside the mask is reported. -/
theorem has_eq_false_of_mask {revents mask bits : BitVec 32} (h : revents &&& ~~~mask = 0)
    (hb : mask &&& bits = 0) : has revents bits = false := by
  have hsub : bits = ~~~mask &&& bits := by
    ext i hi
    have hbit := congrArg (fun x => x[i]) hb
    simp only [BitVec.getElem_and, BitVec.getElem_not] at hbit ⊢
    cases hm : mask[i]
    · simp
    · simpa [hm] using hbit
  unfold has
  rw [hsub, ← BitVec.and_assoc, h]
  simp

theorem isNoneEvent_iff : c.isNoneEvent = true ↔ c.events = 0#32 := by
  simp [isNoneEvent, kNoneEvent]

/-- No operation asks for more than the low three bits. -/
theorem Op.events_lt (op : Op) {events : BitVec 32} (h : events.toNat < 2 ^ 3) :
    (op.events events).toNat < 2 ^ 3 := by
  cases op with
  | enableReading =>
    rw [Op.events, BitVec.toNat_or]
    exact Nat.or_lt_two_pow h (by decide)
  | enableWriting =>
    rw [Op.events, BitVec.toNat_or]
    exact Nat.or_lt_two_pow h (by decide)
  | disableWriting =>
    rw [Op.events, BitVec.toNat_and]
    exact Nat.and_lt_two_pow _ (by decide)
  | disableAll => exact (by decide : kNoneEvent.toNat < 2 ^ 3)

/-- Such events survive the conversions to `short` and back. -/
theorem signExtend_setWidth {events : BitVec 32} (h : events.toNat < 2 ^ 3) :
    (events.setWidth 16).signExtend 32 = events := by
  obtain ⟨n, hn⟩ : ∃ n, events.toNat = n := ⟨_, rfl⟩
  rw [hn] at h
  obtain rfl : events = BitVec.ofNat 32 n := BitVec.eq_of_toNat_eq (by simp; omega)
  interval_cases n <;> rfl

end Channel

/-- A channel in the map of a poller is found by `find`. -/
theorem contains_of_some {κ : Type} {channels : Std.TreeMap Int κ} {fd : Int} {c : κ}
    (h : channels[fd]? = some c) : channels.contains fd = true := by
  rw [Std.TreeMap.contains_eq_isSome_getElem?, h]
  rfl

/-- The descriptors of the channels in use: non-negative, and no two channels share one. -/
structure Fds (κ : Type) where
  fd : κ → Int
  nonneg : ∀ c, 0 ≤ fd c
  inj : Function.Injective fd

/-- Channel `c` has descriptor `c`. -/
def Fds.plain : Fds Nat := ⟨fun c => c, fun c => by omega, fun c d h => by simpa using h⟩

end Rawmd
