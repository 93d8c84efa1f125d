import Rawmd.Lib.Since
import Rawmd.Net.Channel

/-!
# `net/Channel.h`: what a history of operations asks for

`Channel.after ops` is the channel after the operations `ops` in this order, from a new one.  Its
`events_` are two switches, `mask`: reading and writing.  By the names of the operations,
`disableWriting` would switch writing off and leave reading alone; the code keeps writing and
switches reading off, so a history has the interest it asked for exactly if the last
`disableWriting` is made up for (`after_interest_iff`).
-/

namespace Rawmd

namespace Channel

/-- One operation, less the poller's part of `update()`. -/
def apply (c : Channel) (op : Op) : Channel := { c with events := op.events c.events }

def after (c : Channel) (ops : List Op) : Channel := ops.foldl apply c

def isWriting (c : Channel) : Bool := has c.events kWriteEvent

/-- The interest that a history asks for. -/
structure Interest (events : BitVec 32) (ops : List Op) : Prop where
  reading : events &&& kReadEvent = kReadEvent ↔ Since .enableReading [.disableAll] ops
  not_reading : ¬ Since .enableReading [.disableAll] ops → events &&& kReadEvent = 0
  writing : events &&& kWriteEvent = kWriteEvent ↔
    Since .enableWriting [.disableWriting, .disableAll] ops
  no_other : events &&& ~~~(kReadEvent ||| kWriteEvent) = 0

/-- `op` is on before the last `disableWriting` of the history only if it is switched on again
after it, unless a `disableAll` follows. -/
def MadeUpFor (op : Op) (ops : List Op) : Prop :=
  ∀ us vs, ops = us ++ .disableWriting :: vs → .disableAll ∉ vs → .disableWriting ∉ vs →
    Since op [.disableAll] us → op ∈ vs

/-! ## Two switches -/

def mask (reading writing : Bool) : BitVec 32 :=
  (if reading then kReadEvent else 0) ||| (if writing then kWriteEvent else 0)

theorem Op.events_mask (op : Op) (reading writing : Bool) :
    op.events (mask reading writing) = mask
      (op == .enableReading || (op != .disableWriting && op != .disableAll && reading))
      (op == .enableWriting || (op != .disableAll && writing)) := by
  cases op <;> cases reading <;> cases writing <;> rfl

theorem mask_reading (reading writing : Bool) :
    mask reading writing &&& kReadEvent = if reading then kReadEvent else 0 := by
  cases reading <;> cases writing <;> rfl

theorem mask_writing (reading writing : Bool) :
    mask reading writing &&& kWriteEvent = if writing then kWriteEvent else 0 := by
  cases reading <;> cases writing <;> rfl

theorem mask_no_other (reading writing : Bool) :
    mask reading writing &&& ~~~(kReadEvent ||| kWriteEvent) = 0 := by
  cases reading <;> cases writing <;> rfl

theorem after_concat (c : Channel) (ops : List Op) (op : Op) :
    c.after (ops ++ [op]) = (c.after ops).apply op := by
  simp [after]

/-- What the code's switches are after a history. -/
theorem after_events (fd : Int) (ops : List Op) :
    ∃ reading writing, ((make fd).after ops).events = mask reading writing ∧
      (reading = true ↔ Since .enableReading [.disableWriting, .disableAll] ops) ∧
      (writing = true ↔ Since .enableWriting [.disableAll] ops) := by
  induction ops using List.reverseRecOn with
  | nil => exact ⟨false, false, rfl, by simp [not_since_nil], by simp [not_since_nil]⟩
  | append_singleton ops op ih =>
    obtain ⟨reading, writing, he, hr, hw⟩ := ih
    refine ⟨op == .enableReading || (op != .disableWriting && op != .disableAll && reading),
      op == .enableWriting || (op != .disableAll && writing), ?_, ?_, ?_⟩
    · rw [after_concat, apply, he]
      exact Op.events_mask op reading writing
    · rw [since_concat, ← hr]
      simp
    · rw [since_concat, ← hw]
      simp

theorem interest_mask_iff (reading writing : Bool) (ops : List Op) :
    Interest (mask reading writing) ops ↔
      (reading = true ↔ Since .enableReading [.disableAll] ops) ∧
      (writing = true ↔ Since .enableWriting [.disableWriting, .disableAll] ops) := by
  have hread : (mask reading writing &&& kReadEvent = kReadEvent) ↔ reading = true := by
    rw [mask_reading]
    cases reading <;> decide
  have hwrite : (mask reading writing &&& kWriteEvent = kWriteEvent) ↔ writing = true := by
    rw [mask_writing]
    cases writing <;> decide
  constructor
  · intro h
    exact ⟨hread.symm.trans h.reading, hwrite.symm.trans h.writing⟩
  · rintro ⟨hr, hw⟩
    refine ⟨hread.trans hr, ?_, hwrite.trans hw, mask_no_other reading writing⟩
    intro hoff
    rw [mask_reading, if_neg (fun h => hoff (hr.1 h))]

theorem since_narrow_iff_madeUpFor {op : Op} (h : op ≠ .disableWriting) (ops : List Op) :
    (Since op [.disableWriting, .disableAll] ops ↔ Since op [.disableAll] ops) ↔
      MadeUpFor op ops := by
  have hnarrow : (Since op [.disableAll] ops → Since op [.disableWriting, .disableAll] ops) ↔ _ :=
    since_narrow_iff (by decide) h
  constructor
  · intro hiff us vs hops hall hlast
    refine hnarrow.1 hiff.2 us vs hops ?_ hlast
    intro o ho hstop
    exact hall (List.mem_singleton.1 hstop ▸ ho)
  · intro hmade
    refine ⟨fun hs => hs.mono (by simp), hnarrow.2 ?_⟩
    intro us vs hops hstops hlast
    refine hmade us vs hops ?_ hlast
    intro hall
    exact hstops _ hall (List.mem_singleton_self _)

/-- A history leaves the interest that its operations ask for exactly if what was on before the
last `disableWriting` is switched on again after it. -/
theorem after_interest_iff (fd : Int) (ops : List Op) :
    (Interest ((make fd).after ops).events ops ∧
      (((make fd).after ops).isWriting = true ↔
        Since .enableWriting [.disableWriting, .disableAll] ops)) ↔
      MadeUpFor .enableReading ops ∧ MadeUpFor .enableWriting ops := by
  obtain ⟨reading, writing, he, hr, hw⟩ := after_events fd ops
  have hwriting : ((make fd).after ops).isWriting = writing := by
    rw [isWriting, has, he, mask_writing]
    cases writing <;> rfl
  rw [hwriting, he, interest_mask_iff, and_assoc, and_self_iff, hr, hw,
    since_narrow_iff_madeUpFor (by decide),
    Iff.comm (a := Since .enableWriting [.disableAll] ops),
    since_narrow_iff_madeUpFor (by decide)]

/-- A connection that asks to write and no longer has to: it still asks to write and no longer to
read. -/
theorem after_disableWriting :
    ¬ Interest ((make 5).after [.enableReading, .enableWriting, .disableWriting]).events
      [.enableReading, .enableWriting, .disableWriting] := by
  intro h
  have hread : Since Op.enableReading [.disableAll]
      [.enableReading, .enableWriting, .disableWriting] := ⟨[], _, rfl, by decide⟩
  exact absurd (h.reading.2 hread) (by decide)

end Channel

end Rawmd
