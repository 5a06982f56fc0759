import Mathlib.Order.Nat

/-!
# Idle times that are polled on a grid

Something has to happen now and then, and a timer with a fixed period looks after it: at each of
its ticks it makes it happen, if it has not happened for a whole period. The ticks lie on a grid
that starts with the timer. What has happened right after a tick is not yet a period old at the
next one, so almost two periods may go by. One and a half are kept as long as no tick passes over an
event that is more than half a period old; after such a tick they are kept only if more happens
before the next one.

## Main definitions

* `IdleTimer` — the clock, the ticks and the latest event.
* `IdleTimer.Sound` — what always holds.
* `IdleTimer.Kept` — one and a half periods will not be over before the next tick.
* `IdleTimer.PassedOver` — a tick would pass over the latest event, which is old.

## Main results

* `Sound.wait`, `Sound.touch`, `Sound.tick`, `sound_restart` — the steps.
* `Sound.idle_lt` — two periods never go by.
* `Sound.idle_le`, `lt_idle_of_not_kept` — one and a half periods are kept up to the next tick, or
  not.
-/

/-- A timer, and what it looks after. -/
structure IdleTimer where
  /-- When the timer was started. -/
  start : ℕ
  /-- How often it has ticked. -/
  fired : ℕ
  /-- When the latest event happened. -/
  last : ℕ
  clock : ℕ
  deriving DecidableEq

namespace IdleTimer

/-- When it ticks next. -/
def next (self : IdleTimer) (period : ℕ) : ℕ := self.start + self.fired * period

/-- For how long nothing has happened. -/
def idle (self : IdleTimer) : ℕ := self.clock - self.last

/-- The latest event is more than half a period old, but not a whole one. -/
def PassedOver (self : IdleTimer) (period : ℕ) : Prop :=
  period < 2 * self.idle ∧ self.idle < period

instance (self : IdleTimer) (period : ℕ) : Decidable (self.PassedOver period) :=
  inferInstanceAs (Decidable (_ ∧ _))

/-- At the next tick the latest event will be at most one and a half periods old. -/
def Kept (self : IdleTimer) (period : ℕ) : Prop :=
  2 * self.next period ≤ 2 * self.last + 3 * period

/-- No tick has been missed, and at each the latest event was young enough. -/
structure Sound (t : IdleTimer) (period : ℕ) : Prop where
  pos : 0 < period
  last_le : t.last ≤ t.clock
  clock_le : t.clock ≤ t.next period
  next_lt : t.next period < t.last + 2 * period

variable {t : IdleTimer} {period : ℕ}

/-! ## Steps -/

/-- Time passes, but not beyond the next tick. -/
theorem Sound.wait (h : t.Sound period) {d : ℕ} (hd : t.clock + d ≤ t.next period) :
    ({ t with clock := t.clock + d } : IdleTimer).Sound period :=
  ⟨h.pos, h.last_le.trans (Nat.le_add_right _ _), hd, h.next_lt⟩

/-- Something happens. -/
theorem Sound.touch (h : t.Sound period) :
    ({ t with last := t.clock } : IdleTimer).Sound period := by
  have hlast := h.last_le
  have hnext : t.next period < t.clock + 2 * period := by
    have := h.next_lt
    omega
  exact ⟨h.pos, le_rfl, h.clock_le, hnext⟩

@[simp] theorem next_tick : ({ t with fired := t.fired + 1 } : IdleTimer).next period =
    t.next period + period := by
  simp only [next, Nat.add_mul]
  omega

/-- A tick at which the latest event is young enough. -/
theorem Sound.tick (h : t.Sound period) (hclock : t.clock = t.next period)
    (hyoung : t.clock < t.last + period) :
    ({ t with fired := t.fired + 1 } : IdleTimer).Sound period := by
  refine ⟨h.pos, h.last_le, ?_, ?_⟩
  · rw [next_tick]
    exact hclock.le.trans (Nat.le_add_right _ _)
  · rw [next_tick]
    dsimp only
    omega

/-- The timer is started when something happens. -/
theorem sound_restart (hpos : 0 < period) (hlast : t.last = t.clock) :
    ({ t with start := t.clock, fired := 0 } : IdleTimer).Sound period :=
  ⟨hpos, by simp [hlast], by simp [next], by simp [next, hlast, hpos]⟩

/-- **Two periods never go by.** -/
theorem Sound.idle_lt (h : t.Sound period) : t.idle < 2 * period := by
  have hclock := h.clock_le
  have hnext := h.next_lt
  have hpos := h.pos
  rw [idle]
  omega

/-! ## One and a half periods -/

theorem Kept.touch (h : t.Kept period) (hlast : t.last ≤ t.clock) :
    ({ t with last := t.clock } : IdleTimer).Kept period := by
  rw [Kept] at h ⊢
  change 2 * t.next period ≤ 2 * t.clock + 3 * period
  omega

/-- A tick keeps one and a half periods if it finds that half a period has not gone by. -/
theorem kept_tick_iff (hclock : t.clock = t.next period) :
    ({ t with fired := t.fired + 1 } : IdleTimer).Kept period ↔ 2 * t.idle ≤ period := by
  rw [Kept, next_tick, idle, ← hclock]
  dsimp only
  omega

theorem kept_restart (hlast : t.last = t.clock) :
    ({ t with start := t.clock, fired := 0 } : IdleTimer).Kept period := by
  simp only [Kept, next, hlast]
  omega

/-- **One and a half periods are kept** up to the next tick. -/
theorem Sound.idle_le (h : t.Sound period) (hkept : t.Kept period) : 2 * t.idle ≤ 3 * period := by
  have hclock := h.clock_le
  rw [Kept] at hkept
  rw [idle]
  omega

/-- Otherwise they are over when it is time for the next tick, unless something happens. -/
theorem lt_idle_of_not_kept (h : ¬ t.Kept period) (hclock : t.clock = t.next period) :
    3 * period < 2 * t.idle := by
  rw [Kept] at h
  rw [idle]
  omega

end IdleTimer
