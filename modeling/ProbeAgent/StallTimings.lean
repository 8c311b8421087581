import ProbeAgent.SurvivedExpiry
import Mathlib.Algebra.Order.Floor.Ring
import Mathlib.Data.Rat.Floor
import Mathlib.Tactic.Linarith

/-!
# The timings of a stall add up

The record of a request says how long its name took to resolve, how long the connect and
the handshake took, and how long it was until the first byte.  The clock the hooks read
does not go back, and each of these calls begins after the one before it has ended; so in
every state of a request, what a snapshot says of them is never negative, together they
are no more than the time to the first byte, and that is no more than the time elapsed
(`stall_timings_add_up`).  The parts are rounded one by one, which is why their sum may be
a millisecond ahead.
-/

namespace ProbeAgent

open PyText Rounding Runs

/-! ## Whole milliseconds -/

/-- What the monotonic clock can read: it counts nanoseconds in 64 bits. -/
def Reading (now : ℚ) : Prop :=
  |now| < 2 ^ 34

theorem Reading.between {first now last : ℚ} (hfirst : Reading first) (hlast : Reading last)
    (hle : first ≤ now) (hle' : now ≤ last) : Reading now :=
  abs_lt.mpr ⟨(abs_lt.mp hfirst).1.trans_le hle, hle'.trans_lt (abs_lt.mp hlast).2⟩

theorem truncate_eq_floor {q : ℚ} (h : 0 ≤ q) : truncate q = ⌊q⌋ := by
  rw [truncate, Int.tdiv_eq_ediv_of_nonneg (Rat.num_nonneg.mpr h), Rat.floor_def']

section Milliseconds

variable {since now later : ℚ}

/-- The double whose whole part `_ms` is. -/
def elapsed (since now : ℚ) : ℚ :=
  double (double (now - since) * 1000)

theorem double_sub_nonneg (h : since ≤ now) : 0 ≤ double (now - since) * 1000 :=
  mul_nonneg (double_nonneg (sub_nonneg.mpr h)) (by norm_num)

theorem ms_eq_floor (h : since ≤ now) : ms since now = ⌊elapsed since now⌋ :=
  truncate_eq_floor (double_nonneg (double_sub_nonneg h))

theorem ms_nonneg (h : since ≤ now) : 0 ≤ ms since now := by
  rw [ms_eq_floor h, Int.floor_nonneg]
  exact double_nonneg (double_sub_nonneg h)

theorem ms_mono (h : since ≤ now) (hlater : now ≤ later) : ms since now ≤ ms since later := by
  rw [ms_eq_floor h, ms_eq_floor (h.trans hlater)]
  refine Int.floor_mono (double_mono (double_sub_nonneg h) ?_)
  have hsub := double_mono (sub_nonneg.mpr h) (sub_le_sub_right hlater since)
  exact mul_le_mul_of_nonneg_right hsub (by norm_num)

/-- The two roundings are off by less than the 256th part of a millisecond. -/
theorem elapsed_near (hsince : Reading since) (hnow : Reading now) :
    |elapsed since now - (now - since) * 1000| ≤ 1 / 256 := by
  have hsince' := abs_lt.mp hsince
  have hnow' := abs_lt.mp hnow
  have hsub : |now - since| < 2 ^ (35 : ℤ) := by
    rw [abs_lt]
    norm_num at hsince' hnow' ⊢
    constructor <;> linarith
  have hfirst := abs_le.mp (abs_double_sub_le hsub (by decide))
  have hsub' := abs_lt.mp hsub
  norm_num at hfirst hsub'
  have hmul : |double (now - since) * 1000| < 2 ^ (45 : ℤ) := by
    rw [abs_lt]
    norm_num
    constructor <;> linarith
  have hsecond := abs_le.mp (abs_double_sub_le hmul (by decide))
  norm_num at hsecond
  rw [elapsed, abs_le]
  constructor <;> linarith

theorem ms_le (hsince : Reading since) (hnow : Reading now) (h : since ≤ now) :
    (ms since now : ℚ) ≤ (now - since) * 1000 + 1 / 256 := by
  have hnear := abs_le.mp (elapsed_near hsince hnow)
  have hfloor := Int.floor_le (elapsed since now)
  rw [ms_eq_floor h]
  linarith

/-- A whole number of milliseconds that exceeds the time by a few roundings at most is at
most one ahead of what `_ms` says. -/
theorem le_ms (hsince : Reading since) (hnow : Reading now) (h : since ≤ now) {m : Int}
    (hm : (m : ℚ) ≤ (now - since) * 1000 + 3 / 256) : m ≤ ms since now + 1 := by
  have hnear := abs_le.mp (elapsed_near hsince hnow)
  have hfloor := Int.lt_floor_add_one (elapsed since now)
  rw [← ms_eq_floor h] at hfloor
  have hlt : (m : ℚ) < ms since now + 1 + 1 := by linarith
  exact Int.lt_add_one_iff.mp (by exact_mod_cast hlt)

/-- The millisecond is there: a name resolved in 16.452 seconds and an address connected
in the 8.226 after them, against the 24.678 of both. -/
example : ms 600 (double (616452 / 1000)) + ms (double (616452 / 1000)) (double (624678 / 1000)) =
    ms 600 (double (624678 / 1000)) + 1 := by
  decide +kernel

end Milliseconds

/-! ## The clock -/

/-- The reading of the monotonic clock a hook takes. -/
def HookEvent.reads : HookEvent → Option ℚ
  | .request _ _ _ now => some now
  | .sent _ now => some now
  | .resolving now => some now
  | .resolved _ now => some now
  | .connecting _ now => some now
  | .connected _ now => some now
  | .handshaking now => some now
  | .handshaken _ now => some now
  | .requested now => some now
  | .received _ now => some now
  | .headers _ _ now => some now
  | .closed _ now => some now
  | .storing now => some now
  | _ => none

/-- A call is entered whose duration is taken. -/
def HookEvent.opens : HookEvent → Bool
  | .resolving _ => true
  | .connecting _ _ => true
  | .handshaking _ => true
  | _ => false

/-- The reading with which a call was entered, when it returns. -/
def HookEvent.closes : HookEvent → Option ℚ
  | .resolved since _ => some since
  | .connected since _ => some since
  | .handshaken since _ => some since
  | _ => none

/-- The clock goes on: `since` is its reading when the call the thread is in was entered. -/
structure Ticks (e : HookEvent) (clock since clock' since' : ℚ) : Prop where
  inRange : Reading clock'
  forward : clock ≤ clock'
  reads : ∀ now, e.reads = some now → clock' = now
  opens : e.opens = true → since' = clock'
  stays : e.opens = false → since' = since
  closes : ∀ start, e.closes = some start → since ≤ start ∧ start ≤ clock'

/-- A request under a clock. -/
structure Clocked where
  sent : Sent
  clock : ℚ
  since : ℚ

/-- One moment of the request. -/
def ClockStep (s : Clocked) (e : HookEvent) (t : Clocked) : Prop :=
  SentStep s.sent e t.sent ∧ Ticks e s.clock s.since t.clock t.since

/-- The request has just been called. -/
def Clocked.start (p : RunProgress) (c : Connection) (method path : PyStr) (now : ℚ) : Clocked :=
  ⟨Sent.start p c method path now, now, now⟩

/-! ## What the record says of a request -/

/-- What the calls of the request have taken, in milliseconds. -/
def Request.spent (r : Request) : Int :=
  r.dnsMs.getD 0 + r.connectMs.getD 0 + r.tlsMs.getD 0

/-- How many of the calls of the request have been timed. -/
def Request.timed (r : Request) : Nat :=
  r.dnsMs.isSome.toNat + r.connectMs.isSome.toNat + r.tlsMs.isSome.toNat

theorem Request.timed_le (r : Request) : (r.timed : ℚ) ≤ 3 := by
  have hdns := Bool.toNat_le r.dnsMs.isSome
  have hconnect := Bool.toNat_le r.connectMs.isSome
  have htls := Bool.toNat_le r.tlsMs.isSome
  have hle : r.timed ≤ 3 := by
    unfold timed
    omega
  exact_mod_cast hle

/-- The calls still to return have left nothing on the record. -/
def Wire.Unrecorded (r : Request) : Wire → Prop
  | called => r.dnsMs = none ∧ r.connectMs = none ∧ r.tlsMs = none ∧ r.firstByteMs = none
  | opening => r.dnsMs = none ∧ r.connectMs = none ∧ r.tlsMs = none ∧ r.firstByteMs = none
  | resolving => r.dnsMs = none ∧ r.connectMs = none ∧ r.tlsMs = none ∧ r.firstByteMs = none
  | addressed => r.connectMs = none ∧ r.tlsMs = none ∧ r.firstByteMs = none
  | connecting => r.connectMs = none ∧ r.tlsMs = none ∧ r.firstByteMs = none
  | connected => r.tlsMs = none ∧ r.firstByteMs = none
  | handshaking => r.tlsMs = none ∧ r.firstByteMs = none
  | secured => r.firstByteMs = none
  | sending => r.firstByteMs = none
  | _ => True

/-- Up to when the calls that have returned may have lasted. -/
def Wire.mark (clock since : ℚ) : Wire → ℚ
  | resolving => since
  | connecting => since
  | handshaking => since
  | _ => clock

/-- The durations are not negative, and fit one after another into the time since the
request was called, but for the rounding of each. -/
structure TimedRequest (w : Wire) (clock since : ℚ) (r : Request) : Prop where
  started : Reading r.started
  started_le : r.started ≤ w.mark clock since
  mark_le : w.mark clock since ≤ clock
  dns : 0 ≤ r.dnsMs.getD 0
  connect : 0 ≤ r.connectMs.getD 0
  tls : 0 ≤ r.tlsMs.getD 0
  spent : (r.spent : ℚ) ≤ (w.mark clock since - r.started) * 1000 + r.timed / 256
  unrecorded : w.Unrecorded r
  firstByte : ∀ f, r.firstByteMs = some f → r.spent ≤ f + 1 ∧
    ∃ first, r.started ≤ first ∧ first ≤ clock ∧ f = ms r.started first
  untouched : r.firstByteMs = none → r.bytesReceived = 0

section Step

variable {w w' : Wire} {clock since clock' since' : ℚ} {r r' : Request} {e : HookEvent}
  {c : Connection}

/-- The two records say the same of the timings. -/
structure Request.SameTimes (r r' : Request) : Prop where
  started : r'.started = r.started
  dns : r'.dnsMs = r.dnsMs
  connect : r'.connectMs = r.connectMs
  tls : r'.tlsMs = r.tlsMs
  firstByte : r'.firstByteMs = r.firstByteMs
  received : r'.bytesReceived = r.bytesReceived

theorem Wire.Unrecorded.congr (hsame : r.SameTimes r') (h : w.Unrecorded r) :
    w.Unrecorded r' := by
  revert h
  cases w <;> simp only [Unrecorded, hsame.dns, hsame.connect, hsame.tls, hsame.firstByte] <;>
    exact id

theorem TimedRequest.congr (hsame : r.SameTimes r') (h : TimedRequest w clock since r) :
    TimedRequest w clock since r' := by
  have hspent : r'.spent = r.spent := by
    rw [Request.spent, hsame.dns, hsame.connect, hsame.tls, Request.spent]
  have htimed : r'.timed = r.timed := by
    rw [Request.timed, hsame.dns, hsame.connect, hsame.tls, Request.timed]
  constructor
  · rw [hsame.started]
    exact h.started
  · rw [hsame.started]
    exact h.started_le
  · exact h.mark_le
  · rw [hsame.dns]
    exact h.dns
  · rw [hsame.connect]
    exact h.connect
  · rw [hsame.tls]
    exact h.tls
  · rw [hspent, hsame.started, htimed]
    exact h.spent
  · exact h.unrecorded.congr hsame
  · rw [hsame.firstByte, hspent, hsame.started]
    exact h.firstByte
  · rw [hsame.firstByte, hsame.received]
    exact h.untouched

/-- A moment that adds nothing to the timings. -/
theorem TimedRequest.go_on (h : TimedRequest w clock since r) (hclock : clock ≤ clock')
    (hmark : w'.mark clock' since' ≤ clock') (hlater : w.mark clock since ≤ w'.mark clock' since')
    (hunrecorded : w'.Unrecorded r) : TimedRequest w' clock' since' r := by
  refine ⟨h.started, h.started_le.trans hlater, hmark, h.dns, h.connect, h.tls, ?_,
    hunrecorded, fun f hf => ?_, h.untouched⟩
  · have hspent := h.spent
    linarith
  · obtain ⟨hsum, first, hstarted, hle, hf⟩ := h.firstByte f hf
    exact ⟨hsum, first, hstarted, hle.trans hclock, hf⟩

/-- The name has been resolved. -/
theorem TimedRequest.resolved {start now : ℚ} (h : TimedRequest .resolving clock since r)
    (hnow : Reading now) (hsince : since ≤ start) (hstart : start ≤ now) :
    TimedRequest .addressed now since' { r with dnsMs := some (ms start now) } := by
  obtain ⟨hdns, hconnect, htls, hfirst⟩ := h.unrecorded
  have hbegan : r.started ≤ start := h.started_le.trans hsince
  have hnonneg := ms_nonneg hstart
  have hms := ms_le (h.started.between hnow hbegan hstart) hnow hstart
  refine ⟨h.started, hbegan.trans hstart, le_rfl, hnonneg, h.connect, h.tls, ?_,
    ⟨hconnect, htls, hfirst⟩, ?_, h.untouched⟩
  · simp only [Request.spent, Request.timed, hconnect, htls, Option.getD_some, Option.getD_none,
      Option.isSome_some, Option.isSome_none, Bool.toNat_true, Bool.toNat_false, add_zero,
      Wire.mark, Nat.cast_one]
    linarith
  · intro f hf
    rw [hfirst] at hf
    cases hf

/-- A connect has returned. -/
theorem TimedRequest.connected {start now : ℚ} (h : TimedRequest .connecting clock since r)
    (hnow : Reading now) (hsince : since ≤ start) (hstart : start ≤ now) :
    TimedRequest .connected now since' { r with connectMs := some (ms start now) } := by
  obtain ⟨hconnect, htls, hfirst⟩ := h.unrecorded
  have hbegan : r.started ≤ start := h.started_le.trans hsince
  have hnonneg := ms_nonneg hstart
  have hms := ms_le (h.started.between hnow hbegan hstart) hnow hstart
  have hspent := h.spent
  simp only [Request.spent, Request.timed, hconnect, htls, Option.getD_none, Option.isSome_none,
    Bool.toNat_false, add_zero, Wire.mark] at hspent
  refine ⟨h.started, hbegan.trans hstart, le_rfl, h.dns, hnonneg, h.tls, ?_, ⟨htls, hfirst⟩, ?_,
    h.untouched⟩
  · simp only [Request.spent, Request.timed, htls, Option.getD_some, Option.getD_none,
      Option.isSome_some, Option.isSome_none, Bool.toNat_true, Bool.toNat_false, add_zero,
      Wire.mark]
    push_cast
    linarith
  · intro f hf
    rw [hfirst] at hf
    cases hf

/-- The handshake is over. -/
theorem TimedRequest.handshaken {start now : ℚ} (h : TimedRequest .handshaking clock since r)
    (hnow : Reading now) (hsince : since ≤ start) (hstart : start ≤ now) :
    TimedRequest .secured now since' { r with tlsMs := some (ms start now) } := by
  obtain ⟨htls, hfirst⟩ := h.unrecorded
  have hbegan : r.started ≤ start := h.started_le.trans hsince
  have hnonneg := ms_nonneg hstart
  have hms := ms_le (h.started.between hnow hbegan hstart) hnow hstart
  have hspent := h.spent
  simp only [Request.spent, Request.timed, htls, Option.getD_none, Option.isSome_none,
    Bool.toNat_false, add_zero, Wire.mark] at hspent
  refine ⟨h.started, hbegan.trans hstart, le_rfl, h.dns, h.connect, hnonneg, ?_, hfirst, ?_,
    h.untouched⟩
  · simp only [Request.spent, Request.timed, Option.getD_some, Option.isSome_some,
      Bool.toNat_true, Wire.mark]
    push_cast at hspent ⊢
    linarith
  · intro f hf
    rw [hfirst] at hf
    cases hf

/-- Bytes of the response have been read. -/
theorem TimedRequest.received {now : ℚ} (count : Nat) (h : TimedRequest w clock since r)
    (hnow : Reading now) (hmark : w'.mark now since' = now) (hany : ∀ r, w'.Unrecorded r)
    (hclock : clock ≤ now) :
    TimedRequest w' now since'
      { r with
        firstByteMs := r.firstByteMs.or (some (ms r.started now))
        bytesReceived := r.bytesReceived + count } := by
  have hmark_le : w.mark clock since ≤ now := h.mark_le.trans hclock
  have hbegan : r.started ≤ now := h.started_le.trans hmark_le
  have hspent : (r.spent : ℚ) ≤ (now - r.started) * 1000 + r.timed / 256 := by
    have hspent := h.spent
    linarith
  refine ⟨h.started, hbegan.trans hmark.ge, hmark.le, h.dns, h.connect, h.tls, ?_, hany _,
    fun f hf => ?_, fun hnone => ?_⟩
  · rw [hmark]
    exact hspent
  · change r.spent ≤ f + 1 ∧ ∃ first, r.started ≤ first ∧ first ≤ now ∧ f = ms r.started first
    change r.firstByteMs.or (some (ms r.started now)) = some f at hf
    cases hfirst : r.firstByteMs with
    | some first =>
        rw [hfirst] at hf
        cases hf
        obtain ⟨hsum, first', hle, hle', hf⟩ := h.firstByte _ hfirst
        exact ⟨hsum, first', hle, hle'.trans hclock, hf⟩
    | none =>
        rw [hfirst] at hf
        cases hf
        have hroundings := r.timed_le
        exact ⟨le_ms h.started hnow hbegan (by linarith), now, hbegan, le_rfl, rfl⟩
  · change r.firstByteMs.or (some (ms r.started now)) = none at hnone
    cases hfirst : r.firstByteMs <;> simp [hfirst] at hnone

/-- The calls that may have lasted until then lasted no longer than the clock says. -/
theorem Wire.Step.marked (h : Step c w e w') (ht : Ticks e clock since clock' since')
    (hmark : w.mark clock since ≤ clock) :
    w'.mark clock' since' ≤ clock' ∧ w.mark clock since ≤ w'.mark clock' since' := by
  have hlater : w.mark clock since ≤ clock' := hmark.trans ht.forward
  have hopened (he : e.opens = true) : since' ≤ clock' ∧ w.mark clock since ≤ since' := by
    rw [ht.opens he]
    exact ⟨le_rfl, hlater⟩
  cases h with
  | resolve => exact hopened rfl
  | tryAddress => exact hopened rfl
  | afterRefusal => exact hopened rfl
  | handshake => exact hopened rfl
  | closeOther =>
      -- the thread stays in the call it is in
      have hsince : since' = since := ht.stays rfl
      rw [hsince]
      cases w with
      | resolving => exact ⟨hlater, le_rfl⟩
      | connecting => exact ⟨hlater, le_rfl⟩
      | handshaking => exact ⟨hlater, le_rfl⟩
      | _ => exact ⟨le_rfl, hlater⟩
  | headers =>
      split <;> exact ⟨le_rfl, hlater⟩
  | _ => exact ⟨le_rfl, hlater⟩

/-- What is still to come has left nothing on the record when the event is over, unless
the event ends a call. -/
theorem Wire.Step.unrecorded (h : Step c w e w') (he : e.closes = none)
    (hr : w.Unrecorded r) : w'.Unrecorded r := by
  cases h with
  | resolved => cases he
  | accept => cases he
  | handshaken => cases he
  | sendClosed => exact hr
  | sendOpen => exact hr.2.2.2
  | resolve => exact hr
  | tryAddress => exact hr
  | afterRefusal => exact hr
  | goOn => exact hr
  | handshake => exact hr
  | sendMore => exact hr
  | sendPlain => exact hr.2
  | sendSecured => exact hr
  | headers =>
      split <;> trivial
  | closeOther => exact hr
  | _ => trivial

/-- **One moment of the record.** -/
theorem TimedRequest.step (h : w.Step c e w') (ht : Ticks e clock since clock' since')
    (hr : TimedRequest w clock since r) : TimedRequest w' clock' since' (e.note r) := by
  obtain ⟨hmark, hlater⟩ := h.marked ht hr.mark_le
  have hsilent : e.closes = none → TimedRequest w' clock' since' r := fun he =>
    hr.go_on ht.forward hmark hlater (h.unrecorded he hr.unrecorded)
  cases h with
  | @resolved start now =>
      obtain ⟨hsince, hstart⟩ := ht.closes start rfl
      obtain rfl := ht.reads now rfl
      exact hr.resolved ht.inRange hsince hstart
  | @accept start now =>
      obtain ⟨hsince, hstart⟩ := ht.closes start rfl
      obtain rfl := ht.reads now rfl
      exact hr.connected ht.inRange hsince hstart
  | @handshaken start now =>
      obtain ⟨hsince, hstart⟩ := ht.closes start rfl
      obtain rfl := ht.reads now rfl
      exact hr.handshaken ht.inRange hsince hstart
  | @receiveHead count now =>
      obtain rfl := ht.reads now rfl
      exact hr.received count ht.inRange rfl (fun _ => trivial) ht.forward
  | @receiveBody count now =>
      obtain rfl := ht.reads now rfl
      exact hr.received count ht.inRange rfl (fun _ => trivial) ht.forward
  | tryAddress => exact TimedRequest.congr (r := r) ⟨rfl, rfl, rfl, rfl, rfl, rfl⟩ (hsilent rfl)
  | afterRefusal => exact TimedRequest.congr (r := r) ⟨rfl, rfl, rfl, rfl, rfl, rfl⟩ (hsilent rfl)
  | _ => exact hsilent rfl

end Step

/-! ## Runs -/

/-- The request on record after a hook is the one before it, with what the hook notes. -/
theorem RunProgress.sameTimes_of_hook {p : RunProgress} {e : HookEvent} {r' : Request}
    (he : ∀ c method path now, e ≠ .request c method path now)
    (hr' : (p.hook e).request = some r') :
    ∃ r, p.request = some r ∧ (e.note r).SameTimes r' := by
  have hexpiry : ∀ now tcp, (p.onTimeout now tcp).request = some r' →
      ∃ r, p.request = some r ∧ r.SameTimes r' := by
    intro now tcp h
    rw [RunProgress.onTimeout] at h
    split at h
    · rename_i hnone
      rw [hnone] at h
      cases h
    · rename_i r hr
      split at h
      · rw [h] at hr
        cases hr
        exact ⟨r', h, rfl, rfl, rfl, rfl, rfl, rfl⟩
      · cases h
        exact ⟨r, hr, rfl, rfl, rfl, rfl, rfl, rfl⟩
  have hclose : ∀ conn now, (p.close conn now).request = some r' →
      ∃ r, p.request = some r ∧ r.SameTimes r' := by
    intro conn now h
    rcases p.close_cases conn now with hsame | ⟨hnone, -⟩
    · rw [hsame] at h
      exact ⟨r', h, rfl, rfl, rfl, rfl, rfl, rfl⟩
    · rw [hnone] at h
      cases h
  have hplain : e.Plain → ∃ r, p.request = some r ∧ (e.note r).SameTimes r' := by
    intro h
    rw [RunProgress.hook_request h] at hr'
    obtain ⟨r, hr, rfl⟩ := Option.map_eq_some_iff.mp hr'
    exact ⟨r, hr, rfl, rfl, rfl, rfl, rfl, rfl⟩
  cases e with
  | request c method path now => exact absurd rfl (he c method path now)
  | addressExpired now tcp => exact hexpiry now tcp hr'
  | expired now tcp => exact hexpiry now tcp hr'
  | closed conn now => exact hclose conn now hr'
  | headers conn head now =>
      rw [RunProgress.hook] at hr'
      split at hr'
      · exact hclose conn now hr'
      · exact ⟨r', hr', rfl, rfl, rfl, rfl, rfl, rfl⟩
  | _ => exact hplain trivial

/-- The timings on record are those of calls made one after another. -/
def Clocked.Timed (s : Clocked) : Prop :=
  ∀ r, s.sent.progress.request = some r → TimedRequest s.sent.wire s.clock s.since r

theorem Clocked.timed_start (p : RunProgress) (c : Connection) (method path : PyStr) {now : ℚ}
    (hnow : Reading now) : (Clocked.start p c method path now).Timed := by
  intro r hr
  cases hr
  refine ⟨hnow, le_rfl, le_rfl, le_rfl, le_rfl, le_rfl, ?_, ⟨rfl, rfl, rfl, rfl⟩, nofun,
    fun _ => rfl⟩
  simp [Clocked.start, Sent.start, Request.spent, Request.timed, Wire.mark]

/-- **One moment.** -/
theorem Clocked.Timed.step {s t : Clocked} {e : HookEvent} (hst : ClockStep s e t)
    (hs : s.Timed) : t.Timed := by
  obtain ⟨⟨hwire, -, hprogress, -, -⟩, hticks⟩ := hst
  intro r' hr'
  rw [hprogress] at hr'
  obtain ⟨r, hr, hsame⟩ := RunProgress.sameTimes_of_hook hwire.within.1 hr'
  exact (TimedRequest.step hwire hticks (hs r hr)).congr hsame

/-- The timings a stall reports add up: none is negative, the calls that were timed took
no longer together than it was until the first byte, nor than the time elapsed, by more
than a millisecond, the first byte is no later than the time elapsed, and no byte is
counted before the first. -/
structure StallRequest.AddsUp (q : StallRequest) : Prop where
  dns : 0 ≤ q.dnsMs.getD 0
  connect : 0 ≤ q.connectMs.getD 0
  tls : 0 ≤ q.tlsMs.getD 0
  elapsed : q.dnsMs.getD 0 + q.connectMs.getD 0 + q.tlsMs.getD 0 ≤ q.elapsedMs + 1
  firstByte : ∀ t, q.ttfbMs = some t →
    q.dnsMs.getD 0 + q.connectMs.getD 0 + q.tlsMs.getD 0 ≤ t + 1 ∧ t ≤ q.elapsedMs
  untouched : q.ttfbMs = none → q.bytesReceived = 0

theorem RunProgress.snapshot_request {p : RunProgress} {now : ℚ} {tcp report : Option TcpInfo}
    {stall : Stall} {target : Target} {said : StallRequest}
    (hstall : p.snapshot now tcp = some stall)
    (hsaid : stall.request = some (target, report, said)) :
    ∃ r, p.request = some r ∧
      said = ⟨r.method, r.url, ms r.started now, r.dnsMs, r.connectMs, r.tlsMs, r.firstByteMs,
        r.bytesReceived⟩ := by
  rw [RunProgress.snapshot] at hstall
  split at hstall
  · cases hstall
  · cases hstall
    obtain ⟨r, hr, heq⟩ := Option.map_eq_some_iff.mp hsaid
    simp only [Prod.mk.injEq] at heq
    exact ⟨r, hr, heq.2.2.symm⟩

/-- A record whose calls fit into the time since the request makes a stall that adds up. -/
theorem TimedRequest.addsUp {w : Wire} {clock since now : ℚ} {r : Request}
    (h : TimedRequest w clock since r) (hreading : Reading now) (hnow : clock ≤ now) :
    StallRequest.AddsUp ⟨r.method, r.url, ms r.started now, r.dnsMs, r.connectMs, r.tlsMs,
      r.firstByteMs, r.bytesReceived⟩ := by
  have hmark : w.mark clock since ≤ now := h.mark_le.trans hnow
  have hspent := h.spent
  have hroundings := r.timed_le
  refine ⟨h.dns, h.connect, h.tls, le_ms h.started hreading (h.started_le.trans hmark) ?_,
    fun t ht => ?_, h.untouched⟩
  · change (r.spent : ℚ) ≤ (now - r.started) * 1000 + 3 / 256
    linarith
  · obtain ⟨hsum, first, hle, hle', rfl⟩ := h.firstByte t ht
    exact ⟨hsum, ms_mono hle (hle'.trans hnow)⟩

/-- **The timings of a stall add up.** Over every run of a request under a clock that does
not go back, in every state of it, whatever addresses were tried and whatever ended it;
`_ms` rounds twice and cuts off the rest, hence the millisecond. -/
theorem stall_timings_add_up {p : RunProgress} {c : Connection} {method path : PyStr}
    {start : ℚ} {run : List (HookEvent × Clocked)} (hstart : Reading start)
    (hrun : Run ClockStep (Clocked.start p c method path start) run) :
    ∀ s ∈ statesOf (Clocked.start p c method path start) run, ∀ now tcp stall target report said,
      Reading now → s.clock ≤ now → s.sent.progress.snapshot now tcp = some stall →
        stall.request = some (target, report, said) → said.AddsUp := by
  intro s hs now tcp stall target report said hreading hnow hstall hsaid
  have htimed : s.Timed := invariant_statesOf Clocked.Timed (fun hst h => h.step hst) hrun
    (Clocked.timed_start p c method path hstart) s hs
  obtain ⟨r, hr, rfl⟩ := RunProgress.snapshot_request hstall hsaid
  exact (htimed r hr).addsUp hreading hnow

section Sample

/-- The clock at the moments of `sampleSurvival`, and its reading when the call the thread
is in was entered. -/
def sampleClock : List (ℚ × ℚ) :=
  [(1, 1), (1, 1), (1, 1), (1, 1), (2, 1), (2, 2), (3, 2), (3, 2), (4, 2)]

def clockTrace : List (HookEvent × Sent) → List (ℚ × ℚ) → List (HookEvent × Clocked) :=
  List.zipWith fun m now => (m.1, ⟨m.2, now.1, now.2⟩)

theorem clockTrace_run {s : Clocked} {run : List (HookEvent × Sent)} {times : List (ℚ × ℚ)}
    (hrun : Run SentStep s.sent run) (hlength : times.length = run.length)
    (hticks : Along (fun s e t => Ticks e s.clock s.since t.clock t.since) s
      (clockTrace run times)) : Run ClockStep s (clockTrace run times) := by
  induction run generalizing s times with
  | nil => exact .nil _
  | cons m run ih =>
      cases times with
      | nil => cases hlength
      | cons now times =>
          cases hrun with
          | cons hst hrun =>
              obtain ⟨htick, hticks⟩ := hticks
              refine .cons ⟨hst, htick⟩ (ih hrun (Nat.succ.inj hlength) hticks)

theorem sampleClock_run :
    Run ClockStep (Clocked.start { phaseSince := 0 } sampleConnection (py "GET") (py "/") 1)
      (clockTrace (sentTrace sampleSent sampleSurvival) sampleClock) := by
  refine clockTrace_run sampleSurvival_run rfl ?_
  simp only [sentTrace, sampleSurvival, sampleClock, clockTrace, List.zipWith_cons_cons,
    List.zipWith_nil_left, along_cons, along_nil, Clocked.start]
  refine ⟨?_, ?_, ?_, ?_, ?_, ?_, ?_, ?_, ?_, trivial⟩ <;>
    constructor
  all_goals first
    | norm_num [HookEvent.opens, Reading]; done
    | rintro _ ⟨⟩ <;> norm_num

/-- The second connect took a second of the four. -/
theorem stall_timings_add_up_survived :
    StallRequest.AddsUp ⟨py "GET", py "http://api.example.com/", 4000, some 0, some 1000, none,
      none, 0⟩ :=
  stall_timings_add_up (by norm_num [Reading]) sampleClock_run
    ⟨lastState sampleSent (sentTrace sampleSent sampleSurvival), 4, 2⟩
    (List.mem_cons_of_mem _ (List.mem_of_getLast? rfl)) 5 none _
    ⟨py "api.example.com", 80, false⟩ none _ (by norm_num [Reading]) (by norm_num) rfl
    (by decide +kernel)

end Sample

end ProbeAgent
