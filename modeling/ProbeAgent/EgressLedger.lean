import ProbeAgent.Isolation
import ProbeAgent.Runs

/-!
# The bytes a run sends (`wire_metrics.install.patched_send`)

What a run's thread does on its connections, send by send: the hook on
`HTTPConnection.send` adds to the byte counter, whose total a completed result carries, and
calls `run_progress.on_sent`, which adds to the record a stand-in result is made from.  Only
then the original opens the connection when it is not open, and hands the message to it,
`sendall` piece by piece.

So both totals are ahead of what has been handed by what the calls under way still owe, and
for good by what failed ones never handed (`SendState.Ahead`).  They are never ahead only in
a run that sends nothing (`egress_handed_iff`).
-/

namespace ProbeAgent

open Runs

/-- A call of `HTTPConnection.send` that has not returned. -/
structure PendingSend where
  conn : Nat
  size : Nat
  /-- What it added to the byte counter. -/
  counted : Nat
  /-- What of it its connection has been given. -/
  handed : Nat
  /-- Its connection has been established since it was called, or was before. -/
  reached : Bool
  /-- `on_sent` is still to be called. -/
  unreported : Bool
deriving DecidableEq

/-- What it has counted and not handed. -/
def PendingSend.owed (p : PendingSend) : Nat :=
  p.counted - p.handed

/-- A run, as far as it sends. -/
structure SendState where
  counter : WireCounter
  record : RunProgress
  /-- The connections whose socket is connected, with TLS where they have it. -/
  established : Nat → Bool
  /-- The calls under way, the innermost first: a tunnel is asked for inside a call. -/
  pending : List PendingSend := []
  /-- The message bytes handed to an established connection so far. -/
  handed : Nat := 0
  /-- What failed calls have counted and not handed. -/
  lost : Nat := 0
  /-- A send has failed. -/
  failed : Bool := false

/-- What the thread of a run does. -/
inductive SendMove
  /-- `patched_send` is called and adds to the counter; `bytes` is whether the data is
  `bytes` or a `bytearray`. -/
  | send (conn size : Nat) (bytes : Bool)
  /-- `run_progress.on_sent`. -/
  | report (now : ℚ)
  /-- The connection is established: resolved, connected and through its TLS handshake. -/
  | establish (conn : Nat)
  /-- `sendall` gives so many bytes of the innermost message to its connection. -/
  | hand (count : Nat)
  /-- The message has been handed, and the innermost send returns. -/
  | wrote
  /-- The innermost send raises, a `TimeoutError` at this time if one is given. -/
  | fail (expired : Option (ℚ × Option TcpInfo))
  | close (conn : Nat)

namespace SendState

variable (s : SendState)

/-- No hook is in the middle of its two entries. -/
def Ready : Prop :=
  ∀ p ∈ s.pending.head?, p.unreported = false

/-- `patched_send`, up to its first entry. -/
def begin (conn size : Nat) (bytes : Bool) : SendState :=
  let counts := s.counter.active && bytes
  { s with
    counter :=
      if counts then { s.counter with egress := s.counter.egress + size } else s.counter
    pending :=
      ⟨conn, size, if counts then size else 0, 0, s.established conn, counts⟩ :: s.pending }

/-- A connection is established. -/
def establish (conn : Nat) : SendState :=
  { s with
    established := Function.update s.established conn true
    pending := s.pending.map fun p => if p.conn = conn then { p with reached := true } else p }

/-- `run_progress.on_timeout`, when what is raised is a `TimeoutError`. -/
def expire (expired : Option (ℚ × Option TcpInfo)) : RunProgress :=
  match expired with
  | none => s.record
  | some (now, tcp) => s.record.onTimeout now tcp

end SendState

/-- One step of the run. -/
inductive SendStep : SendState → SendMove → SendState → Prop
  | send {s : SendState} {conn size : Nat} {bytes : Bool} (hready : s.Ready) :
      SendStep s (.send conn size bytes) (s.begin conn size bytes)
  | report {s : SendState} {p : PendingSend} {rest : List PendingSend} {now : ℚ}
      (hpending : s.pending = p :: rest) (hdue : p.unreported = true) :
      SendStep s (.report now)
        { s with
          record := s.record.onSent p.size now
          pending := { p with unreported := false } :: rest }
  | establish {s : SendState} {conn : Nat} (hready : s.Ready)
      (hclosed : s.established conn = false) : SendStep s (.establish conn) (s.establish conn)
  | hand {s : SendState} {p : PendingSend} {rest : List PendingSend} {count : Nat}
      (hready : s.Ready) (hpending : s.pending = p :: rest)
      (hopen : s.established p.conn = true) (hcount : p.handed + count ≤ p.size) :
      SendStep s (.hand count)
        { s with
          pending := { p with handed := p.handed + count } :: rest
          handed := s.handed + count }
  | wrote {s : SendState} {p : PendingSend} {rest : List PendingSend} (hready : s.Ready)
      (hpending : s.pending = p :: rest) (hopen : s.established p.conn = true)
      (hall : p.handed = p.size) : SendStep s .wrote { s with pending := rest }
  | fail {s : SendState} {p : PendingSend} {rest : List PendingSend}
      {expired : Option (ℚ × Option TcpInfo)} (hready : s.Ready)
      (hpending : s.pending = p :: rest) :
      SendStep s (.fail expired)
        { s with
          record := s.expire expired
          pending := rest
          lost := s.lost + p.owed
          failed := true }
  | close {s : SendState} {conn : Nat} (hready : s.Ready) :
      SendStep s (.close conn)
        { s with established := Function.update s.established conn false }

/-- The start of a run, inside its `measure` block. -/
def SendState.start (made : ℚ) (established : Nat → Bool) : SendState where
  counter := { active := true }
  record := { phaseSince := made }
  established := established

/-! ## What the totals are to say -/

/-- Both totals say what went out. -/
structure SendState.Faithful (s : SendState) : Prop where
  result_le : s.counter.egress ≤ s.handed
  standIn_le : s.record.egress ≤ s.handed
  quiet : s.pending = [] → s.failed = false →
    s.counter.egress = s.handed ∧ s.record.egress = s.handed
  /-- A send whose connection is not established has added nothing. -/
  unreached : ∀ p ∈ s.pending, p.reached = false → p.counted = 0

/-- A send carries no byte. -/
def SendMove.CarriesNothing : SendMove → Prop
  | .send _ size _ => size = 0
  | _ => True

/-- What is sent is bytes or a bytearray. -/
def SendMove.CarriesBytes : SendMove → Prop
  | .send _ _ bytes => bytes = true
  | _ => True

/-- What the calls under way have counted and not handed. -/
def SendState.owed (s : SendState) : Nat :=
  (s.pending.map PendingSend.owed).sum

/-- **What both totals do say**: what has been handed, what the calls under way still owe, and
what failed ones never handed. -/
structure SendState.Ahead (s : SendState) : Prop where
  result : s.counter.egress = s.handed + s.owed + s.lost
  standIn : s.Ready → s.record.egress = s.counter.egress
  intact : s.failed = false → s.lost = 0

/-! ## Runs that send nothing -/

/-- Nothing has been counted or handed. -/
structure SendState.Still (s : SendState) : Prop where
  result : s.counter.egress = 0
  standIn : s.record.egress = 0
  handed : s.handed = 0
  pending : ∀ p ∈ s.pending, p.size = 0 ∧ p.counted = 0

namespace SendState

variable {s t : SendState}

theorem still_start (made : ℚ) (established : Nat → Bool) : (start made established).Still where
  result := rfl
  standIn := rfl
  handed := rfl
  pending := by simp [start]

theorem Still.faithful (h : s.Still) : s.Faithful where
  result_le := h.result.le.trans (Nat.zero_le _)
  standIn_le := h.standIn.le.trans (Nat.zero_le _)
  quiet _ _ := by rw [h.result, h.standIn, h.handed]; exact ⟨rfl, rfl⟩
  unreached p hp _ := (h.pending p hp).2

theorem egress_onSent (p : RunProgress) (count : Nat) (now : ℚ) :
    (p.onSent count now).egress = p.egress + count :=
  (hook_bytes p (.sent count now)).2

theorem egress_expire (s : SendState) (expired : Option (ℚ × Option TcpInfo)) :
    (s.expire expired).egress = s.record.egress := by
  cases expired with
  | none => rfl
  | some e => exact (onTimeout_bytes s.record e.1 e.2).2

/-- **One step** of a run that sends nothing. -/
theorem Still.step (h : s.Still) {a : SendMove} (hstep : SendStep s a t)
    (hnothing : a.CarriesNothing) : t.Still := by
  cases hstep with
  | @send conn size bytes hready =>
      obtain rfl : size = 0 := hnothing
      refine ⟨?_, h.standIn, h.handed, ?_⟩
      · simp only [SendState.begin, Nat.add_zero, ite_self]
        exact h.result
      · exact List.forall_mem_cons.mpr ⟨⟨rfl, ite_self 0⟩, h.pending⟩
  | @report p rest now hpending hdue =>
      have hall := h.pending
      rw [hpending, List.forall_mem_cons] at hall
      refine ⟨h.result, ?_, h.handed, List.forall_mem_cons.mpr hall⟩
      rw [egress_onSent, h.standIn, hall.1.1]
  | @establish conn hready _ =>
      refine ⟨h.result, h.standIn, h.handed, List.forall_mem_map.mpr fun p hp => ?_⟩
      split
      · exact h.pending p hp
      · exact h.pending p hp
  | @hand p rest count hready hpending hopen hcount =>
      have hall := h.pending
      rw [hpending, List.forall_mem_cons] at hall
      have hzero : s.handed + count = 0 := by
        rw [h.handed]
        omega
      exact ⟨h.result, h.standIn, hzero, List.forall_mem_cons.mpr hall⟩
  | @wrote p rest hready hpending _ _ =>
      have hall := h.pending
      rw [hpending, List.forall_mem_cons] at hall
      exact ⟨h.result, h.standIn, h.handed, hall.2⟩
  | @fail p rest expired hready hpending =>
      have hall := h.pending
      rw [hpending, List.forall_mem_cons] at hall
      exact ⟨h.result, (egress_expire s expired).trans h.standIn, h.handed, hall.2⟩
  | close => exact ⟨h.result, h.standIn, h.handed, h.pending⟩

end SendState

/-! ## Runs that send bytes -/

/-- What a run keeps that sends bytes only. -/
structure SendState.Accounts (s : SendState) : Prop extends s.Ahead where
  active : s.counter.active = true
  sized : ∀ p ∈ s.pending, p.counted = p.size ∧ p.handed ≤ p.size
  /-- The record lacks the send whose hook is between its two entries, and no other. -/
  between : ∀ p ∈ s.pending.head?, p.unreported = true →
    s.record.egress + p.size = s.counter.egress
  reported : ∀ p ∈ s.pending.tail, p.unreported = false

namespace SendState

variable {s t : SendState}

theorem accounts_start (made : ℚ) (established : Nat → Bool) :
    (start made established).Accounts where
  result := rfl
  standIn _ := rfl
  intact _ := rfl
  active := rfl
  sized := by simp [start]
  between := by simp [start]
  reported := by simp [start]

/-- Where no hook is under way, every call under way has been reported. -/
theorem Accounts.reported_of_ready (h : s.Accounts) (hready : s.Ready) :
    ∀ p ∈ s.pending, p.unreported = false := by
  intro p hp
  cases hpending : s.pending with
  | nil =>
      rw [hpending] at hp
      cases hp
  | cons q rest =>
      have hreported := h.reported
      rw [hpending] at hp hreported
      rcases List.mem_cons.mp hp with rfl | hp
      · exact hready p (by rw [hpending]; rfl)
      · exact hreported p hp

/-- A state whose hooks have all returned keeps the accounts if its totals do. -/
theorem accounts_of_reported (hahead : s.Ahead) (hactive : s.counter.active = true)
    (hsized : ∀ p ∈ s.pending, p.counted = p.size ∧ p.handed ≤ p.size)
    (hreported : ∀ p ∈ s.pending, p.unreported = false) : s.Accounts where
  toAhead := hahead
  active := hactive
  sized := hsized
  between p hp hdue := by
    rw [hreported p (List.mem_of_mem_head? hp)] at hdue
    cases hdue
  reported p hp := hreported p (List.mem_of_mem_tail hp)

theorem owed_cons {p : PendingSend} {rest : List PendingSend} (h : s.pending = p :: rest) :
    s.owed = p.owed + (rest.map PendingSend.owed).sum := by
  rw [owed, h, List.map_cons, List.sum_cons]

/-- A send is counted, and owes all of its bytes. -/
theorem Accounts.begin (h : s.Accounts) (hready : s.Ready) (conn size : Nat) :
    (s.begin conn size true).Accounts := by
  have hcounts : (s.counter.active && true) = true := by rw [h.active]; rfl
  refine ⟨⟨?_, fun hdone => ?_, h.intact⟩, ?_, ?_, ?_, h.reported_of_ready hready⟩
  · have hresult := h.result
    rw [owed] at hresult
    rw [@owed_cons (s.begin conn size true) _ s.pending rfl]
    simp only [SendState.begin, PendingSend.owed, hcounts, if_true]
    omega
  · have hdue := hdone _ rfl
    rw [hcounts] at hdue
    cases hdue
  · simp only [SendState.begin, hcounts, if_true]
    exact h.active
  · refine List.forall_mem_cons.mpr ⟨⟨?_, Nat.zero_le _⟩, h.sized⟩
    exact if_pos hcounts
  · rintro p ⟨⟩ -
    simp only [SendState.begin, hcounts, if_true]
    rw [h.standIn hready]

section Moves

variable {p : PendingSend} {rest : List PendingSend}

/-- The second entry of a hook makes up for the first one. -/
theorem Accounts.report (h : s.Accounts) (hpending : s.pending = p :: rest)
    (hdue : p.unreported = true) (now : ℚ) :
    ({ s with
      record := s.record.onSent p.size now
      pending := { p with unreported := false } :: rest } : SendState).Accounts := by
  have hsized := h.sized
  have hreported := h.reported
  rw [hpending] at hsized hreported
  refine accounts_of_reported ⟨?_, fun _ => ?_, h.intact⟩ h.active ?_ ?_
  · rw [h.result, owed_cons hpending]
    rfl
  · rw [egress_onSent]
    exact h.between p (by rw [hpending]; rfl) hdue
  · exact List.forall_mem_cons.mpr (List.forall_mem_cons.mp hsized)
  · exact List.forall_mem_cons.mpr ⟨rfl, hreported⟩

theorem Accounts.establish (h : s.Accounts) (hready : s.Ready) (conn : Nat) :
    (s.establish conn).Accounts := by
  have howed : (s.establish conn).owed = s.owed := by
    rw [owed, owed, SendState.establish, List.map_map]
    congr 1
    refine List.map_congr_left fun p _ => ?_
    rw [Function.comp_apply]
    split <;> rfl
  refine accounts_of_reported ⟨?_, fun _ => h.standIn hready, h.intact⟩ h.active ?_ ?_
  · rw [howed]
    exact h.result
  · refine List.forall_mem_map.mpr fun p hp => ?_
    split
    · exact h.sized p hp
    · exact h.sized p hp
  · refine List.forall_mem_map.mpr fun p hp => ?_
    split
    · exact h.reported_of_ready hready p hp
    · exact h.reported_of_ready hready p hp

/-- What is handed is no longer owed. -/
theorem Accounts.hand (h : s.Accounts) (hready : s.Ready) (hpending : s.pending = p :: rest)
    {count : Nat} (hcount : p.handed + count ≤ p.size) :
    ({ s with
      pending := { p with handed := p.handed + count } :: rest
      handed := s.handed + count } : SendState).Accounts := by
  have hsized := h.sized
  have hreported := h.reported_of_ready hready
  rw [hpending, List.forall_mem_cons] at hsized hreported
  refine accounts_of_reported ⟨?_, fun _ => h.standIn hready, h.intact⟩ h.active ?_ ?_
  · have hresult := h.result
    rw [owed_cons hpending] at hresult
    simp only [owed, List.map_cons, List.sum_cons, PendingSend.owed] at hresult ⊢
    omega
  · exact List.forall_mem_cons.mpr ⟨⟨hsized.1.1, hcount⟩, hsized.2⟩
  · exact List.forall_mem_cons.mpr hreported

/-- The innermost send is over: what it still owed is lost. -/
theorem Accounts.popped (h : s.Accounts) (hready : s.Ready) (hpending : s.pending = p :: rest)
    {record : RunProgress} (hrecord : record.egress = s.record.egress) {failed : Bool}
    (hintact : failed = false → s.lost + p.owed = 0) :
    ({ s with
      record := record
      pending := rest
      lost := s.lost + p.owed
      failed := failed } : SendState).Accounts := by
  have hsized := h.sized
  have hreported := h.reported_of_ready hready
  rw [hpending, List.forall_mem_cons] at hsized hreported
  refine accounts_of_reported ⟨?_, fun _ => hrecord.trans (h.standIn hready), hintact⟩ h.active
    hsized.2 hreported.2
  have hresult := h.result
  rw [owed_cons hpending] at hresult
  change s.counter.egress =
    s.handed + (rest.map PendingSend.owed).sum + (s.lost + p.owed)
  omega

end Moves

/-- **One step** keeps the accounts. -/
theorem Accounts.step (h : s.Accounts) {a : SendMove} (hstep : SendStep s a t)
    (hbytes : a.CarriesBytes) : t.Accounts := by
  cases hstep with
  | send hready =>
      cases hbytes
      exact h.begin hready _ _
  | report hpending hdue => exact h.report hpending hdue _
  | establish hready _ => exact h.establish hready _
  | hand hready hpending _ hcount => exact h.hand hready hpending hcount
  | @wrote p rest hready hpending _ hall =>
      have hcounted := (h.sized p (by rw [hpending]; exact List.mem_cons_self)).1
      have howed : p.owed = 0 := by
        rw [PendingSend.owed, hcounted, hall, Nat.sub_self]
      have hpopped : ({ s with pending := rest, lost := s.lost + p.owed } : SendState).Accounts :=
        h.popped hready hpending rfl fun hfailed => by rw [howed, h.intact hfailed]
      rwa [howed] at hpopped
  | fail hready hpending => exact h.popped hready hpending (egress_expire s _) nofun
  | close hready =>
      exact accounts_of_reported ⟨h.result, fun _ => h.standIn hready, h.intact⟩ h.active h.sized
        (h.reported_of_ready hready)

/-- A send that carries something is counted before any of it is handed. -/
theorem Accounts.carriesNothing (h : s.Accounts) {a : SendMove} (hstep : SendStep s a t)
    (hbytes : a.CarriesBytes) (hfaithful : t.Faithful) : a.CarriesNothing := by
  cases hstep with
  | @send conn size bytes hready =>
      cases hbytes
      have hresult := (h.begin hready conn size).result
      have hle := hfaithful.result_le
      rw [@owed_cons (s.begin conn size true) _ s.pending rfl] at hresult
      have hcounts : (s.counter.active && true) = true := by rw [h.active]; rfl
      simp only [PendingSend.owed, hcounts, if_true] at hresult
      change size = 0
      omega
  | report => trivial
  | establish => trivial
  | hand => trivial
  | wrote => trivial
  | fail => trivial
  | close => trivial

end SendState

variable {s : SendState} {r : List (SendMove × SendState)}

/-- A run that sends nothing is faithful throughout. -/
theorem faithful_of_carriesNothing (hs : s.Still) (hr : Run SendStep s r)
    (hnothing : ∀ e ∈ r, e.1.CarriesNothing) : ∀ t ∈ statesOf s r, t.Faithful := by
  rw [← along_target_iff]
  refine ⟨hs.faithful, ?_⟩
  induction hr with
  | nil s => trivial
  | cons hstep _ ih =>
      rw [List.forall_mem_cons] at hnothing
      have ht := hs.step hstep hnothing.1
      exact ⟨ht.faithful, ih ht hnothing.2⟩

/-- The accounts are kept in every state of a run that sends bytes. -/
theorem accounts_of_carriesBytes (hs : s.Accounts) (hr : Run SendStep s r)
    (hbytes : ∀ e ∈ r, e.1.CarriesBytes) : ∀ t ∈ statesOf s r, t.Accounts := by
  rw [← along_target_iff]
  refine ⟨hs, ?_⟩
  induction hr with
  | nil s => trivial
  | cons hstep _ ih =>
      rw [List.forall_mem_cons] at hbytes
      have ht := hs.step hstep hbytes.1
      exact ⟨ht, ih ht hbytes.2⟩

/-- A run of sends of bytes that is faithful throughout sends nothing. -/
theorem carriesNothing_of_faithful (hs : s.Accounts) (hr : Run SendStep s r)
    (hbytes : ∀ e ∈ r, e.1.CarriesBytes) (hfaithful : ∀ t ∈ statesOf s r, t.Faithful) :
    ∀ e ∈ r, e.1.CarriesNothing := by
  induction hr with
  | nil s => simp
  | @cons s t a r hstep _ ih =>
      rw [List.forall_mem_cons] at hbytes ⊢
      have hrest : ∀ u ∈ statesOf t r, u.Faithful := fun u hu =>
        hfaithful u (List.mem_cons_of_mem s hu)
      have ht : t.Faithful := hrest t List.mem_cons_self
      exact ⟨hs.carriesNothing hstep hbytes.1 ht, ih (hs.step hstep hbytes.1) hbytes.2 hrest⟩

/-- **The totals of a run.** They say at most what has been handed in every state of a run
that sends nothing, and, among the runs that send bytes only, of no other.  Of those both
totals say, in every state, what has been handed, what is still owed and what was lost. -/
theorem egress_handed_iff {made : ℚ} {established : Nat → Bool}
    {r : List (SendMove × SendState)} (hr : Run SendStep (.start made established) r) :
    ((∀ e ∈ r, e.1.CarriesNothing) →
      ∀ t ∈ statesOf (.start made established) r, t.Faithful) ∧
    ((∀ e ∈ r, e.1.CarriesBytes) →
      ((∀ t ∈ statesOf (.start made established) r, t.Faithful) ↔
        ∀ e ∈ r, e.1.CarriesNothing) ∧
      ∀ t ∈ statesOf (.start made established) r, t.Ahead) := by
  have hs := SendState.accounts_start made established
  have hstill := SendState.still_start made established
  refine ⟨faithful_of_carriesNothing hstill hr, fun hbytes => ⟨⟨?_, ?_⟩, fun t ht => ?_⟩⟩
  · exact carriesNothing_of_faithful hs hr hbytes
  · exact faithful_of_carriesNothing hstill hr
  · exact (accounts_of_carriesBytes hs hr hbytes t ht).toAhead

/-- A connection is established, and five bytes are sent on it. -/
def answeredRun : List (SendMove × SendState) :=
  let opened := (SendState.start 0 fun _ => false).establish 1
  let called := opened.begin 1 5 true
  let reported := { called with
    record := called.record.onSent 5 0
    pending := [⟨1, 5, 5, 0, true, false⟩] }
  let handed := { reported with pending := [⟨1, 5, 5, 5, true, false⟩], handed := 5 }
  [(.establish 1, opened), (.send 1 5 true, called), (.report 0, reported), (.hand 5, handed),
    (.wrote, { handed with pending := [] })]

/-- The totals are ahead between the hook and the write, and right when the send is over. -/
theorem egress_handed_iff_answered :
    (¬∀ t ∈ statesOf (.start 0 fun _ => false) answeredRun, t.Faithful) ∧
      (∀ t ∈ statesOf (.start 0 fun _ => false) answeredRun, t.Ahead) ∧
      (lastState (.start 0 fun _ => false) answeredRun).Faithful := by
  have hrun : Run SendStep (.start 0 fun _ => false) answeredRun :=
    .cons (.establish (by simp [SendState.Ready, SendState.start]) rfl) <|
    .cons (.send (by simp [SendState.Ready, SendState.start, SendState.establish])) <|
    .cons (.report (p := ⟨1, 5, 5, 0, true, true⟩) rfl rfl) <|
    .cons (.hand (p := ⟨1, 5, 5, 0, true, false⟩) (by simp [SendState.Ready]) rfl rfl
      (by decide)) <|
    .cons (.wrote (p := ⟨1, 5, 5, 5, true, false⟩) (by simp [SendState.Ready]) rfl rfl rfl) <|
    .nil _
  have hbytes : ∀ e ∈ answeredRun, e.1.CarriesBytes := by
    simp [answeredRun, SendMove.CarriesBytes]
  obtain ⟨hiff, hahead⟩ := (egress_handed_iff hrun).2 hbytes
  refine ⟨fun hfaithful => ?_, hahead, ⟨by decide, by decide, fun _ _ => ⟨rfl, rfl⟩, nofun⟩⟩
  have hnothing := hiff.mp hfaithful (.send 1 5 true, _)
    (List.mem_cons_of_mem _ List.mem_cons_self)
  exact absurd hnothing (by simp [SendMove.CarriesNothing])

/-- A send has to open its connection, and the target refuses it. -/
def refusedRun : List (SendMove × SendState) :=
  let called := (SendState.start 0 fun _ => false).begin 1 5 true
  let reported := { called with
    record := called.record.onSent 5 0
    pending := [⟨1, 5, 5, 0, false, false⟩] }
  [(.send 1 5 true, called), (.report 0, reported),
    (.fail none, { reported with pending := [], lost := 5, failed := true })]

/-- Both totals say five bytes, and none was handed to a connection. -/
theorem refused_send_counted :
    Run SendStep (.start 0 fun _ => false) refusedRun ∧
      (lastState (.start 0 fun _ => false) refusedRun).counter.egress = 5 ∧
      (lastState (.start 0 fun _ => false) refusedRun).record.egress = 5 ∧
      (lastState (.start 0 fun _ => false) refusedRun).handed = 0 ∧
      ¬∀ t ∈ statesOf (.start 0 fun _ => false) refusedRun, t.Faithful := by
  refine ⟨?_, rfl, rfl, rfl, fun h => ?_⟩
  · exact .cons (.send (by simp [SendState.Ready, SendState.start])) <|
      .cons (.report (p := ⟨1, 5, 5, 0, false, true⟩) rfl rfl) <|
      .cons (.fail (p := ⟨1, 5, 5, 0, false, false⟩) (by simp [SendState.Ready]) rfl) <|
      .nil _
  · have hlast := (h (lastState (.start 0 fun _ => false) refusedRun)
      (by simp [statesOf, refusedRun, lastState])).result_le
    exact absurd hlast (by decide)

end ProbeAgent
