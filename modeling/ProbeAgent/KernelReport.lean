import ProbeAgent.TcpState
import ProbeAgent.PyText
import ProbeAgent.StructLayout
import Mathlib.Data.Rat.Defs
import Mathlib.Tactic.Linarith

/-!
# Reading `struct tcp_info` (`services/tcp_state.py`)

The layout of the kernel's struct, the counters read off a buffer that may be shorter
than it, and what an endpoint verdict rests on.  A counter the kernel did not fill in
counts as zero in some places and as unknown in others; `endpoint_on_full_report` says
that none of those an endpoint verdict relies on is missing, because the one that is
never taken for zero comes last in the struct.
-/

namespace ProbeAgent

open PyText StructLayout

/-- The members of `struct tcp_info`, up to `rcv_ooopack`. -/
inductive TcpField
  | state | caState | retransmits | probes | backoff | options | wscale | flags
  | rto | ato | sndMss | rcvMss | unacked | sacked | lost | retrans | fackets
  | lastDataSent | lastAckSent | lastDataRecv | lastAckRecv
  | pmtu | rcvSsthresh | rtt | rttvar | sndSsthresh | sndCwnd | advmss | reordering
  | rcvRtt | rcvSpace | totalRetrans
  | pacingRate | maxPacingRate | bytesAcked | bytesReceived
  | segsOut | segsIn | notsentBytes | minRtt | dataSegsIn | dataSegsOut
  | deliveryRate | busyTime | rwndLimited | sndbufLimited
  | delivered | deliveredCe
  | bytesSent | bytesRetrans
  | dsackDups | reordSeen | rcvOoopack
deriving DecidableEq

/-- The format characters of `struct`. -/
inductive Code
  | B
  | I
  | Q
deriving DecidableEq

/-- `struct.calcsize` of one character. -/
def Code.size : Code → Nat
  | B => 1
  | I => 4
  | Q => 8

theorem Code.size_pos (c : Code) : 0 < c.size := by
  cases c <;> decide

/-- `struct.calcsize` of a format, natively aligned and without padding at its end. -/
def calcsize (fmt : List Code) : Nat :=
  packedEnd (fmt.map Code.size)

/-- Members that share a format character. -/
def membersOf (code : Code) (names : List TcpField) : List (TcpField × Code) :=
  names.map fun name => (name, code)

/-- `_FIELDS`. -/
def tcpFields : List (TcpField × Code) :=
  List.flatten
    [membersOf .B [.state, .caState, .retransmits, .probes, .backoff, .options, .wscale, .flags],
      membersOf .I [.rto, .ato, .sndMss, .rcvMss, .unacked, .sacked, .lost, .retrans, .fackets,
        .lastDataSent, .lastAckSent, .lastDataRecv, .lastAckRecv,
        .pmtu, .rcvSsthresh, .rtt, .rttvar, .sndSsthresh, .sndCwnd, .advmss, .reordering,
        .rcvRtt, .rcvSpace, .totalRetrans],
      membersOf .Q [.pacingRate, .maxPacingRate, .bytesAcked, .bytesReceived],
      membersOf .I [.segsOut, .segsIn, .notsentBytes, .minRtt, .dataSegsIn, .dataSegsOut],
      membersOf .Q [.deliveryRate, .busyTime, .rwndLimited, .sndbufLimited],
      membersOf .I [.delivered, .deliveredCe],
      membersOf .Q [.bytesSent, .bytesRetrans],
      membersOf .I [.dsackDups, .reordSeen, .rcvOoopack]]

/-- The loop of `_offsets`, after the members of `fmt`. -/
def offsetsFrom (fmt : List Code) : List (TcpField × Code) → List (TcpField × Nat × Code)
  | [] => []
  | (name, code) :: rest =>
      (name, calcsize (fmt ++ [code]) - calcsize [code], code) :: offsetsFrom (fmt ++ [code]) rest

/-- `_OFFSETS`. -/
def tcpOffsets : List (TcpField × Nat × Code) :=
  offsetsFrom [] tcpFields

/-- `_SIZE`. -/
def tcpInfoSize : Nat :=
  (tcpOffsets.map fun (_, start, code) => start + code.size).foldl max 0

/-- The byte order of the machine. -/
inductive ByteOrder
  | little
  | big
deriving DecidableEq

/-- `struct.unpack` of one unsigned number. -/
def unpack (order : ByteOrder) (bytes : Bytes) : Nat :=
  match order with
  | .little => bytes.foldr (fun b n => b.toNat + 256 * n) 0
  | .big => bytes.foldl (fun n b => 256 * n + b.toNat) 0

/-- `_STATES.get(n, n)`. -/
def connState : Nat → ConnState
  | 1 => .established
  | 2 => .synSent
  | 4 => .finWait1
  | 7 => .close
  | 8 => .closeWait
  | n => .other n

section Buffer

variable (order : ByteOrder) (raw : Bytes)

/-- A counter of the buffer; none where the buffer ends before it does. -/
def counter (name : TcpField) : Option Nat :=
  (tcpOffsets.lookup name).bind fun (start, code) =>
    if start + code.size ≤ raw.length then
      some (unpack order ((raw.drop start).take code.size))
    else none

/-- What is kept of the buffer, the times in milliseconds. -/
def tcpInfoOf : TcpInfo where
  state := (counter order raw .state).map connState
  retransmits := counter order raw .retransmits
  backoff := counter order raw .backoff
  unacked := counter order raw .unacked
  lost := counter order raw .lost
  totalRetrans := counter order raw .totalRetrans
  rtt := (counter order raw .rtt).map (· / 1000)
  minRtt := (counter order raw .minRtt).map (· / 1000)
  lastDataRecv := counter order raw .lastDataRecv
  lastAckRecv := counter order raw .lastAckRecv
  bytesReceived := counter order raw .bytesReceived
  dataSegsIn := counter order raw .dataSegsIn
  rcvOoopack := counter order raw .rcvOoopack
  dsackDups := counter order raw .dsackDups

@[simp] theorem tcpInfoOf_state :
    (tcpInfoOf order raw).state = (counter order raw .state).map connState := by
  simp only [tcpInfoOf]

@[simp] theorem tcpInfoOf_rcvOoopack :
    (tcpInfoOf order raw).rcvOoopack = counter order raw .rcvOoopack := by
  simp only [tcpInfoOf]

@[simp] theorem tcpInfoOf_dataSegsIn :
    (tcpInfoOf order raw).dataSegsIn = counter order raw .dataSegsIn := by
  simp only [tcpInfoOf]

end Buffer

/-- What `read` asks of the system. -/
structure Kernel where
  /-- `socket.TCP_INFO` exists here. -/
  hasTcpInfo : Bool
  order : ByteOrder
  /-- The option read through a duplicate of the descriptor, into a buffer of that
  size; none is `OSError` from either call. -/
  tcpInfo : Int → Nat → Option Bytes

/-- The TCP state of the connection on a descriptor, or none when it cannot be read. -/
def Kernel.read (k : Kernel) (fd : Int) : Option TcpInfo :=
  if k.hasTcpInfo = false ∨ fd < 0 then none
  else (k.tcpInfo fd tcpInfoSize).map (tcpInfoOf k.order)

/-! ## The layout -/

/-- The member lies there, naturally aligned. -/
def LiesAt (name : TcpField) (code : Code) (start : Nat) : Prop :=
  ∃ pre post, tcpFields = pre ++ (name, code) :: post ∧
    Starts (pre.map fun m => m.2.size) code.size start

theorem calcsize_snoc (fmt : List Code) (code : Code) :
    calcsize (fmt ++ [code]) - calcsize [code] = alignUp (calcsize fmt) code.size := by
  have hone : calcsize [code] = code.size := by
    cases code <;> decide
  rw [hone, calcsize, List.map_append, List.map_singleton, packedEnd_snoc, Nat.add_sub_cancel,
    calcsize]

theorem sizes_pos (fmt : List Code) : ∀ a ∈ fmt.map Code.size, 0 < a := by
  intro a ha
  obtain ⟨c, -, rfl⟩ := List.mem_map.mp ha
  exact c.size_pos

/-- Each entry of `_OFFSETS` is made of one member and those before it. -/
theorem mem_offsetsFrom {name : TcpField} {start : Nat} {code : Code} :
    ∀ {fmt : List Code} {members : List (TcpField × Code)},
      (name, start, code) ∈ offsetsFrom fmt members →
        ∃ pre post, members = pre ++ (name, code) :: post ∧
          start = alignUp (calcsize (fmt ++ pre.map Prod.snd)) code.size
  | _, [], h => nomatch h
  | fmt, (name', code') :: rest, h => by
      rw [offsetsFrom] at h
      rcases List.mem_cons.mp h with h | h
      · cases h
        exact ⟨[], rest, rfl, by rw [calcsize_snoc, List.map_nil, List.append_nil]⟩
      · obtain ⟨pre, post, rfl, hstart⟩ := mem_offsetsFrom h
        exact ⟨(name', code') :: pre, post, rfl, by simpa using hstart⟩

/-- The offsets are those of the naturally aligned struct, and no member ends after it. -/
theorem liesAt_of_mem {name : TcpField} {start : Nat} {code : Code}
    (h : (name, start, code) ∈ tcpOffsets) :
    LiesAt name code start ∧ start + code.size ≤ calcsize (tcpFields.map Prod.snd) := by
  obtain ⟨pre, post, hsplit, hstart⟩ := mem_offsetsFrom h
  rw [List.nil_append] at hstart
  constructor
  · refine ⟨pre, post, hsplit, ?_⟩
    have hsizes : (pre.map fun m => m.2.size) = (pre.map Prod.snd).map Code.size := by
      simp
    rw [hsizes, starts_iff (sizes_pos _) code.size_pos, hstart, calcsize]
  · have hend := packedEnd_append (((pre.map Prod.snd) ++ [code]).map Code.size)
      ((post.map Prod.snd).map Code.size) (sizes_pos _)
    rw [List.map_append, List.map_singleton, packedEnd_snoc] at hend
    rw [hstart, hsplit, calcsize, calcsize]
    simpa using hend

/-! ## What was filled in -/

section Filled

variable {order : ByteOrder} {raw : Bytes} {name : TcpField}

/-- The kernel filled the member in: it lies wholly inside the buffer, and holds `v`. -/
def FilledIn (order : ByteOrder) (raw : Bytes) (name : TcpField) (v : Nat) : Prop :=
  ∃ code start, LiesAt name code start ∧ start + code.size ≤ raw.length ∧
    v = unpack order ((raw.drop start).take code.size)

theorem mem_of_lookup {start : Nat} {code : Code}
    (h : tcpOffsets.lookup name = some (start, code)) : (name, start, code) ∈ tcpOffsets := by
  obtain ⟨l₁, l₂, hsplit, -⟩ := List.lookup_eq_some_iff.mp h
  rw [hsplit]
  exact List.mem_append_right l₁ List.mem_cons_self

theorem filledIn_of_counter {v : Nat} (h : counter order raw name = some v) :
    FilledIn order raw name v := by
  obtain ⟨⟨start, code⟩, hlookup, hread⟩ := Option.bind_eq_some_iff.mp h
  obtain ⟨hlies, -⟩ := liesAt_of_mem (mem_of_lookup hlookup)
  simp only at hread
  split at hread
  · rename_i hend
    exact ⟨code, start, hlies, hend, (Option.some.inj hread).symm⟩
  · cases hread

theorem lookup_isSome (name : TcpField) : (tcpOffsets.lookup name).isSome = true := by
  cases name <;> decide +kernel

theorem lookup_dataSegsIn : tcpOffsets.lookup .dataSegsIn = some (152, .I) := by
  decide +kernel

/-- The last member ends where the struct does. -/
theorem lookup_rcvOoopack : tcpOffsets.lookup .rcvOoopack = some (224, .I) := by
  decide +kernel

theorem calcsize_tcpFields : calcsize (tcpFields.map Prod.snd) = 228 := by
  decide +kernel

/-- A buffer that holds `rcv_ooopack` holds every member. -/
theorem counter_isSome (hlast : counter order raw .rcvOoopack ≠ none) (name : TcpField) :
    ∃ v, counter order raw name = some v := by
  have hlength : 228 ≤ raw.length := by
    rw [counter, lookup_rcvOoopack, Option.bind_some] at hlast
    by_contra hshort
    exact hlast (if_neg hshort)
  obtain ⟨⟨start, code⟩, hlookup⟩ := Option.isSome_iff_exists.mp (lookup_isSome name)
  obtain ⟨-, hend⟩ := liesAt_of_mem (mem_of_lookup hlookup)
  rw [calcsize_tcpFields] at hend
  refine ⟨unpack order ((raw.drop start).take code.size), ?_⟩
  rw [counter, hlookup, Option.bind_some]
  exact if_pos (by omega)

/-- Where the last member was filled in, a counter taken for zero is zero. -/
theorem filledIn_zero (hlast : counter order raw .rcvOoopack ≠ none)
    (hzero : (counter order raw name).getD 0 = 0) : FilledIn order raw name 0 := by
  obtain ⟨v, hv⟩ := counter_isSome hlast name
  rw [hv, Option.getD_some] at hzero
  rw [hzero] at hv
  exact filledIn_of_counter hv

end Filled

/-- Every counter an endpoint verdict relies on was filled in, and shows no loss. -/
structure CleanReport (order : ByteOrder) (raw : Bytes) : Prop where
  state : ∃ n, FilledIn order raw .state n ∧ connState n ≠ .synSent
  retransmits : FilledIn order raw .retransmits 0
  totalRetrans : FilledIn order raw .totalRetrans 0
  unacked : FilledIn order raw .unacked 0
  received : ∃ segs ooo, FilledIn order raw .dataSegsIn segs ∧
    FilledIn order raw .rcvOoopack ooo ∧ (ooo < 2 ∨ (ooo : ℚ) < segs * (1 / 100))

theorem unpack_lt (order : ByteOrder) (bytes : Bytes) :
    unpack order bytes < 256 ^ bytes.length := by
  cases order with
  | little =>
      induction bytes with
      | nil => exact Nat.one_pos
      | cons b bytes ih =>
          have hb := b.toNat_lt
          simp only [unpack, List.foldr_cons, List.length_cons, Nat.pow_succ] at ih ⊢
          omega
  | big =>
      induction bytes using List.reverseRecOn with
      | nil => exact Nat.one_pos
      | append_singleton bytes b ih =>
          have hb := b.toNat_lt
          simp only [unpack, List.foldl_append, List.foldl_cons, List.foldl_nil,
            List.length_append, List.length_singleton, Nat.pow_succ] at ih ⊢
          omega

/-- `data_segs_in` is counted by 32 bits. -/
theorem dataSegsIn_lt {order : ByteOrder} {raw : Bytes} {segs : Nat}
    (h : counter order raw .dataSegsIn = some segs) : segs < 2 ^ 32 := by
  rw [counter, lookup_dataSegsIn, Option.bind_some] at h
  simp only at h
  split at h
  · obtain rfl := Option.some.inj h
    refine (unpack_lt order _).trans_le ?_
    have hlength := List.length_take_le Code.I.size (raw.drop 152)
    exact Nat.pow_le_pow_right (by decide : 0 < 256) hlength
  · cases h

theorem cleanReport_of_endpoint {order : ByteOrder} {raw : Bytes} {phase : Phase}
    (h : (verdict phase (some (tcpInfoOf order raw))).1 = .endpoint) : CleanReport order raw := by
  obtain ⟨t, ht, -, -, hstate, hlossy, hunacked⟩ := (verdict_endpoint_iff _ _).mp h
  cases ht
  obtain ⟨htotal, hretransmits, ooo, hooo, hfew⟩ := (lossy_eq_false_iff _).mp hlossy
  rw [tcpInfoOf_rcvOoopack] at hooo
  have hlast : counter order raw .rcvOoopack ≠ none := by
    rw [hooo]
    exact Option.some_ne_none ooo
  obtain ⟨n, hn⟩ := counter_isSome hlast .state
  obtain ⟨segs, hsegs⟩ := counter_isSome hlast .dataSegsIn
  refine ⟨⟨n, filledIn_of_counter hn, ?_⟩, filledIn_zero hlast hretransmits,
    filledIn_zero hlast htotal, filledIn_zero hlast hunacked,
    segs, ooo, filledIn_of_counter hsegs, filledIn_of_counter hooo, ?_⟩
  · rintro hsyn
    refine hstate ?_
    rw [tcpInfoOf_state, hn, Option.map_some, hsyn]
  · rw [tcpInfoOf_dataSegsIn, hsegs, Option.getD_some, share_le_iff (dataSegsIn_lt hsegs), oooMin,
      not_and_or, Nat.not_le, Nat.not_le] at hfew
    refine hfew.imp id fun hshare => ?_
    have hcast : (100 * ooo : ℚ) < segs := by
      exact_mod_cast hshare
    linarith

/-! ## More loss -/

/-- The counter is no less than it was; a missing one is still missing. -/
def NoLess : Option Nat → Option Nat → Prop
  | some m, some n => m ≤ n
  | none, none => True
  | _, _ => False

theorem NoLess.pos {a b : Option Nat} (h : NoLess a b) (hpos : 0 < a.getD 0) :
    0 < b.getD 0 := by
  cases a with
  | none => simp at hpos
  | some m =>
      cases b with
      | none => cases h
      | some n => exact Nat.lt_of_lt_of_le hpos h

theorem lossy_of_noLess {t : TcpInfo} {retransmits totalRetrans rcvOoopack : Option Nat}
    (hretransmits : NoLess t.retransmits retransmits)
    (htotal : NoLess t.totalRetrans totalRetrans) (hooo : NoLess t.rcvOoopack rcvOoopack)
    (h : lossy t = some true) :
    lossy { t with
      retransmits := retransmits
      totalRetrans := totalRetrans
      rcvOoopack := rcvOoopack } = some true := by
  rw [lossy_eq_true_iff] at h ⊢
  rcases h with h | h | ⟨ooo, hsome, hmin, hshare⟩
  · exact .inl (htotal.pos h)
  · exact .inr (.inl (hretransmits.pos h))
  · rw [hsome] at hooo
    cases rcvOoopack with
    | none => cases hooo
    | some more =>
        have hmore : ooo ≤ more := hooo
        have hcast : (ooo : ℚ) ≤ more := by exact_mod_cast hmore
        exact .inr (.inr ⟨more, rfl, hmin.trans hmore, hshare.trans hcast⟩)

/-- **What an endpoint verdict rests on.** Whatever buffer the kernel returns, an
endpoint verdict is given only where every counter it relies on was filled in and shows
no loss; and higher loss counters never turn a network verdict into another. -/
theorem endpoint_on_full_report (k : Kernel) (fd : Int) (phase : Phase) :
    ((verdict phase (k.read fd)).1 = .endpoint →
        ∃ raw, k.tcpInfo fd tcpInfoSize = some raw ∧ CleanReport k.order raw) ∧
      ∀ (t : TcpInfo) (retransmits totalRetrans rcvOoopack : Option Nat),
        NoLess t.retransmits retransmits → NoLess t.totalRetrans totalRetrans →
        NoLess t.rcvOoopack rcvOoopack → (verdict phase (some t)).1 = .network →
        (verdict phase (some { t with
          retransmits := retransmits
          totalRetrans := totalRetrans
          rcvOoopack := rcvOoopack })).1 = .network := by
  constructor
  · intro h
    rw [Kernel.read] at h
    split at h
    · obtain ⟨t, ht, -⟩ := (verdict_endpoint_iff _ _).mp h
      cases ht
    · cases hraw : k.tcpInfo fd tcpInfoSize with
      | none =>
          rw [hraw, Option.map_none] at h
          obtain ⟨t, ht, -⟩ := (verdict_endpoint_iff _ _).mp h
          cases ht
      | some raw =>
          rw [hraw, Option.map_some] at h
          exact ⟨raw, rfl, cleanReport_of_endpoint h⟩
  · intro t retransmits totalRetrans rcvOoopack hretransmits htotal hooo h
    rw [verdict_network_iff] at h ⊢
    rcases h with h | ⟨t', ht', hwire, hloss⟩
    · exact .inl h
    · cases ht'
      refine .inr ⟨_, rfl, hwire, ?_⟩
      exact hloss.imp id (Or.imp id (lossy_of_noLess hretransmits htotal hooo))

end ProbeAgent
