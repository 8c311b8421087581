import ProbeAgent.EgressGuard
import ProbeAgent.Reach

/-!
# The witness under the egress policy (`executor._reach_sync`)

A witness dials a tenant's target, so its calls are made inside an `active()` block when the
policy is on.  The policy then decides at the resolution: an answer that is rejected ends the
call before anything is dialled, and an answer that passes is dialled as it would be without
the policy (`reach_guarded`).
-/

namespace ProbeAgent

open PyText

section Guarded

variable (caseMap : CaseMap)

/-- The text `_guarded_getaddrinfo` refuses an answer with. -/
def resolutionRefusal (host : PyStr) (addresses : List PyStr) : PyStr :=
  py "egress refused: " ++ host ++
    if hostIsBlocked caseMap host then py " is a blocked internal host"
    else py " resolves to blocked address " ++ (addresses.find? ipIsBlocked).getD []

/-- A resolution through the layers: `answer` is the first address of the original and those
after it, or why it has none. -/
def resolvedThrough (active : Bool) (layers : List Layer) (host : PyStr)
    (answer : Except CallError (PyStr × List PyStr)) : Except CallError PyStr :=
  match answer with
  | .error e => .error e
  | .ok (first, others) =>
      match getaddrinfoThrough caseMap active (some host) (some (first :: others)) layers with
      | .answered (address :: _) => .ok address
      | _ => .error (.caught (.blocked (resolutionRefusal caseMap host (first :: others))))

/-- An attempt whose connect goes through the layers; `refusal` is the text a refused one
has. -/
def AttemptIO.through (active : Bool) (layers : List Layer) (address refusal : PyStr)
    (io : AttemptIO) : AttemptIO :=
  { io with
    connect :=
      match connectThrough active (.tuple [some address]) layers with
      | .refused => .error (.caught (.blocked refusal))
      | .reached _ => io.connect }

/-- `_reach_sync`: `enabled` is `_egress_enabled`. -/
def reachSync (enabled : Bool) (layers : List Layer) (refusal host : PyStr)
    (answer : Except CallError (PyStr × List PyStr)) (dnsMs : Int) (useTls : Bool)
    (attempts : List AttemptIO) : Except PyExc Reached :=
  match resolvedThrough caseMap enabled layers host answer with
  | .error e => reach (.error e) dnsMs useTls []
  | .ok address =>
      reach (.ok address) dnsMs useTls (attempts.map (·.through enabled layers address refusal))

end Guarded

section Decided

variable {caseMap : CaseMap} {enabled : Bool} {layers : List Layer}

/-- Where no target is refused, an attempt is made as without the layers. -/
theorem AttemptIO.through_eq {address : PyStr} (h : ¬(.guard ∈ layers ∧ enabled = true) ∨
    Vetted address) (refusal : PyStr) (io : AttemptIO) :
    io.through enabled layers address refusal = io := by
  have hpassed : connectThrough enabled (.tuple [some address]) layers =
      .reached (.tuple [some address]) := by
    rw [connectThrough_eq, if_neg]
    rintro ⟨hguard, henabled, hblocked⟩
    rcases h with h | h
    · exact h ⟨hguard, henabled⟩
    · rw [(targetIsBlocked_eq_false_iff _).mpr ⟨address, [], rfl, h⟩] at hblocked
      cases hblocked
  simp only [ AttemptIO.through, hpassed]

/-- The policy is on, and the host or some address of the answer is blocked. -/
def ResolutionBlocked (caseMap : CaseMap) (enabled : Bool) (layers : List Layer)
    (host : PyStr) (addresses : List PyStr) : Prop :=
  .guard ∈ layers ∧ enabled = true ∧
    (hostIsBlocked caseMap host = true ∨ ∃ ip ∈ addresses, ¬Vetted ip)

theorem resolutionBlocked_iff {host : PyStr} {addresses : List PyStr} :
    ResolutionBlocked caseMap enabled layers host addresses ↔
      .guard ∈ layers ∧ enabled = true ∧
        answerIsBlocked caseMap (some host) addresses = true := by
  rw [ResolutionBlocked, answerIsBlocked_iff]
  simp

/-- **The policy decides before anything is dialled.** A witness refuses the answers of which
the host or some address is blocked, naming it and with no attempt made; whatever else it is
asked, and whatever the original answered, it answers as without the policy. -/
theorem reach_guarded (caseMap : CaseMap) (enabled : Bool) (layers : List Layer)
    (refusal host : PyStr) (answer : Except CallError (PyStr × List PyStr)) (dnsMs : Int)
    (useTls : Bool) (attempts : List AttemptIO) :
    (∀ first others, answer = .ok (first, others) →
      ResolutionBlocked caseMap enabled layers host (first :: others) →
        reachSync caseMap enabled layers refusal host answer dnsMs useTls attempts =
          .ok { path := .refused
                error := some (resolutionRefusal caseMap host (first :: others))
                attempts := [] }) ∧
      ((∀ first others, answer = .ok (first, others) →
          ¬ResolutionBlocked caseMap enabled layers host (first :: others)) →
        reachSync caseMap enabled layers refusal host answer dnsMs useTls attempts =
          reach (answer.map Prod.fst) dnsMs useTls attempts) := by
  constructor
  · rintro first others rfl hblocked
    have hrefused : resolvedThrough caseMap enabled layers host (.ok (first, others)) =
        .error (.caught (.blocked (resolutionRefusal caseMap host (first :: others)))) := by
      simp only [resolvedThrough, getaddrinfoThrough_eq,
        if_pos (resolutionBlocked_iff.mp hblocked)]
    rw [reachSync, hrefused]
    rfl
  · intro hpass
    cases answer with
    | error e => rcases e with (_ | _) | _ <;> rfl
    | ok addresses =>
        obtain ⟨first, others⟩ := addresses
        have hnot := hpass first others rfl
        have hresolved : resolvedThrough caseMap enabled layers host (.ok (first, others)) =
            .ok first := by
          simp only [resolvedThrough, getaddrinfoThrough_eq,
            if_neg (mt resolutionBlocked_iff.mpr hnot)]
        have hvetted : ¬(.guard ∈ layers ∧ enabled = true) ∨ Vetted first := by
          by_contra hneither
          rw [not_or, not_not] at hneither
          exact hnot ⟨hneither.1.1, hneither.1.2,
            .inr ⟨first, List.mem_cons_self, hneither.2⟩⟩
        have hattempts : attempts.map (·.through enabled layers first refusal) = attempts := by
          conv_rhs => rw [← List.map_id attempts]
          exact List.map_congr_left fun io _ => AttemptIO.through_eq hvetted refusal io
        rw [reachSync, hresolved]
        simp only [hattempts]
        rfl

end Decided

end ProbeAgent
