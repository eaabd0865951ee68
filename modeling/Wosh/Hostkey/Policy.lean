import Wosh.Hostkey.Known

set_option relaxedAutoImplicit false
set_option autoImplicit false

/-!
# What the listener does about a host key

The policy of `hostkey/src/lib.rs`: a verdict on an observed key and what to tell the operator, from
what known_hosts says about the key, and for a key that changed under a running listener.

## Main definitions

* `Hostkey.Verdict`, `Hostkey.Decision` — what to do, and the line to show.
* `Hostkey.policy`, `Hostkey.policyChanged` — the two tables.
-/

namespace Hostkey

/-- What the listener should do about an observed host key. -/
inductive Verdict
  | corroborated
  | unverified
  | refuse
  | silent
deriving DecidableEq

/-- A verdict and the line to show the operator. -/
structure Decision where
  verdict : Verdict
  message : String
deriving DecidableEq

/-- True when the connection must not proceed. -/
def Decision.refuses (d : Decision) : Bool := d.verdict = .refuse

/-- The whole policy, as a function of what was seen and where. -/
def policy (lookup : Lookup) (fingerprint : String) (target : SocketAddr) (allowMismatch : Bool) :
    Decision :=
  match lookup with
  | .matched => {
      verdict := .corroborated
      message := "host key of " ++ target.text ++ ": " ++ fingerprint ++
        " (matches known_hosts -- compare it with what your browser shows)" }
  | .revoked => {
      verdict := .refuse
      message := "REFUSED: the host key " ++ target.text ++ " presented (" ++ fingerprint ++
        ") is marked @revoked in known_hosts. This connection was torn down. " ++
        "--allow-host-key-mismatch does not override a revocation." }
  | .mismatch known =>
    let known := if known = [] then "(none readable)" else ", ".intercalate known
    if allowMismatch then {
      verdict := .unverified
      message := "WARNING: host key of " ++ target.text ++ ": " ++ fingerprint ++
        " -- this does NOT match known_hosts, which has " ++ known ++ ". Proceeding only because " ++
        "--allow-host-key-mismatch was passed; this fingerprint is UNVERIFIED and may be an " ++
        "interposed server." }
    else {
      verdict := .refuse
      message := "REFUSED: the host key " ++ target.text ++ " presented (" ++ fingerprint ++
        ") does not match known_hosts, which has " ++ known ++ ". This connection was torn down. " ++
        "If the target legitimately re-keyed, update known_hosts -- or pass " ++
        "--allow-host-key-mismatch to proceed with an unverified key." }
  | .unknown =>
    if isLoopback target then {
      verdict := .unverified
      message := "host key of " ++ target.text ++ ": " ++ fingerprint ++
        " (observed on the local sshd; no known_hosts entry corroborates it -- compare it with " ++
        "what your browser shows)" }
    else {
      verdict := .silent
      message := "host key of " ++ target.text ++ ": not shown -- there is no known_hosts entry " ++
        "for it and the target is not loopback, so an observed fingerprint would corroborate " ++
        "nothing. Add the host to known_hosts to have it checked." }

/-- The same policy for a target whose key changed under us. -/
def policyChanged (previous fingerprint : String) (target : SocketAddr) (allowMismatch : Bool) :
    Decision :=
  if allowMismatch then {
    verdict := .unverified
    message := "WARNING: the host key of " ++ target.text ++ " CHANGED mid-run: was " ++ previous ++
      ", now " ++ fingerprint ++ ". Proceeding only because --allow-host-key-mismatch was passed; " ++
      "this fingerprint is UNVERIFIED." }
  else {
    verdict := .refuse
    message := "REFUSED: the host key of " ++ target.text ++ " CHANGED mid-run: was " ++ previous ++
      ", now " ++ fingerprint ++ ". Something else is answering on that address. This connection " ++
      "was torn down; pass --allow-host-key-mismatch if you really did re-key the target under a " ++
      "running listener." }

/-- The policy refuses what is revoked, and a mismatch unless the operator allowed it. -/
theorem policy_refuses (lookup : Lookup) (fingerprint : String) (target : SocketAddr)
    (allowMismatch : Bool) :
    (policy lookup fingerprint target allowMismatch).refuses = true ↔
      lookup = .revoked ∨ ((∃ known, lookup = .mismatch known) ∧ allowMismatch = false) := by
  cases lookup with
  | matched => simp [policy, Decision.refuses]
  | revoked => simp [policy, Decision.refuses]
  | mismatch known => cases allowMismatch <;> simp [policy, Decision.refuses]
  | unknown =>
    unfold policy
    split_ifs <;> simp [Decision.refuses]

/-- A changed key is refused unless the operator allowed it. -/
theorem policyChanged_refuses (previous fingerprint : String) (target : SocketAddr)
    (allowMismatch : Bool) :
    (policyChanged previous fingerprint target allowMismatch).refuses = !allowMismatch := by
  cases allowMismatch <;> rfl

end Hostkey
